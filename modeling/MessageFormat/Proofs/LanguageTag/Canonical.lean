import Mathlib.Data.List.Forall2
import MessageFormat.LanguageTag
import MessageFormat.Proofs.Grammar.Words

/-!
# The canonical form of a language tag

Reading a language tag looks at the subtags between the separators, and at each of them only up
to the case of its letters: every test on a subtag, every case it is put in and hence every step
of the reading give the same answer on a subtag and on its lower case (`add_fold`,
`IsTagOf.of_map_fold`).

Two things follow.  Texts that are alike, being the same up to case, separators and the blanks
around them, have the same subtags up to case and so are the same tag.  And the subtags that a tag
is written with are those it was read from, again up to case (`IsTagOf.map_fold_subtags`), so its
canonical text is read back as the tag itself.  Both are stated in `parse_canonical`, with the
grammar of the texts that are tags at all.
-/

namespace MessageFormat.LanguageTag

/-! ## The grammar -/

/-- What stands between subtags. -/
def isSeparator (c : Char) : Bool := c == '-' || c == '_'

/-- The parts of a text between its separators. -/
def subtagsOf (text : List Char) : List (List Char) := text.splitOnP isSeparator

/-- The texts that are language tags: a language of two to eight letters, and further subtags of
one to eight letters and digits. -/
def IsTag (text : List Char) : Prop :=
  text ≠ [] ∧ (∀ subtag ∈ subtagsOf text, subtag ≠ []) ∧
    ∃ language others, subtagsOf text = language :: others ∧
      ((∀ c ∈ language, isAsciiLetter c) ∧ 2 ≤ language.length ∧ language.length ≤ 8) ∧
      ∀ subtag ∈ others, (∀ c ∈ subtag, isAsciiLetter c ∨ isAsciiDigit c) ∧
        1 ≤ subtag.length ∧ subtag.length ≤ 8

/-- Characters that do not tell tags apart: a letter in either case, and the two separators. -/
def AlikeChar (c d : Char) : Prop :=
  c.toLower = d.toLower ∨ isSeparator c = true ∧ isSeparator d = true

instance : DecidableRel AlikeChar := fun _ _ => inferInstanceAs (Decidable (_ ∨ _))

/-- Texts that differ only in case, in the choice of separators and in the blanks around them. -/
def Alike (a b : String) : Prop :=
  List.Forall₂ AlikeChar (Text.trim a.toList) (Text.trim b.toList)

instance : DecidableRel Alike := fun _ _ => inferInstanceAs (Decidable (List.Forall₂ ..))

/-! ## Reading from subtags -/

/-- The tag that a list of subtags stands for. -/
def IsTagOf (subtags : List (List Char)) (tag : LanguageTag) : Prop :=
  (∀ subtag ∈ subtags, subtag ≠ []) ∧
    ∃ language others, subtags = language :: others ∧ isLanguage language = true ∧
      (∀ subtag ∈ others, isSubtag subtag = true) ∧
      tag = others.foldl add { language := lower language }

theorem addAll_eq_ok_iff {text : String} {start tag : LanguageTag} {subtags : List (List Char)} :
    addAll text start subtags = .ok tag ↔
      (∀ subtag ∈ subtags, isSubtag subtag = true) ∧ tag = subtags.foldl add start := by
  induction subtags generalizing start with
  | nil =>
    rw [addAll, Except.ok.injEq, eq_comm]
    simp
  | cons subtag subtags ih =>
    rw [addAll]
    by_cases h : isSubtag subtag
    · rw [if_pos h, ih]
      simp [h]
    · simp [h]

/-- The subtags decide: a text is read as the tag of its subtags. -/
theorem parse_eq_ok_iff {input : String} {tag : LanguageTag} :
    parse input = .ok tag ↔ IsTagOf (subtagsOf (Text.trim input.toList)) tag := by
  have hempty : ∀ {subtags : List (List Char)},
      subtags.any List.isEmpty = false ↔ ∀ subtag ∈ subtags, subtag ≠ [] := by simp
  have hsplit : ∀ text : List Char,
      (text.splitOnP fun c => c == '-' || c == '_') = subtagsOf text := fun _ => rfl
  unfold parse
  dsimp only
  rw [hsplit]
  generalize Text.trim input.toList = trimmed
  by_cases hnil : trimmed = []
  · subst hnil
    simp [IsTagOf, subtagsOf]
  rw [if_neg (by simpa using hnil)]
  by_cases hany : (subtagsOf trimmed).any List.isEmpty = true
  · rw [if_pos hany]
    simp only [reduceCtorEq, IsTagOf, ← hempty, hany, Bool.true_eq_false, false_and]
  · rw [if_neg hany]
    rw [Bool.not_eq_true, hempty] at hany
    obtain ⟨language, others, hsubtags⟩ :=
      List.exists_cons_of_ne_nil (List.splitOnP_ne_nil isSeparator trimmed)
    rw [← subtagsOf] at hsubtags
    simp only [IsTagOf, hsubtags] at hany ⊢
    by_cases hlanguage : isLanguage language
    · rw [if_pos hlanguage, addAll_eq_ok_iff]
      constructor
      · intro h
        exact ⟨hany, language, others, rfl, hlanguage, h⟩
      · rintro ⟨-, _, _, heq, -, h⟩
        cases heq
        exact h
    · rw [if_neg hlanguage]
      constructor
      · simp
      · rintro ⟨-, _, _, heq, h, -⟩
        cases heq
        exact absurd h hlanguage

/-- A text is read as a tag exactly if it is in the grammar. -/
theorem exists_isTagOf_iff {text : List Char} :
    (∃ tag, IsTagOf (subtagsOf text) tag) ↔ IsTag text := by
  constructor
  · rintro ⟨tag, hne, language, others, hsubtags, hlanguage, hothers, -⟩
    refine ⟨?_, hne, language, others, hsubtags, ?_, ?_⟩
    · rintro rfl
      exact hne [] (by simp [subtagsOf]) rfl
    · simpa [isLanguage, and_assoc] using hlanguage
    · intro subtag hmem
      have hpos : 1 ≤ subtag.length :=
        List.length_pos_iff.2 (hne subtag (hsubtags ▸ List.mem_cons_of_mem language hmem))
      have hchars : (∀ c ∈ subtag, isAsciiLetter c ∨ isAsciiDigit c) ∧ subtag.length ≤ 8 := by
        simpa [isSubtag] using hothers subtag hmem
      exact ⟨hchars.1, hpos, hchars.2⟩
  · rintro ⟨-, hne, language, others, hsubtags, hlanguage, hothers⟩
    refine ⟨_, hne, language, others, hsubtags, ?_, ?_, rfl⟩
    · simpa [isLanguage, and_assoc] using hlanguage
    · intro subtag hmem
      obtain ⟨hchars, -, hlength⟩ := hothers subtag hmem
      simpa [isSubtag, hlength] using hchars

/-! ## Case does not count -/

/-- A subtag in lower case. -/
def fold (subtag : List Char) : List Char := subtag.map Char.toLower

@[simp] theorem fold_nil : fold [] = [] := rfl

@[simp] theorem fold_cons (c : Char) (rest : List Char) :
    fold (c :: rest) = c.toLower :: fold rest := rfl

@[simp] theorem length_fold (subtag : List Char) : (fold subtag).length = subtag.length :=
  List.length_map ..

@[simp] theorem fold_eq_nil {subtag : List Char} : fold subtag = [] ↔ subtag = [] :=
  List.map_eq_nil_iff

theorem toNat_toLower (c : Char) :
    c.toLower.toNat = if 65 ≤ c.toNat ∧ c.toNat ≤ 90 then c.toNat + 32 else c.toNat := by
  unfold Char.toLower
  split
  · next h =>
    have hupper : 65 ≤ c.toNat ∧ c.toNat ≤ 90 := h
    have hdistance : ('a'.val - 'A'.val).toNat = 32 := by decide
    rw [if_pos hupper, ← Char.toNat_val, UInt32.toNat_add, hdistance, Char.toNat_val]
    omega
  · next h => exact (if_neg h).symm

theorem toNat_toUpper (c : Char) :
    c.toUpper.toNat = if 97 ≤ c.toNat ∧ c.toNat ≤ 122 then c.toNat - 32 else c.toNat := by
  unfold Char.toUpper
  split
  · next h =>
    have hlower : 97 ≤ c.toNat ∧ c.toNat ≤ 122 := h
    -- the distance is negative, and so wraps around
    have hdistance : ('A'.val - 'a'.val).toNat = 2 ^ 32 - 32 := by decide
    rw [if_pos hlower, ← Char.toNat_val, UInt32.toNat_add, hdistance, Char.toNat_val]
    omega
  · next h => exact (if_neg h).symm

@[simp] theorem toLower_toLower (c : Char) : c.toLower.toLower = c.toLower := by
  rw [← Char.toNat_inj]
  grind [toNat_toLower]

@[simp] theorem toLower_toUpper (c : Char) : c.toUpper.toLower = c.toLower := by
  rw [← Char.toNat_inj]
  grind [toNat_toLower, toNat_toUpper]

@[simp] theorem toUpper_toLower (c : Char) : c.toLower.toUpper = c.toUpper := by
  rw [← Char.toNat_inj]
  grind [toNat_toLower, toNat_toUpper]

theorem isAsciiLetter_toLower (c : Char) : isAsciiLetter c.toLower = isAsciiLetter c := by
  rw [Bool.eq_iff_iff, isAsciiLetter_iff, isAsciiLetter_iff, toNat_toLower]
  split
  · omega
  · rfl

theorem toLower_of_not_isAsciiLetter {c : Char} (h : isAsciiLetter c ≠ true) :
    c.toLower = c := by
  rw [Ne, isAsciiLetter_iff] at h
  rw [← Char.toNat_inj, toNat_toLower, if_neg (by omega)]

/-- Whether a character is of a class without letters does not hang on its case. -/
theorem apply_toLower {p : Char → Bool} (hp : ∀ c, isAsciiLetter c = true → p c = false)
    (c : Char) : p c.toLower = p c := by
  by_cases h : isAsciiLetter c = true
  · rw [hp c h, hp c.toLower (by rwa [isAsciiLetter_toLower])]
  · rw [toLower_of_not_isAsciiLetter h]

theorem toNat_of_isSeparator {c : Char} (h : isSeparator c = true) :
    c.toNat = 45 ∨ c.toNat = 95 := by
  rcases Bool.or_eq_true_iff.1 h with h | h
  · exact Or.inl (congrArg Char.toNat (eq_of_beq h))
  · exact Or.inr (congrArg Char.toNat (eq_of_beq h))

theorem isAsciiDigit_toLower (c : Char) : isAsciiDigit c.toLower = isAsciiDigit c := by
  apply apply_toLower
  intro c h
  rw [Bool.eq_false_iff]
  intro hdigit
  have := isAsciiLetter_iff.1 h
  have := isAsciiDigit_iff.1 hdigit
  omega

theorem isSeparator_toLower (c : Char) : isSeparator c.toLower = isSeparator c := by
  apply apply_toLower
  intro c h
  rw [Bool.eq_false_iff]
  intro hsep
  have := isAsciiLetter_iff.1 h
  have := toNat_of_isSeparator hsep
  omega

/-- The characters of a subtag. -/
def isSubtagChar (c : Char) : Bool := isAsciiLetter c || isAsciiDigit c

theorem isSubtag_eq (subtag : List Char) :
    isSubtag subtag = (subtag.all isSubtagChar && decide (subtag.length ≤ 8)) := rfl

theorem isSubtagChar_toLower (c : Char) : isSubtagChar c.toLower = isSubtagChar c := by
  rw [isSubtagChar, isSubtagChar, isAsciiLetter_toLower, isAsciiDigit_toLower]

theorem all_fold {p : Char → Bool} (hp : ∀ c : Char, p c.toLower = p c) (subtag : List Char) :
    (fold subtag).all p = subtag.all p := by
  have hcomp : p ∘ Char.toLower = p := funext hp
  rw [fold, List.all_map, hcomp]

@[simp] theorem all_isAsciiLetter_fold (subtag : List Char) :
    (fold subtag).all isAsciiLetter = subtag.all isAsciiLetter :=
  all_fold isAsciiLetter_toLower subtag

@[simp] theorem all_isAsciiDigit_fold (subtag : List Char) :
    (fold subtag).all isAsciiDigit = subtag.all isAsciiDigit :=
  all_fold isAsciiDigit_toLower subtag

@[simp] theorem isLanguage_fold (subtag : List Char) :
    isLanguage (fold subtag) = isLanguage subtag := by
  simp [isLanguage]

@[simp] theorem isScript_fold (subtag : List Char) : isScript (fold subtag) = isScript subtag := by
  simp [isScript]

@[simp] theorem isRegion_fold (subtag : List Char) : isRegion (fold subtag) = isRegion subtag := by
  simp [isRegion]

@[simp] theorem isSubtag_fold (subtag : List Char) : isSubtag (fold subtag) = isSubtag subtag := by
  simp only [isSubtag_eq, length_fold, all_fold isSubtagChar_toLower]

@[simp] theorem lower_fold (subtag : List Char) : lower (fold subtag) = lower subtag := by
  simp [lower, fold, Function.comp_def]

@[simp] theorem upper_fold (subtag : List Char) : upper (fold subtag) = upper subtag := by
  simp [upper, fold, Function.comp_def]

@[simp] theorem capitalized_fold (subtag : List Char) :
    capitalized (fold subtag) = capitalized subtag := by
  cases subtag with
  | nil => rfl
  | cons c rest => simp [capitalized, fold, Function.comp_def]

/-- A subtag is added in the same way whatever case it is in. -/
@[simp] theorem add_fold (tag : LanguageTag) (subtag : List Char) :
    tag.add (fold subtag) = tag.add subtag := by
  simp [add]

section Folded

variable {subtags subtags' : List (List Char)}

/-- What holds of all subtags whatever their case holds of all subtags in another case. -/
theorem forall_of_map_fold {P : List Char → Prop} (hP : ∀ subtag, P (fold subtag) ↔ P subtag)
    (hfold : subtags.map fold = subtags'.map fold) (h : ∀ subtag ∈ subtags, P subtag) :
    ∀ subtag ∈ subtags', P subtag := by
  intro subtag hmem
  have hmem' : fold subtag ∈ subtags.map fold := hfold ▸ List.mem_map_of_mem hmem
  obtain ⟨original, horiginal, heq⟩ := List.mem_map.1 hmem'
  rw [← hP, ← heq, hP]
  exact h original horiginal

theorem foldl_add_of_map_fold (start : LanguageTag)
    (hfold : subtags.map fold = subtags'.map fold) :
    subtags.foldl add start = subtags'.foldl add start := by
  have hadd : ∀ subtags : List (List Char),
      (subtags.map fold).foldl add start = subtags.foldl add start := by
    intro subtags
    simp only [List.foldl_map, add_fold]
  rw [← hadd subtags, hfold, hadd]

/-- Subtags that are the same up to case stand for the same tag. -/
theorem IsTagOf.of_map_fold {tag : LanguageTag} (h : IsTagOf subtags tag)
    (hfold : subtags.map fold = subtags'.map fold) : IsTagOf subtags' tag := by
  obtain ⟨hne, language, others, rfl, hlanguage, hothers, rfl⟩ := h
  refine ⟨forall_of_map_fold (fun subtag => by simp) hfold hne, ?_⟩
  rw [List.map_cons, eq_comm, List.map_eq_cons_iff] at hfold
  obtain ⟨language', others', rfl, hfoldl, hfold⟩ := hfold
  refine ⟨language', others', rfl, ?_, ?_, ?_⟩
  · rw [← isLanguage_fold, hfoldl, isLanguage_fold]
    exact hlanguage
  · exact forall_of_map_fold (fun subtag => by rw [isSubtag_fold]) hfold.symm hothers
  · rw [← lower_fold language', hfoldl, lower_fold]
    exact foldl_add_of_map_fold _ hfold.symm

end Folded

/-! ## Alike texts -/

theorem isSeparator_of_alikeChar {c d : Char} (h : AlikeChar c d) :
    isSeparator c = isSeparator d := by
  rcases h with h | ⟨hc, hd⟩
  · rw [← isSeparator_toLower c, h, isSeparator_toLower]
  · rw [hc, hd]

/-- Alike texts have the same subtags up to case. -/
theorem map_fold_subtagsOf {a b : List Char} (h : List.Forall₂ AlikeChar a b) :
    (subtagsOf a).map fold = (subtagsOf b).map fold := by
  induction h with
  | nil => rfl
  | @cons c d a b hcd _ ih =>
    have hsep := isSeparator_of_alikeChar hcd
    by_cases hc : isSeparator c = true
    · rw [subtagsOf, subtagsOf, List.splitOnP_cons_eq_if_modifyHead,
        List.splitOnP_cons_eq_if_modifyHead, if_pos hc, if_pos (hsep ▸ hc)]
      simpa [subtagsOf] using ih
    · have hlower : c.toLower = d.toLower := hcd.resolve_right fun h => hc h.1
      obtain ⟨s, ss, hs⟩ := List.exists_cons_of_ne_nil (List.splitOnP_ne_nil isSeparator a)
      obtain ⟨t, ts, ht⟩ := List.exists_cons_of_ne_nil (List.splitOnP_ne_nil isSeparator b)
      rw [subtagsOf, subtagsOf, hs, ht] at ih
      rw [subtagsOf, subtagsOf, List.splitOnP_cons_eq_if_modifyHead,
        List.splitOnP_cons_eq_if_modifyHead, if_neg hc, if_neg (hsep ▸ hc), hs, ht]
      simpa [hlower] using ih

/-! ## The canonical text -/

/-- All subtags in the order they are written in. -/
def subtags (tag : LanguageTag) : List String := tag.matchSubtags ++ tag.extension

theorem text_eq (tag : LanguageTag) : tag.text = String.intercalate "-" tag.subtags := rfl

@[simp] theorem fold_toList_lower (subtag : List Char) :
    fold (lower subtag).toList = fold subtag := by
  simp [lower, fold, Function.comp_def]

@[simp] theorem fold_toList_upper (subtag : List Char) :
    fold (upper subtag).toList = fold subtag := by
  simp [upper, fold, Function.comp_def]

@[simp] theorem fold_toList_capitalized (subtag : List Char) :
    fold (capitalized subtag).toList = fold subtag := by
  cases subtag with
  | nil => rfl
  | cons c rest => simp [capitalized, fold, Function.comp_def]

/-- A subtag comes in as the last one, in one case or another. -/
theorem map_fold_subtags_add (tag : LanguageTag) (subtag : List Char) :
    (tag.add subtag).subtags.map (fold ·.toList) =
      tag.subtags.map (fold ·.toList) ++ [fold subtag] := by
  unfold add
  split_ifs with hextension hscript hregion
  · simp [subtags, matchSubtags]
  all_goals
    -- outside an extension there is nothing behind the further subtags
    have hnone : tag.extension = [] := by
      simp only [Bool.or_eq_true, not_or] at hextension
      simpa using hextension.1
    simp [subtags, matchSubtags, hnone]

theorem map_fold_subtags_foldl_add (start : LanguageTag) (others : List (List Char)) :
    (others.foldl add start).subtags.map (fold ·.toList) =
      start.subtags.map (fold ·.toList) ++ others.map fold := by
  induction others generalizing start with
  | nil => simp
  | cons subtag others ih => simp [ih, map_fold_subtags_add]

/-- A tag is written with the subtags it was read from, up to case. -/
theorem IsTagOf.map_fold_subtags {read : List (List Char)} {tag : LanguageTag}
    (h : IsTagOf read tag) : read.map fold = (tag.subtags.map String.toList).map fold := by
  obtain ⟨-, language, others, rfl, -, -, rfl⟩ := h
  rw [List.map_map]
  exact ((map_fold_subtags_foldl_add _ others).trans (by simp [subtags, matchSubtags])).symm

theorem IsTagOf.all_isSubtagChar {read : List (List Char)} {tag : LanguageTag}
    (h : IsTagOf read tag) : ∀ subtag ∈ read, subtag.all isSubtagChar = true := by
  obtain ⟨-, language, others, rfl, hlanguage, hothers, -⟩ := h
  intro subtag hmem
  rcases List.mem_cons.1 hmem with rfl | hmem
  · simp only [isLanguage, Bool.and_eq_true, List.all_eq_true] at hlanguage
    simp only [List.all_eq_true, isSubtagChar, Bool.or_eq_true]
    exact fun c hc => Or.inl (hlanguage.1.1 c hc)
  · have := hothers subtag hmem
    simp only [isSubtag, Bool.and_eq_true] at this
    exact this.1

theorem toNat_of_isSubtagChar {c : Char} (h : isSubtagChar c = true) :
    48 ≤ c.toNat ∧ c.toNat ≤ 57 ∨ 65 ≤ c.toNat ∧ c.toNat ≤ 90 ∨ 97 ≤ c.toNat ∧ c.toNat ≤ 122 := by
  rcases Bool.or_eq_true_iff.1 h with h | h
  · exact Or.inr (isAsciiLetter_iff.1 h)
  · exact Or.inl (isAsciiDigit_iff.1 h)

theorem not_isSeparator_of_isSubtagChar {c : Char} (h : isSubtagChar c = true) :
    isSeparator c = false := by
  rw [Bool.eq_false_iff]
  intro hsep
  have := toNat_of_isSubtagChar h
  have := toNat_of_isSeparator hsep
  omega

theorem not_isWhiteSpace_of_isSubtagChar {c : Char} (h : isSubtagChar c = true) :
    isWhiteSpace c = false := by
  have := toNat_of_isSubtagChar h
  exact isWhiteSpace_eq_false_of_ascii (by omega)

/-- Subtags joined by hyphens are the subtags of the joined text. -/
theorem subtagsOf_intercalate {parts : List (List Char)} (hne : parts ≠ [])
    (h : ∀ part ∈ parts, ∀ c ∈ part, isSeparator c = false) :
    subtagsOf (['-'].intercalate parts) = parts := by
  induction parts with
  | nil => exact absurd rfl hne
  | cons part parts ih =>
    have hpart : subtagsOf part = [part] := List.splitOnP_eq_singleton (h part List.mem_cons_self)
    cases parts with
    | nil => simpa using hpart
    | cons next parts =>
      rw [List.intercalate_cons_cons, List.append_assoc, List.singleton_append, subtagsOf,
        List.splitOnP_append_cons _ _ (by rfl), ← subtagsOf, ← subtagsOf, hpart,
        ih (by simp) fun p hp => h p (List.mem_cons_of_mem part hp)]
      rfl

/-- A tag is written with characters of subtags, and hyphens between them. -/
theorem IsTagOf.isSubtagChar_of_mem {read : List (List Char)} {tag : LanguageTag}
    (h : IsTagOf read tag) :
    ∀ part ∈ tag.subtags.map String.toList, ∀ c ∈ part, isSubtagChar c = true := by
  have hall := forall_of_map_fold (P := fun part => part.all isSubtagChar = true)
    (fun part => by rw [all_fold isSubtagChar_toLower]) h.map_fold_subtags h.all_isSubtagChar
  simpa only [List.all_eq_true] using hall

theorem toList_text (tag : LanguageTag) :
    tag.text.toList = ['-'].intercalate (tag.subtags.map String.toList) := by
  rw [text_eq, String.toList_intercalate]
  rfl

theorem IsTagOf.trim_text {read : List (List Char)} {tag : LanguageTag} (h : IsTagOf read tag) :
    Text.trim tag.text.toList = tag.text.toList := by
  apply Text.trim_eq_self
  rw [toList_text]
  refine Text.forall_mem_intercalate (P := fun c => isWhiteSpace c = false) (by decide) ?_
  exact fun part hpart c hc =>
    not_isWhiteSpace_of_isSubtagChar (h.isSubtagChar_of_mem part hpart c hc)

theorem IsTagOf.subtagsOf_toList_text {read : List (List Char)} {tag : LanguageTag}
    (h : IsTagOf read tag) : subtagsOf tag.text.toList = tag.subtags.map String.toList := by
  rw [toList_text, subtagsOf_intercalate]
  · simp [subtags, matchSubtags]
  · exact fun part hpart c hc =>
      not_isSeparator_of_isSubtagChar (h.isSubtagChar_of_mem part hpart c hc)

/-- The canonical text of a tag has the subtags of the tag, and no blanks around them. -/
theorem IsTagOf.subtagsOf_text {read : List (List Char)} {tag : LanguageTag}
    (h : IsTagOf read tag) :
    subtagsOf (Text.trim tag.text.toList) = tag.subtags.map String.toList := by
  rw [h.trim_text, h.subtagsOf_toList_text]

/-- Exactly the texts of the grammar are tags; the canonical text of a tag is read back as that
tag, and so is every text that differs from the one it was read from only in case, in its
separators and in the blanks around it. -/
theorem parse_canonical (input : String) :
    ((∃ tag, parse input = .ok tag) ↔ IsTag (Text.trim input.toList)) ∧
    ∀ tag, parse input = .ok tag →
      parse tag.text = .ok tag ∧ ∀ other, Alike input other → parse other = .ok tag := by
  simp only [parse_eq_ok_iff]
  refine ⟨exists_isTagOf_iff, ?_⟩
  intro tag h
  constructor
  · apply h.of_map_fold
    rw [h.subtagsOf_text, h.map_fold_subtags]
  · intro other halike
    exact h.of_map_fold (map_fold_subtagsOf halike)

/-- A script, a region and an extension, in a case and with separators of no kind in particular. -/
theorem parse_canonical_traditional :
    ∃ tag, parse "\u2003ZH_hant-tw_U-CO-phoneBK\n" = .ok tag ∧
      tag.text = "zh-Hant-TW-u-co-phonebk" ∧ parse tag.text = .ok tag ∧
      parse "zH-HANT_TW-u_co-PHONEBK" = .ok tag := by
  have h : parse "\u2003ZH_hant-tw_U-CO-phoneBK\n" = .ok
      { language := "zh", further := ["Hant", "TW"], extension := ["u", "co", "phonebk"],
        script := some "Hant", region := some "TW" } := by decide +kernel
  obtain ⟨hback, halike⟩ := (parse_canonical _).2 _ h
  exact ⟨_, h, by decide +kernel, hback, halike _ (by decide +kernel)⟩

end MessageFormat.LanguageTag
