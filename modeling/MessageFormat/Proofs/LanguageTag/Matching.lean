import MessageFormat.Proofs.LanguageTag.Extension

/-!
# The matching subtags of a language tag

Tags are matched by the subtags before the extension, and a subtag goes into one part or the other
when it is added.  `Layered` says that every subtag has gone where it belongs.  Adding a subtag
keeps that true (`Layered.add`), so it holds of every tag that was read, and the two parts can be
told from the canonical text alone: the extension begins with the first subtag of one character.

An extension is itself written in lower case and with hyphens (`hyphenated`), and nothing in it is
taken for a script or a region.
-/

namespace MessageFormat.LanguageTag

/-- The parts of a tag hold what belongs there.  No subtag for matching is a single character, an
extension begins with one, and the script and the region stand among the further subtags, the
script first. -/
structure Layered (tag : LanguageTag) : Prop where
  long : ∀ subtag ∈ tag.matchSubtags, subtag.length ≠ 1
  opens : ∀ subtag, tag.extension.head? = some subtag → subtag.length = 1
  ordered : (tag.script.toList ++ tag.region.toList).Sublist tag.further

/-- A text in lower case, and with a hyphen for every separator. -/
def hyphenated (text : String) : String :=
  String.ofList (text.toList.map fun c => if isSeparator c then '-' else c.toLower)

/-! ## Adding subtags -/

@[simp] theorem length_lower (subtag : List Char) : (lower subtag).length = subtag.length := by
  simp [lower]

@[simp] theorem length_upper (subtag : List Char) : (upper subtag).length = subtag.length := by
  simp [upper]

@[simp] theorem length_capitalized (subtag : List Char) :
    (capitalized subtag).length = subtag.length := by
  cases subtag with
  | nil => rfl
  | cons c rest => simp [capitalized, Nat.add_comm]

/-- A tag of a language alone is layered. -/
theorem layered_language {language : List Char} (h : isLanguage language = true) :
    Layered { language := lower language } := by
  have hlength : 2 ≤ language.length := by
    simp only [isLanguage, Bool.and_eq_true, decide_eq_true_eq] at h
    exact h.1.2
  refine ⟨?_, by simp, by simp⟩
  intro subtag hmem
  rw [matchSubtags, List.mem_singleton] at hmem
  rw [hmem, length_lower]
  omega

/-- A further subtag keeps a tag layered, in whichever case it is added. -/
theorem Layered.further {tag : LanguageTag} (h : tag.Layered) {subtag : String}
    {script region : Option String} (hnone : tag.extension = []) (hlong : subtag.length ≠ 1)
    (hordered : (script.toList ++ region.toList).Sublist (tag.further ++ [subtag])) :
    Layered { tag with further := tag.further ++ [subtag], script, region } := by
  refine ⟨?_, by simp [hnone], hordered⟩
  intro other hmem
  rw [matchSubtags, ← List.cons_append, List.mem_append, List.mem_singleton] at hmem
  rcases hmem with hmem | rfl
  · exact h.long other hmem
  · exact hlong

theorem Layered.add {tag : LanguageTag} (h : tag.Layered) (subtag : List Char) :
    (tag.add subtag).Layered := by
  unfold LanguageTag.add
  split_ifs with hextension hscript hregion
  · refine ⟨h.long, ?_, h.ordered⟩
    intro first hfirst
    cases hold : tag.extension with
    | nil =>
      have hone : subtag.length = 1 := by simpa [hold] using hextension
      rw [hold, List.nil_append, List.head?_cons, Option.some.injEq] at hfirst
      rw [← hfirst, length_lower, hone]
    | cons opening rest =>
      rw [hold] at hfirst
      exact h.opens first (by rw [hold]; exact hfirst)
  all_goals
    -- Outside of an extension the subtag is not the one that would open it.
    simp only [Bool.or_eq_true, not_or, beq_iff_eq, Bool.not_eq_true', Bool.not_eq_false,
      List.isEmpty_iff] at hextension
    obtain ⟨hnone, hlong⟩ := hextension
  · simp only [Bool.and_eq_true, Option.isNone_iff_eq_none] at hscript
    refine h.further hnone (by simpa using hlong) ?_
    simp [hscript.1.2]
  · simp only [Bool.and_eq_true, Option.isNone_iff_eq_none] at hregion
    refine h.further hnone (by simpa using hlong) ?_
    have hordered := h.ordered
    rw [hregion.1, Option.toList_none, List.append_nil] at hordered
    exact hordered.append (List.Sublist.refl _)
  · exact h.further hnone (by simpa using hlong) (h.ordered.trans (List.sublist_append_left _ _))

theorem Layered.foldl_add {tag : LanguageTag} (h : tag.Layered) (subtags : List (List Char)) :
    (subtags.foldl LanguageTag.add tag).Layered := by
  induction subtags generalizing tag with
  | nil => exact h
  | cons subtag subtags ih => exact ih (h.add subtag)

theorem IsTagOf.layered {read : List (List Char)} {tag : LanguageTag} (h : IsTagOf read tag) :
    tag.Layered := by
  obtain ⟨-, language, others, -, hlanguage, -, rfl⟩ := h
  exact (layered_language hlanguage).foldl_add others

/-! ## The canonical text -/

/-- The subtags for matching are those before the first single character. -/
theorem Layered.takeWhile_subtags {tag : LanguageTag} (h : tag.Layered) :
    tag.subtags.takeWhile (fun subtag => subtag.length ≠ 1) = tag.matchSubtags := by
  have hlong : ∀ subtag ∈ tag.matchSubtags, decide (subtag.length ≠ 1) = true := by
    simpa using h.long
  have hextension : tag.extension.takeWhile (fun subtag => decide (subtag.length ≠ 1)) = [] := by
    cases hold : tag.extension with
    | nil => rfl
    | cons opening rest =>
      have hone : opening.length = 1 := h.opens opening (by rw [hold]; rfl)
      exact List.takeWhile_cons_of_neg (by simp [hone])
  rw [subtags, List.takeWhile_append_of_pos hlong, hextension, List.append_nil]

/-- The subtags for matching can be found in the canonical text. -/
theorem IsTagOf.matchSubtags_eq {read : List (List Char)} {tag : LanguageTag}
    (h : IsTagOf read tag) :
    tag.matchSubtags =
      ((subtagsOf tag.text.toList).takeWhile fun subtag => subtag.length ≠ 1).map
        String.ofList := by
  have hcomp : (fun subtag : List Char => decide (subtag.length ≠ 1)) ∘ String.toList =
      fun subtag : String => decide (subtag.length ≠ 1) := by
    funext subtag
    simp [String.length_toList]
  have hofList : String.ofList ∘ String.toList = id := by
    funext subtag
    exact String.ofList_toList
  rw [h.subtagsOf_toList_text, List.takeWhile_map, hcomp, h.layered.takeWhile_subtags,
    List.map_map, hofList, List.map_id]

/-- Joined parts that come after each other. -/
theorem intercalate_append {mark : Char} {parts more : List (List Char)} (hparts : parts ≠ [])
    (hmore : more ≠ []) :
    [mark].intercalate (parts ++ more) =
      [mark].intercalate parts ++ mark :: [mark].intercalate more := by
  induction parts with
  | nil => exact absurd rfl hparts
  | cons part parts ih =>
    cases parts with
    | nil =>
      obtain ⟨next, more, rfl⟩ := List.exists_cons_of_ne_nil hmore
      simp [List.intercalate_cons_cons]
    | cons next parts =>
      rw [List.cons_append, List.cons_append, List.intercalate_cons_cons, ← List.cons_append,
        ih (by simp), List.intercalate_cons_cons]
      simp only [List.append_assoc]

/-- The canonical text of a tag with an extension. -/
theorem text_extension (tag : LanguageTag) {extension : List String} (h : extension ≠ []) :
    text { tag with extension } =
      text { tag with extension := [] } ++ "-" ++ String.intercalate "-" extension := by
  have hmatch : tag.matchSubtags.map String.toList ≠ [] := by simp [matchSubtags]
  have hextension : extension.map String.toList ≠ [] := by simpa using h
  rw [← String.toList_inj]
  simp only [text, matchSubtags, String.toList_intercalate, String.toList_append, List.map_append,
    List.append_nil]
  rw [List.append_assoc]
  exact intercalate_append hmatch hextension

/-- An extension is joined from its subtags with hyphens and in lower case. -/
theorem intercalate_map_fold (text : List Char) :
    ['-'].intercalate ((subtagsOf text).map fold) =
      text.map fun c => if isSeparator c then '-' else c.toLower := by
  induction text with
  | nil => rfl
  | cons c text ih =>
    obtain ⟨subtag, subtags, hsubtags⟩ :=
      List.exists_cons_of_ne_nil (List.splitOnP_ne_nil isSeparator text)
    rw [← subtagsOf] at hsubtags
    rw [hsubtags] at ih
    rw [subtagsOf, List.splitOnP_cons_eq_if_modifyHead, ← subtagsOf, hsubtags, List.map_cons, ← ih]
    by_cases hc : isSeparator c = true
    · rw [if_pos hc, if_pos hc]
      simp [List.intercalate_cons_cons]
    · rw [if_neg hc, if_neg hc]
      cases subtags with
      | nil => simp
      | cons next subtags => simp [List.intercalate_cons_cons]

theorem intercalate_map_lower (text : String) :
    String.intercalate "-" ((subtagsOf text.toList).map lower) = hyphenated text := by
  have hlower : String.toList ∘ lower = fold := by
    funext subtag
    simp [lower, fold]
  rw [hyphenated, ← intercalate_map_fold, ← String.toList_inj, String.toList_intercalate,
    List.map_map, hlower]
  exact String.toList_ofList.symm

/-- An extension is kept apart from the rest of a tag.  The subtags for matching are those that the
canonical text has before its first single character.  They begin with the language, and the script
and the region are among them, the script before the region.  A tag without single characters can
be given any extension: that changes nothing about it but the end of its text. -/
theorem parse_extension_apart {input : String} {tag : LanguageTag} (h : parse input = .ok tag) :
    tag.matchSubtags =
        ((subtagsOf tag.text.toList).takeWhile fun subtag => subtag.length ≠ 1).map
          String.ofList ∧
      (∃ further, tag.matchSubtags = tag.language :: further ∧
        (tag.script.toList ++ tag.region.toList).Sublist further) ∧
      (Text.trim input.toList = input.toList →
        (∀ subtag ∈ subtagsOf input.toList, subtag.length ≠ 1) →
        ∀ extension : String, IsExtension extension.toList →
          ∃ extended, parse (input ++ "-" ++ extension) = .ok extended ∧
            extended.language = tag.language ∧ extended.script = tag.script ∧
            extended.region = tag.region ∧ extended.matchSubtags = tag.matchSubtags ∧
            extended.text = tag.text ++ "-" ++ hyphenated extension) := by
  have htag := parse_eq_ok_iff.1 h
  refine ⟨htag.matchSubtags_eq, ⟨tag.further, rfl, htag.layered.ordered⟩, ?_⟩
  intro htrim hsingle extension hextension
  have hparse := parse_append_extension h htrim hsingle hextension
  rw [htrim] at htag
  have hnone : { tag with extension := [] } = tag := by
    rw [← htag.extension_eq_nil hsingle]
  have hne : (subtagsOf extension.toList).map lower ≠ [] := by
    rw [ne_eq, List.map_eq_nil_iff]
    exact List.splitOnP_ne_nil isSeparator extension.toList
  refine ⟨_, hparse, rfl, rfl, rfl, rfl, ?_⟩
  rw [text_extension tag hne, hnone, intercalate_map_lower]

/-- Four letters and two letters in an extension, behind a region without a script. -/
theorem parse_extension_apart_region :
    ∃ tag extended, parse "es-pe" = .ok tag ∧ parse "es-pe-X_Latn-us" = .ok extended ∧
      extended.matchSubtags = ["es", "PE"] ∧ extended.script = none ∧
      extended.region = some "PE" ∧ extended.text = "es-PE-x-latn-us" := by
  have h : parse "es-pe" = .ok { language := "es", further := ["PE"], region := some "PE" } := by
    decide +kernel
  obtain ⟨extended, hparse, -, hscript, hregion, hmatch, htext⟩ :=
    (parse_extension_apart h).2.2 (by decide +kernel) (by decide +kernel) "X_Latn-us"
      (by decide +kernel)
  exact ⟨_, extended, h, hparse, hmatch, hscript, hregion, htext.trans (by decide +kernel)⟩

end MessageFormat.LanguageTag
