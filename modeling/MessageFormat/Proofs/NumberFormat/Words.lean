import Mathlib.Tactic.MkIffOfInductiveProp
import MessageFormat.Proofs.NumberFormat.Refusals

/-!
# How number skeletons are written

A word of a text is one of its longest stretches without a blank.  `WordAt` says so of a stretch
in its place, and the words that a skeleton is cut into are exactly these, in their order
(`WordAt.wordsOf_eq`, `exists_wordAt`).  A token is written as a word: the stem and the options,
with a slash before each option (`Token.word`).

A skeleton is read as a list of tokens exactly if it is a way to write them, with blanks between
two of them and maybe around them.  It is refused if there is nothing but blanks, or else for the
first word in which a slash has no option behind it (`tokenize_written`).
-/

namespace MessageFormat.NumberSkeleton

/-! ## Words in their places -/

/-- A text of nothing but blanks. -/
def IsGap (text : List Char) : Prop := ∀ c ∈ text, isWhiteSpace c = true

instance (text : List Char) : Decidable (IsGap text) :=
  decidable_of_iff (text.all isWhiteSpace = true) List.all_eq_true

/-- Nothing follows, or a blank. -/
def Breaks (after : List Char) : Prop := ∀ c, after.head? = some c → isWhiteSpace c = true

/-- A text that can be a word. -/
structure IsWord (word : List Char) : Prop where
  ne_nil : word ≠ []
  solid : ∀ c ∈ word, isWhiteSpace c = false

/-- A word of the text in its place: no blank is in it, and it cannot be made longer at either
end. -/
structure WordAt (text before word after : List Char) : Prop extends IsWord word where
  text_eq : text = before ++ word ++ after
  left : ∀ c, before.getLast? = some c → isWhiteSpace c = true
  right : Breaks after

theorem wordsOf_nil : wordsOf [] = [] := rfl

theorem wordsOf_append_cons {c : Char} (h : isWhiteSpace c = true) (text rest : List Char) :
    wordsOf (text ++ c :: rest) = wordsOf text ++ wordsOf rest := by
  rw [wordsOf, List.splitOnP_append_cons _ _ h, List.filter_append]
  rfl

theorem wordsOf_cons {c : Char} (h : isWhiteSpace c = true) (rest : List Char) :
    wordsOf (c :: rest) = wordsOf rest :=
  wordsOf_append_cons h [] rest

/-- A text can be cut before a blank. -/
theorem wordsOf_append {rest : List Char} (h : Breaks rest) (text : List Char) :
    wordsOf (text ++ rest) = wordsOf text ++ wordsOf rest := by
  cases rest with
  | nil => rw [wordsOf_nil, List.append_nil, List.append_nil]
  | cons c rest => rw [wordsOf_append_cons (h c rfl), wordsOf_cons (h c rfl)]

/-- A text can be cut behind a blank. -/
theorem wordsOf_append_of_left {before : List Char}
    (h : ∀ c, before.getLast? = some c → isWhiteSpace c = true) (text : List Char) :
    wordsOf (before ++ text) = wordsOf before ++ wordsOf text := by
  rcases List.eq_nil_or_concat' before with rfl | ⟨front, c, rfl⟩
  · rfl
  have hc := h c (by simp)
  rw [List.append_assoc, List.singleton_append, wordsOf_append_cons hc, wordsOf_append_cons hc,
    wordsOf_nil, List.append_nil]

theorem IsWord.wordsOf_eq {word : List Char} (h : IsWord word) : wordsOf word = [word] := by
  rw [wordsOf, List.splitOnP_eq_singleton h.solid]
  simp [h.ne_nil]

/-- Only blanks make no words. -/
theorem wordsOf_eq_nil_iff {text : List Char} : wordsOf text = [] ↔ IsGap text := by
  induction text with
  | nil => simp [wordsOf_nil, IsGap]
  | cons c text ih =>
    by_cases hc : isWhiteSpace c = true
    · rw [wordsOf_cons hc, ih]
      simp [IsGap, hc]
    · have hne : wordsOf (c :: text) ≠ [] := wordsOf_ne_nil (Bool.not_eq_true _ ▸ hc)
      simp [hne, IsGap, hc]

theorem IsGap.wordsOf_eq {gap : List Char} (h : IsGap gap) : wordsOf gap = [] :=
  wordsOf_eq_nil_iff.2 h

theorem IsGap.left {gap : List Char} (h : IsGap gap) :
    ∀ c, gap.getLast? = some c → isWhiteSpace c = true :=
  fun c hc => h c (List.mem_of_getLast? hc)

theorem IsGap.breaks {gap : List Char} (h : IsGap gap) : Breaks gap :=
  fun c hc => h c (List.mem_of_head? hc)

/-- The words before a word, the word, and the words after it. -/
theorem WordAt.wordsOf_eq {text before word after : List Char}
    (h : WordAt text before word after) :
    wordsOf text = wordsOf before ++ word :: wordsOf after := by
  rw [h.text_eq, List.append_assoc, wordsOf_append_of_left h.left, wordsOf_append h.right,
    h.toIsWord.wordsOf_eq, List.singleton_append]

/-- A text that begins with no blank begins with a word. -/
theorem exists_word {c : Char} (h : isWhiteSpace c = false) (text : List Char) :
    ∃ word rest, c :: text = word ++ rest ∧ IsWord word ∧ Breaks rest := by
  refine ⟨(c :: text).takeWhile (!isWhiteSpace ·), (c :: text).dropWhile (!isWhiteSpace ·),
    List.takeWhile_append_dropWhile.symm, ⟨by simp [h], ?_⟩, ?_⟩
  · intro d hd
    simpa using List.all_eq_true.1 List.all_takeWhile d hd
  · intro d hd
    have hstop := List.head?_dropWhile_not (!isWhiteSpace ·) (c :: text)
    simpa [hd] using hstop

/-- The first word stands behind blanks only. -/
theorem exists_first_wordAt {text word : List Char} {more : List (List Char)}
    (h : wordsOf text = word :: more) :
    ∃ gap rest, WordAt text gap word rest ∧ IsGap gap ∧ wordsOf rest = more := by
  induction text with
  | nil => cases h
  | cons c text ih =>
    by_cases hc : isWhiteSpace c = true
    · rw [wordsOf_cons hc] at h
      obtain ⟨gap, rest, hat, hgap, hrest⟩ := ih h
      have hgap' : IsGap (c :: gap) := List.forall_mem_cons.2 ⟨hc, hgap⟩
      refine ⟨c :: gap, rest, ⟨hat.toIsWord, ?_, hgap'.left, hat.right⟩, hgap', hrest⟩
      rw [hat.text_eq]
      rfl
    · obtain ⟨first, rest, htext, hfirst, hrest⟩ := exists_word (Bool.not_eq_true _ ▸ hc) text
      have hat : WordAt (c :: text) [] first rest := ⟨hfirst, htext, by simp, hrest⟩
      rw [hat.wordsOf_eq, wordsOf_nil, List.nil_append] at h
      cases h
      exact ⟨[], rest, hat, by simp [IsGap], rfl⟩

theorem WordAt.before_ne_nil {text before word after : List Char}
    (h : WordAt text before word after) (hbreaks : Breaks text) : before ≠ [] := by
  rintro rfl
  obtain ⟨c, tail, rfl⟩ := List.exists_cons_of_ne_nil h.ne_nil
  have hblank := hbreaks c (by simp [h.text_eq])
  rw [h.solid c List.mem_cons_self] at hblank
  cases hblank

/-- Every word that a text is cut into stands in it, behind the words before it. -/
theorem exists_wordAt {text word : List Char} {words more : List (List Char)}
    (h : wordsOf text = words ++ word :: more) :
    ∃ before after, WordAt text before word after ∧ wordsOf before = words ∧
      wordsOf after = more := by
  induction words generalizing text with
  | nil =>
    obtain ⟨gap, rest, hat, hgap, hrest⟩ := exists_first_wordAt h
    exact ⟨gap, rest, hat, hgap.wordsOf_eq, hrest⟩
  | cons first words ih =>
    obtain ⟨gap, rest, hfirst, hgap, hrest⟩ := exists_first_wordAt h
    obtain ⟨before, after, hat, hbefore, hafter⟩ := ih hrest
    -- What stands between the two words is not empty, as it begins with a blank.
    have hne := hat.before_ne_nil hfirst.right
    have hbreaks : Breaks before := by
      intro c hc
      refine hfirst.right c ?_
      rw [hat.text_eq, List.append_assoc, List.head?_append, hc]
      rfl
    have hstart : WordAt (gap ++ first ++ before) gap first before :=
      ⟨hfirst.toIsWord, rfl, hgap.left, hbreaks⟩
    refine ⟨gap ++ first ++ before, after, ⟨hat.toIsWord, ?_, ?_, hat.right⟩, ?_, hafter⟩
    · rw [hfirst.text_eq, hat.text_eq]
      simp
    · intro c hc
      rw [List.getLast?_append_of_ne_nil _ hne] at hc
      exact hat.left c hc
    · rw [hstart.wordsOf_eq, hgap.wordsOf_eq, hbefore]
      rfl

theorem mem_wordsOf_iff {text word : List Char} :
    word ∈ wordsOf text ↔ ∃ before after, WordAt text before word after := by
  constructor
  · intro h
    obtain ⟨words, more, hwords⟩ := List.append_of_mem h
    obtain ⟨before, after, hat, -⟩ := exists_wordAt hwords
    exact ⟨before, after, hat⟩
  · rintro ⟨before, after, hat⟩
    rw [hat.wordsOf_eq]
    simp

theorem isWord_of_mem_wordsOf {text word : List Char} (h : word ∈ wordsOf text) : IsWord word := by
  obtain ⟨before, after, hat⟩ := mem_wordsOf_iff.1 h
  exact hat.toIsWord

/-! ## Words in a row -/

/-- The words one after the other, with blanks between two of them and maybe behind the last. -/
inductive Spaced : List (List Char) → List Char → Prop
  | last {word gap : List Char} (h : IsGap gap) : Spaced [word] (word ++ gap)
  | cons {word gap rest : List Char} {words : List (List Char)} (h : IsGap gap) (hne : gap ≠ [])
    (hrest : Spaced words rest) : Spaced (word :: words) (word ++ gap ++ rest)

theorem Spaced.wordsOf_eq {words : List (List Char)} {text : List Char} (h : Spaced words text)
    (hwords : ∀ word ∈ words, IsWord word) : wordsOf text = words := by
  induction h with
  | @last word gap h =>
    have hat : WordAt (word ++ gap) [] word gap :=
      ⟨hwords word List.mem_cons_self, rfl, by simp, h.breaks⟩
    rw [hat.wordsOf_eq, h.wordsOf_eq]
    rfl
  | @cons word gap rest words h hne hrest ih =>
    have hbreaks : Breaks (gap ++ rest) := by
      intro c hc
      rw [List.head?_append_of_ne_nil _ hne] at hc
      exact h.breaks c hc
    have hat : WordAt (word ++ gap ++ rest) [] word (gap ++ rest) :=
      ⟨hwords word List.mem_cons_self, by simp, by simp, hbreaks⟩
    rw [hat.wordsOf_eq, wordsOf_append_of_left h.left, h.wordsOf_eq,
      ih fun word hmem => hwords word (List.mem_cons_of_mem _ hmem)]
    rfl

/-- A text is its words in a row, behind some blanks. -/
theorem exists_spaced {text : List Char} {words : List (List Char)} (h : wordsOf text = words)
    (hne : words ≠ []) :
    ∃ gap rest, text = gap ++ rest ∧ IsGap gap ∧ (Breaks text → gap ≠ []) ∧ Spaced words rest := by
  induction words generalizing text with
  | nil => exact absurd rfl hne
  | cons word words ih =>
    obtain ⟨gap, rest, hat, hgap, hrest⟩ := exists_first_wordAt h
    refine ⟨gap, word ++ rest, by rw [hat.text_eq, List.append_assoc], hgap, hat.before_ne_nil, ?_⟩
    cases words with
    | nil => exact .last (wordsOf_eq_nil_iff.1 hrest)
    | cons next words =>
      obtain ⟨between, row, rfl, hbetween, hapart, hrow⟩ := ih hrest (List.cons_ne_nil _ _)
      rw [← List.append_assoc]
      exact .cons hbetween (hapart hat.right) hrow

/-! ## Words as tokens -/

/-- How a token is written: the stem and the options, with a slash before each option. -/
def Token.word (t : Token) : List Char :=
  ['/'].intercalate ((t.stem :: t.options).map String.toList)

/-- The tokens that have a written form.  The stem may be empty if there are options. -/
@[mk_iff]
structure Token.WellFormed (t : Token) : Prop where
  parts : ∀ part ∈ t.stem :: t.options, ∀ c ∈ part.toList, isWhiteSpace c = false ∧ c ≠ '/'
  options : ∀ option ∈ t.options, option ≠ ""
  ne_empty : t.stem ≠ "" ∨ t.options ≠ []

instance (t : Token) : Decidable t.WellFormed :=
  decidable_of_iff
    (((t.stem :: t.options).all fun part =>
        part.toList.all fun c => !isWhiteSpace c && c != '/') = true ∧
      t.options.all (· != "") = true ∧ (t.stem ≠ "" ∨ t.options ≠ []))
    (by simp [Token.wellFormed_iff])

/-- A slash stands before another slash or at the end of the word. -/
def LacksOption (word : List Char) : Prop := ['/', '/'] <:+: word ∨ ['/'] <:+ word

theorem lacksOption_cons {c : Char} {word : List Char} :
    LacksOption (c :: word) ↔ c = '/' ∧ (word = [] ∨ word.head? = some '/') ∨ LacksOption word := by
  have hdouble : ['/', '/'] <+: c :: word ↔ c = '/' ∧ word.head? = some '/' := by
    cases word <;> simp [List.cons_prefix_cons, eq_comm]
  have hend : ['/'] = c :: word ↔ c = '/' ∧ word = [] := by simp [eq_comm]
  rw [LacksOption, LacksOption, List.infix_cons_iff, List.suffix_cons_iff, hdouble, hend]
  tauto

/-- The stem is empty if the word begins with a slash. -/
theorem head?_splitOnP_eq_nil_iff (word : List Char) :
    (word.splitOnP (· == '/')).head? = some [] ↔ word = [] ∨ word.head? = some '/' := by
  cases word with
  | nil => simp
  | cons c word =>
    obtain ⟨first, more, hsplit⟩ :=
      List.exists_cons_of_ne_nil (List.splitOnP_ne_nil (· == '/') word)
    rw [List.splitOnP_cons_eq_if_modifyHead, hsplit]
    by_cases hc : c = '/' <;> simp [hc]

theorem any_isEmpty_tail_iff (word : List Char) :
    (word.splitOnP (· == '/')).tail.any List.isEmpty = true ↔ LacksOption word := by
  induction word with
  | nil => simp [LacksOption]
  | cons c word ih =>
    have hhead := head?_splitOnP_eq_nil_iff word
    obtain ⟨first, more, hsplit⟩ :=
      List.exists_cons_of_ne_nil (List.splitOnP_ne_nil (· == '/') word)
    rw [hsplit, List.head?_cons, Option.some.injEq] at hhead
    rw [lacksOption_cons, ← ih, ← hhead, List.splitOnP_cons_eq_if_modifyHead, hsplit]
    by_cases hc : c = '/' <;> simp [hc]

theorem tokenOf_eq_error_iff {word : List Char} {fault : Fault} :
    tokenOf word = .error fault ↔ LacksOption word ∧ fault = .emptyOption (String.ofList word) := by
  rw [tokenOf, ← any_isEmpty_tail_iff]
  obtain ⟨stem, options, hsplit⟩ :=
    List.exists_cons_of_ne_nil (List.splitOnP_ne_nil (· == '/') word)
  rw [hsplit]
  dsimp only [List.tail_cons]
  split
  · next hempty => simp [hempty, eq_comm]
  · next hempty => simp [hempty]

theorem exists_tokenOf_iff {word : List Char} :
    (∃ t, tokenOf word = .ok t) ↔ ¬LacksOption word := by
  cases hread : tokenOf word with
  | error fault => simp [(tokenOf_eq_error_iff.1 hread).1]
  | ok t =>
    have hnot : ¬LacksOption word := by
      intro hlacks
      rw [tokenOf_eq_error_iff.2 ⟨hlacks, rfl⟩] at hread
      cases hread
    simp [hnot]

theorem Token.word_eq_nil_iff {t : Token} : t.word = [] ↔ t.stem = "" ∧ t.options = [] := by
  cases hoptions : t.options with
  | nil => simp [Token.word, hoptions]
  | cons option options => simp [Token.word, hoptions, List.intercalate_cons_cons]

theorem Token.WellFormed.isWord {t : Token} (h : t.WellFormed) : IsWord t.word := by
  constructor
  · rw [ne_eq, Token.word_eq_nil_iff, not_and_or]
    exact h.ne_empty
  · refine Text.forall_mem_intercalate (P := fun c => isWhiteSpace c = false) (by decide) ?_
    intro part hpart c hc
    obtain ⟨text, htext, rfl⟩ := List.mem_map.1 hpart
    exact (h.parts text htext c hc).1

/-- A token is read from how it is written. -/
theorem Token.WellFormed.tokenOf_word {t : Token} (h : t.WellFormed) : tokenOf t.word = .ok t := by
  have hsplit : t.word.splitOnP (· == '/') = t.stem.toList :: t.options.map String.toList := by
    refine List.splitOn_intercalate '/' ?_ (List.cons_ne_nil _ _)
    intro part hpart hslash
    obtain ⟨text, htext, rfl⟩ := List.mem_map.1 hpart
    exact (h.parts text htext '/' hslash).2 rfl
  have hoptions : (t.options.map String.toList).any List.isEmpty = false := by
    simpa using h.options
  rw [tokenOf, hsplit]
  dsimp only
  rw [if_neg (by simp [hoptions])]
  simp [Function.comp_def]

/-- What is read from a word is written as that word. -/
theorem IsWord.tokenOf_eq_ok_iff {word : List Char} (h : IsWord word) {t : Token} :
    tokenOf word = .ok t ↔ t.WellFormed ∧ t.word = word := by
  constructor
  · intro hread
    have hparts : ∀ part ∈ word.splitOnP (· == '/'),
        ∀ c ∈ part, isWhiteSpace c = false ∧ c ≠ '/' := by
      intro part hpart c hc
      obtain ⟨hmem, hslash⟩ := Text.mem_of_mem_splitOnP hpart c hc
      exact ⟨h.solid c hmem, by simpa using hslash⟩
    have hjoin : ['/'].intercalate (word.splitOnP (· == '/')) = word := List.intercalate_splitOn '/'
    rw [tokenOf] at hread
    obtain ⟨stem, options, hsplit⟩ :=
      List.exists_cons_of_ne_nil (List.splitOnP_ne_nil (· == '/') word)
    rw [hsplit] at hread hparts hjoin
    dsimp only at hread
    split at hread
    · cases hread
    · next hoptions =>
      cases hread
      have hword : Token.word ⟨String.ofList stem, options.map String.ofList⟩ = word := by
        rw [← hjoin]
        simp [Token.word, Function.comp_def]
      refine ⟨⟨?_, ?_, ?_⟩, hword⟩
      · rw [List.forall_mem_cons] at hparts ⊢
        simpa using hparts
      · intro option hmem hempty
        obtain ⟨piece, hpiece, rfl⟩ := List.mem_map.1 hmem
        exact hoptions (List.any_eq_true.2 ⟨piece, hpiece, by simpa using hempty⟩)
      · have hne := h.ne_nil
        rwa [← hword, ne_eq, Token.word_eq_nil_iff, not_and_or] at hne
  · rintro ⟨hformed, rfl⟩
    exact hformed.tokenOf_word

/-! ## Skeletons -/

theorem mapM_tokenOf_eq_ok_iff {words : List (List Char)} {tokens : List Token}
    (h : ∀ word ∈ words, IsWord word) :
    words.mapM tokenOf = .ok tokens ↔
      (∀ t ∈ tokens, t.WellFormed) ∧ words = tokens.map Token.word := by
  rw [mapM_eq_ok_iff]
  induction words generalizing tokens with
  | nil => cases tokens <;> simp
  | cons word words ih =>
    rw [List.forall_mem_cons] at h
    cases tokens with
    | nil => simp
    | cons t tokens =>
      rw [List.forall₂_cons, h.1.tokenOf_eq_ok_iff, ih h.2, List.forall_mem_cons, List.map_cons,
        List.cons.injEq, eq_comm (a := word)]
      tauto

/-- The words decide: a skeleton is refused because of one of them, or for having none. -/
theorem tokenize_eq (skeleton : String) :
    tokenize skeleton =
      match (wordsOf skeleton.toList).mapM tokenOf with
      | .error fault => .error fault
      | .ok [] => .error .empty
      | .ok (t :: tokens) => .ok (t :: tokens) := by
  rw [tokenize]
  cases (wordsOf skeleton.toList).mapM tokenOf with
  | error fault => rfl
  | ok tokens => cases tokens <;> rfl

theorem tokenize_eq_ok_iff {skeleton : String} {tokens : List Token} :
    tokenize skeleton = .ok tokens ↔
      (∀ t ∈ tokens, t.WellFormed) ∧ tokens ≠ [] ∧
        wordsOf skeleton.toList = tokens.map Token.word := by
  have hread : tokenize skeleton = .ok tokens ↔
      tokens ≠ [] ∧ (wordsOf skeleton.toList).mapM tokenOf = .ok tokens := by
    rw [tokenize_eq]
    cases (wordsOf skeleton.toList).mapM tokenOf with
    | error fault => simp
    | ok read =>
      cases read with
      | nil => simp [eq_comm]
      | cons t read =>
        refine ⟨fun h => ⟨?_, h⟩, And.right⟩
        cases h
        exact List.cons_ne_nil t read
  rw [hread, mapM_tokenOf_eq_ok_iff fun _ => isWord_of_mem_wordsOf]
  exact and_left_comm

theorem tokenize_eq_error_iff {skeleton : String} {fault : Fault} :
    tokenize skeleton = .error fault ↔
      wordsOf skeleton.toList = [] ∧ fault = .empty ∨
        ∃ before word after, wordsOf skeleton.toList = before ++ word :: after ∧
          (∀ word ∈ before, ¬LacksOption word) ∧ LacksOption word ∧
          fault = .emptyOption (String.ofList word) := by
  have hwords := mapM_eq_error_iff (f := tokenOf) (l := wordsOf skeleton.toList) (e := fault)
  simp only [exists_tokenOf_iff, tokenOf_eq_error_iff] at hwords
  rw [tokenize_eq, ← hwords]
  cases hread : (wordsOf skeleton.toList).mapM tokenOf with
  | error fault' =>
    have hne : wordsOf skeleton.toList ≠ [] := by
      intro hnil
      rw [hnil] at hread
      cases hread
    simp [hne]
  | ok read =>
    rw [mapM_tokenOf_eq_ok_iff fun _ => isWord_of_mem_wordsOf] at hread
    rw [hread.2]
    cases read with
    | nil => simp [eq_comm]
    | cons t read => simp

theorem exists_tokenize_iff {skeleton : String} :
    (∃ tokens, tokenize skeleton = .ok tokens) ↔
      wordsOf skeleton.toList ≠ [] ∧ ∀ word ∈ wordsOf skeleton.toList, ¬LacksOption word := by
  constructor
  · rintro ⟨tokens, hread⟩
    obtain ⟨hformed, hne, hwords⟩ := tokenize_eq_ok_iff.1 hread
    rw [hwords]
    refine ⟨by simpa using hne, ?_⟩
    intro word hmem
    obtain ⟨t, ht, rfl⟩ := List.mem_map.1 hmem
    exact exists_tokenOf_iff.1 ⟨t, (hformed t ht).tokenOf_word⟩
  · rintro ⟨hne, hoptions⟩
    cases hread : tokenize skeleton with
    | ok tokens => exact ⟨tokens, rfl⟩
    | error fault =>
      obtain ⟨hnil, -⟩ | ⟨before, word, after, hwords, -, hlacks, -⟩ :=
        tokenize_eq_error_iff.1 hread
      · exact absurd hnil hne
      · exact absurd hlacks (hoptions word (by simp [hwords]))

theorem Spaced.ne_nil {words : List (List Char)} {text : List Char} (h : Spaced words text) :
    words ≠ [] := by
  cases h with
  | last _ => exact List.cons_ne_nil _ _
  | cons _ _ _ => exact List.cons_ne_nil _ _

/-- A skeleton is read as tokens exactly if it is a way to write them.  It is read at all if there
is a word and no slash lacks its option, and otherwise the refusal says that it is empty or names
the first word at fault. -/
theorem tokenize_written (skeleton : String) :
    (∀ tokens, tokenize skeleton = .ok tokens ↔ (∀ t ∈ tokens, t.WellFormed) ∧
      ∃ gap rest, skeleton.toList = gap ++ rest ∧ IsGap gap ∧
        Spaced (tokens.map Token.word) rest) ∧
    ((∃ tokens, tokenize skeleton = .ok tokens) ↔
      (∃ c ∈ skeleton.toList, isWhiteSpace c = false) ∧
        ∀ before word after, WordAt skeleton.toList before word after → ¬LacksOption word) ∧
    ∀ fault, tokenize skeleton = .error fault ↔
      IsGap skeleton.toList ∧ fault = .empty ∨
        ∃ before word after, WordAt skeleton.toList before word after ∧ LacksOption word ∧
          (∀ front earlier back, WordAt before front earlier back → ¬LacksOption earlier) ∧
          fault = .emptyOption (String.ofList word) := by
  refine ⟨fun tokens => ?_, ?_, fun fault => ?_⟩
  · rw [tokenize_eq_ok_iff]
    refine and_congr_right fun hformed => ⟨?_, ?_⟩
    · rintro ⟨hne, hwords⟩
      obtain ⟨gap, rest, htext, hgap, -, hspaced⟩ := exists_spaced hwords (by simpa using hne)
      exact ⟨gap, rest, htext, hgap, hspaced⟩
    · rintro ⟨gap, rest, htext, hgap, hspaced⟩
      have hisWord : ∀ word ∈ tokens.map Token.word, IsWord word := by
        intro word hmem
        obtain ⟨t, ht, rfl⟩ := List.mem_map.1 hmem
        exact (hformed t ht).isWord
      refine ⟨by simpa using hspaced.ne_nil, ?_⟩
      rw [htext, wordsOf_append_of_left hgap.left, hgap.wordsOf_eq, hspaced.wordsOf_eq hisWord]
      rfl
  · rw [exists_tokenize_iff, ne_eq, wordsOf_eq_nil_iff]
    refine and_congr (by simp [IsGap]) ⟨?_, ?_⟩
    · intro hoptions before word after hat
      exact hoptions word (mem_wordsOf_iff.2 ⟨before, after, hat⟩)
    · intro hoptions word hmem
      obtain ⟨before, after, hat⟩ := mem_wordsOf_iff.1 hmem
      exact hoptions before word after hat
  · rw [tokenize_eq_error_iff, wordsOf_eq_nil_iff]
    refine or_congr_right ⟨?_, ?_⟩
    · rintro ⟨words, word, more, hwords, hearlier, hlacks, rfl⟩
      obtain ⟨before, after, hat, hbefore, -⟩ := exists_wordAt hwords
      refine ⟨before, word, after, hat, hlacks, fun front earlier back hin => ?_, rfl⟩
      exact hearlier earlier (hbefore ▸ mem_wordsOf_iff.2 ⟨front, back, hin⟩)
    · rintro ⟨before, word, after, hat, hlacks, hearlier, rfl⟩
      refine ⟨wordsOf before, word, wordsOf after, hat.wordsOf_eq, fun earlier hmem => ?_, hlacks,
        rfl⟩
      obtain ⟨front, back, hin⟩ := mem_wordsOf_iff.1 hmem
      exact hearlier front earlier back hin

/-- A token without a stem, and a wide space before one with two options. -/
theorem tokenize_written_stemless :
    tokenize " /w\u2003.00/w/x\n" = .ok [⟨"", ["w"]⟩, ⟨".00", ["w", "x"]⟩] := by
  have hrow : Spaced ["/w".toList, ".00/w/x".toList] "/w\u2003.00/w/x\n".toList :=
    .cons (by decide : IsGap ['\u2003']) (by decide) (.last (by decide : IsGap ['\n']))
  exact ((tokenize_written _).1 _).2 ⟨by decide +kernel, [' '], _, rfl, by decide, hrow⟩

end MessageFormat.NumberSkeleton
