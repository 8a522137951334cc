import Mathlib.Data.List.TakeWhile
import MessageFormat.Proofs.NumberFormat.Refusals

/-!
# Stems that are patterns

A stem that is no word of the vocabulary is read as a pattern of repeated characters.  The patterns
and the formats they stand for are given here as a grammar, `StemWritten`, piece by piece as they
are read: digits after the point, significant digits with a priority, signs, and exponents.  Each
reader accepts exactly the texts of its piece and counts them right
(`FractionPrecision.ofPattern?_eq_some_iff`, `SignificantPrecision.ofPattern?_eq_some_iff`,
`exponentUpdate?_eq_some_iff`).

The readers are tried one after the other, but the order does not matter, as the first character
tells the pieces apart.  So a token without options is accepted exactly if its stem is in the
grammar, with the format that the grammar says (`interpret_pattern`).

The grammar counts without a limit, and the readers do not.  What is kept of the bounds of a pattern
that may be longer than `2 ^ 32` characters is told by `FractionPrecision.kept` and
`SignificantPrecision.kept`; nothing gets lost from those of a shorter one.
-/

namespace MessageFormat.NumberSkeleton

/-! ## The grammar -/

/-- The stems that are words. -/
def vocabulary : List String :=
  ["percent", "%", "%x100", "currency", "group-off", ",_", "precision-integer", ".",
    "measure-unit", "unit", "compact-short", "K", "compact-long", "KK", "scientific", "engineering",
    "notation-simple", "unit-width-narrow", "unit-width-short", "unit-width-full-name",
    "unit-width-iso-code", "scale", "rounding-mode-floor", "rounding-mode-ceiling",
    "rounding-mode-down", "rounding-mode-up", "rounding-mode-half-even", "rounding-mode-half-down",
    "rounding-mode-half-up", "integer-width"]

/-- Patterns behind a point, with their bounds on the digits there. -/
inductive FractionWritten : List Char → Option Nat → Option Nat → Prop
  | exactly {n : Nat} (hn : 1 ≤ n) : FractionWritten (.replicate n '0') (some n) (some n)
  | atLeast {n : Nat} (hn : 1 ≤ n) : FractionWritten (.replicate n '0' ++ ['*']) (some n) none
  | atMost {k : Nat} (hk : 1 ≤ k) : FractionWritten (.replicate k '#') none (some k)
  | between {n k : Nat} (hn : 1 ≤ n) (hk : 1 ≤ k) :
    FractionWritten (.replicate n '0' ++ .replicate k '#') (some n) (some (n + k))

/-- Patterns of significant digits, with their bounds. -/
inductive SignificantWritten : List Char → Nat → Option Nat → Prop
  | exactly {n : Nat} (hn : 1 ≤ n) : SignificantWritten (.replicate n '@') n (some n)
  | atLeast {n : Nat} (hn : 1 ≤ n) : SignificantWritten (.replicate n '@' ++ ['+']) n none
  | between {n k : Nat} (hn : 1 ≤ n) (hk : 1 ≤ k) :
    SignificantWritten (.replicate n '@' ++ .replicate k '#') n (some (n + k))

/-- The letter for a priority, behind a pattern of significant digits. -/
inductive PriorityWritten : List Char → Option RoundingPriority → Prop
  | unset : PriorityWritten [] none
  | more : PriorityWritten ['r'] (some .morePrecision)
  | less : PriorityWritten ['s'] (some .lessPrecision)

/-- The stems that name a sign, in words or in short. -/
def signStems : List (String × Sign) :=
  [("sign-auto", { display := some .auto }),
    ("sign-accounting", { currency := some .accounting }),
    ("()", { currency := some .accounting }),
    ("sign-always", { display := some .always }),
    ("+!", { display := some .always }),
    ("sign-accounting-always", { display := some .always, currency := some .accounting }),
    ("()!", { display := some .always, currency := some .accounting }),
    ("sign-except-zero", { display := some .exceptZero }),
    ("+?", { display := some .exceptZero }),
    ("sign-accounting-except-zero", { display := some .exceptZero, currency := some .accounting }),
    ("()?", { display := some .exceptZero, currency := some .accounting }),
    ("sign-never", { display := some .never }),
    ("+_", { display := some .never })]

/-- The letters for a shape with an exponent. -/
inductive ShapeWritten : List Char → NumberShape → Prop
  | scientific : ShapeWritten ['E'] .scientific
  | engineering : ShapeWritten ['E', 'E'] .engineering

/-- The sign of an exponent. -/
inductive ExponentSignWritten : List Char → Option SignDisplay → Prop
  | unset : ExponentSignWritten [] none
  | always : ExponentSignWritten ['+', '!'] (some .always)
  | exceptZero : ExponentSignWritten ['+', '?'] (some .exceptZero)

/-- The stems that are patterns, with the formats they stand for. -/
inductive StemWritten : List Char → NumberFormat → Prop
  | integer {n : Nat} (hn : 1 ≤ n) :
    StemWritten (.replicate n '0') { minimumIntegerDigits := some n }
  | fraction {pattern : List Char} {least most : Option Nat}
    (h : FractionWritten pattern least most) :
    StemWritten ('.' :: pattern) { minimumFractionDigits := least, maximumFractionDigits := most }
  | significant {pattern letter : List Char} {least : Nat} {most : Option Nat}
    {priority : Option RoundingPriority} (h : SignificantWritten pattern least most)
    (hletter : PriorityWritten letter priority) :
    StemWritten (pattern ++ letter)
      { minimumSignificantDigits := some least, maximumSignificantDigits := most,
        roundingPriority := priority }
  | sign {stem : String} {sign : Sign} (h : (stem, sign) ∈ signStems) :
    StemWritten stem.toList { signDisplay := sign.display, currencySign := sign.currency }
  | exponent {letters mark : List Char} {shape : NumberShape} {display : Option SignDisplay}
    {n : Nat} (h : ShapeWritten letters shape) (hmark : ExponentSignWritten mark display)
    (hn : 1 ≤ n) :
    StemWritten (letters ++ mark ++ .replicate n '0')
      { shape := some shape, signDisplay := display, minimumIntegerDigits := some n }

/-! ## Runs -/

section Runs

variable {mark : Char} {n : Nat} {rest : List Char}

/-- A text is the run of a character at its beginning, and what follows. -/
theorem eq_replicate_append_dropWhile (mark : Char) (text : List Char) :
    text = .replicate (text.takeWhile (· == mark)).length mark ++ text.dropWhile (· == mark) := by
  have hrun : text.takeWhile (· == mark) =
      .replicate (text.takeWhile (· == mark)).length mark := by
    refine List.eq_replicate_iff.2 ⟨rfl, fun c hc => ?_⟩
    have hmark := List.all_takeWhile (p := (· == mark)) (l := text)
    exact eq_of_beq (List.all_eq_true.1 hmark c hc)
  rw [← hrun, List.takeWhile_append_dropWhile]

theorem takeWhile_replicate_append (h : rest.head? ≠ some mark) :
    (.replicate n mark ++ rest).takeWhile (· == mark) = .replicate n mark := by
  rw [List.takeWhile_append_of_pos (by simp)]
  cases rest with
  | nil => simp
  | cons c rest => rw [List.takeWhile_cons_of_neg (by simpa using h), List.append_nil]

theorem dropWhile_replicate_append (h : rest.head? ≠ some mark) :
    (.replicate n mark ++ rest).dropWhile (· == mark) = rest := by
  rw [List.dropWhile_append_of_pos (by simp)]
  cases rest with
  | nil => rfl
  | cons c rest => exact List.dropWhile_cons_of_neg (by simpa using h)

theorem head?_replicate_append (hn : 1 ≤ n) (mark : Char) (rest : List Char) :
    (.replicate n mark ++ rest : List Char).head? = some mark := by
  simp [List.head?_append, List.head?_replicate, Nat.ne_of_gt hn]

end Runs

/-! ## Digits after the point -/

/-- What is kept of the bounds of a pattern after the point. -/
def FractionPrecision.kept (least most : Option Nat) : FractionPrecision :=
  ⟨least.map digitCount, most.map fun n => digitSum (least.getD 0) (n - least.getD 0)⟩

/-- Bounds that are short enough are kept as they are. -/
theorem FractionWritten.kept_eq {pattern : List Char} {least most : Option Nat}
    (h : FractionWritten pattern least most) (small : pattern.length < wordSize 32) :
    FractionPrecision.kept least most = ⟨least, most⟩ := by
  cases h with
  | exactly hn =>
    rw [List.length_replicate] at small
    simp [FractionPrecision.kept, digitCount_of_lt small]
  | atLeast hn =>
    rw [List.length_append, List.length_replicate] at small
    simp [FractionPrecision.kept,
      digitCount_of_lt (Nat.lt_of_le_of_lt (Nat.le_add_right _ _) small)]
  | atMost hk =>
    rw [List.length_replicate] at small
    simp [FractionPrecision.kept, digitCount_of_lt small]
  | between hn hk =>
    rw [List.length_append, List.length_replicate, List.length_replicate] at small
    simp [FractionPrecision.kept, digitSum_of_lt small,
      digitCount_of_lt (Nat.lt_of_le_of_lt (Nat.le_add_right _ _) small)]

theorem FractionWritten.ofPattern?_eq {pattern : List Char} {least most : Option Nat}
    (h : FractionWritten pattern least most) :
    FractionPrecision.ofPattern? pattern = some (.kept least most) := by
  unfold FractionPrecision.ofPattern? FractionPrecision.kept
  cases h with
  | @exactly n hn =>
    have hhash : Text.isRunOf '#' (.replicate n '0') = false :=
      Text.isRunOf_eq_false (by simp [List.head?_replicate])
    rw [Text.beforeFinal?_eq_none (by simp)]
    simp [hhash, Nat.ne_of_gt hn]
  | @atLeast n hn =>
    rw [Text.beforeFinal?_eq_some_iff.2 rfl]
    simp [Text.isRunOf_replicate hn '0']
  | @atMost k hk =>
    rw [Text.beforeFinal?_eq_none (by simp)]
    simp [Text.isRunOf_replicate hk '#']
  | @between n k hn hk =>
    have hhash : Text.isRunOf '#' (.replicate n '0' ++ .replicate k '#') = false :=
      Text.isRunOf_eq_false (by rw [head?_replicate_append hn]; decide)
    have hhead : (List.replicate k '#').head? ≠ some '0' := by simp [List.head?_replicate]
    rw [Text.beforeFinal?_eq_none (by simp)]
    simp [hhash, Text.isRunOf_replicate hk '#', takeWhile_replicate_append hhead,
      dropWhile_replicate_append hhead, Nat.ne_of_gt hn, Nat.ne_of_gt hk]

/-- Exactly the patterns of the grammar are read. -/
theorem FractionPrecision.ofPattern?_eq_some_iff {pattern : List Char} {p : FractionPrecision} :
    ofPattern? pattern = some p ↔
      ∃ least most, FractionWritten pattern least most ∧ p = kept least most := by
  constructor
  swap
  · rintro ⟨least, most, h, rfl⟩
    exact h.ofPattern?_eq
  intro h
  unfold ofPattern? at h
  split at h
  · next zeros hzeros =>
    rw [Option.ite_none_right_eq_some, Text.isRunOf_iff] at h
    obtain ⟨⟨n, hn, rfl⟩, h⟩ := h
    cases h
    rw [Text.beforeFinal?_eq_some_iff] at hzeros
    subst hzeros
    exact ⟨_, _, .atLeast hn, by simp [kept]⟩
  · dsimp only at h
    have hpattern := eq_replicate_append_dropWhile '0' pattern
    generalize (pattern.takeWhile (· == '0')).length = n at h hpattern
    generalize pattern.dropWhile (· == '0') = rest at h hpattern
    split_ifs at h with hhash hzero hrest hrun
    all_goals cases h
    · obtain ⟨k, hk, hpattern⟩ := Text.isRunOf_iff.1 hhash
      rw [hpattern, List.length_replicate]
      exact ⟨_, _, .atMost hk, by simp [kept]⟩
    · rw [List.isEmpty_iff] at hrest
      rw [hpattern, hrest, List.append_nil]
      exact ⟨_, _, .exactly (Nat.one_le_iff_ne_zero.2 hzero), by simp [kept]⟩
    · obtain ⟨k, hk, hrest⟩ := Text.isRunOf_iff.1 hrun
      rw [hpattern, hrest, List.length_replicate]
      exact ⟨_, _, .between (Nat.one_le_iff_ne_zero.2 hzero) hk, by simp [kept]⟩

/-! ## Significant digits -/

/-- No letter for a priority is part of the pattern before it. -/
theorem SignificantWritten.not_mem {pattern : List Char} {least : Nat} {most : Option Nat}
    (h : SignificantWritten pattern least most) : 'r' ∉ pattern ∧ 's' ∉ pattern := by
  cases h with
  | exactly hn => simp
  | atLeast hn => simp
  | between hn hk => simp

theorem takePriority_append {pattern letter : List Char} {priority : Option RoundingPriority}
    (h : PriorityWritten letter priority) (hr : 'r' ∉ pattern) (hs : 's' ∉ pattern) :
    takePriority (pattern ++ letter) = (pattern, priority) := by
  unfold takePriority
  cases h with
  | unset => rw [List.append_nil, Text.beforeFinal?_eq_none hr, Text.beforeFinal?_eq_none hs]
  | more => rw [Text.beforeFinal?_eq_some_iff.2 rfl]
  | less =>
    have hnone : Text.beforeFinal? 'r' (pattern ++ ['s']) = none :=
      Text.beforeFinal?_eq_none (by simpa using hr)
    rw [hnone, Text.beforeFinal?_eq_some_iff.2 rfl]

theorem exists_priorityWritten (pattern : List Char) :
    ∃ letter, pattern = (takePriority pattern).1 ++ letter ∧
      PriorityWritten letter (takePriority pattern).2 := by
  unfold takePriority
  split
  · next h => exact ⟨['r'], Text.beforeFinal?_eq_some_iff.1 h, .more⟩
  split
  · next h => exact ⟨['s'], Text.beforeFinal?_eq_some_iff.1 h, .less⟩
  · exact ⟨[], (List.append_nil pattern).symm, .unset⟩

/-- What is kept of the bounds of a pattern of significant digits. -/
def SignificantPrecision.kept (least : Nat) (most : Option Nat)
    (priority : Option RoundingPriority) : SignificantPrecision :=
  ⟨digitCount least, most.map fun n => digitSum least (n - least), priority⟩

theorem SignificantWritten.kept_eq {pattern : List Char} {least : Nat} {most : Option Nat}
    (h : SignificantWritten pattern least most) (small : pattern.length < wordSize 32)
    (priority : Option RoundingPriority) :
    SignificantPrecision.kept least most priority = ⟨least, most, priority⟩ := by
  cases h with
  | exactly hn =>
    rw [List.length_replicate] at small
    simp [SignificantPrecision.kept, digitCount_of_lt small]
  | atLeast hn =>
    rw [List.length_append, List.length_replicate] at small
    simp [SignificantPrecision.kept,
      digitCount_of_lt (Nat.lt_of_le_of_lt (Nat.le_add_right _ _) small)]
  | between hn hk =>
    rw [List.length_append, List.length_replicate, List.length_replicate] at small
    simp [SignificantPrecision.kept, digitSum_of_lt small,
      digitCount_of_lt (Nat.lt_of_le_of_lt (Nat.le_add_right _ _) small)]

theorem SignificantWritten.ofPattern?_eq {pattern letter : List Char} {least : Nat}
    {most : Option Nat} {priority : Option RoundingPriority}
    (h : SignificantWritten pattern least most) (hletter : PriorityWritten letter priority) :
    SignificantPrecision.ofPattern? (pattern ++ letter) = some (.kept least most priority) := by
  unfold SignificantPrecision.ofPattern? SignificantPrecision.kept
  rw [takePriority_append hletter h.not_mem.1 h.not_mem.2]
  dsimp only
  cases h with
  | exactly hn => simp [Nat.ne_of_gt hn]
  | atLeast hn =>
    have hhead : ['+'].head? ≠ some '@' := by decide
    rw [takeWhile_replicate_append hhead, dropWhile_replicate_append hhead]
    simp [Nat.ne_of_gt hn]
  | @between n k hn hk =>
    have hhead : (List.replicate k '#').head? ≠ some '@' := by simp [List.head?_replicate]
    have hplus : List.replicate k '#' ≠ ['+'] := by
      intro h
      have hmem : '+' ∈ List.replicate k '#' := h ▸ List.mem_singleton_self '+'
      simp at hmem
    rw [takeWhile_replicate_append hhead, dropWhile_replicate_append hhead]
    simp [Text.isRunOf_replicate hk '#', hplus, Nat.ne_of_gt hn, Nat.ne_of_gt hk]

theorem SignificantPrecision.ofPattern?_eq_some_iff {text : List Char}
    {p : SignificantPrecision} :
    ofPattern? text = some p ↔ ∃ pattern letter least most priority, text = pattern ++ letter ∧
      SignificantWritten pattern least most ∧ PriorityWritten letter priority ∧
      p = kept least most priority := by
  constructor
  · intro h
    unfold ofPattern? at h
    obtain ⟨letter, htext, hletter⟩ := exists_priorityWritten text
    generalize takePriority text = taken at h htext hletter
    obtain ⟨pattern, priority⟩ := taken
    dsimp only at h htext hletter
    have hpattern := eq_replicate_append_dropWhile '@' pattern
    generalize (pattern.takeWhile (· == '@')).length = n at h hpattern
    generalize pattern.dropWhile (· == '@') = rest at h hpattern
    split_ifs at h with hzero hempty hplus hrun
    all_goals
      cases h
      have hn := Nat.one_le_iff_ne_zero.2 hzero
      rw [hpattern] at htext
    · rw [List.isEmpty_iff.1 hempty, List.append_nil] at htext
      exact ⟨_, letter, _, _, _, htext, .exactly hn, hletter, by simp [kept]⟩
    · rw [hplus] at htext
      exact ⟨_, letter, _, _, _, htext, .atLeast hn, hletter, by simp [kept]⟩
    · obtain ⟨k, hk, hrest⟩ := Text.isRunOf_iff.1 hrun
      rw [hrest] at htext
      exact ⟨_, letter, _, _, _, htext, .between hn hk, hletter, by simp [kept, hrest]⟩
  · rintro ⟨pattern, letter, least, most, priority, rfl, hpattern, hletter, rfl⟩
    exact hpattern.ofPattern?_eq hletter

theorem SignificantWritten.head? {pattern : List Char} {least : Nat} {most : Option Nat}
    (h : SignificantWritten pattern least most) (letter : List Char) :
    (pattern ++ letter).head? = some '@' := by
  cases h with
  | @exactly n hn => exact head?_replicate_append hn '@' letter
  | @atLeast n hn =>
    rw [List.append_assoc]
    exact head?_replicate_append hn '@' _
  | @between n k hn hk =>
    rw [List.append_assoc]
    exact head?_replicate_append hn '@' _

theorem SignificantPrecision.ofPattern?_eq_none {text : List Char} (h : text.head? ≠ some '@') :
    ofPattern? text = none := by
  rw [Option.eq_none_iff_forall_ne_some]
  intro p hp
  obtain ⟨pattern, letter, _, _, _, rfl, hpattern, -⟩ := ofPattern?_eq_some_iff.1 hp
  exact h (hpattern.head? letter)

/-! ## Signs -/

theorem Sign.ofStem?_eq_some_iff {stem : String} {sign : Sign} :
    ofStem? stem = some sign ↔ (stem, sign) ∈ signStems := by
  constructor
  · intro h
    unfold ofStem? at h
    split at h
    all_goals cases h
    all_goals decide
  · intro h
    have hall : ∀ p ∈ signStems, ofStem? p.1 = some p.2 := by decide
    exact hall _ h

/-- No sign begins as another piece does. -/
theorem head?_of_mem_signStems {stem : String} {sign : Sign} (h : (stem, sign) ∈ signStems) :
    stem.toList.head? ∉ [some '0', some '.', some '@', some 'E'] := by
  have hall : ∀ p ∈ signStems, p.1.toList.head? ∉ [some '0', some '.', some '@', some 'E'] := by
    decide
  exact hall _ h

/-! ## Exponents -/

theorem takeExponentSign_append {mark rest : List Char} {display : Option SignDisplay}
    (h : ExponentSignWritten mark display) (hrest : rest.head? ≠ some '+') :
    takeExponentSign (mark ++ rest) = (display, rest) := by
  unfold takeExponentSign
  cases h with
  | unset => rw [List.nil_append, Text.after?_eq_none hrest, Text.after?_eq_none hrest]
  | always => rfl
  | exceptZero => rfl

theorem exists_exponentSignWritten (pattern : List Char) :
    ∃ mark, pattern = mark ++ (takeExponentSign pattern).2 ∧
      ExponentSignWritten mark (takeExponentSign pattern).1 := by
  unfold takeExponentSign
  split
  · next h => exact ⟨_, Text.after?_eq_some_iff.1 h, .always⟩
  split
  · next h => exact ⟨_, Text.after?_eq_some_iff.1 h, .exceptZero⟩
  · exact ⟨[], rfl, .unset⟩

/-- The update of an exponent. -/
def exponentOf (shape : NumberShape) (display : Option SignDisplay) (digits : Nat) : Update :=
  fun f =>
    { f with
      shape := some shape
      signDisplay := display <|> f.signDisplay
      minimumIntegerDigits := some digits }

/-- The update of an exponent whose shape is known, from what follows the letters for it. -/
def exponentOf? (shape : NumberShape) (rest : List Char) : Option Update :=
  if Text.isRunOf '0' (takeExponentSign rest).2 then
    some (exponentOf shape (takeExponentSign rest).1 (digitCount (takeExponentSign rest).2.length))
  else none

theorem exponentUpdate?_eq (pattern : List Char) :
    exponentUpdate? pattern =
      match Text.after? ['E'] pattern with
      | some rest => exponentOf? .engineering rest
      | none => exponentOf? .scientific pattern := by
  unfold exponentUpdate?
  cases Text.after? ['E'] pattern <;> rfl

theorem exponentOf?_eq_some_iff {shape : NumberShape} {rest : List Char} {update : Update} :
    exponentOf? shape rest = some update ↔ ∃ mark display n, rest = mark ++ .replicate n '0' ∧
      ExponentSignWritten mark display ∧ 1 ≤ n ∧
      update = exponentOf shape display (digitCount n) := by
  rw [exponentOf?, Option.ite_none_right_eq_some, Text.isRunOf_iff]
  constructor
  · rintro ⟨⟨n, hn, hzeros⟩, h⟩
    cases h
    obtain ⟨mark, hrest, hmark⟩ := exists_exponentSignWritten rest
    rw [hzeros] at hrest
    refine ⟨mark, _, n, hrest, hmark, hn, ?_⟩
    rw [hzeros, List.length_replicate]
  · rintro ⟨mark, display, n, rfl, hmark, hn, rfl⟩
    rw [takeExponentSign_append hmark (by simp [List.head?_replicate])]
    exact ⟨⟨n, hn, rfl⟩, by rw [List.length_replicate]⟩

theorem exponentUpdate?_eq_some_iff {pattern : List Char} {update : Update} :
    exponentUpdate? pattern = some update ↔ ∃ letters mark shape display n,
      'E' :: pattern = letters ++ mark ++ .replicate n '0' ∧ ShapeWritten letters shape ∧
      ExponentSignWritten mark display ∧ 1 ≤ n ∧
      update = exponentOf shape display (digitCount n) := by
  rw [exponentUpdate?_eq]
  constructor
  · intro h
    split at h
    · next rest hrest =>
      obtain ⟨mark, display, n, rfl, hmark, hn, rfl⟩ := exponentOf?_eq_some_iff.1 h
      rw [Text.after?_eq_some_iff.1 hrest]
      exact ⟨_, mark, _, display, n, rfl, .engineering, hmark, hn, rfl⟩
    · obtain ⟨mark, display, n, rfl, hmark, hn, rfl⟩ := exponentOf?_eq_some_iff.1 h
      exact ⟨_, mark, _, display, n, rfl, .scientific, hmark, hn, rfl⟩
  · rintro ⟨letters, mark, shape, display, n, hpattern, hshape, hmark, hn, rfl⟩
    have hrest : exponentOf? shape (mark ++ .replicate n '0') =
        some (exponentOf shape display (digitCount n)) :=
      exponentOf?_eq_some_iff.2 ⟨mark, display, n, rfl, hmark, hn, rfl⟩
    cases hshape with
    | scientific =>
      obtain rfl : pattern = mark ++ .replicate n '0' := by simpa using hpattern
      have hhead : (mark ++ .replicate n '0' : List Char).head? ≠ some 'E' := by
        cases hmark <;> simp [List.head?_replicate]
      rw [Text.after?_eq_none hhead]
      exact hrest
    | engineering =>
      obtain rfl : pattern = 'E' :: (mark ++ .replicate n '0') := by simpa using hpattern
      exact hrest

/-! ## Stems -/

/-- A stem outside the vocabulary is read as a pattern. -/
theorem meaning_of_not_mem {t : Token} (h : t.stem ∉ vocabulary) :
    t.meaning = patternMeaning t := by
  unfold Token.meaning
  split
  -- The last case is that of no word.
  on_goal -1 => rfl
  all_goals
    next hstem =>
    rw [hstem] at h
    exact absurd (by decide) h

theorem StemWritten.exists_patternMeaning {stem : String} {f : NumberFormat}
    (h : StemWritten stem.toList f) (small : stem.length < wordSize 32) :
    ∃ update, patternMeaning ⟨stem, []⟩ = .ok update ∧ f = update {} := by
  rw [← String.length_toList] at small
  unfold patternMeaning
  dsimp only
  generalize hstem : stem.toList = text at h small ⊢
  -- In every case the first character rules out the readers that come before the right one.
  cases h with
  | @integer n hn =>
    rw [List.length_replicate] at small
    rw [if_pos (Text.isRunOf_replicate hn '0'), List.length_replicate, digitCount_of_lt small]
    exact ⟨_, rfl, rfl⟩
  | fraction h =>
    rw [Text.isRunOf_eq_false (by simp), Text.after?_eq_some_iff.2 (List.singleton_append).symm]
    simp only [fractionMeaning, h.ofPattern?_eq, h.kept_eq (Nat.lt_of_succ_lt small)]
    exact ⟨_, rfl, rfl⟩
  | @significant pattern letter least most priority h hletter =>
    have hhead := h.head? letter
    have hpattern : pattern.length < wordSize 32 := by
      rw [List.length_append] at small
      omega
    rw [Text.isRunOf_eq_false (by simp [hhead]), Text.after?_eq_none (by simp [hhead]),
      h.ofPattern?_eq hletter, h.kept_eq hpattern]
    exact ⟨_, rfl, by simp [SignificantPrecision.update]⟩
  | @sign stem' sign h =>
    have hhead := head?_of_mem_signStems h
    obtain rfl : stem = stem' := String.toList_inj.1 hstem
    simp only [List.mem_cons, List.not_mem_nil, not_or] at hhead
    rw [Text.isRunOf_eq_false hhead.1, Text.after?_eq_none hhead.2.1,
      SignificantPrecision.ofPattern?_eq_none hhead.2.2.1, Sign.ofStem?_eq_some_iff.2 h]
    exact ⟨_, rfl, by simp [Sign.update]⟩
  | @exponent letters mark shape display n h hmark hn =>
    obtain ⟨pattern, hpattern⟩ : ∃ pattern,
        letters ++ mark ++ .replicate n '0' = 'E' :: pattern := by
      cases h with
      | scientific => exact ⟨_, rfl⟩
      | engineering => exact ⟨_, rfl⟩
    have hupdate := exponentUpdate?_eq_some_iff.2
      ⟨letters, mark, shape, display, n, hpattern.symm, h, hmark, hn, rfl⟩
    have hsign : Sign.ofStem? stem = none := by
      rw [Option.eq_none_iff_forall_ne_some]
      intro sign hsign
      have hhead := head?_of_mem_signStems (Sign.ofStem?_eq_some_iff.1 hsign)
      simp [hstem, hpattern] at hhead
    rw [hpattern, Text.isRunOf_eq_false (by simp), Text.after?_eq_none (by simp),
      SignificantPrecision.ofPattern?_eq_none (by simp), hsign,
      Text.after?_eq_some_iff.2 (List.singleton_append).symm]
    have hcount : digitCount n = n := by
      rw [List.length_append, List.length_replicate] at small
      exact digitCount_of_lt (by omega)
    simp only [hupdate, hcount]
    exact ⟨_, rfl, by simp [exponentOf]⟩

/-- A stem without options is in the grammar, or its first character says why it is refused. -/
theorem patternMeaning_cases {stem : String} (small : stem.length < wordSize 32) :
    (∃ update, patternMeaning ⟨stem, []⟩ = .ok update ∧ StemWritten stem.toList (update {})) ∨
      patternMeaning ⟨stem, []⟩ = .error (if stem.toList.head? = some 'E' then
        .malformedExponent stem else .unknownStem stem) := by
  rw [← String.length_toList] at small
  generalize houtcome : patternMeaning ⟨stem, []⟩ = outcome
  have hplain (update : Update) : Token.plain ⟨stem, []⟩ update = .ok update := rfl
  unfold patternMeaning at houtcome
  simp only [hplain] at houtcome
  split at houtcome
  · next hzeros =>
    obtain ⟨n, hn, hstem⟩ := Text.isRunOf_iff.1 hzeros
    subst houtcome
    rw [hstem, List.length_replicate] at small
    rw [hstem, List.length_replicate, digitCount_of_lt small]
    exact .inl ⟨_, rfl, .integer hn⟩
  split at houtcome
  · next pattern hpattern =>
    rw [Text.after?_eq_some_iff.1 hpattern] at small ⊢
    unfold fractionMeaning at houtcome
    split at houtcome
    · exact .inr houtcome.symm
    · next precision hprecision =>
      obtain ⟨least, most, hwritten, rfl⟩ := FractionPrecision.ofPattern?_eq_some_iff.1 hprecision
      rw [hwritten.kept_eq (Nat.lt_of_succ_lt small)] at houtcome
      exact .inl ⟨_, houtcome.symm, .fraction hwritten⟩
  split at houtcome
  · next precision hprecision =>
    obtain ⟨pattern, letter, least, most, priority, hstem, hpattern, hletter, rfl⟩ :=
      SignificantPrecision.ofPattern?_eq_some_iff.1 hprecision
    have hlength : pattern.length < wordSize 32 := by
      rw [hstem, List.length_append] at small
      omega
    rw [hpattern.kept_eq hlength] at houtcome
    refine .inl ⟨_, houtcome.symm, ?_⟩
    rw [hstem]
    simpa [SignificantPrecision.update] using StemWritten.significant hpattern hletter
  split at houtcome
  · next sign hsign =>
    refine .inl ⟨_, houtcome.symm, ?_⟩
    simpa [Sign.update] using StemWritten.sign (Sign.ofStem?_eq_some_iff.1 hsign)
  split at houtcome
  · next hnone =>
    have hhead : stem.toList.head? ≠ some 'E' := by
      intro hhead
      obtain ⟨rest, hstem⟩ := List.head?_eq_some_iff.1 hhead
      rw [hstem] at hnone
      cases hnone
    rw [if_neg hhead]
    exact .inr houtcome.symm
  next pattern hpattern =>
  rw [Text.after?_eq_some_iff.1 hpattern] at small ⊢
  split at houtcome
  · next update hupdate =>
    obtain ⟨letters, mark, shape, display, n, hstem, hshape, hmark, hn, rfl⟩ :=
      exponentUpdate?_eq_some_iff.1 hupdate
    rw [List.singleton_append, hstem] at small ⊢
    have hcount : digitCount n = n := by
      rw [List.length_append, List.length_replicate] at small
      exact digitCount_of_lt (by omega)
    rw [hcount] at houtcome
    refine .inl ⟨_, houtcome.symm, ?_⟩
    simpa [exponentOf] using StemWritten.exponent hshape hmark hn
  · exact .inr houtcome.symm

/-- A token without options whose stem is no word stands for a format exactly if the stem is a
pattern for it.  Otherwise the refusal is for a malformed exponent if the stem begins with `E`, and
for an unknown stem if not. -/
theorem interpret_pattern {stem : String} (h : stem ∉ vocabulary)
    (small : stem.length < wordSize 32) :
    (∀ f, interpret [⟨stem, []⟩] = .ok f ↔ StemWritten stem.toList f) ∧
      ∀ fault, interpret [⟨stem, []⟩] = .error fault ↔ (∀ f, ¬StemWritten stem.toList f) ∧
        fault = if stem.toList.head? = some 'E' then .malformedExponent stem
          else .unknownStem stem := by
  have hmeaning : Token.meaning ⟨stem, []⟩ = patternMeaning ⟨stem, []⟩ := meaning_of_not_mem h
  have hcases := patternMeaning_cases small
  constructor
  · intro f
    rw [interpret_singleton_eq_ok_iff, hmeaning]
    refine ⟨?_, fun hf => hf.exists_patternMeaning small⟩
    rintro ⟨update, hupdate, rfl⟩
    obtain ⟨update', hupdate', hwritten⟩ | hrefused := hcases
    · rw [hupdate] at hupdate'
      cases hupdate'
      exact hwritten
    · rw [hupdate] at hrefused
      cases hrefused
  · intro fault
    rw [interpret_singleton_eq_error_iff, hmeaning]
    constructor
    · intro herror
      rw [herror] at hcases
      obtain ⟨update, hupdate, -⟩ | hrefused := hcases
      · cases hupdate
      refine ⟨fun f hf => ?_, Except.error.inj hrefused⟩
      obtain ⟨update, hupdate, -⟩ := hf.exists_patternMeaning small
      rw [herror] at hupdate
      cases hupdate
    · rintro ⟨hnot, rfl⟩
      obtain ⟨update, -, hwritten⟩ | hrefused := hcases
      · exact absurd hwritten (hnot _)
      · exact hrefused

theorem interpret_pattern_engineering :
    "EE+?00" ∉ vocabulary ∧ "EE+?00".length < wordSize 32 ∧ interpret [⟨"EE+?00", []⟩] =
      .ok { shape := some .engineering, signDisplay := some .exceptZero,
            minimumIntegerDigits := some 2 } := by
  have h : "EE+?00" ∉ vocabulary := by decide
  have small : "EE+?00".length < wordSize 32 := by decide
  exact ⟨h, small, ((interpret_pattern h small).1 _).2
    (.exponent .engineering .exceptZero (Nat.le_succ 1))⟩

end MessageFormat.NumberSkeleton
