import Mathlib.Data.List.Induction
import MessageFormat.Proofs.NumberFormat.Patterns

/-!
# The bounds on digits that a number skeleton sets

Four components of a format bound digits from below and above, after the point and among the
significant ones.  Every accepted token acts on these four as `Token.bound` says
(`Token.boundsBy_meaning`), and a whole skeleton as its tokens one after the other
(`digits_of_interpret`).  So each bound is the one that the last token with a say in it has set
(`last_digitsOf`).

The bounds of a single pattern fit together, unless it is a range that permits `2 ^ 32` digits or
more: the sum for the upper bound of such a range wraps around and ends below the lower bound
(`FractionPrecision.lt_iff_of_ofPattern?`).  Other bounds of a format that do not fit come from
tokens that do not know of each other, and there are only two ways to get there
(`consistent_iff`).  A request for whole numbers lowers the upper bound after the point and leaves
the lower one that an earlier pattern has set; and a pattern of significant digits without an upper
bound leaves the upper bound of an earlier one.
-/

namespace MessageFormat

/-- Bounds on the digits of a number. -/
structure Digits where
  leastFraction : Option Nat := none
  mostFraction : Option Nat := none
  leastSignificant : Option Nat := none
  mostSignificant : Option Nat := none
deriving DecidableEq, Repr

namespace NumberFormat

/-- The bounds on digits that a format sets. -/
def digits (f : NumberFormat) : Digits :=
  ⟨f.minimumFractionDigits, f.maximumFractionDigits, f.minimumSignificantDigits,
    f.maximumSignificantDigits⟩

/-- The bounds on digits fit together: where both are set, the lower is not over the upper. -/
def Consistent (f : NumberFormat) : Prop :=
  (∀ least most, f.minimumFractionDigits = some least → f.maximumFractionDigits = some most →
    least ≤ most) ∧
  ∀ least most, f.minimumSignificantDigits = some least →
    f.maximumSignificantDigits = some most → least ≤ most

end NumberFormat

namespace NumberSkeleton

/-! ## Patterns -/

/-- The pattern is a range of digits after the point that permits more than 32 bits can count. -/
def OverlongFraction (pattern : List Char) : Prop :=
  ∃ least most, FractionWritten pattern (some least) (some most) ∧ least < most ∧
    wordSize 32 ≤ most

/-- The pattern is a range of significant digits that permits more than 32 bits can count. -/
def OverlongSignificant (text : List Char) : Prop :=
  ∃ pattern letter least most priority, text = pattern ++ letter ∧
    SignificantWritten pattern least (some most) ∧ PriorityWritten letter priority ∧
    least < most ∧ wordSize 32 ≤ most

/-- A pattern after the point that requires digits requires at least one. -/
theorem FractionWritten.one_le {pattern : List Char} {least : Nat} {most : Option Nat}
    (h : FractionWritten pattern (some least) most) : 1 ≤ least := by
  cases h with
  | exactly hn => exact hn
  | atLeast hn => exact hn
  | between hn _ => exact hn

theorem SignificantWritten.one_le {pattern : List Char} {least : Nat} {most : Option Nat}
    (h : SignificantWritten pattern least most) : 1 ≤ least := by
  cases h with
  | exactly hn => exact hn
  | atLeast hn => exact hn
  | between hn _ => exact hn

/-- What is kept of an upper bound is under what is kept of the lower one only if it has wrapped
around. -/
theorem digitSum_sub_lt_iff {least most : Nat} (h : 1 ≤ least) :
    digitSum least (most - least) < digitCount least ↔ least < most ∧ wordSize 32 ≤ most := by
  rw [digitSum_lt_iff h]
  omega

theorem FractionPrecision.pos_of_ofPattern? {pattern : List Char} {p : FractionPrecision}
    {least : Nat} (h : ofPattern? pattern = some p) (hleast : p.least = some least) :
    1 ≤ least := by
  obtain ⟨n, most, hwritten, rfl⟩ := ofPattern?_eq_some_iff.1 h
  obtain ⟨n, rfl, rfl⟩ := Option.map_eq_some_iff.1 hleast
  exact digitCount_pos hwritten.one_le

/-- The bounds of a pattern after the point fit unless it is an overlong range. -/
theorem FractionPrecision.lt_iff_of_ofPattern? {pattern : List Char} {p : FractionPrecision}
    {least most : Nat} (h : ofPattern? pattern = some p) (hleast : p.least = some least)
    (hmost : p.most = some most) : most < least ↔ OverlongFraction pattern := by
  constructor
  · intro hlt
    obtain ⟨least', most', hwritten, rfl⟩ := ofPattern?_eq_some_iff.1 h
    obtain ⟨n, rfl, rfl⟩ := Option.map_eq_some_iff.1 hleast
    obtain ⟨m, rfl, rfl⟩ := Option.map_eq_some_iff.1 hmost
    exact ⟨n, m, hwritten, (digitSum_sub_lt_iff hwritten.one_le).1 hlt⟩
  · rintro ⟨n, m, hwritten, hover⟩
    rw [hwritten.ofPattern?_eq] at h
    cases h
    cases hleast
    cases hmost
    exact (digitSum_sub_lt_iff hwritten.one_le).2 hover

theorem SignificantPrecision.lt_iff_of_ofPattern? {text : List Char} {p : SignificantPrecision}
    {most : Nat} (h : ofPattern? text = some p) (hmost : p.most = some most) :
    most < p.least ↔ OverlongSignificant text := by
  constructor
  · intro hlt
    obtain ⟨pattern, letter, n, most', priority, htext, hwritten, hletter, rfl⟩ :=
      ofPattern?_eq_some_iff.1 h
    obtain ⟨m, rfl, rfl⟩ := Option.map_eq_some_iff.1 hmost
    exact ⟨pattern, letter, n, m, priority, htext, hwritten, hletter,
      (digitSum_sub_lt_iff hwritten.one_le).1 hlt⟩
  · rintro ⟨pattern, letter, n, m, priority, rfl, hwritten, hletter, hover⟩
    rw [hwritten.ofPattern?_eq hletter] at h
    cases h
    cases hmost
    exact (digitSum_sub_lt_iff hwritten.one_le).2 hover

@[simp] theorem FractionPrecision.digits_update (p : FractionPrecision) (f : NumberFormat) :
    (p.update f).digits = { f.digits with leastFraction := p.least, mostFraction := p.most } := rfl

@[simp] theorem SignificantPrecision.digits_update (p : SignificantPrecision)
    (f : NumberFormat) :
    (p.update f).digits = { f.digits with
      leastSignificant := some p.least
      mostSignificant := p.most.or f.digits.mostSignificant } := by
  simp [SignificantPrecision.update, NumberFormat.digits]

namespace Token

/-! ## What a token does to the bounds -/

/-- The bounds after the point that the stem of a token stands for. -/
def fraction? (t : Token) : Option FractionPrecision :=
  (Text.after? ['.'] t.stem.toList).bind FractionPrecision.ofPattern?

/-- Where a token has its pattern of significant digits: in its option if the stem bounds the
digits after the point, and else in its stem. -/
def significantText? (t : Token) : Option String :=
  match t.fraction? with
  | some _ => t.options.head?
  | none => some t.stem

/-- The bounds on significant digits of a token. -/
def significant? (t : Token) : Option SignificantPrecision :=
  t.significantText?.bind fun text => SignificantPrecision.ofPattern? text.toList

/-- The two words for whole numbers. -/
def asksInteger (t : Token) : Bool := t.stem == "precision-integer" || t.stem == "."

/-- The upper bound on significant digits that a token sets. -/
def mostSignificant? (t : Token) : Option Nat := t.significant?.bind (·.most)

/-- What a token does to the bounds.  Whole numbers set the upper bound after the point only, a
pattern there sets both, and a pattern of significant digits sets those bounds that it has. -/
def bound (t : Token) (d : Digits) : Digits where
  leastFraction := t.fraction?.elim d.leastFraction (·.least)
  mostFraction := if t.asksInteger then some 0 else t.fraction?.elim d.mostFraction (·.most)
  leastSignificant := t.significant?.elim d.leastSignificant (some ·.least)
  mostSignificant := t.mostSignificant?.or d.mostSignificant

/-- Whether a token has a say in the digits after the point. -/
def boundsFraction (t : Token) : Bool := t.asksInteger || t.fraction?.isSome

/-- The update of the token, if it has one, bounds digits as the token says. -/
def BoundsBy (t : Token) (x : Except Fault Update) : Prop :=
  ∀ update, x = .ok update → ∀ f, (update f).digits = t.bound f.digits

variable {t : Token} {α : Type}

theorem boundsBy_ok {update : Update} (h : ∀ f, (update f).digits = t.bound f.digits) :
    t.BoundsBy (.ok update) := by
  intro update' h'
  cases h'
  exact h

theorem boundsBy_error (fault : Fault) : t.BoundsBy (.error fault) := by
  intro update h
  cases h

theorem boundsBy_bind {x : Except Fault α} {g : α → Except Fault Update}
    (h : ∀ a, t.BoundsBy (g a)) : t.BoundsBy (x >>= g) := by
  cases x with
  | error fault => exact boundsBy_error fault
  | ok a => exact h a

theorem boundsBy_plain {update : Update} (h : ∀ f, (update f).digits = t.bound f.digits) :
    t.BoundsBy (t.plain update) := by
  unfold plain
  split
  · exact boundsBy_ok h
  · exact boundsBy_error _

/-- A token whose stem says nothing about digits leaves the bounds as they are. -/
theorem bound_eq_self (hinteger : t.asksInteger = false) (hfraction : t.fraction? = none)
    (hstem : SignificantPrecision.ofPattern? t.stem.toList = none) (d : Digits) :
    t.bound d = d := by
  have hsignificant : t.significant? = none := by
    simp [significant?, significantText?, hfraction, hstem]
  simp [bound, mostSignificant?, hinteger, hfraction, hsignificant]

/-- The words for whole numbers are no patterns. -/
theorem fraction?_of_asksInteger (h : t.asksInteger = true) :
    t.fraction? = none ∧ t.significant? = none := by
  rw [asksInteger, Bool.or_eq_true, beq_iff_eq, beq_iff_eq] at h
  rw [significant?, significantText?, fraction?]
  rcases h with h | h
  · rw [h]
    exact ⟨rfl, rfl⟩
  · rw [h]
    exact ⟨rfl, rfl⟩

theorem digits_of_asksInteger (h : t.asksInteger = true) (f : NumberFormat) :
    ({ f with maximumFractionDigits := some 0 } : NumberFormat).digits = t.bound f.digits := by
  obtain ⟨hfraction, hsignificant⟩ := fraction?_of_asksInteger h
  simp [bound, mostSignificant?, h, hfraction, hsignificant, NumberFormat.digits]

/-! ## Patterns as stems -/

theorem exists_cons_of_isRunOf {mark : Char} {text : List Char}
    (h : Text.isRunOf mark text = true) : ∃ rest, text = mark :: rest := by
  cases text with
  | nil => simp [Text.isRunOf] at h
  | cons c rest =>
    simp only [Text.isRunOf, List.all_cons, Bool.and_eq_true, beq_iff_eq] at h
    exact ⟨rest, by rw [h.2.1]⟩

theorem digits_exponentUpdate? {pattern : List Char} {update : Update}
    (h : exponentUpdate? pattern = some update) (f : NumberFormat) :
    (update f).digits = f.digits := by
  simp only [exponentUpdate?, Option.ite_none_right_eq_some, Option.some.injEq] at h
  obtain ⟨-, rfl⟩ := h
  rfl

theorem boundsBy_fractionMeaning {pattern : List Char} (hinteger : t.asksInteger = false)
    (hpattern : Text.after? ['.'] t.stem.toList = some pattern) :
    t.BoundsBy (fractionMeaning t pattern) := by
  unfold fractionMeaning
  split
  · exact boundsBy_error _
  next precision hprecision =>
  have hfraction : t.fraction? = some precision := by simp [fraction?, hpattern, hprecision]
  split
  · next hoptions =>
    have hsignificant : t.significant? = none := by
      simp [significant?, significantText?, hfraction, hoptions]
    apply boundsBy_ok
    intro f
    simp [bound, mostSignificant?, hinteger, hfraction, hsignificant]
  · next option hoptions =>
    have hoption : t.significant? = SignificantPrecision.ofPattern? option.toList := by
      simp [significant?, significantText?, hfraction, hoptions]
    unfold fractionOption
    split
    · next hword =>
      have hsignificant : t.significant? = none := by
        rw [hoption, hword]
        rfl
      apply boundsBy_ok
      intro f
      show (precision.update f).digits = t.bound f.digits
      simp [bound, mostSignificant?, hinteger, hfraction, hsignificant]
    split
    · next significant hpattern =>
      apply boundsBy_ok
      intro f
      simp [bound, mostSignificant?, hinteger, hfraction, hoption, hpattern]
    · exact boundsBy_error _
  · exact boundsBy_error _

theorem boundsBy_patternMeaning (hinteger : t.asksInteger = false) :
    t.BoundsBy (patternMeaning t) := by
  unfold patternMeaning
  dsimp only
  split
  · next hrun =>
    obtain ⟨rest, hrest⟩ := exists_cons_of_isRunOf hrun
    have hfraction : t.fraction? = none := by simp [fraction?, hrest, Text.after?]
    have hstem : SignificantPrecision.ofPattern? t.stem.toList = none := by
      exact SignificantPrecision.ofPattern?_eq_none (by simp [hrest])
    exact boundsBy_plain fun f => (bound_eq_self hinteger hfraction hstem f.digits).symm
  split
  · next pattern hpattern => exact boundsBy_fractionMeaning hinteger hpattern
  next hpoint =>
  have hfraction : t.fraction? = none := by simp [fraction?, hpoint]
  split
  · next precision hstem =>
    have hsignificant : t.significant? = some precision := by
      simp [significant?, significantText?, hfraction, hstem]
    apply boundsBy_plain
    intro f
    simp [bound, mostSignificant?, hinteger, hfraction, hsignificant]
  next hstem =>
  have hbound := bound_eq_self hinteger hfraction hstem
  split
  · exact boundsBy_plain fun f => (hbound f.digits).symm
  split
  · exact boundsBy_error _
  split
  · next hupdate =>
    exact boundsBy_plain fun f => (digits_exponentUpdate? hupdate f).trans (hbound f.digits).symm
  split
  · exact boundsBy_error _
  · exact boundsBy_error _

theorem digits_exponential (shape : NumberShape) (signs : List Sign) (f : NumberFormat) :
    (exponential shape signs f).digits = f.digits := by
  have hsigns : ∀ start : NumberFormat,
      (signs.foldl (fun f sign => sign.update f) start).digits = start.digits := by
    induction signs with
    | nil => exact fun start => rfl
    | cons sign signs ih => exact fun start => ih (sign.update start)
  exact hsigns _

/-- A word of the vocabulary that says nothing about digits. -/
theorem bound_word {word : String} (h : t.stem = word)
    (hinteger : (word == "precision-integer" || word == ".") = false)
    (hfraction : Text.after? ['.'] word.toList = none)
    (hsignificant : SignificantPrecision.ofPattern? word.toList = none) (d : Digits) :
    d = t.bound d := by
  subst h
  have hnone : t.fraction? = none := by rw [fraction?, hfraction, Option.bind_none]
  exact (bound_eq_self hinteger hnone hsignificant d).symm

/-- What an accepted token does to the bounds on digits. -/
theorem boundsBy_meaning (t : Token) : t.BoundsBy t.meaning := by
  unfold meaning
  split
  any_goals exact boundsBy_plain fun f => bound_word ‹t.stem = _› rfl rfl rfl f.digits
  -- What is left are a currency, the two words for whole numbers and for a unit, the two shapes
  -- with an exponent, a scale and an integer width, and then the patterns.
  · next h => exact boundsBy_bind fun _ => boundsBy_ok fun f => bound_word h rfl rfl rfl f.digits
  · next h => exact boundsBy_plain (digits_of_asksInteger (by simp [asksInteger, h]))
  · next h => exact boundsBy_plain (digits_of_asksInteger (by simp [asksInteger, h]))
  · next h => exact boundsBy_bind fun _ => boundsBy_ok fun f => bound_word h rfl rfl rfl f.digits
  · next h => exact boundsBy_bind fun _ => boundsBy_ok fun f => bound_word h rfl rfl rfl f.digits
  · next h =>
    exact boundsBy_bind fun signs => boundsBy_ok fun f =>
      (digits_exponential .scientific signs f).trans (bound_word h rfl rfl rfl f.digits)
  · next h =>
    exact boundsBy_bind fun signs => boundsBy_ok fun f =>
      (digits_exponential .engineering signs f).trans (bound_word h rfl rfl rfl f.digits)
  · next h =>
    exact boundsBy_bind fun _ => boundsBy_bind fun _ => boundsBy_ok fun f =>
      bound_word h rfl rfl rfl f.digits
  · next h =>
    exact boundsBy_bind fun _ => boundsBy_bind fun _ => boundsBy_ok fun f =>
      bound_word h rfl rfl rfl f.digits
  · apply boundsBy_patternMeaning
    rw [asksInteger, Bool.or_eq_false_iff, beq_eq_false_iff_ne, beq_eq_false_iff_ne]
    constructor
    · assumption
    · assumption

end Token

/-! ## What a skeleton does to the bounds -/

/-- The bounds on digits after some tokens. -/
def digitsOf (tokens : List Token) : Digits := tokens.foldl (fun d t => t.bound d) {}

theorem digitsOf_append_singleton (tokens : List Token) (t : Token) :
    digitsOf (tokens ++ [t]) = t.bound (digitsOf tokens) := by
  simp [digitsOf]

theorem digits_foldl {tokens : List Token} {updates : List Update}
    (h : List.Forall₂ (fun t update => t.meaning = .ok update) tokens updates)
    (f : NumberFormat) :
    (updates.foldl (fun f update => update f) f).digits =
      tokens.foldl (fun d t => t.bound d) f.digits := by
  induction h generalizing f with
  | nil => rfl
  | cons hmeaning _ ih =>
    rw [List.foldl_cons, List.foldl_cons, ih, Token.boundsBy_meaning _ _ hmeaning]

/-- A skeleton bounds digits by one token after the other. -/
theorem digits_of_interpret {tokens : List Token} {f : NumberFormat}
    (h : interpret tokens = .ok f) : f.digits = digitsOf tokens := by
  rw [interpret] at h
  cases hupdates : tokens.mapM Token.meaning with
  | error fault =>
    rw [hupdates] at h
    cases h
  | ok updates =>
    rw [hupdates] at h
    cases h
    exact digits_foldl (mapM_eq_ok_iff.1 hupdates) {}

/-! ## The last word -/

/-- A bound that the tokens picked set, and all others leave, is the one of the last token
picked. -/
theorem last_digitsOf {β : Type} {bound : Digits → Option Nat} {pick : Token → Option β}
    {value : β → Option Nat} (start : bound {} = none)
    (step : ∀ t d, bound (t.bound d) = (pick t).elim (bound d) value) (tokens : List Token) :
    bound (digitsOf tokens) = (tokens.filterMap pick).getLast?.bind value := by
  -- from the end, since the last token decides
  induction tokens using List.reverseRecOn with
  | nil => exact start
  | append_singleton tokens t ih =>
    rw [digitsOf_append_singleton, step, ih]
    cases hpick : pick t with
    | none => simp [hpick]
    | some b => simp [hpick]

/-- The lower bound after the point is that of the last pattern there. -/
theorem leastFraction_digitsOf (tokens : List Token) :
    (digitsOf tokens).leastFraction =
      (tokens.filterMap Token.fraction?).getLast?.bind (·.least) :=
  last_digitsOf rfl (fun _ _ => rfl) tokens

/-- The upper bound after the point is that of the last token with a say in it. -/
theorem mostFraction_digitsOf (tokens : List Token) :
    (digitsOf tokens).mostFraction =
      (tokens.filter Token.boundsFraction).getLast?.bind fun t =>
        if t.asksInteger then some 0 else t.fraction?.bind (·.most) := by
  rw [← List.filterMap_eq_filter]
  apply last_digitsOf rfl
  intro t d
  by_cases hinteger : t.asksInteger = true
  · simp [Token.bound, Token.boundsFraction, hinteger]
  · cases hfraction : t.fraction? with
    | none => simp [Token.bound, Token.boundsFraction, Option.guard, hinteger, hfraction]
    | some p => simp [Token.bound, Token.boundsFraction, hinteger, hfraction]

theorem leastSignificant_digitsOf (tokens : List Token) :
    (digitsOf tokens).leastSignificant =
      (tokens.filterMap Token.significant?).getLast?.map (·.least) := by
  rw [Option.map_eq_bind]
  exact last_digitsOf rfl (fun _ _ => rfl) tokens

/-- The upper bound on significant digits is that of the last pattern that has one. -/
theorem mostSignificant_digitsOf (tokens : List Token) :
    (digitsOf tokens).mostSignificant = (tokens.filterMap Token.mostSignificant?).getLast? := by
  rw [← Option.bind_fun_some (tokens.filterMap Token.mostSignificant?).getLast?]
  apply last_digitsOf rfl
  intro t d
  cases hmost : t.mostSignificant? with
  | none => simp [Token.bound, hmost]
  | some most => simp [Token.bound, hmost]

/-! ## When the bounds fit -/

/-- The last pattern after the point requires digits there, and whole numbers are asked for
behind it. -/
def Truncated (tokens : List Token) : Prop :=
  ∃ p t, (tokens.filterMap Token.fraction?).getLast? = some p ∧ p.least ≠ none ∧
    (tokens.filter Token.boundsFraction).getLast? = some t ∧ t.asksInteger = true

/-- The last pattern of significant digits has no upper bound, and requires more digits than the
last one with an upper bound permits. -/
def Overtaken (tokens : List Token) : Prop :=
  ∃ p most, (tokens.filterMap Token.significant?).getLast? = some p ∧ p.most = none ∧
    (tokens.filterMap Token.mostSignificant?).getLast? = some most ∧ most < p.least

/-- The last token with a say in the digits after the point is an overlong range. -/
def FractionWrapped (tokens : List Token) : Prop :=
  ∃ t pattern, (tokens.filter Token.boundsFraction).getLast? = some t ∧
    Text.after? ['.'] t.stem.toList = some pattern ∧ OverlongFraction pattern

/-- The last pattern of significant digits is an overlong range. -/
def SignificantWrapped (tokens : List Token) : Prop :=
  ∃ t text, (tokens.filter fun t => t.significant?.isSome).getLast? = some t ∧
    t.significantText? = some text ∧ OverlongSignificant text.toList

/-- The last member of a list has the last word in every selection it is part of. -/
theorem getLast?_filterMap_of_getLast? {α β : Type} {l : List α} {g : α → Option β} {a : α}
    {b : β} (hl : l.getLast? = some a) (ha : g a = some b) :
    (l.filterMap g).getLast? = some b := by
  obtain ⟨before, rfl⟩ := List.getLast?_eq_some_iff.1 hl
  simp [ha]

theorem filterMap_fraction?_filter (tokens : List Token) :
    (tokens.filter Token.boundsFraction).filterMap Token.fraction? =
      tokens.filterMap Token.fraction? := by
  rw [List.filterMap_filter]
  congr
  funext t
  by_cases h : t.boundsFraction = true
  · rw [if_pos h]
  · rw [if_neg h]
    simp only [Token.boundsFraction, Bool.or_eq_true, not_or, Option.not_isSome_iff_eq_none] at h
    exact h.2.symm

/-- If the last token with a say in the digits after the point has a pattern, it sets both bounds
there. -/
theorem fraction_digitsOf {tokens : List Token} {t : Token} {p : FractionPrecision}
    (ht : (tokens.filter Token.boundsFraction).getLast? = some t) (hp : t.fraction? = some p) :
    (digitsOf tokens).leastFraction = p.least ∧ (digitsOf tokens).mostFraction = p.most := by
  have hinteger : ¬t.asksInteger = true := by
    intro hinteger
    rw [(Token.fraction?_of_asksInteger hinteger).1] at hp
    cases hp
  have hlast := getLast?_filterMap_of_getLast? ht hp
  rw [filterMap_fraction?_filter] at hlast
  constructor
  · rw [leastFraction_digitsOf, hlast, Option.bind_some]
  · rw [mostFraction_digitsOf, ht, Option.bind_some, if_neg hinteger, hp, Option.bind_some]

/-- The last pattern of significant digits is that of the last token that has one. -/
theorem getLast?_significant? (tokens : List Token) :
    (tokens.filterMap Token.significant?).getLast? =
      (tokens.filter fun t => t.significant?.isSome).getLast?.bind Token.significant? := by
  induction tokens using List.reverseRecOn with
  | nil => rfl
  | append_singleton tokens t ih =>
    cases ht : t.significant? with
    | none => simpa [ht] using ih
    | some p => simp [ht]

theorem fractions_fit_iff (tokens : List Token) :
    (∀ least most, (digitsOf tokens).leastFraction = some least →
      (digitsOf tokens).mostFraction = some most → least ≤ most) ↔
      ¬Truncated tokens ∧ ¬FractionWrapped tokens := by
  constructor
  · intro h
    constructor
    · rintro ⟨p, t, hp, hleast, ht, hinteger⟩
      obtain ⟨least, hleast⟩ := Option.ne_none_iff_exists'.1 hleast
      have hzero : least ≤ 0 := h least 0 (by simp [leastFraction_digitsOf, hp, hleast])
        (by simp [mostFraction_digitsOf, ht, hinteger])
      obtain ⟨u, -, hu⟩ := List.mem_filterMap.1 (List.mem_of_getLast? hp)
      obtain ⟨pattern, -, hpattern⟩ := Option.bind_eq_some_iff.1 hu
      have hpos := FractionPrecision.pos_of_ofPattern? hpattern hleast
      omega
    · rintro ⟨t, pattern, ht, hstem, hover⟩
      have ⟨n, m, hwritten, _⟩ := hover
      have hp := hwritten.ofPattern?_eq
      have hfraction : t.fraction? = some (.kept (some n) (some m)) := by
        rw [Token.fraction?, hstem, Option.bind_some, hp]
      obtain ⟨hleast, hmost⟩ := fraction_digitsOf ht hfraction
      exact Nat.not_lt.2 (h _ _ hleast hmost)
        ((FractionPrecision.lt_iff_of_ofPattern? hp rfl rfl).2 hover)
  · rintro ⟨htruncated, hwrapped⟩ least most hleast hmost
    rw [mostFraction_digitsOf] at hmost
    obtain ⟨t, ht, hmost⟩ := Option.bind_eq_some_iff.1 hmost
    by_cases hinteger : t.asksInteger = true
    · rw [leastFraction_digitsOf] at hleast
      obtain ⟨p, hp, hleast⟩ := Option.bind_eq_some_iff.1 hleast
      exact absurd ⟨p, t, hp, by simp [hleast], ht, hinteger⟩ htruncated
    · rw [if_neg hinteger] at hmost
      obtain ⟨p, hp, hmost⟩ := Option.bind_eq_some_iff.1 hmost
      rw [(fraction_digitsOf ht hp).1] at hleast
      obtain ⟨pattern, hstem, hpattern⟩ := Option.bind_eq_some_iff.1 hp
      refine Nat.not_lt.1 fun hlt => hwrapped ⟨t, pattern, ht, hstem, ?_⟩
      exact (FractionPrecision.lt_iff_of_ofPattern? hpattern hleast hmost).1 hlt

theorem significants_fit_iff (tokens : List Token) :
    (∀ least most, (digitsOf tokens).leastSignificant = some least →
      (digitsOf tokens).mostSignificant = some most → least ≤ most) ↔
      ¬Overtaken tokens ∧ ¬SignificantWrapped tokens := by
  -- a pattern that has an upper bound of its own and is the last has the last upper bound
  have hlast : ∀ {p : SignificantPrecision} {most : Nat},
      (tokens.filterMap Token.significant?).getLast? = some p → p.most = some most →
      (tokens.filterMap Token.mostSignificant?).getLast? = some most := by
    intro p most hp hmost
    rw [← getLast?_filterMap_of_getLast? hp hmost, List.filterMap_filterMap]
    rfl
  rw [leastSignificant_digitsOf, mostSignificant_digitsOf]
  constructor
  · intro h
    constructor
    · rintro ⟨p, most, hp, -, hmost, hlt⟩
      have hle : p.least ≤ most := h p.least most (by simp [hp]) hmost
      omega
    · rintro ⟨t, text, ht, htext, hover⟩
      have ⟨pattern, letter, n, m, priority, heq, hwritten, hletter, _⟩ := hover
      have hp := hwritten.ofPattern?_eq hletter
      rw [← heq] at hp
      have hsignificant : (tokens.filterMap Token.significant?).getLast? =
          some (.kept n (some m) priority) := by
        rw [getLast?_significant?, ht]
        simp [Token.significant?, htext, hp]
      have hle := h _ _ (by rw [hsignificant]; rfl) (hlast hsignificant rfl)
      exact Nat.not_lt.2 hle ((SignificantPrecision.lt_iff_of_ofPattern? hp rfl).2 hover)
  · rintro ⟨hovertaken, hwrapped⟩ least most hleast hmost
    obtain ⟨p, hp, rfl⟩ := Option.map_eq_some_iff.1 hleast
    refine Nat.not_lt.1 fun hlt => ?_
    cases hpmost : p.most with
    | none => exact hovertaken ⟨p, most, hp, hpmost, hmost, hlt⟩
    | some pmost =>
      have hsame := hlast hp hpmost
      rw [hmost, Option.some.injEq] at hsame
      subst hsame
      rw [getLast?_significant?] at hp
      obtain ⟨t, ht, hp⟩ := Option.bind_eq_some_iff.1 hp
      obtain ⟨text, htext, hpattern⟩ := Option.bind_eq_some_iff.1 hp
      exact hwrapped ⟨t, text, ht, htext,
        (SignificantPrecision.lt_iff_of_ofPattern? hpattern hpmost).1 hlt⟩

/-- The bounds on digits of an accepted skeleton fit together, unless whole numbers are asked for
behind a pattern that requires digits after the point, or a pattern of significant digits without
an upper bound requires more of them than an earlier one permits, or bounds come from a range that
permits `2 ^ 32` digits or more. -/
theorem consistent_iff {tokens : List Token} {f : NumberFormat} (h : interpret tokens = .ok f) :
    f.Consistent ↔ ¬Truncated tokens ∧ ¬FractionWrapped tokens ∧ ¬Overtaken tokens ∧
      ¬SignificantWrapped tokens := by
  rw [← and_assoc, ← fractions_fit_iff, ← significants_fit_iff, ← digits_of_interpret h]
  rfl

/-- A later pattern after the point puts right what a request for whole numbers has left, and a
lower bound on significant digits alone fits. -/
theorem consistent_of_later_pattern :
    ∃ f, interpret [⟨".00", []⟩, ⟨".", []⟩, ⟨".0##", ["@@@+"]⟩] = .ok f ∧ f.Consistent ∧
      ¬Truncated [⟨".00", []⟩, ⟨".", []⟩, ⟨".0##", ["@@@+"]⟩] ∧
      ¬FractionWrapped [⟨".00", []⟩, ⟨".", []⟩, ⟨".0##", ["@@@+"]⟩] ∧
      ¬Overtaken [⟨".00", []⟩, ⟨".", []⟩, ⟨".0##", ["@@@+"]⟩] ∧
      ¬SignificantWrapped [⟨".00", []⟩, ⟨".", []⟩, ⟨".0##", ["@@@+"]⟩] := by
  have h : interpret [⟨".00", []⟩, ⟨".", []⟩, ⟨".0##", ["@@@+"]⟩] = .ok
      { minimumFractionDigits := some 1, maximumFractionDigits := some 3,
        minimumSignificantDigits := some 3 } := rfl
  have hconsistent : NumberFormat.Consistent
      { minimumFractionDigits := some 1, maximumFractionDigits := some 3,
        minimumSignificantDigits := some 3 } := by
    simp [NumberFormat.Consistent]
  exact ⟨_, h, hconsistent, (consistent_iff h).1 hconsistent⟩

/-- A range after the point that permits `2 ^ 32` digits or more is accepted, and its bounds do not
fit. -/
theorem not_consistent_of_overlong {n k : Nat} (hn : 1 ≤ n) (hk : 1 ≤ k)
    (h : wordSize 32 ≤ n + k) :
    ∃ f, interpret [⟨String.ofList ('.' :: (.replicate n '0' ++ .replicate k '#')), []⟩] = .ok f ∧
      ¬f.Consistent := by
  have hwords : ∀ word ∈ vocabulary, word.length < wordSize 32 := by decide
  have hstem : String.ofList ('.' :: (.replicate n '0' ++ .replicate k '#')) ∉ vocabulary := by
    intro hmem
    have hlength := hwords _ hmem
    simp only [String.length_ofList, List.length_cons, List.length_append,
      List.length_replicate] at hlength
    omega
  have hwritten : FractionWritten (.replicate n '0' ++ .replicate k '#') _ _ := .between hn hk
  have hmeaning : Token.meaning
      ⟨String.ofList ('.' :: (.replicate n '0' ++ .replicate k '#')), []⟩ =
        .ok (FractionPrecision.update (.kept (some n) (some (n + k)))) := by
    rw [meaning_of_not_mem hstem, patternMeaning, String.toList_ofList,
      Text.isRunOf_eq_false (by simp), Text.after?_eq_some_iff.2 (List.singleton_append).symm]
    simp only [fractionMeaning, hwritten.ofPattern?_eq]
    rfl
  refine ⟨_, interpret_singleton_eq_ok_iff.2 ⟨_, hmeaning, rfl⟩, fun hconsistent => ?_⟩
  have hle : digitCount n ≤ digitSum n (n + k - n) := hconsistent.1 _ _ rfl rfl
  rw [Nat.add_sub_cancel_left] at hle
  exact Nat.not_lt.2 hle ((digitSum_lt_iff hn).2 ⟨hk, h⟩)

/-- Two digits are required after the point and none permitted; three significant digits are
required and two permitted. -/
theorem not_consistent_of_stale_bounds :
    (∃ f, interpret [⟨".00", []⟩, ⟨"precision-integer", []⟩] = .ok f ∧ ¬f.Consistent) ∧
    ∃ f, interpret [⟨"@@", []⟩, ⟨"@@@+", []⟩] = .ok f ∧ ¬f.Consistent := by
  constructor
  · refine ⟨{ minimumFractionDigits := some 2, maximumFractionDigits := some 0 }, rfl, ?_⟩
    simp [NumberFormat.Consistent]
  · refine ⟨{ minimumSignificantDigits := some 3, maximumSignificantDigits := some 2 }, rfl, ?_⟩
    simp [NumberFormat.Consistent]

end NumberSkeleton

end MessageFormat
