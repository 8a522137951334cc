import Mathlib.Data.Nat.Digits.Lemmas
import MessageFormat.Proofs.WellFormed

/-!
# The numbers of exact selectors

An exact selector of a plural argument is an equals sign and a numeral.  That the selectors of an
argument are distinct is a matter of their texts, and a number has many numerals: with or without a
plus sign, with any number of leading zeros, and zero also with a minus sign.  These are all there
are, since a numeral stands for the number that is left without them (`integerOf?_eq_iff`).

So two exact selectors of an argument can stand for one number, and they do exactly if they are
two spellings of it in this sense (`exact_nodup_iff`).
-/

namespace MessageFormat

/-! ## Numerals -/

/-- An optional sign and digits. -/
def IsNumeral (text : List Char) : Prop :=
  ∃ sign digits, text = sign ++ digits ∧ IsSign sign ∧ IsDigits digits

/-- A numeral without what does not count: whether there is a minus sign before something else
than zero, and the digits from the first one on that is not zero. -/
def plainForm (numeral : List Char) : Bool × List Char :=
  let (negative, digits) := takeSign numeral
  let digits := digits.dropWhile (· == '0')
  (negative && !digits.isEmpty, digits)

/-- Two numerals that differ, but only in a plus sign, in leading zeros or in the sign of zero. -/
def Respells (a b : List Char) : Prop := a ≠ b ∧ plainForm a = plainForm b

instance : DecidableRel Respells := fun _ _ => inferInstanceAs (Decidable (_ ∧ _))

theorem takeSign_append {sign digits : List Char} (hsign : IsSign sign)
    (hdigits : IsDigits digits) :
    takeSign (sign ++ digits) = (decide (sign = ['-']), digits) := by
  rcases hsign with rfl | rfl | rfl
  · obtain ⟨c, rest, rfl⟩ := List.exists_cons_of_ne_nil hdigits.1
    have hc : isAsciiDigit c = true := hdigits.2 c List.mem_cons_self
    have hminus : c ≠ '-' := by
      rintro rfl
      cases hc
    have hplus : c ≠ '+' := by
      rintro rfl
      cases hc
    simp [takeSign, hminus, hplus]
  · rfl
  · rfl

theorem integerOf?_append {sign digits : List Char} (hsign : IsSign sign)
    (hdigits : IsDigits digits) :
    integerOf? (sign ++ digits) =
      some (withSign (decide (sign = ['-'])) (natOfDigits digits)) := by
  have hempty : digits.isEmpty = false := by simpa using hdigits.1
  have hall : digits.all isAsciiDigit = true := List.all_eq_true.2 hdigits.2
  simp [integerOf?, takeSign_append hsign hdigits, hempty, hall]

theorem plainForm_append {sign digits : List Char} (hsign : IsSign sign)
    (hdigits : IsDigits digits) :
    plainForm (sign ++ digits) =
      (decide (sign = ['-']) && !(digits.dropWhile (· == '0')).isEmpty,
        digits.dropWhile (· == '0')) := by
  simp only [plainForm, takeSign_append hsign hdigits]

/-- Numbers with a sign are the same if they are without it, and the signs are the same or do not
count. -/
theorem withSign_eq_iff {p q : Bool} {m n : Nat} :
    withSign p m = withSign q n ↔ m = n ∧ (m = 0 ∨ p = q) := by
  cases p <;> cases q <;> simp [withSign] <;> omega

/-! ### Digits -/

/-- The digit of a number below ten. -/
def digitChar (n : Nat) : Char := Char.ofNat (48 + n)

theorem natOfDigits_append_singleton (digits : List Char) (c : Char) :
    natOfDigits (digits ++ [c]) = 10 * natOfDigits digits + (c.toNat - 48) := by
  simp [natOfDigits]

theorem natOfDigits_eq_ofDigits (digits : List Char) :
    natOfDigits digits = Nat.ofDigits 10 (digits.map (·.toNat - 48)).reverse := by
  induction digits using List.reverseRecOn with
  | nil => rfl
  | append_singleton digits c ih =>
    rw [natOfDigits_append_singleton, ih]
    simp [Nat.ofDigits_cons]
    omega

theorem natOfDigits_dropWhile (digits : List Char) :
    natOfDigits (digits.dropWhile (· == '0')) = natOfDigits digits := by
  induction digits with
  | nil => rfl
  | cons c digits ih =>
    by_cases hc : c = '0'
    · subst hc
      simpa [natOfDigits] using ih
    · simp [hc]

theorem digitChar_value {c : Char} (h : isAsciiDigit c = true) :
    digitChar (c.toNat - 48) = c := by
  have hrange := isAsciiDigit_iff.1 h
  rw [digitChar, show 48 + (c.toNat - 48) = c.toNat by omega, Char.ofNat_toNat]

theorem value_ne_zero {c : Char} (h : isAsciiDigit c = true) (hc : c ≠ '0') :
    c.toNat - 48 ≠ 0 := by
  intro hzero
  have hchar := digitChar_value h
  rw [hzero] at hchar
  exact hc hchar.symm

/-- The digits of a numeral without leading zeros are those of its number. -/
theorem dropWhile_eq_digits {digits : List Char} (h : IsDigits digits) :
    digits.dropWhile (· == '0') = (Nat.digits 10 (natOfDigits digits)).reverse.map digitChar := by
  rw [← natOfDigits_dropWhile]
  have hstart := List.head?_dropWhile_not (· == '0') digits
  have hplain : ∀ c ∈ digits.dropWhile (· == '0'), isAsciiDigit c = true :=
    fun c hc => h.2 c ((List.dropWhile_sublist _).subset hc)
  generalize digits.dropWhile (· == '0') = plain at hstart hplain
  rw [natOfDigits_eq_ofDigits, Nat.digits_ofDigits 10 (by decide), List.reverse_reverse,
    List.map_map]
  · symm
    calc plain.map (digitChar ∘ (·.toNat - 48))
      _ = plain.map id := List.map_congr_left fun c hc => digitChar_value (hplain c hc)
      _ = plain := List.map_id plain
  · intro n hn
    obtain ⟨c, hc, rfl⟩ := List.mem_map.1 (List.mem_reverse.1 hn)
    have hrange := isAsciiDigit_iff.1 (hplain c hc)
    omega
  · intro hne
    rw [List.getLast_reverse, List.head_map]
    cases plain with
    | nil => simp at hne
    | cons c rest =>
      exact value_ne_zero (hplain c List.mem_cons_self) (by simpa using hstart)

/-- Digits stand for one number exactly if they differ in leading zeros only. -/
theorem natOfDigits_eq_iff {a b : List Char} (ha : IsDigits a) (hb : IsDigits b) :
    natOfDigits a = natOfDigits b ↔ a.dropWhile (· == '0') = b.dropWhile (· == '0') := by
  constructor
  · intro h
    rw [dropWhile_eq_digits ha, dropWhile_eq_digits hb, h]
  · intro h
    rw [← natOfDigits_dropWhile a, h, natOfDigits_dropWhile]

theorem natOfDigits_eq_zero_iff {a : List Char} (ha : IsDigits a) :
    natOfDigits a = 0 ↔ a.dropWhile (· == '0') = [] :=
  natOfDigits_eq_iff (b := ['0']) ha ⟨by simp, by simp [isAsciiDigit]⟩

/-- Numerals stand for one integer exactly if they are the same up to a plus sign, leading zeros
and the sign of zero. -/
theorem integerOf?_eq_iff {a b : List Char} (ha : IsNumeral a) (hb : IsNumeral b) :
    integerOf? a = integerOf? b ↔ plainForm a = plainForm b := by
  obtain ⟨sign, digits, rfl, hsign, hdigits⟩ := ha
  obtain ⟨sign', digits', rfl, hsign', hdigits'⟩ := hb
  rw [integerOf?_append hsign hdigits, integerOf?_append hsign' hdigits', Option.some.injEq,
    withSign_eq_iff, natOfDigits_eq_iff hdigits hdigits', natOfDigits_eq_zero_iff hdigits,
    plainForm_append hsign hdigits, plainForm_append hsign' hdigits', Prod.mk.injEq]
  constructor
  · rintro ⟨hsame, hzero | hnegative⟩
    · rw [← hsame, hzero]
      simp
    · rw [← hsame, hnegative]
      simp
  · rintro ⟨hnegative, hsame⟩
    refine ⟨hsame, ?_⟩
    by_cases hzero : digits.dropWhile (· == '0') = []
    · exact Or.inl hzero
    · right
      rwa [← hsame, List.isEmpty_eq_false_iff.2 hzero, Bool.not_false, Bool.and_true,
        Bool.and_true] at hnegative

/-- Of distinct numerals, the integers are distinct exactly if no two are spellings of one. -/
theorem nodup_integers_iff {numerals : List (List Char)}
    (hnumerals : ∀ a ∈ numerals, IsNumeral a) (hnodup : numerals.Nodup) :
    (numerals.filterMap integerOf?).Nodup ↔ numerals.Pairwise fun a b => ¬Respells a b := by
  rw [List.Nodup, List.pairwise_filterMap]
  constructor
  · intro h
    refine h.imp_of_mem ?_
    rintro a b ha hb hne ⟨-, hform⟩
    have hsame := (integerOf?_eq_iff (hnumerals a ha) (hnumerals b hb)).2 hform
    obtain ⟨sign, digits, rfl, hsign, hdigits⟩ := hnumerals a ha
    have hvalue := integerOf?_append hsign hdigits
    exact hne _ hvalue _ (hsame ▸ hvalue) rfl
  · intro h
    refine (h.and hnodup).imp_of_mem ?_
    rintro a b ha hb ⟨hrespells, hne⟩ v hv w hw rfl
    have hform := (integerOf?_eq_iff (hnumerals a ha) (hnumerals b hb)).1 (hv.trans hw.symm)
    exact hrespells ⟨hne, hform⟩

/-! ## Every plural argument of a message -/

/-- The numeral of an exact selector. -/
def Branch.numeral? (b : Branch) : Option (List Char) :=
  match b.selector.toList with
  | '=' :: numeral => some numeral
  | _ => none

/-- The integer that an exact selector stands for. -/
def Branch.exact? (b : Branch) : Option Int := b.numeral?.bind integerOf?

/-- The branches of a plural argument. -/
def Element.pluralBranches? : Element → Option (List Branch)
  | .plural _ _ _ branches _ => some branches
  | _ => none

/-- The branches of each plural argument of a message, at any depth. -/
def Message.plurals (m : Message) : List (List Branch) :=
  m.walk.filterMap fun (_, e) => e.pluralBranches?

variable {options : Options}

theorem Branch.numeral?_eq_some_iff {b : Branch} {numeral : List Char} :
    b.numeral? = some numeral ↔ b.selector.toList = '=' :: numeral := by
  unfold numeral?
  split
  · next rest h => simp [h]
  · next hnone =>
    constructor
    · intro h
      cases h
    · intro h
      exact absurd h (hnone numeral)

/-- What follows the equals sign of a selector is a numeral, because no identifier begins so. -/
theorem isNumeral_of_isSelector {choice : Choice} {numeral : List Char}
    (h : IsSelector choice ('=' :: numeral)) : IsNumeral numeral := by
  rcases h with hidentifier | ⟨-, sign, digits, htext, hsign, hdigits, -⟩
  · have hchar : isIdentifierChar '=' = true := hidentifier.2 '=' List.mem_cons_self
    exact absurd hchar (by decide)
  · cases htext
    exact ⟨sign, digits, rfl, hsign, hdigits⟩

theorem Choice.Selects.isNumeral {choice : Choice} {branches : List Branch}
    (h : choice.Selects options branches) :
    ∀ numeral ∈ branches.filterMap Branch.numeral?, IsNumeral numeral := by
  intro numeral hmem
  obtain ⟨b, hb, hnumeral⟩ := List.mem_filterMap.1 hmem
  have hselector := h.selectors b hb
  rw [Branch.numeral?_eq_some_iff.1 hnumeral] at hselector
  exact isNumeral_of_isSelector hselector

theorem Choice.Selects.nodup_numerals {choice : Choice} {branches : List Branch}
    (h : choice.Selects options branches) : (branches.filterMap Branch.numeral?).Nodup := by
  rw [List.Nodup, List.pairwise_filterMap]
  refine (List.pairwise_map.1 h.distinct).imp ?_
  rintro a b hne numeral ha _ hb rfl
  rw [Branch.numeral?_eq_some_iff] at ha hb
  exact hne (String.toList_inj.1 (ha.trans hb.symm))

theorem selects_of_mem_plurals {text : String} {m : Message} (h : parse options text = .ok m)
    {branches : List Branch} (hmem : branches ∈ m.plurals) :
    ∃ kind, (Choice.plural kind).Selects options branches := by
  obtain ⟨d, written, -⟩ := written_of_parse h
  have hwell : Element.AllWellFormed options false m.elements := wellFormed_of_written written
  obtain ⟨⟨path, e⟩, hwalk, he⟩ := List.mem_filterMap.1 hmem
  obtain ⟨inner, he'⟩ := Element.wellFormed_of_mem_walkList hwell _ hwalk
  cases e with
  | plural name kind offset branches' span =>
    cases he
    rw [Element.WellFormed] at he'
    exact ⟨kind, he'.2.1⟩
  | _ => cases he

/-- In every plural argument of a message that is read, at any depth, the exact selectors stand for
different integers, unless two of them are spellings of one that differ in a plus sign, in leading
zeros or in the sign of zero. -/
theorem exact_nodup_iff {text : String} {m : Message} (h : parse options text = .ok m)
    {branches : List Branch} (hmem : branches ∈ m.plurals) :
    (branches.filterMap Branch.exact?).Nodup ↔
      (branches.filterMap Branch.numeral?).Pairwise fun a b => ¬Respells a b := by
  obtain ⟨kind, hselects⟩ := selects_of_mem_plurals h hmem
  have hexact : branches.filterMap Branch.exact? =
      (branches.filterMap Branch.numeral?).filterMap integerOf? := by
    rw [List.filterMap_filterMap]
    rfl
  rw [hexact]
  exact nodup_integers_iff hselects.isNumeral hselects.nodup_numerals

/-- A text is read as a message with the given exact selectors. -/
theorem exists_parse_of_exact (options : Options) (text : String) (integers : List (List Int))
    (h : (parse options text).toOption.map
      (fun m => m.plurals.map fun branches => branches.filterMap Branch.exact?) = some integers) :
    ∃ m, parse options text = .ok m ∧
      ∀ list ∈ integers, ∃ branches ∈ m.plurals, branches.filterMap Branch.exact? = list := by
  obtain ⟨m, hparse, hplurals⟩ := exists_parse_of_map h
  subst hplurals
  exact ⟨m, hparse, fun list hlist => List.mem_map.1 hlist⟩

/-- Numerals of all shapes in an argument inside another, and no two of one number. -/
theorem exact_nodup_iff_nested : ∃ m branches,
    parse {} "{a, plural, =0 {{b, plural, =-01 {x} =1 {y} =+10 {z} other {}}} other {}}" = .ok m ∧
      branches ∈ m.plurals ∧ branches.filterMap Branch.exact? = [-1, 1, 10] ∧
      (branches.filterMap Branch.numeral?).Pairwise fun a b => ¬Respells a b := by
  obtain ⟨m, hparse, hplurals⟩ := exists_parse_of_exact {}
    "{a, plural, =0 {{b, plural, =-01 {x} =1 {y} =+10 {z} other {}}} other {}}"
    [[0], [-1, 1, 10]] (by decide +kernel)
  obtain ⟨branches, hmem, hexact⟩ := hplurals [-1, 1, 10] (by decide)
  have hnodup : (branches.filterMap Branch.exact?).Nodup := by
    rw [hexact]
    decide
  exact ⟨m, branches, hparse, hmem, hexact, (exact_nodup_iff hparse hmem).1 hnodup⟩

/-- One and one with a leading zero are taken for two selectors. -/
theorem not_nodup_exact_of_leading_zero : ∃ m,
    parse {} "{n, plural, =1 {a} =01 {b} other {c}}" = .ok m ∧
      ∃ branches ∈ m.plurals, ¬(branches.filterMap Branch.exact?).Nodup := by
  obtain ⟨m, hparse, hplurals⟩ := exists_parse_of_exact {}
    "{n, plural, =1 {a} =01 {b} other {c}}" [[1, 1]] (by decide +kernel)
  obtain ⟨branches, hmem, hexact⟩ := hplurals [1, 1] (by decide)
  refine ⟨m, hparse, branches, hmem, ?_⟩
  rw [hexact]
  decide

end MessageFormat
