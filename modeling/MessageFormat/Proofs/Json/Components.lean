import MessageFormat.DateTimeFormat.Basic
import MessageFormat.DisplayNames
import MessageFormat.NumberFormat.Basic
import MessageFormat.Options

/-!
# Components of JSON records

A record is written field by field and read component by component.  What is needed of one
component is said by `Json.Inverts`: the reader gives back what was written, and what it gives can
be written again.  There is one such law for each kind of component (truth values, texts, words,
numbers and enumerations), and they carry over to components that may be absent.

The fields of a written record are found under their names because no two of them share one
(`Json.component?_ofFields`).
-/

namespace MessageFormat

namespace Json

/-- Values that can be exchanged: an integer is a word of sixty-four bits, with a sign or without
one, and every other number is finite. -/
inductive Representable : Json → Prop
  | null : Representable .null
  | bool (b : Bool) : Representable (.bool b)
  | int {i : Int} (least : -(wordSize 63 : Int) ≤ i) (most : i < wordSize 64) :
      Representable (.int i)
  | float {x : Binary64} (finite : x.isFinite = true) : Representable (.float x)
  | str (s : String) : Representable (.str s)
  | arr {items : List Json} (each : ∀ j ∈ items, Representable j) : Representable (.arr items)
  | obj {fields : List (String × Json)} (each : ∀ field ∈ fields, Representable field.2) :
      Representable (.obj fields)

/-- Reader and writer of a component belong together.  What fits is read back from what it is
written as, which is not null, and only what fits is read. -/
structure Inverts {α : Type} (read? : Json → Option α) (write : α → Json) (fits : α → Prop) :
    Prop where
  read_write : ∀ a, fits a → read? (write a) = some a
  write_ne_null : ∀ a, fits a → write a ≠ .null
  fits_of_read : ∀ j a, j.Representable → read? j = some a → fits a

/-! ## Finding components -/

theorem lookup_eq_none {α : Type} {fields : List (String × α)} {name : String}
    (h : name ∉ fields.map Prod.fst) : fields.lookup name = none := by
  rw [List.lookup_eq_none_iff]
  intro field hfield
  rw [bne_iff_ne]
  rintro rfl
  exact h (List.mem_map_of_mem hfield)

/-- Leaving out the fields without a value changes no lookup, if the names are different. -/
theorem component?_ofFields {fields : List (String × Option Json)}
    (hnames : (fields.map Prod.fst).Nodup) (place : Nat) (name : String) :
    (ofFields fields).component? place name = (fields.lookup name).join := by
  rw [ofFields, component?]
  induction fields with
  | nil => rfl
  | cons field fields ih =>
    obtain ⟨first, value⟩ := field
    rw [List.map_cons, List.nodup_cons] at hnames
    have hrest := ih hnames.2
    by_cases hname : name = first
    · subst hname
      rw [lookup_eq_none hnames.1] at hrest
      cases value with
      | none => simpa using hrest
      | some j => simp
    · have hne : (name == first) = false := beq_eq_false_iff_ne.2 hname
      cases value with
      | none => simpa [List.lookup_cons, hne] using hrest
      | some j => simpa [List.lookup_cons, hne] using hrest

theorem Representable.component? {j component : Json} (hj : j.Representable) {place : Nat}
    {name : String} (h : j.component? place name = some component) : component.Representable := by
  cases hj with
  | arr each => exact each _ (List.mem_of_getElem? h)
  | obj each =>
    obtain ⟨before, after, rfl, -⟩ := List.lookup_eq_some_iff.1 h
    exact each (name, component) (by simp)
  | null | bool | int | float | str => cases h

namespace Inverts

variable {α : Type} {read? : Json → Option α} {write : α → Json} {fits : α → Prop}

/-- A component that may be absent is read back. -/
theorem optional?_map (h : Inverts read? write fits) {value : Option α}
    (hvalue : ∀ a, value = some a → fits a) : optional? read? (value.map write) = some value := by
  cases value with
  | none => rfl
  | some a =>
    have hfits := hvalue a rfl
    have hread : optional? read? (some (write a)) = (read? (write a)).map some := by
      rw [optional?.eq_3]
      exact fun hnull => h.write_ne_null a hfits hnull
    rw [Option.map_some, hread, h.read_write a hfits, Option.map_some]

/-- A component that is always written is read back, whatever it is when absent. -/
theorem defaulted?_write (h : Inverts read? write fits) {a : α} (ha : fits a) (absent : α) :
    defaulted? read? absent (some (write a)) = some a :=
  h.read_write a ha

theorem fits_of_optional? (h : Inverts read? write fits) {j : Json} (hj : j.Representable)
    {place : Nat} {name : String} {value : Option α}
    (hread : optional? read? (j.component? place name) = some value) :
    ∀ a, value = some a → fits a := by
  rintro a rfl
  cases hcomponent : j.component? place name with
  | none =>
    rw [hcomponent] at hread
    cases hread
  | some component =>
    rw [hcomponent] at hread
    have hfound : read? component = some a := by
      cases component with
      | null => cases hread
      | _ => simpa [optional?] using hread
    exact h.fits_of_read component a (hj.component? hcomponent) hfound

theorem fits_of_defaulted? (h : Inverts read? write fits) {j : Json} (hj : j.Representable)
    {place : Nat} {name : String} {absent a : α} (habsent : fits absent)
    (hread : defaulted? read? absent (j.component? place name) = some a) : fits a := by
  cases hcomponent : j.component? place name with
  | none =>
    rw [hcomponent] at hread
    cases hread
    exact habsent
  | some component =>
    rw [hcomponent] at hread
    exact h.fits_of_read component a (hj.component? hcomponent) hread

end Inverts

/-! ## Plain components -/

theorem inverts_bool : Inverts bool? .bool fun _ => True :=
  ⟨fun _ _ => rfl, fun _ _ => by simp, fun _ _ _ _ => trivial⟩

theorem inverts_str : Inverts str? .str fun _ => True :=
  ⟨fun _ _ => rfl, fun _ _ => by simp, fun _ _ _ _ => trivial⟩

theorem optional?_map_bool (value : Option Bool) :
    optional? bool? (value.map .bool) = some value :=
  inverts_bool.optional?_map fun _ _ => trivial

theorem optional?_map_str (value : Option String) :
    optional? str? (value.map .str) = some value :=
  inverts_str.optional?_map fun _ _ => trivial

theorem inverts_natBelow (bound : Nat) : Inverts (natBelow? bound) ofNat (· < bound) := by
  refine ⟨?_, fun _ _ => by simp [ofNat], ?_⟩
  · intro n hn
    rw [ofNat, natBelow?, if_pos ⟨by omega, by omega⟩, Int.toNat_natCast]
  · intro j n _ hread
    cases j with
    | int i =>
      rw [natBelow?] at hread
      split at hread
      · cases hread
        omega
      · cases hread
    | _ => cases hread

end Json

/-! ## Numbers -/

namespace Binary64

/-- Below the rank of infinity all numbers are finite. -/
theorem isFinite_ofRank {rank : Nat} (h : rank < infiniteRank) (negative : Bool) :
    (ofRank negative rank).isFinite = true := by
  have hbits : (ofRank negative rank).bits.toNat =
      (rank + if negative then wordSize 63 else 0) % 2 ^ 64 := by
    rw [ofRank, Nat.min_eq_left (Nat.le_of_lt h)]
    exact UInt64.toNat_ofNat'
  have h11 : wordSize 11 = 2048 := rfl
  have h52 : wordSize 52 = 4503599627370496 := rfl
  have h63 : wordSize 63 = 9223372036854775808 := rfl
  rw [infiniteRank, h52] at h
  rw [isFinite, exponentField, hbits, bne_iff_ne, h11, h52, h63]
  split <;> omega

theorem roundHalfEven_le (num den : Nat) : roundHalfEven num den ≤ num / den + 1 := by
  unfold roundHalfEven
  dsimp only
  split <;> omega

theorem floorLog2_one {n : Nat} (h : n ≠ 0) : floorLog2 n 1 = n.log2 := by
  have hone : Nat.log2 1 = 0 := rfl
  have hup : ((n.log2 : Int) - (0 : Nat)).toNat = n.log2 := by omega
  have hdown : (-((n.log2 : Int) - (0 : Nat))).toNat = 0 := by omega
  have hle : 1 * Nat.pow 2 n.log2 ≤ n * Nat.pow 2 0 := by
    have hpow : Nat.pow 2 n.log2 ≤ n := Nat.log2_self_le h
    show 1 * Nat.pow 2 n.log2 ≤ n * 1
    omega
  unfold floorLog2
  dsimp only
  rw [hone, hup, hdown, if_pos hle]
  omega

/-- With the leading bit of an integer at place fifty-two, it has fifty-three bits. -/
theorem significand_lt (n : Nat) :
    n * Nat.pow 2 (52 - n.log2) / (1 * Nat.pow 2 (n.log2 - 52)) < wordSize 53 := by
  have hlt : n < 2 ^ (n.log2 + 1) := Nat.lt_log2_self
  have hpos : 0 < 2 ^ (n.log2 - 52) := Nat.pow_pos (by decide)
  rw [Nat.one_mul]
  apply (Nat.div_lt_iff_lt_mul hpos).2
  calc n * 2 ^ (52 - n.log2) < 2 ^ (n.log2 + 1) * 2 ^ (52 - n.log2) :=
        Nat.mul_lt_mul_of_pos_right hlt (Nat.pow_pos (by decide))
    _ = 2 ^ (53 + (n.log2 - 52)) := by
        rw [← Nat.pow_add]
        congr 1
        omega
    _ = 2 ^ 53 * 2 ^ (n.log2 - 52) := Nat.pow_add 2 53 _

/-- An integer of at most sixty-four bits is a finite number. -/
theorem isFinite_ofInt {i : Int} (h : i.natAbs < wordSize 64) : (ofInt i).isFinite = true := by
  unfold ofInt ofRatio
  split
  · exact isFinite_ofRank (by decide) _
  · next hzero =>
    have hlog : i.natAbs.log2 < 64 := (Nat.log2_lt hzero).2 h
    have hscale : max (floorLog2 i.natAbs 1 - 52) (-1074) = (i.natAbs.log2 : Int) - 52 := by
      rw [floorLog2_one hzero]
      omega
    have hup : (-((i.natAbs.log2 : Int) - 52)).toNat = 52 - i.natAbs.log2 := by omega
    have hdown : ((i.natAbs.log2 : Int) - 52).toNat = i.natAbs.log2 - 52 := by omega
    dsimp only
    rw [hscale, hup, hdown]
    apply isFinite_ofRank
    -- The rank is far from that of infinity: the exponent is at most sixty-three.
    have hround := roundHalfEven_le (i.natAbs * Nat.pow 2 (52 - i.natAbs.log2))
      (1 * Nat.pow 2 (i.natAbs.log2 - 52))
    have hlt := significand_lt i.natAbs
    have h52 : wordSize 52 = 4503599627370496 := rfl
    have h53 : wordSize 53 = 9007199254740992 := rfl
    rw [infiniteRank, h52]
    rw [h53] at hlt
    omega

end Binary64

theorem Json.inverts_number : Inverts number? ofNumber fun x => x.isFinite = true := by
  refine ⟨?_, ?_, ?_⟩
  · intro x hx
    rw [ofNumber, if_pos hx, number?]
  · intro x hx
    rw [ofNumber, if_pos hx]
    simp
  · intro j x hj hread
    cases hj with
    | int least most =>
      cases hread
      refine Binary64.isFinite_ofInt ?_
      have : wordSize 63 < wordSize 64 := by decide
      omega
    | float finite =>
      cases hread
      exact finite
    | null | bool | str | arr | obj => cases hread

/-! ## Enumerations -/

namespace Named

/-- Each member is the one that its name finds. -/
class Lawful (α : Type) [Named α] : Prop where
  ofName?_name (a : α) : ofName? (name a) = some a

instance : Lawful NumberStyle := ⟨by intro a; cases a <;> rfl⟩
instance : Lawful NumberShape := ⟨by intro a; cases a <;> rfl⟩
instance : Lawful CompactDisplay := ⟨by intro a; cases a <;> rfl⟩
instance : Lawful CurrencyDisplay := ⟨by intro a; cases a <;> rfl⟩
instance : Lawful UnitDisplay := ⟨by intro a; cases a <;> rfl⟩
instance : Lawful SignDisplay := ⟨by intro a; cases a <;> rfl⟩
instance : Lawful CurrencySign := ⟨by intro a; cases a <;> rfl⟩
instance : Lawful RoundingMode := ⟨by intro a; cases a <;> rfl⟩
instance : Lawful RoundingPriority := ⟨by intro a; cases a <;> rfl⟩
instance : Lawful TrailingZeroDisplay := ⟨by intro a; cases a <;> rfl⟩
instance : Lawful NumericWidth := ⟨by intro a; cases a <;> rfl⟩
instance : Lawful MonthWidth := ⟨by intro a; cases a <;> rfl⟩
instance : Lawful TextWidth := ⟨by intro a; cases a <;> rfl⟩
instance : Lawful TimeZoneNameWidth := ⟨by intro a; cases a <;> rfl⟩
instance : Lawful HourCycle := ⟨by intro a; cases a <;> rfl⟩
instance : Lawful CodeKind := ⟨by intro a; cases a <;> rfl⟩
instance : Lawful Fallback := ⟨by intro a; cases a <;> rfl⟩

theorem inverts {α : Type} [Named α] [Lawful α] :
    Json.Inverts (ofJson? (α := α)) toJson fun _ => True :=
  ⟨fun a _ => Lawful.ofName?_name a, fun a _ => by simp [toJson], fun _ _ _ _ => trivial⟩

theorem optional?_map {α : Type} [Named α] [Lawful α] (value : Option α) :
    Json.optional? ofJson? (value.map toJson) = some value :=
  inverts.optional?_map fun _ _ => trivial

end Named

end MessageFormat
