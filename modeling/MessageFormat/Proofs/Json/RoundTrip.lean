import MessageFormat.Proofs.Json.Components
import MessageFormat.Proofs.LanguageTag.Extension

/-!
# Options and tags through JSON

Options, formats and language tags can be written as JSON and read again.  Each of them has
conventions of its own: options are written with all fields and read with defaults, formats leave
out what has no value, and a tag is one text.  All obey the law that their components obey, and
from it follow the two halves of `Json.RoundTrips`.  Nothing is lost on the way to JSON and back,
and a value that came from other JSON is written in one form that does not change any more.

Two conditions appear.  A number without bounds here stands for a word of thirty-two or sixty-four
bits (`Options.InRange`, `NumberFormat.InRange`), and a scale is finite, because JSON has no other
numbers.  What is read meets both.
-/

namespace MessageFormat

open Json

/-- Two ways through JSON that lead back.  What fits is read from what it is written as.  And
whatever a value is read from, what it is written as is read and written as the same JSON again. -/
structure Json.RoundTrips {α : Type} (read? : Json → Option α) (write : α → Json)
    (fits : α → Prop) : Prop where
  read_write : ∀ a, fits a → read? (write a) = some a
  write_read : ∀ j a, j.Representable → read? j = some a →
    (read? (write a)).map write = some (write a)

theorem Json.Inverts.roundTrips {α : Type} {read? : Json → Option α} {write : α → Json}
    {fits : α → Prop} (h : Inverts read? write fits) : RoundTrips read? write fits := by
  refine ⟨h.read_write, ?_⟩
  intro j a hj hread
  rw [h.read_write a (h.fits_of_read j a hj hread), Option.map_some]

/-! ## Options -/

/-- The nesting limit is a word of sixty-four bits. -/
def Options.InRange (o : Options) : Prop := o.maxNestingDepth < wordSize 64

theorem Options.inverts : Inverts Options.ofJson? Options.toJson Options.InRange := by
  have hdepth := inverts_natBelow (wordSize 64)
  refine ⟨?_, fun o _ => by simp [toJson], ?_⟩
  · intro o ho
    have hfind (place : Nat) (name : String) : o.toJson.component? place name = _ :=
      component?.eq_1 place name _
    have hswitch (b absent : Bool) : defaulted? bool? absent (some (.bool b)) = some b :=
      inverts_bool.defaulted?_write trivial absent
    -- A locale is written also when there is none, as null.
    have hlocale : optional? str? (some ((o.locale.map Json.str).getD .null)) = some o.locale := by
      cases o.locale <;> rfl
    have hrecord : o.toJson.isRecord 0 6 = true := rfl
    rw [ofJson?, if_pos hrecord]
    simp [hfind, List.lookup_cons, hswitch, hlocale, hdepth.defaulted?_write ho]
  · intro j o hj hread
    rw [ofJson?] at hread
    split at hread
    · iterate 5 obtain ⟨_, -, hread⟩ := Option.bind_eq_some_iff.1 hread
      obtain ⟨depth, hlimit, hread⟩ := Option.bind_eq_some_iff.1 hread
      cases hread
      exact hdepth.fits_of_defaulted? hj (by decide) hlimit
    · cases hread

theorem DisplayOptions.inverts :
    Inverts DisplayOptions.ofJson? DisplayOptions.toJson fun _ => True := by
  refine ⟨?_, fun o _ => by simp [toJson], fun _ _ _ _ => trivial⟩
  intro o _
  have hfind (place : Nat) (name : String) : o.toJson.component? place name = _ :=
    component?.eq_1 place name _
  have hnamed {α : Type} [Named α] [Named.Lawful α] (a absent : α) :
      defaulted? Named.ofJson? absent (some (Named.toJson a)) = some a :=
    Named.inverts.defaulted?_write trivial absent
  have hrecord : o.toJson.isRecord 0 2 = true := rfl
  rw [ofJson?, if_pos hrecord]
  simp [hfind, List.lookup_cons, hnamed]

/-! ## Formats -/

theorem DateTimeFormat.inverts :
    Inverts DateTimeFormat.ofJson? DateTimeFormat.toJson fun _ => True := by
  refine ⟨?_, fun f _ => by simp [toJson, ofFields], fun _ _ _ _ => trivial⟩
  intro f _
  have hfind (place : Nat) (name : String) : f.toJson.component? place name = _ :=
    component?_ofFields (by simp) place name
  have hrecord : f.toJson.isRecord 11 11 = true := rfl
  rw [ofJson?, if_pos hrecord]
  simp [hfind, List.lookup_cons, Named.optional?_map, optional?_map_bool]

namespace NumberFormat

/-- The counts of digits in a format. -/
def counts (f : NumberFormat) : List (Option Nat) :=
  [f.minimumIntegerDigits, f.minimumFractionDigits, f.maximumFractionDigits,
    f.minimumSignificantDigits, f.maximumSignificantDigits]

/-- All counts of digits are words of thirty-two bits. -/
def InRange (f : NumberFormat) : Prop :=
  ∀ count ∈ f.counts, ∀ n, count = some n → n < wordSize 32

/-- The scale is left open or finite. -/
def HasFiniteScale (f : NumberFormat) : Prop := ∀ x, f.scale = some x → x.isFinite = true

theorem inverts :
    Inverts NumberFormat.ofJson? NumberFormat.toJson fun f => f.InRange ∧ f.HasFiniteScale := by
  have hcount := inverts_natBelow (wordSize 32)
  refine ⟨?_, fun f _ => by simp [toJson, ofFields], ?_⟩
  · rintro f ⟨hrange, hfinite⟩
    have hfind (place : Nat) (name : String) : f.toJson.component? place name = _ :=
      component?_ofFields (by simp) place name
    have hscale := inverts_number.optional?_map hfinite
    simp only [InRange, counts, List.forall_mem_cons, List.not_mem_nil, false_imp_iff,
      implies_true, and_true] at hrange
    obtain ⟨hinteger, hleast, hmost, hleastSig, hmostSig⟩ := hrange
    have hrecord : f.toJson.isRecord 19 19 = true := rfl
    rw [ofJson?, if_pos hrecord]
    simp [hfind, List.lookup_cons, Named.optional?_map, optional?_map_bool, optional?_map_str,
      hscale, hcount.optional?_map hinteger, hcount.optional?_map hleast,
      hcount.optional?_map hmost, hcount.optional?_map hleastSig, hcount.optional?_map hmostSig]
  · intro j f hj hread
    rw [ofJson?] at hread
    split at hread
    · iterate 10 obtain ⟨_, -, hread⟩ := Option.bind_eq_some_iff.1 hread
      obtain ⟨scale, hscale, hread⟩ := Option.bind_eq_some_iff.1 hread
      iterate 3 obtain ⟨_, -, hread⟩ := Option.bind_eq_some_iff.1 hread
      obtain ⟨integer, hinteger, hread⟩ := Option.bind_eq_some_iff.1 hread
      obtain ⟨least, hleast, hread⟩ := Option.bind_eq_some_iff.1 hread
      obtain ⟨most, hmost, hread⟩ := Option.bind_eq_some_iff.1 hread
      obtain ⟨leastSig, hleastSig, hread⟩ := Option.bind_eq_some_iff.1 hread
      obtain ⟨mostSig, hmostSig, hread⟩ := Option.bind_eq_some_iff.1 hread
      cases hread
      refine ⟨?_, inverts_number.fits_of_optional? hj hscale⟩
      simp only [InRange, counts, List.forall_mem_cons, List.not_mem_nil, false_imp_iff,
        implies_true, and_true]
      exact ⟨hcount.fits_of_optional? hj hinteger, hcount.fits_of_optional? hj hleast,
        hcount.fits_of_optional? hj hmost, hcount.fits_of_optional? hj hleastSig,
        hcount.fits_of_optional? hj hmostSig⟩
    · cases hread

end NumberFormat

/-! ## Language tags -/

theorem LanguageTag.inverts :
    Inverts LanguageTag.ofJson? LanguageTag.toJson fun tag => ∃ input, parse input = .ok tag := by
  refine ⟨?_, fun tag _ => by simp [toJson], ?_⟩
  · rintro tag ⟨input, h⟩
    rw [toJson, ofJson?, parse_text h]
    rfl
  · intro j tag _ hread
    cases j with
    | str text =>
      refine ⟨text, ?_⟩
      rw [ofJson?] at hread
      cases hparse : parse text with
      | ok read =>
        rw [hparse] at hread
        cases hread
        rfl
      | error fault =>
        rw [hparse] at hread
        cases hread
    | _ => cases hread

/-- Options, formats and language tags lead through JSON and back, in both ways. -/
theorem json_roundTrips :
    RoundTrips Options.ofJson? Options.toJson Options.InRange ∧
      RoundTrips NumberFormat.ofJson? NumberFormat.toJson
        (fun f => f.InRange ∧ f.HasFiniteScale) ∧
      RoundTrips DateTimeFormat.ofJson? DateTimeFormat.toJson (fun _ => True) ∧
      RoundTrips DisplayOptions.ofJson? DisplayOptions.toJson (fun _ => True) ∧
      RoundTrips LanguageTag.ofJson? LanguageTag.toJson
        (fun tag => ∃ input, LanguageTag.parse input = .ok tag) :=
  ⟨Options.inverts.roundTrips, NumberFormat.inverts.roundTrips, DateTimeFormat.inverts.roundTrips,
    DisplayOptions.inverts.roundTrips, LanguageTag.inverts.roundTrips⟩

/-- A scale of minus zero and the largest count of digits. -/
theorem json_roundTrips_scale :
    NumberFormat.ofJson? (NumberFormat.toJson
        { scale := some ⟨0x8000000000000000⟩, minimumIntegerDigits := some 4294967295 }) =
      some { scale := some ⟨0x8000000000000000⟩, minimumIntegerDigits := some 4294967295 } := by
  refine json_roundTrips.2.1.read_write _ ⟨?_, ?_⟩
  · simp [NumberFormat.InRange, NumberFormat.counts, wordSize]
  · rintro _ ⟨⟩
    decide

end MessageFormat
