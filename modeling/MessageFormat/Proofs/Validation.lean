import MessageFormat.Command.Run
import MessageFormat.Proofs.Catalogue.Places
import MessageFormat.Proofs.Positions

/-!
# Validation points at the right places

Validating a catalogue file reads each of its messages and reports those that are refused.  The
report is in the order of the file: one diagnostic for each refused message and none for the
others (`checkEntries_diagnostics`).  An error in a message is at a position of the message, and
that position is shown in the file at the line and the column of the diagnostic.  So it is in files
of fewer than `2 ^ 32 - 1` characters; with one character more, a column may wrap around
(`shownAt_wraps`).

A file with a key that occurs twice is not validated at all, and the fault names the first entry
that repeats one.
-/

namespace MessageFormat

/-- The diagnostic for an entry, if its message is refused. -/
def Diagnostic.ofEntry? (options : Options) (file : String) (e : Catalogue.Entry) :
    Option Diagnostic :=
  match parse options e.value with
  | .ok _ => none
  | .error error => some (.ofParseError file e error)

/-- What is checked is reported in order. -/
theorem checkEntries_diagnostics (options : Options) (file : String)
    (entries : List Catalogue.Entry) :
    (Command.checkEntries options file entries).1 =
      entries.filterMap (Diagnostic.ofEntry? options file) := by
  induction entries with
  | nil => rfl
  | cons e entries ih =>
    have hparse : (parseTraced options e.value).1 = parse options e.value := rfl
    rw [Command.checkEntries]
    cases hresult : parse options e.value with
    | ok m =>
      have hnone : Diagnostic.ofEntry? options file e = none := by
        rw [Diagnostic.ofEntry?, hresult]
      rw [List.filterMap_cons_none hnone, ← ih]
      simp only [hparse, hresult]
    | error error =>
      have hsome : Diagnostic.ofEntry? options file e = some (.ofParseError file e error) := by
        rw [Diagnostic.ofEntry?, hresult]
      rw [List.filterMap_cons_some hsome, ← ih]
      simp only [hparse, hresult]

namespace Catalogue

/-! ## Keys that occur twice -/

theorem duplicate?_eq_none_iff {seen : List String} {entries : List Entry} :
    duplicate? seen entries = none ↔
      (entries.map Entry.key).Nodup ∧ ∀ e ∈ entries, e.key ∉ seen := by
  induction entries generalizing seen with
  | nil => simp [duplicate?]
  | cons e entries ih =>
    rw [duplicate?]
    by_cases hseen : e.key ∈ seen
    · simp [hseen]
    · rw [if_neg hseen, ih, List.map_cons, List.nodup_cons]
      simp only [List.mem_map, List.mem_cons, not_or, not_exists, not_and]
      constructor
      · rintro ⟨hnodup, hfresh⟩
        refine ⟨⟨fun f hf => (hfresh f hf).1, hnodup⟩, ?_⟩
        rintro f (rfl | hf)
        · exact hseen
        · exact (hfresh f hf).2
      · rintro ⟨⟨hnew, hnodup⟩, hfresh⟩
        exact ⟨hnodup, fun f hf => ⟨hnew f hf, hfresh f (.inr hf)⟩⟩

/-- The entry that is found repeats the key of an earlier one, and before it no key is repeated. -/
theorem exists_of_duplicate? {seen : List String} {entries : List Entry} {e : Entry}
    (h : duplicate? seen entries = some e) :
    ∃ before after, entries = before ++ e :: after ∧ duplicate? seen before = none ∧
      (e.key ∈ seen ∨ e.key ∈ before.map Entry.key) := by
  induction entries generalizing seen with
  | nil => cases h
  | cons first entries ih =>
    rw [duplicate?] at h
    by_cases hseen : first.key ∈ seen
    · rw [if_pos hseen] at h
      cases h
      exact ⟨[], entries, rfl, rfl, .inl hseen⟩
    · rw [if_neg hseen] at h
      obtain ⟨before, after, rfl, hnone, hkey⟩ := ih h
      refine ⟨first :: before, after, rfl, ?_, ?_⟩
      · rw [duplicate?, if_neg hseen]
        exact hnone
      · rw [List.map_cons, List.mem_cons]
        rcases hkey with hkey | hkey
        · exact (List.mem_cons.1 hkey).elim (fun heq => .inr (.inl heq)) .inl
        · exact .inr (.inr hkey)

end Catalogue

/-! ## The command -/

/-- What is refused is refused at a position of the text. -/
theorem exists_start_of_parse {options : Options} {text : String} {e : ParseError}
    (h : parse options text = .error e) :
    ∃ before after, text.toList = before ++ after ∧
      e.span.start = Position.start.advanceAll before := by
  have hspan := (parse_spans_countedIn options text).2 e h
  obtain ⟨before, after, htext, hstart⟩ := hspan.start
  exact ⟨before, after, htext, by rw [hstart, Position.advanceAll_start]⟩

/-- Validating a file is checking its entries, unless a key occurs twice. -/
theorem validate_file {text : String} (path : String) {entries : List Catalogue.Entry}
    {content : ByteArray} {config : Configuration} {options : Options}
    (h : Catalogue.parse text = .ok entries) (hcontent : textOf content = .ok text)
    (hoptions : config.options = .ok options) :
    (Command.ValidateRequest.run ⟨path⟩ config (.file content)).1 =
      match Catalogue.duplicate? [] entries with
      | some e => .error (.source (.duplicateKey e.key path e.line))
      | none => .ok (entries.filterMap (Diagnostic.ofEntry? options path)) := by
  have hload : Catalogue.loadAll path (.file content) = do
      let source ← Catalogue.ofText path text
      return [source] := by
    rw [Catalogue.loadAll, Lookup.text, hcontent]
    · rfl
    · intro _ hfalse
      cases hfalse
  rw [Command.ValidateRequest.run, hoptions]
  simp only [hload, Catalogue.ofText, h]
  cases Catalogue.duplicate? [] entries with
  | some e => rfl
  | none =>
    have hchecked := checkEntries_diagnostics options path entries
    simp only [bind, Except.bind, pure, Except.pure, Command.checkSources, hchecked,
      List.append_nil]

/-- In a file of fewer than `2 ^ 32 - 1` characters, a position in a message is shown at its place
in the file, and validation reports the messages that are refused, each at the place of its
error. -/
theorem validate_shows {text : String} {entries : List Catalogue.Entry}
    (small : text.length < UInt32.size - 1) (h : Catalogue.parse text = .ok entries) :
    (∀ e ∈ entries, ∀ before after p, e.value.toList = before ++ after →
      p = Position.start.advanceAll before →
      e.ShownAt text p after (e.filePosition p.line p.column)) ∧
    ∀ path content config options, textOf content = .ok text →
      Configuration.options config = .ok options →
      ((entries.map Catalogue.Entry.key).Nodup →
        (Command.ValidateRequest.run ⟨path⟩ config (.file content)).1 =
          .ok (entries.filterMap (Diagnostic.ofEntry? options path))) ∧
      (¬(entries.map Catalogue.Entry.key).Nodup → ∃ before e after,
        entries = before ++ e :: after ∧ (before.map Catalogue.Entry.key).Nodup ∧
        e.key ∈ before.map Catalogue.Entry.key ∧
        (Command.ValidateRequest.run ⟨path⟩ config (.file content)).1 =
          .error (.source (.duplicateKey e.key path e.line))) ∧
      ∀ e ∈ entries, ∀ error, parse options e.value = .error error →
        ∃ d before after, Diagnostic.ofEntry? options path e = some d ∧
          e.value.toList = before ++ after ∧
          error.span.start = Position.start.advanceAll before ∧
          e.ShownAt text error.span.start after (d.line, d.column) := by
  have shown : ∀ e ∈ entries, ∀ before after p, e.value.toList = before ++ after →
      p = Position.start.advanceAll before →
      e.ShownAt text p after (e.filePosition p.line p.column) := by
    intro e he before after p hvalue hp
    obtain ⟨index, indent, stands⟩ := Catalogue.standsAt_of_parse h e he
    exact stands.shownAt small hvalue hp
  refine ⟨shown, ?_⟩
  intro path content config options hcontent hoptions
  have hrun := validate_file path h hcontent hoptions
  refine ⟨?_, ?_, ?_⟩
  · intro hnodup
    rw [hrun, Catalogue.duplicate?_eq_none_iff.2 ⟨hnodup, by simp⟩]
  · intro hdup
    cases hfound : Catalogue.duplicate? [] entries with
    | none => exact absurd (Catalogue.duplicate?_eq_none_iff.1 hfound).1 hdup
    | some e =>
      obtain ⟨before, after, hentries, hnone, hkey⟩ := Catalogue.exists_of_duplicate? hfound
      refine ⟨before, e, after, hentries, (Catalogue.duplicate?_eq_none_iff.1 hnone).1,
        by simpa using hkey, ?_⟩
      rw [hrun, hfound]
  · intro e he error hparse
    obtain ⟨before, after, hvalue, hstart⟩ := exists_start_of_parse hparse
    refine ⟨.ofParseError path e error, before, after, ?_, hvalue, hstart,
      shown e he before after _ hvalue hstart⟩
    rw [Diagnostic.ofEntry?, hparse]

theorem eq_ok_of_toOption {ε α : Type} {x : Except ε α} {a : α} (h : x.toOption = some a) :
    x = .ok a := by
  cases x with
  | error e => cases h
  | ok b => rw [Option.some.inj h]

/-- Two refused messages, the second on two lines with blanks and a carriage return cut off. -/
theorem validate_shows_multiline :
    ∃ text entries, text = "a = Hi {}\n\nb =  {n}\r\n  {}" ∧ text.length < UInt32.size - 1 ∧
      entries = [⟨"a", "Hi {}", 1, 5⟩, ⟨"b", "{n}\n  {}", 3, 6⟩] ∧
      Catalogue.parse text = .ok entries ∧
      (Command.ValidateRequest.run ⟨"app.messages"⟩ {} (.file text.toUTF8)).1 =
        .ok (entries.filterMap (Diagnostic.ofEntry? {} "app.messages")) ∧
      ((entries.filterMap (Diagnostic.ofEntry? {} "app.messages")).map fun d =>
        (d.code, d.line, d.column)) = [("EMPTY_ARGUMENT", 1, 8), ("EMPTY_ARGUMENT", 4, 3)] ∧
      Catalogue.Entry.ShownAt ⟨"b", "{n}\n  {}", 3, 6⟩ text ⟨6, 2, 3⟩ "{}".toList (4, 3) := by
  have hparse : Catalogue.parse "a = Hi {}\n\nb =  {n}\r\n  {}" =
      .ok [⟨"a", "Hi {}", 1, 5⟩, ⟨"b", "{n}\n  {}", 3, 6⟩] :=
    eq_ok_of_toOption (by decide +kernel)
  have small : "a = Hi {}\n\nb =  {n}\r\n  {}".length < UInt32.size - 1 := by decide +kernel
  obtain ⟨shown, validated⟩ := validate_shows small hparse
  have hcontent : textOf "a = Hi {}\n\nb =  {n}\r\n  {}".toUTF8 =
      .ok "a = Hi {}\n\nb =  {n}\r\n  {}" :=
    eq_ok_of_toOption (by decide +kernel)
  obtain ⟨reported, -, -⟩ := validated "app.messages" _ {} {} hcontent rfl
  refine ⟨_, _, rfl, small, rfl, hparse, reported (by decide +kernel), by decide +kernel, ?_⟩
  exact shown _ (by simp) "{n}\n  ".toList _ _ (by decide +kernel) (by decide +kernel)

/-! ## One character more -/

/-- A file of one line, with a message of letters. -/
theorem Catalogue.parse_replicate (n : Nat) :
    Catalogue.parse (String.ofList ('a' :: '=' :: .replicate n 'a')) =
      .ok [⟨"a", String.ofList (.replicate n 'a'), 1, 3⟩] := by
  have hletter : ∀ ch ∈ List.replicate n 'a', isWhiteSpace ch = false := by
    intro ch hch
    rw [List.eq_of_mem_replicate hch]
    rfl
  have hwhite : ∀ ch ∈ 'a' :: '=' :: List.replicate n 'a', isWhiteSpace ch = false :=
    List.forall_mem_cons.2 ⟨rfl, List.forall_mem_cons.2 ⟨rfl, hletter⟩⟩
  have hlines : Text.lines ('a' :: '=' :: .replicate n 'a') = ['a' :: '=' :: .replicate n 'a'] := by
    rw [Text.lines, ← messageLines, messageLines_of_not_mem (by simp)]
    rfl
  have htrim := Text.trimEnd_append (List.forall_mem_nil _)
    fun ch hch => hwhite ch (List.mem_of_getLast? hch)
  rw [List.append_nil] at htrim
  have hvalue := Text.trimStart_append (List.forall_mem_nil _)
    fun ch hch => hletter ch (List.mem_of_head? hch)
  rw [List.nil_append] at hvalue
  have hstart : startEntry (.ofNatClamp 1) ('a' :: '=' :: .replicate n 'a') =
      .ok ⟨"a", String.ofList (.replicate n 'a'), 1, 3⟩ := by
    have hcut : Text.cutAt? '=' ('a' :: '=' :: .replicate n 'a') =
        some (['a'], .replicate n 'a') := rfl
    have hindent : ('a' :: '=' :: List.replicate n 'a').length -
        (List.replicate n 'a').length = 2 := by
      rw [List.length_cons, List.length_cons, List.length_replicate]
      omega
    rw [startEntry, hcut]
    simp only [hvalue, hindent]
    rfl
  have hkept : isSkipped ('a' :: '=' :: .replicate n 'a') = false := rfl
  rw [Catalogue.parse, String.toList_ofList, hlines, readLines, htrim]
  simp only [hkept, hstart]
  rfl

/-- In a file of `2 ^ 32 - 1` characters on one line, the column of the end of the message wraps
around to zero, where nothing is shown. -/
theorem shownAt_wraps :
    ∃ text e p, text.length = UInt32.size - 1 ∧ Catalogue.parse text = .ok [e] ∧
      p = Position.start.advanceAll e.value.toList ∧ e.filePosition p.line p.column = (1, 0) ∧
      ¬e.ShownAt text p [] (e.filePosition p.line p.column) := by
  have hparse := Catalogue.parse_replicate (UInt32.size - 3)
  have hplace : Catalogue.Entry.filePosition
      ⟨"a", String.ofList (.replicate (UInt32.size - 3) 'a'), 1, 3⟩ 1
      (.ofNat (1 + (UInt32.size - 3))) = (1, 0) := rfl
  have hp : Position.start.advanceAll (String.ofList (.replicate (UInt32.size - 3) 'a')).toList =
      ⟨UInt32.size - 3, 1, .ofNat (1 + (UInt32.size - 3))⟩ := by
    rw [String.toList_ofList, Position.advanceAll_start, Position.counted_replicate]
  have hlength : (String.ofList ('a' :: '=' :: .replicate (UInt32.size - 3) 'a')).length =
      UInt32.size - 1 := by
    have hsize : UInt32.size = 4294967296 := rfl
    have hletters : (List.replicate (UInt32.size - 3) 'a').length = UInt32.size - 3 :=
      List.length_replicate
    rw [String.length_ofList, List.length_cons, List.length_cons]
    omega
  refine ⟨_, _, _, hlength, hparse, hp.symm, hplace, ?_⟩
  rintro ⟨line, fileLine, -, -, -, -, hcolumn, -⟩
  exact absurd hcolumn (by rw [hplace]; decide)

end MessageFormat
