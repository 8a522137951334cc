import Mathlib.Tactic.MkIffOfInductiveProp
import MessageFormat.Proofs.Catalogue.Blocks

/-!
# Writing catalogues

Entries are written one after the other, each as its key, an equals sign and its message, with a
blank line behind it.  A key and a message can be written so and read back if no blank gets lost on
the way and no line of the message is taken for something else: the message begins with no blank,
no line of it ends with one, and no line but the first is blank.  `IsNormal` says this.

What is normal is read back as it was written, and only what is normal is ever read, so reading and
writing a file again and again changes nothing but the places of the entries (`parse_write`).
-/

namespace MessageFormat.Catalogue

/-- The key and the message of an entry, without its place. -/
def Entry.content (e : Entry) : String × String := (e.key, e.value)

/-- A key and a message that can stand in a file as they are. -/
@[mk_iff]
structure IsNormal (content : String × String) : Prop where
  key_ne : content.1 ≠ ""
  key_chars : ∀ c ∈ content.1.toList, isKeyChar c = true
  starts : ∀ line ∈ (messageLines content.2.toList).head?, ∀ c ∈ line.head?, isWhiteSpace c = false
  ends : ∀ line ∈ messageLines content.2.toList, ∀ c ∈ line.getLast?, isWhiteSpace c = false
  full : ∀ line ∈ (messageLines content.2.toList).tail, ∃ c ∈ line, isWhiteSpace c = false

instance (content : String × String) : Decidable (IsNormal content) :=
  decidable_of_iff
    (content.1 ≠ "" ∧ content.1.toList.all isKeyChar = true ∧
      ((messageLines content.2.toList).head?.all (·.head?.all (!isWhiteSpace ·))) = true ∧
      ((messageLines content.2.toList).all (·.getLast?.all (!isWhiteSpace ·))) = true ∧
      ((messageLines content.2.toList).tail.all (·.any (!isWhiteSpace ·))) = true)
    (by simp [isNormal_iff, Option.all_eq_true])

/-- The text of a file with the entries, a blank line behind each of them. -/
def write (contents : List (String × String)) : String :=
  String.join (contents.map fun (key, value) => key ++ " = " ++ value ++ "\n\n")

/-! ## What is read is normal -/

theorem isKey_of_startEntry {number : UInt32} {line : List Char} {e : Entry}
    (h : startEntry number line = .ok e) :
    e.key ≠ "" ∧ (∀ c ∈ e.key.toList, isKeyChar c = true) ∧
      ∀ c, e.value.toList.head? = some c → isWhiteSpace c = false := by
  rw [startEntry] at h
  split at h
  · cases h
  · next before after hcut =>
    dsimp only at h
    split_ifs at h with hempty hkey
    cases h
    refine ⟨by simpa using hempty, by simpa using hkey, fun c hc => ?_⟩
    rw [String.toList_ofList] at hc
    exact Text.isWhiteSpace_head?_trimStart hc

theorem isNormal_startEntry {number : UInt32} {line : List Char} {e : Entry} (free : '\n' ∉ line)
    (h : startEntry number (Text.trimEnd line) = .ok e) : IsNormal e.content := by
  obtain ⟨-, before, hbefore, -⟩ := eq_of_startEntry h
  obtain ⟨hne, hchars, hstarts⟩ := isKey_of_startEntry h
  have hfree : '\n' ∉ e.value.toList := by
    have hline := not_mem_trimEnd free
    rw [hbefore] at hline
    exact fun hmem => hline (List.mem_append_right _ hmem)
  have hlines : messageLines e.content.2.toList = [e.value.toList] := messageLines_of_not_mem hfree
  refine ⟨hne, hchars, ?_, ?_, by simp [hlines]⟩
  · intro first hfirst
    rw [hlines] at hfirst
    cases hfirst
    exact hstarts
  · intro only honly c hc
    rw [hlines, List.mem_singleton] at honly
    rw [honly] at hc
    have hlast : (Text.trimEnd line).getLast? = some c := by
      rw [hbefore, List.getLast?_append, hc]
      rfl
    exact Text.isWhiteSpace_getLast?_trimEnd hlast

theorem IsNormal.continued {e : Entry} (h : IsNormal e.content) {line : List Char}
    (free : '\n' ∉ line) (hline : Text.trimEnd line ≠ []) :
    IsNormal (e.continued (Text.trimEnd line)).content := by
  have hvalue : (e.continued (Text.trimEnd line)).content.2.toList =
      e.content.2.toList ++ '\n' :: Text.trimEnd line := e.toList_value_continued _
  have hlines := messageLines_append_line e.content.2.toList (not_mem_trimEnd free)
  have hne : messageLines e.content.2.toList ≠ [] := List.splitOnP_ne_nil _ _
  have hends : ∀ c, (Text.trimEnd line).getLast? = some c → isWhiteSpace c = false :=
    fun c => Text.isWhiteSpace_getLast?_trimEnd
  refine ⟨h.key_ne, h.key_chars, ?_, ?_, ?_⟩
  · rw [hvalue, hlines, List.head?_append_of_ne_nil _ hne]
    exact h.starts
  · rw [hvalue, hlines, List.forall_mem_append]
    exact ⟨h.ends, by simpa using hends⟩
  · rw [hvalue, hlines, List.tail_append_of_ne_nil hne, List.forall_mem_append]
    refine ⟨h.full, ?_⟩
    rw [List.forall_mem_singleton]
    exact ⟨_, List.getLast_mem hline, hends _ (List.getLast?_eq_some_getLast hline)⟩

/-- Line by line, the open entry and all that are done are normal. -/
theorem isNormal_of_readLines {number : Nat} {current : Option Entry} {lines : List (List Char)}
    {entries : List Entry} (free : ∀ line ∈ lines, '\n' ∉ line)
    (hcurrent : ∀ e, current = some e → IsNormal e.content)
    (h : readLines number current lines = .ok entries) : ∀ e ∈ entries, IsNormal e.content := by
  induction lines generalizing number current entries with
  | nil =>
    cases h
    simpa using hcurrent
  | cons line lines ih =>
    rw [List.forall_mem_cons] at free
    obtain ⟨entry, rest, rfl, -, hread, rfl⟩ | ⟨entry, rfl, hline, hread⟩ | ⟨rfl, -, hread⟩ |
      ⟨entry, rfl, -, hstart, hread⟩ := readLines_cons_cases h
    · rw [List.forall_mem_cons]
      exact ⟨hcurrent entry rfl, ih free.2 (by simp) hread⟩
    · refine ih free.2 ?_ hread
      rintro e he
      cases he
      exact (hcurrent entry rfl).continued free.1 hline
    · exact ih free.2 (by simp) hread
    · refine ih free.2 ?_ hread
      rintro e he
      cases he
      exact isNormal_startEntry free.1 hstart

theorem isNormal_of_parse {text : String} {entries : List Entry} (h : parse text = .ok entries) :
    ∀ e ∈ entries, IsNormal e.content :=
  isNormal_of_readLines (fun _ => newline_not_mem_lines) (by simp) h

/-! ## What is normal is read back -/

theorem isWhiteSpace_of_isKeyChar {c : Char} (h : isKeyChar c = true) : isWhiteSpace c = false := by
  apply isWhiteSpace_eq_false_of_ascii
  simp only [isKeyChar, Bool.or_eq_true, decide_eq_true_eq] at h
  obtain (((h | h) | rfl) | rfl) | rfl := h
  · have := isAsciiLetter_iff.1 h
    omega
  · have := isAsciiDigit_iff.1 h
    omega
  all_goals decide

theorem blank_of_mem_space : ∀ c ∈ [' '], isWhiteSpace c = true :=
  List.forall_mem_singleton.2 (by decide)

/-- If the message begins with an empty line, the blank after the equals sign is at the end of
its line and gets lost. -/
theorem exists_trimEnd_firstLine (key : List Char) {first : List Char}
    (hstarts : ∀ c, first.head? = some c → isWhiteSpace c = false)
    (hends : ∀ c, first.getLast? = some c → isWhiteSpace c = false) :
    ∃ after, Text.trimEnd (key ++ ' ' :: '=' :: ' ' :: first) = key ++ ' ' :: '=' :: after ∧
      Text.trimStart after = first := by
  cases first with
  | nil =>
    have hlast : ∀ c, (key ++ [' ', '=']).getLast? = some c → isWhiteSpace c = false := by
      intro c hc
      rw [List.getLast?_append] at hc
      cases hc
      decide
    have htrim := Text.trimEnd_append blank_of_mem_space hlast
    rw [List.append_assoc] at htrim
    exact ⟨[], htrim, rfl⟩
  | cons c first =>
    have hlast : ∀ d, (key ++ ' ' :: '=' :: ' ' :: c :: first).getLast? = some d →
        isWhiteSpace d = false := by
      intro d hd
      rw [List.getLast?_append_of_ne_nil _ (List.cons_ne_nil _ _)] at hd
      exact hends d hd
    have htrim := Text.trimEnd_append (List.forall_mem_nil _) hlast
    rw [List.append_nil] at htrim
    exact ⟨' ' :: c :: first, htrim, Text.trimStart_append blank_of_mem_space hstarts⟩

section Key

variable {key : List Char} (hkey : ∀ c ∈ key, isKeyChar c = true) (hne : key ≠ [])

include hkey

theorem not_mem_key {c : Char} (h : isKeyChar c = false) : c ∉ key := by
  intro hmem
  rw [hkey c hmem] at h
  cases h

include hne

/-- A line that begins with a key is no comment. -/
theorem isSkipped_key (rest : List Char) : isSkipped (key ++ rest) = false := by
  obtain ⟨c, tail, rfl⟩ := List.exists_cons_of_ne_nil hne
  have hc := hkey c List.mem_cons_self
  have htrim : Text.trimStart (c :: tail ++ rest) = c :: tail ++ rest :=
    List.dropWhile_cons_of_neg (by simp [isWhiteSpace_of_isKeyChar hc])
  have hhash : c ≠ '#' := by
    rintro rfl
    cases hc
  have hslash : c ≠ '/' := by
    rintro rfl
    cases hc
  rw [isSkipped, htrim]
  simp [List.isPrefixOf, Ne.symm hhash, Ne.symm hslash]

theorem startEntry_key (number : UInt32) (after : List Char) :
    ∃ column, startEntry number (key ++ ' ' :: '=' :: after) =
      .ok ⟨String.ofList key, String.ofList (Text.trimStart after), number, column⟩ := by
  have hcut : Text.cutAt? '=' (key ++ ' ' :: '=' :: after) = some (key ++ [' '], after) := by
    have hmark : '=' ∉ key ++ [' '] := by simp [not_mem_key hkey (by rfl : isKeyChar '=' = false)]
    rw [← Text.cutAt?_append hmark, List.append_assoc]
    rfl
  have hblank : ∀ c ∈ key, isWhiteSpace c = false :=
    fun c hc => isWhiteSpace_of_isKeyChar (hkey c hc)
  have htrim : Text.trim (key ++ [' ']) = key :=
    Text.trim_append blank_of_mem_space (fun c hc => hblank c (List.mem_of_head? hc))
      fun c hc => hblank c (List.mem_of_getLast? hc)
  rw [startEntry, hcut]
  dsimp only
  rw [htrim, if_neg (by simpa using hne), if_pos (List.all_eq_true.2 hkey)]
  exact ⟨_, rfl⟩

end Key

theorem intercalate_append_cons (mark : Char) (first second : List Char)
    (others : List (List Char)) :
    [mark].intercalate ((first ++ mark :: second) :: others) =
      [mark].intercalate (first :: second :: others) := by
  cases others with
  | nil => simp [List.intercalate_cons_cons]
  | cons next others => simp [List.intercalate_cons_cons]

/-- Lines that are not blank and end with no blank are added to the message as they are. -/
theorem readLines_continued {lines : List (List Char)} (hfull : ∀ line ∈ lines, line ≠ [])
    (hends : ∀ line ∈ lines, ∀ c, line.getLast? = some c → isWhiteSpace c = false)
    (number : Nat) (e : Entry) :
    readLines number (some e) lines =
      .ok [{ e with value := String.ofList (['\n'].intercalate (e.value.toList :: lines)) }] := by
  induction lines generalizing number e with
  | nil => simp [readLines]
  | cons line lines ih =>
    rw [List.forall_mem_cons] at hfull hends
    have htrim := Text.trimEnd_append (List.forall_mem_nil _) hends.1
    rw [List.append_nil] at htrim
    rw [readLines_open, htrim, if_neg hfull.1, ih hfull.2 hends.2, e.toList_value_continued,
      intercalate_append_cons]
    rfl

theorem messageLines_append {start text first : List Char} {others : List (List Char)}
    (hstart : '\n' ∉ start) (h : messageLines text = first :: others) :
    messageLines (start ++ text) = (start ++ first) :: others := by
  induction start with
  | nil => exact h
  | cons c start ih =>
    rw [List.mem_cons, not_or] at hstart
    rw [List.cons_append, messageLines_cons (Ne.symm hstart.1), ih hstart.2]
    rfl

/-- One entry is read from what is written for it. -/
theorem parse_entry {key value : String} (h : IsNormal (key, value)) :
    ∃ column, parse (key ++ " = " ++ value) = .ok [⟨key, value, 1, column⟩] := by
  obtain ⟨hne, hkey, hstarts, hends, hfull⟩ := h
  dsimp only at hne hkey hstarts hends hfull
  have hvalue : ['\n'].intercalate (messageLines value.toList) = value.toList :=
    List.intercalate_splitOn '\n'
  obtain ⟨first, others, hlines⟩ :=
    List.exists_cons_of_ne_nil (List.splitOnP_ne_nil (· == '\n') value.toList)
  rw [← messageLines] at hlines
  rw [hlines] at hstarts hends hfull hvalue
  rw [List.forall_mem_cons] at hends
  have hhead : messageLines (key ++ " = " ++ value).toList =
      (key.toList ++ ' ' :: '=' :: ' ' :: first) :: others := by
    have hfree : '\n' ∉ key.toList ++ [' ', '=', ' '] := by
      simp [not_mem_key hkey (by rfl : isKeyChar '\n' = false)]
    have htext : (key ++ " = " ++ value).toList =
        (key.toList ++ [' ', '=', ' ']) ++ value.toList := by simp
    rw [htext, messageLines_append hfree hlines, List.append_assoc]
    rfl
  have hne' : key.toList ≠ [] := by simpa using hne
  obtain ⟨after, htrim, hafter⟩ := exists_trimEnd_firstLine key.toList (hstarts first rfl) hends.1
  obtain ⟨column, hstart⟩ := startEntry_key hkey hne' 1 after
  have hfirst : UInt32.ofNatClamp 1 = 1 := rfl
  have hfull' : ∀ line ∈ others, line ≠ [] := by
    intro line hmem
    obtain ⟨c, hc, -⟩ := hfull line hmem
    exact List.ne_nil_of_mem hc
  refine ⟨column, ?_⟩
  rw [parse, ← readLines_messageLines, hhead, readLines_between, htrim,
    isSkipped_key hkey hne', if_neg Bool.false_ne_true, hfirst, hstart]
  dsimp only
  rw [hafter, readLines_continued hfull' hends.2, String.toList_ofList, hvalue,
    String.ofList_toList, String.ofList_toList]

theorem write_cons (key value : String) (contents : List (String × String)) :
    write ((key, value) :: contents) = key ++ " = " ++ value ++ "\n\n" ++ write contents := by
  rw [← String.toList_inj]
  simp [write, String.toList_join]

/-- Where an entry stands does not change what it says. -/
theorem content_lowered (distance : Nat) :
    Entry.content ∘ Entry.lowered distance = Entry.content := rfl

theorem exists_parse_write {contents : List (String × String)} (h : ∀ p ∈ contents, IsNormal p) :
    ∃ entries, parse (write contents) = .ok entries ∧ entries.map Entry.content = contents := by
  induction contents with
  | nil => exact ⟨[], rfl, rfl⟩
  | cons p contents ih =>
    rw [List.forall_mem_cons] at h
    obtain ⟨key, value⟩ := p
    obtain ⟨column, hentry⟩ := parse_entry h.1
    obtain ⟨entries, hread, hcontents⟩ := ih h.2
    rw [write_cons, parse_append, hentry, hread]
    refine ⟨_, rfl, ?_⟩
    rw [List.singleton_append, List.map_cons, List.map_map, content_lowered, hcontents]
    rfl

/-- Normal entries are written and read back in order, and entries that are read are normal, so
that they can be written and read again. -/
theorem parse_write :
    (∀ contents : List (String × String), (∀ content ∈ contents, IsNormal content) →
      ∃ entries, parse (write contents) = .ok entries ∧
        entries.map Entry.content = contents) ∧
    ∀ text entries, parse text = .ok entries → (∀ e ∈ entries, IsNormal e.content) ∧
      ∃ again, parse (write (entries.map Entry.content)) = .ok again ∧
        again.map Entry.content = entries.map Entry.content := by
  refine ⟨fun contents => exists_parse_write, ?_⟩
  intro text entries h
  have hnormal := isNormal_of_parse h
  exact ⟨hnormal, exists_parse_write (by simpa using hnormal)⟩

/-- A message that begins with an empty line and has lines like a comment and like an entry. -/
theorem parse_write_lookalikes :
    ∃ entries, parse "a.b = \n  # x\n//y = 1\n\nc = \n\n" = .ok entries ∧
      entries.map Entry.content = [("a.b", "\n  # x\n//y = 1"), ("c", "")] :=
  parse_write.1 [("a.b", "\n  # x\n//y = 1"), ("c", "")] (by decide +kernel)

end MessageFormat.Catalogue
