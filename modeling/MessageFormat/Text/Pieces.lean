import MessageFormat.Text.Classes

/-!
# Cutting text into pieces

Trimming, and the two cuts that are made more than once: at the first occurrence of a
character, and into lines.  Texts are lists of characters throughout; blank means
`isWhiteSpace`.
-/

namespace MessageFormat.Text

/-- The text without its leading blanks. -/
def trimStart (text : List Char) : List Char := text.dropWhile isWhiteSpace

/-- The text without its trailing blanks. -/
def trimEnd (text : List Char) : List Char := (text.reverse.dropWhile isWhiteSpace).reverse

/-- The text without blanks at either end. -/
def trim (text : List Char) : List Char := trimStart (trimEnd text)

/-- The blanks before a text are all that trimming takes off there. -/
theorem trimStart_append {before text : List Char} (hbefore : ∀ c ∈ before, isWhiteSpace c = true)
    (hfirst : ∀ c, text.head? = some c → isWhiteSpace c = false) :
    trimStart (before ++ text) = text := by
  rw [trimStart, List.dropWhile_append_of_pos hbefore]
  cases text with
  | nil => rfl
  | cons c text => exact List.dropWhile_cons_of_neg (by simp [hfirst c rfl])

/-- The blanks after a text are all that trimming takes off there. -/
theorem trimEnd_append {text after : List Char} (hafter : ∀ c ∈ after, isWhiteSpace c = true)
    (hlast : ∀ c, text.getLast? = some c → isWhiteSpace c = false) :
    trimEnd (text ++ after) = text := by
  have hreverse : trimStart (after.reverse ++ text.reverse) = text.reverse :=
    trimStart_append (by simpa using hafter) (by simpa [List.head?_reverse] using hlast)
  rw [trimStart] at hreverse
  rw [trimEnd, List.reverse_append, hreverse, List.reverse_reverse]

theorem trim_append {text after : List Char} (hafter : ∀ c ∈ after, isWhiteSpace c = true)
    (hfirst : ∀ c, text.head? = some c → isWhiteSpace c = false)
    (hlast : ∀ c, text.getLast? = some c → isWhiteSpace c = false) :
    trim (text ++ after) = text := by
  rw [trim, trimEnd_append hafter hlast]
  exact trimStart_append (List.forall_mem_nil _) hfirst

theorem trim_eq_self {text : List Char} (h : ∀ c ∈ text, isWhiteSpace c = false) :
    trim text = text := by
  have htrim := trim_append (List.forall_mem_nil _) (fun c hc => h c (List.mem_of_head? hc))
    fun c hc => h c (List.mem_of_getLast? hc)
  rwa [List.append_nil] at htrim

theorem isWhiteSpace_head?_trimStart {text : List Char} {c : Char}
    (h : (trimStart text).head? = some c) : isWhiteSpace c = false := by
  have hstop := List.head?_dropWhile_not isWhiteSpace text
  rw [trimStart] at h
  rw [h] at hstop
  exact hstop

/-- What is left of a text without the blanks at its end does not end with one. -/
theorem isWhiteSpace_getLast?_trimEnd {text : List Char} {c : Char}
    (h : (trimEnd text).getLast? = some c) : isWhiteSpace c = false := by
  rw [trimEnd, List.getLast?_reverse] at h
  exact isWhiteSpace_head?_trimStart h

/-- The parts before and after the first `mark`, if there is one. -/
def cutAt? (mark : Char) : List Char → Option (List Char × List Char)
  | [] => none
  | c :: rest =>
    if c = mark then some ([], rest)
    else (cutAt? mark rest).map fun (before, after) => (c :: before, after)

theorem cutAt?_append {mark : Char} {before : List Char} (h : mark ∉ before) (after : List Char) :
    cutAt? mark (before ++ mark :: after) = some (before, after) := by
  induction before with
  | nil => simp [cutAt?]
  | cons c before ih =>
    rw [List.mem_cons, not_or] at h
    simp [cutAt?, Ne.symm h.1, ih h.2]

/-- The lines of a text.  A line feed ends a line, so nothing follows the last one.  A
carriage return before it stays with the line, where trimming takes it off. -/
def lines (text : List Char) : List (List Char) :=
  let pieces := text.splitOnP (· == '\n')
  if pieces.getLast? = some [] then pieces.dropLast else pieces

/-- What stands between the marks of a text is part of the text and holds no mark. -/
theorem mem_of_mem_splitOnP {mark : Char → Bool} {text piece : List Char}
    (h : piece ∈ text.splitOnP mark) : ∀ c ∈ piece, c ∈ text ∧ mark c = false := by
  induction text generalizing piece with
  | nil => simp_all
  | cons d text ih =>
    rw [List.splitOnP_cons_eq_if_modifyHead] at h
    split at h
    · rcases List.mem_cons.1 h with rfl | h
      · simp
      · exact fun c hc => (ih h c hc).imp_left (List.mem_cons_of_mem d)
    · next hd =>
      obtain ⟨first, more, hsplit⟩ := List.exists_cons_of_ne_nil (List.splitOnP_ne_nil mark text)
      rw [hsplit] at h ih
      rcases List.mem_cons.1 h with rfl | h
      · intro c hc
        rcases List.mem_cons.1 hc with rfl | hc
        · exact ⟨List.mem_cons_self, by simpa using hd⟩
        · exact (ih List.mem_cons_self c hc).imp_left (List.mem_cons_of_mem d)
      · exact fun c hc => (ih (List.mem_cons_of_mem first h) c hc).imp_left (List.mem_cons_of_mem d)

/-- A text of parts with marks between them has the characters of the parts, and the mark. -/
theorem forall_mem_intercalate {P : Char → Prop} {mark : Char} {parts : List (List Char)}
    (hmark : P mark) (h : ∀ part ∈ parts, ∀ c ∈ part, P c) :
    ∀ c ∈ [mark].intercalate parts, P c := by
  induction parts with
  | nil => simp
  | cons part parts ih =>
    have hpart : ∀ c ∈ part, P c := h part List.mem_cons_self
    cases parts with
    | nil => simpa using hpart
    | cons next parts =>
      have hrest := ih fun p hp => h p (List.mem_cons_of_mem part hp)
      intro c hc
      rw [List.intercalate_cons_cons, List.mem_append, List.mem_append, List.mem_singleton] at hc
      rcases hc with (hc | rfl) | hc
      · exact hpart c hc
      · exact hmark
      · exact hrest c hc

/-- Whether the text is at least one `mark` and nothing else. -/
def isRunOf (mark : Char) (text : List Char) : Bool :=
  !text.isEmpty && text.all (· == mark)

theorem isRunOf_iff {mark : Char} {text : List Char} :
    isRunOf mark text = true ↔ ∃ n, 1 ≤ n ∧ text = List.replicate n mark := by
  simp only [isRunOf, Bool.and_eq_true, Bool.not_eq_true', List.isEmpty_eq_false_iff,
    List.all_eq_true, beq_iff_eq]
  constructor
  · intro ⟨hne, hall⟩
    exact ⟨text.length, List.length_pos_iff.2 hne, List.eq_replicate_iff.2 ⟨rfl, hall⟩⟩
  · intro ⟨n, hn, htext⟩
    obtain ⟨hlength, hall⟩ := List.eq_replicate_iff.1 htext
    exact ⟨List.length_pos_iff.1 (by omega), hall⟩

theorem isRunOf_replicate {n : Nat} (hn : 1 ≤ n) (mark : Char) :
    isRunOf mark (List.replicate n mark) = true :=
  isRunOf_iff.2 ⟨n, hn, rfl⟩

theorem isRunOf_eq_false {mark : Char} {text : List Char} (h : text.head? ≠ some mark) :
    isRunOf mark text = false := by
  cases text with
  | nil => rfl
  | cons c rest => simpa [isRunOf] using fun hc => absurd hc (by simpa using h)

/-- What follows `start` in the text, if it begins so. -/
def after? : (start text : List Char) → Option (List Char)
  | [], text => some text
  | _ :: _, [] => none
  | s :: start, c :: text => if s = c then after? start text else none

theorem after?_eq_some_iff {start text rest : List Char} :
    after? start text = some rest ↔ text = start ++ rest := by
  fun_induction after? start text with
  | case1 text => simp
  | case2 => simp
  | case3 s start text ih => simpa using ih
  | case4 s start ch text hne => simp [Ne.symm hne]

theorem after?_eq_none {mark : Char} {start text : List Char} (h : text.head? ≠ some mark) :
    after? (mark :: start) text = none := by
  rw [Option.eq_none_iff_forall_ne_some]
  intro rest hrest
  rw [after?_eq_some_iff] at hrest
  simp [hrest] at h

/-- What stands before a final `mark`, if the text ends so. -/
def beforeFinal? (mark : Char) (text : List Char) : Option (List Char) :=
  if text.getLast? = some mark then some text.dropLast else none

theorem beforeFinal?_eq_some_iff {mark : Char} {text before : List Char} :
    beforeFinal? mark text = some before ↔ text = before ++ [mark] := by
  simp only [beforeFinal?, Option.ite_none_right_eq_some, Option.some.injEq,
    List.getLast?_eq_some_iff]
  constructor
  · rintro ⟨⟨start, rfl⟩, rfl⟩
    simp
  · rintro rfl
    exact ⟨⟨before, rfl⟩, by simp⟩

theorem beforeFinal?_eq_none {mark : Char} {text : List Char} (h : mark ∉ text) :
    beforeFinal? mark text = none := by
  rw [Option.eq_none_iff_forall_ne_some]
  intro before hbefore
  rw [beforeFinal?_eq_some_iff] at hbefore
  simp [hbefore] at h

end MessageFormat.Text
