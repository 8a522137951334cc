import MessageFormat.Proofs.Comparison.Messages
import MessageFormat.Proofs.Rendering.ReadBack

/-!
# The nesting limit

How deep messages may be nested is a number in the options.  Here it is shown that the number
means what it says and nothing else.  A text that is read under a limit is read with every limit
that is at least the height of its tree, and with no smaller one.  And a smaller limit changes no
result, neither a tree nor an error, other than by refusing to go deeper.

The first half is about the grammar, where the depth counts down from the limit: what is written
at some depth is not higher than that, and it is written at every depth that it is not higher than.
The second half compares two runs.
-/

namespace MessageFormat

variable {options : Options} {depth : Nat} {frame : Frame} {x : Phrase} {c d : Cursor}

/-! ## Height and depth -/

theorem height_le_of_written (h : Written options depth frame x c d) : x.height ≤ depth := by
  induction h with
  | nil | noBranch => simp [Phrase.height, Element.heightList, Branch.heightList]
  | cons _ _ ihhead ihtail =>
    simp only [Phrase.height, Element.heightList] at ihtail ⊢
    exact Nat.max_le.2 ⟨ihhead, ihtail⟩
  | literal | selfClosing | pound | argument | number | date | time =>
    simp [Phrase.height, Element.height]
  | choice _ _ _ _ _ _ _ _ ih =>
    rw [Phrase.height, height_choice]
    exact ih
  | tag _ _ _ _ ih =>
    simp only [Phrase.height, Element.height] at ih ⊢
    omega
  | branch _ _ _ _ _ _ _ _ _ ihbody ihtail =>
    simp only [Phrase.height, Branch.heightList] at ihbody ihtail ⊢
    exact Nat.max_le.2 ⟨by omega, ihtail⟩

/-- What is written at one depth is written at every other that it is not higher than, whatever
the limit is. -/
theorem written_of_height_le (limit : Nat) (h : Written options depth frame x c d) {n : Nat}
    (hheight : x.height ≤ n) :
    Written { options with maxNestingDepth := limit } n frame x c d := by
  induction h generalizing n with
  | nil stops => exact .nil stops
  | cons _ _ ihhead ihtail =>
    simp only [Phrase.height, Element.heightList] at hheight
    exact .cons (ihhead (Nat.max_le.1 hheight).1) (ihtail (Nat.max_le.1 hheight).2)
  | literal peek scan => exact .literal peek scan
  | selfClosing tags tagName blank reads => exact .selfClosing tags tagName blank reads
  | pound plural reads => exact .pound plural reads
  | argument head close => exact .argument head close
  | number head written close value => exact .number head written close value
  | date head written close value => exact .date head written close value
  | time head written close value => exact .time head written close value
  | choice head comma offset _ nonempty distinct other close ih =>
    rw [Phrase.height, height_choice] at hheight
    exact .choice head comma offset (ih hheight) nonempty distinct other close
  | tag tags opening _ closing ih =>
    simp only [Phrase.height, Element.height] at hheight
    obtain ⟨n, rfl⟩ : ∃ k, n = k + 1 := Nat.exists_eq_add_one.2 (by omega)
    exact .tag tags opening (ih (by simpa [Phrase.height] using hheight)) closing
  | noBranch => exact .noBranch
  | branch selects blank₁ head brace _ close blank₂ gap _ ihbody ihtail =>
    simp only [Phrase.height, Branch.heightList] at hheight
    have hbody := (Nat.max_le.1 hheight).1
    have htail := (Nat.max_le.1 hheight).2
    obtain ⟨n, rfl⟩ : ∃ k, n = k + 1 := Nat.exists_eq_add_one.2 (by omega)
    refine .branch selects blank₁ head brace (ihbody ?_) close blank₂ gap (ihtail htail)
    simpa [Phrase.height] using hbody

/-! ## Two limits -/

/-- Reading with a limit and with a smaller one.  The second run may reach its limit. -/
def Comparison.limits (options : Options) {m n : Nat} (h : m ≤ n) : Comparison where
  left := { options with maxNestingDepth := n }
  right := { options with maxNestingDepth := m }
  relabel := {}
  stray e := e.kind = .nestingLimitExceeded
  accepts _ := True
  refuses _ _ := False
  ignoreTag := rfl
  spans _ := rfl
  number _ _ := Read.agree_refl (fun _ => rfl) fun _ _ _ => trivial
  dateTime _ _ := Read.agree_refl (fun _ => rfl) fun _ _ _ => trivial
  other := .inl rfl
  nesting := .inr ⟨h, fun _ _ => rfl⟩

/-- A smaller limit gives the same result or is exceeded. -/
theorem parse_limit_eq_or (options : Options) (text : String) {m n : Nat} (h : m ≤ n) :
    parse { options with maxNestingDepth := m } text =
        parse { options with maxNestingDepth := n } text ∨
      ∃ e, parse { options with maxNestingDepth := m } text = .error e ∧
        e.kind = .nestingLimitExceeded := by
  let k := Comparison.limits options h
  have hstray : ∀ {l e}, k.Lost l e → e.kind = .nestingLimitExceeded := by
    rintro l e (hstray | ⟨_, _, _, _, _, hfalse⟩)
    · exact hstray
    · exact hfalse.elim
  cases hn : parse { options with maxNestingDepth := n } text with
  | ok read =>
    rcases k.parse_of_ok hn with ⟨hm, -⟩ | ⟨e, hm, lost⟩
    · rw [show k.relabel = {} from rfl, Element.relabelList_id] at hm
      exact .inl hm
    · exact .inr ⟨e, hm, hstray lost⟩
  | error e =>
    rcases k.parse_of_error hn with hm | ⟨e', l, hm, lost⟩
    · exact .inl hm
    · exact .inr ⟨e', hm, hstray lost⟩

/-- The nesting limit is exact and changes nothing else. -/
theorem parse_nesting_exact (options : Options) (text : String) {m n : Nat} (h : m ≤ n) :
    (parse { options with maxNestingDepth := m } text =
        parse { options with maxNestingDepth := n } text ∨
      ∃ e, parse { options with maxNestingDepth := m } text = .error e ∧
        e.kind = .nestingLimitExceeded) ∧
    ∀ read, parse { options with maxNestingDepth := n } text = .ok read →
      ((∃ read', parse { options with maxNestingDepth := m } text = .ok read') ↔
        Element.heightList read.elements ≤ m) := by
  refine ⟨parse_limit_eq_or options text h, fun read hread => ⟨?_, fun hheight => ?_⟩⟩
  · rintro ⟨read', hread'⟩
    -- The smaller limit was not exceeded, so both readings are the same.
    have hsame : read' = read := by
      rcases parse_limit_eq_or options text h with heq | ⟨e, herror, -⟩
      · rw [hread', hread] at heq
        exact Except.ok.inj heq
      · rw [hread'] at herror
        cases herror
    obtain ⟨d, written, -⟩ := written_of_parse hread'
    rw [← hsame]
    exact height_le_of_written written
  · obtain ⟨d, written, -⟩ := written_of_parse hread
    exact ⟨_, parse_of_written (written_of_height_le m written hheight)⟩

theorem parse_nesting_exact_two : ∃ read,
    parse { maxNestingDepth := 2 } "<b>{n, plural, other {#}}</b>" = .ok read ∧
      Element.heightList read.elements = 2 ∧
      ¬∃ read', parse { maxNestingDepth := 1 } "<b>{n, plural, other {#}}</b>" = .ok read' := by
  obtain ⟨read, hread, -⟩ := exists_parse_eq_ok { maxNestingDepth := 2 }
    "<b>{n, plural, other {#}}</b>" 1 (by decide +kernel)
  have hheight : (parse { maxNestingDepth := 2 } "<b>{n, plural, other {#}}</b>").toOption.map
      (fun m => Element.heightList m.elements) = some 2 := by decide +kernel
  rw [hread] at hheight
  have htwo : Element.heightList read.elements = 2 := Option.some.inj hheight
  have hiff := (parse_nesting_exact {} "<b>{n, plural, other {#}}</b>"
    (by decide : 1 ≤ 2)).2 read hread
  refine ⟨read, hread, htwo, fun hone => ?_⟩
  have := hiff.1 hone
  omega

end MessageFormat
