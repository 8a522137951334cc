import Mathlib.Data.List.OfFn
import Mathlib.Data.Set.Finite.Lemmas
import MessageFormat.Proofs.NumberFormat.Refusals

/-!
# Tokens of a number skeleton act independently

The update of a token treats each component of a format in one of two ways, and looks at no other
component for it: it leaves the component as it is, or gives it a value that does not depend on
the format (`overwrites_meaning`).  Updates one after the other do the same, so a skeleton that is
read twice gives what it gives once (`Overwrites.idem`).

Hence a component of the result is decided by the last of the tokens that write it
(`get_updateAll_ofFn`).  Tokens may be exchanged as long as those that write the same component
stay in order, and whether tokens are refused, and why, is a matter of each of them alone.  All
this is in `interpret_independent`.
-/

namespace MessageFormat

namespace NumberFormat

/-! ## Components -/

/-- The components of a format. -/
inductive Component where
  | style
  | currency
  | unit
  | useGrouping
  | shape
  | compactDisplay
  | currencyDisplay
  | unitDisplay
  | signDisplay
  | currencySign
  | scale
  | roundingMode
  | roundingPriority
  | trailingZeroDisplay
  | minimumIntegerDigits
  | minimumFractionDigits
  | maximumFractionDigits
  | minimumSignificantDigits
  | maximumSignificantDigits

/-- What a component can be set to. -/
def Component.Value : Component → Type
  | .style => NumberStyle
  | .currency | .unit => String
  | .useGrouping => Bool
  | .shape => NumberShape
  | .compactDisplay => CompactDisplay
  | .currencyDisplay => CurrencyDisplay
  | .unitDisplay => UnitDisplay
  | .signDisplay => SignDisplay
  | .currencySign => CurrencySign
  | .scale => Binary64
  | .roundingMode => RoundingMode
  | .roundingPriority => RoundingPriority
  | .trailingZeroDisplay => TrailingZeroDisplay
  | .minimumIntegerDigits | .minimumFractionDigits | .maximumFractionDigits
  | .minimumSignificantDigits | .maximumSignificantDigits => Nat

/-- A component of a format. -/
def get (f : NumberFormat) : (c : Component) → Option c.Value
  | .style => f.style
  | .currency => f.currency
  | .unit => f.unit
  | .useGrouping => f.useGrouping
  | .shape => f.shape
  | .compactDisplay => f.compactDisplay
  | .currencyDisplay => f.currencyDisplay
  | .unitDisplay => f.unitDisplay
  | .signDisplay => f.signDisplay
  | .currencySign => f.currencySign
  | .scale => f.scale
  | .roundingMode => f.roundingMode
  | .roundingPriority => f.roundingPriority
  | .trailingZeroDisplay => f.trailingZeroDisplay
  | .minimumIntegerDigits => f.minimumIntegerDigits
  | .minimumFractionDigits => f.minimumFractionDigits
  | .maximumFractionDigits => f.maximumFractionDigits
  | .minimumSignificantDigits => f.minimumSignificantDigits
  | .maximumSignificantDigits => f.maximumSignificantDigits

/-- The format with another value for a component. -/
def set (f : NumberFormat) : (c : Component) → Option c.Value → NumberFormat
  | .style, v => { f with style := v }
  | .currency, v => { f with currency := v }
  | .unit, v => { f with unit := v }
  | .useGrouping, v => { f with useGrouping := v }
  | .shape, v => { f with shape := v }
  | .compactDisplay, v => { f with compactDisplay := v }
  | .currencyDisplay, v => { f with currencyDisplay := v }
  | .unitDisplay, v => { f with unitDisplay := v }
  | .signDisplay, v => { f with signDisplay := v }
  | .currencySign, v => { f with currencySign := v }
  | .scale, v => { f with scale := v }
  | .roundingMode, v => { f with roundingMode := v }
  | .roundingPriority, v => { f with roundingPriority := v }
  | .trailingZeroDisplay, v => { f with trailingZeroDisplay := v }
  | .minimumIntegerDigits, v => { f with minimumIntegerDigits := v }
  | .minimumFractionDigits, v => { f with minimumFractionDigits := v }
  | .maximumFractionDigits, v => { f with maximumFractionDigits := v }
  | .minimumSignificantDigits, v => { f with minimumSignificantDigits := v }
  | .maximumSignificantDigits, v => { f with maximumSignificantDigits := v }

/-- Formats that agree in all components are the same. -/
theorem eq_of_get {f g : NumberFormat} (h : ∀ c, f.get c = g.get c) : f = g := by
  cases f
  cases g
  rw [NumberFormat.mk.injEq]
  exact ⟨h .style, h .currency, h .unit, h .useGrouping, h .shape, h .compactDisplay,
    h .currencyDisplay, h .unitDisplay, h .signDisplay, h .currencySign, h .scale, h .roundingMode,
    h .roundingPriority, h .trailingZeroDisplay, h .minimumIntegerDigits, h .minimumFractionDigits,
    h .maximumFractionDigits, h .minimumSignificantDigits, h .maximumSignificantDigits⟩

@[simp] theorem get_set_self (f : NumberFormat) (c : Component) (v : Option c.Value) :
    (f.set c v).get c = v := by
  cases c
  all_goals rfl

theorem get_set_of_ne {c d : Component} (h : d ≠ c) (f : NumberFormat) (v : Option c.Value) :
    (f.set c v).get d = f.get d := by
  cases c
  all_goals
    cases d
    any_goals rfl
    contradiction

@[simp] theorem set_get (f : NumberFormat) (c : Component) : f.set c (f.get c) = f := by
  cases c
  all_goals rfl

end NumberFormat

namespace NumberSkeleton

open NumberFormat (Component)

/-! ## Updates -/

/-- The update leaves each component as it is, or gives it one value, whatever the format. -/
def Overwrites (update : Update) : Prop :=
  ∀ c : Component, (∀ f, (update f).get c = f.get c) ∨ ∃ v, ∀ f, (update f).get c = v

theorem overwrites_id : Overwrites id := fun _ => Or.inl fun _ => rfl

theorem overwrites_set (c : Component) (v : Option c.Value) : Overwrites (·.set c v) := by
  intro d
  by_cases h : d = c
  · subst h
    exact Or.inr ⟨v, fun f => f.get_set_self d v⟩
  · exact Or.inl fun f => NumberFormat.get_set_of_ne h f v

/-- A value that is there is set, and none changes nothing. -/
theorem overwrites_prefer (c : Component) (v : Option c.Value) :
    Overwrites fun f => f.set c (v <|> f.get c) := by
  cases v with
  | none => exact fun d => Or.inl fun f => congrArg (NumberFormat.get · d) (f.set_get c)
  | some v => exact overwrites_set c (some v)

theorem Overwrites.comp {second first : Update} (hsecond : Overwrites second)
    (hfirst : Overwrites first) : Overwrites (second ∘ first) := by
  intro c
  rcases hsecond c with hkeep | ⟨v, hv⟩
  · rcases hfirst c with hkeep' | ⟨v, hv⟩
    · exact Or.inl fun f => (hkeep (first f)).trans (hkeep' f)
    · exact Or.inr ⟨v, fun f => (hkeep (first f)).trans (hv f)⟩
  · exact Or.inr ⟨v, fun f => hv (first f)⟩

/-- Once is enough. -/
theorem Overwrites.idem {update : Update} (h : Overwrites update) (f : NumberFormat) :
    update (update f) = update f := by
  apply NumberFormat.eq_of_get
  intro c
  rcases h c with hkeep | ⟨v, hv⟩
  · exact hkeep (update f)
  · rw [hv, hv]

theorem overwrites_sign (sign : Sign) : Overwrites sign.update :=
  (overwrites_prefer .signDisplay sign.display).comp
    (overwrites_prefer .currencySign sign.currency)

theorem overwrites_fraction (p : FractionPrecision) : Overwrites p.update :=
  (overwrites_set .minimumFractionDigits p.least).comp
    (overwrites_set .maximumFractionDigits p.most)

theorem overwrites_significant (p : SignificantPrecision) : Overwrites p.update :=
  ((overwrites_set .minimumSignificantDigits (some p.least)).comp
    (overwrites_prefer .maximumSignificantDigits p.most)).comp
      (overwrites_prefer .roundingPriority p.priority)

theorem overwrites_compact (display : CompactDisplay) : Overwrites (compact display) :=
  (overwrites_set .shape _).comp (overwrites_set .compactDisplay _)

theorem overwrites_unitWidth (currency : CurrencyDisplay) (unit : UnitDisplay) :
    Overwrites (unitWidth currency unit) :=
  (overwrites_set .currencyDisplay _).comp (overwrites_set .unitDisplay _)

theorem overwrites_exponential (shape : NumberShape) (signs : List Sign) :
    Overwrites (exponential shape signs) := by
  -- the signs come after the shape, so the last sign is the last update
  induction signs using List.reverseRecOn with
  | nil => exact overwrites_set .shape (some shape)
  | append_singleton signs sign ih =>
    have hlast : exponential shape (signs ++ [sign]) = sign.update ∘ exponential shape signs := by
      funext f
      simp [exponential]
    rw [hlast]
    exact (overwrites_sign sign).comp ih

theorem overwrites_exponentUpdate? {pattern : List Char} {update : Update}
    (h : exponentUpdate? pattern = some update) : Overwrites update := by
  simp only [exponentUpdate?, Option.ite_none_right_eq_some, Option.some.injEq] at h
  obtain ⟨-, rfl⟩ := h
  exact ((overwrites_set .shape _).comp (overwrites_prefer .signDisplay _)).comp
    (overwrites_set .minimumIntegerDigits _)

/-! ## Tokens -/

namespace Token

/-- What is accepted overwrites. -/
def OnlyOverwrites (x : Except Fault Update) : Prop := ∀ update, x = .ok update → Overwrites update

variable {t : Token} {α : Type}

theorem onlyOverwrites_ok {update : Update} (h : Overwrites update) :
    OnlyOverwrites (.ok update) := by
  intro update' h'
  cases h'
  exact h

theorem onlyOverwrites_error (fault : Fault) : OnlyOverwrites (.error fault) := by
  intro update h
  cases h

theorem onlyOverwrites_bind {x : Except Fault α} {g : α → Except Fault Update}
    (h : ∀ a, OnlyOverwrites (g a)) : OnlyOverwrites (x >>= g) := by
  cases x with
  | error fault => exact onlyOverwrites_error fault
  | ok a => exact h a

theorem onlyOverwrites_plain {update : Update} (h : Overwrites update) :
    OnlyOverwrites (t.plain update) := by
  unfold plain
  split
  · exact onlyOverwrites_ok h
  · exact onlyOverwrites_error _

theorem onlyOverwrites_fractionOption (stem option : String) :
    OnlyOverwrites (fractionOption stem option) := by
  unfold fractionOption
  split
  · exact onlyOverwrites_ok (overwrites_set .trailingZeroDisplay _)
  split
  · exact onlyOverwrites_ok (overwrites_significant _)
  · exact onlyOverwrites_error _

theorem onlyOverwrites_fractionMeaning (pattern : List Char) :
    OnlyOverwrites (fractionMeaning t pattern) := by
  unfold fractionMeaning
  split
  · exact onlyOverwrites_error _
  next precision _ =>
  split
  · exact onlyOverwrites_ok (overwrites_fraction precision)
  · next option _ =>
    cases hoption : fractionOption t.stem option with
    | error fault => exact onlyOverwrites_error fault
    | ok update =>
      have hupdate := onlyOverwrites_fractionOption t.stem option update hoption
      exact onlyOverwrites_ok (hupdate.comp (overwrites_fraction precision))
  · exact onlyOverwrites_error _

theorem onlyOverwrites_patternMeaning : OnlyOverwrites (patternMeaning t) := by
  unfold patternMeaning
  dsimp only
  split
  · exact onlyOverwrites_plain (overwrites_set .minimumIntegerDigits _)
  split
  · exact onlyOverwrites_fractionMeaning _
  split
  · exact onlyOverwrites_plain (overwrites_significant _)
  split
  · exact onlyOverwrites_plain (overwrites_sign _)
  split
  · exact onlyOverwrites_error _
  split
  · next hupdate => exact onlyOverwrites_plain (overwrites_exponentUpdate? hupdate)
  split
  · exact onlyOverwrites_error _
  · exact onlyOverwrites_error _

/-- An accepted token leaves each component as it is or overwrites it. -/
theorem overwrites_meaning (t : Token) : OnlyOverwrites t.meaning := by
  unfold meaning
  split
  -- one case for each word of the vocabulary, in its order
  · exact onlyOverwrites_plain (overwrites_set .style _)
  · exact onlyOverwrites_plain (overwrites_set .style _)
  · exact onlyOverwrites_plain ((overwrites_set .style _).comp (overwrites_set .scale _))
  · exact onlyOverwrites_bind fun _ =>
      onlyOverwrites_ok ((overwrites_set .style _).comp (overwrites_set .currency _))
  · exact onlyOverwrites_plain (overwrites_set .useGrouping _)
  · exact onlyOverwrites_plain (overwrites_set .useGrouping _)
  · exact onlyOverwrites_plain (overwrites_set .maximumFractionDigits _)
  · exact onlyOverwrites_plain (overwrites_set .maximumFractionDigits _)
  · exact onlyOverwrites_bind fun _ =>
      onlyOverwrites_ok ((overwrites_set .style _).comp (overwrites_set .unit _))
  · exact onlyOverwrites_bind fun _ =>
      onlyOverwrites_ok ((overwrites_set .style _).comp (overwrites_set .unit _))
  · exact onlyOverwrites_plain (overwrites_compact .short)
  · exact onlyOverwrites_plain (overwrites_compact .short)
  · exact onlyOverwrites_plain (overwrites_compact .long)
  · exact onlyOverwrites_plain (overwrites_compact .long)
  · exact onlyOverwrites_bind fun signs =>
      onlyOverwrites_ok (overwrites_exponential .scientific signs)
  · exact onlyOverwrites_bind fun signs =>
      onlyOverwrites_ok (overwrites_exponential .engineering signs)
  · exact onlyOverwrites_plain (overwrites_set .shape _)
  · exact onlyOverwrites_plain (overwrites_unitWidth .narrowSymbol .narrow)
  · exact onlyOverwrites_plain (overwrites_unitWidth .code .short)
  · exact onlyOverwrites_plain (overwrites_unitWidth .name .long)
  · exact onlyOverwrites_plain (overwrites_set .currencyDisplay _)
  · exact onlyOverwrites_bind fun _ => onlyOverwrites_bind fun _ =>
      onlyOverwrites_ok (overwrites_set .scale _)
  iterate 7
    · exact onlyOverwrites_plain (overwrites_set .roundingMode _)
  · exact onlyOverwrites_bind fun _ => onlyOverwrites_bind fun _ =>
      onlyOverwrites_ok (overwrites_set .minimumIntegerDigits _)
  · exact onlyOverwrites_patternMeaning

/-- What a token does to a format, and nothing if it is refused. -/
def update (t : Token) : Update :=
  match t.meaning with
  | .ok update => update
  | .error _ => id

theorem update_of_meaning {update : Update} (h : t.meaning = .ok update) : t.update = update := by
  rw [Token.update, h]

theorem overwrites_update (t : Token) : Overwrites t.update := by
  unfold update
  split
  · next h => exact t.overwrites_meaning _ h
  · exact overwrites_id

/-- The token changes the component in some format. -/
def Writes (t : Token) (c : Component) : Prop :=
  ∃ update, t.meaning = .ok update ∧ ∃ f, (update f).get c ≠ f.get c

/-- There is a component that both tokens write. -/
def Interferes (s t : Token) : Prop := ∃ c, s.Writes c ∧ t.Writes c

theorem get_update_of_not_writes {c : Component} (h : ¬t.Writes c) (f : NumberFormat) :
    (t.update f).get c = f.get c := by
  cases hmeaning : t.meaning with
  | ok update =>
    rw [update_of_meaning hmeaning]
    by_contra hne
    exact h ⟨update, hmeaning, f, hne⟩
  | error fault => simp [update, hmeaning]

/-- What a token writes it writes in every format. -/
theorem get_update_of_writes {c : Component} (h : t.Writes c) (f g : NumberFormat) :
    (t.update f).get c = (t.update g).get c := by
  obtain ⟨update, hmeaning, start, hne⟩ := h
  rw [update_of_meaning hmeaning]
  rcases t.overwrites_meaning update hmeaning c with hkeep | ⟨v, hv⟩
  · exact absurd (hkeep start) hne
  · rw [hv, hv]

end Token

/-! ## Skeletons -/

/-- What tokens do to a format, one after the other. -/
def updateAll (tokens : List Token) : Update := fun f => tokens.foldl (fun f t => t.update f) f

@[simp] theorem updateAll_cons (t : Token) (tokens : List Token) (f : NumberFormat) :
    updateAll (t :: tokens) f = updateAll tokens (t.update f) := rfl

@[simp] theorem updateAll_append (tokens tokens' : List Token) (f : NumberFormat) :
    updateAll (tokens ++ tokens') f = updateAll tokens' (updateAll tokens f) :=
  List.foldl_append

theorem overwrites_updateAll (tokens : List Token) : Overwrites (updateAll tokens) := by
  induction tokens with
  | nil => exact overwrites_id
  | cons t tokens ih => exact ih.comp t.overwrites_update

theorem get_updateAll_of_not_writes {c : Component} {tokens : List Token}
    (h : ∀ t ∈ tokens, ¬t.Writes c) (f : NumberFormat) :
    (updateAll tokens f).get c = f.get c := by
  induction tokens generalizing f with
  | nil => rfl
  | cons t tokens ih =>
    rw [List.forall_mem_cons] at h
    rw [updateAll_cons, ih h.2, Token.get_update_of_not_writes h.1]

/-- The last of the tokens that write a component decides about it. -/
theorem get_updateAll_ofFn {n : Nat} (tokens : Fin n → Token) {c : Component} {last : Fin n}
    (hwrites : (tokens last).Writes c) (hlast : ∀ i, last < i → ¬(tokens i).Writes c)
    (f : NumberFormat) :
    (updateAll (List.ofFn tokens) f).get c = ((tokens last).update {}).get c := by
  have hlength : last < (List.ofFn tokens).length := by simp
  have hafter : ∀ t ∈ (List.ofFn tokens).drop (last + 1), ¬t.Writes c := by
    intro t ht
    obtain ⟨k, hk, rfl⟩ := List.mem_drop_iff_getElem.1 ht
    rw [List.getElem_ofFn]
    exact hlast _ (Fin.lt_def.2 (by simp; omega))
  rw [← List.take_append_drop last (List.ofFn tokens), List.drop_eq_getElem_cons hlength,
    updateAll_append, updateAll_cons, get_updateAll_of_not_writes hafter, List.getElem_ofFn]
  exact Token.get_update_of_writes hwrites _ _

/-! ## What is accepted -/

theorem mapM_meaning_eq_ok_iff {tokens : List Token} {updates : List Update} :
    tokens.mapM Token.meaning = .ok updates ↔
      (∀ t ∈ tokens, ∃ update, t.meaning = .ok update) ∧ updates = tokens.map Token.update := by
  rw [mapM_eq_ok_iff]
  constructor
  · intro h
    induction h with
    | nil => simp
    | cons hmeaning _ ih =>
      rw [List.forall_mem_cons, List.map_cons, Token.update_of_meaning hmeaning]
      exact ⟨⟨⟨_, hmeaning⟩, ih.1⟩, congrArg _ ih.2⟩
  · rintro ⟨h, rfl⟩
    rw [List.forall₂_map_right_iff, List.forall₂_same]
    intro t ht
    obtain ⟨update, hmeaning⟩ := h t ht
    rw [Token.update_of_meaning hmeaning, hmeaning]

theorem interpret_eq_ok_iff {tokens : List Token} {f : NumberFormat} :
    interpret tokens = .ok f ↔
      (∀ t ∈ tokens, ∃ update, t.meaning = .ok update) ∧ f = updateAll tokens {} := by
  constructor
  · intro h
    rw [interpret] at h
    cases hupdates : tokens.mapM Token.meaning with
    | error fault =>
      rw [hupdates] at h
      cases h
    | ok updates =>
      rw [hupdates] at h
      cases h
      obtain ⟨haccepted, rfl⟩ := mapM_meaning_eq_ok_iff.1 hupdates
      exact ⟨haccepted, List.foldl_map⟩
  · rintro ⟨haccepted, rfl⟩
    rw [interpret, mapM_meaning_eq_ok_iff.2 ⟨haccepted, rfl⟩]
    exact congrArg Except.ok List.foldl_map

theorem interpret_eq_error_iff {tokens : List Token} {fault : Fault} :
    interpret tokens = .error fault ↔ tokens.mapM Token.meaning = .error fault := by
  rw [interpret]
  cases tokens.mapM Token.meaning with
  | error fault' => simp [bind, Except.bind]
  | ok updates => simp [bind, Except.bind, pure, Except.pure]

theorem exists_interpret_singleton_iff {t : Token} :
    (∃ f, interpret [t] = .ok f) ↔ ∃ update, t.meaning = .ok update := by
  simp [interpret_singleton_eq_ok_iff]

/-- The first token that is refused on its own is the one that is refused. -/
theorem interpret_eq_error_iff_first {tokens : List Token} {fault : Fault} :
    interpret tokens = .error fault ↔ ∃ before t after, tokens = before ++ t :: after ∧
      (∀ s ∈ before, ∃ f, interpret [s] = .ok f) ∧ interpret [t] = .error fault := by
  rw [interpret_eq_error_iff, mapM_eq_error_iff]
  simp only [exists_interpret_singleton_iff, interpret_singleton_eq_error_iff]

/-! ## Exchanging tokens -/

/-- Tokens in another order do the same if those that write the same component stay in order.  The
token in place `i` of the new order is the one in place `σ i` of the old. -/
theorem updateAll_permuted {tokens : List Token} {σ : Equiv.Perm (Fin tokens.length)}
    (hσ : ∀ i j, i < j → (tokens.get (σ i)).Interferes (tokens.get (σ j)) → σ i < σ j) :
    updateAll (List.ofFn fun i => tokens.get (σ i)) {} = updateAll tokens {} := by
  apply NumberFormat.eq_of_get
  intro c
  by_cases hnone : ∀ i, ¬(tokens.get (σ i)).Writes c
  · have hall : ∀ t ∈ tokens, ¬t.Writes c := by
      intro t ht
      obtain ⟨i, rfl⟩ := List.get_of_mem ht
      simpa using hnone (σ.symm i)
    rw [get_updateAll_of_not_writes hall, get_updateAll_of_not_writes]
    simpa [List.forall_mem_ofFn_iff] using hnone
  · -- the last token that writes the component is the same one in both orders
    push Not at hnone
    obtain ⟨last, hwrites, hlast⟩ := Set.exists_max_image {i | (tokens.get (σ i)).Writes c} id
      (Set.toFinite _) hnone
    have hlast' : ∀ j, σ last < j → ¬(tokens.get j).Writes c := by
      intro j hj hwrites'
      obtain ⟨i, rfl⟩ := σ.surjective j
      have hle : i ≤ last := hlast i hwrites'
      have hlt : i < last := lt_of_le_of_ne hle fun h => absurd hj (h ▸ lt_irrefl _)
      exact absurd (hσ i last hlt ⟨c, hwrites', hwrites⟩) (not_lt_of_gt hj)
    have hpermuted := get_updateAll_ofFn (fun i => tokens.get (σ i)) hwrites
      (fun i hi hw => absurd (hlast i hw) (not_le_of_gt hi)) {}
    have horiginal := get_updateAll_ofFn tokens.get hwrites hlast' {}
    rw [List.ofFn_get] at horiginal
    rw [hpermuted, horiginal]

/-- Tokens are accepted if each of them is, and else refused as the first of them that is refused
on its own.  The result does not change if tokens are exchanged, as long as two tokens that write
the same component stay in order; nor if all tokens are given twice. -/
theorem interpret_independent (tokens : List Token) :
    ((∃ f, interpret tokens = .ok f) ↔ ∀ t ∈ tokens, ∃ f, interpret [t] = .ok f) ∧
    (∀ fault, interpret tokens = .error fault ↔ ∃ before t after, tokens = before ++ t :: after ∧
      (∀ s ∈ before, ∃ f, interpret [s] = .ok f) ∧ interpret [t] = .error fault) ∧
    ∀ f, interpret tokens = .ok f →
      (∀ σ : Equiv.Perm (Fin tokens.length),
        (∀ i j, i < j → (tokens.get (σ i)).Interferes (tokens.get (σ j)) → σ i < σ j) →
        interpret (List.ofFn fun i => tokens.get (σ i)) = .ok f) ∧
      interpret (tokens ++ tokens) = .ok f := by
  refine ⟨?_, fun _ => interpret_eq_error_iff_first, ?_⟩
  · simp only [exists_interpret_singleton_iff]
    simp [interpret_eq_ok_iff]
  · intro f h
    obtain ⟨haccepted, rfl⟩ := interpret_eq_ok_iff.1 h
    constructor
    · intro σ hσ
      rw [interpret_eq_ok_iff, updateAll_permuted hσ]
      exact ⟨by simpa [List.forall_mem_ofFn_iff] using fun i => haccepted _ (List.get_mem _ _), rfl⟩
    · rw [interpret_eq_ok_iff, updateAll_append, (overwrites_updateAll tokens).idem]
      exact ⟨by simpa using haccepted, rfl⟩

/-- A percentage may go before a pattern that stands before another one, as the two patterns stay
in order. -/
theorem interpret_independent_percent :
    interpret [⟨"percent", []⟩, ⟨".00", []⟩, ⟨".##", []⟩] =
      .ok { style := some .percent, maximumFractionDigits := some 2 } := by
  have h : interpret [⟨".00", []⟩, ⟨"percent", []⟩, ⟨".##", []⟩] =
      .ok { style := some .percent, maximumFractionDigits := some 2 } := rfl
  have hnot : ¬Token.Interferes ⟨"percent", []⟩ ⟨".00", []⟩ := by
    rintro ⟨c, ⟨update, hpercent, f, hf⟩, update', hpattern, g, hg⟩
    cases hpercent
    cases hpattern
    cases c
    any_goals exact hf rfl
    exact hg rfl
  refine ((interpret_independent _).2.2 _ h).1 (Equiv.swap 0 1) ?_
  intro i j hlt hinterferes
  by_cases hfirst : i = 0 ∧ j = 1
  · obtain ⟨rfl, rfl⟩ := hfirst
    exact absurd hinterferes hnot
  · clear hinterferes
    revert i j
    decide

end NumberSkeleton

end MessageFormat
