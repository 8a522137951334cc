import MessageFormat.Proofs.LanguageTag.Canonical

/-!
# The extension of a language tag

An extension begins with a subtag of a single character.  All subtags behind it go into the
extension, whatever they look like (`foldl_add_of_opens`), and without such a subtag there is none
(`extension_foldl_add`).  So putting an extension behind a tag that has none changes nothing in
the rest of the tag (`parse_append_extension`).
-/

namespace MessageFormat.LanguageTag

/-- The texts of extensions: a subtag of one character and then any subtags. -/
def IsExtension (text : List Char) : Prop :=
  (subtagsOf text).head?.map List.length = some 1 ∧
    ∀ subtag ∈ subtagsOf text, subtag ≠ [] ∧ isSubtag subtag = true

instance : DecidablePred IsExtension := fun _ => inferInstanceAs (Decidable (_ ∧ _))

/-! ## Adding subtags -/

/-- In an extension, or with the subtag that opens one, everything is added to the extension. -/
theorem foldl_add_of_opens {tag : LanguageTag} {subtags : List (List Char)}
    (h : tag.extension ≠ [] ∨ subtags.head?.map List.length = some 1) :
    subtags.foldl add tag = { tag with extension := tag.extension ++ subtags.map lower } := by
  induction subtags generalizing tag with
  | nil => simp
  | cons subtag subtags ih =>
    have hadd : tag.add subtag = { tag with extension := tag.extension ++ [lower subtag] } := by
      rw [add, if_pos]
      simpa using h
    rw [List.foldl_cons, hadd, ih (Or.inl (by simp))]
    simp

/-- Only a subtag of one character opens an extension. -/
theorem extension_foldl_add {tag : LanguageTag} {subtags : List (List Char)}
    (hnone : tag.extension = []) (h : ∀ subtag ∈ subtags, subtag.length ≠ 1) :
    (subtags.foldl add tag).extension = [] := by
  induction subtags generalizing tag with
  | nil => exact hnone
  | cons subtag subtags ih =>
    have hadd : (tag.add subtag).extension = [] := by
      rw [add, if_neg (by simp [hnone, h subtag List.mem_cons_self])]
      split_ifs
      all_goals exact hnone
    exact ih hadd fun s hs => h s (List.mem_cons_of_mem subtag hs)

/-! ## Texts with an extension -/

theorem subtagsOf_append (text extension : List Char) :
    subtagsOf (text ++ '-' :: extension) = subtagsOf text ++ subtagsOf extension :=
  List.splitOnP_append_cons text extension rfl

/-- A text is made of its subtags and the separators between them. -/
theorem forall_mem_of_subtagsOf {P : Char → Prop} {text : List Char}
    (hseparator : ∀ c, isSeparator c = true → P c)
    (h : ∀ subtag ∈ subtagsOf text, ∀ c ∈ subtag, P c) : ∀ c ∈ text, P c := by
  induction text with
  | nil => simp
  | cons c text ih =>
    rw [subtagsOf, List.splitOnP_cons_eq_if_modifyHead, ← subtagsOf] at h
    by_cases hc : isSeparator c = true
    · rw [if_pos hc] at h
      have hrest := ih fun subtag hmem => h subtag (List.mem_cons_of_mem [] hmem)
      simpa [hseparator c hc] using hrest
    · obtain ⟨subtag, subtags, hsubtags⟩ :=
        List.exists_cons_of_ne_nil (List.splitOnP_ne_nil isSeparator text)
      rw [← subtagsOf] at hsubtags
      rw [if_neg hc, hsubtags, List.modifyHead_cons, List.forall_mem_cons] at h
      obtain ⟨hfirst, hothers⟩ := h
      rw [List.forall_mem_cons] at hfirst ⊢
      refine ⟨hfirst.1, ih ?_⟩
      rw [hsubtags, List.forall_mem_cons]
      exact ⟨hfirst.2, hothers⟩

/-- A text of which all subtags are well formed has no blanks around it. -/
theorem trim_of_subtagsOf {text : List Char}
    (h : ∀ subtag ∈ subtagsOf text, subtag.all isSubtagChar = true) : Text.trim text = text := by
  apply Text.trim_eq_self
  apply forall_mem_of_subtagsOf
  · intro c hc
    rcases Bool.or_eq_true_iff.1 hc with hc | hc
    · rw [eq_of_beq hc]
      decide
    · rw [eq_of_beq hc]
      decide
  · intro subtag hmem c hc
    exact not_isWhiteSpace_of_isSubtagChar (List.all_eq_true.1 (h subtag hmem) c hc)

/-- The canonical text of a tag is read back as that tag. -/
theorem parse_text {input : String} {tag : LanguageTag} (h : parse input = .ok tag) :
    parse tag.text = .ok tag := by
  rw [parse_eq_ok_iff] at h ⊢
  apply h.of_map_fold
  rw [h.subtagsOf_text, h.map_fold_subtags]

/-- A tag without single characters has no extension. -/
theorem IsTagOf.extension_eq_nil {read : List (List Char)} {tag : LanguageTag}
    (h : IsTagOf read tag) (hsingle : ∀ subtag ∈ read, subtag.length ≠ 1) :
    tag.extension = [] := by
  obtain ⟨-, language, others, rfl, -, -, rfl⟩ := h
  exact extension_foldl_add rfl fun subtag hmem =>
    hsingle subtag (List.mem_cons_of_mem language hmem)

/-- A tag without single characters can be given an extension.  Nothing else about it changes. -/
theorem parse_append_extension {code extension : String} {tag : LanguageTag}
    (h : parse code = .ok tag) (htrim : Text.trim code.toList = code.toList)
    (hsingle : ∀ subtag ∈ subtagsOf code.toList, subtag.length ≠ 1)
    (hextension : IsExtension extension.toList) :
    parse (code ++ "-" ++ extension) =
      .ok { tag with extension := (subtagsOf extension.toList).map lower } := by
  obtain ⟨hopens, hvalid⟩ := hextension
  rw [parse_eq_ok_iff, htrim] at h
  have hnone := h.extension_eq_nil hsingle
  have hsubtags : subtagsOf (code ++ "-" ++ extension).toList =
      subtagsOf code.toList ++ subtagsOf extension.toList := by
    rw [String.toList_append, String.toList_append, List.append_assoc]
    exact subtagsOf_append code.toList extension.toList
  have hchars : ∀ subtag ∈ subtagsOf (code ++ "-" ++ extension).toList,
      subtag.all isSubtagChar = true := by
    intro subtag hmem
    rw [hsubtags, List.mem_append] at hmem
    rcases hmem with hmem | hmem
    · exact h.all_isSubtagChar subtag hmem
    · have := (hvalid subtag hmem).2
      rw [isSubtag_eq, Bool.and_eq_true] at this
      exact this.1
  obtain ⟨hne, language, others, hcode, hlanguage, hothers, rfl⟩ := h
  rw [parse_eq_ok_iff, trim_of_subtagsOf hchars, hsubtags]
  refine ⟨?_, language, others ++ subtagsOf extension.toList, by rw [hcode]; rfl, hlanguage, ?_, ?_⟩
  · intro subtag hmem
    exact (List.mem_append.1 hmem).elim (hne subtag) fun hmem => (hvalid subtag hmem).1
  · intro subtag hmem
    exact (List.mem_append.1 hmem).elim (hothers subtag) fun hmem => (hvalid subtag hmem).2
  · rw [List.foldl_append, foldl_add_of_opens (Or.inr hopens), hnone, List.nil_append]

end MessageFormat.LanguageTag
