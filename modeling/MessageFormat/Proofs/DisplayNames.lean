import Mathlib.Data.List.TakeWhile
import MessageFormat.DisplayNames
import MessageFormat.Proofs.LanguageTag.Extension

/-!
# Names of languages with an extension

The name of a language code is that of its whole canonical text, and if the table has none that
of its language alone.  No entry of the table has an extension, so with an extension only the
language counts (`lookup_text_of_extension`).  Hence a code keeps its name when it is given an
extension, unless the table has an entry for more of it than the language: `de-AT-u-co-phonebk`
is German as `de-AT` is, but `en-GB-u-ca-gregory` is English and no longer British English
(`of_extended_iff`).
-/

namespace MessageFormat.DisplayNames

open LanguageTag (subtagsOf IsExtension)

/-- The table has an entry for the tag that is not the one of its language. -/
def HasOwnEntry (tag : LanguageTag) : Prop :=
  tag.text ≠ tag.language ∧ englishLanguages.lookup tag.text ≠ none

instance : DecidablePred HasOwnEntry := fun _ => inferInstanceAs (Decidable (_ ∧ _))

/-! ## The table -/

theorem mem_of_lookup {table : Table} {code name : String} (h : table.lookup code = some name) :
    (code, name) ∈ table := by
  obtain ⟨before, after, rfl, -⟩ := List.lookup_eq_some_iff.1 h
  exact List.mem_append_right before List.mem_cons_self

/-- No entry has an extension. -/
theorem length_ne_one_of_mem : ∀ entry ∈ englishLanguages,
    ∀ subtag ∈ subtagsOf (Text.trim entry.1.toList), subtag.length ≠ 1 := by
  decide +kernel

/-- No name is a code in canonical form. -/
theorem canonical?_name : ∀ entry ∈ englishLanguages,
    canonical? .language entry.2 ≠ some entry.2 := by
  decide +kernel

/-- An entry for more than a language has a name of its own, and so has its language. -/
theorem lookup_firstSubtag : ∀ entry ∈ englishLanguages, firstSubtag entry.1 ≠ entry.1 →
    englishLanguages.lookup (firstSubtag entry.1) ≠ none ∧
      englishLanguages.lookup (firstSubtag entry.1) ≠ some entry.2 := by
  decide +kernel

/-! ## The text of a tag -/

section Text

variable {input : String} {tag : LanguageTag}

theorem firstSubtag_text (h : LanguageTag.parse input = .ok tag) :
    firstSubtag tag.text = tag.language := by
  have hlanguage : ∀ c ∈ tag.language.toList, (c != '-') = true := by
    intro c hc
    have hchar := (LanguageTag.parse_eq_ok_iff.1 h).isSubtagChar_of_mem tag.language.toList
      (by simp [LanguageTag.subtags, LanguageTag.matchSubtags]) c hc
    rw [bne_iff_ne]
    rintro rfl
    exact absurd hchar (by decide)
  have htake : tag.text.toList.takeWhile (· != '-') = tag.language.toList := by
    rw [LanguageTag.toList_text, LanguageTag.subtags, LanguageTag.matchSubtags, List.cons_append,
      List.map_cons]
    cases (tag.further ++ tag.extension).map String.toList with
    | nil => simpa using hlanguage
    | cons subtag subtags =>
      rw [List.intercalate_cons_cons, List.append_assoc, List.singleton_append,
        List.takeWhile_append_of_pos hlanguage, List.takeWhile_cons_of_neg (by simp),
        List.append_nil]
  rw [firstSubtag, htake, String.ofList_toList]

/-- The text of a tag is no entry if it has an extension. -/
theorem lookup_text_of_extension (h : LanguageTag.parse input = .ok tag) {single : String}
    (hsingle : single ∈ tag.extension) (hlength : single.toList.length = 1) :
    englishLanguages.lookup tag.text = none := by
  rw [Option.eq_none_iff_forall_ne_some]
  intro name hname
  refine length_ne_one_of_mem _ (mem_of_lookup hname) single.toList ?_ hlength
  rw [(LanguageTag.parse_eq_ok_iff.1 h).subtagsOf_text]
  exact List.mem_map_of_mem (List.mem_append_right _ hsingle)

end Text

/-! ## Names in an English locale -/

section English

variable {names : DisplayNames} {code : String} {tag : LanguageTag}

theorem lookup?_text (hkind : names.options.kind = .language)
    (henglish : names.locale.language = "en") (h : LanguageTag.parse code = .ok tag) :
    names.lookup? tag.text =
      (englishLanguages.lookup tag.text).or (englishLanguages.lookup tag.language) := by
  rw [lookup?, hkind, firstSubtag_text h]
  cases hlookup : englishLanguages.lookup tag.text with
  | none => simp [henglish, english, hlookup]
  | some name => simp [henglish, english, hlookup]

theorem of_of_lookup? (hkind : names.options.kind = .language)
    (h : LanguageTag.parse code = .ok tag) {name : String}
    (hname : names.lookup? tag.text = some name) : names.of code = .ok (some name) := by
  rw [of, hkind]
  simp [canonical?, h, Except.toOption, hname]

/-- What is a name is not the fallback: it was found in the table. -/
theorem lookup?_of_of (hkind : names.options.kind = .language) {entry : String × String}
    (hentry : entry ∈ englishLanguages) (hof : names.of code = .ok (some entry.2)) :
    ∃ tag, LanguageTag.parse code = .ok tag ∧ names.lookup? tag.text = some entry.2 := by
  cases hparse : LanguageTag.parse code with
  | error fault => simp [of, hkind, canonical?, hparse, Except.toOption] at hof
  | ok tag =>
    refine ⟨tag, rfl, ?_⟩
    cases hlookup : names.lookup? tag.text with
    | some name => simpa [of, hkind, canonical?, hparse, Except.toOption, hlookup] using hof
    | none =>
      have htext : tag.text = entry.2 := by
        cases hfallback : names.options.fallback with
        | code =>
          simpa [of, hkind, canonical?, hparse, Except.toOption, hlookup, hfallback] using hof
        | none => simp [of, hkind, canonical?, hparse, Except.toOption, hlookup, hfallback] at hof
      have hcanonical : canonical? .language tag.text = some tag.text := by
        simp [canonical?, LanguageTag.parse_text hparse, Except.toOption]
      exact absurd (htext ▸ hcanonical) (canonical?_name entry hentry)

/-- A code that has a name keeps it with an extension exactly if the table has no entry for more
of it than its language.  In both cases the name is that of the language. -/
theorem of_extended_iff {extension name : String} (hkind : names.options.kind = .language)
    (henglish : names.locale.language = "en") (htrim : Text.trim code.toList = code.toList)
    (hsingle : ∀ subtag ∈ subtagsOf code.toList, subtag.length ≠ 1)
    (hextension : IsExtension extension.toList) (hof : names.of code = .ok (some name))
    (hname : name ∈ englishLanguages.map Prod.snd) :
    ∃ tag, LanguageTag.parse code = .ok tag ∧
      names.of (code ++ "-" ++ extension) = .ok (englishLanguages.lookup tag.language) ∧
      (names.of (code ++ "-" ++ extension) = .ok (some name) ↔ ¬HasOwnEntry tag) := by
  obtain ⟨entry, hentry, rfl⟩ := List.mem_map.1 hname
  obtain ⟨tag, hparse, hlookup⟩ := lookup?_of_of hkind hentry hof
  rw [lookup?_text hkind henglish hparse] at hlookup
  have hextended := LanguageTag.parse_append_extension hparse htrim hsingle hextension
  obtain ⟨single, hmem, hlength⟩ : ∃ single ∈ (subtagsOf extension.toList).map LanguageTag.lower,
      single.toList.length = 1 := by
    obtain ⟨single, hhead, hlength⟩ := Option.map_eq_some_iff.1 hextension.1
    exact ⟨LanguageTag.lower single, List.mem_map_of_mem (List.mem_of_head? hhead),
      by simpa [LanguageTag.lower] using hlength⟩
  have hlanguage : ∀ bare, englishLanguages.lookup tag.language = some bare →
      names.of (code ++ "-" ++ extension) = .ok (some bare) := by
    intro bare hbare
    apply of_of_lookup? hkind hextended
    rw [lookup?_text hkind henglish hextended, lookup_text_of_extension hextended hmem hlength,
      Option.none_or, hbare]
  refine ⟨tag, hparse, ?_⟩
  cases hown : englishLanguages.lookup tag.text with
  | none =>
    rw [hown, Option.none_or] at hlookup
    simp [hlanguage _ hlookup, hlookup, HasOwnEntry, hown]
  | some own =>
    rw [hown, Option.some_or, Option.some.injEq] at hlookup
    subst hlookup
    by_cases hbare : tag.text = tag.language
    · rw [hbare] at hown
      simp [hlanguage _ hown, hown, HasOwnEntry, hbare]
    · -- the language has a name too, and a different one
      obtain ⟨hne, hdiffers⟩ := lookup_firstSubtag _ (mem_of_lookup hown)
        (by rw [firstSubtag_text hparse]; exact Ne.symm hbare)
      rw [firstSubtag_text hparse] at hne hdiffers
      obtain ⟨bare, hlookup⟩ := Option.ne_none_iff_exists'.1 hne
      rw [hlookup, ne_eq, Option.some.injEq] at hdiffers
      simp [hlanguage _ hlookup, hlookup, HasOwnEntry, hbare, hown, hdiffers]

end English

/-- A script and a region that the table knows nothing of, and an extension in no case in
particular. -/
theorem of_extended_iff_unlisted :
    (⟨{ language := "en" }, { kind := .language }⟩ : DisplayNames).of "ZH_hans-cn" =
      .ok (some "Chinese") ∧
    (⟨{ language := "en" }, { kind := .language }⟩ : DisplayNames).of
      ("ZH_hans-cn" ++ "-" ++ "U_co-PINYIN") = .ok (some "Chinese") := by
  have hextension : IsExtension "U_co-PINYIN".toList := by decide +kernel
  have hparse : LanguageTag.parse "ZH_hans-cn" = .ok
      { language := "zh", further := ["Hans", "CN"], script := some "Hans",
        region := some "CN" } := by decide +kernel
  have hof : (⟨{ language := "en" }, { kind := .language }⟩ : DisplayNames).of "ZH_hans-cn" =
      .ok (some "Chinese") := by decide +kernel
  obtain ⟨tag, htag, -, hiff⟩ := of_extended_iff rfl rfl (by decide +kernel) (by decide +kernel)
    hextension hof (by decide +kernel)
  rw [hparse] at htag
  cases htag
  exact ⟨hof, hiff.2 (by decide +kernel)⟩

/-- British English is no longer British with a calendar. -/
theorem of_extended_ne_of_region :
    Text.trim "en-GB".toList = "en-GB".toList ∧
    (∀ subtag ∈ subtagsOf "en-GB".toList, subtag.length ≠ 1) ∧
    IsExtension "u-ca-gregory".toList ∧
    (⟨{ language := "en" }, { kind := .language }⟩ : DisplayNames).of "en-GB" =
      .ok (some "British English") ∧
    "British English" ∈ englishLanguages.map Prod.snd ∧
    (⟨{ language := "en" }, { kind := .language }⟩ : DisplayNames).of
      ("en-GB" ++ "-" ++ "u-ca-gregory") = .ok (some "English") := by
  decide +kernel

end MessageFormat.DisplayNames
