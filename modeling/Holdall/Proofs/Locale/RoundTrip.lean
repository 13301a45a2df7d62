import Holdall.Proofs.Locale.Grammar

namespace Holdall.Locale

variable {cs L C V : List Char} {text : String} {l : Locale}

def Built (l : Locale) : Prop := ∃ language country variant, l = ofParts language country variant

/-- Empty, or two to eight small letters that do not spell the undetermined language. -/
def LanguageForm (s : String) : Prop :=
  s = "" ∨ (2 ≤ s.length ∧ s.length ≤ 8 ∧ (∀ c ∈ s.toList, c.isLower) ∧ s ≠ "und")

def ThreeDigits (s : String) : Prop := s.length = 3 ∧ ∀ c ∈ s.toList, c.isDigit

/-- Empty, two capital letters or three digits. -/
def CountryForm (s : String) : Prop :=
  s = "" ∨ (s.length = 2 ∧ ∀ c ∈ s.toList, c.isUpper) ∨ ThreeDigits s

structure WellFormed (l : Locale) : Prop where
  language : LanguageForm l.language
  country : CountryForm l.country
  named : ¬ (l.language = "" ∧ l.country = "")

theorem Built.trimmed_variant (h : Built l) : Text.Trimmed l.variant.toList := by
  obtain ⟨language, country, variant, rfl⟩ := h
  rw [ofParts, Text.toList_trim]
  exact Text.trimmed_trimList variant.toList

theorem languageForm_spelled (h : LanguagePart L) : LanguageForm (spelled L C V).language := by
  by_cases hu : Undetermined L
  · exact .inl (if_pos hu)
  rw [spelled, if_neg hu]
  rcases h with (rfl | hu') | ⟨hlow, hhigh, hall⟩
  · exact .inl rfl
  · exact absurd hu' hu
  · refine .inr ⟨?_, ?_, ?_, ?_⟩
    · simpa [Text.lower] using hlow
    · simpa [Text.lower] using hhigh
    · intro c hc
      rw [Text.toList_lower, String.toList_ofList] at hc
      obtain ⟨d, hd, rfl⟩ := List.mem_map.1 hc
      exact Text.isLower_toLower (hall d hd)
    · intro hund
      have hlist := congrArg String.toList hund
      rw [Text.toList_lower, String.toList_ofList] at hlist
      exact hu hlist

theorem countryForm_spelled (h : CountryPart C) : CountryForm (spelled L C V).country := by
  have hlen : (spelled L C V).country.length = C.length := by simp [spelled, Text.upper]
  have hlist : (spelled L C V).country.toList = C.map Char.toUpper := by simp [spelled, Text.upper]
  rcases h with rfl | ⟨htwo, hall⟩ | ⟨hthree, hall⟩
  · exact .inl rfl
  · refine .inr (.inl ⟨hlen.trans htwo, ?_⟩)
    intro c hc
    rw [hlist] at hc
    obtain ⟨d, hd, rfl⟩ := List.mem_map.1 hc
    exact Text.isUpper_toUpper (hall d hd)
  · refine .inr (.inr ⟨hlen.trans hthree, ?_⟩)
    intro c hc
    rw [hlist] at hc
    obtain ⟨d, hd, rfl⟩ := List.mem_map.1 hc
    rw [Text.toUpper_of_isDigit (hall d hd)]
    exact hall d hd

theorem language_spelled_eq_empty : (spelled L C V).language = "" ↔ Unnamed L := by
  by_cases hu : Undetermined L
  · exact iff_of_true (if_pos hu) (.inr hu)
  · rw [spelled, if_neg hu, Unnamed, or_iff_left hu, ← String.toList_eq_nil_iff, Text.toList_lower]
    simp

theorem country_spelled_eq_empty : (spelled L C V).country = "" ↔ C = [] := by
  rw [spelled, ← String.toList_eq_nil_iff, Text.toList_upper]
  simp

theorem wellFormed_spelled (h : Accepted L C) : (spelled L C V).WellFormed where
  language := languageForm_spelled h.language
  country := countryForm_spelled h.country
  named := by
    rw [language_spelled_eq_empty, country_spelled_eq_empty]
    exact fun hnone ↦ h.named hnone.symm

theorem built_of_parse (h : parse text = .ok l) : Built l := by
  obtain ⟨L, C, V, -, hacc, rfl⟩ := parse_eq_ok_iff.1 h
  exact ⟨_, _, _, (ofParts_determined hacc.language hacc.country).symm⟩

theorem wellFormed_of_parse (h : parse text = .ok l) : l.WellFormed := by
  obtain ⟨L, C, V, -, hacc, rfl⟩ := parse_eq_ok_iff.1 h
  exact wellFormed_spelled hacc

def Names (L : List Char) (language : String) : Prop :=
  L = language.toList ∨ language = "" ∧ L = ['u', 'n', 'd']

namespace LanguageForm

variable {s : String}

theorem alphanum (h : LanguageForm s) : ∀ c ∈ s.toList, c.isAlphanum = true := by
  intro c hc
  rcases h with rfl | ⟨-, -, hall, -⟩
  · exact absurd hc List.not_mem_nil
  · rw [Char.isAlphanum, Text.isAlpha_of_isLower (hall c hc), Bool.true_or]

theorem lower_eq (h : LanguageForm s) : Text.lower s = s := by
  rcases h with rfl | ⟨-, -, hall, -⟩
  · rfl
  · exact Text.lower_eq_self fun c hc ↦ Text.toLower_of_isLower (hall c hc)

theorem not_undetermined (h : LanguageForm s) : ¬ Undetermined s.toList := by
  intro hu
  have hund : s = "und" := by
    rw [← h.lower_eq, Text.lower, hu]
  rcases h with rfl | ⟨-, -, -, hne⟩
  · exact absurd hund (by decide)
  · exact hne hund

theorem languagePart (h : LanguageForm s) : LanguagePart s.toList := by
  rcases h with rfl | ⟨hlow, hhigh, hall, -⟩
  · exact .inl (.inl rfl)
  · exact .inr ⟨hlow, hhigh, fun c hc ↦ Text.isAlpha_of_isLower (hall c hc)⟩

end LanguageForm

namespace CountryForm

variable {s : String}

theorem upper_eq (h : CountryForm s) : Text.upper s = s := by
  rcases h with rfl | ⟨-, hall⟩ | ⟨-, hall⟩
  · rfl
  · exact Text.upper_eq_self fun c hc ↦ Text.toUpper_of_isUpper (hall c hc)
  · exact Text.upper_eq_self fun c hc ↦ Text.toUpper_of_isDigit (hall c hc)

theorem countryPart (h : CountryForm s) : CountryPart s.toList := by
  rcases h with rfl | ⟨htwo, hall⟩ | hthree
  · exact .inl rfl
  · exact .inr (.inl ⟨htwo, fun c hc ↦ Text.isAlpha_of_isUpper (hall c hc)⟩)
  · exact .inr (.inr hthree)

end CountryForm

namespace Names

variable {language : String}

theorem alphanum (h : Names L language) (hform : LanguageForm language) :
    ∀ c ∈ L, c.isAlphanum = true := by
  rcases h with rfl | ⟨-, rfl⟩
  · exact hform.alphanum
  · exact List.all_eq_true.1 rfl

theorem languagePart (h : Names L language) (hform : LanguageForm language) : LanguagePart L := by
  rcases h with rfl | ⟨-, rfl⟩
  · exact hform.languagePart
  · exact .inl (.inr rfl)

theorem language_spelled (h : Names L language) (hform : LanguageForm language) :
    (spelled L C V).language = language := by
  rcases h with rfl | ⟨rfl, rfl⟩
  · rw [spelled, if_neg hform.not_undetermined, String.ofList_toList, hform.lower_eq]
  · rfl

end Names

theorem WellFormed.spelled_eq (h : l.WellFormed) (hL : Names L l.language)
    (hV : Text.Trimmed l.variant.toList) : spelled L l.country.toList l.variant.toList = l := by
  have hcountry : Text.upper (String.ofList l.country.toList) = l.country := by
    rw [String.ofList_toList, h.country.upper_eq]
  have hvariant : Text.trim (String.ofList l.variant.toList) = l.variant := by
    rw [String.ofList_toList, Text.trim, hV.trimList_eq, String.ofList_toList]
  have hlanguage := hL.language_spelled (C := l.country.toList) (V := l.variant.toList) h.language
  obtain ⟨language, country, variant⟩ := l
  rw [spelled, Locale.mk.injEq]
  exact ⟨hlanguage, hcountry, hvariant⟩

theorem WellFormed.accepted (h : l.WellFormed) (hL : Names L l.language) :
    Accepted L l.country.toList where
  language := hL.languagePart h.language
  country := h.country.countryPart
  named := by
    rintro ⟨hnil, hnone⟩
    refine h.named ⟨?_, String.toList_eq_nil_iff.1 hnil⟩
    rw [← hL.language_spelled (C := []) (V := []) h.language]
    exact language_spelled_eq_empty.2 hnone

theorem not_blank_of_isSeparator {s : Char} (h : isSeparator s = true) : Text.isBlank s = false := by
  rw [isSeparator, Bool.or_eq_true, beq_iff_eq, beq_iff_eq] at h
  rcases h with rfl | rfl <;> decide

theorem unbroken_of_alphanum (h : ∀ c ∈ cs, c.isAlphanum = true) : Unbroken cs :=
  fun c hc ↦ Text.forall_alphanum (P := fun c ↦ isSeparator c = false) (by decide) (h c hc)

theorem Written.trimmed (hw : Written cs L C V) (hL : Text.Trimmed L) (hC : Text.Trimmed C)
    (hV : Text.Trimmed V) : Text.Trimmed cs := by
  cases hw with
  | language => exact hL
  | country _ hs _ => exact hL.join (not_blank_of_isSeparator hs) hC
  | variant _ hs _ ht =>
    exact hL.join (not_blank_of_isSeparator hs) (hC.join (not_blank_of_isSeparator ht) hV)

theorem Written.trim_eq (hw : Written text.toList L C V) (hL : Text.Trimmed L) (hC : Text.Trimmed C)
    (hV : Text.Trimmed V) : Text.trim text = text := by
  rw [Text.trim, (hw.trimmed hL hC hV).trimList_eq, String.ofList_toList]

theorem WellFormed.parse_of_written (h : l.WellFormed) (hV : Text.Trimmed l.variant.toList)
    (hL : Names L l.language) (hw : Written text.toList L l.country.toList l.variant.toList) :
    parse text = .ok l := by
  have htrim : Text.trim text = text :=
    hw.trim_eq (Text.trimmed_of_alphanum (hL.alphanum h.language))
      (Text.trimmed_of_alphanum h.country.countryPart.alphanum) hV
  rw [← htrim] at hw
  rw [hw.parse_of_accepted (h.accepted hL), h.spelled_eq hL hV]

theorem written_shown (hL : Unbroken l.language.toList) (hC : Unbroken l.country.toList)
    (hnamed : ¬ (l.language = "" ∧ l.country = "")) :
    Written l.shown.toList l.language.toList l.country.toList l.variant.toList := by
  have hshown : ¬ (l.language.isEmpty && l.country.isEmpty) = true := by
    simpa using hnamed
  rw [shown, if_neg hshown]
  by_cases hv : l.variant = ""
  · by_cases hc : l.country = ""
    · simpa [hv, hc] using Written.language hL
    · simpa [hv, hc, String.toList_append] using Written.country (s := '_') hL rfl hC
  · simpa [hv, String.toList_append] using
      Written.variant (s := '_') (t := '_') (V := l.variant.toList) hL rfl hC rfl

theorem WellFormed.parse_shown (h : l.WellFormed) (hV : Text.Trimmed l.variant.toList) :
    parse (toString l) = .ok l :=
  h.parse_of_written hV (.inl rfl) (written_shown (unbroken_of_alphanum h.language.alphanum)
    (unbroken_of_alphanum h.country.countryPart.alphanum) h.named)

def tagName (l : Locale) : String := if l.language.isEmpty then "und" else l.language

theorem names_tagName (l : Locale) : Names l.tagName.toList l.language := by
  rw [tagName]
  by_cases hlanguage : l.language = ""
  · rw [hlanguage]
    exact .inr ⟨rfl, rfl⟩
  · rw [if_neg (by rwa [String.isEmpty_iff])]
    exact .inl rfl

/-- Where there is no country, a variant would be written in its place. -/
theorem WellFormed.written_languageTag (h : l.WellFormed) (hplace : l.country ≠ "" ∨ l.variant = "") :
    Written l.languageTag.toList l.tagName.toList l.country.toList l.variant.toList := by
  have hL := unbroken_of_alphanum ((names_tagName l).alphanum h.language)
  have hC := unbroken_of_alphanum h.country.countryPart.alphanum
  rw [languageTag, ← tagName]
  by_cases hv : l.variant = ""
  · by_cases hc : l.country = ""
    · simpa [hv, hc] using Written.language hL
    · simpa [hv, hc, String.toList_append] using Written.country (s := '-') hL rfl hC
  · have hc := hplace.resolve_right hv
    simpa [hv, hc, String.toList_append] using
      Written.variant (s := '-') (t := '-') (V := l.variant.toList) hL rfl hC rfl

theorem WellFormed.parse_languageTag_ne (h : l.WellFormed) (hV : Text.Trimmed l.variant.toList)
    (hc : l.country = "") (hv : l.variant ≠ "") : parse l.languageTag ≠ .ok l := by
  intro hok
  have hletters := (names_tagName l).alphanum h.language
  have htag : l.languageTag.toList = l.tagName.toList ++ '-' :: l.variant.toList := by
    simp [languageTag, tagName, hc, hv, String.toList_append]
  have htrim : (Text.trim l.languageTag).toList = l.languageTag.toList := by
    rw [Text.toList_trim, htag,
      ((Text.trimmed_of_alphanum hletters).join (by decide) hV).trimList_eq]
  obtain ⟨L, C, V, hw, -, hl⟩ := parse_eq_ok_iff.1 hok
  obtain ⟨-, hC, hrest⟩ := hw.parts_eq
  rw [htrim, htag, rest_append (unbroken_of_alphanum hletters) rfl] at hC hrest
  -- the country that is read is empty, so the variant starts with a separator, and what is read as
  -- the variant is shorter than the variant
  have hnil : C = [] := country_spelled_eq_empty.1 (hl ▸ hc)
  have hvariant : l.variant.toList = Text.trimList V := by
    rw [hl, spelled, Text.toList_trim, String.toList_ofList]
  rcases part_split l.variant.toList with ⟨hpart, -⟩ | ⟨s, -, hsplit⟩
  · rw [hC, hnil] at hpart
    exact hv (String.toList_eq_nil_iff.1 hpart.symm)
  · have hlen := congrArg List.length hsplit
    have hle := Text.length_trimList_le V
    rw [hC, hnil, hrest, List.nil_append, List.length_cons] at hlen
    rw [← hvariant] at hle
    omega

theorem WellFormed.parse_languageTag_iff (h : l.WellFormed) (hV : Text.Trimmed l.variant.toList) :
    parse l.languageTag = .ok l ↔ l.country ≠ "" ∨ l.variant = "" := by
  constructor
  · intro hok
    by_cases hc : l.country = ""
    · exact .inr (Classical.not_not.1 fun hv ↦ h.parse_languageTag_ne hV hc hv hok)
    · exact .inl hc
  · intro hplace
    exact h.parse_of_written hV (names_tagName l) (h.written_languageTag hplace)

/-- Of the locales made from any texts, those in form are the ones whose shown text reads back, and they
are all that is ever read; so whatever is read is shown as a text that reads back. -/
theorem reads_back_iff_wellFormed :
    (∀ language country variant, let l := ofParts language country variant
      parse (toString l) = .ok l ↔ l.WellFormed) ∧
    (∀ l, (∃ text, parse text = .ok l) ↔
      (∃ language country variant, l = ofParts language country variant) ∧ l.WellFormed) ∧
    (∀ text l, parse text = .ok l → parse (toString l) = .ok l) := by
  refine ⟨?_, ?_, ?_⟩
  · intro language country variant l
    have hbuilt : Built l := ⟨language, country, variant, rfl⟩
    exact ⟨wellFormed_of_parse, fun h ↦ h.parse_shown hbuilt.trimmed_variant⟩
  · intro l
    constructor
    · rintro ⟨text, hok⟩
      exact ⟨built_of_parse hok, wellFormed_of_parse hok⟩
    · rintro ⟨hbuilt, h⟩
      exact ⟨toString l, h.parse_shown (Built.trimmed_variant hbuilt)⟩
  · intro text l hok
    exact (wellFormed_of_parse hok).parse_shown (built_of_parse hok).trimmed_variant

theorem reads_back_iff_wellFormed_variant :
    let l : Locale := ⟨"de", "", "x-ü _y"⟩
    parse " DE__x-ü _y\u00a0" = .ok l ∧ parse (toString l) = .ok l :=
  have h : parse " DE__x-ü _y\u00a0" = .ok ⟨"de", "", "x-ü _y"⟩ := rfl
  ⟨h, reads_back_iff_wellFormed.2.2 _ _ h⟩

/-- The language tag of a locale that was read reads back as the locale unless there is a variant and no
country; so a locale without a language, which has a country, always reads back from its tag. -/
theorem languageTag_reads_back_iff (h : parse text = .ok l) :
    (parse l.languageTag = .ok l ↔ l.country ≠ "" ∨ l.variant = "") ∧
    (l.language = "" → (∃ r, l.languageTag = "und" ++ r) ∧ parse l.languageTag = .ok l) := by
  have hform := wellFormed_of_parse h
  have hV := (built_of_parse h).trimmed_variant
  refine ⟨hform.parse_languageTag_iff hV, ?_⟩
  intro hlanguage
  have hc : l.country ≠ "" := fun hc ↦ hform.named ⟨hlanguage, hc⟩
  refine ⟨?_, (hform.parse_languageTag_iff hV).2 (.inl hc)⟩
  rw [languageTag, if_pos (by rw [hlanguage]; rfl), String.append_assoc]
  exact ⟨_, rfl⟩

theorem languageTag_reads_back_iff_undetermined :
    let l : Locale := ⟨"", "AT", "x-y"⟩
    parse "_at_x-y" = .ok l ∧
    (parse l.languageTag = .ok l ↔ l.country ≠ "" ∨ l.variant = "") ∧
    (l.language = "" → (∃ r, l.languageTag = "und" ++ r) ∧ parse l.languageTag = .ok l) :=
  have h : parse "_at_x-y" = .ok ⟨"", "AT", "x-y"⟩ := rfl
  ⟨h, languageTag_reads_back_iff h⟩

/-- A variant in the place of a country is read as one. -/
example : parse (languageTag ⟨"de", "", "at"⟩) = .ok ⟨"de", "AT", ""⟩ := rfl

end Holdall.Locale
