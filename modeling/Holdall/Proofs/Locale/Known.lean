import Holdall.Proofs.Locale.RoundTrip

namespace Holdall.Locale

variable {l : Locale}

theorem languageForm_of_name? {code : String} (h : (Language.name? code).isSome = true) :
    LanguageForm code := by
  have hcodes : Language.table.toList.all
      (fun x ↦ x.code.length == 2 && x.code.toList.all Char.isLower) = true := by decide +kernel
  obtain ⟨x, hx⟩ := Option.isSome_iff_exists.1 (Option.isSome_map.symm.trans h)
  obtain ⟨hin, heq⟩ := Sequence.mem_of_search? hx
  have hcode := List.all_eq_true.1 hcodes x hin.val
  rw [Std.LawfulEqOrd.eq_of_compare heq, Bool.and_eq_true, beq_iff_eq, List.all_eq_true] at hcode
  refine .inr ⟨by omega, by omega, hcode.2, ?_⟩
  rintro rfl
  exact absurd hcode.1 (by decide)

theorem countryForm_of_byAlpha2? {code : String} (h : (Country.byAlpha2? code).isSome = true) :
    CountryForm code := by
  have hcodes : Country.table.toList.all
      (fun x ↦ x.alpha2.length == 2 && x.alpha2.toList.all Char.isUpper) = true := by decide +kernel
  obtain ⟨x, hx⟩ := Option.isSome_iff_exists.1 h
  obtain ⟨hin, heq⟩ := Sequence.mem_of_search? hx
  have hcode := List.all_eq_true.1 hcodes x hin.val
  rw [Std.LawfulEqOrd.eq_of_compare heq, Bool.and_eq_true, beq_iff_eq, List.all_eq_true] at hcode
  exact .inr (.inl hcode)

def Numbered (l : Locale) : Prop := (Number.readUInt16? l.country).isSome = true

theorem isKnown_iff : l.isKnown = true ↔
    (l.language = "" ∨ l.languageName?.isSome = true) ∧
      (l.country = "" ∨ l.countryRecord?.isSome = true) ∧ ¬ (l.language = "" ∧ l.country = "") := by
  simp only [isKnown, Bool.and_eq_true, Bool.or_eq_true, String.isEmpty_iff, Bool.not_eq_true',
    ← Bool.not_eq_true, and_assoc]

theorem languageForm_of_isKnown (h : l.isKnown = true) : LanguageForm l.language := by
  obtain ⟨hlanguage, -, -⟩ := isKnown_iff.1 h
  rcases hlanguage with hempty | hname
  · exact .inl hempty
  · exact languageForm_of_name? hname

theorem countryForm_of_isKnown (h : l.isKnown = true) (hdigits : l.Numbered → ThreeDigits l.country) :
    CountryForm l.country := by
  obtain ⟨-, hcountry, -⟩ := isKnown_iff.1 h
  rcases hcountry with hempty | hrecord
  · exact .inl hempty
  · rw [countryRecord?] at hrecord
    split at hrecord
    · rename_i n hn
      exact .inr (.inr (hdigits (Option.isSome_iff_exists.2 ⟨n, hn⟩)))
    · exact countryForm_of_byAlpha2? hrecord

namespace Numbered

theorem country_ne (h : l.Numbered) : l.country ≠ "" := by
  intro hempty
  rw [Numbered, hempty] at h
  exact absurd h (by decide)

theorem plus_or_digit (h : l.Numbered) : ∀ c ∈ l.country.toList, c = '+' ∨ c.isDigit = true := by
  obtain ⟨ds, hcountry, -, hall⟩ := Number.digits_of_readUInt16? h
  intro c hc
  rcases hcountry with heq | heq
  · exact .inr (hall c (heq ▸ hc))
  · rw [heq, List.mem_cons] at hc
    exact hc.imp id (hall c)

theorem trimmed (h : l.Numbered) : Text.Trimmed l.country.toList := by
  refine .of_forall ?_
  intro c hc
  rcases h.plus_or_digit c hc with rfl | hdigit
  · rfl
  · exact Text.not_blank_of_isAlphanum (by rw [Char.isAlphanum, hdigit, Bool.or_true])

theorem unbroken (h : l.Numbered) : Unbroken l.country.toList := by
  intro c hc
  rcases h.plus_or_digit c hc with rfl | hdigit
  · rfl
  · exact Text.sameClass_digit.forall_char (P := fun c ↦ isSeparator c = false) (by decide) hdigit

theorem countryPart_iff (h : l.Numbered) : CountryPart l.country.toList ↔ ThreeDigits l.country := by
  constructor
  · rintro (hnil | ⟨htwo, halpha⟩ | hthree)
    · exact absurd (String.toList_eq_nil_iff.1 hnil) h.country_ne
    · obtain ⟨ds, hcountry, hne, hall⟩ := Number.digits_of_readUInt16? h
      obtain ⟨d, hd⟩ := List.exists_mem_of_ne_nil ds hne
      have hin : d ∈ l.country.toList := by
        rcases hcountry with heq | heq
        · rwa [heq]
        · rw [heq]
          exact List.mem_cons_of_mem _ hd
      have hletter : d.isAlpha = false :=
        Text.sameClass_digit.forall_char (P := fun c ↦ c.isAlpha = false) (by decide) (hall d hd)
      rw [halpha d hin] at hletter
      exact absurd hletter (by decide)
    · exact hthree
  · intro hthree
    exact .inr (.inr hthree)

end Numbered

theorem parse_shown_of_numbered (hlanguage : LanguageForm l.language)
    (hV : Text.Trimmed l.variant.toList) (hn : l.Numbered) (hdigits : ¬ ThreeDigits l.country) :
    parse (toString l) = .error (.badCountry (toString l)) := by
  have hL := hlanguage.alphanum
  have hw : Written (toString l).toList l.language.toList l.country.toList l.variant.toList :=
    written_shown (unbroken_of_alphanum hL) hn.unbroken fun hnone ↦ hn.country_ne hnone.2
  have htrim : Text.trim (toString l) = toString l :=
    hw.trim_eq (Text.trimmed_of_alphanum hL) hn.trimmed hV
  have htag : toString l ≠ "" := by
    intro hempty
    rw [hempty] at hw
    exact hn.country_ne (String.toList_eq_nil_iff.1 hw.parts_eq.2.1.symm)
  have hrefused : Refused (Text.trim (toString l)) l.language.toList l.country.toList
      (.badCountry (toString l)) := by
    rw [htrim]
    exact .country htag hlanguage.languagePart (by rwa [hn.countryPart_iff])
  exact Written.parse_of_refused (by rwa [htrim]) hrefused

/-- A known locale reads back from its shown text exactly when its country is no number or is written
with three digits. Any other number is refused. -/
theorem isKnown_reads_back_iff (language country variant : String)
    (h : (ofParts language country variant).isKnown = true) :
    let l := ofParts language country variant
    (parse (toString l) = .ok l ↔ (l.Numbered → ThreeDigits l.country)) ∧
    (parse (toString l) = .error (.badCountry (toString l)) ↔
      l.Numbered ∧ ¬ ThreeDigits l.country) := by
  intro l
  have hV : Text.Trimmed l.variant.toList := Built.trimmed_variant ⟨language, country, variant, rfl⟩
  have hlanguage : LanguageForm l.language := languageForm_of_isKnown h
  by_cases hdigits : l.Numbered → ThreeDigits l.country
  · have hform : l.WellFormed := ⟨hlanguage, countryForm_of_isKnown h hdigits, (isKnown_iff.1 h).2.2⟩
    rw [hform.parse_shown hV]
    refine ⟨iff_of_true rfl hdigits, iff_of_false nofun ?_⟩
    rintro ⟨hn, hnot⟩
    exact hnot (hdigits hn)
  · obtain ⟨hn, hnot⟩ : l.Numbered ∧ ¬ ThreeDigits l.country := by
      simpa using hdigits
    rw [parse_shown_of_numbered hlanguage hV hn hnot]
    exact ⟨iff_of_false nofun hdigits, iff_of_true rfl ⟨hn, hnot⟩⟩

theorem isKnown_reads_back_iff_digits :
    (ofParts "DE" "276" " POSIX").isKnown = true ∧
    let l := ofParts "DE" "276" " POSIX"
    (parse (toString l) = .ok l ↔ (l.Numbered → ThreeDigits l.country)) ∧
    (parse (toString l) = .error (.badCountry (toString l)) ↔
      l.Numbered ∧ ¬ ThreeDigits l.country) :=
  have h : (ofParts "DE" "276" " POSIX").isKnown = true := by decide +kernel
  ⟨h, isKnown_reads_back_iff "DE" "276" " POSIX" h⟩

/-- The number of a country with a plus sign before it is known, and its text is refused. -/
theorem isKnown_and_refused :
    (ofParts "de" "+276" "").isKnown = true ∧
    parse (toString (ofParts "de" "+276" "")) = .error (.badCountry "de_+276") ∧
    ¬ (∀ language country variant, (ofParts language country variant).isKnown = true →
      parse (toString (ofParts language country variant)) = .ok (ofParts language country variant)) := by
  have hknown : (ofParts "de" "+276" "").isKnown = true := by decide +kernel
  have hrefused : parse (toString (ofParts "de" "+276" "")) = .error (.badCountry "de_+276") := rfl
  refine ⟨hknown, hrefused, ?_⟩
  intro hall
  have hok := hall "de" "+276" "" hknown
  rw [hrefused] at hok
  exact absurd hok nofun

end Holdall.Locale
