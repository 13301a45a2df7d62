import Holdall.Locale.Tag

namespace Holdall.Locale

variable {cs L C V : List Char} {text tag : String} {l : Locale} {e : TagError}

def Unbroken (cs : List Char) : Prop := ∀ c ∈ cs, isSeparator c = false

/-- A tag is a language alone, with a country after a separator, or with a country and a variant. Only
the variant may have separators inside; a part that is left out is empty. -/
inductive Written : List Char → List Char → List Char → List Char → Prop
  | language {L : List Char} : Unbroken L → Written L L [] []
  | country {L C : List Char} {s : Char} :
      Unbroken L → isSeparator s → Unbroken C → Written (L ++ s :: C) L C []
  | variant {L C V : List Char} {s t : Char} :
      Unbroken L → isSeparator s → Unbroken C → isSeparator t → Written (L ++ s :: (C ++ t :: V)) L C V

def Undetermined (L : List Char) : Prop := L.map Char.toLower = ['u', 'n', 'd']

instance : DecidablePred Undetermined := fun _ ↦ inferInstanceAs (Decidable (_ = _))

def LanguageCode (L : List Char) : Prop := 2 ≤ L.length ∧ L.length ≤ 8 ∧ ∀ c ∈ L, c.isAlpha

def CountryCode (C : List Char) : Prop :=
  (C.length = 2 ∧ ∀ c ∈ C, c.isAlpha) ∨ (C.length = 3 ∧ ∀ c ∈ C, c.isDigit)

def Unnamed (L : List Char) : Prop := L = [] ∨ Undetermined L

def LanguagePart (L : List Char) : Prop := Unnamed L ∨ LanguageCode L

def CountryPart (C : List Char) : Prop := C = [] ∨ CountryCode C

structure Accepted (L C : List Char) : Prop where
  language : LanguagePart L
  country : CountryPart C
  named : ¬ (C = [] ∧ Unnamed L)

/-- The first fault of a tag, in the order in which they are looked for. -/
inductive Refused (tag : String) (L C : List Char) : TagError → Prop
  | empty : tag = "" → Refused tag L C .empty
  | language : tag ≠ "" → ¬ LanguagePart L → Refused tag L C (.badLanguage tag)
  | country : tag ≠ "" → LanguagePart L → ¬ CountryPart C → Refused tag L C (.badCountry tag)
  | unnamed : tag ≠ "" → LanguagePart L → CountryPart C → C = [] → Unnamed L →
      Refused tag L C (.noPart tag)

def spelled (L C V : List Char) : Locale where
  language := if Undetermined L then "" else Text.lower (String.ofList L)
  country := Text.upper (String.ofList C)
  variant := Text.trim (String.ofList V)

theorem part_append (hcs : Unbroken cs) {s : Char} (hs : isSeparator s) (r : List Char) :
    part (cs ++ s :: r) = cs := by
  have hall : ∀ c ∈ cs, (!isSeparator c) = true := by simpa [Unbroken] using hcs
  rw [part, List.takeWhile_append_of_pos hall, List.takeWhile_cons_of_neg (by simp [hs]),
    List.append_nil]

theorem rest_append (hcs : Unbroken cs) {s : Char} (hs : isSeparator s) (r : List Char) :
    rest (cs ++ s :: r) = r := by
  have hall : ∀ c ∈ cs, (!isSeparator c) = true := by simpa [Unbroken] using hcs
  rw [rest, List.dropWhile_append_of_pos hall, List.dropWhile_cons_of_neg (by simp [hs])]
  rfl

theorem unbroken_part (cs : List Char) : Unbroken (part cs) := by
  intro c hc
  simpa using List.all_eq_true.1 List.all_takeWhile c hc

theorem part_split (cs : List Char) :
    (part cs = cs ∧ rest cs = []) ∨ ∃ s, isSeparator s ∧ cs = part cs ++ s :: rest cs := by
  have hsplit : part cs ++ cs.dropWhile (!isSeparator ·) = cs := List.takeWhile_append_dropWhile
  cases hrest : cs.dropWhile (!isSeparator ·) with
  | nil =>
    rw [hrest, List.append_nil] at hsplit
    exact .inl ⟨hsplit, by rw [rest, hrest]; rfl⟩
  | cons s r =>
    have hs := List.head?_dropWhile_not (!isSeparator ·) cs
    rw [hrest] at hs hsplit
    refine .inr ⟨s, by simpa using hs, ?_⟩
    rw [rest, hrest]
    exact hsplit.symm

theorem written_parts (cs : List Char) : Written cs (part cs) (part (rest cs)) (rest (rest cs)) := by
  rcases part_split cs with ⟨hpart, hrest⟩ | ⟨s, hs, hsplit⟩
  · have hcs := unbroken_part cs
    rw [hpart] at hcs
    rw [hpart, hrest]
    exact .language hcs
  · rcases part_split (rest cs) with ⟨hpart, hrest⟩ | ⟨t, ht, hsplit'⟩
    · have hC := unbroken_part (rest cs)
      rw [hpart] at hC
      have hw := Written.country (unbroken_part cs) hs hC
      rwa [← hsplit, ← hpart, ← hrest] at hw
    · have hw := Written.variant (V := rest (rest cs)) (unbroken_part cs) hs
        (unbroken_part (rest cs)) ht
      rwa [← hsplit', ← hsplit] at hw

theorem Written.parts_eq (h : Written cs L C V) :
    part cs = L ∧ part (rest cs) = C ∧ rest (rest cs) = V := by
  have whole : ∀ {u : List Char}, Unbroken u → part u = u ∧ rest u = [] := by
    intro u hu
    rcases part_split u with hsplit | ⟨s, hs, hsplit⟩
    · exact hsplit
    · have hin : s ∈ u := by
        rw [hsplit]
        simp
      exact absurd hs (by simp [hu s hin])
  cases h with
  | language hL => exact ⟨(whole hL).1, by rw [(whole hL).2]; exact ⟨rfl, rfl⟩⟩
  | country hL hs hC =>
    rw [part_append hL hs, rest_append hL hs]
    exact ⟨rfl, whole hC⟩
  | variant hL hs hC ht =>
    rw [part_append hL hs, rest_append hL hs, part_append hC ht, rest_append hC ht]
    exact ⟨rfl, rfl, rfl⟩

theorem isUndetermined_iff : isUndetermined L = true ↔ Undetermined L := by
  simp [isUndetermined, Undetermined]

theorem isLanguage_iff : isLanguage L = true ↔ LanguageCode L := by
  have hsized := Text.sameClass_letter.sized (fun n ↦ 2 ≤ n && n ≤ 8) L
  rw [isLanguage, hsized]
  simp [LanguageCode, and_assoc]

theorem isCountry_iff : isCountry C = true ↔ CountryCode C := by
  rw [isCountry, Text.sameClass_letter.sized (· == 2), Text.sameClass_digit.sized (· == 3)]
  simp [CountryCode]

theorem isEmpty_determined : (determined L).isEmpty = true ↔ Unnamed L := by
  rw [determined, Unnamed]
  by_cases hu : Undetermined L
  · simp [hu, isUndetermined_iff.2 hu]
  · simp [hu, isUndetermined_iff]

theorem badLanguage_iff :
    (!(determined L).isEmpty && !isLanguage (determined L)) = true ↔ ¬ LanguagePart L := by
  by_cases hn : Unnamed L
  · simp [LanguagePart, hn, isEmpty_determined.2 hn]
  · have hu : ¬ Undetermined L := fun hu ↦ hn (.inr hu)
    have hL : determined L = L := if_neg (by rwa [isUndetermined_iff])
    have hne : L ≠ [] := fun hnil ↦ hn (.inl hnil)
    rw [hL, LanguagePart, or_iff_right hn, ← isLanguage_iff]
    simp [hne]

theorem badCountry_iff : (!C.isEmpty && !isCountry C) = true ↔ ¬ CountryPart C := by
  rw [CountryPart, ← isCountry_iff]
  simp

theorem noPart_iff : ((determined L).isEmpty && C.isEmpty) = true ↔ C = [] ∧ Unnamed L := by
  rw [Bool.and_eq_true, isEmpty_determined, List.isEmpty_iff, and_comm]

theorem accepted_or_refused (tag : String) (L C : List Char) :
    Accepted L C ∨ ∃ e, Refused tag L C e := by
  by_cases htag : tag = ""
  · exact .inr ⟨_, .empty htag⟩
  by_cases hL : LanguagePart L
  · by_cases hC : CountryPart C
    · by_cases hnone : C = [] ∧ Unnamed L
      · exact .inr ⟨_, .unnamed htag hL hC hnone.1 hnone.2⟩
      · exact .inl ⟨hL, hC, hnone⟩
    · exact .inr ⟨_, .country htag hL hC⟩
  · exact .inr ⟨_, .language htag hL⟩

theorem Written.parse_of_refused (hw : Written (Text.trim text).toList L C V)
    (h : Refused (Text.trim text) L C e) : parse text = .error e := by
  obtain ⟨rfl, rfl, -⟩ := hw.parts_eq
  have not_isEmpty_of_ne : ∀ {s : String}, s ≠ "" → ¬ s.isEmpty = true := by
    intro s hs
    rwa [String.isEmpty_iff]
  cases h with
  | empty htag => simp [parse, htag]
  | language htag hL => rw [parse, if_neg (not_isEmpty_of_ne htag), if_pos (badLanguage_iff.2 hL)]
  | country htag hL hC =>
    rw [parse, if_neg (not_isEmpty_of_ne htag), if_neg fun hbad ↦ badLanguage_iff.1 hbad hL,
      if_pos (badCountry_iff.2 hC)]
  | unnamed htag hL hC hnil hnone =>
    rw [parse, if_neg (not_isEmpty_of_ne htag), if_neg fun hbad ↦ badLanguage_iff.1 hbad hL,
      if_neg fun hbad ↦ badCountry_iff.1 hbad hC, if_pos (noPart_iff.2 ⟨hnil, hnone⟩)]

theorem LanguageCode.alphanum (h : LanguageCode L) : ∀ c ∈ L, c.isAlphanum = true := by
  intro c hc
  rw [Char.isAlphanum, h.2.2 c hc, Bool.true_or]

theorem CountryPart.alphanum (h : CountryPart C) : ∀ c ∈ C, c.isAlphanum = true := by
  intro c hc
  rw [Char.isAlphanum]
  rcases h with rfl | ⟨-, hall⟩ | ⟨-, hall⟩
  · exact absurd hc List.not_mem_nil
  · rw [hall c hc, Bool.true_or]
  · rw [hall c hc, Bool.or_true]

theorem ofParts_determined (hL : LanguagePart L) (hC : CountryPart C) :
    ofParts (String.ofList (determined L)) (String.ofList C) (String.ofList V) = spelled L C V := by
  have htrim : ∀ {cs : List Char}, Text.Trimmed cs → Text.trim (String.ofList cs) = String.ofList cs := by
    intro cs hcs
    rw [Text.trim, String.toList_ofList, hcs.trimList_eq]
  have hlanguage : Text.lower (Text.trim (String.ofList (determined L))) =
      if Undetermined L then "" else Text.lower (String.ofList L) := by
    by_cases hu : Undetermined L
    · rw [determined, if_pos (isUndetermined_iff.2 hu), if_pos hu]
      rfl
    · have halphanum : ∀ c ∈ L, c.isAlphanum = true := by
        rcases hL with (rfl | hu') | hcode
        · exact nofun
        · exact absurd hu' hu
        · exact hcode.alphanum
      rw [determined, if_neg (by rwa [isUndetermined_iff]), if_neg hu,
        htrim (Text.trimmed_of_alphanum halphanum)]
  rw [ofParts, spelled, hlanguage, htrim (Text.trimmed_of_alphanum hC.alphanum)]

theorem Written.parse_of_accepted (hw : Written (Text.trim text).toList L C V) (h : Accepted L C) :
    parse text = .ok (spelled L C V) := by
  obtain ⟨rfl, rfl, rfl⟩ := hw.parts_eq
  have htag : ¬ (Text.trim text).isEmpty = true := by
    intro hempty
    rw [String.isEmpty_iff] at hempty
    refine h.named ?_
    rw [hempty]
    exact ⟨rfl, .inl rfl⟩
  rw [parse, if_neg htag, if_neg fun hbad ↦ badLanguage_iff.1 hbad h.language,
    if_neg fun hbad ↦ badCountry_iff.1 hbad h.country,
    if_neg fun hbad ↦ h.named (noPart_iff.1 hbad), ofParts_determined h.language h.country]

theorem parse_eq_ok_iff : parse text = .ok l ↔
    ∃ L C V, Written (Text.trim text).toList L C V ∧ Accepted L C ∧ l = spelled L C V := by
  have hw := written_parts (Text.trim text).toList
  constructor
  · intro hok
    rcases accepted_or_refused (Text.trim text) _ _ with hacc | ⟨e, href⟩
    · rw [hw.parse_of_accepted hacc] at hok
      exact ⟨_, _, _, hw, hacc, (Except.ok.inj hok).symm⟩
    · rw [hw.parse_of_refused href] at hok
      exact absurd hok nofun
  · rintro ⟨L, C, V, hw, hacc, rfl⟩
    exact hw.parse_of_accepted hacc

theorem parse_eq_error_iff : parse text = .error e ↔
    ∃ L C V, Written (Text.trim text).toList L C V ∧ Refused (Text.trim text) L C e := by
  have hw := written_parts (Text.trim text).toList
  constructor
  · intro herror
    rcases accepted_or_refused (Text.trim text) _ _ with hacc | ⟨e', href⟩
    · rw [hw.parse_of_accepted hacc] at herror
      exact absurd herror nofun
    · rw [hw.parse_of_refused href] at herror
      rw [← Except.error.inj herror]
      exact ⟨_, _, _, hw, href⟩
  · rintro ⟨L, C, V, hw, href⟩
    exact hw.parse_of_refused href

/-- A text is read if its tag is written with parts that are accepted, and it is read as what these
spell. Otherwise it is refused for the first fault of its parts. -/
theorem parse_iff_written (text : String) :
    (∀ l, parse text = .ok l ↔
      ∃ L C V, Written (Text.trim text).toList L C V ∧ Accepted L C ∧ l = spelled L C V) ∧
    (∀ e, parse text = .error e ↔
      ∃ L C V, Written (Text.trim text).toList L C V ∧ Refused (Text.trim text) L C e) :=
  ⟨fun _ ↦ parse_eq_ok_iff, fun _ ↦ parse_eq_error_iff⟩

/-- The one letter of this language has two bytes. -/
example : parse "é_AT" = .error (.badLanguage "é_AT") := rfl

end Holdall.Locale
