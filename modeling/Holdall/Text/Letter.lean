import Holdall.Text.Blank
import Holdall.Text.Bytes

namespace Holdall.Text

def lower (s : String) : String := String.ofList (s.toList.map Char.toLower)

def upper (s : String) : String := String.ofList (s.toList.map Char.toUpper)

def sameLetters (s t : String) : Bool := lower s == lower t

theorem toList_lower (s : String) : (lower s).toList = s.toList.map Char.toLower := by simp [lower]

theorem toList_upper (s : String) : (upper s).toList = s.toList.map Char.toUpper := by simp [upper]

theorem lower_eq_self {s : String} (h : ∀ c ∈ s.toList, c.toLower = c) : lower s = s := by
  rw [lower, List.map_congr_left h, List.map_id', String.ofList_toList]

theorem upper_eq_self {s : String} (h : ∀ c ∈ s.toList, c.toUpper = c) : upper s = s := by
  rw [upper, List.map_congr_left h, List.map_id', String.ofList_toList]

theorem isAlpha_of_isLower {c : Char} (h : c.isLower = true) : c.isAlpha = true :=
  (congrArg (c.isUpper || ·) h).trans (Bool.or_true _)

theorem isAlpha_of_isUpper {c : Char} (h : c.isUpper = true) : c.isAlpha = true :=
  congrArg (· || c.isLower) h

theorem isLower_toLower {c : Char} (h : c.isAlpha = true) : c.toLower.isLower = true :=
  sameClass_letter.forall_char (P := fun c ↦ c.toLower.isLower = true) (by decide) h

theorem isUpper_toUpper {c : Char} (h : c.isAlpha = true) : c.toUpper.isUpper = true :=
  sameClass_letter.forall_char (P := fun c ↦ c.toUpper.isUpper = true) (by decide) h

theorem toLower_of_isLower {c : Char} (h : c.isLower = true) : c.toLower = c :=
  sameClass_letter.forall_char (P := fun c ↦ c.isLower = true → c.toLower = c) (by decide)
    (isAlpha_of_isLower h) h

theorem toUpper_of_isUpper {c : Char} (h : c.isUpper = true) : c.toUpper = c :=
  sameClass_letter.forall_char (P := fun c ↦ c.isUpper = true → c.toUpper = c) (by decide)
    (isAlpha_of_isUpper h) h

theorem toUpper_of_isDigit {c : Char} (h : c.isDigit = true) : c.toUpper = c :=
  sameClass_digit.forall_char (P := fun c ↦ c.toUpper = c) (by decide) h

theorem toUpper_of_not_isLower {c : Char} (h : c.isLower = false) : c.toUpper = c := by
  have hrange : ¬ ('a'.val ≤ c.val ∧ c.val ≤ 'z'.val) := by
    change (decide (c.val ≥ 'a'.val) && decide (c.val ≤ 'z'.val)) = false at h
    simpa using h
  exact dif_neg hrange

theorem toUpper_toUpper (c : Char) : c.toUpper.toUpper = c.toUpper := by
  cases h : c.isLower with
  | true => exact toUpper_of_isUpper (isUpper_toUpper (isAlpha_of_isLower h))
  | false => rw [toUpper_of_not_isLower h, toUpper_of_not_isLower h]

theorem upper_upper (s : String) : upper (upper s) = upper s := by
  have htwice : Char.toUpper ∘ Char.toUpper = Char.toUpper := funext toUpper_toUpper
  rw [upper, toList_upper, List.map_map, htwice, upper]

theorem forall_alphanum {P : Char → Prop}
    (hP : ∀ n < 128, (Char.ofNat n).isAlphanum = true → P (Char.ofNat n)) {c : Char}
    (hc : c.isAlphanum = true) : P c := by
  rw [Char.isAlphanum, Bool.or_eq_true] at hc
  rcases hc with hc | hc
  · exact sameClass_letter.forall_char
      (fun n hn h ↦ hP n hn (by rw [Char.isAlphanum, h, Bool.true_or])) hc
  · exact sameClass_digit.forall_char
      (fun n hn h ↦ hP n hn (by rw [Char.isAlphanum, h, Bool.or_true])) hc

theorem not_blank_of_isAlphanum {c : Char} (h : c.isAlphanum = true) : isBlank c = false :=
  forall_alphanum (P := fun c ↦ isBlank c = false) (by decide) h

theorem isBlank_toUpper (c : Char) : isBlank c.toUpper = isBlank c := by
  cases h : c.isLower with
  | true =>
    have halpha := isAlpha_of_isLower h
    have hupper := isAlpha_of_isUpper (isUpper_toUpper halpha)
    rw [not_blank_of_isAlphanum (by rw [Char.isAlphanum, hupper, Bool.true_or]),
      not_blank_of_isAlphanum (by rw [Char.isAlphanum, halpha, Bool.true_or])]
  | false => rw [toUpper_of_not_isLower h]

theorem trim_upper (s : String) : trim (upper s) = upper (trim s) := by
  have hlist : trimList (upper s).toList = (trim s).toList.map Char.toUpper := by
    rw [toList_upper, trimList_map isBlank_toUpper, toList_trim]
  exact congrArg String.ofList hlist

theorem trimmed_of_alphanum {cs : List Char} (h : ∀ c ∈ cs, c.isAlphanum = true) : Trimmed cs :=
  .of_forall fun c hc ↦ not_blank_of_isAlphanum (h c hc)

end Holdall.Text
