import Holdall.Attribute.Value
import Mathlib.Data.Int.Notation
import Mathlib.Data.List.Basic
import Mathlib.Data.List.Induction

namespace Holdall

namespace Number

variable {cs : List Char} {c : Char} {n : ℕ} {z : ℤ} {s : String}

/-- Digits, the most significant first, and their value. -/
inductive Digits : List Char → ℕ → Prop
  | single {d : ℕ} : d < 10 → Digits [digit d] d
  | next {cs : List Char} {n d : ℕ} : Digits cs n → d < 10 → Digits (cs ++ [digit d]) (10 * n + d)

inductive Numeral : List Char → ℤ → Prop
  | bare {cs : List Char} {n : ℕ} : Digits cs n → Numeral cs n
  | plus {cs : List Char} {n : ℕ} : Digits cs n → Numeral ('+' :: cs) n
  | minus {cs : List Char} {n : ℕ} : Digits cs n → Numeral ('-' :: cs) (-n)

theorem exists_digit (h : c.isDigit = true) : ∃ d < 10, digit d = c := by
  simp only [Char.isDigit, ge_iff_le, Bool.and_eq_true, decide_eq_true_eq,
    UInt32.le_iff_toNat_le] at h
  have hlow : 48 ≤ c.toNat := h.1
  have hhigh : c.toNat ≤ 57 := h.2
  refine ⟨c.toNat - 48, by omega, ?_⟩
  rw [digit, Nat.add_sub_cancel' hlow, Char.ofNat_toNat]

theorem Digits.valueOf_eq (h : Digits cs n) : valueOf cs = n := by
  induction h with
  | single hd => simp [valueOf, digitValue_digit hd]
  | next _ hd ih => rw [valueOf_concat, ih, digitValue_digit hd]

theorem Digits.isDigit (h : Digits cs n) : ∀ c ∈ cs, c.isDigit = true := by
  induction h with
  | single hd => simpa using digit_isDigit hd
  | next _ hd ih =>
    intro c hc
    rcases List.mem_append.1 hc with hc | hc
    · exact ih c hc
    · rw [List.mem_singleton.1 hc]
      exact digit_isDigit hd

theorem Digits.not_blank (h : Digits cs n) : ∀ c ∈ cs, Text.isBlank c = false := by
  intro c hc
  refine Text.not_blank_of_isAlphanum ?_
  rw [Char.isAlphanum, h.isDigit c hc, Bool.or_true]

theorem Digits.ne_nil (h : Digits cs n) : cs ≠ [] := by
  cases h <;> simp

theorem digits_valueOf (hne : cs ≠ []) (hcs : ∀ c ∈ cs, c.isDigit = true) :
    Digits cs (valueOf cs) := by
  induction cs using List.reverseRecOn with
  | nil => exact absurd rfl hne
  | append_singleton cs c ih =>
    obtain ⟨d, hd, rfl⟩ := exists_digit (hcs c (by simp))
    rw [valueOf_concat, digitValue_digit hd]
    rcases cs.eq_nil_or_concat' with rfl | ⟨front, c', rfl⟩
    · simpa [valueOf] using Digits.single hd
    · exact .next (ih (by simp) fun c hc ↦ hcs c (List.mem_append_left _ hc)) hd

theorem readNat?_eq_some_iff : readNat? cs = some n ↔ Digits cs n := by
  constructor
  · intro h
    obtain ⟨hne, hcs⟩ := digits_of_readNat? h
    rw [readNat?, Option.ite_none_right_eq_some, Option.some.injEq] at h
    exact h.2 ▸ digits_valueOf hne hcs
  · intro h
    rw [readNat?, if_pos ⟨h.ne_nil, List.all_eq_true.2 h.isDigit⟩, h.valueOf_eq]

theorem readInt?_minus (cs : List Char) :
    readInt? ('-' :: cs) = (readNat? cs).map fun n : ℕ ↦ -(n : ℤ) := by
  rw [readInt?]
  cases readNat? cs <;> rfl

theorem readInt?_eq_some_iff : readInt? cs = some z ↔ Numeral cs z := by
  constructor
  · intro h
    unfold readInt? at h
    split at h
    next =>
      obtain ⟨n, hn, rfl⟩ := Option.map_eq_some_iff.1 h
      exact .plus (readNat?_eq_some_iff.1 hn)
    next cs =>
      obtain ⟨n, hn, rfl⟩ := Option.map_eq_some_iff.1 ((readInt?_minus cs).symm.trans h)
      exact .minus (readNat?_eq_some_iff.1 hn)
    next =>
      obtain ⟨n, hn, rfl⟩ := Option.map_eq_some_iff.1 h
      exact .bare (readNat?_eq_some_iff.1 hn)
  · intro h
    cases h with
    | bare h =>
      obtain ⟨c, cs, rfl⟩ := List.exists_cons_of_ne_nil h.ne_nil
      rw [readInt?_of_head (h.isDigit c List.mem_cons_self), readNat?_eq_some_iff.2 h]
      rfl
    | plus h => exact congrArg (Option.map Int.ofNat) (readNat?_eq_some_iff.2 h)
    | minus h =>
      rw [readInt?_minus, readNat?_eq_some_iff.2 h]
      rfl

theorem numeral_write (z : ℤ) : Numeral (write z) z := readInt?_eq_some_iff.1 (readInt?_write z)

theorem Numeral.unique {z' : ℤ} (h : Numeral cs z) (h' : Numeral cs z') : z = z' := by
  rw [← readInt?_eq_some_iff] at h h'
  exact Option.some.inj (h.symm.trans h')

theorem Numeral.not_blank (h : Numeral cs z) : ∀ c ∈ cs, Text.isBlank c = false := by
  cases h with
  | bare h => exact h.not_blank
  | plus h => exact List.forall_mem_cons.2 ⟨by decide, h.not_blank⟩
  | minus h => exact List.forall_mem_cons.2 ⟨by decide, h.not_blank⟩

theorem numeral_writeInt64 (n : Int64) : Numeral (writeInt64 n).toList n.toInt := by
  rw [writeInt64, String.toList_ofList]
  exact numeral_write n.toInt

/-- The numbers that 64 bits have room for. -/
def Fits (z : ℤ) : Prop := Int64.minValue.toInt ≤ z ∧ z ≤ Int64.maxValue.toInt

instance : DecidablePred Fits := fun _ ↦ inferInstanceAs (Decidable (_ ∧ _))

theorem fits_toInt (n : Int64) : Fits n.toInt := ⟨n.minValue_le_toInt, n.toInt_le⟩

theorem toInt_ofInt_of_fits (h : Fits z) : (Int64.ofInt z).toInt = z :=
  Int64.toInt_ofInt_of_le h.1 (Int.lt_of_le_of_lt h.2 (by decide))

theorem readInt64?_of_numeral (h : Numeral s.toList z) :
    readInt64? s = if Fits z then some (Int64.ofInt z) else none := by
  rw [readInt64?, readInt?_eq_some_iff.2 h]
  rfl

theorem readInt64?_eq_some_iff {n : Int64} : readInt64? s = some n ↔ Numeral s.toList n.toInt := by
  constructor
  · intro h
    obtain ⟨z, hz, -⟩ := Option.bind_eq_some_iff.1 h
    have hz' := readInt?_eq_some_iff.1 hz
    rw [readInt64?_of_numeral hz', Option.ite_none_right_eq_some, Option.some.injEq] at h
    obtain ⟨hfits, rfl⟩ := h
    rwa [toInt_ofInt_of_fits hfits]
  · intro h
    rw [readInt64?_of_numeral h, if_pos (fits_toInt n), Int64.ofInt_toInt]

theorem readInt64?_eq_none_iff :
    readInt64? s = none ↔ ∀ z, Numeral s.toList z → ¬Fits z := by
  constructor
  · intro h z hz hfits
    rw [readInt64?_of_numeral hz, if_pos hfits] at h
    exact absurd h (Option.some_ne_none _)
  · intro h
    refine Option.eq_none_iff_forall_ne_some.2 fun n hn ↦ ?_
    exact h _ (readInt64?_eq_some_iff.1 hn) (fits_toInt n)

end Number

namespace Attribute.Value

open Number

variable {u v : String}

theorem trim_append_int (hu : ∀ c ∈ u.toList, Text.isBlank c) (hv : ∀ c ∈ v.toList, Text.isBlank c)
    (n : Int64) : Text.trim (u ++ toString (int n) ++ v) = toString (int n) := by
  have hn : Text.Trimmed (toString (int n)).toList := .of_forall (numeral_writeInt64 n).not_blank
  rw [Text.trim, String.toList_append, String.toList_append, Text.trimList_append_blanks _ hu hv,
    hn.trimList_eq, String.ofList_toList]

theorem asInt?_text_int (hu : ∀ c ∈ u.toList, Text.isBlank c)
    (hv : ∀ c ∈ v.toList, Text.isBlank c) (n : Int64) :
    (text (u ++ toString (int n) ++ v)).asInt? = some n := by
  rw [asInt?, trim_append_int hu hv]
  exact readInt64?_eq_some_iff.2 (numeral_writeInt64 n)

/-- An integer is read back from what it is written as, whatever blanks stand around that. What is read
as an integer is a numeral with room in 64 bits, and nothing else. -/
theorem ints_read_iff_numeral :
    (∀ (n : Int64) (u v : String), (∀ c ∈ u.toList, Text.isBlank c) →
      (∀ c ∈ v.toList, Text.isBlank c) →
      (text (u ++ toString (int n) ++ v)).asInt? = some n) ∧
    ∀ t : String,
      (∀ n, (text t).asInt? = some n ↔ Numeral (Text.trim t).toList n.toInt) ∧
      ((text t).asInt? = none ↔ ∀ z, Numeral (Text.trim t).toList z → ¬Fits z) :=
  ⟨fun n _ _ hu hv ↦ asInt?_text_int hu hv n,
    fun _ ↦ ⟨fun _ ↦ readInt64?_eq_some_iff, readInt64?_eq_none_iff⟩⟩

theorem ints_read_iff_numeral_limits :
    (text ("\u2003\t" ++ toString (int Int64.minValue) ++ "\u3000\n")).asInt? = some Int64.minValue ∧
    (text " +9223372036854775807 ").asInt? = some Int64.maxValue ∧
    (text "9223372036854775808").asInt? = none ∧ (text "-9223372036854775809").asInt? = none := by
  have hmax : Numeral (Text.trim " +9223372036854775807 ").toList Int64.maxValue.toInt :=
    readInt?_eq_some_iff.1 rfl
  have hover : Numeral (Text.trim "9223372036854775808").toList 9223372036854775808 :=
    readInt?_eq_some_iff.1 rfl
  have hunder : Numeral (Text.trim "-9223372036854775809").toList (-9223372036854775809) :=
    readInt?_eq_some_iff.1 rfl
  have hbefore : ∀ c ∈ "\u2003\t".toList, Text.isBlank c := List.all_eq_true.1 (by decide)
  have hbehind : ∀ c ∈ "\u3000\n".toList, Text.isBlank c := List.all_eq_true.1 (by decide)
  refine ⟨ints_read_iff_numeral.1 _ _ _ hbefore hbehind,
    ((ints_read_iff_numeral.2 _).1 _).2 hmax, (ints_read_iff_numeral.2 _).2.2 fun z hz ↦ ?_,
    (ints_read_iff_numeral.2 _).2.2 fun z hz ↦ ?_⟩
  · rw [hz.unique hover]
    decide
  · rw [hz.unique hunder]
    decide

end Attribute.Value

end Holdall
