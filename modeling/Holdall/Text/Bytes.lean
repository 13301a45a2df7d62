namespace Holdall.Text

def bytes (cs : List Char) : List UInt8 := cs.flatMap String.utf8EncodeChar

def isLetterByte (b : UInt8) : Bool := 65 ≤ b && b ≤ 90 || 97 ≤ b && b ≤ 122

def isDigitByte (b : UInt8) : Bool := 48 ≤ b && b ≤ 57

/-- A class of bytes and a class of characters that are the same part of ASCII. -/
structure SameClass (p : UInt8 → Bool) (q : Char → Bool) : Prop where
  agree : ∀ n < 128, p (UInt8.ofNat n) = q (Char.ofNat n)
  byte_lt : ∀ b : UInt8, p b = true → b.toNat < 128
  char_lt : ∀ c : Char, q c = true → c.toNat < 128

theorem utf8EncodeChar_of_lt {c : Char} (h : c.toNat < 128) :
    String.utf8EncodeChar c = [UInt8.ofNat c.toNat] := by
  have h' : c.val.toNat ≤ 127 := Nat.le_of_lt_succ h
  rw [String.utf8EncodeChar, if_pos h']
  rfl

theorem utf8EncodeChar_of_le {c : Char} (h : 128 ≤ c.toNat) :
    ∃ b bs, 128 ≤ b.toNat ∧ String.utf8EncodeChar c = b :: bs := by
  have h' : ¬ c.val.toNat ≤ 127 := Nat.not_le_of_lt h
  rw [String.utf8EncodeChar, if_neg h']
  split
  · exact ⟨_, _, by rw [UInt8.toNat_ofNat']; omega, rfl⟩
  · split
    · exact ⟨_, _, by rw [UInt8.toNat_ofNat']; omega, rfl⟩
    · exact ⟨_, _, by rw [UInt8.toNat_ofNat']; omega, rfl⟩

namespace SameClass

variable {p : UInt8 → Bool} {q : Char → Bool}

theorem forall_char (h : SameClass p q) {P : Char → Prop}
    (hP : ∀ n < 128, q (Char.ofNat n) = true → P (Char.ofNat n)) {c : Char} (hc : q c = true) : P c := by
  have hn := hP c.toNat (h.char_lt c hc)
  rw [Char.ofNat_toNat] at hn
  exact hn hc

theorem all_utf8EncodeChar (h : SameClass p q) (c : Char) :
    (String.utf8EncodeChar c).all p = q c := by
  by_cases hc : c.toNat < 128
  · rw [utf8EncodeChar_of_lt hc, List.all_cons, List.all_nil, Bool.and_true, h.agree _ hc,
      Char.ofNat_toNat]
  · obtain ⟨b, bs, hb, hbytes⟩ := utf8EncodeChar_of_le (Nat.le_of_not_lt hc)
    have hp : p b = false := by
      rw [← Bool.not_eq_true]
      intro hp
      exact Nat.not_lt_of_le hb (h.byte_lt b hp)
    have hq : q c = false := by
      rw [← Bool.not_eq_true]
      intro hq
      exact hc (h.char_lt c hq)
    rw [hbytes, List.all_cons, hp, hq, Bool.false_and]

theorem all_bytes (h : SameClass p q) (cs : List Char) : (bytes cs).all p = cs.all q := by
  induction cs with
  | nil => rfl
  | cons c cs ih =>
    rw [bytes, List.flatMap_cons, List.all_append, h.all_utf8EncodeChar, ← bytes, ih, List.all_cons]

theorem length_bytes (h : SameClass p q) {cs : List Char} (hcs : cs.all q = true) :
    (bytes cs).length = cs.length := by
  induction cs with
  | nil => rfl
  | cons c cs ih =>
    rw [List.all_cons, Bool.and_eq_true] at hcs
    rw [bytes, List.flatMap_cons, utf8EncodeChar_of_lt (h.char_lt c hcs.1), ← bytes,
      List.singleton_append, List.length_cons, List.length_cons, ih hcs.2]

/-- A test of the size and the class of a text, made on its bytes. -/
theorem sized (h : SameClass p q) (size : Nat → Bool) (cs : List Char) :
    (size (bytes cs).length && (bytes cs).all p) = (size cs.length && cs.all q) := by
  rw [h.all_bytes]
  cases hcs : cs.all q with
  | false => rw [Bool.and_false, Bool.and_false]
  | true => rw [h.length_bytes hcs]

end SameClass

theorem sameClass_letter : SameClass isLetterByte Char.isAlpha where
  agree := by decide
  byte_lt b hb := by
    simp [isLetterByte, UInt8.le_iff_toNat_le] at hb
    omega
  char_lt c hc := by
    delta Char.isAlpha Char.isUpper Char.isLower at hc
    simp [UInt32.le_iff_toNat_le] at hc
    omega

theorem sameClass_digit : SameClass isDigitByte Char.isDigit where
  agree := by decide
  byte_lt b hb := by
    simp [isDigitByte, UInt8.le_iff_toNat_le] at hb
    omega
  char_lt c hc := by
    simp [Char.isDigit, UInt32.le_iff_toNat_le] at hc
    omega

end Holdall.Text
