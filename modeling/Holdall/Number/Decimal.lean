namespace Holdall.Number

def digit (d : Nat) : Char := Char.ofNat (48 + d)

def digitValue (c : Char) : Nat := c.toNat - 48

def digits (n : Nat) : List Char :=
  if n < 10 then [digit n] else digits (n / 10) ++ [digit (n % 10)]

/-- The value of a row of digits, the most significant first. -/
def valueOf (cs : List Char) : Nat := cs.foldl (fun v c => 10 * v + digitValue c) 0

def write : Int → List Char
  | .ofNat n => digits n
  | .negSucc n => '-' :: digits (n + 1)

def readNat? (cs : List Char) : Option Nat :=
  if cs ≠ [] ∧ cs.all Char.isDigit then some (valueOf cs) else none

def readInt? : List Char → Option Int
  | '+' :: cs => (readNat? cs).map Int.ofNat
  | '-' :: cs => (readNat? cs).map fun n => -(n : Int)
  | cs => (readNat? cs).map Int.ofNat

def readInt64? (s : String) : Option Int64 := do
  let n ← readInt? s.toList
  if Int64.minValue.toInt ≤ n ∧ n ≤ Int64.maxValue.toInt then some (Int64.ofInt n) else none

/-- A text of a natural number of 16 bits, which may have a plus sign and no other. -/
def readUInt16? (s : String) : Option Nat := do
  let n ← readNat? (match s.toList with | '+' :: cs => cs | cs => cs)
  if n < UInt16.size then some n else none

def writeInt64 (n : Int64) : String := String.ofList (write n.toInt)

theorem digit_isDigit {d : Nat} (h : d < 10) : (digit d).isDigit := by
  have : ∀ d : Fin 10, (digit d).isDigit := by decide
  exact this ⟨d, h⟩

theorem digitValue_digit {d : Nat} (h : d < 10) : digitValue (digit d) = d := by
  have : ∀ d : Fin 10, digitValue (digit d) = d := by decide
  exact this ⟨d, h⟩

theorem valueOf_concat (cs : List Char) (c : Char) :
    valueOf (cs ++ [c]) = 10 * valueOf cs + digitValue c := by
  simp [valueOf]

theorem valueOf_digits (n : Nat) : valueOf (digits n) = n := by
  fun_induction digits n with
  | case1 n h => simp [valueOf, digitValue_digit h]
  | case2 n h ih =>
    rw [valueOf_concat, ih, digitValue_digit (Nat.mod_lt _ (by decide))]
    omega

theorem digits_all (n : Nat) : (digits n).all Char.isDigit := by
  fun_induction digits n with
  | case1 n h => simpa using digit_isDigit h
  | case2 n h ih => simpa [ih] using digit_isDigit (Nat.mod_lt n (by decide))

theorem digits_ne_nil (n : Nat) : digits n ≠ [] := by
  rw [digits]; split <;> simp

theorem readNat?_digits (n : Nat) : readNat? (digits n) = some n := by
  simp only [readNat?, digits_ne_nil, digits_all, valueOf_digits, ne_eq, not_false_eq_true,
    and_self, if_true]

theorem readInt?_of_head {c : Char} {cs : List Char} (h : c.isDigit) :
    readInt? (c :: cs) = (readNat? (c :: cs)).map Int.ofNat := by
  unfold readInt?
  split
  · simp_all [Char.isDigit]
  · simp_all [Char.isDigit]
  · rfl

theorem readInt?_digits (n : Nat) : readInt? (digits n) = some (n : Int) := by
  cases h : digits n with
  | nil => exact absurd h (digits_ne_nil n)
  | cons c cs =>
    have hc : c.isDigit := by
      have := digits_all n
      simp_all
    rw [readInt?_of_head hc, ← h, readNat?_digits]
    rfl

theorem readInt?_write (n : Int) : readInt? (write n) = some n := by
  cases n with
  | ofNat n => exact readInt?_digits n
  | negSucc n => simp [write, readInt?, readNat?_digits, Int.negSucc_eq]

theorem digits_of_readNat? {cs : List Char} {n : Nat} (h : readNat? cs = some n) :
    cs ≠ [] ∧ ∀ c ∈ cs, c.isDigit = true := by
  rw [readNat?, Option.ite_none_right_eq_some] at h
  exact ⟨h.1.1, List.all_eq_true.1 h.1.2⟩

theorem digits_of_readUInt16? {s : String} (h : (readUInt16? s).isSome = true) :
    ∃ ds, (s.toList = ds ∨ s.toList = '+' :: ds) ∧ ds ≠ [] ∧ ∀ c ∈ ds, c.isDigit = true := by
  obtain ⟨n, hn⟩ := Option.isSome_iff_exists.1 h
  rw [readUInt16?] at hn
  obtain ⟨m, hm, -⟩ := Option.bind_eq_some_iff.1 hn
  refine ⟨_, ?_, digits_of_readNat? hm⟩
  split
  · exact .inr ‹_›
  · exact .inl rfl

end Holdall.Number
