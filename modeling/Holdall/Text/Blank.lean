namespace Holdall.Text

/-- The Unicode property White_Space, as inclusive ranges of code points. -/
def blankRanges : List (Nat × Nat) :=
  [(0x09, 0x0d), (0x20, 0x20), (0x85, 0x85), (0xa0, 0xa0), (0x1680, 0x1680), (0x2000, 0x200a),
    (0x2028, 0x2029), (0x202f, 0x202f), (0x205f, 0x205f), (0x3000, 0x3000)]

def isBlank (c : Char) : Bool :=
  blankRanges.any fun (low, high) => low ≤ c.toNat && c.toNat ≤ high

def dropBlanks (cs : List Char) : List Char := cs.dropWhile isBlank

def trimList (cs : List Char) : List Char := (dropBlanks (dropBlanks cs).reverse).reverse

def trim (s : String) : String := String.ofList (trimList s.toList)

theorem dropBlanks_of_head {c : Char} {cs : List Char} (h : isBlank c = false) :
    dropBlanks (c :: cs) = c :: cs := by
  simp [dropBlanks, h]

theorem trimList_append_blanks {u v : List Char} (cs : List Char) (hu : ∀ c ∈ u, isBlank c)
    (hv : ∀ c ∈ v, isBlank c) : trimList (u ++ cs ++ v) = trimList cs := by
  have drop : ∀ (w cs : List Char), (∀ c ∈ w, isBlank c) → dropBlanks (w ++ cs) = dropBlanks cs := by
    intro w cs hw
    induction w with
    | nil => rfl
    | cons c w ih => simp_all [dropBlanks]
  have tail : ∀ cs : List Char, (dropBlanks (dropBlanks (cs ++ v)).reverse).reverse = trimList cs := by
    intro cs
    induction cs with
    | nil =>
      have hblank : dropBlanks v = [] :=
        (congrArg dropBlanks (List.append_nil v)).symm.trans (drop v [] hv)
      rw [List.nil_append, hblank]
      rfl
    | cons c cs ih =>
      by_cases hc : isBlank c
      · simpa [dropBlanks, trimList, hc] using ih
      · have hr := drop v.reverse (c :: cs).reverse (by simpa using hv)
        simpa [dropBlanks, trimList, hc] using hr
  rw [List.append_assoc, trimList, drop u _ hu, tail]

/-- No blank stands at either end. -/
structure Trimmed (cs : List Char) : Prop where
  first : ∀ c ∈ cs.head?, isBlank c = false
  last : ∀ c ∈ cs.getLast?, isBlank c = false

theorem dropBlanks_of_head? {cs : List Char} (h : ∀ c ∈ cs.head?, isBlank c = false) :
    dropBlanks cs = cs := by
  cases cs with
  | nil => rfl
  | cons c cs => exact dropBlanks_of_head (h c rfl)

theorem not_blank_of_head?_dropBlanks {cs : List Char} :
    ∀ c ∈ (dropBlanks cs).head?, isBlank c = false := by
  intro c hc
  have h := List.head?_dropWhile_not isBlank cs
  rw [Option.mem_def, dropBlanks] at hc
  rwa [hc] at h

theorem getLast?_dropBlanks {cs : List Char} : ∀ c ∈ (dropBlanks cs).getLast?, c ∈ cs.getLast? := by
  obtain ⟨u, hu⟩ : dropBlanks cs <:+ cs := List.dropWhile_suffix isBlank
  intro c hc
  rw [← hu, List.getLast?_append, Option.mem_def.1 hc]
  rfl

theorem Trimmed.trimList_eq {cs : List Char} (h : Trimmed cs) : trimList cs = cs := by
  rw [trimList, dropBlanks_of_head? h.first, dropBlanks_of_head? (by simpa using h.last),
    List.reverse_reverse]

theorem trimmed_trimList (cs : List Char) : Trimmed (trimList cs) where
  first := by
    intro c hc
    rw [trimList, List.head?_reverse] at hc
    have hlast := getLast?_dropBlanks c hc
    rw [List.getLast?_reverse] at hlast
    exact not_blank_of_head?_dropBlanks c hlast
  last := by
    intro c hc
    rw [trimList, List.getLast?_reverse] at hc
    exact not_blank_of_head?_dropBlanks c hc

theorem length_trimList_le (cs : List Char) : (trimList cs).length ≤ cs.length := by
  rw [trimList, List.length_reverse]
  calc (dropBlanks (dropBlanks cs).reverse).length
      ≤ (dropBlanks cs).reverse.length := (List.dropWhile_suffix isBlank).length_le
    _ = (dropBlanks cs).length := List.length_reverse
    _ ≤ cs.length := (List.dropWhile_suffix isBlank).length_le

theorem Trimmed.of_forall {cs : List Char} (h : ∀ c ∈ cs, isBlank c = false) : Trimmed cs where
  first c hc := h c (List.mem_of_head? hc)
  last c hc := h c (List.mem_of_getLast? hc)

theorem Trimmed.join {u v : List Char} {s : Char} (hu : Trimmed u) (hs : isBlank s = false)
    (hv : Trimmed v) : Trimmed (u ++ s :: v) where
  first := by
    cases u with
    | nil => simpa using hs
    | cons c u => simpa using hu.first
  last := by
    cases hlast : v.getLast? with
    | none => simpa [List.getLast?_cons, hlast] using hs
    | some c => simpa [List.getLast?_cons, hlast] using hv.last c hlast

theorem toList_trim (s : String) : (trim s).toList = trimList s.toList := String.toList_ofList

theorem trim_trim (s : String) : trim (trim s) = trim s := by
  have hlist : trimList (trim s).toList = trimList s.toList := by
    rw [toList_trim, (trimmed_trimList _).trimList_eq]
  exact congrArg String.ofList hlist

theorem trimList_map {f : Char → Char} (hf : ∀ c, isBlank (f c) = isBlank c) (cs : List Char) :
    trimList (cs.map f) = (trimList cs).map f := by
  have hdrop : ∀ cs : List Char, dropBlanks (cs.map f) = (dropBlanks cs).map f := by
    intro cs
    rw [dropBlanks, List.dropWhile_map, show isBlank ∘ f = isBlank from funext hf, dropBlanks]
  rw [trimList, hdrop, ← List.map_reverse, hdrop, ← List.map_reverse, trimList]

end Holdall.Text
