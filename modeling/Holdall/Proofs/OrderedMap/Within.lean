import Holdall.Proofs.OrderedMap.Refinement

namespace Holdall.Association

variable {K V : Type} [BEq K]

def SameEntry (e f : K × V) : Prop := (e.1 == f.1) = true ∧ e.2 = f.2

/-- The entries of `s` stand in `t` in the same order, under equal keys. -/
def Within (s t : List (K × V)) : Prop := List.SublistForall₂ SameEntry s t

namespace Within

variable {s t s' t' : List (K × V)} {k : K} {n i : ℕ}

theorem append (h : Within s t) (h' : Within s' t') : Within (s ++ s') (t ++ t') := by
  induction h with
  | @nil l =>
    induction l with
    | nil => exact h'
    | cons f l ih => exact .cons_right ih
  | cons he _ ih => exact .cons he ih
  | cons_right _ ih => exact .cons_right ih

theorem filter {p : K × V → Bool} (hp : ∀ e f, SameEntry e f → p e = p f) (h : Within s t) :
    Within (s.filter p) (t.filter p) := by
  induction h with
  | nil => exact .nil
  | @cons e f _ _ he _ ih =>
    rw [List.filter_cons, List.filter_cons, hp e f he]
    split
    · exact .cons he ih
    · exact ih
  | cons_right _ ih =>
    rw [List.filter_cons]
    split
    · exact .cons_right ih
    · exact ih

theorem length_le (h : Within s t) : s.length ≤ t.length := by
  induction h with
  | nil => exact Nat.zero_le _
  | cons _ _ ih => exact Nat.succ_le_succ ih
  | cons_right _ ih => exact Nat.le_succ_of_le ih

theorem tail_left (h : Within s t) : Within s.tail t := by
  induction h with
  | nil => exact .nil
  | cons _ h _ => exact .cons_right h
  | cons_right _ ih => exact .cons_right ih

theorem tail (h : Within s t) : Within s.tail t.tail := by
  cases h with
  | nil => exact .nil
  | cons _ h => exact h
  | cons_right h => exact tail_left h

theorem drop (h : Within s t) (hi : i ≤ n) : Within (s.drop n) (t.drop i) := by
  have hboth : Within (s.drop i) (t.drop i) := by
    clear hi
    induction i with
    | zero => exact h
    | succ i ih => simpa using ih.tail
  obtain ⟨j, rfl⟩ := Nat.exists_eq_add_of_le hi
  clear hi
  induction j with
  | zero => exact hboth
  | succ j ih => simpa [Nat.add_assoc] using ih.tail_left

theorem exists_same (h : Within s t) {e : K × V} (he : e ∈ s) : ∃ f ∈ t, SameEntry e f := by
  induction h with
  | nil => simp at he
  | @cons e' f _ _ hef _ ih =>
    rcases List.mem_cons.1 he with rfl | he
    · exact ⟨f, List.mem_cons_self, hef⟩
    · obtain ⟨f', hf', hsame⟩ := ih he
      exact ⟨f', List.mem_cons_of_mem f hf', hsame⟩
  | @cons_right f _ _ _ ih =>
    obtain ⟨f', hf', hsame⟩ := ih he
    exact ⟨f', List.mem_cons_of_mem f hf', hsame⟩

variable [EquivBEq K]

theorem alter (h : Within s t) (k : K) (f : V → V) :
    Within (Association.alter s k f) (Association.alter t k f) := by
  induction h with
  | nil => exact .nil
  | @cons e e' _ _ he _ ih =>
    refine .cons ?_ ih
    have hkey : (e.1 == k) = (e'.1 == k) := BEq.congr_left he.1
    dsimp only
    rw [hkey]
    split
    · exact ⟨he.1, congrArg f he.2⟩
    · exact he
  | cons_right _ ih => exact .cons_right ih

theorem filter_key (h : Within s t) (k : K) :
    Within (s.filter (·.1 == k)) (t.filter (·.1 == k)) :=
  h.filter fun _ _ he ↦ BEq.congr_left he.1

theorem without (h : Within s t) (k : K) :
    Within (Association.without s k) (Association.without t k) :=
  h.filter fun _ _ he ↦ congrArg not (BEq.congr_left he.1)

theorem use (h : Within s t) (k : K) :
    Within (Association.use .access s k) (Association.use .access t k) :=
  (h.without k).append (h.filter_key k)

theorem hasKey (h : Within s t) (hk : hasKey s k = true) : Association.hasKey t k = true := by
  obtain ⟨e, he, hek⟩ := exists_mem_of_hasKey hk
  obtain ⟨f, hf, hsame⟩ := h.exists_same he
  exact List.any_eq_true.2 ⟨f, hf, BEq.trans (BEq.symm hsame.1) hek⟩

theorem value? (h : Within s t) (ht : Distinct t) {v : V} (hv : value? s k = some v) :
    Association.value? t k = some v := by
  obtain ⟨e, he, rfl⟩ := Option.map_eq_some_iff.1 hv
  obtain ⟨f, hf, hsame⟩ := h.exists_same (mem_of_lookup? he)
  have hfk : (f.1 == k) = true := BEq.trans (BEq.symm hsame.1) (beq_of_lookup? he)
  rw [Association.value?, ht.lookup?_eq_some.2 ⟨hf, hfk⟩, Option.map_some, hsame.2]

/-- A key may be new to the smaller list alone: then it goes to the end of both. -/
theorem insert (h : Within s t) (ht : Distinct t) (k : K) (v : V) :
    Within (insert .access s k v) (Association.insert .access t k v) := by
  rw [Association.insert, Association.insert]
  have hnew : ∀ k', (k' == k) = true → Within [(k, v)] [(k', v)] :=
    fun k' hk' ↦ .cons ⟨BEq.symm hk', rfl⟩ .nil
  cases hs : Association.hasKey s k with
  | true =>
    rw [h.hasKey hs]
    exact (h.alter k _).use k
  | false =>
    rw [if_neg Bool.false_ne_true]
    cases hk : Association.hasKey t k with
    | false => exact h.append (hnew k BEq.rfl)
    | true =>
      obtain ⟨e, he, hek⟩ := exists_mem_of_hasKey hk
      obtain ⟨l, r, rfl⟩ := List.append_of_mem he
      have hrest := h.without k
      rw [without_of_absent hs, ht.without_split hek] at hrest
      have hmoved : Association.use .access (Association.alter (l ++ e :: r) k fun _ ↦ v) k =
          l ++ r ++ [(e.1, v)] := by
        have hd := ht.alter k fun _ ↦ v
        rw [ht.alter_split hek] at hd ⊢
        exact hd.toEnd_split hek
      rw [if_pos rfl, hmoved]
      exact hrest.append (hnew e.1 hek)

end Within

end Holdall.Association
