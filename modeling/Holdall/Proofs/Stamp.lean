import Mathlib.Data.Nat.Notation
import Mathlib.Tactic.TypeStar

namespace Holdall.Run

variable {C : Type*} {p : C → Bool} {cs : List C} {c : C} {i : ℕ}

/-- Number `i` is the last of the calls that have the property. -/
def LastAt (p : C → Bool) (cs : List C) (i : ℕ) : Prop :=
  (∃ c, cs[i]? = some c ∧ p c = true) ∧ ∀ j c, i < j → cs[j]? = some c → p c = false

theorem LastAt.lt (h : LastAt p cs i) : i < cs.length := by
  obtain ⟨⟨c, hc, -⟩, -⟩ := h
  exact (List.getElem?_eq_some_iff.1 hc).1

theorem LastAt.concat (h : LastAt p cs i) (hc : p c = false) : LastAt p (cs ++ [c]) i := by
  have hlt := h.lt
  obtain ⟨⟨c', hc', hp⟩, hlater⟩ := h
  refine ⟨⟨c', by rwa [List.getElem?_append_left hlt], hp⟩, ?_⟩
  intro j d hij hd
  rcases Nat.lt_or_ge j cs.length with hj | hj
  · rw [List.getElem?_append_left hj] at hd
    exact hlater j d hij hd
  · rw [List.getElem?_append_right hj] at hd
    obtain rfl := List.mem_singleton.1 (List.mem_of_getElem? hd)
    exact hc

theorem lastAt_concat (hc : p c = true) : LastAt p (cs ++ [c]) cs.length := by
  refine ⟨⟨c, by simp, hc⟩, ?_⟩
  intro j d hj hd
  have hlt := (List.getElem?_eq_some_iff.1 hd).1
  rw [List.length_append, List.length_singleton] at hlt
  omega

variable {K : Type*} {mark : K → C → Bool} {ks ks' : List K} {k : K}

/-- A call may mark keys. The keys stand in the order of the last calls that marked them. -/
def InOrder (mark : K → C → Bool) (cs : List C) (ks : List K) : Prop :=
  ∃ stamp : K → ℕ, (∀ k ∈ ks, LastAt (mark k) cs (stamp k)) ∧
    ks.Pairwise fun k k' ↦ stamp k < stamp k'

namespace InOrder

theorem sublist (h : InOrder mark cs ks) (hs : ks'.Sublist ks) : InOrder mark cs ks' := by
  obtain ⟨stamp, hlast, hlt⟩ := h
  exact ⟨stamp, fun k hk ↦ hlast k (hs.subset hk), hlt.sublist hs⟩

theorem keep (h : InOrder mark cs ks) (hks : ∀ k ∈ ks, mark k c = false) :
    InOrder mark (cs ++ [c]) ks := by
  obtain ⟨stamp, hlast, hlt⟩ := h
  exact ⟨stamp, fun k hk ↦ (hlast k hk).concat (hks k hk), hlt⟩

theorem push (h : InOrder mark cs ks) (hks : ∀ k ∈ ks, mark k c = false) (hk : mark k c = true) :
    InOrder mark (cs ++ [c]) (ks ++ [k]) := by
  obtain ⟨stamp, hlast, hlt⟩ := h
  obtain ⟨stamp', hold, hnew⟩ : ∃ stamp' : K → ℕ,
      (∀ k' ∈ ks, stamp' k' = stamp k') ∧ stamp' k = cs.length := by
    refine ⟨fun k' ↦ if mark k' c then cs.length else stamp k', ?_, if_pos hk⟩
    intro k' hk'
    simp [hks k' hk']
  refine ⟨stamp', ?_, ?_⟩
  · intro k' hk'
    rcases List.mem_append.1 hk' with hk' | hk'
    · rw [hold k' hk']
      exact (hlast k' hk').concat (hks k' hk')
    · obtain rfl := List.mem_singleton.1 hk'
      rw [hnew]
      exact lastAt_concat hk
  · rw [List.pairwise_append]
    refine ⟨hlt.imp_of_mem ?_, List.pairwise_singleton _ _, ?_⟩
    · intro a b ha hb hab
      rwa [hold a ha, hold b hb]
    · intro a ha b hb
      obtain rfl := List.mem_singleton.1 hb
      rw [hold a ha, hnew]
      exact (hlast a ha).lt

end InOrder

end Holdall.Run
