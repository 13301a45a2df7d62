import Holdall.Measured
import Holdall.Proofs.OrderedMap.Refinement
import Holdall.Proofs.Slot.Audit

namespace Holdall.OrderedMap

open Association Slot

variable {K V : Type} [BEq K] [Hashable K] {m : OrderedMap K V} {s : List (Id × K × V)}

/-- Audits the links, compares the numbers of entries, and looks each key up. -/
def audit (m : OrderedMap K V) : Bool :=
  m.entries.audit && m.index.size == m.entries.size && m.keys.all m.contains

structure Coherent (m : OrderedMap K V) : Prop where
  index_iff : ∀ k i, m.index[k]? = some i ↔
    ∃ e, i ∈ m.entries.ids ∧ m.entries.get? i = some e ∧ (e.1 == k) = true
  one_node : ∀ i j e e', m.entries.get? i = some e → m.entries.get? j = some e' →
    (e.1 == e'.1) = true → i = j
  size_eq : m.index.size = m.entries.size
  length_eq : length m = m.size
  audit : m.audit = true

namespace Tracks

variable [EquivBEq K] [LawfulHashable K]

theorem audit (h : m.Tracks s) : m.audit = true := by
  have hkeys : ∀ k ∈ m.keys, m.contains k = true := by
    intro k hk
    obtain ⟨e, he, rfl⟩ := List.mem_map.1 hk
    rw [OrderedMap.toList, h.chain.toList] at he
    rw [OrderedMap.contains, h.contains_index]
    exact List.any_eq_true.2 ⟨e, he, BEq.rfl⟩
  have hsize : m.index.size = m.entries.size := by rw [h.size, h.chain.length]
  simp only [OrderedMap.audit, Bool.and_eq_true, beq_iff_eq, List.all_eq_true]
  exact ⟨⟨h.chain.audit, hsize⟩, hkeys⟩

theorem coherent (h : m.Tracks s) : m.Coherent where
  index_iff k i := by
    rw [h.index]
    refine exists_congr fun e ↦ ?_
    rw [h.chain.get?_eq_some, h.chain.ids, ← and_assoc, and_iff_right_of_imp (b := (i, e) ∈ s)]
    exact List.mem_map_of_mem
  one_node i j e e' hi hj hk := by
    have he := h.distinct.eq_of_beq (h.chain.get?_eq_some.1 hi) (h.chain.get?_eq_some.1 hj) hk
    exact congrArg Prod.fst he
  size_eq := by rw [h.size, h.chain.length]
  length_eq := by
    change m.entries.size = m.index.size
    rw [h.size, h.chain.length]
  audit := h.audit

end Tracks

variable [EquivBEq K] [LawfulHashable K]

/-- No request, whatever it removes or visits, sets the index and the chain apart. -/
theorem coherent_after (order : EntryOrder) (rs : List (Request K V)) :
    (Run.after respond (empty order : OrderedMap K V) rs).Coherent := by
  have hshows : ∃ es, (Run.after respond (empty order : OrderedMap K V) rs).Shows order es :=
    Run.after_induction (P := fun m : OrderedMap K V ↦ ∃ es, m.Shows order es)
      (fun _ r ⟨_, h⟩ ↦ ⟨_, (h.respond r).2⟩) ⟨_, shows_empty order⟩ rs
  obtain ⟨_, -, s, hs, -⟩ := hshows
  exact hs.coherent

theorem coherent_after_reuse : EquivBEq Item ∧ LawfulHashable Item ∧
    (Run.after respond (empty .access : OrderedMap Item ℕ)
      [.insert (.folded "a") 1, .insert (.text "b") 2, .remove (.folded "A"), .insert (.text "c") 3,
        .retain (fun _ v n ↦ ((v + n, n % 2 == 0), n + 1)) 0, .popEldest]).Coherent :=
  ⟨inferInstance, inferInstance, coherent_after .access _⟩

end Holdall.OrderedMap
