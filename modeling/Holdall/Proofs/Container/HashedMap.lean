import Holdall.Container.HashedMap
import Holdall.Proofs.Overlay
import Mathlib.Data.Finset.Card

namespace Holdall.HashedMap

open Association

variable {K V : Type} [BEq K] {m : HashedMap K V} {k : K}

theorem get?_eq (m : HashedMap K V) (k : K) : m.get? k = value? m.entries k := rfl

theorem isSome_get? (m : HashedMap K V) (k : K) : (m.get? k).isSome = m.contains k :=
  isSome_value? m.entries k

theorem get?_of_mem [EquivBEq K] {e : K × V} (he : e ∈ m.entries) : m.get? e.1 = some e.2 := by
  have hd : Distinct m.entries := m.distinct
  rw [get?_eq, value?, hd.lookup?_eq_some.2 ⟨he, BEq.rfl⟩, Option.map_some]

@[simp] theorem get?_empty (k : K) : ({} : HashedMap K V).get? k = none := rfl

theorem entries_put (m : HashedMap K V) (k : K) (v : V) :
    (m.put k v).entries = Association.insert .insertion m.entries k v := by
  have hcontains : m.contains k = hasKey m.entries k := rfl
  rw [put, Association.insert, ← hcontains]
  split <;> rfl

theorem get?_put [EquivBEq K] (m : HashedMap K V) (k k' : K) (v : V) :
    (m.put k v).get? k' = if k == k' then some v else m.get? k' := by
  rw [get?_eq, entries_put, value?_insert, get?_eq]

theorem contains_put [EquivBEq K] (m : HashedMap K V) (k k' : K) (v : V) :
    (m.put k v).contains k' = (k == k' || m.contains k') := by
  change hasKey (m.put k v).entries k' = _
  rw [entries_put, hasKey_insert]
  rfl

section

variable [LawfulBEq K]

theorem mem_entries_iff {e : K × V} : e ∈ m.entries ↔ m.get? e.1 = some e.2 := by
  constructor
  · exact get?_of_mem
  · intro he
    obtain ⟨e', he', hvalue⟩ := Option.map_eq_some_iff.1 he
    rw [← Prod.ext (eq_of_beq (beq_of_lookup? he')) hvalue]
    exact mem_of_lookup? he'

theorem mem_keys_iff : k ∈ m.keys ↔ (m.get? k).isSome = true := by
  rw [keys, Association.mem_keys_iff, get?_eq, isSome_value?]

theorem nodup_keys (m : HashedMap K V) : m.keys.Nodup := m.distinct.imp fun h ↦ by simpa using h

theorem size_eq_card [DecidableEq K] {ks : List K} (h : ∀ k, (m.get? k).isSome = true ↔ k ∈ ks) :
    m.size = ks.toFinset.card := by
  have hkeys : m.keys.toFinset = ks.toFinset := by
    ext k
    rw [List.mem_toFinset, List.mem_toFinset, mem_keys_iff, h]
  calc m.size = m.keys.length := (List.length_map _).symm
    _ = m.keys.toFinset.card := (List.toFinset_card_of_nodup m.nodup_keys).symm
    _ = ks.toFinset.card := by rw [hkeys]

end

end Holdall.HashedMap
