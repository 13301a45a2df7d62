import Holdall.Proofs.Sequence.Table

namespace Holdall

variable {K V U : Type} [BEq K] [BEq V]

theorem Sequence.mem_of_mem_firsts {xs : List K} {x : K} (h : x ∈ firsts xs) : x ∈ xs := by
  obtain ⟨⟨y, before⟩, hy, rfl⟩ := List.mem_map.1 h
  exact (List.of_mem_zip (List.mem_filter.1 hy).1).1

namespace HashedMap

open Association Lineup Sequence

variable {m : HashedMap K V} {n : HashedMap V K} {k : K} {v : V}

/-- What turning a map round can come to: its entries are met in any order, and those of the result may
come out in any order. -/
def Inverts (m : HashedMap K V) (n : HashedMap V K) : Prop :=
  ∃ m' : HashedMap K V, m'.entries.Perm m.entries ∧ n.entries.Perm m'.invert.entries

theorem inverts_invert (m : HashedMap K V) : m.Inverts m.invert := ⟨m, .refl _, .refl _⟩

section

omit [BEq V]

theorem contains_eq_has (m : HashedMap K V) (k : K) : m.contains k = has m.keys k :=
  (has_keys m.entries k).symm

variable [EquivBEq K]

theorem size_le_of_contains {m' : HashedMap K U}
    (h : ∀ k, m.contains k = true → m'.contains k = true) : m.size ≤ m'.size := by
  have hd : Association.Distinct m.entries := m.distinct
  have hcovered : ∀ e ∈ m.entries, ∃ k ∈ m'.keys, (e.1 == k) = true := by
    intro e he
    have hk := h e.1 (hasKey_of_mem he)
    rw [contains_eq_has] at hk
    obtain ⟨k, hk, hke⟩ := List.any_eq_true.1 hk
    exact ⟨k, hk, BEq.symm hke⟩
  have hle := hd.length_le_of_covered hcovered
  rwa [keys, List.length_map] at hle

end

theorem entries_invert (m : HashedMap K V) :
    m.invert.entries = overlay [] (m.entries.map Prod.swap) := entries_ofList _

variable [EquivBEq V]

theorem keys_invert (m : HashedMap K V) : m.invert.keys = firsts m.values := by
  rw [keys, entries_invert, keys_overlay_nil, List.map_map]
  rfl

theorem contains_invert (m : HashedMap K V) (v : V) : m.invert.contains v = has m.values v := by
  rw [contains_eq_has, keys_invert, has_firsts]

theorem get?_invert_eq_some_iff :
    m.invert.get? v = some k ↔ LastFor (m.entries.map Prod.swap) v k := by
  rw [get?_eq, entries_invert, value?_overlay_nil, value?_reverse_eq_some_iff]

theorem size_invert (m : HashedMap K V) : m.invert.size = (firsts m.values).length := by
  rw [← keys_invert, keys, List.length_map, size]

theorem entries_invert_of_distinct (h : Lineup.Distinct m.values) :
    m.invert.entries = m.entries.map Prod.swap := by
  rw [entries_invert, nil_overlay]
  rw [Association.Distinct, List.map_map]
  exact h

namespace Inverts

theorem contains (h : m.Inverts n) (v : V) : n.contains v = has m.values v := by
  obtain ⟨m', hm, hn⟩ := h
  calc n.contains v = m'.invert.contains v := hn.any_eq
    _ = has m'.values v := contains_invert m' v
    _ = has m.values v := (hm.map Prod.snd).any_eq

theorem mem_values (h : m.Inverts n) (hv : v ∈ n.keys) : v ∈ m.values := by
  obtain ⟨m', hm, hn⟩ := h
  have hv' : v ∈ m'.invert.keys := (hn.map Prod.fst).mem_iff.1 hv
  rw [keys_invert] at hv'
  exact (hm.map Prod.snd).mem_iff.1 (mem_of_mem_firsts hv')

theorem exists_key [EquivBEq K] (h : m.Inverts n) (hv : n.contains v = true) :
    ∃ k v', n.get? v = some k ∧ m.get? k = some v' ∧ (v' == v) = true := by
  obtain ⟨m', hm, hn⟩ := h
  have hd : Association.Distinct n.entries := n.distinct
  rw [← isSome_get?] at hv
  obtain ⟨k, hk⟩ := Option.isSome_iff_exists.1 hv
  have hlast : m'.invert.get? v = some k := (hd.value?_eq_of_perm hn v).symm.trans hk
  obtain ⟨before, v', after, hsplit, hv', -⟩ := get?_invert_eq_some_iff.1 hlast
  have hmem : (v', k) ∈ m'.entries.map Prod.swap := by
    rw [hsplit]
    simp
  obtain ⟨e, he, hswap⟩ := List.mem_map.1 hmem
  rw [Prod.swap_eq_iff_eq_swap] at hswap
  subst hswap
  exact ⟨k, v', hk, get?_of_mem (hm.mem_iff.1 he), hv'⟩

theorem size (h : m.Inverts n) : n.size = (firsts m.values).length := by
  have hcontains : ∀ v, n.contains v = m.invert.contains v := by
    intro v
    rw [h.contains, contains_invert]
  rw [← size_invert]
  exact le_antisymm (size_le_of_contains fun v hv ↦ hcontains v ▸ hv)
    (size_le_of_contains fun v hv ↦ (hcontains v).symm ▸ hv)

theorem entries_perm (h : m.Inverts n) (hd : Lineup.Distinct m.values) :
    n.entries.Perm (m.entries.map Prod.swap) := by
  obtain ⟨m', hm, hn⟩ := h
  have hd' : Lineup.Distinct m'.values :=
    ((hm.map Prod.snd).pairwise_iff fun hab ↦ by rwa [BEq.comm]).2 hd
  rw [entries_invert_of_distinct hd'] at hn
  exact hn.trans (hm.map Prod.swap)

end Inverts

variable [EquivBEq K]

/-- In whatever order the entries are met, a map that is turned round has the values for keys, each once,
and leads from a value to a key that it had. Where no value repeats the order makes no difference, and
turning round again gives the map back. -/
theorem inverts_any_order (m : HashedMap K V) :
    m.Inverts m.invert ∧
    (∀ n, m.Inverts n →
      (∀ v, n.contains v = true ↔ ∃ w ∈ m.values, (w == v) = true) ∧
      (∀ v ∈ n.keys, v ∈ m.values) ∧ n.size = (firsts m.values).length ∧
      ∀ v, n.contains v = true →
        ∃ k w, n.get? v = some k ∧ m.get? k = some w ∧ (w == v) = true) ∧
    (Lineup.Distinct m.values → ∀ n, m.Inverts n →
      n.entries.Perm (m.entries.map Prod.swap) ∧ n.size = m.size ∧
      ∀ m', n.Inverts m' → m'.entries.Perm m.entries) := by
  refine ⟨inverts_invert m, ?_, ?_⟩
  · intro n h
    refine ⟨fun v ↦ ?_, fun _ ↦ h.mem_values, h.size, fun _ ↦ h.exists_key⟩
    rw [h.contains, has, List.any_eq_true]
  · intro hd n h
    have hn := h.entries_perm hd
    refine ⟨hn, hn.length_eq.trans (List.length_map _), ?_⟩
    intro m' hm'
    have hkeys : n.values.Perm m.keys := by
      have hmap := hn.map Prod.snd
      rwa [List.map_map] at hmap
    have hd' : Lineup.Distinct n.values :=
      (hkeys.pairwise_iff fun hab ↦ by rwa [BEq.comm]).2 m.distinct
    have hback := (hm'.entries_perm hd').trans (hn.map Prod.swap)
    rwa [List.map_map, Prod.swap_swap_eq, List.map_id] at hback

theorem inverts_any_order_folded : EquivBEq Item ∧
    let m : HashedMap Item Item :=
      .ofList [(.text "x", .folded "a"), (.text "y", .folded "A"), (.int 1, .text "b")]
    let n : HashedMap Item Item := .ofList [(.text "b", .int 1), (.folded "A", .text "x")]
    let p : HashedMap Item Item := .ofList [(.folded "x", .text "a"), (.int 1, .text "A")]
    m.Inverts n ∧ n.size = 2 ∧ n.contains (.folded "a") = true ∧
    (∃ k w, n.get? (.folded "a") = some k ∧ m.get? k = some w ∧ (w == .folded "a") = true) ∧
    Lineup.Distinct p.values ∧ p.invert.invert.entries.Perm p.entries := by
  refine ⟨inferInstance, ?_⟩
  intro m n p
  let m' : HashedMap Item Item :=
    .ofList [(.text "y", .folded "A"), (.text "x", .folded "a"), (.int 1, .text "b")]
  have hn : m.Inverts n := ⟨m', .swap _ _ _, .swap _ _ _⟩
  have hp : Lineup.Distinct p.values := by
    rw [Lineup.Distinct]
    decide
  obtain ⟨-, hany, -⟩ := inverts_any_order m
  obtain ⟨hcontains, -, hsize, hkey⟩ := hany n hn
  have hfolded : n.contains (.folded "a") = true :=
    (hcontains _).2 ⟨.folded "a", List.mem_cons_self, by decide⟩
  obtain ⟨-, -, hback⟩ := (inverts_any_order p).2.2 hp p.invert (inverts_invert p)
  exact ⟨hn, hsize.trans rfl, hfolded, hkey _ hfolded, hp, hback _ (inverts_invert p.invert)⟩

end HashedMap

end Holdall
