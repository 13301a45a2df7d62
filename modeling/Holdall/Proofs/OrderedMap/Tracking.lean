import Holdall.OrderedMap.Basic
import Holdall.Proofs.Slot.Chain

namespace Holdall.OrderedMap

open Association Slot

variable {K V : Type} [BEq K] [Hashable K] {m : OrderedMap K V} {s l r : List (Id × K × V)}
  {k : K} {i : Id} {e : K × V}

def place (p : Id × K × V) : Id × K := (p.1, p.2.1)

structure Tracks (m : OrderedMap K V) (s : List (Id × K × V)) : Prop where
  chain : m.entries.Holds s
  distinct : Distinct (s.map Prod.snd)
  index : ∀ k i, m.index[k]? = some i ↔ ∃ e, (i, e) ∈ s ∧ (e.1 == k) = true
  size : m.index.size = s.length

theorem tracks_empty (order : EntryOrder) : (empty order : OrderedMap K V).Tracks [] where
  chain := Chain.holds_empty
  distinct := distinct_nil
  index := by simp [empty]
  size := Std.HashMap.size_empty

@[simp] theorem order_setValue (m : OrderedMap K V) (i : Id) (f : V → V) :
    (m.setValue i f).order = m.order := rfl

@[simp] theorem order_use (m : OrderedMap K V) (i : Id) : (m.use i).order = m.order := by
  rw [use]
  split <;> rfl

@[simp] theorem index_setValue (m : OrderedMap K V) (i : Id) (f : V → V) :
    (m.setValue i f).index = m.index := rfl

@[simp] theorem index_use (m : OrderedMap K V) (i : Id) : (m.use i).index = m.index := by
  rw [use]
  split <;> rfl

theorem forget_of_none {p : Option (K × V) × Chain (K × V)} (hp : p.1 = none) :
    m.forget p = (none, { m with entries := p.2 }) := by
  obtain ⟨_, entries⟩ := p
  subst hp
  rfl

theorem forget_of_some {p : Option (K × V) × Chain (K × V)} (hp : p.1 = some e) :
    m.forget p = (some e, { m with entries := p.2, index := m.index.erase e.1 }) := by
  obtain ⟨_, entries⟩ := p
  subst hp
  rfl

@[simp] theorem order_forget (m : OrderedMap K V) (p : Option (K × V) × Chain (K × V)) :
    (m.forget p).2.order = m.order := by
  obtain ⟨_ | e, entries⟩ := p <;> rfl

@[simp] theorem order_settle (m : OrderedMap K V) (i : Id) (v : V) (stays : Bool) :
    (m.settle i v stays).order = m.order := by
  cases stays <;> simp [settle]

theorem run_retainAtM_cons {σ : Type} {v : V} (hget : m.entries.get? i = some (k, v))
    (visit : K → V → StateM σ (V × Bool)) (ids : List Id) (start : σ) :
    (m.retainAtM visit (i :: ids)).run start =
      let met := (visit k v).run start
      ((m.settle i met.1.1 met.1.2).retainAtM visit ids).run met.2 := by
  rw [retainAtM, hget]
  rfl

namespace Tracks

theorem index_eq_none (h : m.Tracks s) : m.index[k]? = none ↔ hasKey (s.map Prod.snd) k = false := by
  rw [Option.eq_none_iff_forall_ne_some]
  simp only [ne_eq, h.index, hasKey, List.any_map, List.any_eq_false]
  constructor
  · intro hk p hp hpk
    exact hk p.1 ⟨p.2, hp, hpk⟩
  · rintro hk i ⟨e, he, hek⟩
    exact hk (i, e) he hek

theorem split_of_index (h : m.Tracks s) (hi : m.index[k]? = some i) :
    ∃ l e r, s = l ++ (i, e) :: r ∧ (e.1 == k) = true := by
  obtain ⟨e, he, hek⟩ := (h.index k i).1 hi
  obtain ⟨l, r, rfl⟩ := List.append_of_mem he
  exact ⟨l, e, r, rfl, hek⟩

variable [EquivBEq K]

theorem of_perm {n : OrderedMap K V} {t : List (Id × K × V)} (h : m.Tracks s)
    (hc : n.entries.Holds t) (hn : n.index = m.index) (hp : (t.map place).Perm (s.map place)) :
    n.Tracks t where
  chain := hc
  distinct := by
    have hkeys : ∀ u : List (Id × K × V),
        (u.map Prod.snd).map Prod.fst = (u.map place).map Prod.snd := by simp [place]
    have hd := h.distinct
    rw [Distinct, hkeys] at hd ⊢
    exact ((hp.map Prod.snd).pairwise_iff fun hab ↦ by rwa [BEq.comm]).2 hd
  index k i := by
    have hplace : ∀ u : List (Id × K × V), (∃ e, (i, e) ∈ u ∧ (e.1 == k) = true) ↔
        ∃ k', (i, k') ∈ u.map place ∧ (k' == k) = true := by simp [place]
    rw [hn, h.index, hplace, hplace]
    simp only [hp.mem_iff]
  size := by rw [hn, h.size, ← List.length_map place, ← hp.length_eq, List.length_map]

theorem setValue (h : m.Tracks s) (i : Id) (f : V → V) :
    (m.setValue i f).Tracks (alter s i fun e ↦ (e.1, f e.2)) := by
  refine h.of_perm (h.chain.modify i fun e ↦ (e.1, f e.2)) rfl (.of_eq ?_)
  simp only [alter, List.map_map, List.map_inj_left, Function.comp_apply]
  intro p _
  split <;> rfl

theorem use (h : m.Tracks s) (i : Id) : (m.use i).Tracks (match m.order with
    | .insertion => s
    | .access => toEnd s i) := by
  rw [OrderedMap.use]
  cases m.order with
  | insertion => exact h
  | access => exact h.of_perm (h.chain.moveToBack i).2 rfl ((toEnd_perm s i).map place)

theorem beq_id_eq (h : m.Tracks s) (hi : m.index[k]? = some i) :
    ∀ p ∈ s, (p.1 == i) = (p.2.1 == k) := by
  obtain ⟨e, he, hek⟩ := (h.index k i).1 hi
  intro p hp
  rw [Bool.eq_iff_iff]
  constructor
  · intro hpi
    have hpe : p = (i, e) := h.chain.distinct.eq_of_mem hp he hpi
    rw [hpe]
    exact hek
  · intro hpk
    have hpe : p = (i, e) := h.distinct.eq_of_beq hp he (BEq.trans hpk (BEq.symm hek))
    rw [hpe]
    exact beq_self_eq_true i

theorem entry (h : m.Tracks s) (hi : m.index[k]? = some i) :
    m.entries.get? i = lookup? (s.map Prod.snd) k := by
  obtain ⟨l, e, r, rfl, hek⟩ := h.split_of_index hi
  have hd := h.distinct
  rw [List.map_append, List.map_cons] at hd ⊢
  rw [hd.lookup?_split hek]
  exact h.chain.get?_eq_some.2 (by simp)

variable [LawfulHashable K]

theorem contains_index (h : m.Tracks s) (k : K) : m.index.contains k = hasKey (s.map Prod.snd) k := by
  rw [Std.HashMap.contains_eq_isSome_getElem?]
  cases hi : m.index[k]? with
  | none => exact (h.index_eq_none.1 hi).symm
  | some i =>
    obtain ⟨e, he, hek⟩ := (h.index k i).1 hi
    exact (List.any_eq_true.2 ⟨e, List.mem_map_of_mem he, hek⟩).symm

theorem push (h : m.Tracks s) (hk : hasKey (s.map Prod.snd) k = false) (v : V) :
    Tracks { m with
      entries := (m.entries.pushBack (k, v)).2
      index := m.index.insert k (m.entries.pushBack (k, v)).1 }
      (s ++ [((m.entries.pushBack (k, v)).1, k, v)]) where
  chain := (h.chain.pushBack (k, v)).2
  distinct := by
    rw [List.map_append]
    exact h.distinct.push hk
  index k' j := by
    rw [Std.HashMap.getElem?_insert]
    split
    · next hkk =>
      have hnone : m.index[k']? = none := h.index_eq_none.2 (by rwa [← hasKey_congr hkk])
      constructor
      · intro hj
        exact ⟨(k, v), by simp [Option.some.inj hj], hkk⟩
      · rintro ⟨e, he, hek⟩
        rcases List.mem_append.1 he with he | he
        · simp [(h.index k' j).2 ⟨e, he, hek⟩] at hnone
        · simp_all
    · next hkk =>
      rw [h.index]
      constructor
      · rintro ⟨e, he, hek⟩
        exact ⟨e, List.mem_append_left _ he, hek⟩
      · rintro ⟨e, he, hek⟩
        rcases List.mem_append.1 he with he | he
        · exact ⟨e, he, hek⟩
        · simp_all
  size := by
    have hin : k ∉ m.index := by
      rw [Std.HashMap.mem_iff_contains, h.contains_index, hk]
      simp
    simp [Std.HashMap.size_insert, hin, h.size]

theorem drop (h : m.Tracks (l ++ (i, e) :: r)) {entries : Chain (K × V)}
    (hc : entries.Holds (l ++ r)) (hk : (e.1 == k) = true) :
    Tracks { m with entries, index := m.index.erase k } (l ++ r) where
  chain := hc
  distinct := h.distinct.sublist (by simp)
  index k' j := by
    have hd := h.distinct
    rw [List.map_append, List.map_cons] at hd
    rw [Std.HashMap.getElem?_erase]
    split
    · next hkk =>
      obtain ⟨hl, hr⟩ := hd.around (BEq.trans hk hkk)
      have hno : hasKey ((l ++ r).map Prod.snd) k' = false := by
        rw [List.map_append, hasKey_append, hl, hr]
        rfl
      simp only [reduceCtorEq, false_iff, not_exists, not_and]
      intro e' he'
      exact List.any_eq_false.1 hno e' (List.mem_map_of_mem he')
    · next hkk =>
      rw [h.index]
      constructor
      · rintro ⟨e', he', hek'⟩
        rw [List.mem_append, List.mem_cons, Prod.mk.injEq] at he'
        rcases he' with he' | ⟨rfl, rfl⟩ | he'
        · exact ⟨e', List.mem_append_left r he', hek'⟩
        · exact absurd (BEq.trans (BEq.symm hk) hek') hkk
        · exact ⟨e', List.mem_append_right l he', hek'⟩
      · rintro ⟨e', he', hek'⟩
        have hsub : (l ++ r).Sublist (l ++ (i, e) :: r) := by simp
        exact ⟨e', hsub.subset he', hek'⟩
  size := by
    have hin : k ∈ m.index := by
      rw [Std.HashMap.mem_iff_contains, h.contains_index]
      simp [hasKey, hk]
    have hs := h.size
    simp only [List.length_append, List.length_cons] at hs
    simp [Std.HashMap.size_erase, hin]
    omega

theorem popEldest (h : m.Tracks s) :
    m.popEldest.1 = s.head?.map Prod.snd ∧ m.popEldest.2.Tracks s.tail := by
  obtain ⟨he, hc⟩ := h.chain.popFront
  cases s with
  | nil =>
    rw [OrderedMap.popEldest, forget_of_none he]
    exact ⟨rfl, h.of_perm hc rfl (.refl _)⟩
  | cons p s =>
    rw [OrderedMap.popEldest, forget_of_some he]
    exact ⟨rfl, drop (l := []) h hc BEq.rfl⟩

theorem popNewest (h : m.Tracks s) :
    m.popNewest.1 = s.getLast?.map Prod.snd ∧ m.popNewest.2.Tracks s.dropLast := by
  obtain ⟨he, hc⟩ := h.chain.popBack
  rcases s.eq_nil_or_concat' with rfl | ⟨l, p, rfl⟩
  · rw [OrderedMap.popNewest, forget_of_none he]
    exact ⟨rfl, h.of_perm hc rfl (.refl _)⟩
  · rw [List.getLast?_concat, Option.map_some] at he ⊢
    rw [List.dropLast_concat] at hc ⊢
    rw [OrderedMap.popNewest, forget_of_some he]
    refine ⟨rfl, ?_⟩
    rw [← List.append_nil l] at hc ⊢
    exact h.drop hc BEq.rfl

theorem settle {v₀ : V} (h : m.Tracks (l ++ (i, k, v₀) :: r)) (v : V) (stays : Bool) :
    (m.settle i v stays).Tracks (if stays then l ++ (i, k, v) :: r else l ++ r) := by
  have hid := beq_self_eq_true i
  have hw := h.setValue i fun _ ↦ v
  rw [h.chain.distinct.alter_split hid] at hw
  cases stays with
  | true => exact hw
  | false =>
    obtain ⟨he, hc⟩ := hw.chain.remove i
    rw [hw.chain.distinct.value?_split hid] at he
    rw [hw.chain.distinct.without_split hid] at hc
    rw [OrderedMap.settle, if_neg Bool.false_ne_true, forget_of_some he]
    exact hw.drop hc BEq.rfl

/-- Of the entries behind `kept`, visits leave those that stay. -/
theorem retainAt {σ : Type} {kept todo : List (Id × K × V)} (h : m.Tracks (kept ++ todo))
    (visit : K → V → StateM σ (V × Bool)) (start : σ) :
    let left := (siftM visit (todo.map Prod.snd)).run start
    let rest := (m.retainAtM visit (todo.map Prod.fst)).run start
    rest.2 = left.2 ∧ rest.1.order = m.order ∧
      ∃ t, rest.1.Tracks (kept ++ t) ∧ t.map Prod.snd = left.1 := by
  induction todo generalizing m kept start with
  | nil => exact ⟨rfl, rfl, [], h, rfl⟩
  | cons p todo ih =>
    obtain ⟨i, k, v₀⟩ := p
    have hget : m.entries.get? i = some (k, v₀) := h.chain.get?_eq_some.2 (by simp)
    rw [List.map_cons, List.map_cons, run_retainAtM_cons hget, run_siftM_cons]
    obtain ⟨⟨v, stays⟩, met⟩ := (visit k v₀).run start
    have hs := h.settle v stays
    cases stays with
    | true =>
      have hs' : (m.settle i v true).Tracks ((kept ++ [(i, k, v)]) ++ todo) := by simpa using hs
      obtain ⟨hend, ho, t, ht, hl⟩ := ih hs' met
      rw [order_settle] at ho
      exact ⟨hend, ho, (i, k, v) :: t, by simpa using ht, congrArg (List.cons (k, v)) hl⟩
    | false =>
      obtain ⟨hend, ho, t, ht, hl⟩ := ih hs met
      rw [order_settle] at ho
      exact ⟨hend, ho, t, ht, hl⟩

end Tracks

end Holdall.OrderedMap
