import Holdall.Proofs.BoundedMap.Overflow

namespace Holdall

open Association

variable {K V L : Type} [BEq K]

namespace Association

variable {s t l r : List (K × V)} {e : K × V} {k j : K} {n p : ℕ}

/-- The number of entries behind that of a key. -/
def rank? (s : List (K × V)) (k : K) : Option ℕ :=
  (s.findIdx? (·.1 == k)).map fun place ↦ s.length - 1 - place

theorem isSome_rank? (s : List (K × V)) (k : K) : (rank? s k).isSome = hasKey s k := by
  rw [rank?, Option.isSome_map, List.findIdx?_isSome, hasKey]

theorem rank?_of_absent (h : hasKey s k = false) : rank? s k = none := by
  rw [← Option.isNone_iff_eq_none, ← Option.not_isSome, isSome_rank?, h]
  rfl

theorem rank?_congr [EquivBEq K] (h : (k == j) = true) (s : List (K × V)) : rank? s k = rank? s j := by
  simp only [rank?, BEq.congr_right h]

theorem rank?_eq_of_keys (h : s.map Prod.fst = t.map Prod.fst) (k : K) : rank? s k = rank? t k := by
  have hkeys : ∀ u : List (K × V), rank? u k =
      ((u.map Prod.fst).findIdx? (· == k)).map fun place ↦ (u.map Prod.fst).length - 1 - place := by
    intro u
    rw [List.findIdx?_map, List.length_map]
    rfl
  rw [hkeys, hkeys, h]

theorem keys_use_alter (order : EntryOrder) (s : List (K × V)) (k : K) (f : V → V) :
    (use order (alter s k f) k).map Prod.fst = (use order s k).map Prod.fst := by
  cases order with
  | insertion => exact keys_alter s k f
  | access =>
    have hkey : ∀ e : K × V, (if e.1 == k then (e.1, f e.2) else e).1 = e.1 := by
      intro e
      split <;> rfl
    rw [use, use, alter, ← map_toEnd (k := k) fun e _ ↦ by rw [hkey], List.map_map]
    exact List.map_congr_left fun e _ ↦ hkey e

omit [BEq K] in
theorem append_cons_cases {l' r' : List (K × V)} {e' : K × V} (h : l ++ e :: r = l' ++ e' :: r') :
    (l = l' ∧ e = e' ∧ r = r') ∨ (∃ between, l' = l ++ e :: between ∧ r = between ++ e' :: r') ∨
      ∃ between, l = l' ++ e' :: between ∧ r' = between ++ e :: r := by
  rcases List.append_eq_append_iff.1 h with ⟨_ | ⟨x, between⟩, rfl, hr⟩ | ⟨_ | ⟨x, between⟩, rfl, hr⟩
  all_goals simp only [List.nil_append, List.cons_append, List.cons.injEq] at hr
  · exact .inl ⟨(List.append_nil l).symm, hr⟩
  · obtain ⟨rfl, rfl⟩ := hr
    exact .inr (.inl ⟨between, rfl, rfl⟩)
  · exact .inl ⟨List.append_nil l', hr.1.symm, hr.2.symm⟩
  · obtain ⟨rfl, rfl⟩ := hr
    exact .inr (.inr ⟨between, rfl, rfl⟩)

namespace Distinct

variable [EquivBEq K]

theorem rank?_split (h : Distinct (l ++ e :: r)) (hk : (e.1 == k) = true) :
    rank? (l ++ e :: r) k = some r.length := by
  have hl : l.findIdx? (·.1 == k) = none := by
    rw [List.findIdx?_eq_none_iff]
    intro e' he'
    simpa using List.any_eq_false.1 (h.around hk).1 e' he'
  rw [rank?, List.findIdx?_append, hl, List.findIdx?_cons, if_pos hk]
  simp

theorem rank?_eq_some (h : Distinct s) :
    rank? s k = some n ↔ ∃ l e r, s = l ++ e :: r ∧ (e.1 == k) = true ∧ r.length = n := by
  constructor
  · intro hn
    cases hk : hasKey s k with
    | false => rw [rank?_of_absent hk] at hn; cases hn
    | true =>
      obtain ⟨e, he, hek⟩ := exists_mem_of_hasKey hk
      obtain ⟨l, r, rfl⟩ := List.append_of_mem he
      rw [h.rank?_split hek, Option.some_inj] at hn
      exact ⟨l, e, r, rfl, hek, hn⟩
  · rintro ⟨l, e, r, rfl, hek, rfl⟩
    exact h.rank?_split hek

theorem beq_of_rank?_eq (h : Distinct s) (hk : rank? s k = some n) (hj : rank? s j = some n) :
    (k == j) = true := by
  obtain ⟨l, e, r, rfl, hek, hr⟩ := h.rank?_eq_some.1 hk
  obtain ⟨l', e', r', hsplit, hej, hr'⟩ := h.rank?_eq_some.1 hj
  have hend := (List.append_inj' hsplit (by rw [List.length_cons, List.length_cons, hr, hr'])).2
  rw [(List.cons.inj hend).1] at hek
  exact BEq.trans (BEq.symm hek) hej

theorem rank?_getElem (h : Distinct s) {i : ℕ} (hi : i < s.length) :
    rank? s s[i].1 = some (s.length - 1 - i) := by
  have hsplit : s.take i ++ s[i] :: s.drop (i + 1) = s := by
    rw [List.getElem_cons_drop, List.take_append_drop]
  rw [h.rank?_eq_some]
  refine ⟨s.take i, s[i], s.drop (i + 1), hsplit.symm, BEq.rfl, ?_⟩
  rw [List.length_drop]
  omega

theorem ranks_eq (h : Distinct s) :
    s.map (fun e ↦ rank? s e.1) = (List.range s.length).reverse.map some := by
  apply List.ext_getElem
  · simp
  · intro i hi _
    rw [List.length_map] at hi
    simp [h.rank?_getElem hi]

/-- What goes to the end passes the entries behind it, and these only. -/
theorem rank?_toEnd (h : Distinct s) (hp : rank? s k = some p) (hn : rank? s j = some n) :
    rank? (Association.toEnd s k) j = some (if n < p then n + 1 else if n = p then 0 else n) := by
  obtain ⟨l, e, r, rfl, hek, rfl⟩ := h.rank?_eq_some.1 hp
  obtain ⟨l', e', r', hsplit, hej, rfl⟩ := h.rank?_eq_some.1 hn
  have hd := h.toEnd k
  rw [h.toEnd_split hek] at hd ⊢
  rw [hd.rank?_eq_some]
  rcases append_cons_cases hsplit with ⟨rfl, rfl, rfl⟩ | ⟨between, rfl, rfl⟩ | ⟨between, rfl, rfl⟩
  · exact ⟨l ++ r, e, [], rfl, hej, by simp⟩
  · refine ⟨l ++ between, e', r' ++ [e], by simp, hej, ?_⟩
    simp only [List.length_append, List.length_cons, List.length_nil]
    rw [if_pos (by omega)]
  · refine ⟨l', e', between ++ r ++ [e], by simp, hej, ?_⟩
    simp only [List.length_append, List.length_cons, List.length_nil]
    rw [if_neg (by omega), if_neg (by omega)]
    omega

end Distinct

end Association

namespace BoundedMap

variable [Hashable K]

/-- The ranks are the numbers below the size, and each is that of one key; equal keys have one rank. From
the eldest entry to the newest they count down to zero. -/
structure Ranked (m : BoundedMap K V L) : Prop where
  defined k : (m.recencyRank? k).isSome = m.contains k
  place_lt k place : m.entries.keys.findIdx? (· == k) = some place → place < m.size
  lt_size k n : m.recencyRank? k = some n → n < m.size
  onto n : n < m.size → ∃ k, m.recencyRank? k = some n
  one_key k j : m.contains k = true → (m.recencyRank? k = m.recencyRank? j ↔ (k == j) = true)
  backwards : m.toList.map (fun e ↦ m.recencyRank? e.1) = (List.range m.size).reverse.map some
  eldest e : m.eldest? = some e → m.recencyRank? e.1 = some (m.size - 1)

/-- A request that reads a key or stores a value under it. -/
inductive Uses (k : K) : Request K V → Prop
  | insert (v : V) : Uses k (.insert k v)
  | get : Uses k (.get k)
  | modify (f : V → V) : Uses k (.modify k f)
  | touch : Uses k (.touch k)

variable [EquivBEq K] [LawfulHashable K] [Listener L K V] {m : BoundedMap K V L} {start : L}
  {order : EntryOrder} {b : BoundedList K V} {k : K} {r : Request K V}

namespace Shows

theorem recencyRank? (h : m.Shows start order b) (k : K) : m.recencyRank? k = rank? b.entries k := by
  have hplace : m.entries.keys.findIdx? (· == k) = b.entries.findIdx? (·.1 == k) := by
    rw [OrderedMap.keys, h.entries.toList, List.findIdx?_map]
    rfl
  rw [BoundedMap.recencyRank?, h.contains, hplace, h.size]
  cases hk : hasKey b.entries k with
  | false => exact (rank?_of_absent hk).symm
  | true =>
    rw [rank?]
    cases b.entries.findIdx? (·.1 == k) <;> rfl

theorem ranked (h : m.Shows start order b) : m.Ranked := by
  have hd := h.entries.distinct
  have hrank : m.recencyRank? = rank? b.entries := funext h.recencyRank?
  have hbackwards : m.toList.map (fun e ↦ m.recencyRank? e.1) =
      (List.range m.size).reverse.map some := by
    rw [hrank, h.toList, h.size]
    exact hd.ranks_eq
  refine ⟨?_, ?_, ?_, ?_, ?_, hbackwards, ?_⟩
  · intro k
    rw [hrank, isSome_rank?, h.contains]
  · intro k place hplace
    obtain ⟨hlt, -⟩ := List.findIdx?_eq_some_iff_getElem.1 hplace
    rwa [OrderedMap.keys, h.entries.toList, List.length_map, ← h.size] at hlt
  · intro k n hn
    rw [hrank] at hn
    obtain ⟨l, e, r, hsplit, -, hr⟩ := hd.rank?_eq_some.1 hn
    rw [h.size, hsplit, List.length_append, List.length_cons]
    omega
  · intro n hn
    have hin : some n ∈ m.toList.map fun e ↦ m.recencyRank? e.1 := by
      rw [hbackwards]
      simpa using hn
    obtain ⟨e, -, he⟩ := List.mem_map.1 hin
    exact ⟨e.1, he⟩
  · intro k j hk
    rw [hrank]
    constructor
    · intro heq
      rw [h.contains, ← isSome_rank?] at hk
      obtain ⟨n, hn⟩ := Option.isSome_iff_exists.1 hk
      exact hd.beq_of_rank?_eq hn (heq ▸ hn)
    · intro hkj
      exact rank?_congr hkj b.entries
  · intro e he
    have hhead : b.entries.head? = some e := by rw [← h.entries.eldest?]; exact he
    obtain ⟨r, hr⟩ := List.head?_eq_some_iff.1 hhead
    rw [hr] at hd
    rw [hrank, h.size, hr]
    exact Distinct.rank?_split (l := []) hd BEq.rfl

end Shows

omit [Hashable K] [EquivBEq K] [LawfulHashable K] in
theorem keys_respond_of_uses (hfits : b.Fits) (hk : hasKey b.entries k = true) (hr : Uses k r) :
    (b.respond order r).2.entries.map Prod.fst = (use order b.entries k).map Prod.fst := by
  cases hr with
  | insert v =>
    have hroom : (Association.insert order b.entries k v).length - b.maxSize = 0 := by
      rw [length_insert, if_pos hk]
      exact Nat.sub_eq_zero_of_le hfits
    simp only [BoundedList.respond, BoundedList.trim, BoundedList.dropEldest]
    rw [hroom, List.drop_zero, Association.insert, if_pos hk, keys_use_alter]
  | get | touch => rfl
  | modify f => exact keys_alter _ k f

namespace Shows

variable (h : m.Shows start order b) (hfits : b.Fits) (hk : m.contains k = true) (hr : Uses k r)

include h hfits hk hr

theorem recencyRank?_respond (j : K) :
    (m.respond r).2.recencyRank? j = rank? (use order b.entries k) j := by
  rw [h.contains] at hk
  rw [(h.respond r).2.recencyRank?, rank?_eq_of_keys (keys_respond_of_uses hfits hk hr)]

theorem contains_respond (j : K) : (m.respond r).2.contains j = m.contains j := by
  rw [← (h.respond r).2.ranked.defined, h.recencyRank?_respond hfits hk hr, isSome_rank?, h.contains]
  exact (use_perm order b.entries k).any_eq

end Shows

/-- Whatever a run has led to, the ranks number the keys from the newest to the eldest. In order of
access a use of a key gives it the rank zero, moves the keys that were newer by one and leaves the older
ones where they are; in order of insertion it moves none. -/
theorem ranks_after (maxSize : ℕ) (start : L) (order : EntryOrder) (rs : List (Request K V)) :
    let m : BoundedMap K V L := Run.after respond (create maxSize start order) rs
    m.Ranked ∧ ∀ k r, Uses k r → m.contains k = true →
      let m' := (m.respond r).2
      (∀ j, m'.contains j = m.contains j) ∧
      (order = .insertion → ∀ j, m'.recencyRank? j = m.recencyRank? j) ∧
      (order = .access → m'.recencyRank? k = some 0 ∧
        ∀ j n p, m.recencyRank? k = some p → m.recencyRank? j = some n →
          (m'.recencyRank? j = some (n + 1) ↔ n < p) ∧ (p < n → m'.recencyRank? j = some n)) := by
  intro m
  have h : m.Shows start order _ := (shows_create maxSize start order).after rs
  have hfits := BoundedList.fits_after (b := ⟨[], maxSize, []⟩) order (Nat.zero_le maxSize) rs
  refine ⟨h.ranked, ?_⟩
  intro k r hr hk m'
  have hrank : ∀ j, m'.recencyRank? j = _ := h.recencyRank?_respond hfits hk hr
  refine ⟨h.contains_respond hfits hk hr, ?_, ?_⟩
  · rintro rfl j
    rw [hrank, h.recencyRank?]
    rfl
  · rintro rfl
    have hmoved : ∀ j n p, m.recencyRank? k = some p → m.recencyRank? j = some n →
        m'.recencyRank? j = some (if n < p then n + 1 else if n = p then 0 else n) := by
      intro j n p hp hn
      rw [h.recencyRank?] at hp hn
      rw [hrank]
      exact h.entries.distinct.rank?_toEnd hp hn
    constructor
    · rw [← h.ranked.defined] at hk
      obtain ⟨p, hp⟩ := Option.isSome_iff_exists.1 hk
      rw [hmoved k p p hp hp, if_neg (lt_irrefl p), if_pos rfl]
    · intro j n p hp hn
      rw [hmoved j n p hp hn, Option.some_inj, Option.some_inj]
      rcases lt_trichotomy n p with hnewer | rfl | holder
      · rw [if_pos hnewer]
        exact ⟨iff_of_true rfl hnewer, fun h ↦ absurd hnewer h.not_gt⟩
      · rw [if_neg (lt_irrefl n), if_pos rfl]
        exact ⟨by omega, fun h ↦ absurd h (lt_irrefl n)⟩
      · rw [if_neg holder.not_gt, if_neg holder.ne']
        exact ⟨by omega, fun _ ↦ rfl⟩

theorem ranks_after_folded : EquivBEq Item ∧ LawfulHashable Item ∧
    let m : BoundedMap Item ℕ (Recorder Item ℕ) := Run.after respond (create 3 ⟨[]⟩)
      [.insert (.text "a") 1, .insert (.folded "b") 2, .insert (.text "c") 3]
    let r : Request Item ℕ := .insert (.folded "B") 4
    let m' := (m.respond r).2
    Uses (.folded "B") r ∧ m.contains (.folded "B") = true ∧
      m.recencyRank? (.folded "B") = some 1 ∧ m'.recencyRank? (.folded "B") = some 0 ∧
      m.recencyRank? (.text "c") = some 0 ∧ m'.recencyRank? (.text "c") = some 1 ∧
      m.recencyRank? (.text "a") = some 2 ∧ m'.recencyRank? (.text "a") = some 2 := by
  refine ⟨inferInstance, inferInstance, ?_⟩
  intro m r m'
  have h : m.Shows ⟨[]⟩ .access _ := (shows_create 3 (Recorder.mk []) .access).after _
  have huses : Uses (.folded "B") r := .insert 4
  have hpresent : m.contains (.folded "B") = true := h.contains (.folded "B")
  have hb : m.recencyRank? (.folded "B") = some 1 := h.recencyRank? (.folded "B")
  have hc : m.recencyRank? (.text "c") = some 0 := h.recencyRank? (.text "c")
  have ha : m.recencyRank? (.text "a") = some 2 := h.recencyRank? (.text "a")
  obtain ⟨-, -, haccess⟩ := (ranks_after 3 (Recorder.mk []) .access _).2 _ _ huses hpresent
  obtain ⟨hfirst, hmoved⟩ := haccess rfl
  refine ⟨huses, hpresent, hb, hfirst, hc, ?_, ha, ?_⟩
  · exact (hmoved _ 0 1 hb hc).1.2 Nat.zero_lt_one
  · exact (hmoved _ 2 1 hb ha).2 Nat.one_lt_two

end BoundedMap

end Holdall
