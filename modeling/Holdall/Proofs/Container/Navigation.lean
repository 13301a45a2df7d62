import Holdall.Container.SortedSet
import Holdall.Item.Basic
import Mathlib.Data.List.Basic

namespace Holdall

variable {K V A : Type} [Ord K] {key : A → K} {es : List A} {ks : List K} {f c k x y : K}

/-- The greatest key that is not above `x`, or none where all are. -/
def IsFloor (ks : List K) (x : K) : Option K → Prop
  | none => ∀ k ∈ ks, compare k x = .gt
  | some f => f ∈ ks ∧ (compare f x).isLE ∧ ∀ k ∈ ks, (compare k x).isLE → (compare k f).isLE

/-- The least key that is not below `x`, or none where all are. -/
def IsCeiling (ks : List K) (x : K) : Option K → Prop
  | none => ∀ k ∈ ks, compare k x = .lt
  | some c => c ∈ ks ∧ (compare c x).isGE ∧ ∀ k ∈ ks, (compare k x).isGE → (compare c k).isLE

/-- What ranges of things in a row, each with a key, have to do with each other and with the keys next
to the one that is asked for. -/
structure Navigates (key : A → K) (es : List A) (contains : K → Bool)
    (range? : Bound K → Bound K → Option (List A)) (head tail : K → List A)
    (between : K → K → List A) (floor? ceiling? : K → Option K) : Prop where
  present x : contains x = true ↔ ∃ e ∈ es, compare (key e) x = .eq
  head_range x : range? .unbounded (.excluded x) = some (head x)
  tail_range x : range? (.included x) .unbounded = some (tail x)
  between_range x y : range? (.included x) (.excluded y) =
    if compare x y = .gt then none else some (between x y)
  between_empty x y : (compare x y).isGE → between x y = []
  split x : head x ++ tail x = es
  below x : ∀ e ∈ head x, compare (key e) x = .lt
  onward x : ∀ e ∈ tail x, (compare (key e) x).isGE
  first x : contains x = true → ∃ e ∈ (tail x).head?, compare (key e) x = .eq
  floor_range x : ∃ es', range? .unbounded (.included x) = some es' ∧ floor? x = es'.getLast?.map key
  ceiling_range x : ceiling? x = (tail x).head?.map key
  floor x : IsFloor (es.map key) x (floor? x)
  ceiling x : IsCeiling (es.map key) x (ceiling? x)
  meet x : (∃ f ∈ floor? x, ∃ c ∈ ceiling? x, compare f x = .eq ∧ compare c x = .eq) ↔
    contains x = true
  adjacent x : contains x = false → ∀ f ∈ floor? x, ∀ c ∈ ceiling? x,
    ∃ before after, es.map key = before ++ f :: c :: after

theorem filter_append_filter_not {p : A → Bool} (h : es.Pairwise fun a b ↦ p b = true → p a = true) :
    es.filter p ++ es.filter (fun e ↦ !p e) = es := by
  induction es with
  | nil => rfl
  | cons e es ih =>
    obtain ⟨he, hes⟩ := List.pairwise_cons.1 h
    cases hp : p e with
    | true =>
      rw [List.filter_cons_of_pos hp, List.filter_cons_of_neg (by simp [hp]), List.cons_append, ih hes]
    | false =>
      have hnone : ∀ e' ∈ e :: es, ¬ p e' = true := by
        intro e' he' hpe'
        rcases List.mem_cons.1 he' with rfl | he'
        · exact absurd hpe' (by simp [hp])
        · exact absurd (he e' he' hpe') (by simp [hp])
      rw [List.filter_eq_nil_iff.2 hnone, List.filter_eq_self.2 fun e' he' ↦ by simpa using hnone e' he']
      rfl

variable [Std.TransOrd K]

def Ascending (key : A → K) (es : List A) : Prop := es.Pairwise fun a b ↦ compare (key a) (key b) = .lt

namespace Ascending

theorem split (h : Ascending key es) (x : K) :
    es.filter (fun e ↦ compare (key e) x == .lt) ++ es.filter (fun e ↦ (compare (key e) x).isGE) =
      es := by
  have hdown : es.Pairwise fun a b ↦ (compare (key b) x == .lt) = true →
      (compare (key a) x == .lt) = true := by
    refine h.imp fun hab hb ↦ ?_
    rw [beq_iff_eq] at hb ⊢
    exact Std.TransCmp.lt_trans hab hb
  have hrest : ∀ e, (compare (key e) x).isGE = !(compare (key e) x == .lt) := by
    intro e
    cases compare (key e) x <;> rfl
  simp only [hrest]
  exact filter_append_filter_not hdown

theorem isFloor (h : Ascending key es) (x : K) : IsFloor (es.map key) x
    ((es.filter fun e ↦ (compare (key e) x).isLE).getLast?.map key) := by
  cases hlast : (es.filter fun e ↦ (compare (key e) x).isLE).getLast? with
  | none =>
    intro k hk
    obtain ⟨e, he, rfl⟩ := List.mem_map.1 hk
    simpa using List.filter_eq_nil_iff.1 (List.getLast?_eq_none_iff.1 hlast) e he
  | some e =>
    obtain ⟨init, hinit⟩ := List.getLast?_eq_some_iff.1 hlast
    have he : e ∈ es.filter fun e ↦ (compare (key e) x).isLE := by simp [hinit]
    have hasc : Ascending key (init ++ [e]) := hinit ▸ h.sublist List.filter_sublist
    refine ⟨List.mem_map_of_mem (List.mem_filter.1 he).1, (List.mem_filter.1 he).2, ?_⟩
    intro k hk hkx
    obtain ⟨e', he', rfl⟩ := List.mem_map.1 hk
    have hin : e' ∈ init ++ [e] := hinit ▸ List.mem_filter.2 ⟨he', hkx⟩
    rcases List.mem_append.1 hin with hbefore | hself
    · rw [(List.pairwise_append.1 hasc).2.2 e' hbefore e List.mem_cons_self]
      rfl
    · rw [List.mem_singleton.1 hself]
      exact Std.ReflCmp.isLE_rfl

theorem isCeiling (h : Ascending key es) (x : K) : IsCeiling (es.map key) x
    ((es.filter fun e ↦ (compare (key e) x).isGE).head?.map key) := by
  cases hhead : (es.filter fun e ↦ (compare (key e) x).isGE).head? with
  | none =>
    intro k hk
    obtain ⟨e, he, rfl⟩ := List.mem_map.1 hk
    simpa using List.filter_eq_nil_iff.1 (List.head?_eq_none_iff.1 hhead) e he
  | some e =>
    obtain ⟨rest, hrest⟩ := List.head?_eq_some_iff.1 hhead
    have he : e ∈ es.filter fun e ↦ (compare (key e) x).isGE := by simp [hrest]
    have hasc : Ascending key (e :: rest) := hrest ▸ h.sublist List.filter_sublist
    refine ⟨List.mem_map_of_mem (List.mem_filter.1 he).1, (List.mem_filter.1 he).2, ?_⟩
    intro k hk hkx
    obtain ⟨e', he', rfl⟩ := List.mem_map.1 hk
    have hin : e' ∈ e :: rest := hrest ▸ List.mem_filter.2 ⟨he', hkx⟩
    rcases List.mem_cons.1 hin with rfl | hafter
    · exact Std.ReflCmp.isLE_rfl
    · rw [(List.pairwise_cons.1 hasc).1 e' hafter]
      rfl

theorem adjacent (h : Ascending key es) (hx : ∀ e ∈ es, compare (key e) x ≠ .eq)
    (hf : f ∈ (es.filter fun e ↦ (compare (key e) x).isLE).getLast?.map key)
    (hc : c ∈ (es.filter fun e ↦ (compare (key e) x).isGE).head?.map key) :
    ∃ before after, es.map key = before ++ f :: c :: after := by
  have hbelow : (es.filter fun e ↦ (compare (key e) x).isLE) =
      es.filter fun e ↦ compare (key e) x == .lt := by
    refine List.filter_congr fun e he ↦ ?_
    have hne := hx e he
    cases hcmp : compare (key e) x with
    | eq => exact absurd hcmp hne
    | lt | gt => rfl
  rw [hbelow] at hf
  obtain ⟨a, ha, rfl⟩ := Option.map_eq_some_iff.1 hf
  obtain ⟨b, hb, rfl⟩ := Option.map_eq_some_iff.1 hc
  obtain ⟨init, hinit⟩ := List.getLast?_eq_some_iff.1 ha
  obtain ⟨rest, hrest⟩ := List.head?_eq_some_iff.1 hb
  refine ⟨init.map key, rest.map key, ?_⟩
  rw [← h.split x, hinit, hrest, List.append_assoc, List.map_append]
  rfl

end Ascending

theorem IsFloor.compare_eq (h : IsFloor ks x (some f)) (hk : k ∈ ks) (hkx : compare k x = .eq) :
    compare f x = .eq := by
  obtain ⟨-, hle, hmax⟩ := h
  have hkf : (compare k f).isLE := hmax k hk (by simp [hkx])
  rw [Std.TransCmp.congr_left hkx] at hkf
  exact Std.OrientedCmp.isLE_antisymm hle hkf

theorem IsCeiling.compare_eq (h : IsCeiling ks x (some c)) (hk : k ∈ ks) (hkx : compare k x = .eq) :
    compare c x = .eq := by
  obtain ⟨-, hge, hmin⟩ := h
  have hck : (compare c k).isLE := hmin k hk (by simp [hkx])
  rw [Std.TransCmp.congr_right hkx] at hck
  exact Std.OrientedCmp.isLE_antisymm hck (Std.OrientedCmp.isLE_of_isGE hge)

theorem meet_iff {floor? ceiling? : Option K} (hf : IsFloor ks x floor?) (hc : IsCeiling ks x ceiling?) :
    (∃ f ∈ floor?, ∃ c ∈ ceiling?, compare f x = .eq ∧ compare c x = .eq) ↔
      ∃ k ∈ ks, compare k x = .eq := by
  constructor
  · rintro ⟨f, rfl, -, -, hfx, -⟩
    exact ⟨f, hf.1, hfx⟩
  · rintro ⟨k, hk, hkx⟩
    cases floor? with
    | none => exact absurd (hf k hk) (by simp [hkx])
    | some f =>
      cases ceiling? with
      | none => exact absurd (hc k hk) (by simp [hkx])
      | some c => exact ⟨f, rfl, c, rfl, hf.compare_eq hk hkx, hc.compare_eq hk hkx⟩

def within (key : A → K) (es : List A) (x y : K) : List A :=
  es.filter fun e ↦ (compare (key e) x).isGE && compare (key e) y == .lt

theorem within_eq_nil (key : A → K) (es : List A) (h : (compare x y).isGE) : within key es x y = [] := by
  refine List.filter_eq_nil_iff.2 fun e _ he ↦ ?_
  obtain ⟨hx, hy⟩ := Bool.and_eq_true_iff.1 he
  have hge : (compare (key e) y).isGE := Std.TransCmp.isGE_trans hx h
  rw [beq_iff_eq.1 hy] at hge
  exact absurd hge nofun

theorem Ascending.navigates (h : Ascending key es) {contains : K → Bool}
    {range? : Bound K → Bound K → Option (List A)} {head tail : K → List A}
    {between : K → K → List A} {floor? ceiling? : K → Option K}
    (hcontains : ∀ x, contains x = es.any fun e ↦ compare (key e) x == .eq)
    (hrange : ∀ lower upper : Bound K, range? lower upper = if lower.spans upper then
      some (es.filter fun e ↦ lower.opens (key e) && upper.closes (key e)) else none)
    (hhead : ∀ x, head x = es.filter fun e ↦ compare (key e) x == .lt)
    (htail : ∀ x, tail x = es.filter fun e ↦ (compare (key e) x).isGE)
    (hbetween : ∀ x y, between x y = within key es x y)
    (hfloor : ∀ x, floor? x = (es.filter fun e ↦ (compare (key e) x).isLE).getLast?.map key)
    (hceiling : ∀ x, ceiling? x = (es.filter fun e ↦ (compare (key e) x).isGE).head?.map key) :
    Navigates key es contains range? head tail between floor? ceiling? := by
  have hpresent : ∀ x, contains x = true ↔ ∃ e ∈ es, compare (key e) x = .eq := by
    intro x
    rw [hcontains, List.any_eq_true]
    simp only [beq_iff_eq]
  have hmeet : ∀ x, (∃ f ∈ floor? x, ∃ c ∈ ceiling? x, compare f x = .eq ∧ compare c x = .eq) ↔
      contains x = true := by
    intro x
    rw [hfloor, hceiling, meet_iff (h.isFloor x) (h.isCeiling x), hpresent]
    simp
  constructor
  case present => exact hpresent
  case meet => exact hmeet
  case head_range =>
    intro x
    rw [hrange, hhead]
    rfl
  case tail_range =>
    intro x
    rw [hrange, htail]
    simp [Bound.spans, Bound.opens, Bound.closes]
  case between_range =>
    intro x y
    rw [hrange, hbetween]
    cases hxy : compare x y <;> simp [Bound.spans, hxy, Bound.opens, Bound.closes, within]
  case between_empty =>
    intro x y hxy
    rw [hbetween, within_eq_nil key es hxy]
  case split =>
    intro x
    rw [hhead, htail, h.split]
  case below =>
    intro x e he
    rw [hhead] at he
    simpa using (List.mem_filter.1 he).2
  case onward =>
    intro x e he
    rw [htail] at he
    exact (List.mem_filter.1 he).2
  case first =>
    intro x hx
    obtain ⟨f, -, c, hc, -, hcx⟩ := (hmeet x).2 hx
    rw [hceiling, ← htail] at hc
    obtain ⟨e, he, rfl⟩ := Option.map_eq_some_iff.1 hc
    exact ⟨e, he, hcx⟩
  case floor_range =>
    intro x
    rw [hrange, hfloor]
    exact ⟨_, rfl, rfl⟩
  case ceiling_range =>
    intro x
    rw [hceiling, htail]
  case floor =>
    intro x
    rw [hfloor]
    exact h.isFloor x
  case ceiling =>
    intro x
    rw [hceiling]
    exact h.isCeiling x
  case adjacent =>
    intro x hx f hf c hc
    have habsent : ∀ e ∈ es, compare (key e) x ≠ .eq := by
      intro e he hex
      rw [(hpresent x).2 ⟨e, he, hex⟩] at hx
      exact absurd hx nofun
    rw [hfloor] at hf
    rw [hceiling] at hc
    exact h.adjacent habsent hf hc

namespace SortedMap

variable (m : SortedMap K V)

theorem entries_head (x : K) :
    (m.head x).entries = m.entries.filter fun e ↦ compare e.1 x == .lt := m.entries_ofList_range rfl

theorem entries_tail (x : K) :
    (m.tail x).entries = m.entries.filter fun e ↦ (compare e.1 x).isGE := by
  refine (m.entries_ofList_range rfl).trans ?_
  simp only [Bound.opens, Bound.closes, Bool.and_true]

theorem entries_between (x y : K) : (m.between x y).entries = within Prod.fst m.entries x y := by
  rw [between]
  split
  next hgt =>
    rw [within_eq_nil Prod.fst m.entries (by simp [hgt])]
    rfl
  next hle => exact m.entries_ofList_range (Bound.spans_excluded_iff.2 hle)

omit [Std.TransOrd K] in
theorem floorKey?_eq (x : K) : m.floorKey? x =
    (m.entries.filter fun e ↦ (compare e.1 x).isLE).getLast?.map Prod.fst := by
  rw [floorKey?, get_range? m rfl]
  rfl

omit [Std.TransOrd K] in
theorem ceilingKey?_eq (x : K) : m.ceilingKey? x =
    (m.entries.filter fun e ↦ (compare e.1 x).isGE).head?.map Prod.fst := by
  rw [ceilingKey?, get_range? m rfl]
  simp only [Bound.opens, Bound.closes, Bool.and_true]

theorem navigates : Navigates Prod.fst m.entries m.contains m.range? (fun x ↦ (m.head x).entries)
    (fun x ↦ (m.tail x).entries) (fun x y ↦ (m.between x y).entries) m.floorKey? m.ceilingKey? :=
  Ascending.navigates (List.pairwise_map.1 m.ascending) (fun _ ↦ rfl) (fun _ _ ↦ rfl) m.entries_head
    m.entries_tail m.entries_between m.floorKey?_eq m.ceilingKey?_eq

theorem between_eq (x y : K) : m.between x y = (m.tail x).head y := by
  apply SortedMap.ext
  rw [entries_between, entries_head, entries_tail, List.filter_filter, within]
  exact List.filter_congr fun e _ ↦ Bool.and_comm _ _

end SortedMap

namespace SortedSet

variable (s : SortedSet K)

theorem ofList_keys (es : List (K × Unit)) : ofList (es.map Prod.fst) = ⟨.ofList es⟩ := by
  rw [ofList, List.map_map]
  exact congrArg (fun es ↦ SortedSet.mk (.ofList es)) (List.map_id es)

theorem ofList_range {lower upper : Bound K} (h : lower.spans upper = true) :
    ofList ((s.range? lower upper).get (s.isSome_range? h)) =
      ⟨.ofList ((s.table.range? lower upper).get (s.table.isSome_range? h))⟩ := by
  rw [get_range? s h, ofList_keys]

theorem head_eq (x : K) : s.head x = ⟨s.table.head x⟩ := s.ofList_range rfl

theorem tail_eq (x : K) : s.tail x = ⟨s.table.tail x⟩ := s.ofList_range rfl

theorem between_eq (x y : K) : s.between x y = ⟨s.table.between x y⟩ := by
  rw [between, SortedMap.between]
  split
  · rfl
  next hle => exact s.ofList_range (Bound.spans_excluded_iff.2 hle)

omit [Std.TransOrd K] in
theorem filter_items (p : K → Bool) :
    s.items.filter p = (s.table.entries.filter fun e ↦ p e.1).map Prod.fst := List.filter_map

theorem items_head (x : K) : (s.head x).items = s.items.filter fun k ↦ compare k x == .lt := by
  rw [head_eq, filter_items, ← SortedMap.entries_head]
  rfl

theorem items_tail (x : K) : (s.tail x).items = s.items.filter fun k ↦ (compare k x).isGE := by
  rw [tail_eq, filter_items, ← SortedMap.entries_tail]
  rfl

theorem items_between (x y : K) : (s.between x y).items = within id s.items x y := by
  rw [between_eq, within, filter_items]
  exact congrArg (List.map Prod.fst) (s.table.entries_between x y)

omit [Std.TransOrd K] in
theorem range?_eq (lower upper : Bound K) : s.range? lower upper = if lower.spans upper then
    some (s.items.filter fun k ↦ lower.opens k && upper.closes k) else none := by
  rw [range?, SortedMap.range?, filter_items, apply_ite (Option.map _)]
  rfl

omit [Std.TransOrd K] in
theorem floor?_eq (x : K) :
    s.floor? x = (s.items.filter fun k ↦ (compare k x).isLE).getLast?.map id := by
  rw [floor?, get_range? s rfl, SortedMap.get_range? _ rfl, filter_items, Option.map_id]
  rfl

omit [Std.TransOrd K] in
theorem ceiling?_eq (x : K) :
    s.ceiling? x = (s.items.filter fun k ↦ (compare k x).isGE).head?.map id := by
  rw [ceiling?, get_range? s rfl, SortedMap.get_range? _ rfl, filter_items, Option.map_id]
  simp only [Bound.opens, Bound.closes, Bool.and_true, id]

omit [Std.TransOrd K] in
theorem contains_eq (x : K) : s.contains x = s.items.any fun k ↦ compare k x == .eq := by
  rw [items, SortedMap.keys, List.any_map]
  rfl

theorem navigates : Navigates id s.items s.contains s.range? (fun x ↦ (s.head x).items)
    (fun x ↦ (s.tail x).items) (fun x y ↦ (s.between x y).items) s.floor? s.ceiling? := by
  have hascending : Ascending id s.items := s.table.ascending
  exact hascending.navigates s.contains_eq s.range?_eq s.items_head s.items_tail s.items_between
    s.floor?_eq s.ceiling?_eq

theorem between_eq_head_tail (x y : K) : s.between x y = (s.tail x).head y := by
  rw [between_eq, tail_eq, head_eq, SortedMap.between_eq]

end SortedSet

/-- In a sorted set and in a sorted map, what is below a key and the rest make up the whole, a range has
what is below its end in the rest from its beginning, and floor and ceiling are the neighbours of the
key that is asked for, or that key. No range is taken whose bounds do not span one. -/
theorem navigation (s : SortedSet K) (m : SortedMap K V) :
    (Navigates id s.items s.contains s.range? (fun x ↦ (s.head x).items) (fun x ↦ (s.tail x).items)
        (fun x y ↦ (s.between x y).items) s.floor? s.ceiling? ∧
      ∀ x y, s.between x y = (s.tail x).head y) ∧
    (Navigates Prod.fst m.entries m.contains m.range? (fun x ↦ (m.head x).entries)
        (fun x ↦ (m.tail x).entries) (fun x y ↦ (m.between x y).entries) m.floorKey? m.ceilingKey? ∧
      ∀ x y, m.between x y = (m.tail x).head y) :=
  ⟨⟨s.navigates, s.between_eq_head_tail⟩, m.navigates, m.between_eq⟩

theorem navigation_folded : Std.TransOrd Item ∧
    let s : SortedSet Item := .ofList [.folded "b", .int 3, .text "a"]
    let m : SortedMap Item ℕ := .ofList [(.folded "b", 1), (.int 3, 2), (.folded "B", 4)]
    (∃ x ∈ (s.tail (.folded "B")).items.head?, compare x (.folded "B") = .eq) ∧
    (s.between (.text "a") (.int 3)).items = [] ∧
    (m.head (.folded "b")).entries ++ (m.tail (.folded "b")).entries =
      [(.int 3, 2), (.folded "B", 4)] ∧
    IsFloor [.int 3, .folded "B"] (.text "c") (m.floorKey? (.text "c")) := by
  refine ⟨inferInstance, ?_⟩
  intro s m
  obtain ⟨⟨hs, -⟩, hm, -⟩ := navigation s m
  have hb : s.contains (.folded "B") = true := by decide
  exact ⟨hs.first _ hb, hs.between_empty _ _ (by decide), hm.split _, hm.floor _⟩

end Holdall
