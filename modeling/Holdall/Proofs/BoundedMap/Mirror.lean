import Holdall.BoundedMap.Plan
import Holdall.Proofs.BoundedMap.Tally

namespace Holdall

open Association

variable {K V W L L' : Type}

namespace Association

def mapValues (g : V → W) (s : List (K × V)) : List (K × W) := s.map (Prod.map id g)

variable (g : V → W) (s : List (K × V))

@[simp] theorem keys_mapValues : (mapValues g s).map Prod.fst = s.map Prod.fst := by
  simp [mapValues]

@[simp] theorem length_mapValues : (mapValues g s).length = s.length := List.length_map _

variable [BEq K] (order : EntryOrder) (k : K)

@[simp] theorem hasKey_mapValues : hasKey (mapValues g s) k = hasKey s k :=
  hasKey_map fun _ _ ↦ rfl

theorem value?_mapValues : value? (mapValues g s) k = (value? s k).map g := by
  rw [value?, lookup?, mapValues, List.find?_map, Option.map_map, value?, Option.map_map]
  rfl

theorem without_mapValues : without (mapValues g s) k = mapValues g (without s k) :=
  (map_without (f := Prod.map id g) fun _ _ ↦ rfl).symm

theorem use_mapValues : use order (mapValues g s) k = mapValues g (use order s k) := by
  cases order with
  | insertion => rfl
  | access => exact (map_toEnd (f := Prod.map id g) fun _ _ ↦ rfl).symm

theorem insert_mapValues (v : V) :
    insert order (mapValues g s) k (g v) = mapValues g (insert order s k v) := by
  have halter : alter (mapValues g s) k (fun _ ↦ g v) = mapValues g (alter s k fun _ ↦ v) :=
    (map_alter (f := Prod.map id g) (fun _ _ ↦ rfl) fun _ ↦ rfl).symm
  have hpush : mapValues g s ++ [(k, g v)] = mapValues g (s ++ [(k, v)]) := by
    rw [mapValues, mapValues, List.map_append]
    rfl
  rw [insert, insert, hasKey_mapValues, halter, use_mapValues, hpush]
  split <;> rfl

end Association

/-- The operations that all maps of a plan have in common. -/
inductive Plan.Request (K V : Type)
  | insert (k : K) (v : V)
  | get (k : K)
  | peek (k : K)
  | contains (k : K)
  | remove (k : K)
  | clear

namespace Plan.Request

def asked : Plan.Request K V → BoundedMap.Request K V
  | .insert k v => .insert k v
  | .get k => .get k
  | .peek k => .peek k
  | .contains k => .contains k
  | .remove k => .remove k
  | .clear => .clear

def map (g : V → W) : Plan.Request K V → Plan.Request K W
  | .insert k v => .insert k (g v)
  | .get k => .get k
  | .peek k => .peek k
  | .contains k => .contains k
  | .remove k => .remove k
  | .clear => .clear

@[simp] theorem map_id (r : Plan.Request K V) : r.map id = r := by cases r <;> rfl

theorem map_map {X : Type} (g : V → W) (h : W → X) (r : Plan.Request K V) :
    (r.map g).map h = r.map (h ∘ g) := by cases r <;> rfl

theorem asked_ne_resetStats (r : Plan.Request K V) : r.asked ≠ .resetStats := by
  cases r <;> exact nofun

end Plan.Request

def BoundedMap.Answer.map (g : V → W) : BoundedMap.Answer K V → BoundedMap.Answer K W
  | .value v => .value (v.map g)
  | .entry e => .entry (e.map (Prod.map id g))
  | .flag b => .flag b
  | .refused e => .refused e
  | .done => .done

@[simp] theorem BoundedMap.Answer.map_id (a : BoundedMap.Answer K V) : a.map id = a := by
  cases a <;> simp [Answer.map]

namespace BoundedList

def mapValues (g : V → W) (b : BoundedList K V) : BoundedList K W :=
  ⟨Association.mapValues g b.entries, b.maxSize, Association.mapValues g b.dropped⟩

theorem trim_mapValues (g : V → W) (b : BoundedList K V) :
    (b.mapValues g).trim = b.trim.mapValues g := by
  simp only [trim, dropEldest, mapValues, Association.mapValues, List.length_map, List.map_append,
    List.map_drop, List.map_take]

variable [BEq K]

theorem respond_mapValues (g : V → W) (order : EntryOrder) (b : BoundedList K V)
    (r : Plan.Request K V) :
    ((b.mapValues g).respond order (r.map g).asked).1 = (b.respond order r.asked).1.map g ∧
      ((b.mapValues g).respond order (r.map g).asked).2 =
        (b.respond order r.asked).2.mapValues g := by
  have hvalue : ∀ k, BoundedMap.Answer.value (value? (Association.mapValues g b.entries) k) =
      (BoundedMap.Answer.value (value? b.entries k) : BoundedMap.Answer K V).map g := by
    intro k
    rw [value?_mapValues]
    rfl
  have hkept : ∀ {es : List (K × W)} {es' : List (K × V)}, es = Association.mapValues g es' →
      { b.mapValues g with entries := es } = { b with entries := es' }.mapValues g := by
    rintro _ es' rfl
    rfl
  cases r with
  | insert k v =>
    have hstored := hkept (insert_mapValues g b.entries order k v)
    exact ⟨hvalue k, (congrArg trim hstored).trans (trim_mapValues g _)⟩
  | get k => exact ⟨hvalue k, hkept (use_mapValues g b.entries order k)⟩
  | peek k => exact ⟨hvalue k, rfl⟩
  | contains k => exact ⟨congrArg BoundedMap.Answer.flag (hasKey_mapValues g b.entries k), rfl⟩
  | remove k => exact ⟨hvalue k, hkept (without_mapValues g b.entries k)⟩
  | clear => exact ⟨rfl, rfl⟩

theorem overflow_mapValues (g : V → W) (order : EntryOrder) (b : BoundedList K V)
    (r : Plan.Request K V) :
    (b.mapValues g).overflow order (r.map g).asked =
      Association.mapValues g (b.overflow order r.asked) :=
  congrArg BoundedList.dropped (respond_mapValues g order { b with dropped := [] } r).2

end BoundedList

namespace BoundedMap

/-- What anybody can see of a map. -/
structure Seen (K : Type) where
  size : ℕ
  stats : Stats
  keys : List K

variable [BEq K] [Hashable K]

def seen (m : BoundedMap K V L) : Seen K := ⟨m.size, m.stats, m.toList.map Prod.fst⟩

variable {m : BoundedMap K V L} {m' : BoundedMap K W L'} {g : V → W}

theorem deed_map (hsize : m'.size = m.size) (r : Plan.Request K V) (a : Answer K V) :
    deed ⟨m', (r.map g).asked, a.map g⟩ = deed ⟨m, r.asked, a⟩ := by
  cases r <;> cases a <;>
    simp [deed, Plan.Request.map, Plan.Request.asked, Answer.map, hsize]

variable [Listener L K V] [Listener L' K W]

/-- The second map holds the entries of the first with other values, and counts the same. -/
structure Mirrors (g : V → W) (m : BoundedMap K V L) (m' : BoundedMap K W L') : Prop where
  shown : ∃ start start' order b, m.Shows start order b ∧ m'.Shows start' order (b.mapValues g)
  tally : m'.tally = m.tally

theorem mirrors_create (g : V → W) (maxSize : ℕ) (start : L) (start' : L') (order : EntryOrder) :
    Mirrors g (create maxSize start order : BoundedMap K V L)
      (create maxSize start' order : BoundedMap K W L') :=
  ⟨⟨_, _, _, _, shows_create maxSize start order, shows_create maxSize start' order⟩, rfl⟩

namespace Mirrors

theorem seen (h : Mirrors g m m') : m'.seen = m.seen := by
  obtain ⟨⟨start, start', order, b, hm, hm'⟩, htally⟩ := h
  have hsize : m'.size = m.size := by
    rw [hm.size, hm'.size]
    exact length_mapValues g b.entries
  have hmax : m'.maxSize = m.maxSize := hm'.maxSize.trans hm.maxSize.symm
  have hkeys : m'.toList.map Prod.fst = m.toList.map Prod.fst := by
    rw [hm.toList, hm'.toList]
    exact keys_mapValues g b.entries
  simp only [BoundedMap.seen, stats, hsize, htally, hmax, hkeys]

variable [EquivBEq K] [LawfulHashable K]

theorem respond (h : Mirrors g m m') (r : Plan.Request K V) :
    (m'.respond (r.map g).asked).1 = (m.respond r.asked).1.map g ∧
      Mirrors g (m.respond r.asked).2 (m'.respond (r.map g).asked).2 := by
  have hsize : m'.size = m.size := congrArg Seen.size h.seen
  obtain ⟨⟨start, start', order, b, hm, hm'⟩, htally⟩ := h
  obtain ⟨hanswer, hlist⟩ := b.respond_mapValues g order r
  have hsame : (m'.respond (r.map g).asked).1 = (m.respond r.asked).1.map g := by
    rw [(hm'.respond _).1, (hm.respond _).1, hanswer]
  have hdeed : deed (Run.call BoundedMap.respond m' (r.map g).asked) =
      deed (Run.call BoundedMap.respond m r.asked) := by
    rw [Run.call, hsame]
    exact deed_map hsize r _
  have hnext := (hm'.respond (r.map g).asked).2
  rw [hlist] at hnext
  refine ⟨hsame, ⟨_, _, _, _, (hm.respond r.asked).2, hnext⟩, ?_⟩
  rw [hm.tally_respond r.asked_ne_resetStats, hm'.tally_respond (r.map g).asked_ne_resetStats,
    hdeed, htally, hm.reported, hm'.reported, b.overflow_mapValues, length_mapValues]

end Mirrors

end BoundedMap

end Holdall
