import Holdall.Container.Bound
import Holdall.Text.Inspect

/-!
Maps whose entries stand in ascending order of their keys. Keys may compare as equal without being
identical: storing one by one keeps the key stored first, while building a map at once keeps the key,
and the value, given last. A range of keys is there only for bounds that span one; whoever takes a
range shows that they do.
-/

namespace Holdall

variable {K V U : Type} [Ord K]

@[ext]
structure SortedMap (K V : Type) [Ord K] where
  entries : List (K × V) := []
  ascending : (entries.map Prod.fst).Pairwise fun a b => compare a b = .lt := by simp

namespace SortedMap

/-- Which of two equal keys stays. -/
inductive Survivor
  | first
  | last
  deriving DecidableEq, Repr

def Survivor.merge : Survivor → K × V → K × V → K × V
  | first, old, new => (old.1, new.2)
  | last, _, new => new

/-- Puts an entry where its key belongs. -/
def place (survivor : Survivor) (e : K × V) : List (K × V) → List (K × V)
  | [] => [e]
  | x :: xs =>
    match compare e.1 x.1 with
    | .lt => e :: x :: xs
    | .eq => survivor.merge x e :: xs
    | .gt => x :: place survivor e xs

theorem mem_keys_place {survivor : Survivor} {e : K × V} {xs : List (K × V)} {k : K}
    (h : k ∈ (place survivor e xs).map Prod.fst) : k = e.1 ∨ k ∈ xs.map Prod.fst := by
  induction xs with
  | nil => simpa [place] using h
  | cons x xs ih =>
    rw [place] at h
    split at h
    · simpa using h
    · cases survivor <;> simp only [Survivor.merge, List.map_cons, List.mem_cons] at h ⊢
      · exact .inr h
      · exact h.imp_right .inr
    · simp only [List.map_cons, List.mem_cons] at h ⊢
      rcases h with h | h
      · exact .inr (.inl h)
      · exact (ih h).imp_right .inr

theorem ascending_place [Std.TransOrd K] (survivor : Survivor) (e : K × V) {xs : List (K × V)}
    (h : (xs.map Prod.fst).Pairwise fun a b => compare a b = .lt) :
    ((place survivor e xs).map Prod.fst).Pairwise fun a b => compare a b = .lt := by
  induction xs with
  | nil => simp [place]
  | cons x xs ih =>
    obtain ⟨hx, hxs⟩ := List.pairwise_cons.1 h
    rw [place]
    split
    next hlt =>
      refine List.pairwise_cons.2 ⟨fun k hk => ?_, h⟩
      rcases List.mem_cons.1 hk with rfl | hk
      · exact hlt
      · exact Std.TransCmp.lt_trans hlt (hx k hk)
    next heq =>
      cases survivor
      · exact List.pairwise_cons.2 ⟨hx, hxs⟩
      · refine List.pairwise_cons.2 ⟨fun k hk => ?_, hxs⟩
        exact (Std.TransCmp.congr_left heq).trans (hx k hk)
    next hgt =>
      refine List.pairwise_cons.2 ⟨fun k hk => ?_, ih hxs⟩
      rcases mem_keys_place hk with rfl | hk
      · exact Std.OrientedCmp.lt_of_gt hgt
      · exact hx k hk

theorem ascending_filter {entries : List (K × V)} (p : K × V → Bool)
    (h : (entries.map Prod.fst).Pairwise fun a b => compare a b = .lt) :
    ((entries.filter p).map Prod.fst).Pairwise fun a b => compare a b = .lt :=
  h.sublist ((List.filter_sublist (p := p)).map Prod.fst)

def empty : SortedMap K V := {}

def size (m : SortedMap K V) : Nat := m.entries.length

def keys (m : SortedMap K V) : List K := m.entries.map Prod.fst

def values (m : SortedMap K V) : List V := m.entries.map Prod.snd

def contains (m : SortedMap K V) (k : K) : Bool := m.entries.any (compare ·.1 k == .eq)

def get? (m : SortedMap K V) (k : K) : Option V :=
  (m.entries.find? (compare ·.1 k == .eq)).map Prod.snd

def getD (m : SortedMap K V) (k : K) (default : V) : V := (m.get? k).getD default

def firstKey? (m : SortedMap K V) : Option K := m.keys.head?

def lastKey? (m : SortedMap K V) : Option K := m.keys.getLast?

def select (m : SortedMap K V) (p : K → Bool) : SortedMap K V :=
  ⟨m.entries.filter (p ·.1), ascending_filter _ m.ascending⟩

def erase (m : SortedMap K V) (k : K) : SortedMap K V := m.select (compare · k != .eq)

def remove (m : SortedMap K V) (k : K) : Option V × SortedMap K V := (m.get? k, m.erase k)

def range? (m : SortedMap K V) (lower upper : Bound K) : Option (List (K × V)) :=
  if lower.spans upper then some (m.entries.filter fun e => lower.opens e.1 && upper.closes e.1)
  else none

theorem isSome_range? (m : SortedMap K V) {lower upper : Bound K} (h : lower.spans upper = true) :
    (m.range? lower upper).isSome = true := by
  rw [range?, if_pos h]
  rfl

theorem get_range? (m : SortedMap K V) {lower upper : Bound K} (h : lower.spans upper = true) :
    (m.range? lower upper).get (m.isSome_range? h) =
      m.entries.filter fun e => lower.opens e.1 && upper.closes e.1 := by
  apply Option.get_of_eq_some
  rw [range?, if_pos h]

/-- The greatest key that is not above `k`. -/
def floorKey? (m : SortedMap K V) (k : K) : Option K :=
  ((m.range? .unbounded (.included k)).get (m.isSome_range? rfl)).getLast?.map Prod.fst

/-- The least key that is not below `k`. -/
def ceilingKey? (m : SortedMap K V) (k : K) : Option K :=
  ((m.range? (.included k) .unbounded).get (m.isSome_range? rfl)).head?.map Prod.fst

section

variable [Std.TransOrd K]

def placed (m : SortedMap K V) (survivor : Survivor) (e : K × V) : SortedMap K V :=
  ⟨place survivor e m.entries, ascending_place survivor e m.ascending⟩

def put (m : SortedMap K V) (k : K) (v : V) : SortedMap K V := m.placed .first (k, v)

def insert (m : SortedMap K V) (k : K) (v : V) : Option V × SortedMap K V := (m.get? k, m.put k v)

def extend (m : SortedMap K V) (pairs : List (K × V)) : SortedMap K V :=
  pairs.foldl (fun m (k, v) => m.put k v) m

def ofList (pairs : List (K × V)) : SortedMap K V := pairs.foldl (placed · .last) empty

theorem place_of_last (survivor : Survivor) {e : K × V} {xs : List (K × V)}
    (h : ∀ x ∈ xs, compare x.1 e.1 = .lt) : place survivor e xs = xs ++ [e] := by
  induction xs with
  | nil => rfl
  | cons x xs ih =>
    have hx : compare e.1 x.1 = .gt := Std.OrientedCmp.gt_of_lt (h x List.mem_cons_self)
    rw [place, hx, List.cons_append, ← ih fun y hy => h y (List.mem_cons_of_mem x hy)]

theorem entries_foldl_placed (survivor : Survivor) (m : SortedMap K V) {pairs : List (K × V)}
    (h : ((m.entries ++ pairs).map Prod.fst).Pairwise fun a b => compare a b = .lt) :
    (pairs.foldl (placed · survivor) m).entries = m.entries ++ pairs := by
  induction pairs generalizing m with
  | nil => exact (List.append_nil m.entries).symm
  | cons e pairs ih =>
    have hlast : (m.placed survivor e).entries = m.entries ++ [e] := by
      refine place_of_last survivor fun x hx => ?_
      rw [List.pairwise_map, List.pairwise_append] at h
      exact h.2.2 x hx e List.mem_cons_self
    rw [List.append_cons, ← hlast] at h ⊢
    exact ih _ h

theorem entries_ofList {pairs : List (K × V)}
    (h : (pairs.map Prod.fst).Pairwise fun a b => compare a b = .lt) :
    (ofList pairs).entries = pairs := entries_foldl_placed .last empty h

/-- The entries below `upper`. -/
def head (m : SortedMap K V) (upper : K) : SortedMap K V :=
  ofList ((m.range? .unbounded (.excluded upper)).get (m.isSome_range? rfl))

/-- The entries from `lower` on. -/
def tail (m : SortedMap K V) (lower : K) : SortedMap K V :=
  ofList ((m.range? (.included lower) .unbounded).get (m.isSome_range? rfl))

theorem entries_ofList_range (m : SortedMap K V) {lower upper : Bound K}
    (h : lower.spans upper = true) :
    (ofList ((m.range? lower upper).get (m.isSome_range? h))).entries =
      m.entries.filter fun e => lower.opens e.1 && upper.closes e.1 := by
  rw [get_range? m h]
  exact entries_ofList (ascending_filter _ m.ascending)

/-- The entries from `lower` on and below `upper`; none where the bounds are the wrong way round. -/
def between (m : SortedMap K V) (lower upper : K) : SortedMap K V :=
  if h : compare lower upper = .gt then empty
  else ofList ((m.range? (.included lower) (.excluded upper)).get
    (m.isSome_range? (Bound.spans_excluded_iff.2 h)))

def mapValues (m : SortedMap K V) (f : V → U) : SortedMap K U :=
  ofList (m.entries.map fun (k, v) => (k, f v))

def filterM {m : Type → Type} [Monad m] (map : SortedMap K V) (keep : K → V → m Bool) :
    m (SortedMap K V) := do
  return ofList (← map.entries.filterM fun (k, v) => keep k v)

end

instance [BEq K] [BEq V] : BEq (SortedMap K V) := ⟨fun m n => m.entries == n.entries⟩

/-- Lexicographic comparison of the entries, each by its key and then by its value. -/
instance [Ord V] : Ord (SortedMap K V) where
  compare m n := List.compareLex
    (compareLex (compareOn Prod.fst) (compareOn Prod.snd)) m.entries n.entries

instance [Inspect K] [Inspect V] : Inspect (SortedMap K V) := ⟨fun m => inspectEntries m.entries⟩

end SortedMap

end Holdall
