import Holdall.Proofs.BoundedMap.Refinement

namespace Holdall

open Association

variable {K V L L' : Type} [BEq K]

namespace BoundedList

open BoundedMap

/-- The entries that a request leaves before any is dropped. -/
def filled (order : EntryOrder) (b : BoundedList K V) : Request K V → List (K × V)
  | .insert k v => Association.insert order b.entries k v
  | .get k | .touch k => use order b.entries k
  | .modify k f => alter (use order b.entries k) k f
  | .remove k => without b.entries k
  | .popEldest => b.entries.tail
  | .clear => []
  | .peek _ | .contains _ | .setMaxSize _ | .resetStats => b.entries

def overflow (order : EntryOrder) (b : BoundedList K V) (r : Request K V) : List (K × V) :=
  ({ b with dropped := [] }.respond order r).2.dropped

variable {b : BoundedList K V} {order : EntryOrder} {k : K}

theorem overflow_insert (v : V) : b.overflow order (.insert k v) =
    (Association.insert order b.entries k v).take
      ((Association.insert order b.entries k v).length - b.maxSize) := rfl

theorem overflow_setMaxSize (n : ℕ) :
    b.overflow order (.setMaxSize (n + 1)) = b.entries.take (b.entries.length - (n + 1)) := rfl

theorem dropped_respond (order : EntryOrder) (b : BoundedList K V) (r : Request K V) :
    (b.respond order r).2.dropped = b.dropped ++ b.overflow order r := by
  cases r with
  | insert k v => rw [overflow_insert]; rfl
  | setMaxSize n =>
    cases n with
    | zero => exact (List.append_nil b.dropped).symm
    | succ n => rw [overflow_setMaxSize]; rfl
  | _ => exact (List.append_nil b.dropped).symm

theorem overflow_append (order : EntryOrder) (b : BoundedList K V) (r : Request K V) :
    b.overflow order r ++ (b.respond order r).2.entries = b.filled order r := by
  cases r with
  | insert k v => exact List.take_append_drop _ _
  | setMaxSize n =>
    cases n with
    | zero => rfl
    | succ n => exact List.take_append_drop _ _
  | _ => rfl

theorem distinct_filled [EquivBEq K] (h : Distinct b.entries) (r : Request K V) :
    Distinct (b.filled order r) := by
  have huse : ∀ s : List (K × V), Distinct s → ∀ k, Distinct (use order s k) := by
    intro s hs k
    cases order with
    | insertion => exact hs
    | access => exact hs.toEnd k
  cases r with
  | insert k v =>
    rw [filled, Association.insert]
    split
    · exact huse _ (h.alter k _) k
    · next hk => exact h.push (by simpa using hk)
  | get k | touch k => exact huse _ h k
  | modify k f => exact (huse _ h k).alter k f
  | remove k => exact h.without k
  | popEldest => exact h.sublist (List.tail_sublist _)
  | clear => exact distinct_nil
  | peek k | contains k | setMaxSize n | resetStats => exact h

theorem not_hasKey_of_overflow [EquivBEq K] (h : Distinct b.entries) {r : Request K V} {e : K × V}
    (he : e ∈ b.overflow order r) : hasKey (b.respond order r).2.entries e.1 = false := by
  have hd : Distinct (b.overflow order r ++ (b.respond order r).2.entries) := by
    rw [overflow_append]
    exact distinct_filled h r
  exact hd.not_hasKey_of_append (List.any_eq_true.2 ⟨e, he, BEq.rfl⟩)

end BoundedList

namespace BoundedMap

variable [Hashable K]

def withListener (m : BoundedMap K V L) (l : L') : BoundedMap K V L' := { m with listener := l }

abbrev Call (K V L : Type) [BEq K] [Hashable K] :=
  Run.Call (BoundedMap K V L) (Request K V) (Answer K V)

/-- The entries that the map tells its listener of, as a recorder in its place would keep them. -/
def reported (m : BoundedMap K V L) (r : Request K V) : List (K × V) :=
  ((m.withListener (⟨[]⟩ : Recorder K V)).respond r).2.listener.entries

omit [BEq K] [Hashable K] in
theorem hearing_append [Listener L K V] (l : L) (es es' : List (K × V)) :
    hearing l (es ++ es') = hearing (hearing l es) es' := List.foldl_append

omit [BEq K] [Hashable K] in
theorem hearing_recorder (es es' : List (K × V)) :
    hearing (Recorder.mk es) es' = Recorder.mk (es ++ es') := by
  induction es' generalizing es with
  | nil => simp [hearing]
  | cons e es' ih =>
    have hnext : hearing (Recorder.mk es) (e :: es') = hearing (Recorder.mk (es ++ [e])) es' := rfl
    rw [hnext, ih, List.append_assoc, List.singleton_append]

variable [Listener L K V] [Listener L' K V]

omit [BEq K] [Hashable K] in
theorem hearing_after {S R A : Type} {respond : S → R → A × S} {P : S → Prop} {listener : S → L}
    {reported : S → R → List (K × V)}
    (hstep : ∀ s r, P s → P (respond s r).2 ∧
      listener (respond s r).2 = hearing (listener s) (reported s r)) {s : S} (hs : P s) (rs : List R) :
    listener (Run.after respond s rs) =
      hearing (listener s) ((Run.calls respond s rs).flatMap fun c ↦ reported c.met c.request) := by
  induction rs generalizing s with
  | nil => rfl
  | cons r rs ih =>
    obtain ⟨hnext, hr⟩ := hstep s r hs
    have hrest := ih hnext
    rw [hr, ← hearing_append] at hrest
    exact hrest

/-- The entries from which a request drops some, the eldest in front. -/
def brimming (m : BoundedMap K V L) : Request K V → List (K × V)
  | .insert k v => (m.entries.insert k v).2.toList
  | .setMaxSize _ => m.toList
  | r => (m.respond r).2.toList

variable {m : BoundedMap K V L} {start : L} {order : EntryOrder}
  {b : BoundedList K V}

namespace Shows

theorem withListener (h : m.Shows start order b) (l : L') :
    (m.withListener l).Shows l order { b with dropped := [] } := ⟨h.entries, h.maxSize, rfl⟩

theorem toList (h : m.Shows start order b) : m.toList = b.entries := h.entries.toList

theorem size (h : m.Shows start order b) : m.size = b.entries.length := h.entries.size

variable [EquivBEq K] [LawfulHashable K]

theorem contains (h : m.Shows start order b) (k : K) : m.contains k = hasKey b.entries k :=
  h.entries.contains k

theorem reported (h : m.Shows start order b) (r : Request K V) :
    m.reported r = b.overflow order r := by
  have hr := ((h.withListener (⟨[]⟩ : Recorder K V)).respond r).2.listener
  rw [hearing_recorder, List.nil_append] at hr
  rw [BoundedMap.reported, hr]
  rfl

theorem listener_respond (h : m.Shows start order b) (r : Request K V) :
    (m.respond r).2.listener = hearing m.listener (m.reported r) := by
  rw [(h.respond r).2.listener, BoundedList.dropped_respond, hearing_append, ← h.listener, h.reported]

theorem brimming (h : m.Shows start order b) (r : Request K V) :
    m.brimming r = b.filled order r := by
  cases r with
  | insert k v => exact (h.entries.insert k v).2.toList
  | setMaxSize n => exact h.toList
  | _ => exact (h.respond _).2.toList

theorem reported_append (h : m.Shows start order b) (r : Request K V) :
    m.reported r ++ (m.respond r).2.toList = m.brimming r := by
  rw [h.reported, (h.respond r).2.toList, h.brimming, BoundedList.overflow_append]

theorem not_contains_of_reported (h : m.Shows start order b) {r : Request K V} {e : K × V}
    (he : e ∈ m.reported r) : (m.respond r).2.contains e.1 = false := by
  rw [h.reported] at he
  rw [(h.respond r).2.contains]
  exact BoundedList.not_hasKey_of_overflow h.entries.distinct he

theorem after (h : m.Shows start order b) (rs : List (Request K V)) :
    (Run.after BoundedMap.respond m rs).Shows start order
      (Run.after (BoundedList.respond order) b rs) :=
  Run.after_simulate (P := fun m b ↦ Shows m start order b) (fun _ _ r _ h ↦ (h.respond r).2) h

theorem listener_after (h : m.Shows start order b) (rs : List (Request K V)) :
    (Run.after BoundedMap.respond m rs).listener = hearing m.listener
      ((Run.calls BoundedMap.respond m rs).flatMap fun c ↦ c.met.reported c.request) :=
  hearing_after (P := fun m ↦ ∃ b, Shows m start order b)
    (fun _ r ⟨_, h⟩ ↦ ⟨⟨_, (h.respond r).2⟩, h.listener_respond r⟩) ⟨b, h⟩ rs

end Shows

end BoundedMap

end Holdall
