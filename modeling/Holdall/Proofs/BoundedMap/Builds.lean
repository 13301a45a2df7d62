import Holdall.GuardedMap
import Holdall.Item.Basic
import Holdall.Proofs.BoundedMap.Mirror
import Holdall.SharedMap

namespace Holdall

open BoundedMap (Answer Seen hearing Mirrors)

variable {K V L L' : Type}

namespace EvictionJournal

variable [Inspect K]

theorem hearing_eq (j : EvictionJournal) (es : List (K × V)) :
    hearing j es = { j with
      count := j.count + es.length, lines := j.lines ++ es.map fun e ↦ j.warning e.1 } := by
  induction es generalizing j with
  | nil => simp [hearing]
  | cons e es ih =>
    have hnext : hearing j (e :: es) =
        hearing { j with count := j.count + 1, lines := j.lines ++ [j.warning e.1] } es := rfl
    have hsame : ∀ k : K, warning { j with
        count := j.count + 1, lines := j.lines ++ [j.warning e.1] } k = j.warning k := fun _ ↦ rfl
    rw [hnext, ih]
    simp only [hsame, List.length_cons, List.map_cons, List.append_assoc, List.singleton_append]
    congr 1
    omega

theorem journal_eq (p : Plan) :
    p.journal = { name := p.name.getD "lru-map", maxSize := some p.maxSize } := by
  rw [Plan.journal]
  cases p.name <;> rfl

end EvictionJournal

variable [BEq K] [Hashable K]

namespace BoundedMap

variable [Listener L K V]

def serve (m : BoundedMap K V L) (r : Plan.Request K V) : Answer K V × BoundedMap K V L :=
  m.respond r.asked

theorem after_serve (m : BoundedMap K V L) (rs : List (Plan.Request K V)) :
    Run.after serve m rs = Run.after respond m (rs.map Plan.Request.asked) := by
  rw [Run.after, Run.after, List.foldl_map]
  rfl

end BoundedMap

namespace GuardedMap

def seen (g : GuardedMap K V L) : Seen K := ⟨g.size, g.stats, g.map.toList.map Prod.fst⟩

variable [Listener L K V]

def serve (g : GuardedMap K V L) : Plan.Request K V → Answer K V × GuardedMap K V L
  | .insert k v => (g.insert k v).map .value id
  | .get k => (g.get k).map .value id
  | .peek k => (.value (g.peek? k), g)
  | .contains k => (.flag (g.contains k), g)
  | .remove k => (g.remove k).map .value id
  | .clear => (.done, g.clear)

theorem serve_eq (g : GuardedMap K V L) (r : Plan.Request K V) :
    (g.serve r).1 = (g.map.serve r).1 ∧ (g.serve r).2.map = (g.map.serve r).2 := by
  cases r <;> exact ⟨rfl, rfl⟩

end GuardedMap

namespace SharedMap

def seen (m : SharedMap K V L) : Seen K := ⟨m.size, m.stats, m.toList.map Prod.fst⟩

theorem seen_eq (m : SharedMap K V L) : m.seen = m.bounded.seen := by
  have hkeys : m.toList.map Prod.fst = m.bounded.toList.map Prod.fst := by
    rw [toList, List.map_map]
    rfl
  rw [seen, hkeys]
  rfl

variable [Listener L K (Handle V)]

/-- Values come in and go out, and the handles on them stay with the map and its supply of cells. -/
def serve (s : SharedMap K V L × CellSupply) :
    Plan.Request K V → Answer K V × SharedMap K V L × CellSupply
  | .insert k v =>
    let (h, m, cells) := s.1.insert s.2 k v
    (.value (h.map Handle.value), m, cells)
  | .get k =>
    let (h, m) := s.1.get k
    (.value (h.map Handle.value), m, s.2)
  | .peek k => (.value (s.1.peek? k), s)
  | .contains k => (.flag (s.1.contains k), s)
  | .remove k =>
    let (h, m) := s.1.remove k
    (.value (h.map Handle.value), m, s.2)
  | .clear => (.done, s.1.clear, s.2)

theorem serve_eq (s : SharedMap K V L × CellSupply) (r : Plan.Request K V) :
    let q := r.map (Handle.mk s.2.next)
    (serve s r).1 = (s.1.bounded.serve q).1.map Handle.value ∧
      (serve s r).2.1.bounded = (s.1.bounded.serve q).2 := by
  cases r <;> exact ⟨rfl, rfl⟩

end SharedMap

namespace Plan

variable [EquivBEq K] [LawfulHashable K]

theorem watch_build [Listener L K V] [Listener L' K V] (p : Plan) (l : L) (l' : L')
    (rs : List (Plan.Request K V)) :
    Run.watch BoundedMap.serve BoundedMap.seen (p.build l : BoundedMap K V L) rs =
      Run.watch BoundedMap.serve BoundedMap.seen (p.build l' : BoundedMap K V L') rs := by
  refine Run.watch_eq (P := fun m m' ↦ Mirrors id m' m) ?_ ?_ ?_ rs
  · intro m m' r h
    have hr := h.respond r
    rw [r.map_id, Answer.map_id] at hr
    exact hr
  · intro m m' h
    exact h.seen
  · exact BoundedMap.mirrors_create id p.maxSize l' l p.order

omit [EquivBEq K] [LawfulHashable K] in
theorem watch_buildGuarded (p : Plan) (rs : List (Plan.Request K V)) :
    Run.watch GuardedMap.serve GuardedMap.seen (p.buildGuarded : GuardedMap K V Silent) rs =
      Run.watch BoundedMap.serve BoundedMap.seen (p.build Silent.mk : BoundedMap K V Silent) rs := by
  refine Run.watch_eq (P := fun g m ↦ g.map = m) ?_ ?_ rfl rs
  · rintro g _ r rfl
    exact g.serve_eq r
  · rintro g _ rfl
    rfl

theorem watch_buildShared (p : Plan) (cells : CellSupply) (rs : List (Plan.Request K V)) :
    Run.watch SharedMap.serve (fun s ↦ s.1.seen) ((p.buildShared : SharedMap K V Silent), cells) rs =
      Run.watch BoundedMap.serve BoundedMap.seen (p.build Silent.mk : BoundedMap K V Silent) rs := by
  refine Run.watch_eq (P := fun s m ↦ Mirrors Handle.value s.1.bounded m) ?_ ?_ ?_ rs
  · intro s m r h
    obtain ⟨hanswer, hnext⟩ := SharedMap.serve_eq s r
    have hr := h.respond (r.map (Handle.mk s.2.next))
    have hback : (r.map (Handle.mk s.2.next)).map Handle.value = r := by
      rw [r.map_map]
      exact r.map_id
    rw [hback] at hr
    rw [hanswer, hnext]
    exact ⟨hr.1.symm, hr.2⟩
  · intro s m h
    exact s.1.seen_eq.trans h.seen.symm
  · exact BoundedMap.mirrors_create Handle.value p.maxSize Silent.mk Silent.mk p.order

omit [EquivBEq K] [LawfulHashable K] in
theorem shows_build [Listener L K V] (p : Plan) (l : L) :
    (p.build l : BoundedMap K V L).Shows l p.order { maxSize := p.maxSize } :=
  BoundedMap.shows_create p.maxSize l p.order

theorem listener_build [Listener L K V] (p : Plan) (l : L) (rs : List (Plan.Request K V)) :
    (Run.after BoundedMap.serve (p.build l : BoundedMap K V L) rs).listener =
      hearing l (Run.after (BoundedList.respond p.order) { maxSize := p.maxSize }
        (rs.map Plan.Request.asked)).dropped := by
  rw [BoundedMap.after_serve]
  exact ((p.shows_build l).after (rs.map Plan.Request.asked)).listener

theorem count_buildLogging [Inspect K] (p : Plan) (rs : List (Plan.Request K V)) :
    let logged := Run.after BoundedMap.serve (p.buildLogging : BoundedMap K V EvictionJournal) rs
    logged.listener.count = logged.stats.evictions := by
  intro logged
  have h : (p.buildLogging : BoundedMap K V EvictionJournal).Shows _ _ _ := p.shows_build p.journal
  have hkept : BoundedMap.Request.resetStats ∉ rs.map (Plan.Request.asked (K := K) (V := V)) := by
    intro hin
    obtain ⟨r, -, hr⟩ := List.mem_map.1 hin
    exact r.asked_ne_resetStats hr
  have hevictions := (h.balances_after rfl hkept).evictions
  have hheard := h.listener_after (rs.map Plan.Request.asked)
  rw [← BoundedMap.after_serve] at hevictions hheard
  have hcount : logged.listener.count = p.journal.count + logged.tally.evictions := by
    rw [hheard, EvictionJournal.hearing_eq, hevictions]
    rfl
  rw [hcount, EvictionJournal.journal_eq]
  exact Nat.zero_add _

theorem lines_buildLogging [Inspect K] (p : Plan) (rs : List (Plan.Request K V)) :
    let logged := Run.after BoundedMap.serve (p.buildLogging : BoundedMap K V EvictionJournal) rs
    let recorded := Run.after BoundedMap.serve (p.build ⟨[]⟩ : BoundedMap K V (Recorder K V)) rs
    logged.listener.lines = recorded.listener.entries.map fun e ↦
      .warn (p.name.getD "lru-map" ++ ": evicted eldest entry " ++ inspect e.1 ++
        s!" (max size {p.maxSize})") := by
  intro logged recorded
  have hlogged : logged.listener = _ := p.listener_build p.journal rs
  have hrecorded : recorded.listener = _ := p.listener_build _ rs
  rw [hlogged, hrecorded, EvictionJournal.hearing_eq, BoundedMap.hearing_recorder,
    EvictionJournal.journal_eq]
  exact List.nil_append _

end Plan

end Holdall
