import Holdall.Proofs.Run
import Holdall.Proofs.Slot.Chain

namespace Holdall.Slot.Chain

open Association

variable {α : Type} {c : Chain α} {s l r : List (Id × α)}

inductive Request (α : Type)
  | pushBack (x : α)
  | remove (id : Id)
  | popFront
  | popBack
  | moveToBack (id : Id)
  | modify (id : Id) (f : α → α)
  | clear

inductive Answer (α : Type)
  | id (id : Id)
  | value (x : Option α)
  | flag (b : Bool)
  | done
  deriving DecidableEq, Repr

def respond (c : Chain α) : Request α → Answer α × Chain α
  | .pushBack x => (c.pushBack x).map .id id
  | .remove i => (c.remove i).map .value id
  | .popFront => c.popFront.map .value id
  | .popBack => c.popBack.map .value id
  | .moveToBack i => (c.moveToBack i).map .flag id
  | .modify i f => (.done, c.modify i f)
  | .clear => (.done, empty)

/-- Following the links from a place leads through the ids of a path, and ends there. -/
inductive Follows (c : Chain α) : Option Id → List Id → Prop
  | done : Follows c none []
  | next {id : Id} {node : Node α} {path : List Id} : c.nodes.get? id = some node →
      Follows c node.after path → Follows c (some id) (id :: path)

structure Linked (c : Chain α) (path : List Id) : Prop where
  follows : c.Follows c.first path
  once : path.Nodup
  occupied : ∀ id, id ∈ path ↔ c.contains id = true
  ends : path.getLast? = c.last
  starts : ∀ id node, c.first = some id → c.nodes.get? id = some node → node.before = none
  inverse : ∀ i j m n, c.nodes.get? i = some m → c.nodes.get? j = some n →
    (m.after = some j ↔ n.before = some i)
  first_none : c.first = none ↔ c.size = 0
  last_none : c.last = none ↔ c.size = 0
  length : path.length = c.size

/-- Audits the links from a place on. No node may be met twice, each must name the one that it was
reached from, one that names no other must be the last, and there must be `left` of them. -/
def auditFrom (c : Chain α) : ℕ → List Id → Option Id → Option Id → Bool
  | left, _, _, none => left == 0
  | 0, _, _, some _ => false
  | left + 1, seen, before, some id =>
    match c.nodes.get? id with
    | none => false
    | some node => !seen.contains id && node.before == before &&
      (node.after.isSome || c.last == some id) && c.auditFrom left (id :: seen) (some id) node.after

def audit (c : Chain α) : Bool :=
  if c.first.isNone || c.last.isNone then c.first.isNone && c.last.isNone && c.size == 0
  else c.auditFrom c.size [] none c.first

theorem Holds.respond (h : c.Holds s) (r : Request α) : ∃ s', (c.respond r).2.Holds s' := by
  cases r with
  | pushBack x => exact ⟨_, (h.pushBack x).2⟩
  | remove i => exact ⟨_, (h.remove i).2⟩
  | popFront => exact ⟨_, h.popFront.2⟩
  | popBack => exact ⟨_, h.popBack.2⟩
  | moveToBack i => exact ⟨_, (h.moveToBack i).2⟩
  | modify i f => exact ⟨_, h.modify i f⟩
  | clear => exact ⟨_, holds_empty⟩

theorem exists_holds (rs : List (Request α)) : ∃ s, (Run.after respond empty rs : Chain α).Holds s :=
  Run.after_induction (P := fun c : Chain α ↦ ∃ s, c.Holds s) (fun _ r ⟨_, h⟩ ↦ h.respond r)
    ⟨_, holds_empty⟩ rs

namespace Holds

theorem follows (h : c.Holds (l ++ r)) : c.Follows (firstId none r) (r.map Prod.fst) := by
  induction r generalizing l with
  | nil => exact .done
  | cons p r ih => exact .next h.node_split (ih (l := l ++ [p]) (by simpa using h))

theorem split_of_node {id : Id} {node : Node α} (h : c.Holds s) (hn : c.nodes.get? id = some node) :
    ∃ l r, s = l ++ (id, node.value) :: r ∧ node.before = lastId none l ∧
      node.after = firstId none r := by
  have hin : hasKey s id = true := by rw [← h.isSome_get?, hn]; rfl
  obtain ⟨l, x, r, rfl⟩ := exists_split_of_hasKey hin
  rw [h.node_split, Option.some.injEq] at hn
  subst hn
  exact ⟨l, r, rfl, rfl, rfl⟩

theorem inverse (h : c.Holds s) (i j : Id) (m n : Node α) (hi : c.nodes.get? i = some m)
    (hj : c.nodes.get? j = some n) : m.after = some j ↔ n.before = some i := by
  constructor
  · intro hm
    obtain ⟨l, r, rfl, -, hafter⟩ := h.split_of_node hi
    cases r with
    | nil => simp [hafter, firstId] at hm
    | cons p r =>
      obtain ⟨j', x⟩ := p
      obtain rfl : j' = j := by simpa [hafter] using hm
      have h' : c.Holds (l ++ [(i, m.value)] ++ (j', x) :: r) := by simpa using h
      rw [h'.node_split, Option.some.injEq] at hj
      simp [← hj, lastId_concat]
  · intro hn
    obtain ⟨l, r, rfl, hbefore, -⟩ := h.split_of_node hj
    rcases l.eq_nil_or_concat' with rfl | ⟨l, p, rfl⟩
    · simp [hbefore, lastId] at hn
    · obtain ⟨i', x⟩ := p
      obtain rfl : i' = i := by simpa [hbefore, lastId_concat] using hn
      have h' : c.Holds (l ++ (i', x) :: (j, n.value) :: r) := by simpa using h
      rw [h'.node_split, Option.some.injEq] at hi
      simp [← hi]

theorem linked (h : c.Holds s) : c.Linked c.ids where
  follows := by
    rw [h.ids, h.first]
    exact follows (l := []) h
  once := by
    rw [h.ids]
    exact h.distinct.imp fun hab ↦ by simpa using hab
  occupied id := by rw [h.ids, mem_keys_iff, ← h.isSome_get?]; rfl
  ends := by rw [h.ids, h.last, lastId_eq_getLast?, List.getLast?_map]
  starts id node hf hn := by
    rw [h.first] at hf
    cases s with
    | nil => simp [firstId] at hf
    | cons p s =>
      have hnode := node_split (l := []) h
      rw [Option.some.inj hf, hn, Option.some.injEq] at hnode
      rw [hnode]
      rfl
  inverse := h.inverse
  first_none := by
    rw [h.first, firstId_eq_head?, ← h.length]
    simp
  last_none := by
    rw [h.last, lastId_none_iff, ← h.length, List.length_eq_zero_iff]
  length := by rw [h.ids, List.length_map, h.length]

theorem auditFrom (h : c.Holds (l ++ r)) {seen : List Id}
    (hseen : ∀ id, id ∈ seen ↔ hasKey l id = true) :
    c.auditFrom r.length seen (lastId none l) (firstId none r) = true := by
  induction r generalizing l seen with
  | nil => rfl
  | cons p r ih =>
    have hseen' : ∀ id, id ∈ p.1 :: seen ↔ hasKey (l ++ [p]) id = true := fun id ↦ by
      have hp : id = p.1 ↔ hasKey [p] id = true := by simpa [hasKey] using eq_comm
      rw [List.mem_cons, hseen, hp, hasKey_append, Bool.or_eq_true, or_comm]
    have hrest := ih (l := l ++ [p]) (by simpa using h) hseen'
    have hnew : p.1 ∉ seen := by
      rw [hseen, (h.distinct.around (beq_self_eq_true p.1)).1]
      simp
    have hend : (firstId none r).isSome = true ∨ c.last = some p.1 := by
      cases r with
      | nil => exact .inr (by rw [h.last, lastId_concat])
      | cons q r => exact .inl rfl
    rw [lastId_concat] at hrest
    simp [Chain.auditFrom, h.node_split, hnew, hend, hrest]

theorem audit (h : c.Holds s) : c.audit = true := by
  have hall : c.auditFrom s.length [] none (firstId none s) = true :=
    auditFrom (l := []) h (by simp [hasKey])
  rw [h.length, ← h.first] at hall
  rw [Chain.audit]
  split
  · next hnone =>
    have hl := h.linked
    simp only [Bool.or_eq_true, Option.isNone_iff_eq_none, hl.first_none, hl.last_none,
      or_self] at hnone
    simp [hl.first_none.2 hnone, hl.last_none.2 hnone, hnone]
  · exact hall

end Holds

/-- No request, whatever ids it names, breaks a link or leaves an occupied slot out. -/
theorem linked_after (rs : List (Request α)) :
    let c : Chain α := Run.after respond empty rs
    c.Linked c.ids ∧ c.audit = true := by
  obtain ⟨s, h⟩ := exists_holds rs
  exact ⟨h.linked, h.audit⟩

end Holdall.Slot.Chain
