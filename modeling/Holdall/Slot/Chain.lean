import Holdall.Slot.Arena

namespace Holdall.Slot

variable {α : Type}

structure Node (α : Type) where
  value : α
  before : Option Id := none
  after : Option Id := none

structure Chain (α : Type) where
  nodes : Arena (Node α) := {}
  first : Option Id := none
  last : Option Id := none

namespace Chain

def empty : Chain α := {}

def size (c : Chain α) : Nat := c.nodes.size

def isEmpty (c : Chain α) : Bool := c.nodes.isEmpty

def contains (c : Chain α) (id : Id) : Bool := c.nodes.contains id

def get? (c : Chain α) (id : Id) : Option α := (c.nodes.get? id).map Node.value

def first? (c : Chain α) : Option α := c.first.bind c.get?

def last? (c : Chain α) : Option α := c.last.bind c.get?

def modify (c : Chain α) (id : Id) (f : α → α) : Chain α :=
  { c with nodes := c.nodes.modify id fun n => { n with value := f n.value } }

/-- Names `target` as what follows `place`, or as the first node where nothing comes before it. -/
def linkAfter (c : Chain α) (place target : Option Id) : Chain α :=
  match place with
  | some p => { c with nodes := c.nodes.modify p fun n => { n with after := target } }
  | none => { c with first := target }

/-- Names `target` as what precedes `place`, or as the last node where nothing comes after it. -/
def linkBefore (c : Chain α) (place target : Option Id) : Chain α :=
  match place with
  | some p => { c with nodes := c.nodes.modify p fun n => { n with before := target } }
  | none => { c with last := target }

def pushBack (c : Chain α) (x : α) : Id × Chain α :=
  let (id, nodes) := c.nodes.insert { value := x, before := c.last }
  (id, { { c with nodes }.linkAfter c.last (some id) with last := some id })

/-- Joins the neighbours of the node at `id` to each other and leaves it without links. -/
def detach (c : Chain α) (id : Id) (node : Node α) : Chain α :=
  let joined := (c.linkAfter node.before node.after).linkBefore node.after node.before
  { joined with nodes := joined.nodes.modify id fun n => { value := n.value } }

def attachBack (c : Chain α) (id : Id) : Chain α :=
  let placed := { c with nodes := c.nodes.modify id fun n => { value := n.value, before := c.last } }
  { placed.linkAfter c.last (some id) with last := some id }

/-- Takes the node at `id` out; an id that is not in the chain changes nothing. -/
def remove (c : Chain α) (id : Id) : Option α × Chain α :=
  match c.nodes.get? id with
  | none => (none, c)
  | some node =>
    let apart := c.detach id node
    let (removed, nodes) := apart.nodes.remove id
    (removed.map Node.value, { apart with nodes })

def popFront (c : Chain α) : Option α × Chain α :=
  match c.first with
  | some id => c.remove id
  | none => (none, c)

def popBack (c : Chain α) : Option α × Chain α :=
  match c.last with
  | some id => c.remove id
  | none => (none, c)

def moveToBack (c : Chain α) (id : Id) : Bool × Chain α :=
  match c.nodes.get? id with
  | none => (false, c)
  | some node => (true, if c.last = some id then c else (c.detach id node).attachBack id)

/-- The ids met in at most `steps` steps along the links. -/
def walk (c : Chain α) : Nat → Option Id → List Id
  | 0, _ => []
  | _, none => []
  | steps + 1, some id => id :: c.walk steps ((c.nodes.get? id).bind Node.after)

/-- The ids from the first node to the last. No walk is longer than there are slots. -/
def ids (c : Chain α) : List Id := c.walk c.nodes.slots.size c.first

def toList (c : Chain α) : List α := c.ids.filterMap c.get?

end Chain

/-- A place in a chain, with the number of values still to come. -/
structure Cursor (α : Type) where
  chain : Chain α
  place : Option Id
  remaining : Nat

namespace Cursor

def start (c : Chain α) : Cursor α := ⟨c, c.first, c.size⟩

def next? (u : Cursor α) : Option (α × Cursor α) := do
  let id ← u.place
  let node ← u.chain.nodes.get? id
  return (node.value, { u with place := node.after, remaining := u.remaining - 1 })

def take : Nat → Cursor α → List α × Cursor α
  | 0, u => ([], u)
  | n + 1, u =>
    match u.next? with
    | none => ([], u)
    | some (x, v) => let (xs, w) := v.take n; (x :: xs, w)

end Cursor

instance [Inspect α] : Inspect (Node α) where
  inspect n := Text.record "Node"
    [("value", inspect n.value), ("prev", inspect n.before), ("next", inspect n.after)]

instance [Inspect α] : Inspect (Chain α) where
  inspect c := Text.record "IntrusiveList"
    [("arena", inspect c.nodes), ("head", inspect c.first), ("tail", inspect c.last)]

end Holdall.Slot
