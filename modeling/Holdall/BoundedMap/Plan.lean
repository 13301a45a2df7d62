import Holdall.BoundedMap.Basic

namespace Holdall

variable {K V L : Type} [BEq K] [Hashable K]

structure Plan where
  maxSize : Nat := 100
  name : Option String := none
  initialCapacity : Nat := 0
  order : EntryOrder := .access
  deriving DecidableEq, Repr

namespace Plan

def validate (p : Plan) : Except ConfigError Unit := checkRoom p.maxSize

/-- The initial capacity only makes room beforehand, and no map depends on it. -/
def build (p : Plan) (listener : L) : BoundedMap K V L := .create p.maxSize listener p.order

def build? (p : Plan) (listener : L) : Except ConfigError (BoundedMap K V L) := do
  p.validate
  return p.build listener

/-- The journal of a plan bears its name, where it has one, and notes its bound. -/
def journal (p : Plan) : EvictionJournal :=
  match p.name with
  | some name => { name, maxSize := some p.maxSize }
  | none => { maxSize := some p.maxSize }

def buildLogging (p : Plan) : BoundedMap K V EvictionJournal := p.build p.journal

instance : Inspect Plan where
  inspect p := Text.record "LruMapBuilder"
    [("max_size", inspect p.maxSize), ("name", inspect p.name),
      ("initial_capacity", inspect p.initialCapacity),
      ("access_order", inspect (p.order == .access))]

end Plan

end Holdall
