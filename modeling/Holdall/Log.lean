import Holdall.Text.Inspect

namespace Holdall.Log

inductive Level
  | warn
  | debug
  deriving DecidableEq, Repr

structure Line where
  level : Level
  message : String
  deriving DecidableEq, Repr

def Line.warn (message : String) : Line := ⟨.warn, message⟩

def Line.debug (message : String) : Line := ⟨.debug, message⟩

end Holdall.Log
