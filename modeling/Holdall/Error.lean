import Holdall.Text.Inspect

namespace Holdall

inductive ArgumentError
  | lengthMismatch (keys values : Nat)
  | indexOutOfBounds (index size : Nat)
  | invalidRange (lower upper size : Nat)
  | invalid (reason : String)
  deriving DecidableEq, Repr

namespace ArgumentError

def message : ArgumentError → String
  | lengthMismatch keys values =>
    s!"key and value lengths differ: {keys} keys, {values} values"
  | indexOutOfBounds index size => s!"index {index} out of bounds for length {size}"
  | invalidRange lower upper size => s!"range {lower}..{upper} invalid for length {size}"
  | invalid reason => reason

def emptyChunks : ArgumentError := invalid "chunk size must be > 0"

instance : Inspect ArgumentError where
  inspect
    | lengthMismatch keys values =>
      Text.record "LengthMismatch" [("keys", inspect keys), ("values", inspect values)]
    | indexOutOfBounds index size =>
      Text.record "IndexOutOfBounds" [("index", inspect index), ("len", inspect size)]
    | invalidRange lower upper size => Text.record "InvalidRange"
        [("from", inspect lower), ("to", inspect upper), ("len", inspect size)]
    | invalid reason => Text.applied "InvalidArgument" [inspect reason]

end ArgumentError

structure ConfigError where
  message : String
  deriving DecidableEq, Repr

def ConfigError.noRoom : ConfigError := ⟨"max_size must be > 0"⟩

instance : Inspect ConfigError := ⟨fun e => Text.applied "ConfigError" [inspect e.message]⟩

end Holdall
