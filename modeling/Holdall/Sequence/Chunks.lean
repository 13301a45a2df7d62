import Holdall.Error

namespace Holdall.Sequence

variable {α : Type}

/-- The most bytes that can be asked for at one time: a size is a number of 64 bits with a sign. Room
within that limit is taken to be there. -/
def maxBytes : Nat := 9223372036854775807

inductive ChunkFailure
  | refused (e : ArgumentError)
  | capacityOverflow
  deriving DecidableEq, Repr

/-- A chunk to be filled, for which room is asked at once. Each item takes up `itemBytes` bytes. -/
def newChunk (itemBytes size : Nat) : Except ChunkFailure (List α) :=
  if itemBytes * size ≤ maxBytes then .ok [] else .error .capacityOverflow

def lastChunk (started : List α) : List (List α) := if started.isEmpty then [] else [started]

def chunksAfter (itemBytes size : Nat) (started : List α) :
    List α → Except ChunkFailure (List (List α))
  | [] => .ok (lastChunk started)
  | x :: xs =>
    let grown := started ++ [x]
    if grown.length = size then do
      let next ← newChunk itemBytes size
      return grown :: (← chunksAfter itemBytes size next xs)
    else chunksAfter itemBytes size grown xs

def chunks (itemBytes size : Nat) (xs : List α) : Except ChunkFailure (List (List α)) :=
  if size = 0 then .error (.refused .emptyChunks) else do
    chunksAfter itemBytes size (← newChunk itemBytes size) xs

end Holdall.Sequence
