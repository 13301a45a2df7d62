namespace Holdall.Text

inductive Alignment
  | left
  | right
  | centre
  deriving DecidableEq, Repr

structure Field where
  alignment : Alignment := .left
  fill : Char := ' '
  width : Option Nat := none
  precision : Option Nat := none
  deriving DecidableEq, Repr

/-- The fill before and after a text that is `missing` characters short. -/
def Alignment.split (missing : Nat) : Alignment → Nat × Nat
  | .left => (0, missing)
  | .right => (missing, 0)
  | .centre => (missing / 2, missing - missing / 2)

def Field.fit (field : Field) (s : String) : String :=
  let shown := match field.precision with
    | some p => s.toList.take p
    | none => s.toList
  let (before, after) := field.alignment.split (field.width.getD 0 - shown.length)
  String.ofList (List.replicate before field.fill ++ shown ++ List.replicate after field.fill)

theorem Alignment.split_total (missing : Nat) (a : Alignment) :
    (a.split missing).1 + (a.split missing).2 = missing := by
  cases a with
  | left => simp [split]
  | right => simp [split]
  | centre => simp only [split]; omega

theorem Field.fit_plain (s : String) : ({} : Field).fit s = s := by
  simp [fit, Alignment.split]

end Holdall.Text
