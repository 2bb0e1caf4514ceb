namespace HookLint.Text

structure Run where
  first : Nat
  last : Nat
  step : Nat

def Run.holds (run : Run) (code : Nat) : Bool :=
  run.first ≤ code && code ≤ run.last && (code - run.first) % run.step = 0

/-- Runs of neighbouring code points. Each is given by how far it starts after the one before it ends
and by how many more code points it has. -/
def Run.spaced (start : Nat) : List Nat → List Run
  | gap :: more :: rest =>
    { first := start + gap, last := start + gap + more, step := 1 } :: Run.spaced (start + gap + more) rest
  | _ => []

def Run.anyHolds (runs : List Run) (code : Nat) : Bool := runs.any (·.holds code)

end HookLint.Text
