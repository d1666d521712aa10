import Calculus.Curves

/-!
# The command line

`curves [start] [end] [step]` prints the sample curves.
-/

/-- Print the sample curves. -/
def main (arguments : List String) : IO Unit := do
  let output := Calculus.Curves.output arguments
  for line in output.err do
    IO.eprintln line
  for line in output.out do
    IO.println line
