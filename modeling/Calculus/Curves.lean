import Calculus.Derivative
import Calculus.Evaluation
import Calculus.Report
import Calculus.Simplification.Pass
import Calculus.Sweep

/-!
# Sample curves

A table of a line, and of the first two derivatives of a parabola with their simplified forms,
over a sweep given on the command line. `Curves.output` computes everything that is printed.
-/

namespace Calculus

/-- Lines for the two channels a program writes to. -/
structure Output where
  out : Array String
  err : Array String

namespace Output

/-- Nothing written yet. -/
def empty : Output := ⟨#[], #[]⟩

/-- Write a line. -/
def print (o : Output) (line : String) : Output :=
  { o with out := o.out.push line }

/-- Write a line about something that went wrong. -/
def warn (o : Output) (line : String) : Output :=
  { o with err := o.err.push line }

end Output

namespace Curves

/-- A number under its own name. -/
def number (value : Float) : Expr :=
  .const (.ofValue value)

/-- The line `4x - 1`. -/
def line (x : Variable) : Expr :=
  number 4.0 * .var x - number 1.0

/-- The parabola `2x² - x + 3`. -/
def parabola (x : Variable) : Expr :=
  number 2.0 * (.var x * .var x) - .var x + number 3.0

/-- The row of a table at one point. -/
def row (label : String) (curve : Expr) (x : Variable) (s : Store) (o : Output)
    (point : Float) : Output :=
  match curve.eval (s.assign x point) with
  | .ok value => o.print (Numeral.text point ++ " " ++ Numeral.text value)
  | .error err => o.warn (err.report label).header

/-- The rendering of a curve, then a table of its values over a sweep. -/
def tabulate (label : String) (curve : Expr) (x : Variable) (s : Store) (sweep : Sweep)
    (o : Output) : Output :=
  sweep.points.foldl (row label curve x s) ((o.print (label ++ ": " ++ curve.render)).print "X Y")

/-- The simplified form of a curve, or why there is none. -/
def printSimplified (label : String) (curve : Expr) (o : Output) : Output :=
  match curve.simplify with
  | .ok simplified => o.print (label ++ " simplified: " ++ simplified.render)
  | .error err => o.warn (err.report label).header

/-- Everything the program prints for its arguments. -/
def output (arguments : List String) : Output :=
  let (sweep, notices) := Sweep.ofArguments arguments
  let (x, s) := Store.empty.declare "x"
  let first := (parabola x).nthDerivative x 1
  let second := (parabola x).nthDerivative x 2
  let o := notices.foldl (fun o notice => o.warn notice.message) .empty
  let o := tabulate "y" (line x) x s sweep o
  let o := o.print ("y2: " ++ (parabola x).render)
  let o := printSimplified "y2_" first (tabulate "y2_" first x s sweep o)
  printSimplified "y2__" second (tabulate "y2__" second x s sweep o)

end Curves

end Calculus
