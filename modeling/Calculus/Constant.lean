import Calculus.Error
import Calculus.Text.EditDistance

/-!
# Constants

A constant is a named value. Five are reserved: `0`, `1`, `-1`, `e` and `pi`. Any other name can
be given to any value; a value that needs no name of its own is called by its decimal text.

A lookup that fails suggests the names one edit away from the one that was asked for.
-/

namespace Calculus

/-- A named value. -/
structure Constant where
  name : String
  value : Float

namespace Constant

/-- Constants are equal by name and by value, as doubles compare: the two zeros are equal, and
a value that is not a number equals nothing, itself included. -/
instance : BEq Constant where
  beq a b := a.name == b.name && a.value == b.value

/-- The reserved zero. -/
def zero : Constant := ⟨"0", 0.0⟩

/-- The reserved one. -/
def one : Constant := ⟨"1", 1.0⟩

/-- The reserved minus one. -/
def minusOne : Constant := ⟨"-1", -1.0⟩

/-- Euler's number. -/
def e : Constant := ⟨"e", 2.718281828459045⟩

/-- The circle constant. -/
def pi : Constant := ⟨"pi", 3.141592653589793⟩

/-- The reserved constants. -/
def reserved : List Constant := [zero, one, minusOne, e, pi]

/-- The reserved constant with the given name. -/
def reserved? (name : String) : Option Constant :=
  reserved.find? (·.name = name)

/-- The constant called by the decimal text of its value. -/
def ofValue (value : Float) : Constant :=
  ⟨Numeral.text value, value⟩

/-- The candidates at most one edit away from `name`, in code-point order. -/
def neighbours (name : String) (candidates : List String) : List String :=
  (candidates.filter fun candidate =>
    decide (Text.editDistance candidate.toList name.toList < 2)).mergeSort (· ≤ ·)

/-- The error of looking up `name` where only `candidates` are known. -/
def notFound (name : String) (candidates : List String) : Error Float where
  spans := [.ofLength 0 name.utf8ByteSize]
  cause := .unknownConstant name (neighbours name candidates)

/-- Look up a reserved constant. -/
def lookup (name : String) : Except (Error Float) Constant :=
  match reserved? name with
  | some c => .ok c
  | none => .error (notFound name (reserved.map (·.name)))

end Constant

end Calculus
