import Calculus.Numeral.Style
import Calculus.Text.Quoted

/-!
# Errors

An error says why an operation failed and which parts of a text it failed on. The text is the
rendering of the expression the operation was called on, or the name that was looked up; a
`Span` is a range of its UTF-8 bytes. An enclosing node shifts the spans of an operand's error to
where the operand stands in its own text.

The causes are independent of the kind of number that is computed with; their wording is given
for doubles.
-/

namespace Calculus

universe u

/-- A half-open range of byte positions in a text. -/
structure Span where
  start : Nat
  stop : Nat
  deriving DecidableEq

/-- The span `distance` bytes further right. -/
def Span.shift (distance : Nat) (span : Span) : Span :=
  ⟨span.start + distance, span.stop + distance⟩

/-- The span of `length` bytes at a position. -/
def Span.ofLength (start length : Nat) : Span :=
  ⟨start, start + length⟩

@[simp] theorem Span.shift_zero (span : Span) : span.shift 0 = span := rfl

theorem Span.shift_shift (m n : Nat) (span : Span) :
    (span.shift m).shift n = span.shift (m + n) := by
  simp only [Span.shift, Nat.add_assoc]

theorem Span.shift_ofLength (distance start length : Nat) :
    (Span.ofLength start length).shift distance = .ofLength (start + distance) length := by
  simp only [Span.shift, Span.ofLength, Nat.add_right_comm]

/-- Why an operation failed. -/
inductive Cause (α : Type u) where
  /-- A denominator evaluated to zero. -/
  | divisionByZero
  /-- The operand of a logarithm evaluated to a number that is not positive. -/
  | invalidDomain (value : α)
  /-- Base and exponent of a power both evaluated to zero. -/
  | undefinedResult
  /-- No constant has this name; the suggestions are names spelled similarly. -/
  | unknownConstant (name : String) (suggestions : List String)
  /-- A denominator simplifies to zero, whatever the variables are. -/
  | alwaysDividesByZero
  deriving DecidableEq

/-- A cause together with the spans it is about; the first one is the most important. -/
structure Error (α : Type u) where
  spans : List Span
  cause : Cause α
  deriving DecidableEq

/-- The error with all its spans `distance` bytes further right. -/
def Error.shift {α : Type u} (distance : Nat) (err : Error α) : Error α :=
  { err with spans := err.spans.map (Span.shift distance) }

@[simp] theorem Error.cause_shift {α : Type u} (distance : Nat) (err : Error α) :
    (err.shift distance).cause = err.cause := rfl

theorem Error.shift_shift {α : Type u} (m n : Nat) (err : Error α) :
    (err.shift m).shift n = err.shift (m + n) := by
  simp [Error.shift, Span.shift_shift, Function.comp_def]

namespace Cause

/-- The one-line description of a cause. -/
def message : Cause Float → String
  | .divisionByZero => "division by zero"
  | .invalidDomain value =>
    "cannot take the natural logarithm of `" ++ Numeral.text value ++ "`"
  | .undefinedResult => "zero to the power of zero is undefined"
  | .unknownConstant name _ => "`" ++ name ++ "` is not a known constant"
  | .alwaysDividesByZero => "this expression always divides by zero"

/-- What is said about each span of an error with this cause, in order. -/
def labels : Cause Float → List String
  | .divisionByZero => ["this division", "this operand evaluated to zero"]
  | .invalidDomain value =>
    ["this logarithm", "this operand evaluated to `" ++ Numeral.text value ++ "`"]
  | .undefinedResult =>
    ["this power", "the base evaluated to zero", "the exponent evaluated to zero"]
  | .unknownConstant _ _ => ["this name"]
  | .alwaysDividesByZero => ["this division", "this operand simplifies to zero"]

/-- A name between backquotes, in the colour of expressions on a terminal. -/
def highlighted (name : String) : String :=
  "`\x1b[38;2;52;235;152m" ++ name ++ "\x1b[0m`"

/-- What can be done about a cause. -/
def help? : Cause Float → Option String
  | .divisionByZero =>
    some "change the variable values so that the denominator is non-zero"
  | .invalidDomain _ =>
    some "the natural logarithm is only defined for positive numbers"
  | .undefinedResult => none
  | .unknownConstant name [] =>
    some ("to create a constant with this name, use `custom_constant(" ++ Text.quoted name ++
      ", <value>)`")
  | .unknownConstant _ [suggestion] =>
    some ("did you mean the " ++ highlighted suggestion ++ " constant?")
  | .unknownConstant _ suggestions =>
    some ("did you mean one of these constants? " ++
      ", ".intercalate (suggestions.map highlighted))
  | .alwaysDividesByZero =>
    some "the expression is undefined for every value of its variables"

end Cause

end Calculus
