import Calculus.Expr.Basic

/-!
# Rendering

An expression is rendered with all its parentheses: `(l op r)`, `f(a)`, and leaves by name.
Errors point into this text, so the position of every operand in it is known without rendering:
`length` counts the bytes of a rendering, and the three offsets say where an operand starts in
the rendering of its node.
-/

namespace Calculus

/-- The sign of an operator. -/
def BinOp.symbol : BinOp → String
  | .add => "+"
  | .sub => "-"
  | .mul => "*"
  | .div => "/"
  | .pow => "^"

/-- The name of a function. -/
def Func.name : Func → String
  | .ln => "ln"
  | .sin => "sin"
  | .cos => "cos"

namespace Expr

/-- The text of an expression. -/
def render : Expr → String
  | .const c => c.name
  | .var v => v.name
  | .binary op l r => "(" ++ l.render ++ " " ++ op.symbol ++ " " ++ r.render ++ ")"
  | .call f a => f.name ++ "(" ++ a.render ++ ")"

/-- The number of UTF-8 bytes of the text of an expression. -/
def length : Expr → Nat
  | .const c => c.name.utf8ByteSize
  | .var v => v.name.utf8ByteSize
  | .binary op l r => l.length + r.length + op.symbol.utf8ByteSize + 4
  | .call f a => f.name.utf8ByteSize + a.length + 2

/-- Where the left operand starts: after the parenthesis. -/
def leftStart : Nat := 1

/-- Where the right operand starts: after the parenthesis, the left operand, and the operator
between blanks. -/
def rightStart (op : BinOp) (lhs : Expr) : Nat :=
  leftStart + lhs.length + op.symbol.utf8ByteSize + 2

/-- Where the argument of a function starts: after its name and the parenthesis. -/
def argumentStart (f : Func) : Nat :=
  f.name.utf8ByteSize + 1

/-- The span of the whole expression in its own text. -/
def span (e : Expr) : Span :=
  .ofLength 0 e.length

/-- The span of the left operand `lhs` in the text of its node. -/
def leftSpan (lhs : Expr) : Span :=
  .ofLength leftStart lhs.length

/-- The span of the right operand `rhs` in the text of its node. -/
def rightSpan (op : BinOp) (lhs rhs : Expr) : Span :=
  .ofLength (rightStart op lhs) rhs.length

/-- The span of the argument `operand` in the text of a call. -/
def argumentSpan (f : Func) (operand : Expr) : Span :=
  .ofLength (argumentStart f) operand.length

end Expr

end Calculus
