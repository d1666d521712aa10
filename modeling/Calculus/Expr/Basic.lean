import Calculus.Constant
import Calculus.Variable

/-!
# Expressions

An expression is a constant, a variable, a binary operator applied to two expressions, or a
function applied to one. Nothing is simplified when an expression is built.
-/

namespace Calculus

/-- The binary operators. -/
inductive BinOp where
  | add
  | sub
  | mul
  | div
  | pow
  deriving DecidableEq

/-- The functions of one argument. -/
inductive Func where
  | ln
  | sin
  | cos
  deriving DecidableEq

/-- An expression tree. -/
inductive Expr where
  | const (c : Constant)
  | var (v : Variable)
  | binary (op : BinOp) (lhs rhs : Expr)
  | call (f : Func) (operand : Expr)

namespace Expr

instance : Add Expr := ⟨binary .add⟩

instance : Sub Expr := ⟨binary .sub⟩

instance : Mul Expr := ⟨binary .mul⟩

instance : Div Expr := ⟨binary .div⟩

instance : HPow Expr Expr Expr := ⟨binary .pow⟩

/-- The reserved constant `0`. -/
def zero : Expr := .const .zero

/-- The reserved constant `1`. -/
def one : Expr := .const .one

/-- The reserved constant `-1`. -/
def minusOne : Expr := .const .minusOne

instance : Inhabited Expr := ⟨zero⟩

/-- Structural equality: constants by name and value, variables by name. -/
def beq : Expr → Expr → Bool
  | .const c, .const d => c == d
  | .var v, .var w => v.sameName w
  | .binary op l r, .binary op' l' r' => op == op' && beq l l' && beq r r'
  | .call f a, .call f' a' => f == f' && beq a a'
  | _, _ => false

instance : BEq Expr := ⟨beq⟩

/-- The constant at a leaf. -/
def asConst? : Expr → Option Constant
  | .const c => some c
  | _ => none

/-- The variable at a leaf. -/
def asVar? : Expr → Option Variable
  | .var v => some v
  | _ => none

/-- Whether the expression is a constant worth zero, of either sign and any name. -/
def isZero : Expr → Bool
  | .const c => c.value == 0.0
  | _ => false

/-- Whether the expression is a constant worth one, of any name. -/
def isOne : Expr → Bool
  | .const c => c.value == 1.0
  | _ => false

@[simp] theorem isZero_zero : zero.isZero = true := by decide

@[simp] theorem isOne_zero : zero.isOne = false := by decide

@[simp] theorem isZero_one : one.isZero = false := by decide

@[simp] theorem isOne_one : one.isOne = true := by decide

@[simp] theorem isZero_minusOne : minusOne.isZero = false := by decide

@[simp] theorem isOne_minusOne : minusOne.isOne = false := by decide

/-- Whether a variable of the same name as `x` occurs. -/
def dependsOn (x : Variable) : Expr → Bool
  | .const _ => false
  | .var v => v.sameName x
  | .binary _ l r => l.dependsOn x || r.dependsOn x
  | .call _ a => a.dependsOn x

/-- Whether no variable occurs. -/
def isClosed : Expr → Bool
  | .const _ => true
  | .var _ => false
  | .binary _ l r => l.isClosed && r.isClosed
  | .call _ a => a.isClosed

end Expr

end Calculus
