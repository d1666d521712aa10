import Calculus.Expr.Basic

/-!
# Outlines

An outline shows how an expression is built, on one line: every node with its kind, every leaf
with its name and its present value. It is meant for looking into a tree, where a rendering
would hide the difference between a constant and a variable.
-/

namespace Calculus

/-- A record with a name and a value, under its heading. -/
def namedValue (heading name : String) (value : Float) : String :=
  heading ++ " \x7b name: " ++ Text.quoted name ++ ", value: " ++ Numeral.explicitText value ++
    " \x7d"

/-- The outline of a constant. -/
def Constant.outline (c : Constant) : String :=
  namedValue "Constant" c.name c.value

/-- The outline of a variable, with its present value. -/
def Variable.outline (s : Store) (v : Variable) : String :=
  namedValue "Variable" v.name (s.value v)

/-- The operator as an outline spells it. -/
def BinOp.outline : BinOp → String
  | .add => "Add"
  | .sub => "Sub"
  | .mul => "Mul"
  | .div => "Div"
  | .pow => "Exp"

/-- The function as an outline spells it. -/
def Func.outline : Func → String
  | .ln => "Ln"
  | .sin => "Sin"
  | .cos => "Cos"

/-- The outline of an expression, with the present values of its variables. -/
def Expr.outline (s : Store) : Expr → String
  | .const c => "Constant(" ++ c.outline ++ ")"
  | .var v => "Variable(" ++ v.outline s ++ ")"
  | .binary op l r =>
    "Binary(" ++ op.outline ++ ", " ++ l.outline s ++ ", " ++ r.outline s ++ ")"
  | .call f a => "Call(" ++ f.outline ++ ", " ++ a.outline s ++ ")"

end Calculus
