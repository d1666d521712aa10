import Calculus.Expr.Basic

/-!
# Simplification rules

Six rules remove additive and multiplicative identities and annihilators at the top of a tree. A
constant counts as zero or one by its value, whatever it is called. `0 - a` becomes `a`, not its
negative.
-/

namespace Calculus

/-- The rules, named for what they remove. -/
inductive Rule where
  | addZero
  | subZero
  | mulZero
  | mulOne
  | zeroNumerator
  | divOne
  deriving DecidableEq

namespace Rule

/-- The law a rule applies. -/
def law : Rule → String
  | .addZero => "a + 0 = a"
  | .subZero => "a - 0 = a, 0 - a = a"
  | .mulZero => "a * 0 = 0"
  | .mulOne => "a * 1 = a"
  | .zeroNumerator => "0 / a = 0"
  | .divOne => "a / 1 = a"

/-- What is left of two operands when zeros are dropped; two zeros leave the reserved one. -/
def dropZero (l r : Expr) : Option Expr :=
  match l.isZero, r.isZero with
  | true, true => some .zero
  | true, false => some r
  | false, true => some l
  | false, false => none

/-- Apply a rule to the top of a tree. -/
def fire? : Rule → Expr → Option Expr
  | .addZero, .binary .add l r => dropZero l r
  | .subZero, .binary .sub l r => dropZero l r
  | .mulZero, .binary .mul l r => if l.isZero || r.isZero then some .zero else none
  | .mulOne, .binary .mul l r =>
    if l.isOne then some r else if r.isOne then some l else none
  | .zeroNumerator, .binary .div l _ => if l.isZero then some .zero else none
  | .divOne, .binary .div l r => if r.isOne then some l else none
  | _, _ => none

/-- The rules of sums and differences. -/
def additive : List Rule := [addZero, subZero]

/-- The rules of products. -/
def multiplicative : List Rule := [mulZero, mulOne]

/-- The rules of quotients. -/
def divisive : List Rule := [zeroNumerator, divOne]

/-- All rules, in the order they are tried. -/
def all : List Rule := additive ++ multiplicative ++ divisive

/-- The first of the given rules that applies, and what it gives. -/
def first? (rules : List Rule) (e : Expr) : Option (Rule × Expr) :=
  rules.findSome? fun rule => (rule.fire? e).map (rule, ·)

end Rule

end Calculus
