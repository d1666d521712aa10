import Calculus.Derivative
import Calculus.Evaluation
import Calculus.Registry
import Calculus.Simplification.Pass

/-!
# The journal

A journal records what the library does while it works: which operation was entered, which rule
of differentiation was chosen, which subexpression was simplified, which constant was registered.
The operations here do what their namesakes do and write down the events on the way.
-/

namespace Calculus

universe u

/-- An operation that has been entered. -/
inductive Scope where
  | eval
  | derivative (x : Variable)
  | nthDerivative (x : Variable) (n : Nat)
  | simplify
  | simplifyInto

/-- Something that happened. -/
inductive Event where
  | entered (scope : Scope)
  | chose (rule : RuleChoice)
  | simplified (before after : Expr)
  | registered (c : Constant)
  | registeredValue (c : Constant)

/-- The events so far, in order. -/
abbrev Journal := Array Event

/-- The name of the operands that depend on the variable. -/
def Dependence.name : Dependence → String
  | .neither => "Neither"
  | .left => "Lhs"
  | .right => "Rhs"
  | .both => "Both"

/-- The name of the rule that differentiates an operator. -/
def BinOp.ruleName : BinOp → String
  | .add => "sum rule"
  | .sub => "difference rule"
  | .mul => "product rule"
  | .div => "quotient rule"
  | .pow => "power rule"

/-- The line of an entered operation. -/
def Scope.line : Scope → String
  | .eval => "TRACE span eval"
  | .derivative x => "DEBUG span derivative var=" ++ x.name
  | .nthDerivative x n => "DEBUG span derivative_n var=" ++ x.name ++ " n=" ++ toString n
  | .simplify => "DEBUG span simplify"
  | .simplifyInto => "DEBUG span simplify_with"

/-- The line of a chosen rule. -/
def RuleChoice.line : RuleChoice → String
  | .operator op dependence =>
    "TRACE applying " ++ op.ruleName ++ " dependence=" ++ dependence.name
  | .chain f => "TRACE applying chain rule func=" ++ f.name
  | .independent f => "TRACE operand is independent func=" ++ f.name

/-- The line of an event. -/
def Event.line : Event → String
  | .entered scope => scope.line
  | .chose rule => rule.line
  | .simplified before after =>
    "DEBUG simplified from=" ++ before.render ++ " to=" ++ after.render
  | .registered c =>
    "DEBUG registering constant name=" ++ c.name ++ " value=" ++ Numeral.text c.value
  | .registeredValue c =>
    "DEBUG registering constant from value name=" ++ c.name ++ " value=" ++
      Numeral.text c.value

namespace Journal

/-- The empty journal. -/
def empty : Journal := #[]

/-- The lines of a journal. -/
def lines (j : Journal) : Array String :=
  j.map Event.line

/-- Write down the choice of a rule. -/
def noteChoice (j : Journal) (rule : RuleChoice) : Journal :=
  j.push (.chose rule)

/-- Write down a reduction. -/
def noteReduction (j : Journal) (reduction : Reduction) : Journal :=
  j.push (.simplified reduction.before reduction.after)

/-- Do what `Expr.eval` does, with a journal. -/
def eval (j : Journal) (s : Store) (e : Expr) : Except (Error Float) Float × Journal :=
  (e.eval s, j.push (.entered .eval))

/-- Do what `Expr.derivative` does, with a journal. -/
def derivative (j : Journal) (x : Variable) (e : Expr) : Expr × Journal :=
  e.differentiate noteChoice x (j.push (.entered (.derivative x)))

/-- Do what `Expr.nthDerivative` does, with a journal. -/
def nthDerivative (j : Journal) (x : Variable) (n : Nat) (e : Expr) : Expr × Journal :=
  Expr.nthDifferentiate noteChoice x n e (j.push (.entered (.nthDerivative x n)))

/-- Do what `Expr.simplify` does, with a journal. -/
def simplify (j : Journal) (e : Expr) : Except (Error Float) Expr × Journal :=
  e.simplifyPass noteReduction (j.push (.entered .simplify))

/-- Do what `Expr.simplifyInto` does, with a journal. -/
def simplifyInto {σ : Type u} [Collector σ Rule] (j : Journal) (e : Expr) (collector : σ) :
    Except (Error Float) Expr × σ × Journal :=
  e.simplifyPass
    (fun (steps, j) reduction => (Collector.push steps reduction.rule, noteReduction j reduction))
    (collector, j.push (.entered .simplifyInto))

/-- Do what `Expr.simplifySteps` does, with a journal. -/
def simplifySteps (j : Journal) (e : Expr) :
    Except (Error Float) (Expr × Array Rule) × Journal :=
  match j.simplifyInto e (#[] : Array Rule) with
  | (.ok e', steps, j) => (.ok (e', steps), j)
  | (.error err, _, j) => (.error err, j)

/-- Do what `Registry.insert` does, with a journal. -/
def insert (j : Journal) (r : Registry) (name : String) (value : Float) :
    (Bool × Registry) × Journal :=
  let result := r.insert name value
  (result, if result.1 then j.push (.registered ⟨name, value⟩) else j)

/-- Do what `Registry.intern` does, with a journal. -/
def intern (j : Journal) (r : Registry) (value : Float) :
    (Constant × Registry) × Journal :=
  let c := Constant.ofValue value
  (r.intern value, if r.contains c.name then j else j.push (.registeredValue c))

@[simp] theorem derivative_fst (j : Journal) (x : Variable) (e : Expr) :
    (j.derivative x e).1 = e.derivative x :=
  Expr.differentiate_fst noteChoice x e _

@[simp] theorem nthDerivative_fst (j : Journal) (x : Variable) (n : Nat) (e : Expr) :
    (j.nthDerivative x n e).1 = e.nthDerivative x n :=
  Expr.nthDifferentiate_fst noteChoice x n e _

@[simp] theorem simplify_fst (j : Journal) (e : Expr) : (j.simplify e).1 = e.simplify :=
  Expr.simplifyPass_fst noteReduction e _

@[simp] theorem simplifyInto_fst {σ : Type u} [Collector σ Rule] (j : Journal) (e : Expr)
    (collector : σ) : (j.simplifyInto e collector).1 = e.simplify :=
  Expr.simplifyPass_fst _ e _

/-- A journal does not change what a collector is given. -/
theorem simplifyInto_collector {σ : Type u} [Collector σ Rule] (j : Journal) (e : Expr)
    (collector : σ) : (j.simplifyInto e collector).2.1 = (e.simplifyInto collector).2 :=
  Expr.simplifyPass_snd Prod.fst (fun _ _ => rfl) e _

/-- A collector does not change what a journal is given. -/
theorem simplifyInto_journal {σ : Type u} [Collector σ Rule] (j : Journal) (e : Expr)
    (collector : σ) :
    (j.simplifyInto e collector).2.2 =
      (e.simplifyPass noteReduction (j.push (.entered .simplifyInto))).2 :=
  Expr.simplifyPass_snd Prod.snd (fun _ _ => rfl) e _

end Journal

end Calculus
