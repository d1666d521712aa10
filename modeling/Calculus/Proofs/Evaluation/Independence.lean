import Calculus.Proofs.Derivative.Leaves
import Calculus.Proofs.Evaluation.Nodes
import Calculus.Proofs.Simplification.Reduction

/-!
# Independence

What does not depend on a variable evaluates to the same, value or failure, whatever the variables
of that name are worth, and so do its derivatives of any order and what it simplifies to.

Dependence is decided by names, and evaluation reads cells. The two meet because a cell is made for
one variable, and every handle to it goes by the name of that variable: `Variable.DeclaredIn` says so
of a variable, and `declaredIn_declareAll` that it holds of all that have been declared.

Differentiation and simplification copy and drop leaves, and the leaves they make are constants.
So they bring in no variable, whichever one is differentiated by.
-/

namespace Calculus

/-- The variable is one of those that were declared under the given names, in this order. -/
def Variable.DeclaredIn (names : List String) (v : Variable) : Prop :=
  names[v.cell]? = some v.name

instance (names : List String) : DecidablePred (Variable.DeclaredIn names) := fun v =>
  inferInstanceAs (Decidable (names[v.cell]? = some v.name))

namespace Store

/-- Declare variables under the given names, one after the other. -/
def declareAll : List String → Store → List Variable × Store
  | [], s => ([], s)
  | name :: names, s =>
    let (v, s) := s.declare name
    let (vs, s) := s.declareAll names
    (v :: vs, s)

/-- All variables that have been declared go by the names of their cells. -/
theorem declaredIn_declareAll {s : Store} {earlier : List String}
    (h : s.cells.size = earlier.length) (names : List String) {v : Variable}
    (hv : v ∈ (declareAll names s).1) : v.DeclaredIn (earlier ++ names) := by
  induction names generalizing s earlier with
  | nil => cases hv
  | cons name names ih =>
    rcases List.mem_cons.1 hv with rfl | later
    · show (earlier ++ name :: names)[s.cells.size]? = some name
      rw [h, List.getElem?_append_right (Nat.le_refl _), Nat.sub_self]
      rfl
    · have size : (s.declare name).2.cells.size = (earlier ++ [name]).length := by
        simp [declare, h]
      have found := ih size later
      rwa [List.append_assoc] at found

/-- The stores differ in no cells but those of variables with the given name. -/
def DifferOnlyAt (names : List String) (name : String) (s s' : Store) : Prop :=
  ∀ c : Nat, s.cells[c]? ≠ s'.cells[c]? → names[c]? = some name

end Store

namespace Expr

/-- Every variable that occurs has been declared. -/
def DeclaredIn (names : List String) (e : Expr) : Prop :=
  e.Everywhere fun t => ∀ u ∈ t.asVar?, u.DeclaredIn names

instance (names : List String) : DecidablePred (DeclaredIn names) := fun e =>
  inferInstanceAs (Decidable (e.Everywhere fun t => ∀ u ∈ t.asVar?, u.DeclaredIn names))

/-- A property of leaves that the reserved zero has carries over to what an expression simplifies
to. -/
theorem everywhere_simplify {P : Expr → Prop} (hP : LeafProperty P) (zero : P .zero) {e s : Expr}
    (h : e.Everywhere P) (hs : e.simplify = .ok s) : s.Everywhere P := by
  induction e generalizing s with
  | const c => cases hs; exact h
  | var v => cases hs; exact h
  | binary op l r ihl ihr =>
    obtain ⟨-, hl, hr⟩ := everywhere_binary.1 h
    obtain ⟨l', r', sl, sr, -, ⟨rule, reduction⟩ | ⟨-, rfl⟩⟩ := simplify_binary_eq_ok_iff.1 hs
    · rcases reduction.result with rfl | rfl | rfl
      · exact ihl hl sl
      · exact ihr hr sr
      · exact everywhere_const.2 zero
    · exact hP.node (ihl hl sl) (ihr hr sr)
  | call f a ih =>
    obtain ⟨-, ha⟩ := everywhere_call.1 h
    obtain ⟨a', sa, rfl⟩ := simplify_call_eq_ok_iff.1 hs
    exact hP.application (ih ha sa)

/-- A property of variables is one of leaves. -/
theorem leafProperty_variables (P : Variable → Prop) :
    LeafProperty fun t => ∀ u ∈ t.asVar?, P u where
  binary _ _ _ := by simp [asVar?]
  call _ _ := by simp [asVar?]
  one := by simp [one, asVar?]
  minusOne := by simp [minusOne, asVar?]

section Stores

variable {names : List String} {e : Expr} {v : Variable} {s s' : Store}

/-- Stores that differ only in cells of variables called like `v` agree on all variables of what
does not depend on `v`. -/
theorem agree_of_not_dependsOn (declared : e.DeclaredIn names) (independent : e.dependsOn v = false)
    (differ : s.DifferOnlyAt names v.name s') :
    e.Everywhere fun t => ∀ u ∈ t.asVar?, s.value u = s'.value u := by
  intro p t ht u hu
  have own : names[u.cell]? = some u.name := declared p t ht u hu
  have other : u.name ≠ v.name := dependsOn_eq_false_iff.1 independent p t ht u hu
  have same : s.cells[u.cell]? = s'.cells[u.cell]? := Classical.byContradiction fun changed =>
    other (Option.some.inj (own.symm.trans (differ u.cell changed)))
  simp only [Store.value, Array.getD_eq_getD_getElem?, same]

/-- **Independence.** Let two stores differ only in cells of variables that are called like `v`, and
an expression not depend on `v`. Its evaluations in the two stores are the same, and so are those
of its derivatives of any order by any variable, and those of what it simplifies to. -/
theorem eval_same_of_not_dependsOn (names : List String) (e : Expr) (v : Variable) (s s' : Store)
    (declared : e.DeclaredIn names) (independent : e.dependsOn v = false)
    (differ : s.DifferOnlyAt names v.name s') :
    e.eval s = e.eval s' ∧
      (∀ w n, (e.nthDerivative w n).eval s = (e.nthDerivative w n).eval s') ∧
      ∀ t, e.simplify = .ok t → t.eval s = t.eval s' := by
  have agree := agree_of_not_dependsOn declared independent differ
  have leaves := leafProperty_variables fun u => s.value u = s'.value u
  refine ⟨evalIn_congr agree, fun w n => ?_, fun t ht => ?_⟩
  · rcases everywhere_nthDerivative leaves agree w n with zero | agree'
    · rw [zero]
      rfl
    · exact evalIn_congr agree'
  · exact evalIn_congr (everywhere_simplify leaves (by simp [zero, asVar?]) agree ht)

end Stores

/-- Two variables are called `y`, with cells of their own, and both change. `(1 * (x + (0 ^ 0)))`
fails in both stores, with the same error. -/
theorem eval_same_of_not_dependsOn_twins :
    let names := ["x", "y", "y"]
    let x : Variable := ⟨"x", 0⟩
    let y : Variable := ⟨"y", 1⟩
    let e := one * (var x + zero ^ zero)
    let s : Store := ⟨#[2.0, 3.0, 5.0]⟩
    let s' : Store := ⟨#[2.0, -7.0, 0.0]⟩
    (Store.empty.declareAll names).1 = [x, y, ⟨"y", 2⟩] ∧ e.DeclaredIn names ∧
      e.dependsOn y = false ∧ s.DifferOnlyAt names y.name s' ∧
      e.eval s = .error ⟨[⟨10, 17⟩, ⟨11, 12⟩, ⟨15, 16⟩], .undefinedResult⟩ ∧
      e.eval s = e.eval s' ∧
      (∀ w n, (e.nthDerivative w n).eval s = (e.nthDerivative w n).eval s') ∧
      ∀ t, e.simplify = .ok t → t.eval s = t.eval s' := by
  intro names x y e s s'
  have declared : e.DeclaredIn names := by decide
  have differ : s.DifferOnlyAt names y.name s' := by
    intro c changed
    match c with
    | 0 => exact absurd rfl changed
    | 1 | 2 => rfl
    | c + 3 => exact absurd rfl changed
  exact ⟨rfl, declared, by decide, differ, rfl,
    eval_same_of_not_dependsOn names e y s s' declared (by decide) differ⟩

end Expr

end Calculus
