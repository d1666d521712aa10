/-!
# Variables and their values

A variable has a name and a cell that holds its value. Expressions, derivatives and equality
know a variable by its name; evaluation reads its cell. So two variables may share a name and
still hold different values, and a variable keeps its cell wherever it is copied to.
-/

namespace Calculus

/-- A named handle to a cell. -/
structure Variable where
  name : String
  cell : Nat
  deriving DecidableEq

/-- Whether two variables have the same name. -/
def Variable.sameName (v w : Variable) : Bool :=
  v.name == w.name

/-- The values of all cells. -/
structure Store where
  cells : Array Float

namespace Store

/-- The store without cells. -/
def empty : Store := ⟨#[]⟩

/-- A new variable; its cell holds zero. -/
def declare (s : Store) (name : String) : Variable × Store :=
  (⟨name, s.cells.size⟩, ⟨s.cells.push 0.0⟩)

/-- The value of a variable. -/
def value (s : Store) (v : Variable) : Float :=
  s.cells.getD v.cell 0.0

/-- Give a variable a value; every handle to its cell sees it. -/
def assign (s : Store) (v : Variable) (x : Float) : Store :=
  ⟨s.cells.setIfInBounds v.cell x⟩

theorem value_declare (s : Store) (name : String) :
    (s.declare name).2.value (s.declare name).1 = 0.0 := by
  simp [declare, value]

theorem value_assign {s : Store} {v : Variable} (h : v.cell < s.cells.size) (x : Float) :
    (s.assign v x).value v = x := by
  simp [assign, value, h]

theorem value_assign_of_ne (s : Store) {v w : Variable} (h : v.cell ≠ w.cell) (x : Float) :
    (s.assign v x).value w = s.value w := by
  simp [assign, value, Array.getD_eq_getD_getElem?, Array.getElem?_setIfInBounds_ne h]

end Store

end Calculus
