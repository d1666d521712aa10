import Calculus.Constant
import Std.Data.TreeMap

/-!
# Registries of constants

A registry is a table of named constants. It starts with the reserved ones, which can never be
bound again. `insert` binds any other name, also one that is bound already; `intern` names a
value by its decimal text, and keeps what is bound to that name already.
-/

namespace Calculus

/-- A table of constants by name. -/
structure Registry where
  entries : Std.TreeMap String Constant

namespace Registry

/-- The registry of the reserved constants. -/
def new : Registry :=
  ⟨Constant.reserved.foldl (fun entries c => entries.insert c.name c) ∅⟩

/-- The names bound in the registry, in code-point order. -/
def names (r : Registry) : List String :=
  r.entries.keys

/-- The number of names bound in the registry. -/
def size (r : Registry) : Nat :=
  r.entries.size

/-- Whether no name is bound in the registry. -/
def isEmpty (r : Registry) : Bool :=
  r.entries.isEmpty

/-- Whether a name is bound in the registry. -/
def contains (r : Registry) (name : String) : Bool :=
  r.entries.contains name

/-- The constant bound to a name. -/
def get (r : Registry) (name : String) : Except (Error Float) Constant :=
  match r.entries[name]? with
  | some c => .ok c
  | none => .error (Constant.notFound name r.names)

/-- Bind a name to a value, unless it is reserved. The flag tells whether it was bound. -/
def insert (r : Registry) (name : String) (value : Float) : Bool × Registry :=
  match Constant.reserved? name with
  | some _ => (false, r)
  | none => (true, ⟨r.entries.insert name ⟨name, value⟩⟩)

/-- The constant bound to the decimal text of a value; it is bound first if nothing is. -/
def intern (r : Registry) (value : Float) : Constant × Registry :=
  let c := Constant.ofValue value
  match r.entries[c.name]? with
  | some bound => (bound, r)
  | none => (c, ⟨r.entries.insert c.name c⟩)

end Registry

end Calculus
