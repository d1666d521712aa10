import Calculus.Expr.Basic

/-!
# Post-order traversal

A `Walk` is a traversal under way: a stack of nodes still to be visited, the next one first.
A node is first expanded into its operands, which are visited before it; it is marked so that it
is not expanded twice. `Walk.next?` yields one node at a time, and every step makes the pending
work smaller, so a walk ends. The sizes and the variables of an expression are folds over it.
-/

namespace Calculus

/-- A node on the stack of a walk, and whether its operands have been put there already. -/
structure Visit where
  expr : Expr
  expanded : Bool

/-- A traversal under way: what is still to be visited, the next node first. -/
structure Walk where
  pending : List Visit

/-- The number of nodes of a tree. -/
def Expr.nodes : Expr → Nat
  | .const _ => 1
  | .var _ => 1
  | .binary _ l r => l.nodes + r.nodes + 1
  | .call _ a => a.nodes + 1

/-- The number of moves a stack entry still needs: an expanded node is only visited, and any
other subtree has each of its nodes expanded and visited. -/
def Visit.work (visit : Visit) : Nat :=
  if visit.expanded then 1 else 2 * visit.expr.nodes

/-- The number of moves a walk can still make. -/
def Walk.work (walk : Walk) : Nat :=
  walk.pending.foldr (fun visit rest => visit.work + rest) 0

/-- The walk that visits every node of a tree. -/
def Walk.start (e : Expr) : Walk :=
  ⟨[⟨e, false⟩]⟩

/-- The next node in post-order, and the rest of the walk. -/
def Walk.next? (walk : Walk) : Option (Expr × Walk) :=
  match walk with
  | ⟨[]⟩ => none
  | ⟨⟨e, true⟩ :: rest⟩ => some (e, ⟨rest⟩)
  | ⟨⟨.const c, false⟩ :: rest⟩ => some (.const c, ⟨rest⟩)
  | ⟨⟨.var v, false⟩ :: rest⟩ => some (.var v, ⟨rest⟩)
  | ⟨⟨.binary op l r, false⟩ :: rest⟩ =>
    next? ⟨⟨l, false⟩ :: ⟨r, false⟩ :: ⟨.binary op l r, true⟩ :: rest⟩
  | ⟨⟨.call f a, false⟩ :: rest⟩ =>
    next? ⟨⟨a, false⟩ :: ⟨.call f a, true⟩ :: rest⟩
termination_by walk.work
decreasing_by
  all_goals
    simp [Walk.work, Visit.work, Expr.nodes]
    omega

theorem Expr.nodes_pos (e : Expr) : 0 < e.nodes := by
  cases e <;> simp [Expr.nodes]

/-- Every visit leaves less work. -/
theorem Walk.work_next? {walk rest : Walk} {e : Expr} (h : walk.next? = some (e, rest)) :
    rest.work < walk.work := by
  fun_induction Walk.next? walk with
  | case1 => simp at h
  | case2 e' rest' =>
    obtain ⟨-, rfl⟩ := by simpa using h
    simp [Walk.work, Visit.work]
  | case3 c rest' =>
    obtain ⟨-, rfl⟩ := by simpa using h
    simp [Walk.work, Visit.work, Expr.nodes]
  | case4 v rest' =>
    obtain ⟨-, rfl⟩ := by simpa using h
    simp [Walk.work, Visit.work, Expr.nodes]
  | case5 op l r rest' ih =>
    have := ih h
    simp [Walk.work, Visit.work, Expr.nodes] at this ⊢
    omega
  | case6 f a rest' ih =>
    have := ih h
    simp [Walk.work, Visit.work, Expr.nodes] at this ⊢
    omega

/-- Combine the nodes a walk visits, from the first to the last. -/
def Walk.fold {β : Type} (step : β → Expr → β) (acc : β) (walk : Walk) : β :=
  match h : walk.next? with
  | none => acc
  | some (e, rest) =>
    have : rest.work < walk.work := Walk.work_next? h
    fold step (step acc e) rest
termination_by walk.work

/-- The nodes a walk visits, in order. -/
def Walk.toArray (walk : Walk) : Array Expr :=
  walk.fold Array.push #[]

namespace Expr

/-- The nodes of an expression in left-to-right post-order. -/
def postOrder (e : Expr) : Array Expr :=
  (Walk.start e).toArray

/-- The number of nodes of an expression. -/
def complexity (e : Expr) : Nat :=
  (Walk.start e).fold (fun n _ => n + 1) 0

/-- Add the name of a variable that has not been seen before. -/
def collectName (names : Array String) (e : Expr) : Array String :=
  match e with
  | .var v => if names.contains v.name then names else names.push v.name
  | _ => names

/-- The names of the variables of an expression, in the order they are first visited. -/
def variableNames (e : Expr) : Array String :=
  (Walk.start e).fold collectName #[]

end Expr

end Calculus
