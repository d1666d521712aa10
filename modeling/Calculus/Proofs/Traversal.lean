import Calculus.Expr.Traversal
import Calculus.Proofs.Alignment

/-!
# What a walk visits

A walk visits what is pending on its stack, from the top down: a node alone if it has been
expanded, and otherwise the whole tree under it in post-order. This holds of every stack, whether a
walk can get there or not (`visitsAll_iff`), so that one step, which moves the first node out of
what remains, decides the whole run. A run ends because every step leaves less work, although a
node that is expanded leaves a higher stack.

So a fold over the walk of an expression is a fold over the list of its nodes in post-order
(`fold_eq_foldl`), whatever is folded, and on aligned expressions folds give the same if they treat
aligned nodes alike.

The two folds of the library are read off this list: one counts the nodes (`complexity_eq_nodes`),
the other lists the names of the variables among the leaves (`mem_variableNames`).
-/

namespace Calculus

universe u

/-- The nodes of an expression in post-order: those of the operands, from left to right, and then
the node. -/
def Expr.postOrderList : Expr → List Expr
  | .const c => [.const c]
  | .var v => [.var v]
  | .binary op l r => l.postOrderList ++ r.postOrderList ++ [.binary op l r]
  | .call f a => a.postOrderList ++ [.call f a]

/-- What is visited on account of a stack entry. -/
def Visit.visits (visit : Visit) : List Expr :=
  if visit.expanded then [visit.expr] else visit.expr.postOrderList

namespace Walk

/-- What a walk has still to visit, in order. -/
def remaining (walk : Walk) : List Expr :=
  walk.pending.flatMap Visit.visits

/-- A walk ends when nothing remains. -/
theorem remaining_of_next?_eq_none {walk : Walk} (h : walk.next? = none) : walk.remaining = [] := by
  fun_induction Walk.next? walk with
  | case1 => rfl
  | case2 | case3 | case4 => cases h
  | case5 op l r rest ih | case6 f a rest ih =>
    have empty := ih h
    simp [remaining, Visit.visits] at empty

/-- The next node is the first that remains. -/
theorem remaining_of_next?_eq_some {walk rest : Walk} {e : Expr}
    (h : walk.next? = some (e, rest)) : walk.remaining = e :: rest.remaining := by
  fun_induction Walk.next? walk with
  | case1 => cases h
  | case2 e' rest' =>
    cases h
    rfl
  | case3 c rest' =>
    cases h
    rfl
  | case4 v rest' =>
    cases h
    rfl
  | case5 op l r rest' ih =>
    rw [← ih h]
    simp [remaining, Visit.visits, Expr.postOrderList]
  | case6 f a rest' ih =>
    rw [← ih h]
    simp [remaining, Visit.visits, Expr.postOrderList]

/-- A fold over a walk is the fold over what remains. -/
theorem fold_eq_foldl {β : Type} (step : β → Expr → β) (acc : β) (walk : Walk) :
    walk.fold step acc = walk.remaining.foldl step acc := by
  fun_induction Walk.fold step acc walk with
  | case1 acc walk none => rw [remaining_of_next?_eq_none none, List.foldl_nil]
  | case2 acc walk e rest next less ih =>
    rw [remaining_of_next?_eq_some next, List.foldl_cons, ih]

@[simp] theorem remaining_start (e : Expr) : (start e).remaining = e.postOrderList := by
  simp [start, remaining, Visit.visits]

/-- One walk leads to another, and the nodes are visited on the way. -/
inductive Visits : Walk → List Expr → Walk → Prop where
  | nil (walk : Walk) : Visits walk [] walk
  | cons {walk rest last : Walk} {e : Expr} {visited : List Expr}
    (next : walk.next? = some (e, rest)) (more : Visits rest visited last) :
    Visits walk (e :: visited) last

/-- A walk ends after these nodes are visited. -/
def VisitsAll (walk : Walk) (visited : List Expr) : Prop :=
  ∃ last, walk.Visits visited last ∧ last.next? = none

/-- What has been visited and what remains are always the same together. -/
theorem Visits.remaining {walk last : Walk} {visited : List Expr} (h : walk.Visits visited last) :
    walk.remaining = visited ++ last.remaining := by
  induction h with
  | nil walk => rfl
  | cons next more ih => rw [remaining_of_next?_eq_some next, ih, List.cons_append]

/-- A walk visits what remains, and ends. -/
theorem visitsAll_remaining (walk : Walk) : walk.VisitsAll walk.remaining := by
  match h : walk.next? with
  | none =>
    rw [remaining_of_next?_eq_none h]
    exact ⟨walk, .nil walk, h⟩
  | some (e, rest) =>
    obtain ⟨last, visits, ended⟩ := visitsAll_remaining rest
    rw [remaining_of_next?_eq_some h]
    exact ⟨last, .cons h visits, ended⟩
termination_by walk.work
decreasing_by exact work_next? h

/-- A walk visits what remains, and nothing else. -/
theorem visitsAll_iff {walk : Walk} {visited : List Expr} :
    walk.VisitsAll visited ↔ visited = walk.remaining := by
  constructor
  · rintro ⟨last, visits, ended⟩
    rw [visits.remaining, remaining_of_next?_eq_none ended, List.append_nil]
  · rintro rfl
    exact visitsAll_remaining walk

end Walk

namespace Expr

theorem complexity_eq_foldl (e : Expr) :
    e.complexity = e.postOrderList.foldl (fun n _ => n + 1) 0 := by
  rw [complexity, Walk.fold_eq_foldl, Walk.remaining_start]

theorem variableNames_eq_foldl (e : Expr) :
    e.variableNames = e.postOrderList.foldl collectName #[] := by
  rw [variableNames, Walk.fold_eq_foldl, Walk.remaining_start]

theorem length_postOrderList (e : Expr) : e.postOrderList.length = e.nodes := by
  induction e with
  | const c => rfl
  | var v => rfl
  | binary op l r ihl ihr => simp [postOrderList, nodes, ihl, ihr, Nat.add_assoc]
  | call f a ih => simp [postOrderList, nodes, ih]

/-- The complexity of an expression is the number of its nodes. -/
theorem complexity_eq_nodes (e : Expr) : e.complexity = e.nodes := by
  rw [complexity_eq_foldl, List.foldl_add_const, length_postOrderList, Nat.zero_add, Nat.one_mul]

/-- What holds of every subexpression holds of every node in the list, and the other way round. -/
theorem everywhere_iff_forall_mem {P : Expr → Prop} {e : Expr} :
    e.Everywhere P ↔ ∀ t ∈ e.postOrderList, P t := by
  induction e with
  | const c => simp [postOrderList]
  | var v => simp [postOrderList]
  | binary op l r ihl ihr =>
    simp only [everywhere_binary, ihl, ihr, postOrderList, List.forall_mem_append,
      List.forall_mem_singleton]
    exact And.comm
  | call f a ih =>
    simp only [everywhere_call, ih, postOrderList, List.forall_mem_append,
      List.forall_mem_singleton]
    exact And.comm

theorem toList_postOrder (e : Expr) : e.postOrder.toList = e.postOrderList := by
  rw [postOrder, Walk.toArray, Walk.fold_eq_foldl, Walk.remaining_start]
  simp

theorem getLast?_postOrderList (e : Expr) : e.postOrderList.getLast? = some e := by
  cases e <;> simp [postOrderList]

/-- **The walk is the recursive post-order.** The walk that starts at an expression ends, and visits
the nodes in post-order. From every walk, all those on the way included, what is still to come
is read off the stack; on the way it is the post-order less what has been visited. So the
complexity is the number of nodes, and the expression comes last. -/
theorem walk_visits_postOrder (e : Expr) :
    (∀ visited, (Walk.start e).VisitsAll visited ↔ visited = e.postOrderList) ∧
      (∀ (walk : Walk) visited, walk.VisitsAll visited ↔
        visited = walk.pending.flatMap fun visit =>
          if visit.expanded then [visit.expr] else visit.expr.postOrderList) ∧
      (∀ walk visited, (Walk.start e).Visits visited walk →
        visited ++ walk.remaining = e.postOrderList) ∧
      e.postOrder.toList = e.postOrderList ∧ e.complexity = e.nodes ∧
      e.postOrder.back? = some e := by
  refine ⟨fun visited => ?_, fun walk visited => Walk.visitsAll_iff, fun walk visited visits => ?_,
    toList_postOrder e, complexity_eq_nodes e, ?_⟩
  · rw [Walk.visitsAll_iff, Walk.remaining_start]
  · rw [← visits.remaining, Walk.remaining_start]
  · rw [← Array.getLast?_toList, toList_postOrder, getLast?_postOrderList]

/-- A subexpression is visited wherever it stands. -/
example :
    let x := var ⟨"x", 0⟩
    (x ^ x * x ^ x).postOrderList = [x, x, x ^ x, x, x, x ^ x, x ^ x * x ^ x] := rfl

section Names

variable {names : Array String} {name : String}

/-- The leaves of an expression, from left to right. -/
def leaves (e : Expr) : List Expr :=
  e.postOrderList.filter isLeaf

theorem mem_leaves {e t : Expr} : t ∈ e.leaves ↔ t ∈ e.postOrderList ∧ t.isLeaf :=
  List.mem_filter

theorem mem_collectName {e : Expr} :
    name ∈ collectName names e ↔ name ∈ names ∨ ∃ v, e = var v ∧ v.name = name := by
  cases e with
  | const c => simp [collectName]
  | var v =>
    simp only [collectName, var.injEq, exists_eq_left']
    split
    · next known =>
      have old : v.name ∈ names := Array.contains_iff_mem.1 known
      exact ⟨.inl, fun h => h.elim id fun same => same ▸ old⟩
    · simp [eq_comm]
  | binary op l r => simp [collectName]
  | call f a => simp [collectName]

theorem mem_foldl_collectName {nodes : List Expr} :
    name ∈ nodes.foldl collectName names ↔ name ∈ names ∨ ∃ v, var v ∈ nodes ∧ v.name = name := by
  induction nodes generalizing names with
  | nil => simp
  | cons e nodes ih =>
    rw [List.foldl_cons, ih, mem_collectName, or_assoc, ← exists_or]
    simp only [List.mem_cons, or_and_right, eq_comm]

/-- The names that are collected are those of the variables among the leaves. -/
theorem mem_variableNames {e : Expr} :
    name ∈ e.variableNames ↔ ∃ v, var v ∈ e.leaves ∧ v.name = name := by
  simp [variableNames_eq_foldl, mem_foldl_collectName, mem_leaves, isLeaf]

end Names

theorem postOrderList_of_isLeaf {x : Expr} (h : x.isLeaf) : x.postOrderList = [x] := by
  cases x with
  | const c => rfl
  | var v => rfl
  | binary op l r => cases h
  | call f a => cases h

/-- A step that treats aligned nodes alike gives the same over aligned expressions. -/
theorem Aligned.foldl_postOrderList {β : Type u} {L : Expr → Expr → Prop} {step : β → Expr → β}
    (hstep : ∀ acc x y, x.Aligned L y → step acc x = step acc y) {a b : Expr}
    (h : a.Aligned L b) (acc : β) :
    a.postOrderList.foldl step acc = b.postOrderList.foldl step acc := by
  induction h generalizing acc with
  | leaf hx hy h =>
    rw [postOrderList_of_isLeaf hx, postOrderList_of_isLeaf hy]
    exact hstep acc _ _ (.leaf hx hy h)
  | binary op hl hr ihl ihr =>
    simp only [postOrderList, List.foldl_append, List.foldl_cons, List.foldl_nil, ihl, ihr]
    exact hstep _ _ _ (.binary op hl hr)
  | call f hu ih =>
    simp only [postOrderList, List.foldl_append, List.foldl_cons, List.foldl_nil, ih]
    exact hstep _ _ _ (.call f hu)

end Expr

end Calculus
