import Calculus.Proofs.Traversal

/-!
# Three views of dependency

What an expression depends on is told in three ways: by the list of its variables, by asking for one
variable, and by asking whether there is any. The list is made by a walk that adds a name it has not
met before; the questions are answered by recursion. All three only see the variable leaves
(`leafNames`), so a constant that is called like a variable does not count.

The list is followed along the walk: after each node it holds the names met so far, each once, and
in the order in which they were first met (`ListsOnce`).
-/

namespace Calculus

/-- The array lists what occurs in the list, each once and in the order of the first occurrences. -/
structure ListsOnce (met : List String) (names : Array String) : Prop where
  mem (name : String) : name ∈ names ↔ name ∈ met
  inOrder : names.toList.Pairwise fun a b => met.idxOf a < met.idxOf b

namespace ListsOnce

variable {met : List String} {names : Array String}

theorem empty : ListsOnce [] #[] where
  mem name := by simp
  inOrder := .nil

theorem nodup (h : ListsOnce met names) : names.toList.Nodup := by
  refine h.inOrder.imp fun before same => ?_
  rw [same] at before
  exact Nat.lt_irrefl _ before

/-- Names that are listed keep their order, whatever is met later. -/
theorem inOrder_append (h : ListsOnce met names) (later : List String) :
    names.toList.Pairwise fun a b => (met ++ later).idxOf a < (met ++ later).idxOf b := by
  refine h.inOrder.imp_of_mem fun {a b} ha hb before => ?_
  have metA : a ∈ met := (h.mem a).1 (Array.mem_toList_iff.1 ha)
  have metB : b ∈ met := (h.mem b).1 (Array.mem_toList_iff.1 hb)
  rwa [List.idxOf_append, if_pos metA, List.idxOf_append, if_pos metB]

/-- A name that is met for the first time goes to the end. -/
theorem inOrder_push (h : ListsOnce met names) {name : String} (new : name ∉ names) :
    (names.push name).toList.Pairwise fun a b =>
      (met ++ [name]).idxOf a < (met ++ [name]).idxOf b := by
  rw [Array.toList_push, List.pairwise_append]
  refine ⟨h.inOrder_append [name], List.pairwise_singleton _ _, fun a ha b hb => ?_⟩
  obtain rfl := List.mem_singleton.1 hb
  have metA : a ∈ met := (h.mem a).1 (Array.mem_toList_iff.1 ha)
  have unmet : b ∉ met := fun hb => new ((h.mem b).2 hb)
  rw [List.idxOf_append, if_pos metA, List.idxOf_append, if_neg unmet]
  have within := List.idxOf_lt_length_of_mem metA
  omega

end ListsOnce

namespace Expr

/-- The name at a variable leaf; no other node has one of its own. -/
def ownNames : Expr → List String
  | .var v => [v.name]
  | _ => []

/-- The names at the variable leaves, from left to right. -/
def leafNames : Expr → List String
  | .const _ => []
  | .var v => [v.name]
  | .binary _ l r => l.leafNames ++ r.leafNames
  | .call _ a => a.leafNames

theorem mem_ownNames {e : Expr} {name : String} :
    name ∈ e.ownNames ↔ ∃ v, e = var v ∧ v.name = name := by
  cases e <;> simp [ownNames, eq_comm]

theorem flatMap_ownNames (e : Expr) : e.postOrderList.flatMap ownNames = e.leafNames := by
  induction e with
  | const c => rfl
  | var v => rfl
  | binary op l r ihl ihr => simp [postOrderList, leafNames, ihl, ihr, ownNames]
  | call f a ih => simp [postOrderList, leafNames, ih, ownNames]

/-- One node: a name that is new is listed, and nothing else changes. -/
theorem listsOnce_collectName {met : List String} {names : Array String}
    (h : ListsOnce met names) (e : Expr) : ListsOnce (met ++ e.ownNames) (collectName names e) where
  mem name := by rw [mem_collectName, h.mem, List.mem_append, mem_ownNames]
  inOrder := by
    cases e with
    | const c => simpa [ownNames, collectName] using h.inOrder
    | binary op l r => simpa [ownNames, collectName] using h.inOrder
    | call f a => simpa [ownNames, collectName] using h.inOrder
    | var v =>
      rw [collectName, ownNames]
      split
      · exact h.inOrder_append [v.name]
      · next unlisted =>
        exact h.inOrder_push fun listed => unlisted (Array.contains_iff_mem.2 listed)

/-- All nodes, one after the other. -/
theorem listsOnce_foldl {met : List String} {names : Array String} (h : ListsOnce met names)
    (nodes : List Expr) :
    ListsOnce (met ++ nodes.flatMap ownNames) (nodes.foldl collectName names) := by
  induction nodes generalizing met names with
  | nil => simpa using h
  | cons e nodes ih =>
    rw [List.flatMap_cons, ← List.append_assoc]
    exact ih (listsOnce_collectName h e)

/-- The variables are listed as their leaves come. -/
theorem listsOnce_variableNames (e : Expr) : ListsOnce e.leafNames e.variableNames := by
  have run := listsOnce_foldl .empty e.postOrderList
  rwa [List.nil_append, flatMap_ownNames, ← variableNames_eq_foldl] at run

theorem mem_leafNames {e : Expr} {v : Variable} : v.name ∈ e.leafNames ↔ e.dependsOn v = true := by
  induction e with
  | const c => simp [leafNames, dependsOn]
  | var w =>
    simp only [leafNames, dependsOn, Variable.sameName, List.mem_singleton, beq_iff_eq]
    exact eq_comm
  | binary op l r ihl ihr => simp [leafNames, dependsOn, ihl, ihr]
  | call f a ih => simp [leafNames, dependsOn, ih]

theorem isClosed_iff_leafNames {e : Expr} : e.isClosed = true ↔ e.leafNames = [] := by
  induction e with
  | const c => simp [leafNames, isClosed]
  | var w => simp [leafNames, isClosed]
  | binary op l r ihl ihr => simp [leafNames, isClosed, ihl, ihr]
  | call f a ih => simp [leafNames, isClosed, ih]

theorem mem_variableNames_iff_dependsOn {e : Expr} {v : Variable} :
    v.name ∈ e.variableNames ↔ e.dependsOn v = true := by
  rw [(listsOnce_variableNames e).mem, mem_leafNames]

theorem isClosed_iff_variableNames {e : Expr} : e.isClosed = true ↔ e.variableNames = #[] := by
  rw [isClosed_iff_leafNames, List.eq_nil_iff_forall_not_mem, Array.eq_empty_iff_forall_not_mem]
  exact forall_congr' fun name => not_congr ((listsOnce_variableNames e).mem name).symm

/-- **The three views agree.** The variables of an expression are listed once each, in the order in
which their first leaves stand from left to right. A name is listed exactly if the expression
depends on the variables of that name, that is, if a variable leaf, and not just a constant, has
that name. An expression is closed exactly if nothing is listed, that is, if it depends on no
variable. -/
theorem variableNames_dependsOn_isClosed_agree (e : Expr) :
    e.variableNames.toList.Nodup ∧
      e.variableNames.toList.Pairwise (fun a b => e.leafNames.idxOf a < e.leafNames.idxOf b) ∧
      (∀ v : Variable, v.name ∈ e.variableNames ↔ e.dependsOn v = true) ∧
      (∀ v : Variable, e.dependsOn v = true ↔ ∃ w, var w ∈ e.leaves ∧ w.name = v.name) ∧
      (e.isClosed = true ↔ e.variableNames = #[]) ∧
      (e.isClosed = true ↔ ∀ v, e.dependsOn v = false) := by
  have listed := listsOnce_variableNames e
  refine ⟨listed.nodup, listed.inOrder, fun v => mem_variableNames_iff_dependsOn, fun v => ?_,
    isClosed_iff_variableNames, ?_⟩
  · rw [← mem_variableNames_iff_dependsOn, mem_variableNames]
  · rw [isClosed_iff_leafNames, List.eq_nil_iff_forall_not_mem]
    constructor
    · intro none v
      exact Bool.eq_false_iff.2 fun depends => none v.name (mem_leafNames.2 depends)
    -- A name alone does not depend on anything: it takes a variable of that name, in any cell.
    · intro independent name met
      have depends : e.dependsOn ⟨name, 0⟩ = true := mem_leafNames.1 met
      exact Bool.eq_false_iff.1 (independent ⟨name, 0⟩) depends

/-- In `(x + (y - (z * y)))` the first leaf is a constant. -/
example :
    let e := const ⟨"x", 1.0⟩ + (var ⟨"y", 0⟩ - var ⟨"z", 1⟩ * var ⟨"y", 2⟩)
    e.variableNames = #["y", "z"] ∧ e.dependsOn ⟨"x", 3⟩ = false := by decide +kernel

end Expr

end Calculus
