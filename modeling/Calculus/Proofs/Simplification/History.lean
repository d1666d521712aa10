import Calculus.Journal
import Calculus.Proofs.Simplification.Failures

/-!
# The history of a simplification

The steps a pass collects are the history of a rewriting: the expression is turned into the result
by as many rewrites, each of one subexpression, by the rule of its step. If the pass fails, the
rewrites lead to an expression that has a zero denominator where the error points to. The journal
tells the same history.

`reductions` lists what a pass does, and whatever notes are taken of it, they are taken of this
list from the first to the last (`simplifyPass_eq`). The list is that of the left operand, that of
the right operand and at most one reduction more (`reductions_binary`), and rewrites inside an
operand are rewrites of the node (`Rewrites.lift`), so a history of the node is put together from
those of its operands.
-/

namespace Calculus

universe u

namespace Expr

/-- The reductions of a pass, in the order they are made. -/
def reductions (e : Expr) : List Reduction :=
  (e.simplifyPass (fun made reduction => made ++ [reduction]) []).2

/-- A pass takes notes of its reductions one after the other. -/
theorem simplifyPass_eq {σ : Type u} (note : σ → Reduction → σ) (e : Expr) (notes : σ) :
    e.simplifyPass note notes = (e.simplify, e.reductions.foldl note notes) := by
  have hom (made : List Reduction) (reduction : Reduction) :
      (made ++ [reduction]).foldl note notes = note (made.foldl note notes) reduction := by
    rw [List.foldl_append, List.foldl_cons, List.foldl_nil]
  refine Prod.ext (simplifyPass_fst note e notes) ?_
  exact (simplifyPass_snd (fun made => made.foldl note notes) hom e []).symm

/-- An array is given the rules of the reductions, after what it holds already. -/
theorem simplifyInto_array (e : Expr) (steps : Array Rule) :
    e.simplifyInto steps = (e.simplify, steps ++ (e.reductions.map (·.rule)).toArray) := by
  rw [simplifyInto, simplifyPass_eq]
  exact congrArg (Prod.mk _) List.foldl_push_eq_append

/-- The steps of a pass that succeeds are the rules of its reductions. -/
theorem simplifySteps_of_simplify {e s : Expr} (h : e.simplify = .ok s) :
    e.simplifySteps = .ok (s, (e.reductions.map (·.rule)).toArray) := by
  rw [simplifySteps, simplifyInto_array, h, Array.empty_append]

@[simp] theorem reductions_const (c : Constant) : (const c).reductions = [] := rfl

@[simp] theorem reductions_var (v : Variable) : (var v).reductions = [] := rfl

/-- The reductions of the operands come first, and then that of the node, if there is one. What
comes after a failure is not reached. -/
theorem reductions_binary (op : BinOp) (l r : Expr) :
    (binary op l r).reductions = l.reductions ++
      match l.simplify with
      | .error _ => []
      | .ok l' => r.reductions ++
        match r.simplify with
        | .error _ => []
        | .ok r' =>
          if op = .div ∧ r'.isZero then []
          else
            match Rule.first? Rule.all (.binary op l' r') with
            | some (rule, e') => [⟨rule, .binary op l' r', e'⟩]
            | none => [] := by
  have append (made more : List Reduction) :
      more.foldl (fun made reduction => made ++ [reduction]) made = made ++ more := by
    rw [List.foldl_append_eq_append, ← List.flatMap_def, List.flatMap_singleton']
  rw [reductions, simplifyPass]
  simp only [simplifyPass_eq, append, List.nil_append]
  cases l.simplify with
  | error err => simp
  | ok l' =>
    cases r.simplify with
    | error err => simp
    | ok r' =>
      simp only
      split
      · simp
      · cases Rule.first? Rule.all (.binary op l' r') <;> simp

@[simp] theorem reductions_call (f : Func) (a : Expr) : (call f a).reductions = a.reductions := by
  rw [reductions, simplifyPass, reductions]
  rcases a.simplifyPass (fun made reduction => made ++ [reduction]) [] with ⟨_ | a', made⟩ <;> rfl

/-- The reduction of a tree at its top, if a rule applies. -/
def topReductions (e : Expr) : List Reduction :=
  match Rule.first? Rule.all e with
  | some (rule, e') => [⟨rule, e, e'⟩]
  | none => []

/-- Where nothing fails, a node adds the reduction of what is rebuilt from its simplified operands
to the reductions of these. -/
theorem reductions_binary_of_ok {op : BinOp} {l r l' r' : Expr} (hl : l.simplify = .ok l')
    (hr : r.simplify = .ok r') (hz : ¬ (op = .div ∧ r'.isZero)) :
    (binary op l r).reductions =
      l.reductions ++ r.reductions ++ (binary op l' r').topReductions := by
  rw [reductions_binary]
  simp only [hl, hr, if_neg hz]
  rw [List.append_assoc]
  rfl

/-- A reduction in a node is one in an operand, or the reduction of the node rebuilt from its
simplified operands. -/
theorem mem_reductions_binary {op : BinOp} {l r : Expr} {reduction : Reduction}
    (h : reduction ∈ (binary op l r).reductions) :
    reduction ∈ l.reductions ∨ reduction ∈ r.reductions ∨
      ∃ l' r', l.simplify = .ok l' ∧ r.simplify = .ok r' ∧
        Reduces reduction.rule (.binary op l' r') reduction.after := by
  rw [reductions_binary] at h
  rcases List.mem_append.1 h with h | h
  · exact .inl h
  · split at h
    · cases h
    · rename_i l' hl
      rcases List.mem_append.1 h with h | h
      · exact .inr (.inl h)
      · split at h
        · cases h
        · rename_i r' hr
          split at h
          · cases h
          · split at h
            · rename_i rule e' hf
              obtain rfl := List.mem_singleton.1 h
              exact .inr (.inr ⟨l', r', hl, hr, Rule.first?_all_eq_some_iff.1 hf⟩)
            · cases h

/-- A reduction is made at a position, by the first rule that applies there, and nothing else is
changed. -/
structure RewritesAt (e : Expr) (p : Position) (reduction : Reduction) (e' : Expr) : Prop where
  before : e.subexpr? p = some reduction.before
  fires : Rule.first? Rule.all reduction.before = some (reduction.rule, reduction.after)
  after : e' = e.replaceAt p reduction.after

/-- Reductions are made one after the other, each anywhere. -/
inductive Rewrites : Expr → List Reduction → Expr → Prop where
  | nil (e : Expr) : Rewrites e [] e
  | cons {e e' e'' : Expr} {p : Position} {reduction : Reduction} {more : List Reduction}
    (first : e.RewritesAt p reduction e') (rest : Rewrites e' more e'') :
    Rewrites e (reduction :: more) e''

theorem Rewrites.append {e e' e'' : Expr} {made more : List Reduction} (h : e.Rewrites made e')
    (h' : e'.Rewrites more e'') : e.Rewrites (made ++ more) e'' := by
  induction h with
  | nil e => exact h'
  | cons first rest ih => exact .cons first (ih h')

/-- A reduction of the whole expression. -/
theorem Rewrites.single {e e' : Expr} {rule : Rule}
    (h : Rule.first? Rule.all e = some (rule, e')) : e.Rewrites [⟨rule, e, e'⟩] e' :=
  .cons (p := []) ⟨subexpr?_nil e, h, (replaceAt_nil e e').symm⟩ (.nil e')

/-- Rewrites of an operand are rewrites of the node. -/
theorem Rewrites.lift {e e' : Expr} {made : List Reduction} (h : e.Rewrites made e')
    (node : Expr → Expr) (b : Branch)
    (hsub : ∀ t q, (node t).subexpr? (b :: q) = t.subexpr? q)
    (hreplace : ∀ t q u, (node t).replaceAt (b :: q) u = node (t.replaceAt q u)) :
    (node e).Rewrites made (node e') := by
  induction h with
  | nil e => exact .nil (node e)
  | @cons e e' e'' p reduction more first rest ih =>
    refine .cons (p := b :: p) ⟨?_, first.fires, ?_⟩ ih
    · rw [hsub, first.before]
    · rw [hreplace, first.after]

/-- Rewrites of both operands, the left one first. -/
theorem Rewrites.operands {l l' r r' : Expr} {made more : List Reduction} (op : BinOp)
    (hl : l.Rewrites made l') (hr : r.Rewrites more r') :
    (binary op l r).Rewrites (made ++ more) (binary op l' r') :=
  (hl.lift (binary op · r) .left (fun _ _ => rfl) (fun _ _ _ => rfl)).append
    (hr.lift (binary op l' ·) .right (fun _ _ => rfl) (fun _ _ _ => rfl))

/-- The reductions of a pass lead to the simplified expression. -/
theorem rewrites_of_simplify {e s : Expr} (h : e.simplify = .ok s) :
    e.Rewrites e.reductions s := by
  induction e generalizing s with
  | const c => cases h; exact .nil _
  | var v => cases h; exact .nil _
  | binary op l r ihl ihr =>
    obtain ⟨l', r', hl, hr, hz, step⟩ := simplify_binary_eq_ok_iff.1 h
    have operands := (ihl hl).operands op (ihr hr)
    rw [reductions_binary_of_ok hl hr hz, topReductions]
    refine operands.append ?_
    rcases step with ⟨rule, reduction⟩ | ⟨none, rfl⟩
    · rw [Rule.first?_all_eq_some_iff.2 reduction]
      exact .single (Rule.first?_all_eq_some_iff.2 reduction)
    · rw [none]
      exact .nil _
  | call f a ih =>
    obtain ⟨a', ha, rfl⟩ := simplify_call_eq_ok_iff.1 h
    rw [reductions_call]
    exact (ih ha).lift (call f) .argument (fun _ _ => rfl) (fun _ _ _ => rfl)

/-- The expression divides by a zero at a position. -/
def DividesByZeroAt (e : Expr) (p : Position) : Prop :=
  ∃ l r, e.subexpr? p = some (.binary .div l r) ∧ r.isZero

/-- The reductions of a pass that fails lead to an expression that divides by a zero where the
first doomed division is. -/
theorem rewrites_of_firstDoomed? {e : Expr} {p : Position} (h : e.firstDoomed? = some p) :
    ∃ last, e.Rewrites e.reductions last ∧ last.DividesByZeroAt p := by
  induction e generalizing p with
  | const c => cases h
  | var v => cases h
  | binary op l r ihl ihr =>
    rw [firstDoomed?_binary] at h
    rw [reductions_binary]
    rcases simplify_settled l with ⟨dl, l', hl⟩ | ⟨q, dl, hl⟩
    · rcases simplify_settled r with ⟨dr, r', hr⟩ | ⟨q, dr, hr⟩
      · obtain ⟨⟨rfl, zero⟩, rfl⟩ : (op = .div ∧ r'.isZero) ∧ [] = p := by
          simpa [dl, dr, vanishes_iff_of_simplify hr] using h
        have operands := (rewrites_of_simplify hl).operands .div (rewrites_of_simplify hr)
        exact ⟨binary .div l' r', by simpa [hl, hr, zero] using operands, l', r', rfl, zero⟩
      · obtain rfl : .right :: q = p := by simpa [dl, dr] using h
        obtain ⟨last, rewrites, divides⟩ := ihr dr
        have operands := (rewrites_of_simplify hl).operands op rewrites
        exact ⟨binary op l' last, by simpa [hl, hr] using operands, divides⟩
    · obtain rfl : .left :: q = p := by simpa [dl] using h
      obtain ⟨last, rewrites, divides⟩ := ihl dl
      have operands := rewrites.operands op (.nil r)
      exact ⟨binary op last r, by simpa [hl] using operands, divides⟩
  | call f a ih =>
    rw [firstDoomed?_call] at h
    obtain ⟨q, da, rfl⟩ := Option.map_eq_some_iff.1 h
    obtain ⟨last, rewrites, divides⟩ := ih da
    rw [reductions_call]
    exact ⟨call f last, rewrites.lift (call f) .argument (fun _ _ => rfl) (fun _ _ _ => rfl), divides⟩

end Expr

/-- A journal is given an event for every reduction. -/
theorem Journal.simplifyInto_toList {σ : Type u} [Collector σ Rule] (j : Journal) (e : Expr)
    (collector : σ) :
    (j.simplifyInto e collector).2.2.toList =
      j.toList ++ .entered .simplifyInto ::
        e.reductions.map (fun reduction => .simplified reduction.before reduction.after) := by
  have events : e.reductions.foldl noteReduction (j.push (.entered .simplifyInto)) =
      j.push (.entered .simplifyInto) ++ (e.reductions.map fun reduction =>
        Event.simplified reduction.before reduction.after).toArray :=
    List.foldl_push_eq_append
  rw [simplifyInto_journal, Expr.simplifyPass_eq, events]
  simp

namespace Expr

/-- **The history.** What a pass collects are the rules of a chain of rewrites that begins with the
expression. It ends with the result if the pass succeeds; if the pass fails, it ends with an
expression that divides by a zero where the division stands that the error points to. The
journal of the pass has one event for every rewrite, whose line shows the subexpression that
was rewritten and what it became. -/
theorem simplifyInto_history (e : Expr) (j : Journal) :
    ∃ made last, e.Rewrites made last ∧
      (e.simplifyInto (#[] : Array Rule)).2.toList = made.map (·.rule) ∧
      (∀ s, (e.simplifyInto (#[] : Array Rule)).1 = .ok s → last = s) ∧
      (∀ err, (e.simplifyInto (#[] : Array Rule)).1 = .error err →
        ∃ p, e.firstDoomed? = some p ∧ err.spans = [e.spanAt p, e.spanAt (p ++ [.right])] ∧
          last.DividesByZeroAt p) ∧
      (j.simplifyInto e (#[] : Array Rule)).2.2.toList =
        j.toList ++ .entered .simplifyInto ::
          made.map (fun reduction => .simplified reduction.before reduction.after) ∧
      (j.simplifyInto e (#[] : Array Rule)).2.2.lines.toList =
        j.lines.toList ++ "DEBUG span simplify_with" ::
          made.map (fun reduction => "DEBUG simplified from=" ++ reduction.before.render ++
            " to=" ++ reduction.after.render) := by
  have steps : (e.simplifyInto (#[] : Array Rule)).2.toList = e.reductions.map (·.rule) := by
    rw [simplifyInto_array]
    simp
  have events := Journal.simplifyInto_toList j e (#[] : Array Rule)
  have lines : (j.simplifyInto e (#[] : Array Rule)).2.2.lines.toList =
      j.lines.toList ++ "DEBUG span simplify_with" ::
        e.reductions.map (fun reduction => "DEBUG simplified from=" ++ reduction.before.render ++
          " to=" ++ reduction.after.render) := by
    rw [Journal.lines, Array.toList_map, events, List.map_append, List.map_cons, List.map_map,
      ← Array.toList_map]
    rfl
  simp only [simplifyInto_fst]
  rcases simplify_settled e with ⟨-, s, hs⟩ | ⟨p, found, herr⟩
  · refine ⟨e.reductions, s, rewrites_of_simplify hs, steps, ?_, ?_, events, lines⟩
    · intro s' hs'
      exact Except.ok.inj (hs.symm.trans hs')
    · intro err herr
      cases hs.symm.trans herr
  · obtain ⟨last, rewrites, divides⟩ := rewrites_of_firstDoomed? found
    refine ⟨e.reductions, last, rewrites, steps, ?_, ?_, events, lines⟩
    · intro s hs
      cases herr.symm.trans hs
    · intro err herr'
      obtain rfl := Except.error.inj (herr.symm.trans herr')
      exact ⟨p, found, rfl, divides⟩

end Expr

end Calculus
