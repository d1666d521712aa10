import Calculus.Proofs.Simplification.History

/-!
# Collectors only observe

Simplification ends the same way whether its steps are forgotten, pushed to an array that may hold
others already, or listed in the result. What is pushed is decided by the expression alone
(`pushed`), and it stays in the array if the pass fails.

The steps of a node are those of its left operand, those of its right operand, and at most one of
its own (`reductions_binary_of_left_ok`), unless the left operand fails: then the right operand is
not looked at, and its steps are missing.
-/

namespace Calculus

namespace Expr

/-- What is pushed to an empty array, also before a failure. -/
def pushed (e : Expr) : Array Rule :=
  (e.simplifyInto (#[] : Array Rule)).2

theorem pushed_eq (e : Expr) : e.pushed = (e.reductions.map (·.rule)).toArray := by
  rw [pushed, simplifyInto_array, Array.empty_append]

/-- An array is left with what it held, followed by what an empty one is given. -/
theorem simplifyInto_eq (e : Expr) (held : Array Rule) :
    e.simplifyInto held = (e.simplify, held ++ e.pushed) := by
  rw [simplifyInto_array, pushed_eq]

/-- A list of steps comes with the same result, and it is what is pushed. -/
theorem simplifySteps_eq (e : Expr) : e.simplifySteps = e.simplify.map (·, e.pushed) := by
  rw [simplifySteps, simplifyInto_eq, Array.empty_append]
  cases e.simplify with
  | error err => rfl
  | ok s => rfl

section Nodes

variable {l l' : Expr} (op : BinOp) (r : Expr)

/-- What a failing left operand pushes is all that is pushed. -/
theorem pushed_of_left_error {err : Error Float} (hl : l.simplify = .error err) :
    (binary op l r).pushed = l.pushed := by
  simp only [pushed_eq, reductions_binary, hl, List.append_nil]

/-- After the operands a node makes at most one reduction, and then it ends with what it is reduced
to. -/
theorem reductions_binary_of_left_ok (hl : l.simplify = .ok l') :
    ∃ own, (binary op l r).reductions = l.reductions ++ r.reductions ++ own ∧ own.length ≤ 1 ∧
      ∀ reduction ∈ own, ∃ r', r.simplify = .ok r' ∧
        Reduces reduction.rule (.binary op l' r') reduction.after ∧
        (binary op l r).simplify = .ok reduction.after := by
  cases hr : r.simplify with
  | error err => exact ⟨[], by simp [reductions_binary, hl, hr], by simp, by simp⟩
  | ok r' =>
    by_cases hz : op = .div ∧ r'.isZero
    -- A division by zero fails before any rule is tried.
    · exact ⟨[], by simp [reductions_binary, hl, hr, hz], by simp, by simp⟩
    · refine ⟨(binary op l' r').topReductions, reductions_binary_of_ok hl hr hz, ?_⟩
      unfold topReductions
      cases hf : Rule.first? Rule.all (.binary op l' r') with
      | none => simp
      | some reduced =>
        have reduces := Rule.first?_all_eq_some_iff.1 hf
        refine ⟨Nat.le_refl 1, fun reduction made => ?_⟩
        obtain rfl := List.mem_singleton.1 made
        exact ⟨r', rfl, reduces,
          simplify_binary_eq_ok_iff.2 ⟨l', r', hl, hr, hz, .inl ⟨_, reduces⟩⟩⟩

/-- After the operands a node pushes at most one rule, the one that it is reduced by. -/
theorem pushed_of_left_ok (hl : l.simplify = .ok l') :
    ∃ own : Array Rule, (binary op l r).pushed = l.pushed ++ r.pushed ++ own ∧ own.size ≤ 1 ∧
      ∀ rule ∈ own, ∃ r' s, r.simplify = .ok r' ∧ Reduces rule (.binary op l' r') s ∧
        (binary op l r).simplify = .ok s := by
  obtain ⟨own, made, single, reduced⟩ := reductions_binary_of_left_ok op r hl
  refine ⟨(own.map (·.rule)).toArray, ?_, by simpa using single, fun rule pushed => ?_⟩
  · simp [pushed_eq, made]
  · obtain ⟨reduction, mine, rfl⟩ : ∃ reduction ∈ own, reduction.rule = rule := by
      simpa using pushed
    obtain ⟨r', hr, reduces, ends⟩ := reduced reduction mine
    exact ⟨r', reduction.after, hr, reduces, ends⟩

end Nodes

/-- **Collectors only observe.** All ways of simplifying an expression end with the same expression
or with the same error. An array is left with what it held, followed by steps that do not depend
on that; if the pass succeeds, they are the listed ones. A node pushes the steps of its left
operand and, unless this fails, those of its right operand and at most one step of its own, by
the rule that reduces it. -/
theorem simplifyInto_observes (e : Expr) (held : Array Rule) :
    (e.simplifyInto ()).1 = e.simplify ∧ (e.simplifyInto held).1 = e.simplify ∧
      e.simplifySteps.map Prod.fst = e.simplify ∧
      (e.simplifyInto held).2 = held ++ e.pushed ∧
      (∀ s, e.simplify = .ok s → e.simplifySteps = .ok (s, e.pushed)) ∧
      ∀ op l r, e = binary op l r →
        (∀ err, l.simplify = .error err → e.pushed = l.pushed) ∧
        ∀ l', l.simplify = .ok l' →
          ∃ own : Array Rule, e.pushed = l.pushed ++ r.pushed ++ own ∧ own.size ≤ 1 ∧
            ∀ rule ∈ own, ∃ r' s, r.simplify = .ok r' ∧ Reduces rule (.binary op l' r') s ∧
              e.simplify = .ok s := by
  refine ⟨rfl, ?_, ?_, ?_, ?_, ?_⟩
  · rw [simplifyInto_eq]
  · rw [simplifySteps_eq]
    cases e.simplify with
    | error err => rfl
    | ok s => rfl
  · rw [simplifyInto_eq]
  · intro s hs
    rw [simplifySteps_eq, hs]
    rfl
  · rintro op l r rfl
    exact ⟨fun err => pushed_of_left_error op r, fun l' => pushed_of_left_ok op r⟩

/-- In `((1 / 0) + (x * 1))` the left operand fails, and the step of the right operand is not made:
what is pushed does not begin with the steps of both operands. -/
theorem pushed_without_right_of_failed_left :
    let l := one / zero
    let r := var ⟨"x", 0⟩ * one
    (l.simplifyInto (#[] : Array Rule)).2 = #[] ∧
      (r.simplifyInto (#[] : Array Rule)).2 = #[.mulOne] ∧
      ((l + r).simplifyInto (#[] : Array Rule)).2 = #[] ∧
      ¬ ∃ own : Array Rule, own.size ≤ 1 ∧ (l + r).pushed = l.pushed ++ r.pushed ++ own := by
  intro l r
  have left : l.pushed = #[] := rfl
  have right : r.pushed = #[.mulOne] := rfl
  have whole : (l + r).pushed = #[] := rfl
  refine ⟨left, right, whole, ?_⟩
  rintro ⟨own, -, composed⟩
  rw [left, right, whole] at composed
  have sizes := congrArg Array.size composed
  simp only [Array.size_append, List.size_toArray, List.length_nil, List.length_singleton] at sizes
  omega

/-- Steps that are made before a failure stay in the array. -/
example :
    (var ⟨"x", 0⟩ * one + one / zero).simplifyInto (#[.addZero] : Array Rule) =
      (.error ⟨[⟨11, 18⟩, ⟨16, 17⟩], .alwaysDividesByZero⟩, #[.addZero, .mulOne]) := rfl

end Expr

end Calculus
