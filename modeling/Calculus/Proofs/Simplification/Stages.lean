import Calculus.Proofs.Simplification.History
import Calculus.Proofs.Simplification.Irreducible

/-!
# Simplification in stages

A part of an expression can be simplified beforehand: the whole is then simplified to the same
expression, in as many steps altogether, or it fails at the same division.

The pass looks no deeper into its operands than at what they simplify to. So two expressions end
alike if they simplify to the same, or fail at the same position (`EndsLike`), and whatever they
stand in ends alike too (`EndsLike.fill`). An expression ends like what it simplifies to, because
that is irreducible.
-/

namespace Calculus

/-- An expression with a hole in it. -/
inductive Context where
  | hole
  | left (op : BinOp) (inner : Context) (rhs : Expr)
  | right (op : BinOp) (lhs : Expr) (inner : Context)
  | argument (f : Func) (inner : Context)

namespace Context

/-- The expression that results from filling the hole. -/
def fill : Context → Expr → Expr
  | .hole, e => e
  | .left op inner r, e => .binary op (inner.fill e) r
  | .right op l inner, e => .binary op l (inner.fill e)
  | .argument f inner, e => .call f (inner.fill e)

/-- There is a division at a position, whatever the hole is filled with. -/
def DivisionAt (C : Context) (q : Position) : Prop :=
  ∀ t, ∃ l r, (C.fill t).subexpr? q = some (.binary .div l r)

end Context

namespace Expr

/-- Two expressions simplify to the same, or fail at the same position. -/
structure EndsLike (a b : Expr) : Prop where
  doomed : a.firstDoomed? = b.firstDoomed?
  simplified (t : Expr) : a.simplify = .ok t ↔ b.simplify = .ok t

namespace EndsLike

variable {a b l l' r r' : Expr}

theorem refl (a : Expr) : a.EndsLike a :=
  ⟨rfl, fun _ => Iff.rfl⟩

theorem vanishes (h : a.EndsLike b) : a.Vanishes ↔ b.Vanishes := by
  simp only [Vanishes, h.simplified]

theorem binary (op : BinOp) (hl : l.EndsLike l') (hr : r.EndsLike r') :
    (Expr.binary op l r).EndsLike (.binary op l' r') where
  doomed := by
    simp only [firstDoomed?_binary, hl.doomed, hr.doomed, hr.vanishes]
  simplified t := by
    simp only [simplify_binary_eq_ok_iff, hl.simplified, hr.simplified]

theorem call (f : Func) (h : a.EndsLike b) : (Expr.call f a).EndsLike (.call f b) where
  doomed := by
    simp only [firstDoomed?_call, h.doomed]
  simplified t := by
    simp only [simplify_call_eq_ok_iff, h.simplified]

/-- Expressions that end alike do so in every context. -/
theorem fill (C : Context) (h : a.EndsLike b) : (C.fill a).EndsLike (C.fill b) := by
  induction C with
  | hole => exact h
  | left op inner r ih => exact .binary op ih (.refl r)
  | right op l inner ih => exact .binary op (.refl l) ih
  | argument f inner ih => exact .call f ih

end EndsLike

section Stages

variable {e s t : Expr}

theorem simplify_of_irreducible (h : s.Irreducible) : s.simplify = .ok s :=
  simplify_of_simplifySteps (simplifySteps_of_irreducible h)

theorem reductions_of_irreducible (h : s.Irreducible) : s.reductions = [] := by
  rw [reductions, simplifyPass_of_irreducible _ h]

/-- An expression ends like what it simplifies to. -/
theorem endsLike_of_simplify (h : e.simplify = .ok s) : e.EndsLike s := by
  have again := simplify_of_irreducible (irreducible_of_simplify h)
  refine ⟨?_, fun t => ?_⟩
  · rw [firstDoomed?_of_simplify h, firstDoomed?_of_simplify again]
  · rw [h, again]

/-- A pass over an expression in a context makes the reductions of the expression somewhere among
those that are left to make after the expression has been simplified. -/
theorem reductions_fill (C : Context) (h : e.simplify = .ok s) (ht : (C.fill e).simplify = .ok t) :
    ∃ before after, (C.fill e).reductions = before ++ e.reductions ++ after ∧
      (C.fill s).reductions = before ++ after := by
  induction C generalizing t with
  | hole =>
    refine ⟨[], [], by simp [Context.fill], ?_⟩
    exact reductions_of_irreducible (irreducible_of_simplify h)
  | left op inner r ih =>
    obtain ⟨l', r', hl, hr, hz, -⟩ := simplify_binary_eq_ok_iff.1 ht
    have hl' := (((endsLike_of_simplify h).fill inner).simplified l').1 hl
    obtain ⟨before, after, made, rest⟩ := ih hl
    refine ⟨before, after ++ r.reductions ++ (binary op l' r').topReductions, ?_, ?_⟩
    · rw [Context.fill, reductions_binary_of_ok hl hr hz, made]
      simp only [List.append_assoc]
    · rw [Context.fill, reductions_binary_of_ok hl' hr hz, rest]
      simp only [List.append_assoc]
  | right op l inner ih =>
    obtain ⟨l', r', hl, hr, hz, -⟩ := simplify_binary_eq_ok_iff.1 ht
    have hr' := (((endsLike_of_simplify h).fill inner).simplified r').1 hr
    obtain ⟨before, after, made, rest⟩ := ih hr
    refine ⟨l.reductions ++ before, after ++ (binary op l' r').topReductions, ?_, ?_⟩
    · rw [Context.fill, reductions_binary_of_ok hl hr hz, made]
      simp only [List.append_assoc]
    · rw [Context.fill, reductions_binary_of_ok hl hr' hz, rest]
      simp only [List.append_assoc]
  | argument f inner ih =>
    obtain ⟨a', ha, -⟩ := simplify_call_eq_ok_iff.1 ht
    obtain ⟨before, after, made, rest⟩ := ih ha
    exact ⟨before, after, by rw [Context.fill, reductions_call, made],
      by rw [Context.fill, reductions_call, rest]⟩

/-- The first doomed division of a node is that of an operand, or the node. -/
theorem firstDoomed?_binary_eq_some {op : BinOp} {l r : Expr} {q : Position}
    (h : (binary op l r).firstDoomed? = some q) :
    (∃ p, l.firstDoomed? = some p ∧ q = .left :: p) ∨
      (∃ p, r.firstDoomed? = some p ∧ q = .right :: p) ∨ op = .div ∧ q = [] := by
  rw [firstDoomed?_binary] at h
  cases hl : l.firstDoomed? with
  | some p => exact .inl ⟨p, rfl, by simpa [hl, eq_comm] using h⟩
  | none =>
    cases hr : r.firstDoomed? with
    | some p => exact .inr (.inl ⟨p, rfl, by simpa [hl, hr, eq_comm] using h⟩)
    | none =>
      obtain ⟨⟨hop, -⟩, rfl⟩ : (op = .div ∧ r.Vanishes) ∧ [] = q := by
        simpa [hl, hr] using h
      exact .inr (.inr ⟨hop, rfl⟩)

/-- A doomed division belongs to the context if there is none in what the hole is filled with. -/
theorem divisionAt_of_firstDoomed? {C : Context} {q : Position} (clean : e.firstDoomed? = none)
    (h : (C.fill e).firstDoomed? = some q) : C.DivisionAt q := by
  induction C generalizing q with
  | hole => cases clean.symm.trans h
  | left op inner r ih =>
    rcases firstDoomed?_binary_eq_some h with ⟨p, found, rfl⟩ | ⟨p, found, rfl⟩ | ⟨rfl, rfl⟩
    · exact ih found
    · obtain ⟨l', r', -, -, -, division, -⟩ := firstDoomed?_eq_some found
      exact fun t => ⟨l', r', division⟩
    · exact fun t => ⟨inner.fill t, r, rfl⟩
  | right op l inner ih =>
    rcases firstDoomed?_binary_eq_some h with ⟨p, found, rfl⟩ | ⟨p, found, rfl⟩ | ⟨rfl, rfl⟩
    · obtain ⟨l', r', -, -, -, division, -⟩ := firstDoomed?_eq_some found
      exact fun t => ⟨l', r', division⟩
    · exact ih found
    · exact fun t => ⟨l, inner.fill t, rfl⟩
  | argument f inner ih =>
    rw [Context.fill, firstDoomed?_call] at h
    obtain ⟨p, found, rfl⟩ := Option.map_eq_some_iff.1 h
    exact ih found

/-- **Simplification in stages.** Let an expression simplify to `s`, and stand in a context. What
it makes of the context simplifies to the same as what `s` makes of it, in as many steps as the
expression and the latter take together, or both fail at the same division of the context. -/
theorem simplify_in_stages (C : Context) (e s : Expr) (h : e.simplify = .ok s) :
    (∃ t made first rest, (C.fill e).simplify = .ok t ∧ (C.fill s).simplify = .ok t ∧
      (C.fill e).simplifySteps = .ok (t, made) ∧ e.simplifySteps = .ok (s, first) ∧
      (C.fill s).simplifySteps = .ok (t, rest) ∧ made.size = first.size + rest.size) ∨
    ∃ q, C.DivisionAt q ∧ (C.fill e).simplify = .error ((C.fill e).doomedError q) ∧
      (C.fill s).simplify = .error ((C.fill s).doomedError q) := by
  have alike := (endsLike_of_simplify h).fill C
  rcases simplify_settled (C.fill e) with ⟨-, t, ht⟩ | ⟨q, found, failed⟩
  · have ht' := (alike.simplified t).1 ht
    obtain ⟨before, after, made, rest⟩ := reductions_fill C h ht
    refine .inl ⟨t, _, _, _, ht, ht', simplifySteps_of_simplify ht, simplifySteps_of_simplify h,
      simplifySteps_of_simplify ht', ?_⟩
    simp only [made, rest, List.size_toArray, List.length_map, List.length_append]
    omega
  · refine .inr ⟨q, ?_, failed, ?_⟩
    · exact divisionAt_of_firstDoomed? (firstDoomed?_of_simplify h) found
    · exact simplify_of_firstDoomed? (alike.doomed.symm.trans found)

/-- Four steps at once, and one and three in stages: `((1 * (y - 0)) + (0 * x))` is simplified to
`y`, with `(y - 0)` in the hole. -/
theorem simplify_in_stages_of_units :
    let x := var ⟨"x", 0⟩
    let y := var ⟨"y", 1⟩
    let C : Context := .left .add (.right .mul one .hole) (zero * x)
    let e := y - zero
    e.simplify = .ok y ∧
      (C.fill e).simplifySteps = .ok (y, #[.subZero, .mulOne, .mulZero, .addZero]) ∧
      ((∃ t made first rest, (C.fill e).simplify = .ok t ∧ (C.fill y).simplify = .ok t ∧
        (C.fill e).simplifySteps = .ok (t, made) ∧ e.simplifySteps = .ok (y, first) ∧
        (C.fill y).simplifySteps = .ok (t, rest) ∧ made.size = first.size + rest.size) ∨
      ∃ q, C.DivisionAt q ∧ (C.fill e).simplify = .error ((C.fill e).doomedError q) ∧
        (C.fill y).simplify = .error ((C.fill y).doomedError q)) := by
  intro x y C e
  have simplified : e.simplify = .ok y := rfl
  exact ⟨simplified, rfl, simplify_in_stages C e y simplified⟩

/-- A context can fail with both: in `ln((x / (□ - 0)))` the denominator vanishes with the hole. -/
example :
    let C : Context := .argument .ln (.right .div (var ⟨"x", 0⟩) (.left .sub .hole zero))
    (C.fill (zero * var ⟨"y", 1⟩)).simplify = .error ⟨[⟨3, 22⟩, ⟨8, 21⟩], .alwaysDividesByZero⟩ ∧
      (C.fill zero).simplify = .error ⟨[⟨3, 16⟩, ⟨8, 15⟩], .alwaysDividesByZero⟩ :=
  ⟨rfl, rfl⟩

end Stages

end Expr

end Calculus
