import Calculus.Proofs.Evaluation.Faults
import Calculus.Proofs.Simplification.Reduction

/-!
# Where simplification fails

A division is doomed when its denominator simplifies to zero. Simplification fails exactly if an
expression has a doomed division in it, and the error is that of the first one in left-to-right
post-order. Its spans are those of the division and of its denominator in the text of the
expression as it was given, although the operands looked at before have been simplified by then:
an enclosing node shifts an error by the lengths of its own operands, and these are the given ones.

`firstDoomed?` looks for that division among the positions of an expression. It satisfies the same
recursion as the pass (`firstDoomed?_binary`), so one induction settles both whether there is an
error and which (`simplify_settled`).
-/

namespace Calculus

namespace Expr

/-- The positions of an expression in left-to-right post-order: the operands of a node, then the
node. -/
def postOrderPositions : Expr → List Position
  | .const _ => [[]]
  | .var _ => [[]]
  | .binary _ l r =>
    l.postOrderPositions.map (.left :: ·) ++ r.postOrderPositions.map (.right :: ·) ++ [[]]
  | .call _ a => a.postOrderPositions.map (.argument :: ·) ++ [[]]

/-- A division whose denominator simplifies to zero. -/
def Doomed (e : Expr) : Prop :=
  ∃ l r, e = .binary .div l r ∧ r.Vanishes

theorem doomed_binary {op : BinOp} {l r : Expr} :
    (binary op l r).Doomed ↔ op = .div ∧ r.Vanishes := by
  constructor
  · rintro ⟨l', r', he, h⟩
    cases he
    exact ⟨rfl, h⟩
  · rintro ⟨rfl, h⟩
    exact ⟨l, r, rfl, h⟩

instance : DecidablePred Doomed
  | .binary _ _ _ => decidable_of_decidable_of_iff doomed_binary.symm
  | .const _ | .var _ | .call _ _ => isFalse (by simp [Doomed])

/-- Whether there is a doomed division at a position. -/
def doomedAt (e : Expr) (p : Position) : Bool :=
  (e.subexpr? p).any fun t => decide t.Doomed

theorem doomedAt_iff {e : Expr} {p : Position} :
    e.doomedAt p = true ↔ ∃ t, e.subexpr? p = some t ∧ t.Doomed := by
  simp [doomedAt, Option.any_eq_true]

/-- The position of the first doomed division. -/
def firstDoomed? (e : Expr) : Option Position :=
  e.postOrderPositions.find? e.doomedAt

/-- Post-order holds the positions of an expression and nothing else. -/
theorem mem_postOrderPositions {e : Expr} {p : Position} :
    p ∈ e.postOrderPositions ↔ ∃ t, e.subexpr? p = some t := by
  induction e generalizing p with
  | const c => rcases p with _ | ⟨_ | _ | _, p⟩ <;> simp [postOrderPositions, subexpr?]
  | var v => rcases p with _ | ⟨_ | _ | _, p⟩ <;> simp [postOrderPositions, subexpr?]
  | binary op l r ihl ihr =>
    rcases p with _ | ⟨_ | _ | _, p⟩ <;> simp [postOrderPositions, subexpr?, ihl, ihr]
  | call f a ih =>
    rcases p with _ | ⟨_ | _ | _, p⟩ <;> simp [postOrderPositions, subexpr?, ih]

section Recursion

@[simp] theorem firstDoomed?_const (c : Constant) : (const c).firstDoomed? = none := rfl

@[simp] theorem firstDoomed?_var (v : Variable) : (var v).firstDoomed? = none := rfl

/-- Looking through the positions of an operand in a node is looking through the operand. -/
theorem find?_map_doomedAt (e operand : Expr) (b : Branch)
    (hsub : ∀ q, e.subexpr? (b :: q) = operand.subexpr? q) :
    (operand.postOrderPositions.map (b :: ·)).find? e.doomedAt =
      operand.firstDoomed?.map (b :: ·) := by
  have same : e.doomedAt ∘ (b :: ·) = operand.doomedAt := by
    funext q
    simp only [Function.comp_apply, doomedAt, hsub]
  rw [List.find?_map, same, firstDoomed?]

/-- The first doomed division of a node is in its left operand, or else in its right operand, or
else the node itself. -/
theorem firstDoomed?_binary (op : BinOp) (l r : Expr) :
    (binary op l r).firstDoomed? =
      ((l.firstDoomed?.map (.left :: ·)).or (r.firstDoomed?.map (.right :: ·))).or
        (if op = .div ∧ r.Vanishes then some [] else none) := by
  have node : [[]].find? (binary op l r).doomedAt =
      if op = .div ∧ r.Vanishes then some [] else none := by
    by_cases h : op = .div ∧ r.Vanishes <;> simp [doomedAt, doomed_binary, h]
  rw [firstDoomed?, postOrderPositions, List.find?_append, List.find?_append, node,
    find?_map_doomedAt _ l .left (fun q => rfl), find?_map_doomedAt _ r .right (fun q => rfl)]

theorem firstDoomed?_call (f : Func) (a : Expr) :
    (call f a).firstDoomed? = a.firstDoomed?.map (.argument :: ·) := by
  have node : [[]].find? (call f a).doomedAt = none := by
    simp [doomedAt, Doomed]
  rw [firstDoomed?, postOrderPositions, List.find?_append, node,
    find?_map_doomedAt _ a .argument (fun q => rfl), Option.or_none]

end Recursion

/-- The error of a doomed division at a position. -/
def doomedError (e : Expr) (p : Position) : Error Float :=
  e.located p .alwaysDividesByZero [.right]

/-- A pass ends with a simplified expression if there is no doomed division, and otherwise with the
error of the first one. -/
theorem simplify_settled (e : Expr) :
    (e.firstDoomed? = none ∧ ∃ s, e.simplify = .ok s) ∨
      ∃ p, e.firstDoomed? = some p ∧ e.simplify = .error (e.doomedError p) := by
  induction e with
  | const c => exact .inl ⟨firstDoomed?_const c, _, simplify_const c⟩
  | var v => exact .inl ⟨firstDoomed?_var v, _, simplify_var v⟩
  | binary op l r ihl ihr =>
    rw [firstDoomed?_binary, simplify_binary]
    rcases ihl with ⟨dl, l', hl⟩ | ⟨p, dl, hl⟩
    · rcases ihr with ⟨dr, r', hr⟩ | ⟨p, dr, hr⟩
      · simp only [vanishes_iff_of_simplify hr]
        by_cases h : op = .div ∧ r'.isZero
        · refine .inr ⟨[], by simp [dl, dr, h], ?_⟩
          simp [hl, hr, h, doomedError, located, blamed, spanAt_nil, spanAt_rightOperand]
        · refine .inl ⟨by simp [dl, dr, h], ?_⟩
          simp only [hl, hr, if_neg h]
          cases Rule.first? Rule.all (.binary op l' r') with
          | none => exact ⟨_, rfl⟩
          | some reduced => exact ⟨_, rfl⟩
      -- The error is shifted past `l` as it was given, not past what it was simplified to.
      · refine .inr ⟨.right :: p, by simp [dl, dr], ?_⟩
        simp only [hl, hr, doomedError, located_cons (spanAt_right op l r)]
    · refine .inr ⟨.left :: p, by simp [dl], ?_⟩
      simp only [hl, doomedError, located_cons (spanAt_left op l r)]
  | call f a ih =>
    rw [firstDoomed?_call, simplify_call]
    rcases ih with ⟨da, a', ha⟩ | ⟨p, da, ha⟩
    · exact .inl ⟨by simp [da], _, by rw [ha]⟩
    · refine .inr ⟨.argument :: p, by simp [da], ?_⟩
      simp only [ha, doomedError, located_cons (spanAt_argument f a)]

/-- An expression cannot be simplified when it has a first doomed division. -/
theorem simplify_eq_error_iff {e : Expr} {err : Error Float} :
    e.simplify = .error err ↔ ∃ p, e.firstDoomed? = some p ∧ err = e.doomedError p := by
  rcases simplify_settled e with ⟨clean, s, hs⟩ | ⟨p, found, herr⟩
  · simp [clean, hs]
  · simp [found, herr, eq_comm]

theorem simplify_of_firstDoomed? {e : Expr} {p : Position} (h : e.firstDoomed? = some p) :
    e.simplify = .error (e.doomedError p) :=
  simplify_eq_error_iff.2 ⟨p, h, rfl⟩

/-- An expression that can be simplified has no doomed division. -/
theorem firstDoomed?_of_simplify {e s : Expr} (h : e.simplify = .ok s) : e.firstDoomed? = none := by
  rcases simplify_settled e with ⟨clean, -⟩ | ⟨p, -, failed⟩
  · exact clean
  · cases h.symm.trans failed

/-- The first doomed division is a division by something that vanishes, and none of the positions
before it holds one. -/
theorem firstDoomed?_eq_some {e : Expr} {p : Position} (h : e.firstDoomed? = some p) :
    ∃ l r earlier later, e.postOrderPositions = earlier ++ p :: later ∧
      e.subexpr? p = some (.binary .div l r) ∧ r.Vanishes ∧
      ∀ q ∈ earlier, ∀ t, e.subexpr? q = some t → ¬ t.Doomed := by
  obtain ⟨found, earlier, later, order, first⟩ := List.find?_eq_some_iff_append.1 h
  obtain ⟨t, ht, l, r, rfl, vanishes⟩ := doomedAt_iff.1 found
  refine ⟨l, r, earlier, later, order, ht, vanishes, fun q hq u hu doomed => ?_⟩
  have clean := first q hq
  rw [doomedAt_iff.2 ⟨u, hu, doomed⟩] at clean
  cases clean

/-- **Failures.** Simplification fails exactly if some division has a denominator that simplifies
to zero. The error is that of the first such division in post-order, in which every
subexpression has its place, and its spans are the bytes that this division and its denominator
take up in the text of the expression. -/
theorem simplify_fails_at_first_doomed_division (e : Expr) :
    ((∃ err, e.simplify = .error err) ↔
      ∃ p l r z, e.subexpr? p = some (.binary .div l r) ∧ r.simplify = .ok z ∧ z.isZero) ∧
    (∀ p, p ∈ e.postOrderPositions ↔ ∃ t, e.subexpr? p = some t) ∧
    ∀ err, e.simplify = .error err →
      ∃ p l r earlier later, e.postOrderPositions = earlier ++ p :: later ∧
        e.subexpr? p = some (.binary .div l r) ∧ r.Vanishes ∧
        (∀ q ∈ earlier, ∀ t, e.subexpr? q = some t → ¬ t.Doomed) ∧
        err.cause = .alwaysDividesByZero ∧
        err.spans = [e.spanAt p, e.spanAt (p ++ [.right])] ∧
        (e.spanAt p).bytes e.render = (binary .div l r).render.toByteArray ∧
        (e.spanAt (p ++ [.right])).bytes e.render = r.render.toByteArray := by
  refine ⟨⟨?_, ?_⟩, fun p => mem_postOrderPositions, ?_⟩
  · rintro ⟨err, h⟩
    obtain ⟨p, found, -⟩ := simplify_eq_error_iff.1 h
    obtain ⟨l, r, -, -, -, ht, ⟨z, hz, zero⟩, -⟩ := firstDoomed?_eq_some found
    exact ⟨p, l, r, z, ht, hz, zero⟩
  · rintro ⟨p, l, r, z, ht, hz, zero⟩
    rcases simplify_settled e with ⟨clean, -⟩ | ⟨q, -, herr⟩
    · have sound := List.find?_eq_none.1 clean p (mem_postOrderPositions.2 ⟨_, ht⟩)
      exact absurd (doomedAt_iff.2 ⟨_, ht, l, r, rfl, z, hz, zero⟩) sound
    · exact ⟨_, herr⟩
  · intro err h
    obtain ⟨p, found, rfl⟩ := simplify_eq_error_iff.1 h
    obtain ⟨l, r, earlier, later, order, ht, vanishes, first⟩ := firstDoomed?_eq_some found
    have denominator : e.subexpr? (p ++ [.right]) = some r := by
      rw [subexpr?_append, ht]
      exact subexpr?_nil r
    exact ⟨p, l, r, earlier, later, order, ht, vanishes, first, rfl, rfl, bytes_spanAt ht,
      bytes_spanAt denominator⟩

example : (call .ln (var ⟨"x", 0⟩ / (zero - zero))).simplify =
    .error ⟨[⟨3, 16⟩, ⟨8, 15⟩], .alwaysDividesByZero⟩ := rfl

end Expr

end Calculus
