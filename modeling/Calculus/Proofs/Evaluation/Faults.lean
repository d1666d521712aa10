import Calculus.Proofs.Evaluation.Nodes

/-!
# Faults

A subexpression is at fault when its operands have values and it has none: a quotient by zero, a
zero to the power of zero, a logarithm of a number that is not positive. Evaluation fails exactly
if some subexpression is at fault. It looks at the positions of an expression in a fixed order,
`evaluationOrder`, in which the denominator of a quotient, and the quotient itself, come before
the numerator; the error is that of the first fault in this order. Its spans are those of the
position at fault and of the operands to blame, in the text of the whole expression.

The proof is an induction over the expression. An operand that has a value has no fault inside
(`not_faulty_of_evalIn`), so a fault that is the first one in an operand is the first one in the
node if all operands looked at before have values (`FirstError.lift`); and the error of an operand
is shifted to where the operand stands (`located_cons`).
-/

namespace Calculus

universe u

variable {α : Type u}

/-- A node at fault, why, and which of its operands are to blame. -/
inductive Fault (A : Arithmetic α) (ρ : Variable → α) : Expr → Cause α → List Branch → Prop where
  | quotient {l r : Expr} {b : α} (hr : r.evalIn A ρ = .ok b) (hb : A.isZero b) :
    Fault A ρ (.binary .div l r) .divisionByZero [.right]
  | power {l r : Expr} {a b : α} (hl : l.evalIn A ρ = .ok a) (hr : r.evalIn A ρ = .ok b)
    (ha : A.isZero a) (hb : A.isZero b) :
    Fault A ρ (.binary .pow l r) .undefinedResult [.left, .right]
  | logarithm {a : Expr} {v : α} (ha : a.evalIn A ρ = .ok v) (hv : A.isNonpos v) :
    Fault A ρ (.call .ln a) (.invalidDomain v) [.argument]

/-- A node is at fault. -/
def Faulty (A : Arithmetic α) (ρ : Variable → α) (e : Expr) : Prop :=
  ∃ cause operands, Fault A ρ e cause operands

namespace Expr

/-- The positions of an expression in the order in which evaluation settles them. -/
def evaluationOrder : Expr → List Position
  | .const _ => [[]]
  | .var _ => [[]]
  | .binary .div l r =>
    r.evaluationOrder.map (.right :: ·) ++ [] :: l.evaluationOrder.map (.left :: ·)
  | .binary _ l r =>
    l.evaluationOrder.map (.left :: ·) ++ r.evaluationOrder.map (.right :: ·) ++ [[]]
  | .call _ a => a.evaluationOrder.map (.argument :: ·) ++ [[]]

/-- The position of a node at fault, and then those of the operands to blame. -/
def blamed (p : Position) (operands : List Branch) : List Position :=
  p :: operands.map fun b => p ++ [b]

/-- The error of a fault at a position. -/
def located (e : Expr) (p : Position) (cause : Cause α) (operands : List Branch) : Error α where
  spans := (blamed p operands).map e.spanAt
  cause := cause

/-- The first fault in the order of evaluation is the one at position `p`. -/
def FirstFault (A : Arithmetic α) (ρ : Variable → α) (e : Expr) (p : Position) (cause : Cause α)
    (operands : List Branch) : Prop :=
  ∃ t earlier later, e.evaluationOrder = earlier ++ p :: later ∧ e.subexpr? p = some t ∧
    Fault A ρ t cause operands ∧
    ∀ q ∈ earlier, ∀ u, e.subexpr? q = some u → ¬ Faulty A ρ u

/-- The error of the first fault. -/
def FirstError (A : Arithmetic α) (ρ : Variable → α) (e : Expr) (err : Error α) : Prop :=
  ∃ p cause operands, FirstFault A ρ e p cause operands ∧ err = e.located p cause operands

variable {A : Arithmetic α} {ρ : Variable → α}

theorem spanAt_leftOperand (op : BinOp) (l r : Expr) :
    (binary op l r).spanAt [.left] = leftSpan l := by
  simp [spanAt_left, spanAt_nil, span, leftSpan, Span.shift_ofLength]

theorem spanAt_rightOperand (op : BinOp) (l r : Expr) :
    (binary op l r).spanAt [.right] = rightSpan op l r := by
  simp [spanAt_right, spanAt_nil, span, rightSpan, Span.shift_ofLength]

theorem spanAt_argumentOperand (f : Func) (a : Expr) :
    (call f a).spanAt [.argument] = argumentSpan f a := by
  simp [spanAt_argument, spanAt_nil, span, argumentSpan, Span.shift_ofLength]

/-- A node at fault fails, with its own span and those of the operands to blame. -/
theorem evalIn_of_fault {e : Expr} {cause : Cause α} {operands : List Branch}
    (h : Fault A ρ e cause operands) :
    e.evalIn A ρ = .error (e.located [] cause operands) := by
  cases h with
  | quotient hr hb =>
    simp [evalIn_div, hr, hb, located, blamed, spanAt_nil, spanAt_rightOperand]
  | power hl hr ha hb =>
    simp [evalIn_of_ne_div, hl, hr, ha, hb, located, blamed, spanAt_nil, spanAt_leftOperand,
      spanAt_rightOperand]
  | logarithm ha hv =>
    simp [evalIn_call, ha, hv, located, blamed, spanAt_nil, spanAt_argumentOperand]

/-- Nothing inside an expression that has a value is at fault. -/
theorem not_faulty_of_evalIn {e : Expr} {v : α} (h : e.evalIn A ρ = .ok v) :
    e.Everywhere fun t => ¬ Faulty A ρ t := by
  rintro p t ht ⟨cause, operands, fault⟩
  obtain ⟨w, hw⟩ := everywhere_ok_of_evalIn h p t ht
  rw [evalIn_of_fault fault] at hw
  cases hw

/-- The error of a fault in an operand is the operand's, as far right as the operand. -/
theorem located_cons {e operand : Expr} {b : Branch} {distance : Nat}
    (hspan : ∀ q, e.spanAt (b :: q) = (operand.spanAt q).shift distance) (p : Position)
    (cause : Cause α) (operands : List Branch) :
    e.located (b :: p) cause operands = (operand.located p cause operands).shift distance := by
  simp [located, blamed, Error.shift, hspan]

/-- The first error of an operand is the first error of the node, as far right as the operand, if
there is no fault among the positions that come before the operand. -/
theorem FirstError.lift {e operand : Expr} {err : Error α} (h : FirstError A ρ operand err)
    (b : Branch) (before after : List Position) {distance : Nat}
    (horder : e.evaluationOrder = before ++ operand.evaluationOrder.map (b :: ·) ++ after)
    (hsub : ∀ q, e.subexpr? (b :: q) = operand.subexpr? q)
    (hspan : ∀ q, e.spanAt (b :: q) = (operand.spanAt q).shift distance)
    (hbefore : ∀ q ∈ before, ∀ u, e.subexpr? q = some u → ¬ Faulty A ρ u) :
    FirstError A ρ e (err.shift distance) := by
  obtain ⟨p, cause, operands, ⟨t, earlier, later, order, ht, fault, first⟩, rfl⟩ := h
  refine ⟨b :: p, cause, operands, ⟨t, before ++ earlier.map (b :: ·), later.map (b :: ·) ++ after,
    ?_, ?_, fault, ?_⟩, (located_cons hspan p cause operands).symm⟩
  · simp [horder, order]
  · rw [hsub, ht]
  · intro q hq u hu
    rcases List.mem_append.1 hq with hq | hq
    · exact hbefore q hq u hu
    · obtain ⟨q', hq', rfl⟩ := List.mem_map.1 hq
      exact first q' hq' u ((hsub q').symm.trans hu)

/-- The error of a node at fault is the first error of the node, if there is no fault among the
positions that come before its own. -/
theorem firstError_of_fault {e : Expr} {cause : Cause α} {operands : List Branch} {err : Error α}
    {earlier later : List Position} (h : Fault A ρ e cause operands)
    (herr : e.evalIn A ρ = .error err) (horder : e.evaluationOrder = earlier ++ [] :: later)
    (hearlier : ∀ q ∈ earlier, ∀ u, e.subexpr? q = some u → ¬ Faulty A ρ u) :
    FirstError A ρ e err := by
  have located := (evalIn_of_fault h).symm.trans herr
  exact ⟨[], cause, operands, ⟨e, earlier, later, horder, subexpr?_nil e, h, hearlier⟩,
    (Except.error.inj located).symm⟩

/-- An operand that has a value has no fault at any of its positions in the node. -/
theorem not_faulty_in_operand {e operand : Expr} {v : α} (h : operand.evalIn A ρ = .ok v)
    (b : Branch) (hsub : ∀ q, e.subexpr? (b :: q) = operand.subexpr? q) :
    ∀ q ∈ operand.evaluationOrder.map (b :: ·), ∀ u, e.subexpr? q = some u → ¬ Faulty A ρ u := by
  intro q hq u hu
  obtain ⟨q', -, rfl⟩ := List.mem_map.1 hq
  exact not_faulty_of_evalIn h q' u ((hsub q').symm.trans hu)

/-- The order of evaluation holds the positions of an expression and nothing else. -/
theorem mem_evaluationOrder {e : Expr} {p : Position} :
    p ∈ e.evaluationOrder ↔ ∃ t, e.subexpr? p = some t := by
  induction e generalizing p with
  | const c => rcases p with _ | ⟨_ | _ | _, p⟩ <;> simp [evaluationOrder, subexpr?]
  | var v => rcases p with _ | ⟨_ | _ | _, p⟩ <;> simp [evaluationOrder, subexpr?]
  | binary op l r ihl ihr =>
    have order : p ∈ (binary op l r).evaluationOrder ↔
        (∃ q ∈ l.evaluationOrder, .left :: q = p) ∨ (∃ q ∈ r.evaluationOrder, .right :: q = p) ∨
          p = [] := by
      cases op <;> simp [evaluationOrder, or_comm, or_left_comm, or_assoc]
    rcases p with _ | ⟨_ | _ | _, p⟩ <;> simp [order, subexpr?, ihl, ihr]
  | call f a ih =>
    rcases p with _ | ⟨_ | _ | _, p⟩ <;> simp [evaluationOrder, subexpr?, ih]

/-- A quotient whose denominator is not zero is not at fault. -/
theorem not_faulty_div {l r : Expr} {b : α} (hr : r.evalIn A ρ = .ok b) (hb : ¬ A.isZero b) :
    ¬ Faulty A ρ (binary .div l r) := by
  rintro ⟨_, _, fault⟩
  cases fault with
  | quotient hr' hb' =>
    cases hr.symm.trans hr'
    exact hb hb'

/-- A quotient fails in its denominator, or by itself, or in its numerator. -/
theorem firstError_div {l r : Expr} {err : Error α}
    (ihl : ∀ {err}, l.evalIn A ρ = .error err → FirstError A ρ l err)
    (ihr : ∀ {err}, r.evalIn A ρ = .error err → FirstError A ρ r err)
    (h : (binary .div l r).evalIn A ρ = .error err) : FirstError A ρ (binary .div l r) err := by
  have herr := h
  rw [evalIn_div] at h
  cases hr : r.evalIn A ρ with
  | error err' =>
    rw [hr] at h
    cases h
    exact (ihr hr).lift .right [] ([] :: l.evaluationOrder.map (.left :: ·)) rfl (fun q => rfl)
      (spanAt_right .div l r) (by simp)
  | ok b =>
    have denominator := not_faulty_in_operand (e := binary .div l r) hr .right (fun q => rfl)
    by_cases hb : A.isZero b
    · exact firstError_of_fault (.quotient hr hb) herr rfl denominator
    · cases hl : l.evalIn A ρ with
      | ok a => simp [hr, hb, hl] at h
      | error err' =>
        simp only [hr, hb, hl] at h
        cases h
        have order : (binary .div l r).evaluationOrder =
            (r.evaluationOrder.map (.right :: ·) ++ [[]]) ++
              l.evaluationOrder.map (.left :: ·) ++ [] := by
          simp [evaluationOrder]
        refine (ihl hl).lift .left _ _ order (fun q => rfl) (spanAt_left .div l r)
          fun q hq u hu => ?_
        rcases List.mem_append.1 hq with hq | hq
        · exact denominator q hq u hu
        · cases List.mem_singleton.1 hq
          cases hu
          exact not_faulty_div hr hb

theorem evaluationOrder_of_ne_div {op : BinOp} (hop : op ≠ .div) (l r : Expr) :
    (binary op l r).evaluationOrder =
      l.evaluationOrder.map (.left :: ·) ++ r.evaluationOrder.map (.right :: ·) ++ [[]] := by
  cases op with
  | div => exact absurd rfl hop
  | add | sub | mul | pow => rfl

/-- Any other node fails in its left operand, or in its right operand, or by itself. -/
theorem firstError_of_ne_div {op : BinOp} (hop : op ≠ .div) {l r : Expr} {err : Error α}
    (ihl : ∀ {err}, l.evalIn A ρ = .error err → FirstError A ρ l err)
    (ihr : ∀ {err}, r.evalIn A ρ = .error err → FirstError A ρ r err)
    (h : (binary op l r).evalIn A ρ = .error err) : FirstError A ρ (binary op l r) err := by
  have herr := h
  have order := evaluationOrder_of_ne_div hop l r
  rw [evalIn_of_ne_div hop] at h
  cases hl : l.evalIn A ρ with
  | error err' =>
    rw [hl] at h
    cases h
    rw [List.append_assoc] at order
    exact (ihl hl).lift .left [] _ order (fun q => rfl) (spanAt_left op l r) (by simp)
  | ok a =>
    have left := not_faulty_in_operand (e := binary op l r) hl .left (fun q => rfl)
    cases hr : r.evalIn A ρ with
    | error err' =>
      simp only [hl, hr] at h
      cases h
      exact (ihr hr).lift .right _ _ order (fun q => rfl) (spanAt_right op l r) left
    | ok b =>
      have right := not_faulty_in_operand (e := binary op l r) hr .right (fun q => rfl)
      by_cases hz : op = .pow ∧ A.isZero a ∧ A.isZero b
      · obtain ⟨rfl, ha, hb⟩ := hz
        refine firstError_of_fault (.power hl hr ha hb) herr order fun q hq u hu => ?_
        rcases List.mem_append.1 hq with hq | hq
        · exact left q hq u hu
        · exact right q hq u hu
      · simp [hl, hr, hz] at h

/-- A call fails in its argument or by itself. -/
theorem firstError_call {f : Func} {a : Expr} {err : Error α}
    (ih : ∀ {err}, a.evalIn A ρ = .error err → FirstError A ρ a err)
    (h : (call f a).evalIn A ρ = .error err) : FirstError A ρ (call f a) err := by
  have herr := h
  rw [evalIn_call] at h
  cases ha : a.evalIn A ρ with
  | error err' =>
    rw [ha] at h
    cases h
    exact (ih ha).lift .argument [] [[]] rfl (fun q => rfl) (spanAt_argument f a) (by simp)
  | ok v =>
    by_cases hv : f = .ln ∧ A.isNonpos v
    · obtain ⟨rfl, hv⟩ := hv
      exact firstError_of_fault (.logarithm ha hv) herr rfl
        (not_faulty_in_operand ha .argument fun q => rfl)
    · simp [ha, hv] at h

/-- An evaluation that fails ends with the first fault. -/
theorem firstError_of_evalIn {e : Expr} {err : Error α} (h : e.evalIn A ρ = .error err) :
    FirstError A ρ e err := by
  induction e generalizing err with
  | const c => cases h
  | var v => cases h
  | binary op l r ihl ihr =>
    by_cases hop : op = .div
    · subst hop
      exact firstError_div ihl ihr h
    · exact firstError_of_ne_div hop ihl ihr h
  | call f a ih => exact firstError_call ih h

/-- The operands to blame exist. -/
theorem exists_operand_of_fault {e : Expr} {cause : Cause α} {operands : List Branch}
    (h : Fault A ρ e cause operands) {b : Branch} (hb : b ∈ operands) :
    ∃ u, e.subexpr? [b] = some u := by
  cases h with
  | @quotient l r =>
    cases List.mem_singleton.1 hb
    exact ⟨r, subexpr?_nil r⟩
  | @power l r =>
    rcases List.mem_cons.1 hb with rfl | hb
    · exact ⟨l, subexpr?_nil l⟩
    · cases List.mem_singleton.1 hb
      exact ⟨r, subexpr?_nil r⟩
  | @logarithm a =>
    cases List.mem_singleton.1 hb
    exact ⟨a, subexpr?_nil a⟩

theorem exists_subexpr_of_blamed {e : Expr} {p q : Position} {cause : Cause α}
    {operands : List Branch} (h : FirstFault A ρ e p cause operands) (hq : q ∈ blamed p operands) :
    ∃ u, e.subexpr? q = some u := by
  obtain ⟨t, -, -, -, ht, fault, -⟩ := h
  rcases List.mem_cons.1 hq with rfl | hq
  · exact ⟨t, ht⟩
  · obtain ⟨b, hb, rfl⟩ := List.mem_map.1 hq
    obtain ⟨u, hu⟩ := exists_operand_of_fault fault hb
    exact ⟨u, by rw [subexpr?_append, ht, Option.bind_some, hu]⟩

/-- **Faults.** Evaluation fails exactly if some subexpression is at fault. The error is that of
the first fault in the order of evaluation, in which every subexpression has its place, and its
spans are the bytes that the node at fault and the operands to blame take up in the text of the
expression. -/
theorem eval_fails_at_first_fault (s : Store) (e : Expr) :
    ((∃ err, e.eval s = .error err) ↔
      ∃ p t, e.subexpr? p = some t ∧ Faulty binary64 s.value t) ∧
    (∀ p, p ∈ e.evaluationOrder ↔ ∃ t, e.subexpr? p = some t) ∧
    ∀ err, e.eval s = .error err →
      ∃ p cause operands, FirstFault binary64 s.value e p cause operands ∧
        err.cause = cause ∧ err.spans = (blamed p operands).map e.spanAt ∧
        ∀ q ∈ blamed p operands, ∃ u, e.subexpr? q = some u ∧
          (e.spanAt q).bytes e.render = u.render.toByteArray := by
  refine ⟨⟨?_, ?_⟩, fun p => mem_evaluationOrder, ?_⟩
  · rintro ⟨err, h⟩
    obtain ⟨p, cause, operands, ⟨t, -, -, -, ht, fault, -⟩, -⟩ := firstError_of_evalIn h
    exact ⟨p, t, ht, cause, operands, fault⟩
  · rintro ⟨p, t, ht, faulty⟩
    cases h : e.eval s with
    | error err => exact ⟨err, rfl⟩
    | ok v => exact absurd faulty (not_faulty_of_evalIn h p t ht)
  · intro err h
    obtain ⟨p, cause, operands, first, rfl⟩ := firstError_of_evalIn h
    refine ⟨p, cause, operands, first, rfl, rfl, fun q hq => ?_⟩
    obtain ⟨u, hu⟩ := exists_subexpr_of_blamed first hq
    exact ⟨u, hu, bytes_spanAt hu⟩

end Expr

end Calculus
