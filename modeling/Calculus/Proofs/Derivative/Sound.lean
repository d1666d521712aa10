import Calculus.Derivative
import Calculus.Proofs.Simplification.Failures

/-!
# Derivatives that can be simplified

An expression persists when it simplifies to something other than a zero constant. It is sound when
every denominator, every base of a power and every operand of a logarithm in it persists. A sound
expression can be simplified, because none of its divisions is doomed. Differentiation keeps
soundness, and so a sound expression has no derivative of any order that provably divides by zero.

Only denominators decide whether a simplification fails. Bases and operands of logarithms are in
the invariant because they are the denominators of the next derivative: the power rule divides by
the base, and the chain rule of the logarithm by the operand. All other denominators that are built
are products of old ones, and what persists stays so in products (`Persists.mul`).
-/

namespace Calculus

namespace Expr

/-- The expression simplifies, and not to a zero constant. -/
def Persists (e : Expr) : Prop :=
  ∃ s, e.simplify = .ok s ∧ s.isZero = false

instance : DecidablePred Persists := fun e =>
  match h : e.simplify with
  | .ok s => decidable_of_decidable_of_iff (p := s.isZero = false) (by simp [Persists, h])
  | .error _ => isFalse (by simp [Persists, h])

theorem Persists.not_vanishes {e : Expr} (h : e.Persists) : ¬ e.Vanishes := by
  obtain ⟨s, hs, nonzero⟩ := h
  rw [vanishes_iff_of_simplify hs, nonzero]
  exact Bool.false_ne_true

/-- A product of what persists persists: a rule can only drop a factor of one. -/
theorem Persists.mul {l r : Expr} (hl : l.Persists) (hr : r.Persists) : (l * r).Persists := by
  obtain ⟨l', hl, nonzeroL⟩ := hl
  obtain ⟨r', hr, nonzeroR⟩ := hr
  have noQuotient : ¬ (BinOp.mul = .div ∧ r'.isZero) := fun h => nomatch h.1
  cases hf : Rule.first? Rule.all (.binary .mul l' r') with
  | none =>
    have hs := simplify_binary_eq_ok_iff.2 ⟨l', r', hl, hr, noQuotient, .inr ⟨hf, rfl⟩⟩
    exact ⟨_, hs, rfl⟩
  | some reduced =>
    obtain ⟨rule, s⟩ := reduced
    have reduction := Rule.first?_all_eq_some_iff.1 hf
    have hs := simplify_binary_eq_ok_iff.2 ⟨l', r', hl, hr, noQuotient, .inl ⟨rule, reduction⟩⟩
    refine ⟨s, hs, ?_⟩
    cases reduction with
    | mulZero zero => simp [nonzeroL, nonzeroR] at zero
    | oneMul _ _ _ => exact nonzeroR
    | mulOne _ _ _ _ => exact nonzeroL

end Expr

/-- What an operator needs to persist: the denominator of a quotient, and the base of a power. -/
def BinOp.Guarded : BinOp → Expr → Expr → Prop
  | .add, _, _ => True
  | .sub, _, _ => True
  | .mul, _, _ => True
  | .div, _, r => r.Persists
  | .pow, l, _ => l.Persists

/-- What a function needs to persist: the operand of a logarithm. -/
def Func.Guarded : Func → Expr → Prop
  | .ln, a => a.Persists
  | .sin, _ => True
  | .cos, _ => True

instance (op : BinOp) (l r : Expr) : Decidable (op.Guarded l r) :=
  match op with
  | .add | .sub | .mul => .isTrue trivial
  | .div => inferInstanceAs (Decidable r.Persists)
  | .pow => inferInstanceAs (Decidable l.Persists)

instance (f : Func) (a : Expr) : Decidable (f.Guarded a) :=
  match f with
  | .ln => inferInstanceAs (Decidable a.Persists)
  | .sin | .cos => .isTrue trivial

namespace Expr

/-- What the node at the top of a tree needs to persist does. -/
def TopGuarded : Expr → Prop
  | .const _ => True
  | .var _ => True
  | .binary op l r => op.Guarded l r
  | .call f a => f.Guarded a

instance : DecidablePred TopGuarded
  | .const _ | .var _ => .isTrue trivial
  | .binary op l r => inferInstanceAs (Decidable (op.Guarded l r))
  | .call f a => inferInstanceAs (Decidable (f.Guarded a))

/-- Every denominator, every base of a power and every operand of a logarithm persists. -/
def Sound (e : Expr) : Prop :=
  e.Everywhere TopGuarded

instance : DecidablePred Sound := fun e =>
  inferInstanceAs (Decidable (e.Everywhere TopGuarded))

theorem sound_const (c : Constant) : (const c).Sound :=
  everywhere_const.2 trivial

theorem sound_binary {op : BinOp} {l r : Expr} :
    (binary op l r).Sound ↔ op.Guarded l r ∧ l.Sound ∧ r.Sound :=
  everywhere_binary

theorem sound_call {f : Func} {a : Expr} : (call f a).Sound ↔ f.Guarded a ∧ a.Sound :=
  everywhere_call

/-- A sound expression can be simplified. -/
theorem simplify_of_sound {e : Expr} (h : e.Sound) : ∃ s, e.simplify = .ok s := by
  rcases simplify_settled e with ⟨-, simplified⟩ | ⟨p, doomed, -⟩
  · exact simplified
  · obtain ⟨l, r, -, -, -, division, vanishes, -⟩ := firstDoomed?_eq_some doomed
    have denominator : r.Persists := h p _ division
    exact absurd vanishes denominator.not_vanishes

namespace Sound

variable {l r dl dr u du : Expr}

theorem add (hl : l.Sound) (hr : r.Sound) : (l + r).Sound :=
  sound_binary.2 ⟨trivial, hl, hr⟩

theorem sub (hl : l.Sound) (hr : r.Sound) : (l - r).Sound :=
  sound_binary.2 ⟨trivial, hl, hr⟩

theorem mul (hl : l.Sound) (hr : r.Sound) : (l * r).Sound :=
  sound_binary.2 ⟨trivial, hl, hr⟩

theorem div (hl : l.Sound) (hr : r.Sound) (denominator : r.Persists) : (l / r).Sound :=
  sound_binary.2 ⟨denominator, hl, hr⟩

theorem pow (hl : l.Sound) (hr : r.Sound) (base : l.Persists) : (l ^ r).Sound :=
  sound_binary.2 ⟨base, hl, hr⟩

theorem ln (hu : u.Sound) (operand : u.Persists) : (call .ln u).Sound :=
  sound_call.2 ⟨operand, hu⟩

theorem sin (hu : u.Sound) : (call .sin u).Sound :=
  sound_call.2 ⟨trivial, hu⟩

theorem cos (hu : u.Sound) : (call .cos u).Sound :=
  sound_call.2 ⟨trivial, hu⟩

theorem leftRule {op : BinOp} (h : op.Guarded l r) (hl : l.Sound) (hr : r.Sound)
    (hdl : dl.Sound) : (op.leftRule l r dl).Sound := by
  cases op with
  | add | sub => exact hdl
  | mul => exact hdl.mul hr
  | div => exact hdl.div hr h
  | pow =>
    have power : (l ^ (r - Expr.one)).Sound := hl.pow (hr.sub (sound_const _)) h
    exact (hr.mul power).mul hdl

theorem rightRule {op : BinOp} (h : op.Guarded l r) (hl : l.Sound) (hr : r.Sound)
    (hdr : dr.Sound) : (op.rightRule l r dr).Sound := by
  cases op with
  | add => exact hdr
  | sub => exact (sound_const _).mul hdr
  | mul => exact hl.mul hdr
  | div =>
    have square : (r * r).Persists := Persists.mul h h
    exact (((sound_const _).mul hl).mul hdr).div (hr.mul hr) square
  -- The base moves into a logarithm.
  | pow => exact ((hl.pow hr h).mul (hl.ln h)).mul hdr

theorem fullRule {op : BinOp} (h : op.Guarded l r) (hl : l.Sound) (hr : r.Sound)
    (hdl : dl.Sound) (hdr : dr.Sound) : (op.fullRule l r dl dr).Sound := by
  cases op with
  | add => exact hdl.add hdr
  | sub => exact hdl.sub hdr
  | mul => exact (hdl.mul hr).add (hl.mul hdr)
  | div =>
    have square : (r * r).Persists := Persists.mul h h
    exact ((hr.mul hdl).sub (hl.mul hdr)).div (hr.mul hr) square
  -- The base moves into a denominator and into a logarithm.
  | pow =>
    have power : (l ^ r).Sound := hl.pow hr h
    exact (((hr.mul power).div hl h).mul hdl).add ((power.mul (hl.ln h)).mul hdr)

theorem chainRule {f : Func} (h : f.Guarded u) (hu : u.Sound) (hdu : du.Sound) :
    (f.chainRule u du).Sound := by
  cases f with
  -- The operand of a logarithm moves into a denominator.
  | ln => exact ((sound_const _).div hu h).mul hdu
  | sin => exact hu.cos.mul hdu
  | cos => exact ((sound_const _).mul hu.sin).mul hdu

end Sound

/-- The derivative of a sound expression is sound. -/
theorem Sound.derivative {e : Expr} (h : e.Sound) (x : Variable) : (e.derivative x).Sound := by
  induction e with
  | const c => exact sound_const _
  | var v =>
    rw [derivative_var]
    split <;> exact sound_const _
  | binary op l r ihl ihr =>
    obtain ⟨guarded, hl, hr⟩ := sound_binary.1 h
    rw [derivative_binary]
    cases Dependence.of x l r with
    | neither => exact sound_const _
    | left => exact leftRule guarded hl hr (ihl hl)
    | right => exact rightRule guarded hl hr (ihr hr)
    | both => exact fullRule guarded hl hr (ihl hl) (ihr hr)
  | call f a ih =>
    obtain ⟨guarded, ha⟩ := sound_call.1 h
    rw [derivative_call]
    split
    · exact chainRule guarded ha (ih ha)
    · exact sound_const _

theorem Sound.nthDerivative {e : Expr} (h : e.Sound) (x : Variable) (n : Nat) :
    (e.nthDerivative x n).Sound := by
  induction n generalizing e with
  | zero => exact h
  | succ n ih => exact ih (h.derivative x)

/-- **No new divisions by zero.** The derivatives of a sound expression, of any order, are sound,
and so all of them can be simplified. -/
theorem nthDerivative_sound_and_simplifies (e : Expr) (h : e.Sound) (x : Variable) (n : Nat) :
    (e.nthDerivative x n).Sound ∧ ∃ s, (e.nthDerivative x n).simplify = .ok s :=
  ⟨h.nthDerivative x n, simplify_of_sound (h.nthDerivative x n)⟩

/-- A quotient, a logarithm and powers with zeros among their parts, where only the places that
count are free of them: `0 / ln(0 + x) + (x - 0) ^ (x * 0)`. -/
theorem nthDerivative_sound_and_simplifies_of_zeros :
    let x : Variable := ⟨"x", 0⟩
    let e := zero / call .ln (zero + var x) + (var x - zero) ^ (var x * zero)
    e.Sound ∧ (e.nthDerivative x 3).Sound ∧ ∃ s, (e.nthDerivative x 3).simplify = .ok s := by
  intro x e
  have sound : e.Sound := by decide
  exact ⟨sound, nthDerivative_sound_and_simplifies e sound x 3⟩

/-- The operands of logarithms count: `ln(x * 0)` can be simplified, and its derivative cannot. -/
example : let x : Variable := ⟨"x", 0⟩
    let e := call .ln (var x * zero)
    e.simplify = .ok (call .ln zero) ∧
      (e.derivative x).simplify = .error ⟨[⟨1, 14⟩, ⟨6, 13⟩], .alwaysDividesByZero⟩ :=
  ⟨rfl, rfl⟩

end Expr

end Calculus
