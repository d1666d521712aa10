import Calculus.Derivative

/-!
# The rules of differentiation and congruences

A rule of differentiation builds nodes and calls from the operands, from their derivatives and from
the constants `1` and `-1`. Whatever relation between expressions carries over to nodes and calls
therefore carries over to what the rules make. This is said here once for each of the four rules, and
used for properties of leaves, for refinement of values and for equality.
-/

namespace Calculus

/-- A relation between expressions that carries over from operands to nodes and calls, and holds
between the constants that the rules of differentiation make. -/
structure Congruence (R : Expr → Expr → Prop) : Prop where
  binary (op : BinOp) {l l' r r' : Expr} (hl : R l l') (hr : R r r') :
    R (.binary op l r) (.binary op l' r')
  call (f : Func) {u u' : Expr} (hu : R u u') : R (.call f u) (.call f u')
  one : R .one .one
  minusOne : R .minusOne .minusOne

namespace Congruence

variable {R : Expr → Expr → Prop} {l l' r r' dl dl' dr dr' u u' du du' : Expr}

theorem leftRule (hR : Congruence R) (op : BinOp) (hl : R l l') (hr : R r r') (hdl : R dl dl') :
    R (op.leftRule l r dl) (op.leftRule l' r' dl') := by
  cases op with
  | add | sub => exact hdl
  | mul | div => exact hR.binary _ hdl hr
  | pow =>
    have exponent : R (r - Expr.one) (r' - Expr.one) := hR.binary _ hr hR.one
    exact hR.binary _ (hR.binary _ hr (hR.binary _ hl exponent)) hdl

theorem rightRule (hR : Congruence R) (op : BinOp) (hl : R l l') (hr : R r r') (hdr : R dr dr') :
    R (op.rightRule l r dr) (op.rightRule l' r' dr') := by
  cases op with
  | add => exact hdr
  | sub => exact hR.binary _ hR.minusOne hdr
  | mul => exact hR.binary _ hl hdr
  | div =>
    have numerator : R (Expr.minusOne * l * dr) (Expr.minusOne * l' * dr') :=
      hR.binary _ (hR.binary _ hR.minusOne hl) hdr
    exact hR.binary _ numerator (hR.binary _ hr hr)
  | pow => exact hR.binary _ (hR.binary _ (hR.binary _ hl hr) (hR.call _ hl)) hdr

theorem fullRule (hR : Congruence R) (op : BinOp) (hl : R l l') (hr : R r r') (hdl : R dl dl')
    (hdr : R dr dr') : R (op.fullRule l r dl dr) (op.fullRule l' r' dl' dr') := by
  cases op with
  | add | sub => exact hR.binary _ hdl hdr
  | mul => exact hR.binary _ (hR.binary _ hdl hr) (hR.binary _ hl hdr)
  | div =>
    have numerator : R (r * dl - l * dr) (r' * dl' - l' * dr') :=
      hR.binary _ (hR.binary _ hr hdl) (hR.binary _ hl hdr)
    exact hR.binary _ numerator (hR.binary _ hr hr)
  | pow =>
    have power : R (l ^ r) (l' ^ r') := hR.binary _ hl hr
    have base : R (r * l ^ r / l * dl) (r' * l' ^ r' / l' * dl') :=
      hR.binary _ (hR.binary _ (hR.binary _ hr power) hl) hdl
    exact hR.binary _ base (hR.binary _ (hR.binary _ power (hR.call _ hl)) hdr)

theorem chainRule (hR : Congruence R) (f : Func) (hu : R u u') (hdu : R du du') :
    R (f.chainRule u du) (f.chainRule u' du') := by
  cases f with
  | ln => exact hR.binary _ (hR.binary _ hR.one hu) hdu
  | sin => exact hR.binary _ (hR.call _ hu) hdu
  | cos => exact hR.binary _ (hR.binary _ hR.minusOne (hR.call _ hu)) hdu

end Congruence

end Calculus
