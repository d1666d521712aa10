import Calculus.Proofs.Position

/-!
# Aligned expressions

Two expressions are aligned by a relation if they have the same shape, operators and functions, and
the relation holds between the leaves that stand at the same position. Equality of expressions is
such an alignment, and so is looking alike to the rules of simplification; a statement about two
runs of the library on aligned expressions is proved for every such relation at once.
-/

namespace Calculus

namespace Expr

/-- Whether the expression is a constant or a variable. -/
def isLeaf : Expr → Bool
  | .const _ => true
  | .var _ => true
  | .binary _ _ _ => false
  | .call _ _ => false

/-- The same shape, operators and functions, and related leaves, position by position. -/
inductive Aligned (L : Expr → Expr → Prop) : Expr → Expr → Prop where
  | leaf {x y : Expr} (hx : x.isLeaf) (hy : y.isLeaf) (h : L x y) : Aligned L x y
  | binary (op : BinOp) {l l' r r' : Expr} (hl : Aligned L l l') (hr : Aligned L r r') :
    Aligned L (.binary op l r) (.binary op l' r')
  | call (f : Func) {u u' : Expr} (hu : Aligned L u u') : Aligned L (.call f u) (.call f u')

namespace Aligned

variable {L L' : Expr → Expr → Prop} {a b : Expr}

theorem imp (h : a.Aligned L b) (imp : ∀ x y, L x y → L' x y) : a.Aligned L' b := by
  induction h with
  | leaf hx hy h => exact .leaf hx hy (imp _ _ h)
  | binary op _ _ ihl ihr => exact .binary op ihl ihr
  | call f _ ih => exact .call f ih

theorem flip (h : a.Aligned L b) : b.Aligned (fun x y => L y x) a := by
  induction h with
  | leaf hx hy h => exact .leaf hy hx h
  | binary op _ _ ihl ihr => exact .binary op ihl ihr
  | call f _ ih => exact .call f ih

theorem trans (hL : ∀ x y z, L x y → L y z → L x z) {c : Expr} (h : a.Aligned L b)
    (h' : b.Aligned L c) : a.Aligned L c := by
  induction h generalizing c with
  | leaf hx hy h =>
    cases h' with
    | leaf _ hz h' => exact .leaf hx hz (hL _ _ _ h h')
    | binary | call => cases hy
  | binary op _ _ ihl ihr =>
    cases h' with
    | leaf hy => cases hy
    | binary _ hl hr => exact .binary op (ihl hl) (ihr hr)
  | call f _ ih =>
    cases h' with
    | leaf hy => cases hy
    | call _ hu => exact .call f (ih hu)

/-- The leaves of aligned expressions are related where they stand. -/
theorem positioned (h : a.Aligned L b) :
    a.Aligned (fun x y => L x y ∧ ∃ p, a.subexpr? p = some x ∧ b.subexpr? p = some y) b := by
  induction h with
  | leaf hx hy h => exact .leaf hx hy ⟨h, [], subexpr?_nil _, subexpr?_nil _⟩
  | binary op _ _ ihl ihr =>
    refine .binary op (ihl.imp ?_) (ihr.imp ?_)
    · rintro x y ⟨h, p, hx, hy⟩
      exact ⟨h, .left :: p, hx, hy⟩
    · rintro x y ⟨h, p, hx, hy⟩
      exact ⟨h, .right :: p, hx, hy⟩
  | call f _ ih =>
    refine .call f (ih.imp ?_)
    rintro x y ⟨h, p, hx, hy⟩
    exact ⟨h, .argument :: p, hx, hy⟩

end Aligned

end Expr

end Calculus
