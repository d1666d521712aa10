import Calculus.Proofs.Alignment
import Calculus.Proofs.Simplification.History

/-!
# Simplification in lockstep

Simplification decides by shape and value. Nothing but whether a leaf counts as zero, and whether it
counts as one, has a part in it: not its name, nor whether it is a constant or a variable, nor any
other value. Two expressions of the same shape whose leaves look alike in this sense are simplified
in lockstep: by the same steps, to a failure at the same position or to results of the same shape, in
which leaves that stand at the same position were given at the same position, or are both the
reserved zero.

What is preserved in lockstep is an alignment by any relation between leaves under which these look
alike, and which relates the reserved zero to itself (`LeafRelation`). To follow the leaves through
the pass, take the relation of leaves that were given at the same position.
-/

namespace Calculus

namespace Expr

/-- The expressions count as zero together, and as one together. -/
def LooksLike (x y : Expr) : Prop :=
  x.isZero = y.isZero ∧ x.isOne = y.isOne

end Expr

/-- A relation between leaves under which they look alike. It holds between the leaves that
simplification makes. -/
structure LeafRelation (L : Expr → Expr → Prop) : Prop where
  looksLike {x y : Expr} (h : L x y) : x.LooksLike y
  zero : L .zero .zero

theorem LeafRelation.flip {L : Expr → Expr → Prop} (hL : LeafRelation L) :
    LeafRelation fun x y => L y x where
  looksLike h := ⟨(hL.looksLike h).1.symm, (hL.looksLike h).2.symm⟩
  zero := hL.zero

section Rules

variable {L : Expr → Expr → Prop} {l l' r r' : Expr}

/-- Aligned expressions look alike: a node counts neither as zero nor as one. -/
theorem LeafRelation.looksLike_of_aligned (hL : LeafRelation L) {a b : Expr} (h : a.Aligned L b) :
    a.LooksLike b := by
  cases h with
  | leaf _ _ h => exact hL.looksLike h
  | binary op _ _ => exact ⟨rfl, rfl⟩
  | call f _ => exact ⟨rfl, rfl⟩

/-- A rule that reduces a node reduces every node of aligned operands, to something aligned. -/
theorem Reduces.aligned (hL : LeafRelation L) {rule : Rule} {op : BinOp} {s : Expr}
    (h : Reduces rule (.binary op l r) s) (hl : l.Aligned L l') (hr : r.Aligned L r') :
    ∃ s', Reduces rule (.binary op l' r') s' ∧ s.Aligned L s' := by
  obtain ⟨zeroL, oneL⟩ := hL.looksLike_of_aligned hl
  obtain ⟨zeroR, oneR⟩ := hL.looksLike_of_aligned hr
  have zeros : Expr.zero.Aligned L .zero := .leaf rfl rfl hL.zero
  cases h with
  | addZeros zl zr => exact ⟨_, .addZeros (zeroL ▸ zl) (zeroR ▸ zr), zeros⟩
  | zeroAdd zl zr => exact ⟨_, .zeroAdd (zeroL ▸ zl) (zeroR ▸ zr), hr⟩
  | addZero zl zr => exact ⟨_, .addZero (zeroL ▸ zl) (zeroR ▸ zr), hl⟩
  | subZeros zl zr => exact ⟨_, .subZeros (zeroL ▸ zl) (zeroR ▸ zr), zeros⟩
  | zeroSub zl zr => exact ⟨_, .zeroSub (zeroL ▸ zl) (zeroR ▸ zr), hr⟩
  | subZero zl zr => exact ⟨_, .subZero (zeroL ▸ zl) (zeroR ▸ zr), hl⟩
  | mulZero z => exact ⟨_, .mulZero (zeroL ▸ zeroR ▸ z), zeros⟩
  | oneMul zl zr one => exact ⟨_, .oneMul (zeroL ▸ zl) (zeroR ▸ zr) (oneL ▸ one), hr⟩
  | mulOne zl zr one one' =>
    exact ⟨_, .mulOne (zeroL ▸ zl) (zeroR ▸ zr) (oneL ▸ one) (oneR ▸ one'), hl⟩
  | zeroDiv zl => exact ⟨_, .zeroDiv (zeroL ▸ zl), zeros⟩
  | divOne zl one => exact ⟨_, .divOne (zeroL ▸ zl) (oneR ▸ one), hl⟩

/-- The same rule applies first to nodes of aligned operands, or none does. -/
theorem Rule.first?_all_aligned (hL : LeafRelation L) (op : BinOp) (hl : l.Aligned L l')
    (hr : r.Aligned L r') :
    (first? all (.binary op l r) = none ∧ first? all (.binary op l' r') = none) ∨
      ∃ rule s s', first? all (.binary op l r) = some (rule, s) ∧
        first? all (.binary op l' r') = some (rule, s') ∧ s.Aligned L s' := by
  cases h : first? all (.binary op l r) with
  | some reduced =>
    obtain ⟨rule, s⟩ := reduced
    obtain ⟨s', reduces, aligned⟩ := (first?_all_eq_some_iff.1 h).aligned hL hl hr
    exact .inr ⟨rule, s, s', rfl, first?_all_eq_some_iff.2 reduces, aligned⟩
  | none =>
    cases h' : first? all (.binary op l' r') with
    | none => exact .inl ⟨rfl, rfl⟩
    | some reduced' =>
      obtain ⟨rule, s'⟩ := reduced'
      obtain ⟨s, reduces, -⟩ := (first?_all_eq_some_iff.1 h').aligned hL.flip hl.flip hr.flip
      cases h.symm.trans (first?_all_eq_some_iff.2 reduces)

end Rules

namespace Expr

/-- Two passes make the same steps. They end with aligned expressions, or fail at the same
position. -/
structure Lockstep (L : Expr → Expr → Prop) (a b : Expr) : Prop where
  rules : a.reductions.map (·.rule) = b.reductions.map (·.rule)
  ends : (∃ s t, a.simplify = .ok s ∧ b.simplify = .ok t ∧ s.Aligned L t) ∨
    ∃ q, a.firstDoomed? = some q ∧ b.firstDoomed? = some q

variable {L : Expr → Expr → Prop} {a b l l' r r' : Expr}

/-- Nodes of operands that are simplified in lockstep make the same step, if any, and end aligned or
fail together. -/
theorem Lockstep.node (hL : LeafRelation L) (op : BinOp) (hl : Lockstep L l l')
    (hr : Lockstep L r r') {s s' t t' : Expr} (sl : l.simplify = .ok s) (sl' : l'.simplify = .ok s')
    (sr : r.simplify = .ok t) (sr' : r'.simplify = .ok t') (alignedL : s.Aligned L s')
    (alignedR : t.Aligned L t') : Lockstep L (.binary op l r) (.binary op l' r') := by
  have zero : t.isZero = t'.isZero := (hL.looksLike_of_aligned alignedR).1
  by_cases doomed : op = .div ∧ t.isZero
  · have doomed' : op = .div ∧ t'.isZero := zero ▸ doomed
    refine ⟨?_, .inr ⟨[], ?_, ?_⟩⟩
    · simp only [reductions_binary, sl, sl', sr, sr', if_pos doomed, if_pos doomed',
        List.append_nil, List.map_append, hl.rules, hr.rules]
    · simp [firstDoomed?_binary, firstDoomed?_of_simplify sl, firstDoomed?_of_simplify sr,
        vanishes_iff_of_simplify sr, doomed]
    · simp [firstDoomed?_binary, firstDoomed?_of_simplify sl', firstDoomed?_of_simplify sr',
        vanishes_iff_of_simplify sr', doomed']
  · have doomed' : ¬ (op = .div ∧ t'.isZero) := zero ▸ doomed
    have made (top : (Expr.binary op s t).topReductions.map (·.rule) =
        (Expr.binary op s' t').topReductions.map (·.rule)) :
        (Expr.binary op l r).reductions.map (·.rule) =
          (Expr.binary op l' r').reductions.map (·.rule) := by
      simp only [reductions_binary_of_ok sl sr doomed, reductions_binary_of_ok sl' sr' doomed',
        List.map_append, hl.rules, hr.rules, top]
    rcases Rule.first?_all_aligned hL op alignedL alignedR with
      ⟨none, none'⟩ | ⟨rule, e, e', some, some', aligned⟩
    · refine ⟨made ?_, .inl ⟨.binary op s t, .binary op s' t', ?_, ?_, .binary op alignedL alignedR⟩⟩
      · simp only [topReductions, none, none']
      · exact simplify_binary_eq_ok_iff.2 ⟨s, t, sl, sr, doomed, .inr ⟨none, rfl⟩⟩
      · exact simplify_binary_eq_ok_iff.2 ⟨s', t', sl', sr', doomed', .inr ⟨none', rfl⟩⟩
    · refine ⟨made ?_, .inl ⟨e, e', ?_, ?_, aligned⟩⟩
      · simp only [topReductions, some, some', List.map_cons]
      · exact simplify_binary_eq_ok_iff.2
          ⟨s, t, sl, sr, doomed, .inl ⟨rule, Rule.first?_all_eq_some_iff.1 some⟩⟩
      · exact simplify_binary_eq_ok_iff.2
          ⟨s', t', sl', sr', doomed', .inl ⟨rule, Rule.first?_all_eq_some_iff.1 some'⟩⟩

/-- Nodes are simplified in lockstep if their operands are. -/
theorem Lockstep.binary (hL : LeafRelation L) (op : BinOp) (hl : Lockstep L l l')
    (hr : Lockstep L r r') : Lockstep L (.binary op l r) (.binary op l' r') := by
  rcases hl.ends with ⟨s, s', sl, sl', alignedL⟩ | ⟨q, dl, dl'⟩
  · rcases hr.ends with ⟨t, t', sr, sr', alignedR⟩ | ⟨q, dr, dr'⟩
    · exact .node hL op hl hr sl sl' sr sr' alignedL alignedR
    · refine ⟨?_, .inr ⟨.right :: q, ?_, ?_⟩⟩
      · simp only [reductions_binary, sl, sl', simplify_of_firstDoomed? dr,
          simplify_of_firstDoomed? dr', List.append_nil, List.map_append, hl.rules, hr.rules]
      · simp [firstDoomed?_binary, firstDoomed?_of_simplify sl, dr]
      · simp [firstDoomed?_binary, firstDoomed?_of_simplify sl', dr']
  · refine ⟨?_, .inr ⟨.left :: q, ?_, ?_⟩⟩
    · simp only [reductions_binary, simplify_of_firstDoomed? dl, simplify_of_firstDoomed? dl',
        List.append_nil, hl.rules]
    · simp [firstDoomed?_binary, dl]
    · simp [firstDoomed?_binary, dl']

theorem Lockstep.call (f : Func) (h : Lockstep L a b) : Lockstep L (.call f a) (.call f b) := by
  refine ⟨by simpa only [reductions_call] using h.rules, ?_⟩
  rcases h.ends with ⟨s, t, sa, sb, aligned⟩ | ⟨q, da, db⟩
  · refine .inl ⟨_, _, ?_, ?_, .call f aligned⟩
    · exact simplify_call_eq_ok_iff.2 ⟨s, sa, rfl⟩
    · exact simplify_call_eq_ok_iff.2 ⟨t, sb, rfl⟩
  · refine .inr ⟨.argument :: q, ?_, ?_⟩
    · rw [firstDoomed?_call, da, Option.map_some]
    · rw [firstDoomed?_call, db, Option.map_some]

theorem simplify_of_isLeaf {x : Expr} (h : x.isLeaf) : x.simplify = .ok x ∧ x.reductions = [] := by
  cases x with
  | const c => exact ⟨rfl, rfl⟩
  | var v => exact ⟨rfl, rfl⟩
  | binary op l r => cases h
  | call f u => cases h

/-- Aligned expressions are simplified in lockstep. -/
theorem Aligned.lockstep (hL : LeafRelation L) (h : a.Aligned L b) : Lockstep L a b := by
  induction h with
  | @leaf x y hx hy h =>
    obtain ⟨sx, made⟩ := simplify_of_isLeaf hx
    obtain ⟨sy, made'⟩ := simplify_of_isLeaf hy
    exact ⟨by rw [made, made'], .inl ⟨x, y, sx, sy, .leaf hx hy h⟩⟩
  | binary op _ _ ihl ihr => exact .binary hL op ihl ihr
  | call f _ ih => exact .call f ih

/-- The two stem from the same position of the given expressions, or they are the reserved zero. -/
inductive SharesOrigin (a b : Expr) : Expr → Expr → Prop where
  | given {p : Position} {x y : Expr} (ha : a.subexpr? p = some x) (hb : b.subexpr? p = some y) :
    SharesOrigin a b x y
  | zero : SharesOrigin a b .zero .zero

/-- Leaves that look alike and share their origin. -/
theorem leafRelation_sharesOrigin (a b : Expr) :
    LeafRelation fun x y => x.LooksLike y ∧ SharesOrigin a b x y where
  looksLike h := h.1
  zero := ⟨⟨rfl, rfl⟩, .zero⟩

/-- **Shape and value decide.** Let two expressions have the same shape, operators and functions, and
leaves that look alike at every position. Simplification pushes the same steps for both. It fails
for both, at the same position, or yields expressions of the same shape, operators and functions,
whose leaves at every position were given at the same position, or are both the reserved zero. -/
theorem simplifyInto_by_shape_and_value (a b : Expr) (h : a.Aligned LooksLike b)
    (steps : Array Rule) :
    (a.simplifyInto steps).2 = (b.simplifyInto steps).2 ∧
      ((∃ s t, (a.simplifyInto steps).1 = .ok s ∧ (b.simplifyInto steps).1 = .ok t ∧
        s.Aligned (SharesOrigin a b) t) ∨
      ∃ q, a.firstDoomed? = some q ∧ b.firstDoomed? = some q ∧
        (a.simplifyInto steps).1 = .error (a.doomedError q) ∧
        (b.simplifyInto steps).1 = .error (b.doomedError q)) := by
  have placed : a.Aligned (fun x y => x.LooksLike y ∧ SharesOrigin a b x y) b :=
    h.positioned.imp fun x y ⟨looks, p, hx, hy⟩ => ⟨looks, .given hx hy⟩
  obtain ⟨rules, ends⟩ := placed.lockstep (leafRelation_sharesOrigin a b)
  refine ⟨by simp only [simplifyInto_array, rules], ?_⟩
  simp only [simplifyInto_fst]
  rcases ends with ⟨s, t, hs, ht, aligned⟩ | ⟨q, da, db⟩
  · exact .inl ⟨s, t, hs, ht, aligned.imp fun x y => And.right⟩
  · exact .inr ⟨q, da, db, simplify_of_firstDoomed? da, simplify_of_firstDoomed? db⟩

/-- `((x * zero) + ln((1 * y)))` and `((pi * 0) + ln((unit * c)))`, where `zero` is worth `-0` and `c`
is not a number: variables stand against constants, and no name is the same. -/
theorem simplifyInto_by_shape_and_value_of_strangers :
    let a := var ⟨"x", 0⟩ * const ⟨"zero", -0.0⟩ + call .ln (one * var ⟨"y", 1⟩)
    let b := const .pi * zero + call .ln (const ⟨"unit", 1.0⟩ * const ⟨"c", 0.0 / 0.0⟩)
    let steps : Array Rule := #[]
    a.Aligned LooksLike b ∧ (a.simplifyInto steps).2 = #[.mulZero, .mulOne, .addZero] ∧
      (a.simplifyInto steps).2 = (b.simplifyInto steps).2 ∧
      ((∃ s t, (a.simplifyInto steps).1 = .ok s ∧ (b.simplifyInto steps).1 = .ok t ∧
        s.Aligned (SharesOrigin a b) t) ∨
      ∃ q, a.firstDoomed? = some q ∧ b.firstDoomed? = some q ∧
        (a.simplifyInto steps).1 = .error (a.doomedError q) ∧
        (b.simplifyInto steps).1 = .error (b.doomedError q)) := by
  intro a b steps
  have looks : a.Aligned LooksLike b :=
    .binary .add (.binary .mul (.leaf rfl rfl ⟨rfl, rfl⟩) (.leaf rfl rfl ⟨rfl, rfl⟩))
      (.call .ln (.binary .mul (.leaf rfl rfl ⟨rfl, rfl⟩) (.leaf rfl rfl ⟨rfl, rfl⟩)))
  exact ⟨looks, rfl, simplifyInto_by_shape_and_value a b looks steps⟩

end Expr

end Calculus
