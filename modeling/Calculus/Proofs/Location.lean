import Calculus.Proofs.Position

/-!
# Where subexpressions stand

The starts of the operands on the way from the root of an expression to a position add up to the
byte of its text at which the subexpression at the position starts (`startAt`), and the length of
the subexpression is the number of bytes it takes up from there.

It would not do to look for the text of the subexpression: equal subexpressions have the same text,
and a leaf without a name is found everywhere. What stands before and after a position is what stays
when other expressions are put there (`Around`), and there is only one way to cut the text like this
(`around_iff`): of two cuts, one is further left, and a name that starts with another character than
the one it stands before tells them apart.

One way down moves a span by the start of one operand: these are the `spanAt` equations of
`Proofs.Position`. So a whole path moves it by the sum of the starts (`spanAt_append`).
-/

namespace Calculus

section Gaps

/-- A text that starts with a gap does not always start with the same character. -/
theorem exists_append_ne (c : Char) (before after after' : List Char) :
    ∃ gap, gap ++ after ≠ c :: before ++ gap ++ after' := by
  by_cases hc : c = 'x'
  · refine ⟨['y'], fun h => ?_⟩
    have first : 'y' = c := (List.cons.inj h).1
    exact absurd (first.trans hc) (by decide)
  · refine ⟨['x'], fun h => ?_⟩
    have first : 'x' = c := (List.cons.inj h).1
    exact hc first.symm

/-- Two texts with a gap that are the same whatever fills the gap have it in the same place. -/
theorem eq_of_forall_gap {before after before' after' : List Char}
    (h : ∀ gap, before ++ gap ++ after = before' ++ gap ++ after') :
    before = before' ∧ after = after' := by
  induction before generalizing before' with
  | nil =>
    cases before' with
    | nil => exact ⟨rfl, h []⟩
    | cons c before' =>
      obtain ⟨gap, different⟩ := exists_append_ne c before' after after'
      exact absurd (h gap) different
  | cons c before ih =>
    cases before' with
    | nil =>
      obtain ⟨gap, different⟩ := exists_append_ne c before after' after
      exact absurd (h gap).symm different
    | cons d before' =>
      obtain ⟨rfl, -⟩ := List.cons.inj (h [])
      obtain ⟨rfl, rfl⟩ := ih fun gap => (List.cons.inj (h gap)).2
      exact ⟨rfl, rfl⟩

end Gaps

namespace Expr

/-- Where the subexpression at a position starts: the starts of the operands on the way there,
added up. -/
def startAt : Expr → Position → Nat
  | .binary _ l _, .left :: p => leftStart + l.startAt p
  | .binary op l r, .right :: p => rightStart op l + r.startAt p
  | .call f a, .argument :: p => argumentStart f + a.startAt p
  | _, _ => 0

/-- What stands before and after a position: whatever expression is put there, its text stands
between the two. -/
def Around (e : Expr) (p : Position) (before after : String) : Prop :=
  ∀ t : Expr, (e.replaceAt p t).render = before ++ t.render ++ after

@[simp] theorem startAt_nil (e : Expr) : e.startAt [] = 0 := by
  cases e <;> rfl

variable {e t : Expr} {p : Position}

/-- The span of a position below another one is its span in the subexpression there, as far right as
the subexpression. -/
theorem spanAt_append (h : e.subexpr? p = some t) (q : Position) :
    e.spanAt (p ++ q) = (t.spanAt q).shift (e.startAt p) := by
  fun_induction subexpr? e p with
  | case1 e =>
    obtain rfl : e = t := by simpa using h
    rw [List.nil_append, startAt_nil, Span.shift_zero]
  | case2 op l r p ih =>
    rw [List.cons_append, spanAt_left, ih h, Span.shift_shift, startAt, Nat.add_comm]
  | case3 op l r p ih =>
    rw [List.cons_append, spanAt_right, ih h, Span.shift_shift, startAt, Nat.add_comm]
  | case4 f a p ih =>
    rw [List.cons_append, spanAt_argument, ih h, Span.shift_shift, startAt, Nat.add_comm]
  | case5 => simp at h

/-- A subexpression takes up as many bytes as its length, from where it starts. -/
theorem spanAt_of_subexpr? (h : e.subexpr? p = some t) :
    e.spanAt p = .ofLength (e.startAt p) t.length := by
  have moved := spanAt_append h []
  rw [List.append_nil, spanAt_nil] at moved
  rw [moved, span, Span.shift_ofLength, Nat.zero_add]

/-- Other expressions have their text where that of the subexpression was. -/
theorem around_text (h : e.subexpr? p = some t) :
    e.Around p (e.textBefore p) (e.textAfter p) := by
  intro u
  fun_induction subexpr? e p with
  | case1 e => simp
  | case2 op l r p ih => simp [replaceAt, render, textBefore, textAfter, ih h, String.append_assoc]
  | case3 op l r p ih => simp [replaceAt, render, textBefore, textAfter, ih h, String.append_assoc]
  | case4 f a p ih => simp [replaceAt, render, textBefore, textAfter, ih h, String.append_assoc]
  | case5 => simp at h

/-- There is one way to cut a text around a position. -/
theorem Around.unique {before after before' after' : String} (h : e.Around p before after)
    (h' : e.Around p before' after') : before = before' ∧ after = after' := by
  have gaps : ∀ gap : List Char, before.toList ++ gap ++ after.toList =
      before'.toList ++ gap ++ after'.toList := by
    intro gap
    -- A leaf can have any text.
    let leaf := var ⟨String.ofList gap, 0⟩
    have same := (h leaf).symm.trans (h' leaf)
    simpa [leaf, render, String.toList_append] using congrArg String.toList same
  obtain ⟨hbefore, hafter⟩ := eq_of_forall_gap gaps
  exact ⟨String.toList_inj.1 hbefore, String.toList_inj.1 hafter⟩

theorem around_iff (h : e.subexpr? p = some t) {before after : String} :
    e.Around p before after ↔ before = e.textBefore p ∧ after = e.textAfter p := by
  constructor
  · intro around
    exact around.unique (around_text h)
  · rintro ⟨rfl, rfl⟩
    exact around_text h

/-- **Lengths and starts.** The length of an expression is the number of bytes of its text. For
every path to a subexpression, the text is what stands before that position, the text of the
subexpression, and what stands after it; the starts on the way add up to the number of bytes
before, and the bytes from there, as many as the subexpression is long, are its text. -/
theorem startAt_and_length_locate_text (e : Expr) :
    e.length = e.render.utf8ByteSize ∧
    ∀ p t, e.subexpr? p = some t →
      ∃ before after, e.render = before ++ t.render ++ after ∧
        (∀ before' after', e.Around p before' after' ↔ before' = before ∧ after' = after) ∧
        e.startAt p = before.utf8ByteSize ∧
        (Span.ofLength (e.startAt p) t.length).bytes e.render = t.render.toByteArray := by
  refine ⟨(length_render e).symm, fun p t h => ?_⟩
  have span := spanAt_of_subexpr? h
  refine ⟨e.textBefore p, e.textAfter p, render_eq_append h, fun _ _ => around_iff h, ?_, ?_⟩
  · exact congrArg Span.start span.symm
  · rw [← span]
    exact bytes_spanAt h

/-- The difference in `((é - ) / ln((é - )))` stands there twice, and has a leaf without a name. The
second one starts at byte 14. -/
theorem startAt_and_length_locate_text_of_twins :
    let twin := var ⟨"é", 0⟩ - var ⟨"", 1⟩
    let e := twin / call .ln twin
    e.render = "((é - ) / ln((é - )))" ∧ e.render.utf8ByteSize = 23 ∧
      e.subexpr? [.right, .argument] = some twin ∧
      (∃ before after, e.Around [.right, .argument] before after ∧ before.utf8ByteSize = 14) ∧
      (Span.ofLength 14 7).bytes e.render = "(é - )".toByteArray := by
  intro twin e
  obtain ⟨length, located⟩ := startAt_and_length_locate_text e
  have operand : e.subexpr? [.right, .argument] = some twin := rfl
  obtain ⟨before, after, -, around, start, bytes⟩ := located _ _ operand
  have byte14 : e.startAt [.right, .argument] = 14 := by decide
  exact ⟨by decide, length.symm.trans (by decide), operand,
    ⟨before, after, (around _ _).2 ⟨rfl, rfl⟩, start.symm.trans byte14⟩, byte14 ▸ bytes⟩

end Expr

end Calculus
