import Calculus.Proofs.Position

/-!
# Renderings are unambiguous

Expressions whose leaf names have no parentheses and no blanks in them are rendered alike exactly if
they have the same form: the same shape, operators and functions, and the same leaf names, position
by position. A leaf may have an empty name, or be called like an operator or a function.

Parentheses and blanks are the delimiters of a rendering. Between them stand words without
delimiters: leaf names, operators, names of functions, and an empty one before an opening
parenthesis. A text splits in one way into a word and what follows it, if that starts with a
delimiter (`eq_of_word_append`). The delimiter tells a leaf, which is followed by a closing
parenthesis, a blank or nothing, from a node or a call, which go on with an opening parenthesis.

So a rendering can be read from the left, and it is known where it ends: even if other texts follow
two renderings, these are those of expressions of the same form, provided that the texts start like
something that can follow a rendering (`sameForm_of_append`). No parser is needed to say so.
-/

namespace Calculus

section Words

/-- The characters that structure a rendering. -/
def Delimiter (c : Char) : Prop :=
  c = '(' ∨ c = ')' ∨ c = ' '

instance : DecidablePred Delimiter := fun c =>
  inferInstanceAs (Decidable (c = '(' ∨ c = ')' ∨ c = ' '))

/-- A text without delimiters. -/
def Word (text : List Char) : Prop :=
  ∀ c ∈ text, ¬ Delimiter c

instance : DecidablePred Word :=
  List.decidableBAll fun c => ¬ Delimiter c

/-- A text that a word can stand before: it is empty or starts with a delimiter. -/
def Delimited (text : List Char) : Prop :=
  ∀ c ∈ text.head?, Delimiter c

/-- A text that a rendering can stand before: it is empty or starts with a closing parenthesis or a
blank. -/
def Closing (text : List Char) : Prop :=
  ∀ c ∈ text.head?, c = ')' ∨ c = ' '

theorem Closing.delimited {text : List Char} (h : Closing text) : Delimited text :=
  fun c hc => .inr (h c hc)

theorem delimited_open (text : List Char) : Delimited ('(' :: text) := by
  simp [Delimited, Delimiter]

theorem not_closing_open (text : List Char) : ¬ Closing ('(' :: text) := by
  simp [Closing]

theorem closing_nil : Closing [] := by
  simp [Closing]

theorem closing_close (text : List Char) : Closing (')' :: text) := by
  simp [Closing]

theorem closing_blank (text : List Char) : Closing (' ' :: text) := by
  simp [Closing]

/-- A word that does not end where a text is delimited has a delimiter in it. -/
theorem not_word_of_delimited {s word t : List Char} {c : Char} (hs : Delimited s)
    (h : s = c :: word ++ t) : ¬ Word (c :: word) := by
  subst h
  exact fun hw => hw c List.mem_cons_self (hs c rfl)

/-- A text splits in one way into a word and something delimited. -/
theorem eq_of_word_append {u v s t : List Char} (hu : Word u) (hv : Word v) (hs : Delimited s)
    (ht : Delimited t) (h : u ++ s = v ++ t) : u = v ∧ s = t := by
  induction u generalizing v with
  | nil =>
    cases v with
    | nil => exact ⟨rfl, h⟩
    | cons d v => exact absurd hv (not_word_of_delimited hs h)
  | cons c u ih =>
    cases v with
    | nil => exact absurd hu (not_word_of_delimited ht h.symm)
    | cons d v =>
      obtain ⟨rfl, rest⟩ := List.cons.inj h
      have hu' : Word u := fun c hc => hu c (List.mem_cons_of_mem _ hc)
      have hv' : Word v := fun c hc => hv c (List.mem_cons_of_mem _ hc)
      obtain ⟨rfl, tails⟩ := ih hu' hv' rest
      exact ⟨rfl, tails⟩

theorem word_nil : Word [] := by
  simp [Word]

theorem BinOp.word_symbol (op : BinOp) : Word op.symbol.toList := by
  cases op <;> decide

theorem BinOp.eq_of_symbol {op op' : BinOp} (h : op.symbol.toList = op'.symbol.toList) :
    op = op' := by
  revert h
  cases op <;> cases op' <;> decide

theorem Func.word_name (f : Func) : Word f.name.toList := by
  cases f <;> decide

theorem Func.name_ne_nil (f : Func) : f.name.toList ≠ [] := by
  cases f <;> decide

theorem Func.eq_of_name {f f' : Func} (h : f.name.toList = f'.name.toList) : f = f' := by
  revert h
  cases f <;> cases f' <;> decide

end Words

namespace Expr

/-- The name at a leaf, of a constant or of a variable. -/
def leafName? : Expr → Option String
  | .const c => some c.name
  | .var v => some v.name
  | .binary _ _ _ => none
  | .call _ _ => none

/-- The same shape, the same operators and functions, and the same leaf names, position by position.
Constants and variables are not told apart, nor are values. -/
inductive SameForm : Expr → Expr → Prop where
  | leaf {a b : Expr} {name : String} (ha : a.leafName? = some name)
    (hb : b.leafName? = some name) : SameForm a b
  | binary (op : BinOp) {l l' r r' : Expr} (hl : SameForm l l') (hr : SameForm r r') :
    SameForm (.binary op l r) (.binary op l' r')
  | call (f : Func) {u u' : Expr} (hu : SameForm u u') : SameForm (.call f u) (.call f u')

/-- Every leaf name is a word. -/
def PlainNames (e : Expr) : Prop :=
  e.Everywhere fun t => ∀ name ∈ t.leafName?, Word name.toList

instance : DecidablePred PlainNames := fun e =>
  inferInstanceAs (Decidable (e.Everywhere fun t => ∀ name ∈ t.leafName?, Word name.toList))

theorem PlainNames.word {e : Expr} {name : String} (h : e.PlainNames)
    (leaf : e.leafName? = some name) : Word name.toList :=
  Everywhere.self h name leaf

theorem PlainNames.operands {op : BinOp} {l r : Expr} (h : (binary op l r).PlainNames) :
    l.PlainNames ∧ r.PlainNames :=
  (everywhere_binary.1 h).2

theorem PlainNames.operand {f : Func} {u : Expr} (h : (call f u).PlainNames) : u.PlainNames :=
  (everywhere_call.1 h).2

theorem SameForm.symm {a b : Expr} (h : a.SameForm b) : b.SameForm a := by
  induction h with
  | leaf ha hb => exact .leaf hb ha
  | binary op _ _ ihl ihr => exact .binary op ihl ihr
  | call f _ ih => exact .call f ih

/-- A leaf is rendered by its name. -/
theorem render_of_leafName? {e : Expr} {name : String} (h : e.leafName? = some name) :
    e.render = name := by
  cases e with
  | const c | var v => exact Option.some.inj h
  | binary op l r | call f u => cases h

/-- Expressions of the same form are rendered alike. -/
theorem SameForm.render_eq {a b : Expr} (h : a.SameForm b) : a.render = b.render := by
  induction h with
  | leaf ha hb => rw [render_of_leafName? ha, render_of_leafName? hb]
  | binary op _ _ ihl ihr => simp only [render, ihl, ihr]
  | call f _ ih => simp only [render, ih]

theorem SameForm.length_eq {a b : Expr} (h : a.SameForm b) : a.length = b.length := by
  rw [← length_render, ← length_render, h.render_eq]

/-- There is nothing below a leaf, in its text either. -/
theorem spanAt_of_leafName? {e : Expr} {name : String} (h : e.leafName? = some name) (b : Branch)
    (p : Position) : e.spanAt (b :: p) = .ofLength 0 0 := by
  cases e with
  | const c => cases b <;> rfl
  | var v => cases b <;> rfl
  | binary op l r => cases h
  | call f u => cases h

/-- A position has the same span in all expressions of the same form. -/
theorem SameForm.spanAt_eq {a b : Expr} (h : a.SameForm b) (p : Position) :
    a.spanAt p = b.spanAt p := by
  cases p with
  | nil => rw [spanAt_nil, spanAt_nil, span, span, h.length_eq]
  | cons branch p =>
    cases h with
    | leaf ha hb => rw [spanAt_of_leafName? ha, spanAt_of_leafName? hb]
    | binary op hl hr =>
      cases branch with
      | left => rw [spanAt_left, spanAt_left, hl.spanAt_eq]
      | right => rw [spanAt_right, spanAt_right, hr.spanAt_eq, rightStart, rightStart, hl.length_eq]
      | argument => rfl
    | call f hu =>
      cases branch with
      | argument => rw [spanAt_argument, spanAt_argument, hu.spanAt_eq]
      | left | right => rfl

section Texts

variable {a b : Expr} {s t : List Char}

/-- The characters of a node, and what follows them. -/
theorem toList_render_binary (op : BinOp) (l r : Expr) (s : List Char) :
    (binary op l r).render.toList ++ s =
      '(' :: (l.render.toList ++ ' ' :: (op.symbol.toList ++
        ' ' :: (r.render.toList ++ ')' :: s))) := by
  simp [render, String.toList_append]

/-- The characters of a call, and what follows them. -/
theorem toList_render_call (f : Func) (u : Expr) (s : List Char) :
    (call f u).render.toList ++ s = f.name.toList ++ '(' :: (u.render.toList ++ ')' :: s) := by
  simp [render, String.toList_append]

/-- Only a leaf of the same name starts like a leaf. -/
theorem sameForm_of_leaf {name : String} (leaf : a.leafName? = some name) (ha : a.PlainNames)
    (hb : b.PlainNames) (hs : Closing s) (ht : Closing t)
    (h : a.render.toList ++ s = b.render.toList ++ t) : a.SameForm b ∧ s = t := by
  have word := ha.word leaf
  rw [render_of_leafName? leaf] at h
  cases other : b.leafName? with
  | some name' =>
    rw [render_of_leafName? other] at h
    obtain ⟨names, tails⟩ :=
      eq_of_word_append word (hb.word other) hs.delimited ht.delimited h
    obtain rfl := String.toList_inj.1 names
    exact ⟨.leaf leaf other, tails⟩
  | none =>
    -- A node or a call goes on with an opening parenthesis, where the leaf has ended.
    exfalso
    cases b with
    | const c | var v => cases other
    | binary op l r =>
      rw [toList_render_binary] at h
      obtain ⟨-, rfl⟩ := eq_of_word_append word word_nil hs.delimited (delimited_open _) h
      exact not_closing_open _ hs
    | call f u =>
      rw [toList_render_call] at h
      obtain ⟨-, rfl⟩ := eq_of_word_append word f.word_name hs.delimited (delimited_open _) h
      exact not_closing_open _ hs

/-- A node does not start like a call. -/
theorem render_binary_ne_call (op : BinOp) (l r : Expr) (f : Func) (u : Expr) :
    (binary op l r).render.toList ++ s ≠ (call f u).render.toList ++ t := by
  intro h
  rw [toList_render_binary, toList_render_call] at h
  obtain ⟨empty, -⟩ :=
    eq_of_word_append word_nil f.word_name (delimited_open _) (delimited_open _) h
  exact f.name_ne_nil empty.symm

/-- Two renderings that are followed by something closing are those of expressions of the same form,
and the same follows them. -/
theorem sameForm_of_append (ha : a.PlainNames) (hb : b.PlainNames) (hs : Closing s)
    (ht : Closing t) (h : a.render.toList ++ s = b.render.toList ++ t) :
    a.SameForm b ∧ s = t := by
  -- What follows an operand differs from what follows the node, so `s` and `t` vary.
  induction a generalizing b s t with
  | const c => exact sameForm_of_leaf rfl ha hb hs ht h
  | var v => exact sameForm_of_leaf rfl ha hb hs ht h
  | binary op l r ihl ihr =>
    cases b with
    | const c | var v =>
      obtain ⟨form, tails⟩ := sameForm_of_leaf rfl hb ha ht hs h.symm
      exact ⟨form.symm, tails.symm⟩
    | call f u => exact absurd h (render_binary_ne_call op l r f u)
    | binary op' l' r' =>
      obtain ⟨plainL, plainR⟩ := ha.operands
      obtain ⟨plainL', plainR'⟩ := hb.operands
      rw [toList_render_binary, toList_render_binary] at h
      obtain ⟨left, afterLeft⟩ :=
        ihl plainL plainL' (closing_blank _) (closing_blank _) (List.cons.inj h).2
      obtain ⟨symbols, afterSymbol⟩ := eq_of_word_append op.word_symbol op'.word_symbol
        (closing_blank _).delimited (closing_blank _).delimited (List.cons.inj afterLeft).2
      obtain ⟨right, afterRight⟩ :=
        ihr plainR plainR' (closing_close _) (closing_close _) (List.cons.inj afterSymbol).2
      obtain rfl := BinOp.eq_of_symbol symbols
      exact ⟨.binary op left right, (List.cons.inj afterRight).2⟩
  | call f u ih =>
    cases b with
    | const c | var v =>
      obtain ⟨form, tails⟩ := sameForm_of_leaf rfl hb ha ht hs h.symm
      exact ⟨form.symm, tails.symm⟩
    | binary op l r => exact absurd h.symm (render_binary_ne_call op l r f u)
    | call f' u' =>
      rw [toList_render_call, toList_render_call] at h
      obtain ⟨names, afterName⟩ :=
        eq_of_word_append f.word_name f'.word_name (delimited_open _) (delimited_open _) h
      obtain ⟨operand, afterOperand⟩ :=
        ih ha.operand hb.operand (closing_close _) (closing_close _) (List.cons.inj afterName).2
      obtain rfl := Func.eq_of_name names
      exact ⟨.call f operand, (List.cons.inj afterOperand).2⟩

end Texts

/-- **Renderings are unambiguous.** Expressions whose leaf names have no parentheses and no blanks
in them have the same text exactly if they have the same form. -/
theorem render_eq_iff_sameForm (a b : Expr) (ha : a.PlainNames) (hb : b.PlainNames) :
    a.render = b.render ↔ a.SameForm b := by
  constructor
  · intro h
    exact (sameForm_of_append ha hb closing_nil closing_nil (by rw [h])).1
  · exact SameForm.render_eq

/-- `(ln + ln((+ - )))` with a constant called `ln`, a variable called `+` and a leaf without a
name, which is a variable in one expression and a constant in the other. -/
theorem render_eq_iff_sameForm_of_odd_names :
    let a := const ⟨"ln", 2.0⟩ + call .ln (var ⟨"+", 0⟩ - var ⟨"", 1⟩)
    let b := const ⟨"ln", 3.0⟩ + call .ln (var ⟨"+", 0⟩ - const ⟨"", 0.0⟩)
    a.PlainNames ∧ b.PlainNames ∧ a.render = "(ln + ln((+ - )))" ∧ a.render = b.render ∧
      (a.render = b.render ↔ a.SameForm b) := by
  intro a b
  have plainA : a.PlainNames := by decide
  have plainB : b.PlainNames := by decide
  exact ⟨plainA, plainB, by decide, by decide, render_eq_iff_sameForm a b plainA plainB⟩

/-- A name with parentheses and blanks can look like a node. -/
example : (var ⟨"(x + y)", 0⟩).render = (var ⟨"x", 1⟩ + var ⟨"y", 2⟩).render := by decide

end Expr

end Calculus
