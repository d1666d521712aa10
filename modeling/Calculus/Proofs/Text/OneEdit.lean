import Mathlib.Tactic.Tauto
import Calculus.Text.EditDistance

/-!
# Words one edit apart

The edit distance is computed row by row; what it computes is the least cost by the first
characters: delete one, insert one, or replace one by the other, for nothing if they are the same
(`editDistance_cons_cons`). This recurrence is all that is used of the rows.

A distance below two leaves no choice in how to spend it. Either the words are equal, or they agree
up to one place, where a character was inserted, deleted or replaced, and agree again after it
(`OneEdit`). Both sides of this are compared by their first characters, so one induction over the
two words is enough (`editDistance_lt_two_iff`).
-/

namespace Calculus.Text

section Recurrence

/-- The row of a word: its distances to the suffixes of the target, the longest first. -/
def distances (s t : List Char) : List Nat :=
  s.foldr (fun c row => nextRow c t row) (firstRow t)

theorem distances_nil_right (s : List Char) : distances s [] = [s.length] := by
  induction s with
  | nil => rfl
  | cons c s ih =>
    have step : distances (c :: s) [] = (distances s []).map (· + 1) := rfl
    rw [step, ih, List.map_singleton, List.length_cons]

/-- A row goes on with the row of the shorter target. -/
theorem distances_cons_right (s : List Char) (d : Char) (t : List Char) :
    distances s (d :: t) = editDistance s (d :: t) :: distances s t := by
  induction s with
  | nil => rfl
  | cons c s ih =>
    have step : distances (c :: s) (d :: t) = nextRow c (d :: t) (distances s (d :: t)) := rfl
    have first : editDistance (c :: s) (d :: t) = (distances (c :: s) (d :: t)).headD 0 := rfl
    have shorter : distances (c :: s) t = nextRow c t (distances s t) := rfl
    rw [first, step, ih, shorter]
    rfl

@[simp] theorem editDistance_nil_left (t : List Char) : editDistance [] t = t.length := by
  cases t <;> rfl

@[simp] theorem editDistance_nil_right (s : List Char) : editDistance s [] = s.length := by
  have first : editDistance s [] = (distances s []).headD 0 := rfl
  rw [first, distances_nil_right]
  rfl

/-- The distance of two words by their first characters. -/
theorem editDistance_cons_cons (c d : Char) (s t : List Char) :
    editDistance (c :: s) (d :: t) =
      min (min (editDistance s (d :: t) + 1) (editDistance (c :: s) t + 1))
        (editDistance s t + if c = d then 0 else 1) := by
  have first : editDistance (c :: s) (d :: t) =
      (nextRow c (d :: t) (distances s (d :: t))).headD 0 := rfl
  rw [first, distances_cons_right]
  rfl

end Recurrence

/-- One edit leads from the first word to the second. -/
inductive OneEdit : List Char → List Char → Prop where
  | insert (before : List Char) (c : Char) (after : List Char) :
    OneEdit (before ++ after) (before ++ c :: after)
  | delete (before : List Char) (c : Char) (after : List Char) :
    OneEdit (before ++ c :: after) (before ++ after)
  | replace (before : List Char) {c d : Char} (change : c ≠ d) (after : List Char) :
    OneEdit (before ++ c :: after) (before ++ d :: after)

section OneEdit

variable {c d : Char} {s t : List Char}

/-- An edit that leads back. -/
theorem OneEdit.symm (h : OneEdit s t) : OneEdit t s := by
  cases h with
  | insert before c after => exact .delete before c after
  | delete before c after => exact .insert before c after
  | replace before change after => exact .replace before change.symm after

theorem OneEdit.cons (c : Char) (h : OneEdit s t) : OneEdit (c :: s) (c :: t) := by
  cases h with
  | insert before e after => exact .insert (c :: before) e after
  | delete before e after => exact .delete (c :: before) e after
  | replace before change after => exact .replace (c :: before) change after

/-- From the empty word, one edit leads to the words of one character. -/
theorem oneEdit_nil_left : OneEdit [] t ↔ t.length = 1 := by
  constructor
  · intro h
    generalize hs : ([] : List Char) = s at h
    cases h with
    | insert before c after =>
      obtain ⟨rfl, rfl⟩ := List.append_eq_nil_iff.1 hs.symm
      rfl
    | delete | replace => simp at hs
  · intro h
    obtain ⟨c, rfl⟩ := List.length_eq_one_iff.1 h
    exact .insert [] c []

theorem oneEdit_nil_right : OneEdit s [] ↔ s.length = 1 :=
  ⟨fun h => oneEdit_nil_left.1 h.symm, fun h => (oneEdit_nil_left.2 h).symm⟩

/-- What an edit of a word does to its first character. -/
theorem OneEdit.first {s' t' : List Char} (h : OneEdit s' t') (hs : s' = c :: s)
    (ht : t' = d :: t) : s = d :: t ∨ c :: s = t ∨ if c = d then OneEdit s t else s = t := by
  cases h with
  | insert before e after =>
    cases before with
    | nil =>
      cases ht
      exact .inr (.inl hs.symm)
    | cons b before =>
      cases hs
      cases ht
      rw [if_pos rfl]
      exact .inr (.inr (.insert before e after))
  | delete before e after =>
    cases before with
    | nil =>
      cases hs
      exact .inl ht
    | cons b before =>
      cases hs
      cases ht
      rw [if_pos rfl]
      exact .inr (.inr (.delete before e after))
  | replace before change after =>
    cases before with
    | nil =>
      cases hs
      cases ht
      rw [if_neg change]
      exact .inr (.inr rfl)
    | cons b before =>
      cases hs
      cases ht
      rw [if_pos rfl]
      exact .inr (.inr (.replace before change after))

/-- One edit by the first characters: it concerns one of them, or it comes later. -/
theorem oneEdit_cons_cons :
    OneEdit (c :: s) (d :: t) ↔
      s = d :: t ∨ c :: s = t ∨ if c = d then OneEdit s t else s = t := by
  refine ⟨fun h => h.first rfl rfl, ?_⟩
  rintro (rfl | rfl | later)
  · exact .delete [] c (d :: t)
  · exact .insert [] d (c :: s)
  · split at later
    · next same => exact same ▸ later.cons c
    · next change => exact later ▸ .replace [] change s

end OneEdit

/-- Only equal words have no distance. -/
theorem editDistance_eq_zero_iff {s t : List Char} : editDistance s t = 0 ↔ s = t := by
  induction s generalizing t with
  | nil => simp [eq_comm]
  | cons c s ih =>
    cases t with
    | nil => simp
    | cons d t =>
      rw [editDistance_cons_cons, List.cons.injEq, ← ih]
      split
      · next same =>
        rw [and_iff_right same]
        omega
      · next change =>
        rw [iff_false_right (fun h => change h.1)]
        omega

/-- A distance below two is at most one edit. -/
theorem editDistance_lt_two_iff {s t : List Char} :
    editDistance s t < 2 ↔ s = t ∨ OneEdit s t := by
  induction s generalizing t with
  | nil =>
    rw [editDistance_nil_left, oneEdit_nil_left, eq_comm, ← List.length_eq_zero_iff]
    omega
  | cons c s ih =>
    cases t with
    | nil =>
      rw [editDistance_nil_right, oneEdit_nil_right, ← List.length_eq_zero_iff]
      omega
    | cons d t =>
      -- The last of the three costs is the only one that can leave an edit for later.
      have spent : editDistance (c :: s) (d :: t) < 2 ↔
          s = d :: t ∨ c :: s = t ∨ if c = d then editDistance s t < 2 else s = t := by
        rw [editDistance_cons_cons, ← editDistance_eq_zero_iff (s := s) (t := d :: t),
          ← editDistance_eq_zero_iff (s := c :: s) (t := t),
          ← editDistance_eq_zero_iff (s := s) (t := t)]
        split <;> omega
      rw [spent, oneEdit_cons_cons, List.cons.injEq, ih]
      split
      · tauto
      · tauto

end Calculus.Text
