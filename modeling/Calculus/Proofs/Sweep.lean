import Calculus.Sweep
import Calculus.Proofs.Double.Monotone

/-!
# The points of a sweep

Reading arguments gives a finite start, a finite end and a finite positive step, whatever the
arguments are (`sound_ofArguments`). The points of such a sweep never decrease: the index, its
product with the step and the sum with the start are each rounded, and each of the three grows with
the one before (`Sound.point_le`). They may stay where they are, when a product is too small to move
the start, and they may become infinite. So the points below the end are the first ones, and to stop
at the first point that is not below it loses none.
-/

namespace Calculus.Sweep

open Double

/-- What a sweep needs for its points to be numbers that do not decrease. -/
structure Sound (sweep : Sweep) : Prop where
  start : sweep.start.isFinite
  stop : sweep.stop.isFinite
  step : sweep.step.isFinite
  positive : 0.0 < sweep.step

section Arguments

/-- An argument that is not a finite number is replaced. -/
theorem isFinite_readField (field : String) {fallback : Float} (h : fallback.isFinite)
    (argument : Option String) : (readField field fallback argument).1.isFinite := by
  unfold readField
  split
  · exact h
  · split
    · split
      · next finite => exact finite
      · exact h
    · exact h

theorem sound_standard : Sound standard :=
  ⟨rfl, rfl, rfl, by decide⟩

theorem sound_ofArguments (arguments : List String) : Sound (ofArguments arguments).1 := by
  have start := isFinite_readField "start" sound_standard.start arguments[0]?
  have stop := isFinite_readField "end" sound_standard.stop arguments[1]?
  have step := isFinite_readField "step" sound_standard.step arguments[2]?
  unfold ofArguments
  simp only
  split
  · exact ⟨start, stop, sound_standard.step, sound_standard.positive⟩
  · next positive =>
    exact ⟨start, stop, step, lt_of_not_le rfl (isNaN_of_isFinite step) positive⟩

end Arguments

section Points

variable {sweep : Sweep}

/-- Later points are not smaller, as long as their indices are exact. -/
theorem Sound.point_le (h : Sound sweep) {i j : ℕ} (le : i ≤ j) (small : j < 2 ^ 53) :
    sweep.point i ≤ sweep.point j := by
  have index : Float.ofNat i ≤ Float.ofNat j := ofNat_le_ofNat le small
  have product : Float.ofNat i * sweep.step ≤ Float.ofNat j * sweep.step :=
    mul_le_mul (isFinite_ofNat (by omega)) (isFinite_ofNat small) h.step (le_of_lt h.positive) index
  exact add_le_add h.start product

/-- If a property is lost for good when it fails, taking while it holds is taking what has it. -/
theorem takeWhile_eq_filter {α : Type} {p : α → Bool} {l : List α}
    (h : l.Pairwise fun a b => p b = true → p a = true) : l.takeWhile p = l.filter p := by
  induction l with
  | nil => rfl
  | cons a l ih =>
    obtain ⟨head, tail⟩ := List.pairwise_cons.1 h
    cases ha : p a with
    | true => rw [List.takeWhile_cons_of_pos ha, List.filter_cons_of_pos ha, ih tail]
    | false =>
      have lost : l.filter p = [] := List.filter_eq_nil_iff.2 fun b hb hp => by
        rw [head b hb hp] at ha
        cases ha
      rw [List.takeWhile_cons_of_neg (by simp [ha]), List.filter_cons_of_neg (by simp [ha]), lost]

/-- No point below the end comes after one that is not. -/
theorem Sound.points_eq (h : Sound sweep) :
    sweep.points =
      ((List.range maxPoints).filter fun i => sweep.point i < sweep.stop).map sweep.point := by
  have increasing : ((List.range maxPoints).map sweep.point).Pairwise fun x y =>
      decide (y < sweep.stop) = true → decide (x < sweep.stop) = true := by
    rw [List.pairwise_map]
    refine List.pairwise_lt_range.imp_of_mem fun {i j} _ hj lt below => ?_
    have bound : j < 10000 := List.mem_range.1 hj
    have le := h.point_le lt.le (by omega)
    exact decide_eq_true (lt_of_le_of_lt le (of_decide_eq_true below))
  rw [points, takeWhile_eq_filter increasing, List.filter_map]
  rfl

end Points

/-- **The points of a sweep.** Every command line gives a finite start, a finite end and a finite
positive step, and the points of the sweep are all the values `start + i · step` below the end,
among the first ten thousand and in their order. These values are numbers and never decrease. -/
theorem points_of_arguments_complete (arguments : List String) :
    ∃ start stop step : Float, (ofArguments arguments).1 = ⟨start, stop, step⟩ ∧
      (start.isFinite ∧ stop.isFinite ∧ step.isFinite ∧ 0.0 < step) ∧
      (ofArguments arguments).1.points =
        ((List.range 10000).filter fun i => start + Float.ofNat i * step < stop).map
          (fun i => start + Float.ofNat i * step) ∧
      (∀ i < 10000, (start + Float.ofNat i * step).isNaN = false) ∧
      ∀ i j, i ≤ j → j < 10000 →
        start + Float.ofNat i * step ≤ start + Float.ofNat j * step := by
  have sound := sound_ofArguments arguments
  generalize (ofArguments arguments).1 = sweep at sound ⊢
  have nondecreasing {i j : ℕ} (le : i ≤ j) (bound : j < 10000) : sweep.point i ≤ sweep.point j :=
    sound.point_le le (by omega)
  refine ⟨sweep.start, sweep.stop, sweep.step, rfl,
    ⟨sound.start, sound.stop, sound.step, sound.positive⟩, sound.points_eq, ?_, ?_⟩
  · intro i bound
    exact (le_iff.1 (nondecreasing le_rfl bound)).1
  · intro i j le bound
    exact nondecreasing le bound

end Calculus.Sweep
