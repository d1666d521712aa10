import Calculus.Proofs.Registry.Runs
import Calculus.Proofs.Text.OneEdit

/-!
# Suggestions for unknown names

A lookup that fails suggests the known names at a distance below two. A name that is known is never
looked up in vain, so a distance of zero does not occur, and what is suggested is one edit away
(`mem_neighbours_iff`). Sorting makes the suggestions independent of the order in which the
candidates are gone through (`neighbours_perm`), and since no name is bound twice they increase
strictly.
-/

namespace Calculus

open Text

namespace Constant

variable {name candidate : String} {candidates : List String}

theorem neighbours_perm_filter (name : String) (candidates : List String) :
    (neighbours name candidates).Perm
      (candidates.filter fun candidate =>
        decide (editDistance candidate.toList name.toList < 2)) :=
  List.mergeSort_perm _ _

theorem pairwise_le_neighbours (name : String) (candidates : List String) :
    (neighbours name candidates).Pairwise (· ≤ ·) := by
  have trans (a b c : String) (hab : decide (a ≤ b) = true) (hbc : decide (b ≤ c) = true) :
      decide (a ≤ c) = true :=
    decide_eq_true (String.le_trans (of_decide_eq_true hab) (of_decide_eq_true hbc))
  have total (a b : String) : (decide (a ≤ b) || decide (b ≤ a)) = true := by
    simpa using String.le_total a b
  exact (List.pairwise_mergeSort trans total _).imp of_decide_eq_true

/-- The order of the candidates does not matter. -/
theorem neighbours_perm {candidates' : List String} (h : candidates.Perm candidates') :
    neighbours name candidates = neighbours name candidates' := by
  refine List.Perm.eq_of_pairwise (fun a b _ _ => String.le_antisymm)
    (pairwise_le_neighbours name candidates) (pairwise_le_neighbours name candidates') ?_
  exact (neighbours_perm_filter name candidates).trans
    ((h.filter _).trans (neighbours_perm_filter name candidates').symm)

/-- Candidates that differ from each other increase strictly. -/
theorem pairwise_lt_neighbours (distinct : candidates.Nodup) :
    (neighbours name candidates).Pairwise (· < ·) := by
  have nodup : (neighbours name candidates).Nodup :=
    (neighbours_perm_filter name candidates).nodup_iff.2 (distinct.filter _)
  exact ((pairwise_le_neighbours name candidates).and nodup).imp fun h =>
    String.not_le.1 fun back => h.2 (String.le_antisymm h.1 back)

/-- What is suggested for a name that is not a candidate is one edit away from it. -/
theorem mem_neighbours_iff (unknown : name ∉ candidates) :
    candidate ∈ neighbours name candidates ↔
      candidate ∈ candidates ∧ OneEdit name.toList candidate.toList := by
  rw [(neighbours_perm_filter name candidates).mem_iff, List.mem_filter, decide_eq_true_eq,
    editDistance_lt_two_iff]
  refine and_congr_right fun known => ?_
  have other : candidate.toList ≠ name.toList := fun same =>
    unknown (String.toList_injective same ▸ known)
  rw [or_iff_right other]
  exact ⟨OneEdit.symm, OneEdit.symm⟩

end Constant

/-- The answer for a name where others are known: an error about the whole name, which suggests, in
code-point order and each once, the known names that one edit of the name leads to. -/
def IsUnknown (known : String → Prop) (name : String) (answer : Except (Error Float) Constant) :
    Prop :=
  ∃ suggestions : List String,
    answer = .error ⟨[⟨0, name.utf8ByteSize⟩], .unknownConstant name suggestions⟩ ∧
      (∀ other, other ∈ suggestions ↔ known other ∧ OneEdit name.toList other.toList) ∧
      suggestions.Pairwise (· < ·)

/-- The list holds the known names, each once and in any order. -/
structure Enumerates (order : List String) (known : String → Prop) : Prop where
  nodup : order.Nodup
  mem (name : String) : name ∈ order ↔ known name

section Enumerates

variable {known : String → Prop} {order order' : List String} {name : String}

theorem isUnknown_notFound (h : Enumerates order known) (unknown : ¬ known name) :
    IsUnknown known name (.error (Constant.notFound name order)) := by
  have missing : name ∉ order := mt (h.mem name).1 unknown
  refine ⟨Constant.neighbours name order, ?_, fun other => ?_,
    Constant.pairwise_lt_neighbours h.nodup⟩
  · rw [Constant.notFound, Span.ofLength, Nat.zero_add]
  · rw [Constant.mem_neighbours_iff missing, h.mem]

/-- Two ways to go through the known names lead to the same error. -/
theorem notFound_of_enumerates (h : Enumerates order known) (h' : Enumerates order' known) :
    Constant.notFound name order = Constant.notFound name order' := by
  have perm : order.Perm order' := (List.perm_ext_iff_of_nodup h.nodup h'.nodup).2 fun other =>
    (h.mem other).trans (h'.mem other).symm
  rw [Constant.notFound, Constant.neighbours_perm perm, Constant.notFound]

end Enumerates

namespace Registry

theorem enumerates_names (r : Registry) : Enumerates r.names fun name => r.contains name where
  nodup := Std.TreeMap.nodup_keys
  mem _ := Std.TreeMap.mem_keys.trans Std.TreeMap.mem_iff_contains

theorem enumerates_reservedNames :
    Enumerates Constant.reservedNames (· ∈ Constant.reservedNames) where
  nodup := by decide
  mem _ := .rfl

theorem get_of_not_contains {r : Registry} {name : String} (h : ¬ r.contains name) :
    r.get name = .error (Constant.notFound name r.names) := by
  rw [contains, Std.TreeMap.contains_eq_isSome_getElem?, Option.not_isSome_iff_eq_none] at h
  rw [get, h]

theorem lookup_of_not_reserved {name : String} (h : name ∉ Constant.reservedNames) :
    Constant.lookup name = .error (Constant.notFound name Constant.reservedNames) := by
  rw [Constant.lookup, Constant.reserved?_eq_none_iff.2 h]
  rfl

/-- **Suggestions are the names one edit away.** After any run of requests, a name that is not bound
is answered with an error about the whole name. It suggests the bound names that are reached
from the name by inserting, deleting or replacing one character, strictly increasing in
code-point order; and it is the same in whichever order the bound names are gone through. The
same holds among the reserved constants of a name that is not reserved. -/
theorem lookups_suggest_one_edit_neighbours :
    (∀ (requests : List Request) (name : String), ¬ (run requests).contains name →
      IsUnknown (fun other => (run requests).contains other) name ((run requests).get name) ∧
        ∀ order, Enumerates order (fun other => (run requests).contains other) →
          (run requests).get name = .error (Constant.notFound name order)) ∧
    (∀ name, name ∉ Constant.reservedNames →
      IsUnknown (· ∈ Constant.reservedNames) name (Constant.lookup name) ∧
        ∀ order, Enumerates order (· ∈ Constant.reservedNames) →
          Constant.lookup name = .error (Constant.notFound name order)) := by
  constructor
  · intro requests name unknown
    rw [get_of_not_contains unknown]
    refine ⟨isUnknown_notFound (enumerates_names _) unknown, fun order h => ?_⟩
    rw [notFound_of_enumerates (enumerates_names _) h]
  · intro name unknown
    rw [lookup_of_not_reserved unknown]
    refine ⟨isUnknown_notFound enumerates_reservedNames unknown, fun order h => ?_⟩
    rw [notFound_of_enumerates enumerates_reservedNames h]

/-- A letter typed twice finds the name with one. -/
theorem lookups_suggest_one_edit_neighbours_of_letter :
    ¬ (run [.insert "g" 9.81]).contains "gg" ∧
      ∃ suggestions, (run [.insert "g" 9.81]).get "gg" =
        .error ⟨[⟨0, 2⟩], .unknownConstant "gg" suggestions⟩ ∧ "g" ∈ suggestions := by
  have unknown : ¬ (run [.insert "g" 9.81]).contains "gg" := by
    rw [contains_run]
    decide
  have known : (run [.insert "g" 9.81]).contains "g" := by
    rw [contains_run]
    decide
  obtain ⟨suggestions, answer, exactly, -⟩ :=
    (lookups_suggest_one_edit_neighbours.1 _ "gg" unknown).1
  exact ⟨unknown, suggestions, answer, (exactly "g").2 ⟨known, .delete ['g'] 'g' []⟩⟩

end Registry

end Calculus
