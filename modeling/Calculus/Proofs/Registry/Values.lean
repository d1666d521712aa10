import Calculus.Proofs.Numeral.Text
import Calculus.Proofs.Registry.Runs

/-!
# Values in a registry

A registry binds texts, and whoever interns a value thinks of the value. The two do not part ways:
a text that is a numeral was bound by the library itself for `0`, `1` and `-1`, by an insertion, or
by a value that was interned; and since different doubles have different texts, such a value is the
one that is asked for (`eq_ofValue_of_bound?`). So unless an insertion has taken its text, a value
is answered with itself, bit by bit, whatever else happened in the run.
-/

namespace Calculus

/-- A constant that is called by the text of its value is the only one for its name. -/
theorem Constant.eq_ofValue_of_name {value : Float} {c : Constant}
    (numeral : Numeral.text c.value = c.name) (name : c.name = Numeral.text value) :
    c = ofValue value := by
  obtain rfl : c.value = value := Numeral.text_injective (numeral.trans name)
  rw [ofValue, ← name]

/-- A reserved constant whose name is the text of a value has that value. -/
theorem Constant.eq_ofValue_of_reserved? {value : Float} {c : Constant}
    (h : reserved? (Numeral.text value) = some c) : c = ofValue value := by
  have name : c.name = Numeral.text value := name_of_reserved? h
  have first : (Numeral.text value).toList.head? = c.name.toList.head? := by rw [name]
  have mem : c ∈ reserved := List.mem_of_find?_eq_some h
  simp only [reserved, List.mem_cons, List.not_mem_nil, or_false] at mem
  rcases mem with rfl | rfl | rfl | rfl | rfl
  · exact eq_ofValue_of_name Numeral.text_zero name
  · exact eq_ofValue_of_name Numeral.text_one name
  · exact eq_ofValue_of_name Numeral.text_minusOne name
  · exact absurd first (Numeral.head?_text_ne value (by decide) (by decide))
  · exact absurd first (Numeral.head?_text_ne value (by decide) (by decide))

namespace Registry

/-- No insertion of the run is under the text of the value. -/
def Untouched (value : Float) (requests : List Request) : Prop :=
  ∀ other, Request.insert (Numeral.text value) other ∉ requests

section Values

variable {value : Float} {requests : List Request}

theorem lastInserted?_of_untouched (h : Untouched value requests) :
    lastInserted? (Numeral.text value) requests = none := by
  rw [lastInserted?, List.findSome?_eq_none_iff]
  intro request hr
  cases request with
  | insert name other =>
    have elsewhere : name ≠ Numeral.text value := by
      rintro rfl
      exact h other (List.mem_reverse.1 hr)
    rw [Request.inserted?, if_neg elsewhere]
  | intern other => rfl

/-- A value that was interned under the text of another is that other. -/
theorem eq_of_firstInterned? {other : Float}
    (h : firstInterned? (Numeral.text value) requests = some other) : other = value := by
  obtain ⟨request, -, found⟩ := List.exists_of_findSome?_eq_some h
  cases request with
  | insert name v => cases found
  | intern v =>
    rw [Request.interned?, Option.ite_none_right_eq_some] at found
    obtain ⟨text, same⟩ := found
    obtain rfl := Option.some.inj same
    exact Numeral.text_injective text

/-- What is bound to the text of a value is the value, unless it was inserted. -/
theorem eq_ofValue_of_bound? (h : Untouched value requests) {c : Constant}
    (bound : bound? (Numeral.text value) requests = some c) : c = .ofValue value := by
  rw [bound?, Option.or_eq_some_iff] at bound
  rcases bound with reserved | ⟨-, given⟩
  · exact Constant.eq_ofValue_of_reserved? reserved
  · obtain ⟨other, found, rfl⟩ := Option.map_eq_some_iff.1 given
    rw [given?, lastInserted?_of_untouched h, Option.none_or] at found
    rw [eq_of_firstInterned? found]
    rfl

/-- A value that was not inserted is answered with itself. -/
theorem intern_fst_of_untouched (h : Untouched value requests) :
    ((run requests).intern value).1 = .ofValue value := by
  have entry : (run requests).entries[(Constant.ofValue value).name]? =
      bound? (Numeral.text value) requests := getElem?_run _ _
  rw [intern]
  simp only [entry]
  cases bound : bound? (Numeral.text value) requests with
  | none => rfl
  | some c => exact eq_ofValue_of_bound? h bound

/-- A value whose text is reserved is answered with the reserved constant, and nothing changes. -/
theorem intern_of_reserved {c : Constant} (reserved : c ∈ Constant.reserved)
    (text : Numeral.text value = c.name) (requests : List Request) :
    (run requests).intern value = (c, run requests) := by
  have entry : (run requests).entries[(Constant.ofValue value).name]? = some c := by
    rw [getElem?_run, bound?, Constant.ofValue, text, Constant.reserved?_of_mem reserved,
      Option.some_or]
  rw [intern]
  simp only [entry]

end Values

/-- **Interned values are never confused.** After any run of requests, a value whose text was not
inserted is answered with a constant that is called by its text and has its bits. Two such
values of different bits, the two zeros among them, are answered with constants of different
names, also one right after the other. And zero, one and minus one are answered with the
reserved constants, whatever was inserted, and change nothing. -/
theorem intern_run_tells_values_apart (requests : List Request) :
    (∀ value, Untouched value requests →
      ((run requests).intern value).1.name = Numeral.text value ∧
        ((run requests).intern value).1.value.toBits = value.toBits) ∧
    (∀ value other, Untouched value requests → Untouched other requests →
      value.toBits ≠ other.toBits →
        ((run requests).intern value).1.name ≠
          (((run requests).intern value).2.intern other).1.name) ∧
    (run requests).intern 0.0 = (.zero, run requests) ∧
    (run requests).intern 1.0 = (.one, run requests) ∧
    (run requests).intern (-1.0) = (.minusOne, run requests) := by
  refine ⟨fun value h => ?_, fun value other h h' different => ?_,
    intern_of_reserved (by simp [Constant.reserved]) Numeral.text_zero requests,
    intern_of_reserved (by simp [Constant.reserved]) Numeral.text_one requests,
    intern_of_reserved (by simp [Constant.reserved]) Numeral.text_minusOne requests⟩
  · rw [intern_fst_of_untouched h]
    exact ⟨rfl, rfl⟩
  · have later : Untouched other (requests ++ [.intern value]) := by
      intro v hv
      rcases List.mem_append.1 hv with before | last
      · exact h' v before
      · cases List.mem_singleton.1 last
    have next : ((run requests).intern value).2 = run (requests ++ [.intern value]) :=
      (run_snoc requests (.intern value)).symm
    rw [next, intern_fst_of_untouched h, intern_fst_of_untouched later]
    intro same
    exact different (congrArg Float.toBits (Numeral.text_injective same))

/-- The two zeros after an insertion under another numeral. -/
theorem intern_run_tells_values_apart_of_zeros :
    Untouched 0.0 [.insert "35.2" 1.0, .intern 35.2] ∧
      Untouched (-0.0) [.insert "35.2" 1.0, .intern 35.2] ∧
      ((run [.insert "35.2" 1.0, .intern 35.2]).intern 0.0).1.name ≠
        (((run [.insert "35.2" 1.0, .intern 35.2]).intern 0.0).2.intern (-0.0)).1.name := by
  have plus : Untouched 0.0 [.insert "35.2" 1.0, .intern 35.2] := by
    intro other h
    have text : Numeral.text 0.0 ≠ "35.2" := by decide +kernel
    simp [text] at h
  have minus : Untouched (-0.0) [.insert "35.2" 1.0, .intern 35.2] := by
    intro other h
    have text : Numeral.text (-0.0) ≠ "35.2" := by decide +kernel
    simp [text] at h
  exact ⟨plus, minus, (intern_run_tells_values_apart _).2.1 0.0 (-0.0) plus minus (by decide)⟩

end Registry

end Calculus
