import Mathlib.Data.Finset.Card
import Mathlib.Data.List.Induction
import Calculus.Registry

/-!
# Runs of a registry

A registry changes by two requests of opposite policy: `insert` binds a name anew each time it is
asked to, and `intern` binds one only if nothing is bound to it. Reserved names stand above both:
`insert` refuses them, and for `intern` they are bound from the start.

What a registry holds after a run of requests can therefore be read off the run, without a table:
the last insertion under a name decides, and only if there is none the first value that was interned
under it (`given?`). One more request changes the table and this reading of the run in the same way
(`getElem?_serve`, `given?_snoc`), so they agree after any number of them (`getElem?_run`).
-/

namespace Calculus

namespace Constant

/-- The names of the reserved constants. -/
def reservedNames : List String :=
  reserved.map (·.name)

theorem reserved?_eq_none_iff {name : String} :
    reserved? name = none ↔ name ∉ reservedNames := by
  simp [reserved?, reservedNames]

/-- A reserved constant is found by its name. -/
theorem reserved?_of_mem {c : Constant} (h : c ∈ reserved) : reserved? c.name = some c := by
  simp only [reserved, List.mem_cons, List.not_mem_nil, or_false] at h
  rcases h with rfl | rfl | rfl | rfl | rfl <;> rfl

theorem isSome_reserved? {name : String} :
    (reserved? name).isSome ↔ name ∈ reservedNames := by
  simp [reserved?, reservedNames]

theorem mem_reservedNames {name : String} {c : Constant} (h : reserved? name = some c) :
    name ∈ reservedNames := by
  rw [← isSome_reserved?, h]
  rfl

theorem name_of_reserved? {name : String} {c : Constant} (h : reserved? name = some c) :
    c.name = name := by
  simpa using List.find?_some h

end Constant

namespace Registry

/-- A call that may change a registry. -/
inductive Request where
  | insert (name : String) (value : Float)
  | intern (value : Float)

namespace Request

/-- The name that a request is about. -/
def name : Request → String
  | .insert name _ => name
  | .intern value => Numeral.text value

/-- The value that a request inserts under a name. -/
def inserted? (name : String) : Request → Option Float
  | .insert name' value => if name' = name then some value else none
  | .intern _ => none

/-- The value that a request interns under a name. -/
def interned? (name : String) : Request → Option Float
  | .insert _ _ => none
  | .intern value => if Numeral.text value = name then some value else none

end Request

/-- The registry after a request. -/
def serve (r : Registry) : Request → Registry
  | .insert name value => (r.insert name value).2
  | .intern value => (r.intern value).2

/-- The registry after a run of requests, from the first to the last. -/
def run (requests : List Request) : Registry :=
  requests.foldl serve new

section Reading

/-- The value that was inserted last under a name. -/
def lastInserted? (name : String) (requests : List Request) : Option Float :=
  requests.reverse.findSome? (·.inserted? name)

/-- The value that was interned first under a name. -/
def firstInterned? (name : String) (requests : List Request) : Option Float :=
  requests.findSome? (·.interned? name)

/-- What a run binds to a name that is not reserved. -/
def given? (name : String) (requests : List Request) : Option Float :=
  (lastInserted? name requests).or (firstInterned? name requests)

/-- What is bound to a name after a run. -/
def bound? (name : String) (requests : List Request) : Option Constant :=
  (Constant.reserved? name).or ((given? name requests).map (⟨name, ·⟩))

theorem given?_snoc (name : String) (requests : List Request) (request : Request) :
    given? name (requests ++ [request]) =
      (request.inserted? name).or ((given? name requests).or (request.interned? name)) := by
  simp only [given?, lastInserted?, firstInterned?, List.reverse_append, List.reverse_singleton,
    List.findSome?_append, List.findSome?_singleton, Option.or_assoc]

/-- A run gives a value to exactly the names that its requests are about. -/
theorem given?_isSome_iff {name : String} {requests : List Request} :
    (given? name requests).isSome ↔ name ∈ requests.map Request.name := by
  induction requests using List.reverseRecOn with
  | nil => simp [given?, lastInserted?, firstInterned?]
  | append_singleton requests request ih =>
    have here : (request.inserted? name).isSome ∨ (request.interned? name).isSome ↔
        request.name = name := by
      cases request <;> simp [Request.inserted?, Request.interned?, Request.name]
    rw [given?_snoc]
    simp only [Option.isSome_or, Bool.or_eq_true, ih, List.map_append, List.mem_append,
      List.map_cons, List.map_nil, List.mem_singleton, eq_comm (a := name), ← here]
    tauto

end Reading

section Steps

variable {r : Registry} {name : String} {value : Float}

/-- Binding a name leaves the others as they are. -/
theorem getElem?_insert_entries (entries : Std.TreeMap String Constant) (name other : String)
    (c : Constant) :
    (entries.insert name c)[other]? = if name = other then some c else entries[other]? := by
  rw [Std.TreeMap.getElem?_insert]
  simp only [Std.compare_eq_iff_eq]

theorem insert_of_reserved (h : name ∈ Constant.reservedNames) :
    r.insert name value = (false, r) := by
  obtain ⟨c, hc⟩ := Option.isSome_iff_exists.1 (Constant.isSome_reserved?.2 h)
  rw [insert, hc]

theorem insert_of_not_reserved (h : name ∉ Constant.reservedNames) :
    r.insert name value = (true, ⟨r.entries.insert name ⟨name, value⟩⟩) := by
  rw [insert, Constant.reserved?_eq_none_iff.2 h]

/-- An insertion is refused exactly if the name is reserved. -/
theorem insert_fst_eq_false_iff :
    (r.insert name value).1 = false ↔ name ∈ Constant.reservedNames := by
  by_cases h : name ∈ Constant.reservedNames
  · simp [insert_of_reserved h, h]
  · simp [insert_of_not_reserved h, h]

theorem intern_of_bound {c : Constant} (h : r.entries[Numeral.text value]? = some c) :
    (r.intern value).2 = r := by
  simp only [intern, Constant.ofValue, h]

theorem intern_of_not_bound (h : r.entries[Numeral.text value]? = none) :
    (r.intern value).2 =
      ⟨r.entries.insert (Numeral.text value) ⟨Numeral.text value, value⟩⟩ := by
  simp only [intern, Constant.ofValue, h]

/-- An insertion binds its own name, unless that is reserved. -/
theorem getElem?_insert (r : Registry) (name : String) (value : Float) (other : String) :
    (r.insert name value).2.entries[other]? =
      if name = other ∧ name ∉ Constant.reservedNames then some ⟨name, value⟩
      else r.entries[other]? := by
  by_cases h : name ∈ Constant.reservedNames
  · rw [insert_of_reserved h, if_neg fun own => own.2 h]
  · rw [insert_of_not_reserved h, getElem?_insert_entries]
    simp only [h, not_false_eq_true, and_true]

/-- Interning binds the text of the value, unless something is bound to it. -/
theorem getElem?_intern (r : Registry) (value : Float) (name : String) :
    (r.intern value).2.entries[name]? =
      r.entries[name]?.or (if Numeral.text value = name then some ⟨name, value⟩ else none) := by
  by_cases own : Numeral.text value = name
  · subst own
    cases h : r.entries[Numeral.text value]? with
    | some c => rw [intern_of_bound h, h, Option.some_or]
    | none =>
      rw [intern_of_not_bound h, getElem?_insert_entries, if_pos rfl, if_pos rfl, Option.none_or]
  · rw [if_neg own, Option.or_none]
    cases h : r.entries[Numeral.text value]? with
    | some c => rw [intern_of_bound h]
    | none => rw [intern_of_not_bound h, getElem?_insert_entries, if_neg own]

/-- No request binds a reserved name anew. -/
theorem getElem?_serve_of_reserved {c : Constant} (request : Request)
    (reserved : name ∈ Constant.reservedNames) (bound : r.entries[name]? = some c) :
    (r.serve request).entries[name]? = some c := by
  cases request with
  | insert other value =>
    have refused : ¬ (other = name ∧ other ∉ Constant.reservedNames) := by
      rintro ⟨rfl, free⟩
      exact free reserved
    rw [serve, getElem?_insert, if_neg refused, bound]
  | intern value => rw [serve, getElem?_intern, bound, Option.some_or]

/-- What a request does to any other name: what it inserts goes before what is bound, and what it
interns goes after. -/
theorem getElem?_serve (request : Request) (free : name ∉ Constant.reservedNames) :
    (r.serve request).entries[name]? =
      ((request.inserted? name).map (⟨name, ·⟩)).or
        (r.entries[name]?.or ((request.interned? name).map (⟨name, ·⟩))) := by
  cases request with
  | insert other value =>
    rw [serve, getElem?_insert]
    by_cases own : other = name
    · subst own
      simp [Request.inserted?, free]
    · simp [Request.inserted?, Request.interned?, own]
  | intern value =>
    rw [serve, getElem?_intern]
    by_cases own : Numeral.text value = name <;> simp [Request.inserted?, Request.interned?, own]

/-- A request adds its name, if nothing is bound to it. -/
theorem size_serve (request : Request)
    (reserved : ∀ name ∈ Constant.reservedNames, r.contains name) :
    (r.serve request).size = if r.contains request.name then r.size else r.size + 1 := by
  cases request with
  | insert name value =>
    rw [serve, Request.name]
    by_cases h : name ∈ Constant.reservedNames
    · rw [insert_of_reserved h, if_pos (reserved name h)]
    · rw [insert_of_not_reserved h]
      exact Std.TreeMap.size_insert
  | intern value =>
    rw [serve, Request.name]
    cases h : r.entries[Numeral.text value]? with
    | some c =>
      have bound : r.contains (Numeral.text value) = true := by
        rw [contains, Std.TreeMap.contains_eq_isSome_getElem?, h]
        rfl
      rw [intern_of_bound h, if_pos bound]
    | none =>
      rw [intern_of_not_bound h]
      exact Std.TreeMap.size_insert

end Steps

section Runs

theorem run_snoc (requests : List Request) (request : Request) :
    run (requests ++ [request]) = (run requests).serve request := by
  simp [run, List.foldl_append]

/-- A table filled with constants of different names holds them. -/
theorem getElem?_filled {cs : List Constant} (distinct : (cs.map (·.name)).Nodup)
    (name : String) :
    (cs.foldl (fun entries c => entries.insert c.name c)
      (∅ : Std.TreeMap String Constant))[name]? = cs.find? (·.name = name) := by
  induction cs using List.reverseRecOn with
  | nil => exact Std.TreeMap.getElem?_emptyc
  | append_singleton cs c ih =>
    rw [List.map_append, List.nodup_append] at distinct
    obtain ⟨distinct, -, fresh⟩ := distinct
    rw [List.foldl_append, List.foldl_cons, List.foldl_nil, getElem?_insert_entries, ih distinct,
      List.find?_append]
    by_cases same : c.name = name
    · have earlier : cs.find? (·.name = name) = none := by
        rw [List.find?_eq_none]
        intro d hd bound
        exact fresh d.name (List.mem_map_of_mem hd) c.name (by simp)
          ((of_decide_eq_true bound).trans same.symm)
      simp [same, earlier]
    · simp [same]

/-- A new registry holds the reserved constants. -/
theorem getElem?_new (name : String) : new.entries[name]? = Constant.reserved? name :=
  getElem?_filled (by decide) name

/-- After a run, a registry holds what the run is read to bind. -/
theorem getElem?_run (name : String) (requests : List Request) :
    (run requests).entries[name]? = bound? name requests := by
  induction requests using List.reverseRecOn with
  | nil =>
    rw [run, List.foldl_nil, getElem?_new]
    simp [bound?, given?, lastInserted?, firstInterned?]
  | append_singleton requests request ih =>
    rw [run_snoc]
    cases h : Constant.reserved? name with
    | some c =>
      have bound : (run requests).entries[name]? = some c := by
        rw [ih, bound?, h, Option.some_or]
      rw [getElem?_serve_of_reserved request (Constant.mem_reservedNames h) bound, bound?, h,
        Option.some_or]
    | none =>
      have free := Constant.reserved?_eq_none_iff.1 h
      rw [getElem?_serve request free, ih]
      simp only [bound?, h, Option.none_or, given?_snoc, Option.map_or]

/-- The names that are bound after a run: the reserved ones, and those its requests are about. -/
theorem contains_run {name : String} {requests : List Request} :
    (run requests).contains name ↔
      name ∈ Constant.reservedNames ∨ name ∈ requests.map Request.name := by
  rw [contains, Std.TreeMap.contains_eq_isSome_getElem?, getElem?_run, bound?, Option.isSome_or,
    Option.isSome_map, Bool.or_eq_true, given?_isSome_iff, ← Constant.isSome_reserved?]

/-- A run adds the names that its requests are about and that are not reserved. -/
theorem size_run (requests : List Request) :
    (run requests).size =
      5 + ((requests.map Request.name).toFinset \ Constant.reservedNames.toFinset).card := by
  induction requests using List.reverseRecOn with
  | nil => rfl
  | append_singleton requests request ih =>
    have reserved : ∀ name ∈ Constant.reservedNames, (run requests).contains name :=
      fun name h => contains_run.2 (.inl h)
    have names : ((requests ++ [request]).map Request.name).toFinset =
        Insert.insert request.name (requests.map Request.name).toFinset := by
      ext name
      simp
    rw [run_snoc, size_serve request reserved, ih, names]
    -- A name that is bound already is reserved, or an earlier request was about it.
    by_cases bound : (run requests).contains request.name = true
    · rw [if_pos bound]
      rcases contains_run.1 bound with known | known
      · rw [Finset.insert_sdiff_of_mem _ (List.mem_toFinset.2 known)]
      · rw [Finset.insert_eq_of_mem (List.mem_toFinset.2 known)]
    · rw [if_neg bound]
      obtain ⟨free, fresh⟩ := not_or.1 (mt contains_run.2 bound)
      have added : request.name ∉ (requests.map Request.name).toFinset \
          Constant.reservedNames.toFinset :=
        fun known => fresh (List.mem_toFinset.1 (Finset.mem_sdiff.1 known).1)
      rw [Finset.insert_sdiff_of_notMem _ (mt List.mem_toFinset.1 free),
        Finset.card_insert_of_notMem added, Nat.add_assoc]

theorem get_of_getElem? {r : Registry} {name : String} {c : Constant}
    (h : r.entries[name]? = some c) : r.get name = .ok c := by
  rw [get, h]

/-- What a registry answers after a run, for a name that is not reserved. -/
theorem get_run {name : String} (free : name ∉ Constant.reservedNames)
    (requests : List Request) :
    (run requests).get name =
      match lastInserted? name requests, firstInterned? name requests with
      | some value, _ => .ok ⟨name, value⟩
      | none, some value => .ok ⟨name, value⟩
      | none, none => .error (Constant.notFound name (run requests).names) := by
  rw [get, getElem?_run, bound?, Constant.reserved?_eq_none_iff.2 free, Option.none_or, given?]
  cases lastInserted? name requests with
  | some value => rfl
  | none => cases firstInterned? name requests <;> rfl

/-- What is bound to a name after a run is called by it. -/
theorem name_of_getElem?_run {name : String} {c : Constant} {requests : List Request}
    (h : (run requests).entries[name]? = some c) : c.name = name := by
  rw [getElem?_run, bound?, Option.or_eq_some_iff] at h
  rcases h with reserved | ⟨-, given⟩
  · exact Constant.name_of_reserved? reserved
  · obtain ⟨value, -, rfl⟩ := Option.map_eq_some_iff.1 given
    rfl

/-- **A protected last-writer map.** After any run of requests: reserved names are bound to the
reserved constants, and every name to a constant called by it. Any other name is bound to the
value that was inserted last under it, or else to the one that was interned first under it, and
otherwise it is unknown. An insertion is refused exactly if its name is reserved, and then
changes nothing. No name is lost in what follows, and the names are the five reserved ones and
those that were asked for. -/
theorem run_protected_last_writer (requests : List Request) :
    (∀ c ∈ Constant.reserved, (run requests).get c.name = .ok c) ∧
    (∀ (name : String) (c : Constant), (run requests).entries[name]? = some c → c.name = name) ∧
    (∀ name, name ∉ Constant.reservedNames →
      (run requests).get name =
        match lastInserted? name requests, firstInterned? name requests with
        | some value, _ => .ok ⟨name, value⟩
        | none, some value => .ok ⟨name, value⟩
        | none, none => .error (Constant.notFound name (run requests).names)) ∧
    (∀ name value,
      (((run requests).insert name value).1 = false ↔ name ∈ Constant.reservedNames) ∧
        (name ∈ Constant.reservedNames → ((run requests).insert name value).2 = run requests)) ∧
    (∀ later name, (run requests).contains name → (run (requests ++ later)).contains name) ∧
    (run requests).size =
      5 + ((requests.map Request.name).toFinset \ Constant.reservedNames.toFinset).card := by
  refine ⟨fun c hc => ?_, fun name c => name_of_getElem?_run, fun name free => get_run free _,
    fun name value => ⟨insert_fst_eq_false_iff, fun h => by rw [insert_of_reserved h]⟩,
    fun later name bound => ?_, size_run requests⟩
  · refine get_of_getElem? ?_
    rw [getElem?_run, bound?, Constant.reserved?_of_mem hc, Option.some_or]
  · rw [contains_run] at bound ⊢
    rw [List.map_append, List.mem_append]
    exact bound.imp_right .inl

end Runs

end Registry

end Calculus
