import Legba.JsonValue

/-!
# Dictionaries and lists held by reference

A variable holds a scalar or the address of a dictionary or a list, so two
variables may share one object and a callee may change what its caller still
holds.  `dumps` is the canonical JSON value of what is held, read at the time
of the call; an object which contains itself has none.
-/

namespace ObjectHeap

open Option JsonValue

inductive Value where
  | null
  | bool (value : Bool)
  | number (mantissa : ℤ) (scale : ℕ)
  | string (value : String)
  | object (address : ℕ)
deriving DecidableEq

inductive Cell where
  | dict (items : List (String × Value))
  | list (items : List Value)
deriving DecidableEq

abbrev Heap := List Cell

def Heap.dict? (heap : Heap) : Value → Option (List (String × Value))
  | .object address =>
    match heap[address]? with
    | some (.dict items) => some items
    | _ => none
  | _ => none

def Heap.json (heap : Heap) : ℕ → Value → Option Json
  | _, .null => some .null
  | _, .bool value => some (.bool value)
  | _, .number mantissa scale => some (.number mantissa scale)
  | _, .string value => some (.string value)
  | 0, .object _ => none
  | depth + 1, .object address =>
    match heap[address]? with
    | some (.dict items) =>
      (items.mapM fun item => (heap.json depth item.2).map (item.1, ·)).map .object
    | some (.list items) => (items.mapM (heap.json depth)).map .array
    | none => none

/-- No chain of nested objects is longer than the heap, unless one of them
contains itself. -/
def Heap.dumps (heap : Heap) (value : Value) : Option Json :=
  (heap.json heap.length value).map Json.sortKeys

def Heap.dumpItems (heap : Heap) (items : List (String × Value)) : Option (List (String × Json)) :=
  (items.mapM fun item => (heap.json heap.length item.2).map (item.1, ·)).map sortFields

theorem mapM_cons_eq_some {Item Result : Type*} {read : Item → Option Result}
    {item : Item} {rest : List Item} {results : List Result} :
    (item :: rest).mapM read = some results ↔
      ∃ result tail, read item = some result ∧ rest.mapM read = some tail ∧
        results = result :: tail := by
  rw [List.mapM_cons]
  simp only [bind_eq_bind, bind_eq_some_iff, pure_def, some.injEq]
  constructor
  · rintro ⟨result, hresult, tail, htail, rfl⟩
    exact ⟨result, tail, hresult, htail, rfl⟩
  · rintro ⟨result, tail, hresult, htail, rfl⟩
    exact ⟨result, hresult, tail, htail, rfl⟩

theorem mapM_eq_some_of_refines {Item Result : Type*} {read finer : Item → Option Result}
    (hrefines : ∀ item result, read item = some result → finer item = some result)
    {items : List Item} {results : List Result} (hresults : items.mapM read = some results) :
    items.mapM finer = some results := by
  induction items generalizing results with
  | nil => exact hresults
  | cons item rest ih =>
    obtain ⟨result, tail, hresult, htail, rfl⟩ := mapM_cons_eq_some.mp hresults
    exact mapM_cons_eq_some.mpr ⟨result, tail, hrefines _ _ hresult, ih htail, rfl⟩

variable {heap : Heap} {items : List (String × Value)} {value : Value}

theorem Heap.field?_dumpItems {fields : List (String × Json)}
    (hdump : heap.dumpItems items = some fields) (key : String) :
    field? fields key = (items.lookup key).bind heap.dumps := by
  obtain ⟨raw, hraw, hsort⟩ := map_eq_some_iff.mp hdump
  rw [← hsort, field?_sortFields]
  clear hsort hdump
  unfold field?
  induction items generalizing raw with
  | nil =>
    simp only [List.mapM_nil, pure_def, some.injEq] at hraw
    subst raw
    rfl
  | cons item rest ih =>
    obtain ⟨field, tail, hfield, htail, rfl⟩ := mapM_cons_eq_some.mp hraw
    obtain ⟨value, hvalue, rfl⟩ := map_eq_some_iff.mp hfield
    rw [List.lookup_cons, List.lookup_cons]
    by_cases hkey : key = item.1
    · simp [hkey, Heap.dumps, hvalue]
    · rw [beq_eq_false_iff_ne.mpr hkey]
      exact ih tail htail

theorem Heap.isSome_dumpItems_iff :
    (heap.dumpItems items).isSome ↔ ∀ item ∈ items, (heap.dumps item.2).isSome := by
  unfold Heap.dumpItems Heap.dumps
  simp only [isSome_map]
  induction items with
  | nil => simp
  | cons item rest ih =>
    rw [List.forall_mem_cons, ← ih]
    simp only [isSome_iff_exists]
    constructor
    · rintro ⟨results, hresults⟩
      obtain ⟨field, tail, hfield, htail, _⟩ := mapM_cons_eq_some.mp hresults
      obtain ⟨value, hvalue, _⟩ := map_eq_some_iff.mp hfield
      exact ⟨⟨value, hvalue⟩, tail, htail⟩
    · rintro ⟨⟨value, hvalue⟩, tail, htail⟩
      have hfield : (heap.json heap.length item.2).map (item.1, ·) = some (item.1, value) := by
        rw [hvalue, map_some]
      exact ⟨_, mapM_cons_eq_some.mpr ⟨_, tail, hfield, htail, rfl⟩⟩

theorem Heap.json_append (heap created : Heap) {depth deeper : ℕ} (hdepth : depth ≤ deeper)
    {result : Json} (hresult : heap.json depth value = some result) :
    (heap ++ created).json deeper value = some result := by
  induction depth generalizing deeper value result with
  | zero =>
    cases value with
    | object address => simp [Heap.json] at hresult
    | null => simpa [Heap.json] using hresult
    | bool _ => simpa [Heap.json] using hresult
    | number _ _ => simpa [Heap.json] using hresult
    | string _ => simpa [Heap.json] using hresult
  | succ depth ih =>
    cases value with
    | null => simpa [Heap.json] using hresult
    | bool _ => simpa [Heap.json] using hresult
    | number _ _ => simpa [Heap.json] using hresult
    | string _ => simpa [Heap.json] using hresult
    | object address =>
      obtain ⟨deeper, rfl⟩ : ∃ below, deeper = below + 1 := ⟨deeper - 1, by omega⟩
      have hbelow : depth ≤ deeper := by omega
      cases hcell : heap[address]? with
      | none => simp [Heap.json, hcell] at hresult
      | some cell =>
        have hkept : (heap ++ created)[address]? = some cell := by
          rw [List.getElem?_append_left (List.getElem?_eq_some_iff.mp hcell).1]
          exact hcell
        cases cell with
        | list items =>
          simp only [Heap.json, hcell, hkept, map_eq_some_iff] at hresult ⊢
          obtain ⟨results, hresults, rfl⟩ := hresult
          exact ⟨results, mapM_eq_some_of_refines
            (fun _ _ => ih hbelow) hresults, rfl⟩
        | dict items =>
          simp only [Heap.json, hcell, hkept, map_eq_some_iff] at hresult ⊢
          obtain ⟨results, hresults, rfl⟩ := hresult
          refine ⟨results, mapM_eq_some_of_refines ?_ hresults, rfl⟩
          intro item field hfield
          obtain ⟨value, hvalue, rfl⟩ := map_eq_some_iff.mp hfield
          rw [ih hbelow hvalue, map_some]

theorem Heap.dumps_append (heap created : Heap) {result : Json}
    (hresult : heap.dumps value = some result) : (heap ++ created).dumps value = some result := by
  obtain ⟨raw, hraw, rfl⟩ := map_eq_some_iff.mp hresult
  have hlength : heap.length ≤ (heap ++ created).length := by simp
  unfold Heap.dumps
  rw [heap.json_append created hlength hraw, map_some]

theorem Heap.dict?_append (heap created : Heap) (hitems : heap.dict? value = some items) :
    (heap ++ created).dict? value = some items := by
  cases value with
  | object address =>
    simp only [Heap.dict?] at hitems ⊢
    cases hcell : heap[address]? with
    | none => simp [hcell] at hitems
    | some cell =>
      have hkept : (heap ++ created)[address]? = some cell := by
        rw [List.getElem?_append_left (List.getElem?_eq_some_iff.mp hcell).1]
        exact hcell
      rw [hcell] at hitems
      rw [hkept]
      exact hitems
  | null => simp [Heap.dict?] at hitems
  | bool _ => simp [Heap.dict?] at hitems
  | number _ _ => simp [Heap.dict?] at hitems
  | string _ => simp [Heap.dict?] at hitems

theorem Heap.isSome_dumps_of_mem (hitems : heap.dict? value = some items)
    (hdump : (heap.dumps value).isSome) {item : String × Value}
    (hitem : item ∈ items) : (heap.dumps item.2).isSome := by
  obtain ⟨result, hresult⟩ := isSome_iff_exists.mp hdump
  obtain ⟨raw, hraw, _⟩ := map_eq_some_iff.mp hresult
  cases value with
  | object address =>
    cases hlength : heap.length with
    | zero =>
      rw [List.length_eq_zero_iff] at hlength
      simp [Heap.dict?, hlength] at hitems
    | succ depth =>
      have hcell : heap[address]? = some (.dict items) := by
        simp only [Heap.dict?] at hitems
        split at hitems
        · rename_i found hfound
          rw [hfound, some.inj hitems]
        · simp at hitems
      rw [hlength] at hraw
      simp only [Heap.json, hcell, map_eq_some_iff] at hraw
      obtain ⟨fields, hfields, hobject⟩ := hraw
      clear hitems hcell hresult hobject
      induction items generalizing fields with
      | nil => simp at hitem
      | cons head rest ih =>
        obtain ⟨field, tail, hfield, htail, _⟩ := mapM_cons_eq_some.mp hfields
        rcases List.mem_cons.mp hitem with rfl | hrest
        · obtain ⟨found, hfound, _⟩ := map_eq_some_iff.mp hfield
          have hdeeper : depth ≤ heap.length := by omega
          have hread := heap.json_append [] hdeeper hfound
          rw [List.append_nil] at hread
          simp [Heap.dumps, hread]
        · exact ih hrest tail htail
  | null => simp [Heap.dict?] at hitems
  | bool _ => simp [Heap.dict?] at hitems
  | number _ _ => simp [Heap.dict?] at hitems
  | string _ => simp [Heap.dict?] at hitems

end ObjectHeap
