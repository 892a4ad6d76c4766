import OpenClaw.Config.Value

/-!
# Places in a document

A place is the way to a value through keys of objects and indices of arrays.
-/

namespace OpenClaw

/-- One step into a value. -/
inductive PlaceStep where
  | key (key : Str)
  | index (index : Nat)
deriving DecidableEq

abbrev Place := List PlaceStep

namespace Json

/-- The value one step inside. -/
def child : Json → PlaceStep → Option Json
  | .object entries, .key key => lookup entries key
  | .array items, .index index => items[index]?
  | _, _ => none

/-- The value at a place, where there is one. -/
def atPlace (value : Json) : Place → Option Json
  | [] => some value
  | step :: place => (value.child step).bind (atPlace · place)

@[simp]
theorem atPlace_nil (value : Json) : value.atPlace [] = some value := rfl

theorem atPlace_cons (value : Json) (step : PlaceStep) (place : Place) :
    value.atPlace (step :: place) = (value.child step).bind (atPlace · place) := rfl

/-- A step into a value, by its kind. -/
theorem child_eq_some {value v : Json} {step : PlaceStep} (h : value.child step = some v) :
    (∃ entries key, value = .object entries ∧ step = .key key ∧ lookup entries key = some v) ∨
      ∃ items index, value = .array items ∧ step = .index index ∧ items[index]? = some v := by
  cases value with
  | object entries =>
    cases step with
    | key key => exact .inl ⟨entries, key, rfl, rfl, h⟩
    | index index => cases h
  | array items =>
    cases step with
    | key key => cases h
    | index index => exact .inr ⟨items, index, rfl, rfl, h⟩
  | _ => cases h

theorem isDocument_of_child {value v : Json} {step : PlaceStep} (hvalue : value.isDocument = true)
    (h : value.child step = some v) : v.isDocument = true := by
  rcases child_eq_some h with ⟨entries, key, rfl, rfl, hlookup⟩ | ⟨items, index, rfl, rfl, hitem⟩
  · exact isDocument_of_lookup hvalue hlookup
  · exact isDocument_array_iff.mp hvalue v (List.mem_of_getElem? hitem)

theorem Alike.child {x y : Json} (h : Alike x y) (hx : x.isDocument = true)
    (hy : y.isDocument = true) (step : PlaceStep) :
    Option.Rel Alike (x.child step) (y.child step) := by
  cases x with
  | object xs =>
    obtain ⟨ys, rfl⟩ := exists_object_of_alike h
    cases step with
    | key key =>
      exact (alike_object_iff (isDocument_object_iff.mp hx).1 (isDocument_object_iff.mp hy).1).mp h
        key
    | index index => exact .none
  | array xs =>
    obtain ⟨ys, rfl, hitems⟩ := exists_array_of_alike h
    cases step with
    | key key => exact .none
    | index index =>
      show Option.Rel Alike xs[index]? ys[index]?
      clear h hx hy
      induction hitems generalizing index with
      | nil => exact .none
      | cons hfirst _ ih =>
        cases index with
        | zero => exact .some hfirst
        | succ index => exact ih index
  | _ => cases y <;> first | exact .none | cases h

/-- Equal documents have equal values at every place. -/
theorem Alike.atPlace {x y : Json} (h : Alike x y) (hx : x.isDocument = true)
    (hy : y.isDocument = true) (place : Place) :
    Option.Rel Alike (x.atPlace place) (y.atPlace place) := by
  induction place generalizing x y with
  | nil => exact .some h
  | cons step place ih =>
    have hstep := h.child hx hy step
    rw [atPlace_cons, atPlace_cons]
    generalize hchild : x.child step = v at hstep ⊢
    generalize hchild' : y.child step = v' at hstep ⊢
    cases hstep with
    | none => exact .none
    | some halike =>
      exact ih halike (isDocument_of_child hx hchild) (isDocument_of_child hy hchild')

end Json

end OpenClaw
