/-!
# JSON values

The values that reports and views are made of.  An object is a list of fields, so that the order of
its keys is part of the value.

Principal result: `Json.induction` — what holds of a value as soon as it holds of the values inside
holds of every value.
-/

namespace PureContracts

/-- A JSON value without numbers: no view needs one. -/
inductive Json where
  | null
  | bool (value : Bool)
  | string (text : String)
  | array (items : List Json)
  | object (fields : List (String × Json))
  deriving Inhabited

/-- What holds of an array as soon as it holds of its items, of an object as soon as it holds of the
values of its fields, and of all other values, holds of every value. -/
@[elab_as_elim, induction_eliminator]
theorem Json.induction {motive : Json → Prop} (null : motive .null)
    (bool : ∀ value, motive (.bool value)) (string : ∀ text, motive (.string text))
    (array : ∀ items, (∀ item ∈ items, motive item) → motive (.array items))
    (object : ∀ fields, (∀ field ∈ fields, motive field.2) → motive (.object fields))
    (value : Json) : motive value :=
  @Json.rec motive (fun items => ∀ item ∈ items, motive item)
    (fun fields => ∀ field ∈ fields, motive field.2) (fun field => motive field.2)
    null bool string array object
    (fun _ h => nomatch h)
    (fun _ _ hfirst hrest => List.forall_mem_cons.mpr ⟨hfirst, hrest⟩)
    (fun _ h => nomatch h)
    (fun _ _ hfirst hrest => List.forall_mem_cons.mpr ⟨hfirst, hrest⟩)
    (fun _ _ hvalue => hvalue)
    value

end PureContracts
