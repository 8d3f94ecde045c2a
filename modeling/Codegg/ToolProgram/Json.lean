import Codegg.Library.FloatBits

/-!
# JSON values

The values that cross the boundary to tools. Objects keep the order in which
their keys were inserted; equality does not look at that order.
-/
namespace Codegg.ToolProgram

open Codegg.Library

/-- A JSON number: a non-negative or negative integer, or a finite double. -/
inductive JsonNumber
  | posInt (n : ℕ)
  | negInt (i : ℤ)
  | float (f : FloatBits) (finite : f.isFinite = true)
  deriving DecidableEq

namespace JsonNumber

/-- Numbers of different representations are different. -/
def eq : JsonNumber → JsonNumber → Bool
  | posInt m, posInt n => decide (m = n)
  | negInt i, negInt j => decide (i = j)
  | float f _, float g _ => f.eq g
  | _, _ => false

theorem eq_self (n : JsonNumber) : n.eq n = true := by
  cases n with
  | posInt n => simp [eq]
  | negInt i => simp [eq]
  | float f finite => exact FloatBits.eq_self (FloatBits.isNaN_eq_false_of_isFinite finite)

def ofInt (i : ℤ) : JsonNumber :=
  if 0 ≤ i then posInt i.toNat else negInt i

end JsonNumber

inductive Json
  | null
  | bool (b : Bool)
  | number (n : JsonNumber)
  | string (s : String)
  | array (items : List Json)
  | object (fields : List (String × Json))

namespace Json

def isNull : Json → Bool
  | null => true
  | _ => false

/-- Insert into a map: a key that is already bound keeps its position. -/
def insertField {α : Type*} (key : String) (value : α) : List (String × α) → List (String × α)
  | [] => [(key, value)]
  | field :: fields =>
    if field.1 = key then (key, value) :: fields
    else field :: insertField key value fields

/-- Look a key up in a map. -/
def getField {α : Type*} (key : String) (fields : List (String × α)) : Option α :=
  (fields.find? (fun field => field.1 = key)).map Prod.snd

/-- Place a field by its key. -/
def placeField {α : Type*} (field : String × α) : List (String × α) → List (String × α)
  | [] => [field]
  | other :: fields =>
    if other.1 < field.1 then other :: placeField field fields else field :: other :: fields

mutual
/-- The value with the fields of every object in key order. -/
def canonical : Json → Json
  | null => null
  | bool b => bool b
  | number n => number n
  | string s => string s
  | array items => array (canonicalItems items)
  | object fields => object (canonicalFields fields)

def canonicalItems : List Json → List Json
  | [] => []
  | item :: items => canonical item :: canonicalItems items

def canonicalFields : List (String × Json) → List (String × Json)
  | [] => []
  | (key, value) :: fields => placeField (key, canonical value) (canonicalFields fields)
end

mutual
/-- Equality position by position. -/
def sameShape : Json → Json → Bool
  | null, null => true
  | bool b, bool c => decide (b = c)
  | number m, number n => m.eq n
  | string s, string t => decide (s = t)
  | array items, array items' => sameItems items items'
  | object fields, object fields' => sameFields fields fields'
  | _, _ => false

def sameItems : List Json → List Json → Bool
  | [], [] => true
  | item :: items, item' :: items' => sameShape item item' && sameItems items items'
  | _, _ => false

def sameFields : List (String × Json) → List (String × Json) → Bool
  | [], [] => true
  | (key, value) :: fields, (key', value') :: fields' =>
    decide (key = key') && sameShape value value' && sameFields fields fields'
  | _, _ => false
end

/-- Equality of JSON values: objects are equal when they bind the same keys to
equal values, in whatever order. -/
def eq (a b : Json) : Bool := sameShape (canonical a) (canonical b)

mutual
theorem sameShape_self : ∀ value : Json, sameShape value value = true
  | null => rfl
  | bool b => by simp [sameShape]
  | number n => by simp [sameShape, JsonNumber.eq_self]
  | string s => by simp [sameShape]
  | array items => by
    unfold sameShape
    exact sameItems_self items
  | object fields => by
    unfold sameShape
    exact sameFields_self fields

theorem sameItems_self : ∀ items : List Json, sameItems items items = true
  | [] => rfl
  | item :: items => by
    unfold sameItems
    rw [sameShape_self item, sameItems_self items]
    rfl

theorem sameFields_self : ∀ fields : List (String × Json), sameFields fields fields = true
  | [] => rfl
  | (key, value) :: fields => by
    unfold sameFields
    rw [sameShape_self value, sameFields_self fields]
    simp
end

@[simp] theorem eq_self (value : Json) : value.eq value = true := sameShape_self _

/-! ### Schema validation -/

/-- The name of a value's type in a schema. -/
def typeName : Json → String
  | null => "null"
  | bool _ => "boolean"
  | number (.float _ _) => "number"
  | number _ => "integer"
  | string _ => "string"
  | array _ => "array"
  | object _ => "object"

theorem sizeOf_getField {key : String} {fields : List (String × Json)} {value : Json}
    (h : getField key fields = some value) : sizeOf value < sizeOf fields := by
  simp only [getField, Option.map_eq_some_iff] at h
  obtain ⟨⟨key', value'⟩, hf, rfl⟩ := h
  have hm := List.sizeOf_lt_of_mem (List.mem_of_find?_eq_some hf)
  simp only [Prod.mk.sizeOf_spec] at hm
  change sizeOf value' < sizeOf fields
  omega

/-- The type of the value against the `type` of the schema. -/
def validateType (value : Json) (schema : List (String × Json)) : Except String Unit :=
  match getField "type" schema with
  | some (string expected) =>
    if value.typeName = expected then .ok ()
    else .error ("expected type '" ++ expected ++ "', got '" ++ value.typeName ++ "'")
  | _ => .ok ()

/-- The keys of the value against the `required` keys of the schema. -/
def validateRequired (value : Json) (schema : List (String × Json)) : Except String Unit :=
  match getField "required" schema, value with
  | some (array required), object fields =>
    required.forM fun entry =>
      match entry with
      | string key =>
        if (getField key fields).isSome then .ok ()
        else .error ("missing required property '" ++ key ++ "'")
      | _ => .ok ()
  | _, _ => .ok ()

/-- Run a check on every item, naming the first one that fails. -/
def validateItems (check : Json → Except String Unit) : ℕ → List Json → Except String Unit
  | _, [] => .ok ()
  | i, item :: items =>
    match check item with
    | .error e => .error ("array item " ++ toString i ++ ": " ++ e)
    | .ok () => validateItems check (i + 1) items

/-- Validate a value against a JSON schema; a schema that is not an object
accepts everything. -/
def validateJsonSchema (value schema : Json) : Except String Unit :=
  match schema with
  | object fields => do
    validateType value fields
    match hp : getField "properties" fields, value with
    | some (object props), object entries =>
      props.attach.forM fun prop =>
        match getField prop.1.1 entries with
        | some entry => validateJsonSchema entry prop.1.2
        | none => .ok ()
    | _, _ => .ok ()
    match hi : getField "items" fields, value with
    | some itemsSchema, array items =>
      validateItems (fun item => validateJsonSchema item itemsSchema) 0 items
    | _, _ => .ok ()
    validateRequired value fields
  | _ => .ok ()
termination_by sizeOf schema
decreasing_by
  · have h := sizeOf_getField hi
    simp only [object.sizeOf_spec]
    omega
  · have h := sizeOf_getField hp
    have hm := List.sizeOf_lt_of_mem prop.2
    obtain ⟨⟨key, sub⟩, hmem⟩ := prop
    simp only [Prod.mk.sizeOf_spec, object.sizeOf_spec] at *
    omega

end Json

end Codegg.ToolProgram
