import Codegg.ToolProgram.Interpreter

/-!
# Values across the JSON boundary

A program value becomes a JSON value on its way to a tool and is read back from one. Without
repeated keys nothing is lost but the order of the keys, which is that of the map. A key that
is repeated in a dictionary is bound by its last entry on the way out, while the program
itself reads its first one.
-/
namespace Codegg.ToolProgram

open Codegg.Library Json

namespace ProgramValue

def fromNumber : JsonNumber → ProgramValue
  | .posInt n => if n < 2 ^ 63 then .int n else .float (FloatBits.ofInt n)
  | .negInt i => .int i
  | .float f _ => .float f

mutual
/-- Construct from a JSON value. -/
def fromJson : Json → ProgramValue
  | .null => .none
  | .bool b => .bool b
  | .number n => fromNumber n
  | .string s => .string s
  | .array items => .list (itemsFromJson items)
  | .object fields => .dict (pairsFromJson fields)

def itemsFromJson : List Json → List ProgramValue
  | [] => []
  | item :: items => fromJson item :: itemsFromJson items

def pairsFromJson : List (String × Json) → List (ProgramValue × ProgramValue)
  | [] => []
  | (key, value) :: fields => (.string key, fromJson value) :: pairsFromJson fields
end

theorem itemsToJson_eq_map (items : List ProgramValue) : itemsToJson items = items.map toJson := by
  induction items with
  | nil => rfl
  | cons item items ih => simp [itemsToJson, ih]

theorem itemsFromJson_eq_map (items : List Json) : itemsFromJson items = items.map fromJson := by
  induction items with
  | nil => rfl
  | cons item items ih => simp [itemsFromJson, ih]

theorem pairsFromJson_eq_map (fields : List (String × Json)) :
    pairsFromJson fields = fields.map fun field => (.string field.1, fromJson field.2) := by
  induction fields with
  | nil => rfl
  | cons field fields ih => simp [pairsFromJson, ih]

/-! ### Round trips -/

/-- The entries of a dictionary whose keys are strings. -/
def entries (fields : List (String × ProgramValue)) : List (ProgramValue × ProgramValue) :=
  fields.map fun field => (.string field.1, field.2)

/-- Values of the plain kinds in which no dictionary repeats a key. -/
inductive Distinct : ProgramValue → Prop
  | none : Distinct .none
  | bool (b : Bool) : Distinct (.bool b)
  | int {i : ℤ} (h : inI64 i = true) : Distinct (.int i)
  | string (s : String) : Distinct (.string s)
  | list {items : List ProgramValue} (h : ∀ item ∈ items, Distinct item) : Distinct (.list items)
  | dict {fields : List (String × ProgramValue)} (hkeys : (fields.map Prod.fst).Nodup)
      (h : ∀ field ∈ fields, Distinct field.2) : Distinct (.dict (entries fields))

/-- Equal but for the order of the keys. -/
inductive SameUpToOrder : ProgramValue → ProgramValue → Prop
  | none : SameUpToOrder .none .none
  | bool (b : Bool) : SameUpToOrder (.bool b) (.bool b)
  | int (i : ℤ) : SameUpToOrder (.int i) (.int i)
  | string (s : String) : SameUpToOrder (.string s) (.string s)
  | list {items items' : List ProgramValue} (h : List.Forall₂ SameUpToOrder items items') :
      SameUpToOrder (.list items) (.list items')
  | dict {pairs shuffled pairs' : List (ProgramValue × ProgramValue)}
      (hkeys : pairs.map Prod.fst = shuffled.map Prod.fst)
      (hvalues : List.Forall₂ SameUpToOrder (pairs.map Prod.snd) (shuffled.map Prod.snd))
      (hperm : shuffled.Perm pairs') : SameUpToOrder (.dict pairs) (.dict pairs')

end ProgramValue

/-- The same JSON value with the fields of its objects in any order. -/
inductive Json.Reordered : Json → Json → Prop
  | null : Json.Reordered .null .null
  | bool (b : Bool) : Json.Reordered (.bool b) (.bool b)
  | number (n : JsonNumber) : Json.Reordered (.number n) (.number n)
  | string (s : String) : Json.Reordered (.string s) (.string s)
  | array {items items' : List Json} (h : List.Forall₂ Json.Reordered items items') :
      Json.Reordered (.array items) (.array items')
  | object {fields shuffled fields' : List (String × Json)}
      (hkeys : fields.map Prod.fst = shuffled.map Prod.fst)
      (hvalues : List.Forall₂ Json.Reordered (fields.map Prod.snd) (shuffled.map Prod.snd))
      (hperm : shuffled.Perm fields') : Json.Reordered (.object fields) (.object fields')

mutual
theorem Json.Reordered.refl : ∀ j : Json, Json.Reordered j j
  | .null => .null
  | .bool b => .bool b
  | .number n => .number n
  | .string s => .string s
  | .array items => .array (reordered_items items)
  | .object fields => .object rfl (reordered_fields fields) (List.Perm.refl fields)

theorem Json.reordered_items : ∀ items : List Json, List.Forall₂ Json.Reordered items items
  | [] => .nil
  | item :: items => .cons (Json.Reordered.refl item) (reordered_items items)

theorem Json.reordered_fields : ∀ fields : List (String × Json),
    List.Forall₂ Json.Reordered (fields.map Prod.snd) (fields.map Prod.snd)
  | [] => .nil
  | (_, value) :: fields => .cons (Json.Reordered.refl value) (reordered_fields fields)
end

attribute [local simp] Json.getField

variable {key : String} {value : Json} {pairs : List (ProgramValue × ProgramValue)}

namespace ProgramValue

theorem forall₂_of_mem {α β : Type} {R S : α → β → Prop} {xs : List α} {ys : List β}
    (h : List.Forall₂ R xs ys) (himp : ∀ x ∈ xs, ∀ y, R x y → S x y) : List.Forall₂ S xs ys := by
  induction h with
  | nil => exact .nil
  | cons hxy _ ih =>
    refine .cons (himp _ List.mem_cons_self _ hxy) (ih fun x hx y hR => ?_)
    exact himp x (List.mem_cons_of_mem _ hx) y hR

theorem insertField_of_not_mem {fields : List (String × Json)} (h : key ∉ fields.map Prod.fst) :
    insertField key value fields = fields ++ [(key, value)] := by
  induction fields with
  | nil => rfl
  | cons field fields ih =>
    rw [List.map_cons, List.mem_cons, not_or] at h
    rw [insertField, if_neg (Ne.symm h.1), ih h.2, List.cons_append]

/-- Keys that are not repeated are entered one after the other. -/
theorem pairsToJson_entries {fields : List (String × ProgramValue)} {acc : List (String × Json)}
    (h : (acc.map Prod.fst ++ fields.map Prod.fst).Nodup) :
    pairsToJson (entries fields) acc = acc ++ fields.map fun field => (field.1, field.2.toJson) := by
  induction fields generalizing acc with
  | nil => simp [entries, pairsToJson]
  | cons field fields ih =>
    obtain ⟨key, value⟩ := field
    have hfresh : key ∉ acc.map Prod.fst := by
      intro hmem
      exact (List.disjoint_of_nodup_append h) hmem (by simp)
    have hrest : ((acc ++ [(key, value.toJson)]).map Prod.fst ++ fields.map Prod.fst).Nodup := by
      simpa [List.append_assoc] using h
    have hstep := ih hrest
    rw [entries, List.map_cons, pairsToJson, insertField_of_not_mem hfresh]
    rw [entries] at hstep
    rw [hstep]
    simp

theorem toJson_entries {fields : List (String × ProgramValue)}
    (h : (fields.map Prod.fst).Nodup) :
    toJson (.dict (entries fields)) =
      .object (fields.map fun field => (field.1, field.2.toJson)) := by
  have hnodup : (([] : List (String × Json)).map Prod.fst ++ fields.map Prod.fst).Nodup := by
    simpa using h
  rw [toJson, pairsToJson_entries hnodup, List.nil_append]

theorem fromNumber_ofInt {i : ℤ} (h : inI64 i = true) : fromNumber (.ofInt i) = .int i := by
  rw [inI64, Bool.and_eq_true, decide_eq_true_eq, decide_eq_true_eq] at h
  rw [JsonNumber.ofInt]
  split_ifs with hi
  · rw [fromNumber, if_pos (by omega), Int.toNat_of_nonneg hi]
  · rfl

theorem sameUpToOrder_values {values : List ProgramValue} {values' : List Json}
    (h : List.Forall₂ Json.Reordered (values.map toJson) values')
    (hvalues : ∀ v ∈ values, ∀ j, Json.Reordered v.toJson j → SameUpToOrder v (fromJson j)) :
    List.Forall₂ SameUpToOrder values (values'.map fromJson) := by
  rw [List.forall₂_map_left_iff] at h
  rw [List.forall₂_map_right_iff]
  exact forall₂_of_mem h hvalues

/-- What the map does with the order of the keys is all that changes on the way. -/
theorem fromJson_sameUpToOrder {v : ProgramValue} (h : Distinct v) {j : Json}
    (hj : Json.Reordered v.toJson j) : SameUpToOrder v (fromJson j) := by
  induction h generalizing j with
  | none =>
    cases hj
    exact .none
  | bool b =>
    cases hj
    exact .bool b
  | int hi =>
    cases hj
    rw [fromJson, fromNumber_ofInt hi]
    exact .int _
  | string s =>
    cases hj
    exact .string s
  | list _ ih =>
    rw [toJson, itemsToJson_eq_map] at hj
    cases hj with
    | array hitems =>
      rw [fromJson, itemsFromJson_eq_map]
      exact .list (sameUpToOrder_values hitems fun item hitem j' hj' => ih item hitem hj')
  | @dict fields hkeys _ ih =>
    rw [toJson_entries hkeys] at hj
    cases hj with
    | @object _ shuffled _ hsame hvalues hperm =>
      rw [fromJson, pairsFromJson_eq_map]
      refine .dict ?_ ?_ (hperm.map _)
      · have hkeys' := congrArg (List.map ProgramValue.string) hsame
        simpa [entries, Function.comp_def] using hkeys'
      · have hvalues' : List.Forall₂ Json.Reordered ((fields.map Prod.snd).map toJson)
            (shuffled.map Prod.snd) := by
          simpa [Function.comp_def] using hvalues
        have hsnd := sameUpToOrder_values hvalues' fun v hv j' hj' => by
          obtain ⟨field, hfield, rfl⟩ := List.mem_map.mp hv
          exact ih field hfield hj'
        simpa [entries] using hsnd

/-! ### Repeated keys -/

def isKey (key : String) : ProgramValue → Bool
  | .string s => decide (s = key)
  | _ => false

/-- The values a dictionary binds to a key, in their order. -/
def bindings (key : String) (pairs : List (ProgramValue × ProgramValue)) : List ProgramValue :=
  (pairs.filter fun pair => isKey key pair.1).map Prod.snd

/-- The first and the last value bound to a key become the same JSON value. -/
def BoundAlike (key : String) (pairs : List (ProgramValue × ProgramValue)) : Prop :=
  (bindings key pairs).head?.map toJson = (bindings key pairs).getLast?.map toJson

theorem bindings_cons_of_isKey {pair : ProgramValue × ProgramValue} (h : isKey key pair.1 = true)
    (pairs : List (ProgramValue × ProgramValue)) :
    bindings key (pair :: pairs) = pair.2 :: bindings key pairs := by
  simp [bindings, h]

theorem bindings_cons_of_not_isKey {pair : ProgramValue × ProgramValue}
    (h : isKey key pair.1 = false) (pairs : List (ProgramValue × ProgramValue)) :
    bindings key (pair :: pairs) = bindings key pairs := by
  simp [bindings, h]

theorem evalIndex_dict_cons (key : String) (pair : ProgramValue × ProgramValue)
    (pairs : List (ProgramValue × ProgramValue)) :
    evalIndex (.dict (pair :: pairs)) (.string key) =
      if isKey key pair.1 then .ok pair.2 else evalIndex (.dict pairs) (.string key) := by
  obtain ⟨k, value⟩ := pair
  cases k with
  | string s => by_cases h : s = key <;> simp [evalIndex, isKey, h]
  | _ => rfl

theorem evalIndex_dict (key : String) (pairs : List (ProgramValue × ProgramValue)) :
    evalIndex (.dict pairs) (.string key) =
      (bindings key pairs).head?.elim (.error (.keyError key)) .ok := by
  induction pairs with
  | nil => rfl
  | cons pair pairs ih =>
    rw [evalIndex_dict_cons]
    cases h : isKey key pair.1 with
    | true => rw [bindings_cons_of_isKey h]; rfl
    | false => rw [bindings_cons_of_not_isKey h, ← ih]; rfl

/-- The program reads the first value. -/
theorem evalIndex_eq_ok_iff {value : ProgramValue} :
    evalIndex (.dict pairs) (.string key) = .ok value ↔
      (bindings key pairs).head? = some value := by
  rw [evalIndex_dict]
  cases (bindings key pairs).head? <;> simp

theorem getField_insertField_self (fields : List (String × Json)) :
    getField key (insertField key value fields) = some value := by
  induction fields with
  | nil => simp [insertField]
  | cons field fields ih =>
    rw [insertField]
    split_ifs with hkey
    · simp
    · simpa [hkey] using ih

theorem getField_insertField_ne {key' : String} (h : key' ≠ key) (fields : List (String × Json)) :
    getField key (insertField key' value fields) = getField key fields := by
  induction fields with
  | nil => simp [insertField, h]
  | cons field fields ih =>
    rw [insertField]
    split_ifs with hkey
    · have hfield : field.1 ≠ key := fun heq => h (hkey.symm.trans heq)
      simp [h, hfield]
    · by_cases hfield : field.1 = key
      · simp [hfield]
      · simpa [hfield] using ih

/-- Of the values after another one, the last is the last. -/
theorem getLast?_cons_or {α : Type} (x : α) (xs : List α) (y : Option α) :
    (x :: xs).getLast?.or y = xs.getLast?.or (some x) := by
  cases xs with
  | nil => rfl
  | cons x' xs =>
    rw [List.getLast?_cons_cons]
    cases h : (x' :: xs).getLast? with
    | none => simp at h
    | some z => rfl

/-- The map keeps the last value, over what it had before. -/
theorem getField_pairsToJson (key : String) (pairs : List (ProgramValue × ProgramValue))
    (fields : List (String × Json)) :
    getField key (pairsToJson pairs fields) =
      ((bindings key pairs).getLast?.map toJson).or (getField key fields) := by
  induction pairs generalizing fields with
  | nil => rfl
  | cons pair pairs ih =>
    obtain ⟨k, value⟩ := pair
    cases hk : isKey key k with
    | true =>
      rw [bindings_cons_of_isKey hk]
      cases k with
      | string s =>
        have hs : s = key := by simpa [isKey] using hk
        rw [hs, pairsToJson, ih, getField_insertField_self, ← List.getLast?_map,
          ← List.getLast?_map, List.map_cons, getLast?_cons_or]
      | _ => cases hk
    | false =>
      rw [bindings_cons_of_not_isKey hk]
      cases k with
      | string s =>
        have hs : s ≠ key := by simpa [isKey] using hk
        rw [pairsToJson, ih, getField_insertField_ne hs]
      | _ =>
        rw [pairsToJson, ih]
        rintro s v ⟨⟩

/-- What `to_json` keeps is what the program reads exactly when the key is bound alike. -/
theorem toJson_keeps_iff (key : String) (pairs : List (ProgramValue × ProgramValue)) :
    (∀ value, evalIndex (.dict pairs) (.string key) = .ok value →
      getField key (pairsToJson pairs []) = some value.toJson) ↔ BoundAlike key pairs := by
  rw [getField_pairsToJson, BoundAlike]
  simp only [evalIndex_eq_ok_iff, getField, List.find?_nil, Option.map_none, Option.or_none]
  cases hhead : (bindings key pairs).head? with
  | none =>
    rw [List.head?_eq_none_iff] at hhead
    simp [hhead]
  | some first =>
    simp only [Option.some.injEq, forall_eq']
    exact eq_comm

/-! ### Call requests -/

open Exec (readDescriptor constructCallRequest)

theorem readDescriptor_cons_string (s : String) (value : ProgramValue)
    (pairs : List (ProgramValue × ProgramValue)) (name : Option String)
    (input : List (String × Json)) :
    readDescriptor ((.string s, value) :: pairs) name input =
      if s = "tool" then
        match value with
        | .string tool => readDescriptor pairs (some tool) input
        | _ => .error (.typeError "tool name must be a string")
      else readDescriptor pairs name (insertField s value.toJson input) := rfl

theorem readDescriptor_field (hkey : key ≠ "tool") {name name' : Option String}
    {input input' : List (String × Json)}
    (h : readDescriptor pairs name input = .ok (name', input')) :
    getField key input' =
      ((bindings key pairs).getLast?.map toJson).or (getField key input) := by
  induction pairs generalizing name input with
  | nil =>
    cases h
    rfl
  | cons pair pairs ih =>
    obtain ⟨k, value⟩ := pair
    cases k with
    | string s =>
      rw [readDescriptor_cons_string] at h
      by_cases htool : s = "tool"
      · rw [if_pos htool] at h
        have hs : isKey key (.string s) = false := by
          simpa [isKey, htool] using Ne.symm hkey
        rw [bindings_cons_of_not_isKey hs]
        cases value with
        | string tool => exact ih h
        | _ => cases h
      · rw [if_neg htool] at h
        rw [ih h]
        by_cases hs : s = key
        · have hk : isKey key (.string s) = true := by simpa [isKey] using hs
          rw [bindings_cons_of_isKey hk, hs, getField_insertField_self, ← List.getLast?_map,
            ← List.getLast?_map, List.map_cons, getLast?_cons_or]
        · have hk : isKey key (.string s) = false := by simpa [isKey] using hs
          rw [bindings_cons_of_not_isKey hk, getField_insertField_ne hs]
    | _ =>
      rw [readDescriptor] at h
      · exact ih h
      · rintro s v ⟨⟩

theorem readDescriptor_tool {name name' : Option String} {input input' : List (String × Json)}
    (h : readDescriptor pairs name input = .ok (name', input')) :
    name'.map ProgramValue.string =
        (bindings "tool" pairs).getLast?.or (name.map ProgramValue.string) ∧
      ∀ value ∈ bindings "tool" pairs, ∃ s, value = .string s := by
  induction pairs generalizing name input with
  | nil =>
    cases h
    exact ⟨rfl, by simp [bindings]⟩
  | cons pair pairs ih =>
    obtain ⟨k, value⟩ := pair
    cases k with
    | string s =>
      rw [readDescriptor_cons_string] at h
      by_cases htool : s = "tool"
      · rw [if_pos htool] at h
        have hs : isKey "tool" (.string s) = true := by simpa [isKey] using htool
        rw [bindings_cons_of_isKey hs, getLast?_cons_or]
        cases value with
        | string tool =>
          obtain ⟨hlast, hstrings⟩ := ih h
          refine ⟨hlast, ?_⟩
          rw [List.forall_mem_cons]
          exact ⟨⟨tool, rfl⟩, hstrings⟩
        | _ => cases h
      · rw [if_neg htool] at h
        have hs : isKey "tool" (.string s) = false := by simpa [isKey] using htool
        rw [bindings_cons_of_not_isKey hs]
        exact ih h
    | _ =>
      rw [readDescriptor] at h
      · exact ih h
      · rintro s v ⟨⟩

/-- The request keeps a value under a key: as its tool, or as a field of its input. -/
def Keeps (request : CallRequest) (key : String) (value : ProgramValue) : Prop :=
  if key = "tool" then value = .string request.toolName
  else ∃ fields, request.input = .object fields ∧ getField key fields = some value.toJson

theorem constructCallRequest_eq_ok {request : CallRequest}
    (h : constructCallRequest (.dict pairs) = .ok request) :
    ∃ fields, readDescriptor pairs Option.none [] = .ok (some request.toolName, fields) ∧
      request.input = .object fields := by
  cases hread : readDescriptor pairs Option.none [] with
  | error e => simp [constructCallRequest, hread] at h
  | ok result =>
    obtain ⟨name, fields⟩ := result
    cases name with
    | none => simp [constructCallRequest, hread] at h
    | some name =>
      simp only [constructCallRequest, hread, Except.ok.injEq] at h
      subst h
      exact ⟨fields, rfl, rfl⟩

/-- What a request keeps is what the program reads exactly when the key is bound alike. -/
theorem request_keeps_iff {request : CallRequest}
    (h : constructCallRequest (.dict pairs) = .ok request) (key : String) :
    (∀ value, evalIndex (.dict pairs) (.string key) = .ok value → Keeps request key value) ↔
      BoundAlike key pairs := by
  obtain ⟨fields, hread, hinput⟩ := constructCallRequest_eq_ok h
  by_cases hkey : key = "tool"
  · obtain ⟨hlast, hstrings⟩ := readDescriptor_tool hread
    rw [Option.map_none, Option.or_none] at hlast
    simp only [Keeps, evalIndex_eq_ok_iff, BoundAlike, hkey, ← hlast]
    cases hhead : (bindings "tool" pairs).head? with
    | none =>
      rw [List.head?_eq_none_iff] at hhead
      rw [hhead] at hlast
      cases hlast
    | some first =>
      obtain ⟨name, rfl⟩ := hstrings first (List.mem_of_mem_head? (by rw [hhead]; rfl))
      simp [toJson]
  · have hfield := readDescriptor_field hkey hread
    simp only [getField, List.find?_nil, Option.map_none, Option.or_none] at hfield
    simp only [Keeps, if_neg hkey, hinput, object.injEq, exists_eq_left',
      evalIndex_eq_ok_iff, BoundAlike, getField, hfield]
    cases hhead : (bindings key pairs).head? with
    | none =>
      rw [List.head?_eq_none_iff] at hhead
      simp [hhead]
    | some first =>
      simp only [Option.some.injEq, forall_eq']
      exact eq_comm

/-- Values without repeated keys come back, and a repeated key is kept as it is read exactly
when its first and its last value become the same JSON value. -/
theorem json_boundary_exact (v : ProgramValue) (j : Json)
    (pairs : List (ProgramValue × ProgramValue)) (key : String) (request : CallRequest) :
    (Distinct v → Json.Reordered v.toJson j → SameUpToOrder v (fromJson j)) ∧
      ((∀ value, evalIndex (.dict pairs) (.string key) = .ok value →
        Json.getField key (pairsToJson pairs []) = some value.toJson) ↔ BoundAlike key pairs) ∧
      (constructCallRequest (.dict pairs) = .ok request →
        ((∀ value, evalIndex (.dict pairs) (.string key) = .ok value →
          Keeps request key value) ↔ BoundAlike key pairs)) :=
  ⟨fun hv hj => fromJson_sameUpToOrder hv hj, toJson_keeps_iff key pairs,
    fun hrequest => request_keeps_iff hrequest key⟩

/-- The descriptor of `call({"tool": "read", "path": "a"}, path="b")`. -/
def overriding : List (ProgramValue × ProgramValue) :=
  entries [("tool", .string "read"), ("path", .string "a"), ("path", .string "b")]

/-- The request has the value of the override, while the program reads the other one. -/
theorem override_read_differently :
    evalIndex (.dict overriding) (.string "path") = .ok (.string "a") ∧
      Json.getField "path" (pairsToJson overriding []) = some (.string "b") ∧
      ∃ request, constructCallRequest (.dict overriding) = .ok request ∧
        ¬Keeps request "path" (.string "a") := by
  refine ⟨rfl, rfl, _, rfl, ?_⟩
  rintro ⟨fields, hinput, hfield⟩
  cases hinput
  have hkept : some (Json.string "b") = some (Json.string "a") := hfield
  simp at hkept

end ProgramValue

end Codegg.ToolProgram
