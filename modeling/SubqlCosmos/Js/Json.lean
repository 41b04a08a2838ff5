import SubqlCosmos.Js.Value

/-!
# JSON trees and containment

Serialisation of a value as JSON, the values that are JSON trees already, and containment of one
JSON tree in another as PostgreSQL's `jsonb @>` decides it below the top level.
-/

namespace Js
namespace Value

/-! ## Serialisation -/

/-- `JSON.stringify` leaves a value of this form out of an object and writes `null` for it in an
array. -/
def Unserialisable : Value → Prop
  | .undefined | .builtin _ => True
  | _ => False

instance : DecidablePred Unserialisable
  | .undefined | .builtin _ => inferInstanceAs (Decidable True)
  | .scalar _ | .long .. | .bytes _ | .arr _ | .obj _ => inferInstanceAs (Decidable False)

mutual

/-- The tree `JSON.stringify` writes. -/
def toJson : Value → Value
  | .long value unsigned =>
      .obj [("low", .num (toInt32 value)), ("high", .num (toInt32 (value / 2 ^ 32))),
        ("unsigned", .scalar (.bool unsigned))]
  | .bytes data =>
      .obj (data.zipIdx.map fun (byte, position) => (toString position, .num byte.toNat))
  | .arr items => .arr (toJsonItems items)
  | .obj fields => .obj (toJsonFields fields)
  | value => value

/-- Array items as they are written. -/
def toJsonItems : List Value → List Value
  | [] => []
  | item :: items =>
      (if Unserialisable item then .null else toJson item) :: toJsonItems items

/-- Object properties as they are written. -/
def toJsonFields : List (String × Value) → List (String × Value)
  | [] => []
  | (key, value) :: fields =>
      if Unserialisable value then toJsonFields fields
      else (key, toJson value) :: toJsonFields fields

end

/-! ## JSON trees without Long leaves -/

mutual

/-- A JSON tree in which nothing passes for a Long: no leaf is one, and no object carries the
property `__isLong__: true` Longs are recognised by. -/
def isJsonTree : Value → Bool
  | .scalar _ => true
  | .arr items => areJsonTrees items
  | .obj fields =>
      fields.lookup "__isLong__" ≠ some (.scalar (.bool true)) && areJsonFields fields
  | _ => false

/-- Every item is a JSON tree. -/
def areJsonTrees : List Value → Bool
  | [] => true
  | item :: items => isJsonTree item && areJsonTrees items

/-- Every property value is a JSON tree. -/
def areJsonFields : List (String × Value) → Bool
  | [] => true
  | (_, value) :: fields => isJsonTree value && areJsonFields fields

end

/-- The value is a JSON tree without Long leaves. -/
def JsonTree (value : Value) : Prop := isJsonTree value = true

instance : DecidablePred JsonTree := fun value =>
  inferInstanceAs (Decidable (isJsonTree value = true))

theorem areJsonTrees_iff (items : List Value) :
    areJsonTrees items = true ↔ ∀ item ∈ items, item.JsonTree := by
  induction items with
  | nil => simp [areJsonTrees]
  | cons item items induction => simp [areJsonTrees, induction, JsonTree]

theorem areJsonFields_iff (fields : List (String × Value)) :
    areJsonFields fields = true ↔ ∀ field ∈ fields, field.2.JsonTree := by
  induction fields with
  | nil => simp [areJsonFields]
  | cons field fields induction => simp [areJsonFields, induction, JsonTree]

@[simp]
theorem jsonTree_scalar (primitive : Scalar) : JsonTree (.scalar primitive) := rfl

@[simp]
theorem jsonTree_arr (items : List Value) :
    JsonTree (.arr items) ↔ ∀ item ∈ items, item.JsonTree := by
  simp [JsonTree, isJsonTree, areJsonTrees_iff]

@[simp]
theorem jsonTree_obj (fields : List (String × Value)) :
    JsonTree (.obj fields) ↔
      fields.lookup "__isLong__" ≠ some (.scalar (.bool true)) ∧
        ∀ field ∈ fields, field.2.JsonTree := by
  simp [JsonTree, isJsonTree, areJsonFields_iff]

theorem JsonTree.serialisable {value : Value} (json : value.JsonTree) :
    ¬value.Unserialisable := by
  cases value <;> simp_all [JsonTree, isJsonTree, Unserialisable]

mutual

theorem toJson_of_jsonTree (value : Value) (json : value.JsonTree) : value.toJson = value := by
  cases value with
  | scalar primitive => rfl
  | arr items =>
      rw [toJson, toJsonItems_of_jsonTree items ((jsonTree_arr items).mp json)]
  | obj fields =>
      rw [toJson, toJsonFields_of_jsonTree fields ((jsonTree_obj fields).mp json).2]
  | undefined | long | bytes | builtin => simp [JsonTree, isJsonTree] at json

theorem toJsonItems_of_jsonTree (items : List Value) (json : ∀ item ∈ items, item.JsonTree) :
    toJsonItems items = items := by
  cases items with
  | nil => rfl
  | cons item items =>
      have itemJson := json item List.mem_cons_self
      rw [toJsonItems, if_neg itemJson.serialisable, toJson_of_jsonTree item itemJson,
        toJsonItems_of_jsonTree items fun other member =>
          json other (List.mem_cons_of_mem _ member)]

theorem toJsonFields_of_jsonTree (fields : List (String × Value))
    (json : ∀ field ∈ fields, field.2.JsonTree) : toJsonFields fields = fields := by
  cases fields with
  | nil => rfl
  | cons field fields =>
      obtain ⟨key, value⟩ := field
      have valueJson : value.JsonTree := json (key, value) List.mem_cons_self
      rw [toJsonFields, if_neg valueJson.serialisable, toJson_of_jsonTree value valueJson,
        toJsonFields_of_jsonTree fields fun other member =>
          json other (List.mem_cons_of_mem _ member)]

end

theorem toJsonFields_eq_self {fields : List (String × Value)}
    (each : ∀ field ∈ fields, ¬field.2.Unserialisable ∧ field.2.toJson = field.2) :
    toJsonFields fields = fields := by
  induction fields with
  | nil => rfl
  | cons field fields induction =>
      obtain ⟨⟨serialisable, same⟩, later⟩ := List.forall_mem_cons.mp each
      rw [toJsonFields, if_neg serialisable, same, induction later]

theorem lookup_toJsonFields {fields : List (String × Value)} {key : String} {value : Value}
    (found : fields.lookup key = some value) (written : ¬value.Unserialisable) :
    (toJsonFields fields).lookup key = some value.toJson := by
  induction fields with
  | nil => simp at found
  | cons field fields induction =>
      obtain ⟨other, first⟩ := field
      rw [lookup_cons_if] at found
      rw [toJsonFields]
      split at found
      · obtain rfl : first = value := by simpa using found
        rw [if_neg written, lookup_cons_if, if_pos ‹_›]
      · split
        · exact induction found
        · rw [lookup_cons_if, if_neg ‹_›]
          exact induction found

theorem mem_toJsonFields {fields : List (String × Value)} {key : String} {written : Value} :
    (key, written) ∈ toJsonFields fields ↔
      ∃ value, (key, value) ∈ fields ∧ ¬value.Unserialisable ∧ written = value.toJson := by
  induction fields with
  | nil => simp [toJsonFields]
  | cons field fields induction =>
      obtain ⟨other, first⟩ := field
      rw [toJsonFields]
      split
      · rename_i left
        rw [induction]
        constructor
        · rintro ⟨value, member, serialisable, same⟩
          exact ⟨value, List.mem_cons_of_mem _ member, serialisable, same⟩
        · rintro ⟨value, member, serialisable, same⟩
          rcases List.mem_cons.mp member with equal | member
          · obtain ⟨-, rfl⟩ := Prod.mk.inj equal
            exact absurd left serialisable
          · exact ⟨value, member, serialisable, same⟩
      · rename_i serialisable
        rw [List.mem_cons, induction]
        constructor
        · rintro (equal | ⟨value, member, others⟩)
          · obtain ⟨rfl, rfl⟩ := Prod.mk.inj equal
            exact ⟨first, List.mem_cons_self, serialisable, rfl⟩
          · exact ⟨value, List.mem_cons_of_mem _ member, others⟩
        · rintro ⟨value, member, others⟩
          rcases List.mem_cons.mp member with equal | member
          · obtain ⟨rfl, rfl⟩ := Prod.mk.inj equal
            exact Or.inl (by rw [others.2])
          · exact Or.inr ⟨value, member, others⟩

/-! ## Containment -/

mutual

/-- The query is contained in the data: every property of an object in the property of that name,
every item of an array in some item, a primitive in an equal one. -/
def containedIn : Value → Value → Bool
  | .scalar query, .scalar data => query = data
  | .arr queries, .arr data => itemsContainedIn queries data
  | .obj queries, .obj data => fieldsContainedIn queries data
  | _, _ => false

/-- Every query is contained in some item. -/
def itemsContainedIn : List Value → List Value → Bool
  | [], _ => true
  | query :: queries, data =>
      data.any (containedIn query ·) && itemsContainedIn queries data

/-- Every query property is contained in the property of its name. -/
def fieldsContainedIn : List (String × Value) → List (String × Value) → Bool
  | [], _ => true
  | (key, query) :: queries, data =>
      ((data.lookup key).any fun value => containedIn query value) &&
        fieldsContainedIn queries data

end

theorem fieldsContainedIn_iff (queries data : List (String × Value)) :
    fieldsContainedIn queries data = true ↔
      ∀ key query, (key, query) ∈ queries →
        ∃ value, data.lookup key = some value ∧ containedIn query value = true := by
  induction queries with
  | nil => simp [fieldsContainedIn]
  | cons field queries induction =>
      obtain ⟨key, query⟩ := field
      rw [fieldsContainedIn, Bool.and_eq_true, induction, Option.any_eq_true]
      constructor
      · rintro ⟨first, rest⟩ other value member
        rcases List.mem_cons.mp member with same | member
        · obtain ⟨rfl, rfl⟩ := Prod.mk.inj same
          obtain ⟨value, found, contained⟩ := first
          exact ⟨value, found, contained⟩
        · exact rest other value member
      · intro all
        obtain ⟨value, found, contained⟩ := all key query List.mem_cons_self
        exact ⟨⟨value, found, contained⟩, fun other value member =>
          all other value (List.mem_cons_of_mem _ member)⟩

theorem itemsContainedIn_iff (queries data : List Value) :
    itemsContainedIn queries data = true ↔
      ∀ query ∈ queries, ∃ value ∈ data, containedIn query value = true := by
  induction queries with
  | nil => simp [itemsContainedIn]
  | cons query queries induction => simp [itemsContainedIn, induction]

theorem containedIn_scalar_iff (query : Scalar) (data : Value) :
    containedIn (.scalar query) data = true ↔ data = .scalar query := by
  cases data <;> simp [containedIn, eq_comm]

theorem containedIn_arr_iff (queries : List Value) (data : Value) :
    containedIn (.arr queries) data = true ↔
      ∃ items, data = .arr items ∧
        ∀ query ∈ queries, ∃ value ∈ items, containedIn query value = true := by
  cases data <;> simp [containedIn, itemsContainedIn_iff]

theorem containedIn_obj_iff (queries : List (String × Value)) (data : Value) :
    containedIn (.obj queries) data = true ↔
      ∃ fields, data = .obj fields ∧ ∀ key query, (key, query) ∈ queries →
        ∃ value, fields.lookup key = some value ∧ containedIn query value = true := by
  cases data <;> simp [containedIn, fieldsContainedIn_iff]

/-! ## The value at a path of object properties -/

/-- The value a path of own object properties leads to. -/
def descend : Value → List String → Option Value
  | value, [] => some value
  | .obj fields, key :: path => (fields.lookup key).bind (descend · path)
  | _, _ :: _ => none

@[simp]
theorem descend_nil (value : Value) : descend value [] = some value := by
  cases value <;> rfl

@[simp]
theorem descend_obj_cons (fields : List (String × Value)) (key : String) (path : List String) :
    descend (.obj fields) (key :: path) = (fields.lookup key).bind (descend · path) := rfl

theorem descend_cons_eq_some {value found : Value} {key : String} {path : List String}
    (reached : descend value (key :: path) = some found) :
    ∃ fields next, value = .obj fields ∧ fields.lookup key = some next ∧
      descend next path = some found := by
  cases value with
  | obj fields =>
      obtain ⟨next, looked, rest⟩ := Option.bind_eq_some_iff.mp reached
      exact ⟨fields, next, rfl, looked, rest⟩
  | undefined | scalar | long | bytes | arr | builtin => simp [descend] at reached

theorem descend_append (value : Value) (front back : List String) :
    descend value (front ++ back) = (descend value front).bind (descend · back) := by
  induction front generalizing value with
  | nil => simp
  | cons key front induction =>
      cases value with
      | obj fields =>
          simp only [List.cons_append, descend_obj_cons]
          cases fields.lookup key with
          | none => rfl
          | some next => exact induction next
      | undefined | scalar | long | bytes | arr | builtin => rfl

/-- On the way to a leaf there are objects. -/
theorem object_of_descend_append {tree found : Value} {front back : List String} {next : String}
    (reached : descend tree (front ++ next :: back) = some found) :
    ∃ fields, descend tree front = some (.obj fields) := by
  rw [descend_append] at reached
  obtain ⟨middle, middleReached, below⟩ := Option.bind_eq_some_iff.mp reached
  obtain ⟨fields, -, rfl, -, -⟩ := descend_cons_eq_some below
  exact ⟨fields, middleReached⟩

/-- Own properties hide inherited ones. -/
theorem walk_of_descend (prototypes : Prototypes) {value found : Value} {path : List String}
    (reached : descend value path = some found) : walk prototypes value path = .ok found := by
  induction path generalizing value with
  | nil => simpa using reached
  | cons key path induction =>
      obtain ⟨fields, next, rfl, looked, rest⟩ := descend_cons_eq_some reached
      have defined : ¬Nullish (.obj fields) := id
      have read : get prototypes (.obj fields) key = .ok next := by
        rw [get_of_not_nullish prototypes key defined]
        simp [member, looked]
      rw [walk_cons, read]
      exact induction rest

theorem JsonTree.descend {value found : Value} {path : List String} (json : value.JsonTree)
    (reached : descend value path = some found) : found.JsonTree := by
  induction path generalizing value with
  | nil =>
      obtain rfl : value = found := by simpa using reached
      exact json
  | cons key path induction =>
      obtain ⟨fields, next, rfl, looked, rest⟩ := descend_cons_eq_some reached
      exact induction (((jsonTree_obj fields).mp json).2 _ (mem_of_lookup looked)) rest

/-- Whatever the query holds at a path, the data holds something containing it there. -/
theorem descend_of_containedIn {query data found : Value} {path : List String}
    (contained : containedIn query data = true) (reached : descend query path = some found) :
    ∃ value, descend data path = some value ∧ containedIn found value = true := by
  induction path generalizing query data with
  | nil =>
      obtain rfl : query = found := by simpa using reached
      exact ⟨data, by simp, contained⟩
  | cons key path induction =>
      obtain ⟨queries, next, rfl, looked, rest⟩ := descend_cons_eq_some reached
      obtain ⟨fields, rfl, each⟩ := (containedIn_obj_iff queries data).mp contained
      obtain ⟨value, found, inside⟩ := each key next (mem_of_lookup looked)
      obtain ⟨deep, deepReached, deepInside⟩ := induction inside rest
      exact ⟨deep, by simp [found, deepReached], deepInside⟩

end Value
end Js
