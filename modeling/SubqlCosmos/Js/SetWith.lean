import SubqlCosmos.Js.Json
import SubqlCosmos.Js.Lodash

/-!
# Writing at a path

lodash's `setWith` without a customizer: it walks a path into an object, reusing the objects, arrays
and functions it meets and creating what is missing, and writes a primitive at the end. It throws
where it gives an array a length that is none.
-/

namespace Js

/-- What stands below an object that lodash writes into. -/
inductive Nested
  | leaf (primitive : Scalar)
  | obj (fields : List (String × Nested))
  /-- An array with its length and its other own properties. -/
  | arr (length : Nat) (fields : List (String × Nested))
  /-- The function an object, or an array for `true`, inherits under the name. -/
  | inherited (array : Bool) (name : String)

/-- lodash creates an array in front of such a segment. -/
def ListIndex (segment : String) : Prop := ∃ position ∈ index? segment, position < 2 ^ 53 - 1

instance (segment : String) : Decidable (ListIndex segment) := by
  unfold ListIndex
  infer_instance

theorem ListIndex.isIndex {segment : String} (list : ListIndex segment) : IsIndex segment := by
  obtain ⟨position, denotes, -⟩ := list
  exact Option.isSome_iff_exists.mpr ⟨position, denotes⟩

namespace Nested

/-! ## The values that are serialised -/

/-- The items of an array among its properties; a hole is `undefined`. -/
def items (length : Nat) (fields : List (String × Value)) : List Value :=
  (List.range length).map fun position =>
    ((fields.find? fun field => arrayIndex? field.1 = some position).map Prod.snd).getD .undefined

mutual

/-- The value `JSON.stringify` is given. -/
def toValue : Nested → Value
  | .leaf primitive => .scalar primitive
  | .obj fields => .obj (toFields fields)
  | .arr length fields => .arr (items length (toFields fields))
  | .inherited _ name => .builtin name

/-- The properties of that value. -/
def toFields : List (String × Nested) → List (String × Value)
  | [] => []
  | (key, below) :: fields => (key, toValue below) :: toFields fields

end

theorem toFields_eq (fields : List (String × Nested)) :
    toFields fields = fields.map fun field => (field.1, toValue field.2) := by
  induction fields with
  | nil => rfl
  | cons field fields induction => rw [toFields, induction, List.map_cons]

theorem lookup_toFields (fields : List (String × Nested)) (key : String) :
    (toFields fields).lookup key = (fields.lookup key).map toValue := by
  induction fields with
  | nil => rfl
  | cons field fields induction =>
      rw [toFields, lookup_cons_if, lookup_cons_if, induction]
      split <;> rfl

/-! ## One write -/

/-- The own properties. -/
def fields : Nested → List (String × Nested)
  | .obj fields | .arr _ fields => fields
  | .leaf _ | .inherited _ _ => []

def isArray : Nested → Bool
  | .arr _ _ => true
  | .leaf _ | .obj _ | .inherited _ _ => false

/-- `[]` in front of an integer segment, `{}` in front of any other. -/
def fresh (next : String) : Nested := if ListIndex next then .arr 0 [] else .obj []

/-- The container a write goes on in: the one that is there, else a fresh one. -/
def container (found : Option Nested) (next : String) : Nested :=
  match found with
  | none | some (.leaf _) => fresh next
  | some below => below

/-- The function an object or an array inherits under the name. -/
def inheritedMember (lodash : Lodash) (array : Bool) (key : String) : Option Nested :=
  if lodash.inherits array key then some (.inherited array key) else none

/-- The member of that name, as far as it is an object. The length of an array is a number. -/
def member (lodash : Lodash) (receiver : Nested) (key : String) : Option Nested :=
  if receiver.isArray = true ∧ key = "length" then none
  else (receiver.fields.lookup key).or (inheritedMember lodash receiver.isArray key)

/-- The number is the length of some array. -/
def toLength (number : ℚ) : Option Nat :=
  if number.den = 1 ∧ 0 ≤ number.num ∧ number.num < 2 ^ 32 then some number.num.toNat else none

/-- The array length a value is converted to. Of objects only those just created are asked for. -/
def lengthOf (lodash : Lodash) : Nested → Option Nat
  | .leaf .null => some 0
  | .leaf (.bool value) => some value.toNat
  | .leaf (.num number) => toLength number
  | .leaf (.str text) => (lodash.toNumber text).bind toLength
  | .arr _ _ => some 0
  | .obj _ | .inherited _ _ => none

/-- The assignment `receiver[key] = value` where it does not throw. A shorter length takes the items
behind it away. -/
def assign (lodash : Lodash) : Nested → String → Nested → Nested
  | .obj fields, key, value => .obj (Record.putEntry key value fields)
  | .arr length fields, key, value =>
      if key = "length" then
        let shorter := (lengthOf lodash value).getD length
        .arr shorter (fields.filter fun field => (arrayIndex? field.1).all (· < shorter))
      else
        .arr (max length ((arrayIndex? key).elim 0 Nat.succ)) (Record.putEntry key value fields)
  | receiver, _, _ => receiver

/-- What the assignment `receiver[key] = value` throws. -/
def assignError (lodash : Lodash) (receiver : Nested) (key : String) (value : Nested) :
    Option Error :=
  if receiver.isArray = true ∧ key = "length" ∧ lengthOf lodash value = none then
    some { name := "RangeError", message := "Invalid array length" }
  else
    none

/-- What a write of a primitive at a path throws. -/
def writeError (lodash : Lodash) : Nested → List String → Scalar → Option Error
  | _, [], _ => none
  | .inherited array name, key :: path, _ => lodash.raises array name (key :: path)
  | receiver, [key], value =>
      if key ∈ guarded then none else assignError lodash receiver key (.leaf value)
  | receiver, key :: next :: path, value =>
      if key ∈ guarded then none
      else
        let below := container (receiver.member lodash key) next
        (assignError lodash receiver key below).or (writeError lodash below (next :: path) value)

/-- Write a primitive at a path, where nothing throws. -/
def setPath (lodash : Lodash) : Nested → List String → Scalar → Nested
  | receiver, [], _ => receiver
  | receiver, [key], value =>
      if key ∈ guarded then receiver else assign lodash receiver key (.leaf value)
  | receiver, key :: next :: path, value =>
      if key ∈ guarded then receiver
      else
        assign lodash receiver key
          (setPath lodash (container (receiver.member lodash key) next) (next :: path) value)

/-- lodash `setWith(receiver, key, value)`. -/
def setWith (lodash : Lodash) (receiver : Nested) (key : String) (value : Scalar) :
    Except Error Nested :=
  let path := lodash.castPath (receiver.fields.lookup key).isSome key
  match writeError lodash receiver path value with
  | some error => .error error
  | none => .ok (setPath lodash receiver path value)

/-! ## What a write leaves -/

variable (lodash : Lodash)

@[simp]
theorem setPath_nil (receiver : Nested) (value : Scalar) :
    setPath lodash receiver [] value = receiver := by
  cases receiver <;> rfl

theorem setPath_guarded (receiver : Nested) {key : String} (path : List String) (value : Scalar)
    (refused : key ∈ guarded) : setPath lodash receiver (key :: path) value = receiver := by
  cases path <;> cases receiver <;> exact if_pos refused

/-- What stands at a property of an object after a write through it, given what stood there. -/
def written (key : String) (own : Option Nested) : List String → Scalar → Nested
  | [], value => .leaf value
  | next :: path, value =>
      setPath lodash (container (own.or (inheritedMember lodash false key)) next) (next :: path) value

theorem setPath_obj (fields : List (String × Nested)) {key : String} (path : List String)
    (value : Scalar) (writable : key ∉ guarded) :
    setPath lodash (.obj fields) (key :: path) value =
      .obj (Record.putEntry key (written lodash key (fields.lookup key) path value) fields) := by
  cases path with
  | nil => exact if_neg writable
  | cons next path =>
      have found : member lodash (.obj fields) key =
          (fields.lookup key).or (inheritedMember lodash false key) :=
        if_neg fun array => absurd array.1 Bool.false_ne_true
      rw [written, ← found]
      exact if_neg writable

theorem exists_setPath_obj (fields : List (String × Nested)) (path : List String) (value : Scalar) :
    ∃ after, setPath lodash (.obj fields) path value = .obj after := by
  cases path with
  | nil => exact ⟨fields, rfl⟩
  | cons key path =>
      by_cases refused : key ∈ guarded
      · exact ⟨fields, setPath_guarded lodash _ path value refused⟩
      · exact ⟨_, setPath_obj lodash fields path value refused⟩

theorem exists_assign_arr (length : Nat) (fields : List (String × Nested)) (key : String)
    (value : Nested) : ∃ longer after, assign lodash (.arr length fields) key value = .arr longer after := by
  rw [assign]
  split <;> exact ⟨_, _, rfl⟩

theorem exists_setPath_arr (length : Nat) (fields : List (String × Nested)) (path : List String)
    (value : Scalar) :
    ∃ longer after, setPath lodash (.arr length fields) path value = .arr longer after := by
  cases path with
  | nil => exact ⟨length, fields, rfl⟩
  | cons key path =>
      by_cases refused : key ∈ guarded
      · exact ⟨length, fields, setPath_guarded lodash _ path value refused⟩
      · cases path with
        | nil =>
            rw [setPath, if_neg refused]
            exact exists_assign_arr lodash _ _ _ _
        | cons next path =>
            rw [setPath, if_neg refused]
            exact exists_assign_arr lodash _ _ _ _

theorem setPath_inherited (array : Bool) (name : String) (path : List String) (value : Scalar) :
    setPath lodash (.inherited array name) path value = .inherited array name := by
  cases path with
  | nil => rfl
  | cons key path =>
      cases path <;> exact ite_self _

/-! ## Trees of objects -/

/-- The segment is written as the name of an ordinary property. -/
structure Ordinary (segment : String) : Prop where
  writable : segment ∉ guarded
  uninherited : lodash.inherits false segment = false
  named : ¬ListIndex segment

/-- Objects and primitives only. -/
inductive ObjectTree : Nested → Prop
  | leaf (primitive : Scalar) : ObjectTree (.leaf primitive)
  | obj (fields : List (String × Nested)) (each : ∀ field ∈ fields, ObjectTree field.2) :
      ObjectTree (.obj fields)

theorem ObjectTree.toJson {tree : Nested} (objectTree : ObjectTree tree) :
    ¬tree.toValue.Unserialisable ∧ tree.toValue.toJson = tree.toValue := by
  induction objectTree with
  | leaf primitive => exact ⟨not_false, rfl⟩
  | obj fields each induction =>
      refine ⟨not_false, ?_⟩
      rw [toValue, Value.toJson, toFields_eq, Value.toJsonFields_eq_self]
      intro field member
      obtain ⟨below, listed, rfl⟩ := List.mem_map.mp member
      exact induction below listed

variable {lodash}

/-- A write at ordinary segments into a tree of objects goes on in an object. -/
theorem exists_container {fields : List (String × Nested)} (tree : ObjectTree (.obj fields))
    {key next : String} (ordinary : Ordinary lodash key) (named : ¬ListIndex next) :
    ∃ below, container (member lodash (.obj fields) key) next = .obj below ∧
      ObjectTree (.obj below) := by
  have found : member lodash (.obj fields) key = fields.lookup key := by
    have own : member lodash (.obj fields) key =
        (fields.lookup key).or (inheritedMember lodash false key) :=
      if_neg fun array => absurd array.1 Bool.false_ne_true
    rw [own, inheritedMember, ordinary.uninherited]
    exact Option.or_none
  have empty : ObjectTree (.obj []) := .obj [] nofun
  rw [found]
  cases looked : fields.lookup key with
  | none => exact ⟨[], if_neg named, empty⟩
  | some own =>
      cases tree with
      | obj _ each =>
          have ownTree := each _ (mem_of_lookup looked)
          cases own with
          | leaf primitive => exact ⟨[], if_neg named, empty⟩
          | obj below => exact ⟨below, rfl, ownTree⟩
          | arr | inherited => cases ownTree

/-- A write at ordinary segments keeps a tree of objects, and does not throw. -/
theorem ObjectTree.setPath {fields : List (String × Nested)} (tree : ObjectTree (.obj fields))
    {path : List String} (ordinary : ∀ key ∈ path, Ordinary lodash key) (value : Scalar) :
    ObjectTree (setPath lodash (.obj fields) path value) ∧
      writeError lodash (.obj fields) path value = none := by
  have grown : ∀ {key : String} {below : Nested} {fields : List (String × Nested)},
      ObjectTree (.obj fields) → ObjectTree below →
        ObjectTree (.obj (Record.putEntry key below fields)) := by
    intro key below fields tree belowTree
    cases tree with
    | obj _ each =>
        refine .obj _ fun field member => ?_
        rcases Record.mem_putEntry member with rfl | old
        · exact belowTree
        · exact each field old
  have unthrown : ∀ (fields : List (String × Nested)) (key : String) (below : Nested),
      assignError lodash (.obj fields) key below = none :=
    fun _ _ _ => if_neg fun array => absurd array.1 Bool.false_ne_true
  induction path generalizing fields with
  | nil => exact ⟨tree, rfl⟩
  | cons key path induction =>
      have here := ordinary key List.mem_cons_self
      cases path with
      | nil =>
          rw [Nested.setPath, if_neg here.writable, writeError, if_neg here.writable]
          exact ⟨grown tree (.leaf value), unthrown _ _ _⟩
          exact nofun
      | cons next path =>
          have later : ∀ other ∈ next :: path, Ordinary lodash other :=
            fun other member => ordinary other (List.mem_cons_of_mem _ member)
          obtain ⟨below, same, belowTree⟩ :=
            exists_container tree here (later next List.mem_cons_self).named
          obtain ⟨kept, unthrownBelow⟩ := induction belowTree later
          rw [Nested.setPath, if_neg here.writable, writeError, if_neg here.writable, same]
          refine ⟨grown tree kept, ?_⟩
          simp only [unthrown, Option.none_or, unthrownBelow]
          exact nofun

end Nested
end Js
