import Mathlib

/-!
# JavaScript values

The part of the language a filter on decoded data rests on: trees of objects, arrays, primitives
and Long leaves, the property read `value[key]` with its `TypeError` on `undefined` and `null`,
paths of property reads, and strict equality with a primitive.
-/

namespace Js

/-! ## Property lists -/

theorem lookup_cons_if {α : Type} (first key : String) (value : α)
    (fields : List (String × α)) :
    ((first, value) :: fields).lookup key =
      if key = first then some value else fields.lookup key := by
  rw [List.lookup_cons]
  by_cases same : key = first
  · simp [same]
  · rw [if_neg same, beq_eq_false_iff_ne.mpr same]

theorem mem_of_lookup {α : Type} {fields : List (String × α)} {key : String} {value : α}
    (found : fields.lookup key = some value) : (key, value) ∈ fields := by
  obtain ⟨front, back, rfl, -⟩ := List.lookup_eq_some_iff.mp found
  simp

/-! ## Numbers -/

/-- The remainder `left % right` of finite numbers, its sign that of the left operand. -/
def rem (left right : ℚ) : ℚ :=
  left - right * (if 0 ≤ left / right then ⌊left / right⌋ else ⌈left / right⌉ : ℤ)

theorem rem_eq_zero_iff (left : ℚ) {right : ℚ} (nonzero : right ≠ 0) :
    rem left right = 0 ↔ ∃ factor : ℤ, left = factor * right := by
  constructor
  · intro vanishes
    refine ⟨if 0 ≤ left / right then ⌊left / right⌋ else ⌈left / right⌉, ?_⟩
    rw [rem, sub_eq_zero] at vanishes
    rw [mul_comm]
    exact vanishes
  · rintro ⟨factor, rfl⟩
    have quotient : (factor * right) / right = (factor : ℚ) := by field_simp
    rw [rem, quotient, Int.floor_intCast, Int.ceil_intCast, ite_self]
    ring

/-- The double nearest to a 64-bit integer, ties to even. -/
def toDouble (value : Int) : ℚ :=
  let magnitude := value.natAbs
  let unit := 2 ^ (Nat.log2 magnitude - 52)
  let quotient := magnitude / unit
  let remainder := magnitude % unit
  let roundsUp := unit < 2 * remainder ∨ 2 * remainder = unit ∧ quotient % 2 = 1
  value.sign * ((if roundsUp then quotient + 1 else quotient) * unit : Nat)

/-! ## Values -/

/-- A thrown error object. -/
structure Error where
  /-- Its class name. -/
  name : String
  /-- Its message. -/
  message : String
deriving DecidableEq, Repr

theorem bind_eq_ok {ε α β : Type} {first : Except ε α} {next : α → Except ε β} {result : β} :
    first >>= next = .ok result ↔ ∃ value, first = .ok value ∧ next value = .ok result := by
  cases first <;> simp [bind, Except.bind]

/-- A primitive value other than `undefined`. Numbers are the finite ones. -/
inductive Scalar
  | null
  | bool (value : Bool)
  | num (value : ℚ)
  | str (text : String)
deriving DecidableEq, Repr

/-- A value. An object lists its own properties, and a read takes the first one of a name. -/
inductive Value
  | undefined
  | scalar (primitive : Scalar)
  /-- A 64-bit `Long` instance. -/
  | long (value : Int) (unsigned : Bool)
  /-- A `Uint8Array`. -/
  | bytes (data : List UInt8)
  /-- An array; a hole of it is `undefined`. -/
  | arr (items : List Value)
  | obj (fields : List (String × Value))
  /-- Whatever else a read can find: functions, prototype objects, half a surrogate pair. -/
  | builtin (name : String)

namespace Value

/-- The string value with the given text. -/
abbrev str (text : String) : Value := .scalar (.str text)

/-- The number value. -/
abbrev num (value : ℚ) : Value := .scalar (.num value)

/-- The null value. -/
abbrev null : Value := .scalar .null

/-! ## Structural equality -/

mutual

/-- Structural equality as a computation. -/
def same : Value → Value → Bool
  | .undefined, .undefined => true
  | .scalar left, .scalar right => left = right
  | .long left leftSign, .long right rightSign => left = right && leftSign = rightSign
  | .bytes left, .bytes right => left = right
  | .arr left, .arr right => sameItems left right
  | .obj left, .obj right => sameFields left right
  | .builtin left, .builtin right => left = right
  | _, _ => false

/-- Structural equality of array items. -/
def sameItems : List Value → List Value → Bool
  | [], [] => true
  | left :: lefts, right :: rights => same left right && sameItems lefts rights
  | _, _ => false

/-- Structural equality of property lists. -/
def sameFields : List (String × Value) → List (String × Value) → Bool
  | [], [] => true
  | (leftKey, left) :: lefts, (rightKey, right) :: rights =>
      leftKey = rightKey && same left right && sameFields lefts rights
  | _, _ => false

end

mutual

theorem same_iff (left right : Value) : same left right = true ↔ left = right := by
  cases left with
  | arr items =>
      cases right <;> simp [same, sameItems_iff items]
  | obj fields =>
      cases right <;> simp [same, sameFields_iff fields]
  | undefined | scalar | long | bytes | builtin => cases right <;> simp [same]

theorem sameItems_iff (lefts rights : List Value) :
    sameItems lefts rights = true ↔ lefts = rights := by
  cases lefts with
  | nil => cases rights <;> simp [sameItems]
  | cons left lefts =>
      cases rights with
      | nil => simp [sameItems]
      | cons right rights =>
          simp [sameItems, same_iff left right, sameItems_iff lefts rights]

theorem sameFields_iff (lefts rights : List (String × Value)) :
    sameFields lefts rights = true ↔ lefts = rights := by
  cases lefts with
  | nil => cases rights <;> simp [sameFields]
  | cons left lefts =>
      cases rights with
      | nil => simp [sameFields]
      | cons right rights =>
          obtain ⟨leftKey, left⟩ := left
          obtain ⟨rightKey, right⟩ := right
          simp [sameFields, same_iff left right, sameFields_iff lefts rights]

end

instance : DecidableEq Value := fun left right =>
  decidable_of_iff (same left right = true) (same_iff left right)

/-! ## Own properties -/

end Value

/-- The number a property name denotes when it is its canonical decimal text. -/
def index? (key : String) : Option Nat :=
  match key.toList with
  | [] => none
  | ['0'] => some 0
  | digit :: digits =>
      if digit ≠ '0' ∧ (digit :: digits).all Char.isDigit then
        some ((digit :: digits).foldl (fun number digit => 10 * number + (digit.toNat - 48)) 0)
      else
        none

/-- The property name is a non-negative integer. -/
def IsIndex (key : String) : Prop := (index? key).isSome

instance (key : String) : Decidable (IsIndex key) :=
  inferInstanceAs (Decidable ((index? key).isSome = true))

/-- The UTF-16 code units of a text. -/
def codeUnits (text : String) : List Nat :=
  text.toList.flatMap fun char =>
    if char.toNat < 0x10000 then
      [char.toNat]
    else
      [0xD800 + (char.toNat - 0x10000) / 0x400, 0xDC00 + (char.toNat - 0x10000) % 0x400]

/-- The one-unit string a string index reads. -/
def unitString (unit : Nat) : Value :=
  if 0xD800 ≤ unit ∧ unit < 0xE000 then
    .builtin "surrogate"
  else
    .str (String.ofList [Char.ofNat unit])

/-- The value of the low 32 bits as a signed number. -/
def toInt32 (value : Int) : Int :=
  if value % 2 ^ 32 < 2 ^ 31 then value % 2 ^ 32 else value % 2 ^ 32 - 2 ^ 32

namespace Value

/-- The own property of a receiver. -/
def own : Value → String → Option Value
  | .scalar (.str text), key =>
      if key = "length" then
        some (.num (codeUnits text).length)
      else
        (index? key).bind fun position => ((codeUnits text)[position]?).map unitString
  | .long value unsigned, key =>
      if key = "low" then some (.num (toInt32 value))
      else if key = "high" then some (.num (toInt32 (value / 2 ^ 32)))
      else if key = "unsigned" then some (.scalar (.bool unsigned))
      else none
  | .bytes data, key =>
      (index? key).bind fun position => data[position]?.map fun byte => .num byte.toNat
  | .arr items, key =>
      if key = "length" then
        some (.num items.length)
      else
        (index? key).bind fun position => items[position]?
  | .obj fields, key => fields.lookup key
  | _, _ => none

@[simp]
theorem own_obj (fields : List (String × Value)) (key : String) :
    own (.obj fields) key = fields.lookup key := rfl

/-- `undefined` or `null`: the receivers no property can be read from. -/
def Nullish : Value → Prop
  | .undefined => True
  | .scalar primitive => primitive = .null
  | _ => False

instance : DecidablePred Nullish := fun value => by
  cases value <;> simp only [Nullish] <;> infer_instance

end Value

/-- What decides the prototype chain of a receiver. -/
inductive Kind
  | string
  | number
  | boolean
  | long
  | bytes
  | array
  | object
  | builtin (name : String)
deriving DecidableEq

/-- The members a kind of value inherits from its prototype chain, `undefined` where the chain has
none of the name. -/
abbrev Prototypes := Kind → String → Value

namespace Value

/-- The kind of a receiver; `undefined` and `null` have no prototype and are never asked. -/
def kind : Value → Kind
  | .scalar (.str _) => .string
  | .scalar (.num _) => .number
  | .scalar (.bool _) => .boolean
  | .long _ _ => .long
  | .bytes _ => .bytes
  | .arr _ => .array
  | .builtin name => .builtin name
  | _ => .object

/-- The own or inherited member of a receiver. -/
def member (prototypes : Prototypes) (receiver : Value) (key : String) : Value :=
  (own receiver key).getD (prototypes receiver.kind key)

/-- The property read `receiver[key]`. -/
def get (prototypes : Prototypes) (receiver : Value) (key : String) : Except Error Value :=
  if Nullish receiver then
    .error
      { name := "TypeError"
        message := "Cannot read properties of " ++
          (if receiver = .undefined then "undefined" else "null") ++ " (reading '" ++ key ++ "')" }
  else
    .ok (member prototypes receiver key)

theorem get_of_nullish (prototypes : Prototypes) {receiver : Value} (key : String)
    (nullish : Nullish receiver) : ∃ error, get prototypes receiver key = .error error := by
  simp [get, nullish]

theorem get_of_not_nullish (prototypes : Prototypes) {receiver : Value} (key : String)
    (defined : ¬Nullish receiver) :
    get prototypes receiver key = .ok (member prototypes receiver key) := by
  simp [get, defined]

/-- The reads `receiver[key₁][key₂]…` from left to right. -/
def walk (prototypes : Prototypes) (receiver : Value) (path : List String) : Except Error Value :=
  path.foldlM (get prototypes) receiver

@[simp]
theorem walk_nil (prototypes : Prototypes) (receiver : Value) :
    walk prototypes receiver [] = .ok receiver := rfl

@[simp]
theorem walk_cons (prototypes : Prototypes) (receiver : Value) (key : String)
    (path : List String) :
    walk prototypes receiver (key :: path) =
      (get prototypes receiver key).bind fun next => walk prototypes next path := rfl

theorem walk_append (prototypes : Prototypes) (receiver : Value) (front back : List String) :
    walk prototypes receiver (front ++ back) =
      (walk prototypes receiver front).bind fun next => walk prototypes next back := by
  rw [walk, List.foldlM_append]
  rfl

/-- Some read of the path, other than the one of its last segment, finds `undefined` or `null`, or
the receiver itself is one of the two. -/
def PathMissing (prototypes : Prototypes) (receiver : Value) (path : List String) : Prop :=
  ∃ front key back, path = front ++ key :: back ∧
    ∃ value, walk prototypes receiver front = .ok value ∧ Nullish value

/-- A walk throws exactly when an intermediate value is missing. -/
theorem walk_error_iff (prototypes : Prototypes) (receiver : Value) (path : List String) :
    (∃ error, walk prototypes receiver path = .error error) ↔
      PathMissing prototypes receiver path := by
  induction path generalizing receiver with
  | nil => simp [PathMissing]
  | cons key path induction =>
      by_cases nullish : Nullish receiver
      · obtain ⟨error, thrown⟩ := get_of_nullish prototypes key nullish
        constructor
        · intro _
          exact ⟨[], key, path, rfl, receiver, rfl, nullish⟩
        · intro _
          exact ⟨error, by rw [walk_cons, thrown]; rfl⟩
      · have read := get_of_not_nullish prototypes key nullish
        rw [walk_cons, read]
        constructor
        · intro thrown
          obtain ⟨front, segment, back, rfl, value, walked, missing⟩ :=
            (induction _).mp thrown
          exact ⟨key :: front, segment, back, rfl, value, by rw [walk_cons, read]; exact walked,
            missing⟩
        · rintro ⟨front, segment, back, split, value, walked, missing⟩
          apply (induction _).mpr
          cases front with
          | nil =>
              obtain rfl : receiver = value := by simpa using walked
              exact absurd missing nullish
          | cons first front =>
              obtain ⟨rfl, rfl⟩ := List.cons_eq_cons.mp split
              refine ⟨front, segment, back, rfl, value, ?_, missing⟩
              rw [walk_cons, read] at walked
              exact walked

/-- The operator `key in value` on an object. -/
def hasProperty (prototypes : Prototypes) (value : Value) (key : String) : Bool :=
  (own value key).isSome || prototypes value.kind key ≠ .undefined

/-- Strict equality `===` of a value with a primitive. -/
def strictEq (value : Value) (primitive : Scalar) : Bool :=
  value = .scalar primitive

end Value

/-- The segments of `key.split('.')`. -/
def splitDots (key : String) : List String :=
  (key.toList.splitOn '.').map String.ofList

theorem splitDots_ne_nil (key : String) : splitDots key ≠ [] := by
  simp [splitDots, List.splitOn_ne_nil]

end Js
