import SubqlCosmos.Js.Record

/-!
# lodash

What the query builder uses of lodash: how `setWith` reads a path text and what it finds on the
objects it writes into, and which items `uniqBy` keeps.
-/

namespace Js

/-- The property names lodash refuses to write. -/
def guarded : List String := ["__proto__", "constructor", "prototype"]

/-- The members every object inherits from `Object.prototype`. -/
def objectMembers : List String :=
  ["__defineGetter__", "__defineSetter__", "__lookupGetter__", "__lookupSetter__", "__proto__",
    "constructor", "hasOwnProperty", "isPrototypeOf", "propertyIsEnumerable", "toLocaleString",
    "toString", "valueOf"]

/-- lodash and the objects it finds. Which path a text with brackets stands for is left open, and so
are the members of arrays. -/
structure Lodash where
  /-- The segments of a path text. -/
  stringToPath : String → List String
  /-- Without brackets the text is split at its dots. -/
  stringToPath_of_plain : ∀ key : String, '[' ∉ key.toList → ']' ∉ key.toList →
    stringToPath key = splitDots key
  /-- An object, or an array for `true`, inherits a function of this name. -/
  inherits : Bool → String → Bool
  inherits_object : ∀ name, inherits false name = true → name ∈ objectMembers
  /-- What a write at a path below such a function throws. -/
  raises : Bool → String → List String → Option Error
  /-- The number a text is converted to. -/
  toNumber : String → Option ℚ
  toNumber_decimal : ∀ text number, index? text = some number → number < 2 ^ 53 →
    toNumber text = some number
  /-- The items of which each has another key. -/
  uniqBy : {α κ : Type} → [DecidableEq κ] → (α → κ) → List α → List α
  uniqBy_nil : ∀ {α κ : Type} [DecidableEq κ] (key : α → κ), uniqBy key [] = []
  /-- The first item of a key is kept. -/
  uniqBy_cons : ∀ {α κ : Type} [DecidableEq κ] (key : α → κ) (item : α) (items : List α),
    uniqBy key (item :: items) =
      item :: uniqBy key (items.filter fun other => key other ≠ key item)

namespace Lodash

/-- The path of a key text for an object that has a property of that name, or has none. -/
def castPath (lodash : Lodash) (named : Bool) (key : String) : List String :=
  if named then [key] else lodash.stringToPath key

/-- Induction on a list where what holds of all selections of the rest may be used. -/
theorem filter_induction {α : Type} {motive : List α → Prop} (nil : motive [])
    (cons : ∀ item items, (∀ keeps : α → Bool, motive (items.filter keeps)) →
      motive (item :: items)) (items : List α) : motive items := by
  induction length : items.length using Nat.strong_induction_on generalizing items with
  | _ size induction =>
      cases items with
      | nil => exact nil
      | cons item items =>
          subst length
          apply cons
          intro keeps
          exact induction _ (Nat.lt_succ_of_le (List.length_filter_le _ _)) _ rfl

section UniqBy

variable {α κ ι : Type} [DecidableEq κ] [DecidableEq ι] (lodash : Lodash) (key : α → κ)
  {other : α → ι}

theorem uniqBy_sublist (items : List α) : (lodash.uniqBy key items).Sublist items := by
  induction items using filter_induction with
  | nil => rw [uniqBy_nil]
  | cons item items induction =>
      rw [uniqBy_cons]
      exact ((induction _).trans List.filter_sublist).cons_cons item

variable {key}

theorem mem_of_mem_uniqBy {items : List α} {item : α}
    (member : item ∈ lodash.uniqBy key items) : item ∈ items :=
  (lodash.uniqBy_sublist key items).subset member

theorem exists_mem_uniqBy (key : α → κ) {items : List α} {item : α} (member : item ∈ items) :
    ∃ kept ∈ lodash.uniqBy key items, key kept = key item := by
  induction items using filter_induction with
  | nil => exact absurd member List.not_mem_nil
  | cons first items induction =>
      rw [uniqBy_cons]
      by_cases same : key item = key first
      · exact ⟨first, List.mem_cons_self, same.symm⟩
      · have rest : item ∈ items := (List.mem_cons.mp member).resolve_left fun equal =>
          same (congrArg key equal)
        obtain ⟨kept, keptMember, keptKey⟩ := induction (fun other => key other ≠ key first)
          (List.mem_filter.mpr ⟨rest, by simpa using same⟩)
        exact ⟨kept, List.mem_cons_of_mem _ keptMember, keptKey⟩

variable (key)

variable {key}

/-- Keys that tell the same items apart keep the same items. -/
theorem uniqBy_congr {items : List α}
    (same : ∀ first ∈ items, ∀ second ∈ items,
      key first = key second ↔ other first = other second) :
    lodash.uniqBy key items = lodash.uniqBy other items := by
  induction items using filter_induction with
  | nil => rw [uniqBy_nil, uniqBy_nil]
  | cons item items induction =>
      have left : (items.filter fun later => key later ≠ key item) =
          items.filter fun later => other later ≠ other item := by
        refine List.filter_congr fun later member => ?_
        simp [same later (List.mem_cons_of_mem _ member) item List.mem_cons_self]
      rw [uniqBy_cons, uniqBy_cons, left, induction]
      have inside : ∀ {later}, later ∈ items.filter (fun later => other later ≠ other item) →
          later ∈ item :: items :=
        fun member => List.mem_cons_of_mem _ (List.mem_of_mem_filter member)
      intro first firstMember second secondMember
      exact same first (inside firstMember) second (inside secondMember)

end UniqBy

/-! ## A lodash for keys without brackets -/

/-- The first item of each key, given the keys seen before. -/
def firstOfKeys {α κ : Type} [DecidableEq κ] (key : α → κ) (seen : List κ) : List α → List α
  | [] => []
  | item :: items =>
      if key item ∈ seen then firstOfKeys key seen items
      else item :: firstOfKeys key (key item :: seen) items

theorem firstOfKeys_congr {α κ : Type} [DecidableEq κ] (key : α → κ) {left right : List κ}
    (same : ∀ name, name ∈ left ↔ name ∈ right) (items : List α) :
    firstOfKeys key left items = firstOfKeys key right items := by
  induction items generalizing left right with
  | nil => rfl
  | cons item items induction =>
      have grown : ∀ name, name ∈ key item :: left ↔ name ∈ key item :: right := by simp [same]
      rw [firstOfKeys, firstOfKeys, induction same, induction grown]
      simp only [same]

theorem firstOfKeys_seen {α κ : Type} [DecidableEq κ] (key : α → κ) (last : κ) (seen : List κ)
    (items : List α) :
    firstOfKeys key (last :: seen) items =
      firstOfKeys key seen (items.filter fun other => key other ≠ last) := by
  induction items generalizing seen with
  | nil => rfl
  | cons item items induction =>
      by_cases same : key item = last
      · rw [firstOfKeys, if_pos (by simp [same]), induction, List.filter_cons_of_neg (by simp [same])]
      · rw [List.filter_cons_of_pos (by simpa using same), firstOfKeys, firstOfKeys]
        by_cases old : key item ∈ seen
        · rw [if_pos (List.mem_cons_of_mem _ old), if_pos old, induction]
        · have swapped : ∀ name, name ∈ key item :: last :: seen ↔ name ∈ last :: key item :: seen :=
            fun name => by simp [or_left_comm]
          rw [if_neg (by simp [same, old]), if_neg old, firstOfKeys_congr key swapped, induction]

/-- lodash on keys without brackets, where nothing is inherited. -/
def dotted : Lodash where
  stringToPath := splitDots
  stringToPath_of_plain _ _ _ := rfl
  inherits _ _ := false
  inherits_object _ := nofun
  raises _ _ _ := none
  toNumber text := ((index? text).filter (· < 2 ^ 53)).map fun number => (number : ℚ)
  toNumber_decimal text number denotes small := by
    rw [denotes, Option.filter_some, if_pos (by simpa using small)]
    rfl
  uniqBy key := firstOfKeys key []
  uniqBy_nil _ := rfl
  uniqBy_cons key item items := by
    rw [firstOfKeys, if_neg List.not_mem_nil, firstOfKeys_seen]

end Lodash
end Js
