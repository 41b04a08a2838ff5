import SubqlCosmos.Js.Record

/-!
# Objects in memory

A variable holds a primitive value or the place of an object, and objects refer to each other by their
places. A slot owns a tree when it is read as a value through objects that no two parts of the value share;
what is done to other objects then changes nothing about the value. lodash's `cloneDeep` copies a tree to
new objects; how it does so is left open.
-/

namespace Js

/-- What a variable or a property holds. -/
inductive Slot
  | undefined
  | scalar (primitive : Scalar)
  | object (place : Nat)
deriving DecidableEq

/-- An object with its own properties as they are enumerated; those of an array are its items. -/
structure Cell where
  isArray : Bool := false
  fields : List (String × Slot) := []
deriving DecidableEq

/-- The value of an object with the given properties. -/
def Cell.value (isArray : Bool) (fields : List (String × Value)) : Value :=
  if isArray then .arr (fields.map Prod.snd) else .obj fields

/-- The objects made so far. -/
abbrev Heap := List Cell

namespace Heap

/-- The own properties of what a slot holds. -/
def fields (heap : Heap) : Slot → List (String × Slot)
  | .object place => (heap[place]?.map Cell.fields).getD []
  | .undefined | .scalar _ => []

/-- An own property. -/
def field (heap : Heap) (slot : Slot) (key : String) : Slot :=
  ((heap.fields slot).lookup key).getD .undefined

/-- `object[key] = slot`. -/
def setField (heap : Heap) (place : Nat) (key : String) (slot : Slot) : Heap :=
  heap.modify place fun cell => { cell with fields := Record.putEntry key slot cell.fields }

/-! ## Growth -/

/-- The objects made before are as they were. -/
def Grown (heap after : Heap) : Prop :=
  heap.length ≤ after.length ∧ ∀ place < heap.length, after[place]? = heap[place]?

theorem Grown.refl (heap : Heap) : heap.Grown heap := ⟨le_rfl, fun _ _ => rfl⟩

theorem Grown.trans {heap middle after : Heap} (first : heap.Grown middle)
    (second : middle.Grown after) : heap.Grown after := by
  refine ⟨first.1.trans second.1, fun place old => ?_⟩
  exact (second.2 place (old.trans_le first.1)).trans (first.2 place old)

theorem Grown.append (heap new : Heap) : heap.Grown (heap ++ new) :=
  ⟨by simp, fun _ old => List.getElem?_append_left old⟩

/-- Objects made since may still be changed. -/
theorem Grown.setField {heap after : Heap} (grown : heap.Grown after) {place : Nat}
    (new : heap.length ≤ place) (key : String) (slot : Slot) :
    heap.Grown (after.setField place key slot) := by
  refine ⟨by simpa [Heap.setField] using grown.1, fun other old => ?_⟩
  rw [← grown.2 other old]
  exact List.getElem?_modify_ne _ _ (by omega)

/-! ## Trees -/

/-- A property of an object: what it holds, the value it is read as, and the places of its objects. -/
structure Part where
  slot : Slot
  value : Value
  places : List Nat

variable (parts : List (String × Part))

def slots : List (String × Slot) := parts.map fun part => (part.1, part.2.slot)

def values : List (String × Value) := parts.map fun part => (part.1, part.2.value)

def places : List Nat := parts.flatMap fun part => part.2.places

/-- The slot is read as the value, through the objects at the places and no others, each once. -/
inductive Owns (heap : Heap) : Slot → Value → List Nat → Prop
  | undefined : Owns heap .undefined .undefined []
  | scalar (primitive : Scalar) : Owns heap (.scalar primitive) (.scalar primitive) []
  | object {place : Nat} {isArray : Bool} {parts : List (String × Part)}
      (held : heap[place]? = some { isArray := isArray, fields := slots parts })
      (each : ∀ part ∈ parts, Owns heap part.2.slot part.2.value part.2.places)
      (ordered : (parts.map Prod.fst).Pairwise EnumeratedBefore)
      (once : (place :: places parts).Nodup) :
      Owns heap (.object place) (Cell.value isArray (values parts)) (place :: places parts)

/-- The properties are trees that share no object. -/
structure OwnsAll (heap : Heap) (parts : List (String × Part)) : Prop where
  each : ∀ part ∈ parts, Owns heap part.2.slot part.2.value part.2.places
  once : (places parts).Nodup

theorem keys_values (parts : List (String × Part)) :
    (values parts).map Prod.fst = parts.map Prod.fst := by
  simp [values, Function.comp_def]

theorem keys_slots (parts : List (String × Part)) :
    (slots parts).map Prod.fst = parts.map Prod.fst := by
  simp [slots, Function.comp_def]

theorem mem_places {parts : List (String × Part)} {place : Nat} :
    place ∈ places parts ↔ ∃ part ∈ parts, place ∈ part.2.places :=
  List.mem_flatMap

/-- A tree stays as long as its objects do. -/
theorem Owns.frame {heap after : Heap} {slot : Slot} {value : Value} {places : List Nat}
    (owned : Owns heap slot value places)
    (kept : ∀ place ∈ places, after[place]? = heap[place]?) : Owns after slot value places := by
  induction owned with
  | undefined => exact .undefined
  | scalar primitive => exact .scalar primitive
  | object held each ordered once ih =>
      refine .object ((kept _ List.mem_cons_self).trans held) (fun part member => ?_) ordered once
      refine ih part member fun place listed => kept place (List.mem_cons_of_mem _ ?_)
      exact mem_places.mpr ⟨part, member, listed⟩

theorem Owns.place_lt {heap : Heap} {slot : Slot} {value : Value} {places : List Nat}
    (owned : Owns heap slot value places) : ∀ place ∈ places, place < heap.length := by
  induction owned with
  | undefined | scalar => exact fun _ listed => absurd listed List.not_mem_nil
  | object held each ordered once ih =>
      refine List.forall_mem_cons.mpr ⟨(List.getElem?_eq_some_iff.mp held).1, fun place listed => ?_⟩
      obtain ⟨part, member, inside⟩ := mem_places.mp listed
      exact ih part member place inside

theorem Owns.places_nodup {heap : Heap} {slot : Slot} {value : Value} {places : List Nat}
    (owned : Owns heap slot value places) : places.Nodup := by
  cases owned with
  | undefined | scalar => exact List.nodup_nil
  | object held each ordered once => exact once

theorem Owns.grown {heap after : Heap} {slot : Slot} {value : Value} {places : List Nat}
    (owned : Owns heap slot value places) (grown : heap.Grown after) :
    Owns after slot value places :=
  owned.frame fun place listed => grown.2 place (owned.place_lt place listed)

namespace OwnsAll

variable {heap after : Heap} {parts : List (String × Part)}

theorem grown (owned : OwnsAll heap parts) (grown : heap.Grown after) : OwnsAll after parts :=
  ⟨fun part member => (owned.each part member).grown grown, owned.once⟩

theorem place_lt (owned : OwnsAll heap parts) : ∀ place ∈ places parts, place < heap.length := by
  intro place listed
  obtain ⟨part, member, inside⟩ := mem_places.mp listed
  exact (owned.each part member).place_lt place inside

theorem subperm {fewer : List (String × Part)} (owned : OwnsAll heap parts)
    (fewerOf : fewer.Subperm parts) : OwnsAll heap fewer := by
  obtain ⟨ordered, same, sublist⟩ := fewerOf
  refine ⟨fun part member => owned.each part (sublist.subset (same.mem_iff.mpr member)), ?_⟩
  have once : (places ordered).Nodup := owned.once.sublist (sublist.flatMap _)
  exact (same.flatMap_right _).nodup_iff.mp once

theorem append {others : List (String × Part)} (owned : OwnsAll heap parts)
    (also : OwnsAll heap others) (apart : (places parts).Disjoint (places others)) :
    OwnsAll heap (parts ++ others) := by
  refine ⟨List.forall_mem_append.mpr ⟨owned.each, also.each⟩, ?_⟩
  rw [places, List.flatMap_append]
  exact owned.once.append also.once apart

theorem cons (key : String) {part : Part} (first : Owns heap part.slot part.value part.places)
    (rest : OwnsAll heap parts) (apart : part.places.Disjoint (places parts)) :
    OwnsAll heap ((key, part) :: parts) := by
  refine ⟨List.forall_mem_cons.mpr ⟨first, rest.each⟩, ?_⟩
  rw [places, List.flatMap_cons]
  exact first.places_nodup.append rest.once apart

end OwnsAll

/-! ## Writing properties -/

section Writes

variable {α β : Type}

/-- The properties of `{ ...fields, ...added }`. -/
def spread (fields added : List (String × α)) : List (String × α) :=
  added.foldl (fun fields entry => Record.putEntry entry.1 entry.2 fields) fields

theorem map_putEntry (read : α → β) (key : String) (value : α) (fields : List (String × α)) :
    (Record.putEntry key value fields).map (fun field => (field.1, read field.2)) =
      Record.putEntry key (read value) (fields.map fun field => (field.1, read field.2)) := by
  induction fields with
  | nil => rfl
  | cons field fields ih =>
      simp only [Record.putEntry, List.map_cons]
      split
      · rfl
      · split
        · rw [List.map_cons, ih]
        · rfl

theorem slots_putEntry (key : String) (part : Part) (parts : List (String × Part)) :
    slots (Record.putEntry key part parts) = Record.putEntry key part.slot (slots parts) :=
  map_putEntry Part.slot key part parts

theorem values_putEntry (key : String) (part : Part) (parts : List (String × Part)) :
    values (Record.putEntry key part parts) = Record.putEntry key part.value (values parts) :=
  map_putEntry Part.value key part parts

theorem map_spread (read : α → β) (fields added : List (String × α)) :
    (spread fields added).map (fun field => (field.1, read field.2)) =
      spread (fields.map fun field => (field.1, read field.2))
        (added.map fun field => (field.1, read field.2)) := by
  induction added generalizing fields with
  | nil => rfl
  | cons entry added ih =>
      rw [spread, List.foldl_cons]
      exact (ih _).trans (by rw [map_putEntry]; rfl)

theorem putEntry_subperm (key : String) (value : α) (fields : List (String × α)) :
    (Record.putEntry key value fields).Subperm ((key, value) :: fields) := by
  induction fields with
  | nil => exact List.Subperm.refl _
  | cons field fields ih =>
      unfold Record.putEntry
      split
      · exact ((List.sublist_cons_self _ _).cons_cons _).subperm
      · split
        · exact ((List.subperm_cons field).mpr ih).trans (List.Perm.swap _ _ _).subperm
        · exact List.Subperm.refl _

theorem spread_subperm (fields added : List (String × α)) :
    (spread fields added).Subperm (added ++ fields) := by
  induction added generalizing fields with
  | nil => exact List.Subperm.refl _
  | cons entry added ih =>
      have later := (List.subperm_append_left added).mpr (putEntry_subperm entry.1 entry.2 fields)
      exact (ih _).trans (later.trans List.perm_middle.subperm)

/-- The entries of other names. -/
def others (key : String) (fields : List (String × α)) : List (String × α) :=
  fields.filter (·.1 ≠ key)

theorem nodup_of_ordered {fields : List (String × α)}
    (ordered : (fields.map Prod.fst).Pairwise EnumeratedBefore) : fields.Nodup := by
  have names : (fields.map Prod.fst).Nodup := ordered.imp fun before => before.1
  exact names.of_map

theorem putEntry_subperm_others {key : String} {value : α} {fields : List (String × α)}
    (ordered : (fields.map Prod.fst).Pairwise EnumeratedBefore) :
    (Record.putEntry key value fields).Subperm ((key, value) :: others key fields) := by
  refine (nodup_of_ordered (Record.putEntry_ordered key value ordered)).subperm fun item member => ?_
  rcases (Record.mem_putEntry_iff ordered item).mp member with rfl | ⟨old, different⟩
  · exact List.mem_cons_self
  · exact List.mem_cons_of_mem _ (List.mem_filter.mpr ⟨old, by simpa using different⟩)

/-- Writing what is there changes nothing. -/
theorem putEntry_of_lookup {key : String} {value : α} {fields : List (String × α)}
    (ordered : (fields.map Prod.fst).Pairwise EnumeratedBefore)
    (found : fields.lookup key = some value) : Record.putEntry key value fields = fields := by
  induction fields with
  | nil => cases found
  | cons field fields ih =>
      obtain ⟨name, held⟩ := field
      obtain ⟨first, rest⟩ := List.pairwise_cons.mp ordered
      rw [lookup_cons_if] at found
      by_cases same : key = name
      · subst same
        rw [if_pos rfl] at found
        rw [Record.putEntry, if_pos rfl, Option.some.inj found]
      · rw [if_neg same] at found
        have listed : key ∈ fields.map Prod.fst := by
          obtain ⟨front, back, split, -⟩ := List.lookup_eq_some_iff.mp found
          rw [split]
          simp
        rw [Record.putEntry, if_neg (Ne.symm same), if_pos (first key listed), ih rest found]

theorem lookup_map_snd (read : α → β) (key : String) (fields : List (String × α)) :
    (fields.map fun field => (field.1, read field.2)).lookup key = (fields.lookup key).map read := by
  induction fields with
  | nil => rfl
  | cons field fields ih =>
      rw [List.map_cons, lookup_cons_if, lookup_cons_if, ih]
      split <;> rfl

theorem lookup_others {key other : String} (different : other ≠ key) (fields : List (String × α)) :
    (others key fields).lookup other = fields.lookup other := by
  induction fields with
  | nil => rfl
  | cons field fields ih =>
      rw [others, List.filter_cons]
      split
      · rw [lookup_cons_if, lookup_cons_if]
        split
        · rfl
        · exact ih
      · rename_i same
        have named : field.1 = key := by simpa using same
        rw [lookup_cons_if, if_neg (named ▸ different)]
        exact ih

theorem spread_ordered {fields : List (String × α)} (added : List (String × α))
    (ordered : (fields.map Prod.fst).Pairwise EnumeratedBefore) :
    ((spread fields added).map Prod.fst).Pairwise EnumeratedBefore := by
  induction added generalizing fields with
  | nil => exact ordered
  | cons entry added ih => exact ih (Record.putEntry_ordered entry.1 entry.2 ordered)

theorem putEntry_of_last {key : String} (value : α) {fields : List (String × α)}
    (last : ∀ name ∈ fields.map Prod.fst, EnumeratedBefore name key) :
    Record.putEntry key value fields = fields ++ [(key, value)] := by
  induction fields with
  | nil => rfl
  | cons field fields ih =>
      obtain ⟨before, rest⟩ := List.forall_mem_cons.mp last
      rw [Record.putEntry, if_neg before.1, if_pos before, ih rest, List.cons_append]

theorem spread_of_ordered {front fields : List (String × α)}
    (ordered : ((front ++ fields).map Prod.fst).Pairwise EnumeratedBefore) :
    spread front fields = front ++ fields := by
  induction fields generalizing front with
  | nil => exact (List.append_nil front).symm
  | cons field fields ih =>
      have apart := ordered
      rw [List.map_append, List.map_cons] at apart
      have last : ∀ name ∈ front.map Prod.fst, EnumeratedBefore name field.1 := fun name listed =>
        (List.pairwise_append.mp apart).2.2 name listed field.1 List.mem_cons_self
      have whole : front ++ field :: fields = (front ++ [field]) ++ fields := by simp
      rw [whole] at ordered
      rw [spread, List.foldl_cons, putEntry_of_last field.2 last, whole]
      exact ih ordered

end Writes

namespace OwnsAll

variable {heap after : Heap} {parts : List (String × Part)} {key : String}

/-- A property shares no object with those of other names. -/
theorem disjoint_others (owned : OwnsAll heap parts) {part : Part}
    (found : parts.lookup key = some part) : part.places.Disjoint (places (others key parts)) := by
  obtain ⟨front, back, split, -⟩ := List.lookup_eq_some_iff.mp found
  have once := owned.once
  rw [split, places, List.flatMap_append, List.flatMap_cons] at once
  obtain ⟨-, rest, frontApart⟩ := List.nodup_append'.mp once
  obtain ⟨-, -, backApart⟩ := List.nodup_append'.mp rest
  intro place inside listed
  obtain ⟨other, member, shared⟩ := mem_places.mp listed
  obtain ⟨old, different⟩ := List.mem_filter.mp member
  rw [split] at old
  rcases List.mem_append.mp old with before | after
  · exact frontApart (List.mem_flatMap.mpr ⟨other, before, shared⟩) (List.mem_append_left _ inside)
  · rcases List.mem_cons.mp after with rfl | later
    · simp at different
    · exact backApart inside (List.mem_flatMap.mpr ⟨other, later, shared⟩)

theorem put (owned : OwnsAll heap parts) (ordered : (parts.map Prod.fst).Pairwise EnumeratedBefore)
    {part : Part} (new : Owns after part.slot part.value part.places)
    (kept : ∀ place ∈ places (others key parts), after[place]? = heap[place]?)
    (apart : part.places.Disjoint (places (others key parts))) :
    OwnsAll after (Record.putEntry key part parts) := by
  have rest := owned.subperm (List.filter_sublist (p := fun field => field.1 ≠ key)).subperm
  have framed : OwnsAll after (others key parts) := by
    refine ⟨fun other member => (rest.each other member).frame fun place listed => ?_, rest.once⟩
    exact kept place (mem_places.mpr ⟨other, member, listed⟩)
  exact (framed.cons key new apart).subperm (putEntry_subperm_others ordered)

theorem spread_nil (owned : OwnsAll heap parts) : OwnsAll heap (spread [] parts) :=
  owned.subperm (by simpa using spread_subperm [] parts)

end OwnsAll

theorem mem_places_of_subperm {fewer parts : List (String × Part)} (fewerOf : fewer.Subperm parts)
    {place : Nat} (listed : place ∈ places fewer) : place ∈ places parts := by
  obtain ⟨part, member, inside⟩ := mem_places.mp listed
  exact mem_places.mpr ⟨part, fewerOf.subset member, inside⟩

theorem mem_places_putEntry {key : String} {part : Part} {parts : List (String × Part)}
    (ordered : (parts.map Prod.fst).Pairwise EnumeratedBefore) {place : Nat}
    (listed : place ∈ places (Record.putEntry key part parts)) :
    place ∈ part.places ∨ place ∈ places (others key parts) :=
  List.mem_append.mp (mem_places_of_subperm (putEntry_subperm_others ordered) listed)

theorem mem_places_spread {parts added : List (String × Part)} {place : Nat}
    (listed : place ∈ places (spread parts added)) :
    place ∈ places added ∨ place ∈ places parts := by
  have either := mem_places_of_subperm (spread_subperm parts added) listed
  rwa [places, List.flatMap_append, List.mem_append] at either

theorem slots_others (key : String) (parts : List (String × Part)) :
    slots (others key parts) = others key (slots parts) := by
  rw [slots, others, others, slots, List.filter_map]
  rfl

theorem values_others (key : String) (parts : List (String × Part)) :
    values (others key parts) = others key (values parts) := by
  rw [values, others, others, values, List.filter_map]
  rfl

/-! ## Objects of parts -/

/-- The part under a name; `undefined` is a tree without objects. -/
def partAt (parts : List (String × Part)) (key : String) : Part :=
  (parts.lookup key).getD ⟨.undefined, .undefined, []⟩

/-- The object at the place has the parts as its properties. -/
structure IsObject (heap : Heap) (place : Nat) (isArray : Bool) (parts : List (String × Part)) :
    Prop where
  held : heap[place]? = some { isArray := isArray, fields := slots parts }
  all : OwnsAll heap parts
  ordered : (parts.map Prod.fst).Pairwise EnumeratedBefore
  outside : place ∉ places parts

namespace IsObject

variable {heap : Heap} {place : Nat} {isArray : Bool} {parts : List (String × Part)}

theorem owns (object : IsObject heap place isArray parts) :
    Owns heap (.object place) (Cell.value isArray (values parts)) (place :: places parts) :=
  .object object.held object.all.each object.ordered
    (List.nodup_cons.mpr ⟨object.outside, object.all.once⟩)

theorem fields_eq (object : IsObject heap place isArray parts) :
    heap.fields (.object place) = slots parts := by
  rw [fields, object.held]
  rfl

theorem field_eq (object : IsObject heap place isArray parts) (key : String) :
    heap.field (.object place) key = (partAt parts key).slot := by
  rw [field, object.fields_eq, slots, lookup_map_snd Part.slot, partAt]
  cases parts.lookup key <;> rfl

end IsObject

theorem Owns.exists_isObject {heap : Heap} {place : Nat} {value : Value} {originals : List Nat}
    (owned : Owns heap (.object place) value originals) :
    ∃ isArray parts, IsObject heap place isArray parts ∧ value = Cell.value isArray (values parts) ∧
      originals = place :: places parts := by
  cases owned with
  | object held each ordered once =>
      obtain ⟨outside, partsOnce⟩ := List.nodup_cons.mp once
      exact ⟨_, _, ⟨held, ⟨each, partsOnce⟩, ordered, outside⟩, rfl, rfl⟩

theorem Owns.eq_undefined {heap : Heap} {value : Value} {originals : List Nat}
    (owned : Owns heap .undefined value originals) : value = .undefined := by
  cases owned
  rfl

theorem Owns.eq_scalar_iff {heap : Heap} {slot : Slot} {value : Value} {originals : List Nat}
    (owned : Owns heap slot value originals) (primitive : Scalar) :
    slot = .scalar primitive ↔ value = .scalar primitive := by
  cases owned with
  | undefined => simp
  | scalar => simp
  | @object place isArray parts =>
      cases isArray <;> simp [Cell.value]

theorem Owns.exists_of_obj {heap : Heap} {slot : Slot} {read : List (String × Value)}
    {originals : List Nat} (owned : Owns heap slot (.obj read) originals) :
    ∃ place parts, slot = .object place ∧ IsObject heap place false parts ∧ read = values parts ∧
      originals = place :: places parts := by
  cases slot with
  | undefined => cases owned
  | scalar primitive => cases owned
  | object place =>
      obtain ⟨isArray, parts, object, same, listed⟩ := owned.exists_isObject
      cases isArray with
      | true => cases same
      | false => exact ⟨place, parts, rfl, object, Value.obj.inj same, listed⟩

namespace OwnsAll

variable {heap : Heap} {parts : List (String × Part)}

theorem partAt (owned : OwnsAll heap parts) (key : String) :
    Owns heap (partAt parts key).slot (partAt parts key).value (partAt parts key).places := by
  rw [Heap.partAt]
  cases found : parts.lookup key with
  | none => exact .undefined
  | some part =>
      obtain ⟨front, back, split, -⟩ := List.lookup_eq_some_iff.mp found
      exact owned.each (key, part) (split ▸ List.mem_append_right _ List.mem_cons_self)

theorem partAt_disjoint (owned : OwnsAll heap parts) (key : String) :
    (Heap.partAt parts key).places.Disjoint (places (others key parts)) := by
  rw [Heap.partAt]
  cases found : parts.lookup key with
  | none => exact List.disjoint_nil_left _
  | some part => exact owned.disjoint_others found

end OwnsAll

theorem lookup_of_partAt {parts : List (String × Part)} {key : String}
    (there : (partAt parts key).slot ≠ .undefined) : parts.lookup key = some (partAt parts key) := by
  rw [partAt] at there ⊢
  cases found : parts.lookup key with
  | none => rw [found] at there; exact absurd rfl there
  | some part => rfl

theorem mem_places_of_partAt {parts : List (String × Part)} {key : String} {place : Nat}
    (listed : place ∈ (partAt parts key).places) : place ∈ places parts := by
  rw [partAt] at listed
  cases found : parts.lookup key with
  | none => rw [found] at listed; exact absurd listed List.not_mem_nil
  | some part =>
      rw [found] at listed
      obtain ⟨front, back, split, -⟩ := List.lookup_eq_some_iff.mp found
      exact mem_places.mpr
        ⟨(key, part), split ▸ List.mem_append_right _ List.mem_cons_self, listed⟩

/-! ## Copying -/

/-- The copies made so far, each under the place of the original. -/
structure Cloning where
  heap : Heap
  copies : List (Nat × Nat) := []

/-- Copy properties one after the other. -/
def cloneFields (cloneSlot : Slot → Cloning → Option (Slot × Cloning)) :
    List (String × Slot) → Cloning → Option (List (String × Slot) × Cloning)
  | [], cloning => some ([], cloning)
  | (key, slot) :: fields, cloning => do
      let (copy, cloning) ← cloneSlot slot cloning
      let (copies, cloning) ← cloneFields cloneSlot fields cloning
      return ((key, copy) :: copies, cloning)

/-- Copy what a slot holds, where an object that has its copy is not copied again. The depth bounds how
deep the objects to be copied are nested. -/
def cloneSlot : Nat → Slot → Cloning → Option (Slot × Cloning)
  | _, .undefined, cloning => some (.undefined, cloning)
  | _, .scalar primitive, cloning => some (.scalar primitive, cloning)
  | depth, .object place, cloning =>
      match cloning.copies.lookup place with
      | some copy => some (.object copy, cloning)
      | none =>
          match depth, cloning.heap[place]? with
          | depth + 1, some cell => do
              let copy := cloning.heap.length
              let (fields, cloned) ← cloneFields (cloneSlot depth) cell.fields
                { heap := cloning.heap ++ [{ isArray := cell.isArray }]
                  copies := (place, copy) :: cloning.copies }
              return (.object copy,
                { cloned with heap := cloned.heap.set copy { isArray := cell.isArray, fields } })
          | _, _ => none

/-- The copying of a tree: only copies of its objects are made, and they are new. -/
structure Clones (before : Cloning) (originals : List Nat) (after : Cloning) (fresh : List Nat) :
    Prop where
  grown : before.heap.Grown after.heap
  others : ∀ place ∉ originals, after.copies.lookup place = before.copies.lookup place
  new : ∀ place ∈ fresh, before.heap.length ≤ place

/-- A depth at which every tree of that many objects is copied, when none of them has its copy. -/
def ClonesTrees (depth : Nat) : Prop :=
  ∀ {slot : Slot} {value : Value} {originals : List Nat} {cloning : Cloning},
    Owns cloning.heap slot value originals → originals.length ≤ depth →
    (∀ place ∈ originals, cloning.copies.lookup place = none) →
    ∃ copy after fresh, cloneSlot depth slot cloning = some (copy, after) ∧
      Owns after.heap copy value fresh ∧ Clones cloning originals after fresh

/-- Properties that share no object are copied to properties that share none. -/
theorem cloneFields_of_owns {depth : Nat} (clones : ClonesTrees depth)
    {parts : List (String × Part)} {cloning : Cloning} (owned : OwnsAll cloning.heap parts)
    (deep : (places parts).length ≤ depth)
    (uncopied : ∀ place ∈ places parts, cloning.copies.lookup place = none) :
    ∃ copies after, cloneFields (cloneSlot depth) (slots parts) cloning =
        some (slots copies, after) ∧
      values copies = values parts ∧ OwnsAll after.heap copies ∧
      Clones cloning (places parts) after (places copies) := by
  induction parts generalizing cloning with
  | nil =>
      exact ⟨[], cloning, rfl, rfl, ⟨by simp, List.nodup_nil⟩,
        ⟨Grown.refl _, fun _ _ => rfl, by simp [places]⟩⟩
  | cons part parts ih =>
      obtain ⟨key, part⟩ := part
      have split : places ((key, part) :: parts) = part.places ++ places parts := rfl
      rw [split] at deep uncopied
      rw [List.length_append] at deep
      have once := owned.once
      rw [split] at once
      obtain ⟨-, restOnce, apart⟩ := List.nodup_append'.mp once
      have restOwned : OwnsAll cloning.heap parts :=
        ⟨fun other member => owned.each other (List.mem_cons_of_mem _ member), restOnce⟩
      obtain ⟨copy, middle, fresh, cloned, copyOwned, first⟩ :=
        clones (owned.each (key, part) List.mem_cons_self) (by dsimp only; omega)
          fun place listed => uncopied place (List.mem_append_left _ listed)
      have restUncopied : ∀ place ∈ places parts, middle.copies.lookup place = none := by
        intro place listed
        rw [first.others place fun inside => apart inside listed]
        exact uncopied place (List.mem_append_right _ listed)
      obtain ⟨copies, after, restCloned, sameValues, restCopies, rest⟩ :=
        ih (restOwned.grown first.grown) (by omega) restUncopied
      refine ⟨(key, ⟨copy, part.value, fresh⟩) :: copies, after, ?_, ?_, ?_, ?_⟩
      · rw [show slots ((key, part) :: parts) = (key, part.slot) :: slots parts from rfl, cloneFields,
          cloned]
        simp only [Option.bind_eq_bind, Option.bind_some, restCloned]
        rfl
      · exact congrArg ((key, part.value) :: ·) sameValues
      · refine OwnsAll.cons key (copyOwned.grown rest.grown) restCopies fun place listed later => ?_
        have before := copyOwned.place_lt place listed
        have after := rest.new place later
        omega
      · refine ⟨first.grown.trans rest.grown, fun place outside => ?_, fun place listed => ?_⟩
        · rw [split, List.mem_append, not_or] at outside
          exact (rest.others place outside.2).trans (first.others place outside.1)
        · rcases List.mem_append.mp (show place ∈ fresh ++ places copies from listed) with here | later
          · exact first.new place here
          · exact first.grown.1.trans (rest.new place later)

/-- An object is copied when its properties can be. -/
theorem cloneSlot_object {depth : Nat} (clones : ClonesTrees depth) {cloning : Cloning} {place : Nat}
    {isArray : Bool} {parts : List (String × Part)}
    (held : cloning.heap[place]? = some { isArray := isArray, fields := slots parts })
    (owned : OwnsAll cloning.heap parts)
    (ordered : (parts.map Prod.fst).Pairwise EnumeratedBefore) (once : place ∉ places parts)
    (deep : (places parts).length ≤ depth)
    (uncopied : ∀ other ∈ place :: places parts, cloning.copies.lookup other = none) :
    ∃ copy after fresh, cloneSlot (depth + 1) (.object place) cloning = some (copy, after) ∧
      Owns after.heap copy (Cell.value isArray (values parts)) fresh ∧
      Clones cloning (place :: places parts) after fresh := by
  let copy := cloning.heap.length
  let begun : Cloning :=
    { heap := cloning.heap ++ [{ isArray := isArray }]
      copies := (place, copy) :: cloning.copies }
  have grown : cloning.heap.Grown begun.heap := Grown.append _ _
  have length : begun.heap.length = copy + 1 := List.length_append
  have others : ∀ other, other ≠ place →
      begun.copies.lookup other = cloning.copies.lookup other := by
    intro other different
    rw [List.lookup_cons, beq_false_of_ne different]
  have inside : ∀ other ∈ places parts, begun.copies.lookup other = none := by
    intro other listed
    rw [others other fun same => once (same ▸ listed)]
    exact uncopied other (List.mem_cons_of_mem _ listed)
  obtain ⟨copies, cloned, fields, sameValues, copiesOwned, rest⟩ :=
    cloneFields_of_owns clones (owned.grown grown) deep inside
  let cell : Cell := { isArray := isArray, fields := slots copies }
  have room : copy < cloned.heap.length := by
    have later := rest.grown.1
    omega
  have above : ∀ other ∈ places copies, copy < other := by
    intro other listed
    have later := rest.new other listed
    omega
  have elsewhere : ∀ other ≠ copy, (cloned.heap.set copy cell)[other]? = cloned.heap[other]? :=
    fun other different => List.getElem?_set_ne different.symm
  refine ⟨.object copy, { cloned with heap := cloned.heap.set copy cell }, copy :: places copies,
    ?_, ?_, ?_⟩
  · have first : cloning.copies.lookup place = none := uncopied place List.mem_cons_self
    have copied : cloneFields (cloneSlot depth) (slots parts)
        { heap := cloning.heap ++ [{ isArray := isArray }]
          copies := (place, cloning.heap.length) :: cloning.copies } = some (slots copies, cloned) :=
      fields
    unfold cloneSlot
    simp only [first, held, copied, Option.bind_eq_bind, Option.bind_some]
    rfl
  · rw [← sameValues]
    refine .object (List.getElem?_set_self room) (fun part member => ?_) ?_ ?_
    · refine (copiesOwned.each part member).frame fun other listed => elsewhere other ?_
      exact (above other (mem_places.mpr ⟨part, member, listed⟩)).ne'
    · rw [← keys_values, sameValues, keys_values]
      exact ordered
    · exact List.nodup_cons.mpr ⟨fun listed => (above copy listed).false, copiesOwned.once⟩
  · refine ⟨⟨?_, fun other old => ?_⟩, fun other outside => ?_, fun other listed => ?_⟩
    · rw [List.length_set]
      omega
    · rw [elsewhere other old.ne]
      exact (grown.trans rest.grown).2 other old
    · rw [List.mem_cons, not_or] at outside
      exact (rest.others other outside.2).trans (others other outside.1)
    · rcases List.mem_cons.mp listed with rfl | later
      · exact le_rfl
      · exact (above other later).le

/-- A tree is copied to a tree of new objects with the same value. -/
theorem clonesTrees (depth : Nat) : ClonesTrees depth := by
  induction depth with
  | zero =>
      intro slot value originals cloning owned deep _
      cases owned with
      | undefined => exact ⟨_, cloning, [], rfl, .undefined, Grown.refl _, by simp, by simp⟩
      | scalar => exact ⟨_, cloning, [], rfl, .scalar _, Grown.refl _, by simp, by simp⟩
      | object => exact absurd deep (by simp)
  | succ depth ih =>
      intro slot value originals cloning owned deep uncopied
      cases owned with
      | undefined => exact ⟨_, cloning, [], rfl, .undefined, Grown.refl _, by simp, by simp⟩
      | scalar => exact ⟨_, cloning, [], rfl, .scalar _, Grown.refl _, by simp, by simp⟩
      | object held each ordered once =>
          obtain ⟨notInside, partsOnce⟩ := List.nodup_cons.mp once
          exact cloneSlot_object ih held ⟨each, partsOnce⟩ ordered notInside
            (Nat.le_of_succ_le_succ deep) uncopied

/-- lodash's `cloneDeep`: the copy of what a slot holds, and the heap with the copied objects. -/
structure DeepClone where
  cloneDeep : Heap → Slot → Except Error (Slot × Heap)
  /-- The copy of a tree is a tree of the same value, of objects that were not there before; those that
  were there are as they were. -/
  cloneDeep_of_owns : ∀ {heap : Heap} {slot : Slot} {value : Value} {originals : List Nat},
    Owns heap slot value originals →
      ∃ copy after fresh, cloneDeep heap slot = .ok (copy, after) ∧ Owns after copy value fresh ∧
        heap.Grown after ∧ ∀ place ∈ fresh, heap.length ≤ place

/-- The copying by recursion, which objects that are nested too deep keep from ending. -/
def recursiveClone : DeepClone where
  cloneDeep heap slot :=
    match cloneSlot (heap.length + 1) slot { heap } with
    | some (copy, cloned) => .ok (copy, cloned.heap)
    | none => .error { name := "RangeError", message := "Maximum call stack size exceeded" }
  cloneDeep_of_owns := by
    intro heap slot value originals owned
    have few : originals.length ≤ heap.length := by
      have inside : originals ⊆ List.range heap.length := fun place listed =>
        List.mem_range.mpr (owned.place_lt place listed)
      simpa using (owned.places_nodup.subperm inside).length_le
    have begun : Owns (Cloning.mk heap []).heap slot value originals := owned
    obtain ⟨copy, after, fresh, cloned, copyOwned, clones⟩ :=
      clonesTrees (heap.length + 1) begun (by omega) fun _ _ => rfl
    refine ⟨copy, after.heap, fresh, ?_, copyOwned, clones.grown, clones.new⟩
    rw [cloned]

/-- An object that refers to itself is copied to one that does. -/
example :
    (cloneSlot 2 (.object 0) { heap := [{ fields := [("self", .object 0)] }] }).map
        (fun cloned => (cloned.1, cloned.2.heap)) =
      some (.object 1,
        [{ fields := [("self", .object 0)] }, { fields := [("self", .object 1)] }]) := by
  decide

end Heap

end Js
