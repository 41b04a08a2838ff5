import SubqlCosmos.Js.Value

/-!
# Records

A JavaScript object used as a map from names to values, with its properties in the order `for…in`
and `Object.keys` enumerate them: the array indices first and ascending, then every other name in
the order of insertion.
-/

namespace Js

/-- The array index a property name denotes. -/
def arrayIndex? (key : String) : Option Nat :=
  (index? key).filter (· < 2 ^ 32 - 1)

theorem foldl_digits (digits : List Char) :
    digits.foldl (fun number digit => 10 * number + (digit.toNat - 48)) 0 =
      Nat.ofDigits 10 (digits.map fun digit => digit.toNat - 48).reverse := by
  rw [Nat.ofDigits_eq_foldr, List.foldr_reverse, List.foldl_map]
  congr 1
  funext number digit
  exact Nat.add_comm _ _

theorem ofNat_digit {digit : Char} (isDigit : digit.isDigit = true) :
    digit.toNat - 48 < 10 ∧ Char.ofNat (digit.toNat - 48 + 48) = digit := by
  have bounds : 48 ≤ digit.toNat ∧ digit.toNat ≤ 57 := by
    simpa [Char.isDigit, UInt32.le_iff_toNat_le] using isDigit
  refine ⟨by omega, ?_⟩
  rw [Nat.sub_add_cancel bounds.1, Char.ofNat_toNat]

/-- The decimal text of a number. -/
def decimal (number : Nat) : List Char :=
  if number = 0 then ['0']
  else ((Nat.digits 10 number).map fun digit => Char.ofNat (digit + 48)).reverse

/-- A name denotes a number only as its decimal text. -/
theorem toList_of_index? {key : String} {number : Nat} (denotes : index? key = some number) :
    key.toList = decimal number := by
  unfold index? at denotes
  split at denotes
  · cases denotes
  · rename_i zero
    obtain rfl := Option.some.inj denotes
    exact zero
  · rename_i digit digits _ text
    split at denotes
    · rename_i canonical
      obtain ⟨nonzero, all⟩ := canonical
      have value := (foldl_digits (digit :: digits)).symm.trans (Option.some.inj denotes)
      have each : ∀ other ∈ digit :: digits, other.isDigit = true := List.all_eq_true.mp all
      have leading : digit.toNat - 48 ≠ 0 := by
        intro zero
        have same := (ofNat_digit (each digit List.mem_cons_self)).2
        rw [zero] at same
        exact nonzero same.symm
      have read : Nat.digits 10 number =
          ((digit :: digits).map fun digit => digit.toNat - 48).reverse := by
        rw [← value]
        refine Nat.digits_ofDigits 10 (by omega) _ (fun unit member => ?_) fun _ => by
          simpa using leading
        obtain ⟨other, listed, rfl⟩ := List.mem_map.mp (List.mem_reverse.mp member)
        exact (ofNat_digit (each other listed)).1
      have positive : number ≠ 0 := by
        rintro rfl
        simp at read
      have back : (digit :: digits).map (fun digit => Char.ofNat (digit.toNat - 48 + 48)) =
          digit :: digits := by
        refine (List.map_congr_left fun other member => ?_).trans (List.map_id _)
        exact (ofNat_digit (each other member)).2
      rw [text, decimal, if_neg positive, read, List.map_reverse, List.reverse_reverse, List.map_map]
      exact back.symm
    · cases denotes

theorem index?_injective {left right : String} {number : Nat} (first : index? left = some number)
    (second : index? right = some number) : left = right :=
  String.toList_injective ((toList_of_index? first).trans (toList_of_index? second).symm)

theorem arrayIndex?_injective {left right : String} {number : Nat}
    (first : arrayIndex? left = some number) (second : arrayIndex? right = some number) :
    left = right :=
  index?_injective (Option.filter_eq_some_iff.mp first).1 (Option.filter_eq_some_iff.mp second).1

/-- Two names of one object may be enumerated in this order. -/
def EnumeratedBefore (earlier later : String) : Prop :=
  earlier ≠ later ∧
    match arrayIndex? later, arrayIndex? earlier with
    | none, _ => True
    | some _, none => False
    | some position, some before => before < position

instance (earlier later : String) : Decidable (EnumeratedBefore earlier later) := by
  unfold EnumeratedBefore
  split <;> infer_instance

/-- An object as a map, its entries in enumeration order. -/
structure Record (α : Type) where
  /-- The names and their values. -/
  entries : List (String × α)
  /-- No name occurs twice, and array indices come first in ascending order. -/
  ordered : (entries.map Prod.fst).Pairwise EnumeratedBefore

namespace Record

variable {α : Type}

/-- The same entries inserted in another order. -/
def Reordered (left right : Record α) : Prop := left.entries.Perm right.entries

theorem keys_nodup (record : Record α) : (record.entries.map Prod.fst).Nodup :=
  record.ordered.imp fun before => before.1

/-- The entries after `object[key] = value`: an entry of that name gets the value, and a new one goes
where it is enumerated. -/
def putEntry (key : String) (value : α) : List (String × α) → List (String × α)
  | [] => [(key, value)]
  | entry :: rest =>
      if entry.1 = key then (key, value) :: rest
      else if EnumeratedBefore entry.1 key then entry :: putEntry key value rest
      else (key, value) :: entry :: rest

/-- What can be enumerated on neither side of a name is enumerated after it. -/
theorem enumeratedBefore_of_not {earlier later : String} (different : later ≠ earlier)
    (behind : ¬EnumeratedBefore later earlier) : EnumeratedBefore earlier later := by
  refine ⟨different.symm, ?_⟩
  cases first : arrayIndex? earlier with
  | none => exact absurd ⟨different, by rw [first]; trivial⟩ behind
  | some position =>
      cases second : arrayIndex? later with
      | none => trivial
      | some other =>
          have unequal : position ≠ other := by
            rintro rfl
            exact different (arrayIndex?_injective second first)
          have notBefore : ¬other < position := fun less =>
            behind ⟨different, by rw [first, second]; exact less⟩
          show position < other
          omega

theorem enumeratedBefore_trans {first second third : String} (before : EnumeratedBefore first second)
    (after : EnumeratedBefore second third) (different : first ≠ third) :
    EnumeratedBefore first third := by
  refine ⟨different, ?_⟩
  have early := before.2
  have late := after.2
  cases thirdIndex : arrayIndex? third with
  | none => trivial
  | some position =>
      rw [thirdIndex] at late
      cases secondIndex : arrayIndex? second with
      | none =>
          rw [secondIndex] at late
          exact late.elim
      | some middle =>
          rw [secondIndex] at late early
          cases firstIndex : arrayIndex? first with
          | none =>
              rw [firstIndex] at early
              exact early.elim
          | some start =>
              rw [firstIndex] at early
              exact Nat.lt_trans early late

theorem lookup_putEntry (key other : String) (value : α) (entries : List (String × α)) :
    (putEntry key value entries).lookup other =
      if other = key then some value else entries.lookup other := by
  induction entries with
  | nil => rw [putEntry, lookup_cons_if]
  | cons entry rest induction =>
      rw [putEntry]
      by_cases replaced : entry.1 = key
      · rw [if_pos replaced, lookup_cons_if, lookup_cons_if, replaced]
        split <;> rfl
      · rw [if_neg replaced]
        split
        · rw [lookup_cons_if, lookup_cons_if, induction]
          by_cases found : other = entry.1
          · rw [if_pos found, if_pos found, if_neg (found ▸ replaced)]
          · rw [if_neg found, if_neg found]
        · rw [lookup_cons_if]

theorem mem_putEntry {key : String} {value : α} {entries : List (String × α)} {entry : String × α}
    (member : entry ∈ putEntry key value entries) : entry = (key, value) ∨ entry ∈ entries := by
  induction entries with
  | nil => exact Or.inl (List.mem_singleton.mp member)
  | cons first rest induction =>
      unfold putEntry at member
      split at member
      · exact (List.mem_cons.mp member).imp id (List.mem_cons_of_mem _)
      · split at member
        · rcases List.mem_cons.mp member with rfl | later
          · exact Or.inr List.mem_cons_self
          · exact (induction later).imp id (List.mem_cons_of_mem _)
        · exact List.mem_cons.mp member

theorem mem_keys_putEntry {key other : String} {value : α} {entries : List (String × α)}
    (member : other ∈ (putEntry key value entries).map Prod.fst) :
    other = key ∨ other ∈ entries.map Prod.fst := by
  obtain ⟨entry, listed, rfl⟩ := List.mem_map.mp member
  exact (mem_putEntry listed).imp (congrArg Prod.fst) List.mem_map_of_mem

/-- The order of enumeration is kept. -/
theorem putEntry_ordered (key : String) (value : α) {entries : List (String × α)}
    (ordered : (entries.map Prod.fst).Pairwise EnumeratedBefore) :
    ((putEntry key value entries).map Prod.fst).Pairwise EnumeratedBefore := by
  induction entries with
  | nil => exact List.pairwise_singleton _ _
  | cons entry rest induction =>
      obtain ⟨head, tail⟩ := List.pairwise_cons.mp ordered
      unfold putEntry
      split
      · rename_i same
        subst same
        exact ordered
      · rename_i different
        split
        · rename_i before
          refine List.pairwise_cons.mpr ⟨fun other member => ?_, induction tail⟩
          rcases mem_keys_putEntry member with rfl | old
          · exact before
          · exact head other old
        · rename_i behind
          have first := enumeratedBefore_of_not different behind
          refine List.pairwise_cons.mpr ⟨fun other member => ?_, ordered⟩
          rcases List.mem_cons.mp member with rfl | later
          · exact first
          · refine enumeratedBefore_trans first (head other later) ?_
            rintro rfl
            exact behind (head _ later)

/-- `object[key] = value`. -/
def put (record : Record α) (key : String) (value : α) : Record α :=
  ⟨putEntry key value record.entries, putEntry_ordered key value record.ordered⟩

/-- `{}`. -/
def empty : Record α := ⟨[], List.Pairwise.nil⟩

theorem mem_putEntry_iff {key : String} {value : α} {entries : List (String × α)}
    (ordered : (entries.map Prod.fst).Pairwise EnumeratedBefore) (item : String × α) :
    item ∈ putEntry key value entries ↔ item = (key, value) ∨ item ∈ entries ∧ item.1 ≠ key := by
  induction entries with
  | nil => simp [putEntry]
  | cons entry rest induction =>
      obtain ⟨head, tail⟩ := List.pairwise_cons.mp ordered
      unfold putEntry
      split
      · rename_i same
        have apart : ∀ other ∈ rest, other.1 ≠ key := fun other member =>
          same ▸ (head other.1 (List.mem_map_of_mem member)).1.symm
        rw [List.mem_cons, List.mem_cons]
        constructor
        · exact Or.imp id fun later => ⟨Or.inr later, apart item later⟩
        · rintro (here | ⟨rfl | later, different⟩)
          · exact Or.inl here
          · exact absurd same different
          · exact Or.inr later
      · rename_i different
        split
        · rw [List.mem_cons, List.mem_cons, induction tail]
          constructor
          · rintro (rfl | here | ⟨later, apart⟩)
            · exact Or.inr ⟨Or.inl rfl, different⟩
            · exact Or.inl here
            · exact Or.inr ⟨Or.inr later, apart⟩
          · rintro (here | ⟨rfl | later, apart⟩)
            · exact Or.inr (Or.inl here)
            · exact Or.inl rfl
            · exact Or.inr (Or.inr ⟨later, apart⟩)
        · rename_i behind
          have absent : ∀ other ∈ entry :: rest, other.1 ≠ key := by
            intro other member same
            rcases List.mem_cons.mp member with rfl | later
            · exact different same
            · exact behind (same ▸ head other.1 (List.mem_map_of_mem later))
          rw [List.mem_cons]
          exact or_congr_right ⟨fun member => ⟨member, absent item member⟩, fun both => both.1⟩

theorem mem_put_iff (record : Record α) (key : String) (value : α) (item : String × α) :
    item ∈ (record.put key value).entries ↔
      item = (key, value) ∨ item ∈ record.entries ∧ item.1 ≠ key :=
  mem_putEntry_iff record.ordered item

theorem lookup_eq_some_iff (record : Record α) (key : String) (value : α) :
    record.entries.lookup key = some value ↔ (key, value) ∈ record.entries := by
  refine ⟨mem_of_lookup, fun member => ?_⟩
  obtain ⟨front, back, split⟩ := List.append_of_mem member
  refine List.lookup_eq_some_iff.mpr ⟨front, back, split, fun other listed => ?_⟩
  have distinct := record.keys_nodup
  rw [split, List.map_append] at distinct
  have apart := (List.nodup_append.mp distinct).2.2 other.1 (List.mem_map_of_mem listed) key
    (List.mem_map_of_mem List.mem_cons_self)
  simpa using apart.symm

/-- `object[key] = value` on an object literal: `__proto__` is the name of a setter, which adds no
entry. -/
def assign (record : Record α) (item : String × α) : Record α :=
  if item.1 = "__proto__" then record else record.put item.1 item.2

/-- The item is the last of its name. -/
def LastOfName (items : List (String × α)) (item : String × α) : Prop :=
  ∃ front back, items = front ++ item :: back ∧ item.1 ∉ back.map Prod.fst

theorem lastOfName_concat (items : List (String × α)) (last item : String × α) :
    LastOfName (items ++ [last]) item ↔ item = last ∨ LastOfName items item ∧ item.1 ≠ last.1 := by
  constructor
  · rintro ⟨front, back, split, fresh⟩
    rcases List.eq_nil_or_concat' back with rfl | ⟨rest, other, rfl⟩
    · exact Or.inl (List.singleton_inj.mp (List.append_inj_right' split rfl)).symm
    · rw [← List.cons_append, ← List.append_assoc] at split
      obtain ⟨rfl, same⟩ := List.append_inj' split rfl
      obtain rfl := List.singleton_inj.mp same
      rw [List.map_append, List.mem_append, not_or] at fresh
      exact Or.inr ⟨⟨front, rest, rfl, fresh.1⟩, fun named => fresh.2 (by simp [named])⟩
  · rintro (rfl | ⟨⟨front, back, rfl, fresh⟩, different⟩)
    · exact ⟨items, [], rfl, List.not_mem_nil⟩
    · exact ⟨front, back ++ [last], by simp, by simpa using ⟨by simpa using fresh, different⟩⟩

theorem LastOfName.mem {items : List (String × α)} {item : String × α}
    (lastOf : LastOfName items item) : item ∈ items := by
  obtain ⟨front, back, rfl, -⟩ := lastOf
  simp

theorem exists_lastOfName {items : List (String × α)} {item : String × α} (member : item ∈ items) :
    ∃ value, LastOfName items (item.1, value) := by
  induction items using List.reverseRecOn with
  | nil => exact absurd member List.not_mem_nil
  | append_singleton items last induction =>
      by_cases same : item.1 = last.1
      · exact ⟨last.2, (lastOfName_concat _ _ _).mpr (Or.inl (by rw [same]))⟩
      · have earlier : item ∈ items := by
          refine (List.mem_append.mp member).resolve_right fun here => same ?_
          rw [List.mem_singleton.mp here]
        obtain ⟨value, lastOf⟩ := induction earlier
        exact ⟨value, (lastOfName_concat _ _ _).mpr (Or.inr ⟨lastOf, same⟩)⟩

/-- Of items assigned one after the other the last of each name stays. -/
theorem mem_assignAll_iff (items : List (String × α)) (item : String × α) :
    item ∈ (items.foldl assign empty).entries ↔
      item.1 ≠ "__proto__" ∧ LastOfName items item := by
  induction items using List.reverseRecOn with
  | nil =>
      refine iff_of_false List.not_mem_nil ?_
      rintro ⟨-, front, back, split, -⟩
      simp at split
  | append_singleton items last induction =>
      rw [List.foldl_append, List.foldl_cons, List.foldl_nil, lastOfName_concat, assign]
      by_cases ignored : last.1 = "__proto__"
      · rw [if_pos ignored, induction]
        constructor
        · rintro ⟨named, lastOf⟩
          exact ⟨named, Or.inr ⟨lastOf, fun same => named (same.trans ignored)⟩⟩
        · rintro ⟨named, rfl | ⟨lastOf, -⟩⟩
          · exact absurd ignored named
          · exact ⟨named, lastOf⟩
      · rw [if_neg ignored, mem_put_iff, induction]
        constructor
        · rintro (rfl | ⟨⟨named, lastOf⟩, different⟩)
          · exact ⟨ignored, Or.inl rfl⟩
          · exact ⟨named, Or.inr ⟨lastOf, different⟩⟩
        · rintro ⟨named, rfl | ⟨lastOf, different⟩⟩
          · exact Or.inl rfl
          · exact Or.inr ⟨⟨named, lastOf⟩, different⟩

end Record

/-- The assignment `value[key] = new` to an object. Whatever else it is made to stays as it is. -/
def Value.put : Value → String → Value → Value
  | .obj fields, key, new => .obj (Record.putEntry key new fields)
  | value, _, _ => value

end Js
