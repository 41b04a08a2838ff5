import SubqlCosmos.DictionaryCover
import SubqlCosmos.Js.Text
import SubqlCosmos.Js.Writes
import SubqlCosmos.MessagePaths

/-!
# The data condition of a dictionary query

The object the query builder writes from the keys of `values`, compared with what the run-time loop
reads at the same keys: when it is exact, and when it is contained in every message the filter
accepts.
-/

namespace SubqlCosmos

open Js

/-! ## The written object -/

/-- The paths and values of the keys. -/
def writesOf (entries : List (String × Scalar)) : List Value.Write :=
  entries.map fun entry => (splitDots entry.1, entry.2)

/-- The value of the data condition of an entry. -/
def DictionaryQueryEntry.data (entry : DictionaryQueryEntry) : Option Value :=
  (entry.conditions.find? fun condition => condition.field = "data").map (·.value)

/-- The key has no brackets. -/
def Bracketless (key : String) : Prop := '[' ∉ key.toList ∧ ']' ∉ key.toList

instance (key : String) : Decidable (Bracketless key) := inferInstanceAs (Decidable (_ ∧ _))

/-- The name a write at the path adds to the object. -/
def writtenName (path : List String) : List String :=
  path.head?.toList.filter (· ∉ guarded)

/-- The paths lodash writes at and the values of the keys, for an object with properties of these
names. -/
def lodashWrites (lodash : Lodash) : List String → List (String × Scalar) → List Value.Write
  | _, [] => []
  | names, (key, value) :: entries =>
      let path := lodash.castPath (key ∈ names) key
      (path, value) :: lodashWrites lodash (names ++ writtenName path) entries

theorem exists_of_mem_lodashWrites {lodash : Lodash} {names : List String}
    {entries : List (String × Scalar)} {write : Value.Write}
    (member : write ∈ lodashWrites lodash names entries) : ∃ entry ∈ entries, write.2 = entry.2 := by
  induction entries generalizing names with
  | nil => exact absurd member List.not_mem_nil
  | cons entry entries induction =>
      rcases List.mem_cons.mp member with rfl | later
      · exact ⟨entry, List.mem_cons_self, rfl⟩
      · obtain ⟨other, listed, same⟩ := induction later
        exact ⟨other, List.mem_cons_of_mem _ listed, same⟩

/-- The names an object has after the values are written. -/
def namesAfter (lodash : Lodash) : List String → List (String × Scalar) → List String
  | names, [] => names
  | names, (key, _) :: entries =>
      namesAfter lodash (names ++ writtenName (lodash.castPath (key ∈ names) key)) entries

theorem lodashWrites_append (lodash : Lodash) (names : List String)
    (front back : List (String × Scalar)) :
    lodashWrites lodash names (front ++ back) =
      lodashWrites lodash names front ++ lodashWrites lodash (namesAfter lodash names front) back := by
  induction front generalizing names with
  | nil => rfl
  | cons entry front induction =>
      rw [List.cons_append, lodashWrites, induction, lodashWrites, namesAfter, List.cons_append]

/-- The properties of the object have these names. -/
def Named (fields : List (String × Nested)) (names : List String) : Prop :=
  ∀ key, (fields.lookup key).isSome ↔ key ∈ names

theorem Named.castPath {fields : List (String × Nested)} {names : List String}
    (named : Named fields names) (lodash : Lodash) (key : String) :
    lodash.castPath (fields.lookup key).isSome key = lodash.castPath (key ∈ names) key := by
  congr 1
  exact Bool.eq_iff_iff.mpr ((named key).trans decide_eq_true_iff.symm)

theorem Named.setPath {fields : List (String × Nested)} {names : List String}
    (named : Named fields names) (lodash : Lodash) (path : List String) (value : Scalar) :
    ∃ after, Nested.setPath lodash (.obj fields) path value = .obj after ∧
      Named after (names ++ writtenName path) := by
  cases path with
  | nil => exact ⟨fields, rfl, fun key => by simpa [writtenName] using named key⟩
  | cons first path =>
      by_cases refused : first ∈ guarded
      · refine ⟨fields, Nested.setPath_guarded lodash _ path value refused, fun key => ?_⟩
        simpa [writtenName, refused] using named key
      · refine ⟨_, Nested.setPath_obj lodash fields path value refused, fun key => ?_⟩
        rw [Record.lookup_putEntry]
        by_cases same : key = first
        · simp [same, writtenName, refused]
        · simpa [same, writtenName, refused] using named key

/-- Values that are written without an error are written one after the other. -/
theorem foldlM_setWith {lodash : Lodash} {fields : List (String × Nested)} {names : List String}
    (named : Named fields names) {entries : List (String × Scalar)} {nested : Nested}
    (folded : entries.foldlM (fun nested entry => Nested.setWith lodash nested entry.1 entry.2)
      (.obj fields) = .ok nested) :
    nested = (lodashWrites lodash names entries).foldl
        (fun tree write => Nested.setPath lodash tree write.1 write.2) (.obj fields) ∧
      ∃ after, nested = .obj after ∧ Named after (namesAfter lodash names entries) := by
  induction entries generalizing fields names with
  | nil =>
      obtain rfl := Except.ok.inj folded
      exact ⟨rfl, fields, rfl, named⟩
  | cons entry entries induction =>
      obtain ⟨key, value⟩ := entry
      rw [List.foldlM_cons] at folded
      obtain ⟨next, written, folded⟩ := bind_eq_ok.mp folded
      obtain ⟨after, tree, namedAfter⟩ :=
        named.setPath lodash (lodash.castPath (key ∈ names) key) value
      have same : next = .obj after := by
        have path : lodash.castPath ((Nested.obj fields).fields.lookup key).isSome key =
            lodash.castPath (key ∈ names) key := named.castPath lodash key
        simp only [Nested.setWith, path] at written
        split at written
        · cases written
        · rw [← tree]
          exact (Except.ok.inj written).symm
      subst same
      obtain ⟨outcome, last⟩ := induction namedAfter folded
      refine ⟨?_, last⟩
      rw [outcome, lodashWrites, List.foldl_cons, tree]

theorem named_nil : Named [] [] := fun key => by simp

theorem nestedValues_eq {lodash : Lodash} {entries : List (String × Scalar)} {value : Value}
    (written : nestedValues lodash entries = .ok value) :
    value = (Nested.writeAll lodash (lodashWrites lodash [] entries)).toValue := by
  obtain ⟨nested, folded, same⟩ := bind_eq_ok.mp written
  rw [← Except.ok.inj same, (foldlM_setWith named_nil folded).1]
  rfl

theorem exists_writeError {lodash : Lodash} {entries : List (String × Scalar)}
    (refused : RefusesValues lodash entries) :
    ∃ before write after, lodashWrites lodash [] entries = before ++ write :: after ∧
      Nested.writeError lodash (Nested.writeAll lodash before) write.1 write.2 ≠ none := by
  obtain ⟨before, key, value, after, nested, rfl, folded, throws⟩ := refused
  obtain ⟨outcome, fields, rfl, named⟩ := foldlM_setWith named_nil folded
  have path : lodash.castPath ((Nested.obj fields).fields.lookup key).isSome key =
      lodash.castPath (key ∈ namesAfter lodash [] before) key := named.castPath lodash key
  rw [path, outcome] at throws
  exact ⟨lodashWrites lodash [] before, _, _, lodashWrites_append lodash [] before _, throws⟩

theorem splitDots_injective : Function.Injective splitDots := by
  intro left right same
  have pieces : left.toList.splitOn '.' = right.toList.splitOn '.' :=
    List.map_injective_iff.mpr (fun _ _ => String.ofList_injective) same
  have joined := congrArg (List.intercalate ['.']) pieces
  rw [List.intercalate_splitOn, List.intercalate_splitOn] at joined
  exact String.toList_injective joined

theorem splitDots_of_mem {key segment : String} (member : segment ∈ splitDots key) :
    '.' ∉ segment.toList := by
  obtain ⟨piece, listed, rfl⟩ := List.mem_map.mp member
  rw [String.toList_ofList]
  exact not_mem_of_mem_splitOn listed

/-- Keys without brackets are written at the segments between their dots. -/
theorem lodashWrites_of_bracketless (lodash : Lodash) {names : List String}
    {entries : List (String × Scalar)} (dotless : ∀ name ∈ names, '.' ∉ name.toList)
    (bracketless : ∀ entry ∈ entries, Bracketless entry.1) :
    lodashWrites lodash names entries = writesOf entries := by
  induction entries generalizing names with
  | nil => rfl
  | cons entry entries induction =>
      obtain ⟨key, value⟩ := entry
      obtain ⟨here, later⟩ := List.forall_mem_cons.mp bracketless
      have path : lodash.castPath (key ∈ names) key = splitDots key := by
        by_cases listed : key ∈ names
        · rw [Lodash.castPath, if_pos (decide_eq_true listed), splitDots,
            List.splitOn_eq_singleton (dotless key listed), List.map_singleton,
            String.ofList_toList]
        · rw [Lodash.castPath, if_neg (by simpa using listed)]
          exact lodash.stringToPath_of_plain key here.1 here.2
      have grown : ∀ name ∈ names ++ writtenName (splitDots key), '.' ∉ name.toList := by
        intro name member
        rcases List.mem_append.mp member with old | new
        · exact dotless name old
        · obtain ⟨first, -⟩ := List.mem_filter.mp new
          exact splitDots_of_mem (List.mem_of_mem_head? (Option.mem_toList.mp first))
      rw [lodashWrites, path, induction grown later, writesOf, writesOf, List.map_cons]

theorem eventFilterToQueryEntry_data {lodash : Lodash} {filter : CosmosEventFilter}
    {messageFilter : CosmosMessageFilter} (given : filter.messageFilter = some messageFilter)
    {entry : DictionaryQueryEntry} (built : eventFilterToQueryEntry lodash filter = .ok entry) :
    ∃ messageEntry, messageFilterToQueryEntry lodash messageFilter = .ok messageEntry ∧
      entry.data = messageEntry.data := by
  obtain ⟨-, ⟨absent, -⟩ | ⟨other, messageEntry, same, messageBuilt, conditions⟩⟩ :=
    eventFilterToQueryEntry_ok built
  · rw [given] at absent
    cases absent
  · obtain rfl := Option.some.inj (given.symm.trans same)
    refine ⟨messageEntry, messageBuilt, ?_⟩
    obtain ⟨-, ⟨-, single⟩ | ⟨values, nested, -, -, both⟩⟩ := messageFilterToQueryEntry_ok messageBuilt
    · simp [DictionaryQueryEntry.data, conditions, single, DictionaryQueryCondition.onMessage]
    · simp [DictionaryQueryEntry.data, conditions, both, DictionaryQueryCondition.onMessage]

theorem mem_writesOf {entries : List (String × Scalar)} {write : Value.Write} :
    write ∈ writesOf entries ↔ ∃ entry ∈ entries, write = (splitDots entry.1, entry.2) := by
  simp [writesOf, eq_comm]

/-! ## Reading a path -/

section Reading

variable (prototypes : Prototypes)

/-- Read along the path, the value compares equal to the expected one. -/
def LeadsTo (value : Value) (path : List String) (expected : Scalar) : Prop :=
  ∃ found, Value.walk prototypes value path = .ok found ∧
    ¬Inconvertible expected found ∧ comparedAs expected found = .scalar expected

/-- The kinds of JSON values. -/
def jsonKinds : List Kind := [.string, .number, .boolean, .array, .object]

/-- Some inherited member of a JSON value, met along the path, leads to the expected value. -/
def Inherits (path : List String) (expected : Scalar) : Prop :=
  ∃ front segment back kind, path = front ++ segment :: back ∧ kind ∈ jsonKinds ∧
    LeadsTo prototypes (prototypes kind segment) back expected

variable {prototypes} {value : Value} {segment : String} {path : List String} {expected : Scalar}

theorem Inherits.of_append (front : List String) (inherits : Inherits prototypes path expected) :
    Inherits prototypes (front ++ path) expected := by
  obtain ⟨before, segment, back, kind, rfl, isJson, leads⟩ := inherits
  exact ⟨front ++ before, segment, back, kind, by simp, isJson, leads⟩

theorem isLong_of_jsonTree (json : value.JsonTree) : isLong value = false := by
  cases value with
  | obj fields =>
      have notFlagged := ((Value.jsonTree_obj fields).mp json).1
      exact decide_eq_false notFlagged
  | scalar primitive => cases primitive <;> rfl
  | arr items => rfl
  | undefined | long | bytes | builtin => simp [Value.JsonTree, Value.isJsonTree] at json

theorem comparedAs_of_jsonTree (json : value.JsonTree) : comparedAs expected value = value := by
  have notLong := isLong_of_jsonTree json
  cases value with
  | undefined | scalar | bytes | arr | obj | builtin => simp [comparedAs, notLong]
  | long number unsigned => simp [Value.JsonTree, Value.isJsonTree] at json

theorem leadsTo_nil_iff (json : value.JsonTree) :
    LeadsTo prototypes value [] expected ↔ value = .scalar expected := by
  constructor
  · rintro ⟨found, walked, -, same⟩
    obtain rfl : value = found := by simpa using walked
    exact (comparedAs_of_jsonTree json).symm.trans same
  · rintro rfl
    refine ⟨.scalar expected, rfl, fun inconvertible => ?_, comparedAs_of_jsonTree json⟩
    rw [Inconvertible, isLong_of_jsonTree json] at inconvertible
    exact absurd inconvertible.2.1 (by simp)

theorem agrees_iff_leadsTo (decoded : Value) (entry : String × Scalar) :
    Agrees prototypes decoded entry ↔ LeadsTo prototypes decoded (splitDots entry.1) entry.2 :=
  Iff.rfl

theorem leadsTo_append {front : List String} {middle : Value}
    (walked : Value.walk prototypes value front = .ok middle) :
    LeadsTo prototypes value (front ++ path) expected ↔
      LeadsTo prototypes middle path expected := by
  rw [LeadsTo, LeadsTo, Value.walk_append, walked]
  rfl

/-- A JSON value whose path leads somewhere, though not through inherited members, has the first
segment as its own property. -/
theorem own_of_leadsTo (json : value.JsonTree)
    (leads : LeadsTo prototypes value (segment :: path) expected)
    (ownOnly : ¬Inherits prototypes (segment :: path) expected) :
    ∃ below, Value.own value segment = some below ∧ LeadsTo prototypes below path expected := by
  obtain ⟨found, walked, compares⟩ := leads
  by_cases nullish : value.Nullish
  · obtain ⟨error, thrown⟩ := Value.get_of_nullish prototypes segment nullish
    rw [Value.walk_cons, thrown] at walked
    exact absurd walked (by simp [Except.bind])
  rw [Value.walk_cons, Value.get_of_not_nullish prototypes segment nullish] at walked
  cases property : Value.own value segment with
  | some below =>
      refine ⟨below, rfl, found, ?_, compares⟩
      simpa [Value.member, property, Except.bind] using walked
  | none =>
      have isJson : value.kind ∈ jsonKinds := by
        cases value with
        | scalar primitive => cases primitive <;> simp [Value.kind, jsonKinds]
        | arr | obj => simp [Value.kind, jsonKinds]
        | undefined | long | bytes | builtin => simp [Value.JsonTree, Value.isJsonTree] at json
      refine absurd ⟨[], segment, path, value.kind, rfl, isJson, found, ?_, compares⟩ ownOnly
      simpa [Value.member, property, Except.bind] using walked

theorem not_leadsTo_num (number : ℚ) (text : String)
    (ownOnly : ¬Inherits prototypes path (.str text)) :
    ¬LeadsTo prototypes (.num number) path (.str text) := by
  intro leads
  cases path with
  | nil => simpa using (leadsTo_nil_iff (Value.jsonTree_scalar _)).mp leads
  | cons segment path =>
      obtain ⟨below, property, -⟩ := own_of_leadsTo (Value.jsonTree_scalar _) leads ownOnly
      simp [Value.own] at property

/-- Only an object has a name that leads to a text. -/
theorem object_of_leadsTo {text : String} (json : value.JsonTree)
    (leads : LeadsTo prototypes value (segment :: path) (.str text))
    (ownOnly : ¬Inherits prototypes (segment :: path) (.str text)) (named : ¬IsIndex segment) :
    ∃ fields, value = .obj fields := by
  have noPosition : index? segment = none := by simpa [IsIndex] using named
  have ownOnlyBelow : ¬Inherits prototypes path (.str text) :=
    fun inherits => ownOnly (inherits.of_append [segment])
  obtain ⟨below, property, deeper⟩ := own_of_leadsTo json leads ownOnly
  have notLength : ∀ length : ℚ, below ≠ .num length := by
    rintro length rfl
    exact not_leadsTo_num length text ownOnlyBelow deeper
  cases value with
  | obj fields => exact ⟨fields, rfl⟩
  | scalar primitive =>
      cases primitive with
      | str content =>
          rw [Value.own, noPosition] at property
          split at property
          · exact absurd (Option.some.inj property).symm (notLength _)
          · simp at property
      | null | bool | num => simp [Value.own] at property
  | arr items =>
      rw [Value.own, noPosition] at property
      split at property
      · exact absurd (Option.some.inj property).symm (notLength _)
      · simp at property
  | undefined | long | bytes | builtin => simp [Value.JsonTree, Value.isJsonTree] at json

end Reading

/-! ## Keys that are paths of object properties -/

/-- A segment that names an ordinary object property. -/
def PlainSegment (segment : String) : Prop :=
  segment ≠ "" ∧ ¬IsIndex segment ∧ segment ≠ "prototype" ∧ segment ∉ objectMembers

instance (segment : String) : Decidable (PlainSegment segment) :=
  inferInstanceAs (Decidable (_ ∧ _))

/-- Texts under keys that are paths of ordinary properties, none of which leads through another. -/
structure ObjectPaths extends Record Scalar where
  texts : ∀ entry ∈ entries, ∃ text, entry.2 = .str text
  bracketless : ∀ entry ∈ entries, Bracketless entry.1
  plain : ∀ entry ∈ entries, ∀ segment ∈ splitDots entry.1, PlainSegment segment
  apart : entries.Pairwise fun earlier later =>
    Value.Apart (splitDots earlier.1) (splitDots later.1)

/-- A tree of objects and texts. -/
inductive TextTree : Value → Prop
  | text (content : String) : TextTree (.str content)
  | object (fields : List (String × Value)) (each : ∀ field ∈ fields, TextTree field.2) :
      TextTree (.obj fields)

theorem TextTree.jsonTree {value : Value} (texts : TextTree value) : value.JsonTree := by
  induction texts with
  | text content => exact Value.jsonTree_scalar _
  | object fields each induction =>
      refine (Value.jsonTree_obj fields).mpr ⟨fun flagged => ?_, induction⟩
      have flag := each _ (mem_of_lookup flagged)
      cases flag

theorem PlainSegment.ordinary {segment : String} (plain : PlainSegment segment) (lodash : Lodash) :
    Nested.Ordinary lodash segment where
  writable := by
    obtain ⟨-, -, notPrototype, notMember⟩ := plain
    intro isGuarded
    rcases List.mem_cons.mp isGuarded with rfl | isGuarded
    · exact notMember (by decide)
    · rcases List.mem_cons.mp isGuarded with rfl | isGuarded
      · exact notMember (by decide)
      · exact notPrototype (List.mem_singleton.mp isGuarded)
  uninherited := Bool.eq_false_iff.mpr fun inherits => plain.2.2.2 (lodash.inherits_object _ inherits)
  named list := plain.2.1 list.isIndex

namespace ObjectPaths

theorem separate (lodash : Lodash) (values : ObjectPaths) :
    Nested.Separate lodash (writesOf values.entries) where
  nonempty := by
    intro write member
    obtain ⟨entry, -, rfl⟩ := mem_writesOf.mp member
    exact splitDots_ne_nil entry.1
  ordinary := by
    intro write member segment inPath
    obtain ⟨entry, entryMember, rfl⟩ := mem_writesOf.mp member
    exact (values.plain entry entryMember segment inPath).ordinary lodash
  apart := List.pairwise_map.mpr values.apart

theorem nestedValues_eq (lodash : Lodash) (values : ObjectPaths) :
    nestedValues lodash values.entries =
      .ok (Nested.writeAll lodash (writesOf values.entries)).toValue := by
  have writes : lodashWrites lodash [] values.entries = writesOf values.entries :=
    lodashWrites_of_bracketless lodash nofun values.bracketless
  cases written : nestedValues lodash values.entries with
  | error error =>
      obtain ⟨before, write, after, split, throws⟩ :=
        exists_writeError ((refusesValues_iff values.entries).mpr ⟨error, written⟩)
      rw [writes] at split
      exact absurd ((values.separate lodash).objectTree.2 before write after split) throws
  | ok built => rw [SubqlCosmos.nestedValues_eq written, writes]

/-- The same values in another order of insertion. -/
def reorder (values : ObjectPaths) {other : Record Scalar}
    (reordered : values.toRecord.Reordered other) : ObjectPaths where
  toRecord := other
  texts entry member := values.texts entry (reordered.mem_iff.mpr member)
  bracketless entry member := values.bracketless entry (reordered.mem_iff.mpr member)
  plain entry member := values.plain entry (reordered.mem_iff.mpr member)
  apart := values.apart.perm reordered fun apart => ⟨apart.2, apart.1⟩

/-- Where all paths exist in a message of objects and texts, the written object is contained in it
exactly when the run-time loop finds every key equal. -/
theorem contained_iff (prototypes : Prototypes) (lodash : Lodash) (values : ObjectPaths)
    {message : List (String × Value)} (texts : TextTree (.obj message))
    (exist : ∀ entry ∈ values.entries, ∃ found,
      Value.descend (.obj message) (splitDots entry.1) = some found) :
    Value.containedIn (Nested.writeAll lodash (writesOf values.entries)).toValue
        (.obj message) = true ↔
      matchValues prototypes (.ok (.obj message)) values.entries = .ok true := by
  rw [matchValues_ok_true_iff]
  have agrees_iff : ∀ entry ∈ values.entries, Agrees prototypes (.obj message) entry ↔
      Value.descend (.obj message) (splitDots entry.1) = some (.scalar entry.2) := by
    intro entry member
    obtain ⟨found, reached⟩ := exist entry member
    have leads : Agrees prototypes (.obj message) entry ↔ LeadsTo prototypes found [] entry.2 := by
      rw [agrees_iff_leadsTo, ← List.append_nil (splitDots entry.1)]
      exact leadsTo_append (Value.walk_of_descend prototypes reached)
    rw [leads, leadsTo_nil_iff (texts.jsonTree.descend reached), reached, Option.some.injEq]
  have separate := values.separate lodash
  constructor
  · intro contained entry member
    have leaf := (Value.exact_writeAll separate).leaves _ (mem_writesOf.mpr ⟨entry, member, rfl⟩)
    obtain ⟨held, reached, inside⟩ := Value.descend_of_containedIn contained leaf
    rw [(Value.containedIn_scalar_iff _ _).mp inside] at reached
    exact (agrees_iff entry member).mpr reached
  · intro agree
    have leaves : ∀ path value, (path, value) ∈ writesOf values.entries →
        Value.descend (.obj message) path = some (.scalar value) := by
      intro path value member
      obtain ⟨entry, entryMember, same⟩ := mem_writesOf.mp member
      obtain ⟨rfl, rfl⟩ := Prod.mk.inj same
      exact (agrees_iff entry entryMember).mp (agree entry entryMember)
    rw [← separate.objectTree.1.toJson.2]
    refine Value.containedIn_writeAll separate.objectsOnly (fun place left => ?_)
      fun place key front value _ ends => ?_
    · rcases left with rfl | left
      · exact ⟨message, Value.descend_nil _⟩
      · obtain ⟨⟨path, value⟩, member⟩ := List.exists_mem_of_ne_nil _ left
        have listed := Nested.mem_of_mem_through member
        obtain ⟨next, back, rfl⟩ := List.exists_cons_of_ne_nil (Nested.goesOn_of_mem_through separate.nonempty member)
        exact Value.object_of_descend_append (leaves _ value listed)
    · have last : ([], value) ∈ Nested.entering lodash key
          (Nested.through lodash (writesOf values.entries) place) := by
        rw [ends]
        exact List.mem_append_right _ (List.mem_singleton_self _)
      exact leaves _ value (Nested.mem_of_mem_through (Nested.mem_of_mem_entering last))

end ObjectPaths

/-- On object paths the data condition is built and has exactly the given leaves, does not depend on
the order of the keys, and is contained in a message exactly when the run-time loop accepts the
message. -/
theorem data_of_objectPaths (prototypes : Prototypes) (lodash : Lodash)
    (filter : CosmosMessageFilter) (values : ObjectPaths) :
    ∃ entry built,
      messageFilterToQueryEntry lodash { filter with values := some values.toRecord } = .ok entry ∧
        entry.data = some built ∧
        Value.Exact (writesOf values.entries) built ∧
        (∀ other, values.toRecord.Reordered other → ∃ otherEntry otherBuilt,
          messageFilterToQueryEntry lodash { filter with values := some other } = .ok otherEntry ∧
            otherEntry.data = some otherBuilt ∧
            Value.SameUpToKeyOrder built otherBuilt) ∧
        ∀ message, TextTree (.obj message) →
          (∀ entry ∈ values.entries, ∃ found,
            Value.descend (.obj message) (splitDots entry.1) = some found) →
          (Value.containedIn built (.obj message) = true ↔
            matchValues prototypes (.ok (.obj message)) values.entries = .ok true) := by
  have data : ∀ paths : ObjectPaths, ∃ entry,
      messageFilterToQueryEntry lodash { filter with values := some paths.toRecord } = .ok entry ∧
        entry.data = some (Nested.writeAll lodash (writesOf paths.entries)).toValue := by
    intro paths
    exact ⟨{
      entity := "messages"
      conditions := [{ field := "type", value := optionalText filter.type, matcher := "equalTo" },
        { field := "data", value := (Nested.writeAll lodash (writesOf paths.entries)).toValue,
          matcher := "contains" }] },
      bind_eq_ok.mpr ⟨_, paths.nestedValues_eq lodash, rfl⟩, rfl⟩
  have object := Value.exists_writeAll_toValue lodash
  have exact := fun paths : ObjectPaths => Value.exact_writeAll (paths.separate lodash)
  obtain ⟨entry, outcome, found⟩ := data values
  refine ⟨entry, _, outcome, found, exact values, fun other reordered => ?_,
    fun message texts exist => values.contained_iff prototypes lodash texts exist⟩
  obtain ⟨otherEntry, otherOutcome, otherFound⟩ := data (values.reorder reordered)
  exact ⟨otherEntry, _, otherOutcome, otherFound,
    (exact values).same (exact (values.reorder reordered)) (reordered.map _) (object _) (object _)⟩

/-- Two keys of a swap. -/
def swapPaths : ObjectPaths where
  entries := [("msg.swap.input_token", .str "Token2"), ("contract", .str "juno1")]
  ordered := by decide
  texts := by simp
  bracketless := by decide
  plain := by decide
  apart := by decide

/-- The two keys inserted the other way round. -/
def swapPathsReversed : Record Scalar where
  entries := [("contract", .str "juno1"), ("msg.swap.input_token", .str "Token2")]
  ordered := by decide

theorem data_of_swapPaths :
    ∃ entry built,
      messageFilterToQueryEntry .dotted { swapFilter with values := some swapPaths.toRecord } =
          .ok entry ∧
        entry.data = some built ∧
        (∃ otherEntry otherBuilt,
          messageFilterToQueryEntry .dotted { swapFilter with values := some swapPathsReversed } =
              .ok otherEntry ∧
            otherEntry.data = some otherBuilt ∧
            Value.SameUpToKeyOrder built otherBuilt) ∧
        Value.containedIn built
          (.obj [("contract", .str "juno1"),
            ("msg", .obj [("swap", .obj [("input_token", .str "Token2")])])]) = true := by
  obtain ⟨entry, built, outcome, data, -, sameOrder, contained⟩ :=
    data_of_objectPaths (fun _ _ => .undefined) .dotted swapFilter swapPaths
  have message : TextTree (.obj [("contract", .str "juno1"),
      ("msg", .obj [("swap", .obj [("input_token", .str "Token2")])])]) :=
    .object _ (List.forall_mem_cons.mpr ⟨.text _, List.forall_mem_singleton.mpr
      (.object _ (List.forall_mem_singleton.mpr
        (.object _ (List.forall_mem_singleton.mpr (.text _)))))⟩)
  refine ⟨entry, built, outcome, data, sameOrder swapPathsReversed (List.Perm.swap _ _ []),
    (contained _ message (fun entry member => ?_)).mpr (by decide +kernel)⟩
  rcases List.mem_cons.mp member with rfl | member
  · exact ⟨.str "Token2", by decide +kernel⟩
  · obtain rfl := List.mem_singleton.mp member
    exact ⟨.str "juno1", by decide +kernel⟩

end SubqlCosmos
