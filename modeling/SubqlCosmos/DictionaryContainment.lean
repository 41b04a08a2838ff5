import SubqlCosmos.DictionaryData
import SubqlCosmos.Js.Graft

/-!
# Messages the data condition misses

When the data condition of a message filter is contained in every message the filter accepts.
-/

namespace SubqlCosmos

open Js

/-! ## Values that serve the keys through a place -/

/-- A message filter whose `values` are texts. -/
structure TextFilter extends CosmosMessageFilter where
  texts : ∀ entry ∈ toCosmosMessageFilter.entries, ∃ text, entry.2 = .str text

/-- The data condition is built and its JSON is contained in that of every message the filter
accepts, of those that decode to a JSON object without Long leaves. -/
def DataComplete (prototypes : Prototypes) (filter : CosmosMessageFilter)
    (outcome : Except Error DictionaryQueryEntry) : Prop :=
  ∀ data : DecodedMessage, data.decoded.JsonTree → (∃ fields, data.decoded = .obj fields) →
    filterMessageData prototypes data.toCosmosMessage (some filter) = .ok true →
      ∃ entry, outcome = .ok entry ∧ ∀ value, entry.data = some value →
        Value.containedIn value.toJson data.decoded.toJson = true

section Serving

variable (prototypes : Prototypes)

/-- What a contract execution holds under `msg` is the call. -/
def IsCall (contractCall : String) (msg : Value) : Prop :=
  msg = .str contractCall ∨
    isObjectLike msg = true ∧ msg.hasProperty prototypes contractCall = true

/-- As far as the keys through the place and the requested call can tell, an accepted message may
have the value there. -/
structure Fits (filter : CosmosMessageFilter) (place : List String) (value : Value) : Prop where
  json : value.JsonTree
  root : place = [] → ∃ fields, value = .obj fields
  unflagged : place.getLast? = some "__isLong__" → value ≠ .scalar (.bool true)
  leads : ∀ entry ∈ filter.entries, ∀ back, splitDots entry.1 = place ++ back →
    LeadsTo prototypes value back entry.2
  called : ∀ contractCall, filter.requestedCall = some contractCall →
    ∀ back, ["msg"] = place ++ back →
      ∃ msg, Value.walk prototypes value back = .ok msg ∧ IsCall prototypes contractCall msg

/-- No message can be accepted: the filter has no type, wants a contract call and another text in its
place, or a text from which another key does not lead on to its own. -/
def CosmosMessageFilter.RejectsAll (filter : CosmosMessageFilter) : Prop :=
  filter.type = none ∨
    (∃ contractCall entry, filter.requestedCall = some contractCall ∧ entry ∈ filter.entries ∧
      splitDots entry.1 = ["msg"] ∧ entry.2 ≠ .str contractCall) ∨
      ∃ shorter ∈ filter.entries, ∃ longer ∈ filter.entries, ∃ back,
        splitDots longer.1 = splitDots shorter.1 ++ back ∧
          ¬LeadsTo prototypes (.scalar shorter.2) back longer.2

/-- lodash and the run-time loop agree about the keys. -/
structure CosmosMessageFilter.Aligned (lodash : Lodash) (filter : CosmosMessageFilter) : Prop where
  written : ¬RefusesValues lodash filter.entries
  objectsOnly : Nested.ObjectsOnly lodash (lodashWrites lodash [] filter.entries)
  /-- Where lodash has an object, only objects serve the keys, and they have what it writes. -/
  owned : ∀ place value,
    Nested.Opened lodash (lodashWrites lodash [] filter.entries) place →
      Fits prototypes filter place value → ∃ fields, value = .obj fields ∧
        ∀ key, Nested.entering lodash key
            (Nested.through lodash (lodashWrites lodash [] filter.entries) place) ≠ [] →
          (fields.lookup key).isSome
  /-- A text lodash leaves is read at the same place. -/
  texts : ∀ place key front value,
    Nested.Opened lodash (lodashWrites lodash [] filter.entries) place →
      Nested.entering lodash key
          (Nested.through lodash (lodashWrites lodash [] filter.entries) place) =
        front ++ [([], value)] →
          (place ++ [key], value) ∈ writesOf filter.entries

end Serving

section Accepted

variable {prototypes : Prototypes} {filter : CosmosMessageFilter} {message : List (String × Value)}

theorem walk_property (prototypes : Prototypes) (fields : List (String × Value)) (key : String) :
    Value.walk prototypes (.obj fields) [key] =
      .ok ((fields.lookup key).getD (prototypes .object key)) := rfl

/-- The accepted messages that decode to JSON objects are those that serve all keys. -/
theorem accepted_iff {data : DecodedMessage} (decoded : data.decoded = .obj message)
    (json : Value.JsonTree (.obj message)) :
    filterMessageData prototypes data.toCosmosMessage (some filter) = .ok true ↔
      ¬filter.ScreensOut data.toCosmosMessage ∧ Fits prototypes filter [] (.obj message) := by
  by_cases out : filter.ScreensOut data.toCosmosMessage
  · rw [filterMessageData_of_screensOut out]
    exact ⟨fun same => absurd (Except.ok.inj same) Bool.false_ne_true, fun both => absurd out both.1⟩
  have call : checkContractCall prototypes data.toCosmosMessage filter = .ok true ↔
      ∀ contractCall, filter.requestedCall = some contractCall →
        IsCall prototypes contractCall ((message.lookup "msg").getD (prototypes .object "msg")) := by
    cases requested : filter.requestedCall with
    | none => simp [checkContractCall, requested]
    | some contractCall =>
        have outcome : checkContractCall prototypes data.toCosmosMessage filter =
            matchContractCall prototypes (.obj message) contractCall := by
          rw [checkContractCall, requested, data.decodes, decoded]
          rfl
        have defined : ¬(Value.obj message).Nullish := id
        rw [outcome, matchContractCall, Value.get_of_not_nullish prototypes "msg" defined]
        simp only [IsCall, Value.member, bind, Except.bind, pure, Except.pure, Value.kind,
          Value.own_obj, Except.ok.injEq, Bool.or_eq_true, Bool.and_eq_true, Option.some.injEq,
          forall_eq']
        exact or_congr decide_eq_true_iff Iff.rfl
  rw [filterMessageData_of_not_screensOut out, decoded]
  have values : matchValues prototypes (.ok (.obj message)) filter.entries = .ok true ↔
      ∀ entry ∈ filter.entries, Agrees prototypes (.obj message) entry :=
    matchValues_ok_true_iff filter.entries
  constructor
  · intro accepted
    obtain ⟨verdict, matched, rest⟩ := bind_eq_ok.mp accepted
    cases verdict with
    | false => exact absurd (Except.ok.inj rest) Bool.false_ne_true
    | true =>
        refine ⟨out, json, fun _ => ⟨message, rfl⟩, by simp, fun entry member back split => ?_,
          fun contractCall requested back split => ?_⟩
        · obtain rfl : splitDots entry.1 = back := split
          exact values.mp matched entry member
        · obtain rfl : ["msg"] = back := split
          exact ⟨_, walk_property prototypes message "msg", call.mp rest contractCall requested⟩
  · rintro ⟨-, fits⟩
    refine bind_eq_ok.mpr ⟨true, values.mpr fun entry member => fits.leads entry member _ rfl,
      call.mpr fun contractCall requested => ?_⟩
    obtain ⟨msg, walked, isCall⟩ := fits.called contractCall requested ["msg"] rfl
    obtain rfl := Except.ok.inj walked
    exact isCall

/-- What an object that fits has under a name fits one step below. -/
theorem Fits.below {place : List String} {fields : List (String × Value)}
    (fits : Fits prototypes filter place (.obj fields)) {key : String} {below : Value}
    (looked : fields.lookup key = some below) : Fits prototypes filter (place ++ [key]) below := by
  obtain ⟨notLong, each⟩ := (Value.jsonTree_obj fields).mp fits.json
  have reached : Value.descend (.obj fields) [key] = some below := by simpa using looked
  have step : ∀ back, place ++ [key] ++ back = place ++ ([key] ++ back) :=
    fun back => List.append_assoc _ _ _
  refine ⟨each _ (mem_of_lookup looked), fun nothing => by simp at nothing, fun last => ?_,
    fun entry member back split => ?_, fun contractCall requested back split => ?_⟩
  · rw [List.getLast?_concat, Option.some.injEq] at last
    subst last
    exact fun flag => notLong (flag ▸ looked)
  · exact (leadsTo_append (Value.walk_of_descend prototypes reached)).mp
      (fits.leads entry member _ (split.trans (step back)))
  · obtain ⟨msg, walked, isCall⟩ := fits.called contractCall requested _ (split.trans (step back))
    rw [Value.walk_append, Value.walk_of_descend prototypes reached] at walked
    exact ⟨msg, walked, isCall⟩

end Accepted

/-! ## The data condition of an entry -/

section Outcome

variable {prototypes : Prototypes} {lodash : Lodash} {filter : CosmosMessageFilter}

/-- The data condition holds what lodash writes, unless it refuses the values. -/
theorem messageEntry_cases (lodash : Lodash) (filter : CosmosMessageFilter) :
    RefusesValues lodash filter.entries ∧
        (∃ error, messageFilterToQueryEntry lodash filter = .error error) ∨
      ¬RefusesValues lodash filter.entries ∧
        ∃ entry, messageFilterToQueryEntry lodash filter = .ok entry ∧
          (filter.entries = [] ∧ entry.data = none ∨
            entry.data =
              some (Nested.writeAll lodash (lodashWrites lodash [] filter.entries)).toValue) := by
  rw [CosmosMessageFilter.entries, messageFilterToQueryEntry]
  cases filter.values with
  | none =>
      refine Or.inr ⟨?_, _, rfl, Or.inl ⟨rfl, rfl⟩⟩
      rintro ⟨before, key, value, after, nested, split, -⟩
      simp at split
  | some values =>
      simp only [refusesValues_iff]
      cases written : nestedValues lodash values.entries with
      | error error => exact Or.inl ⟨⟨error, rfl⟩, error, rfl⟩
      | ok nested =>
          obtain rfl := nestedValues_eq written
          exact Or.inr ⟨by simp, _, rfl, Or.inr rfl⟩

/-- The data condition is complete when its object is contained in every message that fits. -/
theorem dataComplete_iff_contained :
    DataComplete prototypes filter (messageFilterToQueryEntry lodash filter) ↔
      filter.type = none ∨ ∀ message, Fits prototypes filter [] (.obj message) →
        ¬RefusesValues lodash filter.entries ∧
          Value.containedIn
              (Nested.writeAll lodash (lodashWrites lodash [] filter.entries)).toValue.toJson
              (.obj message) = true := by
  have cases := messageEntry_cases lodash filter
  constructor
  · intro complete
    refine or_iff_not_imp_left.mpr fun typed message fits => ?_
    obtain ⟨type, given⟩ := Option.ne_none_iff_exists'.mp typed
    have stays : ¬filter.ScreensOut (messageOf type (.obj message)).toCosmosMessage := by
      rintro (⟨failed, -⟩ | otherType)
      · exact failed rfl
      · exact otherType given
    obtain ⟨entry, built, contained⟩ := complete (messageOf type (.obj message)) fits.json
      ⟨message, rfl⟩ ((accepted_iff rfl fits.json).mpr ⟨stays, fits⟩)
    rcases cases with ⟨-, error, thrown⟩ | ⟨written, other, same, held⟩
    · rw [thrown] at built
      cases built
    · obtain rfl := Except.ok.inj (same.symm.trans built)
      refine ⟨written, ?_⟩
      rcases held with ⟨empty, -⟩ | found
      · rw [empty]
        rfl
      · have inside := contained _ found
        rwa [show (messageOf type (.obj message)).decoded = .obj message from rfl,
          Value.toJson_of_jsonTree _ fits.json] at inside
  · intro condition data json isObject accepted
    obtain ⟨message, decoded⟩ := isObject
    rw [decoded] at json ⊢
    obtain ⟨stays, fits⟩ := (accepted_iff decoded json).mp accepted
    have typed : filter.type ≠ none := fun untyped =>
      stays (Or.inr (untyped ▸ nofun))
    obtain ⟨written, inside⟩ := condition.resolve_left typed message fits
    rcases cases with ⟨refused, -⟩ | ⟨-, entry, built, held⟩
    · exact absurd refused written
    · refine ⟨entry, built, fun value found => ?_⟩
      rw [Value.toJson_of_jsonTree _ json]
      rcases held with ⟨-, none⟩ | same
      · rw [none] at found
        cases found
      · obtain rfl := Option.some.inj (same.symm.trans found)
        exact inside

/-- The condition an event filter takes over is as complete. -/
theorem dataComplete_event_iff (type : Option String) (attributes : Option (Record Scalar)) :
    DataComplete prototypes filter (eventFilterToQueryEntry lodash
        { type := type, messageFilter := some filter, attributes := attributes }) ↔
      DataComplete prototypes filter (messageFilterToQueryEntry lodash filter) := by
  constructor
  · intro complete data json isObject accepted
    obtain ⟨eventEntry, eventBuilt, contained⟩ := complete data json isObject accepted
    obtain ⟨entry, built, same⟩ := eventFilterToQueryEntry_data rfl eventBuilt
    exact ⟨entry, built, fun value found => contained value (same.trans found)⟩
  · intro complete data json isObject accepted
    obtain ⟨entry, built, contained⟩ := complete data json isObject accepted
    obtain ⟨eventEntry, eventBuilt⟩ : ∃ eventEntry, eventFilterToQueryEntry lodash
        { type := type, messageFilter := some filter, attributes := attributes } =
          .ok eventEntry := ⟨_, bind_eq_ok.mpr ⟨entry, built, rfl⟩⟩
    obtain ⟨other, otherBuilt, same⟩ := eventFilterToQueryEntry_data rfl eventBuilt
    obtain rfl := Except.ok.inj (built.symm.trans otherBuilt)
    exact ⟨eventEntry, eventBuilt, fun value found => contained value (same.symm.trans found)⟩

end Outcome

/-! ## Keys that agree -/

namespace CosmosMessageFilter.Aligned

variable {prototypes : Prototypes} {lodash : Lodash} {filter : CosmosMessageFilter}
  {message : List (String × Value)}

/-- A message that fits has an object wherever lodash has one. -/
theorem exists_object (aligned : filter.Aligned prototypes lodash)
    (fits : Fits prototypes filter [] (.obj message)) {place : List String}
    (left : Nested.Opened lodash (lodashWrites lodash [] filter.entries) place) :
    ∃ fields, Value.descend (.obj message) place = some (.obj fields) ∧
      Fits prototypes filter place (.obj fields) := by
  induction place using List.reverseRecOn with
  | nil => exact ⟨message, Value.descend_nil _, fits⟩
  | append_singleton place key induction =>
      have onward := Or.resolve_left left (List.append_ne_nil_of_right_ne_nil _ (List.cons_ne_nil _ _))
      rw [Nested.through_append] at onward
      have entered := Nested.entering_ne_nil_of_through onward
      have above : Nested.Opened lodash (lodashWrites lodash [] filter.entries) place :=
        Or.inr (Nested.ne_nil_of_entering entered)
      obtain ⟨fields, reached, fitsHere⟩ := induction above
      obtain ⟨_, same, owned⟩ := aligned.owned place _ above fitsHere
      obtain rfl := Value.obj.inj same
      obtain ⟨below, looked⟩ := Option.isSome_iff_exists.mp (owned key entered)
      have fitsBelow := fitsHere.below looked
      obtain ⟨inner, rfl, -⟩ := aligned.owned (place ++ [key]) below left fitsBelow
      refine ⟨inner, ?_, fitsBelow⟩
      rw [Value.descend_append, reached, Option.bind_some, Value.descend_obj_cons, looked]
      rfl

/-- What lodash writes is contained in every message that fits. -/
theorem contained (aligned : filter.Aligned prototypes lodash)
    (fits : Fits prototypes filter [] (.obj message)) :
    Value.containedIn
        (Nested.writeAll lodash (lodashWrites lodash [] filter.entries)).toValue.toJson
        (.obj message) = true := by
  refine Value.containedIn_writeAll aligned.objectsOnly (fun place left => ?_)
    fun place key front value left ends => ?_
  · obtain ⟨fields, reached, -⟩ := aligned.exists_object fits left
    exact ⟨fields, reached⟩
  · have entered : Nested.entering lodash key
        (Nested.through lodash (lodashWrites lodash [] filter.entries) place) ≠ [] := by
      rw [ends]
      exact List.append_ne_nil_of_right_ne_nil _ (List.cons_ne_nil _ _)
    obtain ⟨fields, reached, fitsHere⟩ := aligned.exists_object fits left
    obtain ⟨_, same, owned⟩ := aligned.owned place _ left fitsHere
    obtain rfl := Value.obj.inj same
    obtain ⟨below, looked⟩ := Option.isSome_iff_exists.mp (owned key entered)
    have fitsBelow := fitsHere.below looked
    obtain ⟨entry, member, read⟩ := mem_writesOf.mp (aligned.texts place key front value left ends)
    obtain ⟨path, rfl⟩ := Prod.mk.inj read
    have leads := fitsBelow.leads entry member [] (by rw [List.append_nil, path])
    obtain rfl := (leadsTo_nil_iff fitsBelow.json).mp leads
    rw [Value.descend_append, reached, Option.bind_some, Value.descend_obj_cons, looked]
    rfl

end CosmosMessageFilter.Aligned

/-! ## Filters that reject everything -/

/-- Nothing that is inherited passes for a Long. -/
def LongFree (prototypes : Prototypes) : Prop :=
  ∀ kind key path found, Value.walk prototypes (prototypes kind key) path = .ok found →
    isLong found = false

section LongFree

variable {prototypes : Prototypes}

/-- What can be read below a JSON tree through own properties. -/
def JsonPart (value : Value) : Prop := value.JsonTree ∨ ∃ name, value = .builtin name

theorem jsonPart_of_own {value below : Value} {key : String} (part : JsonPart value)
    (property : Value.own value key = some below) : JsonPart below := by
  rcases part with json | ⟨name, rfl⟩
  · cases value with
    | scalar primitive =>
        cases primitive with
        | str text =>
            rw [Value.own] at property
            split at property
            · exact Or.inl (Option.some.inj property ▸ Value.jsonTree_scalar _)
            · obtain ⟨position, -, unit⟩ := Option.bind_eq_some_iff.mp property
              obtain ⟨code, -, rfl⟩ := Option.map_eq_some_iff.mp unit
              rw [unitString]
              split
              · exact Or.inr ⟨_, rfl⟩
              · exact Or.inl (Value.jsonTree_scalar _)
        | null | bool | num => cases property
    | arr items =>
        rw [Value.own] at property
        split at property
        · exact Or.inl (Option.some.inj property ▸ Value.jsonTree_scalar _)
        · obtain ⟨position, -, item⟩ := Option.bind_eq_some_iff.mp property
          exact Or.inl ((Value.jsonTree_arr items).mp json below (List.mem_of_getElem? item))
    | obj fields => exact Or.inl (((Value.jsonTree_obj fields).mp json).2 _ (mem_of_lookup property))
    | undefined | long | bytes | builtin => cases json
  · cases property

/-- Nothing read from a JSON tree passes for a Long. -/
theorem LongFree.walk (longFree : LongFree prototypes) {value found : Value} {path : List String}
    (part : JsonPart value) (walked : Value.walk prototypes value path = .ok found) :
    isLong found = false := by
  induction path generalizing value with
  | nil =>
      obtain rfl := Except.ok.inj walked
      rcases part with json | ⟨name, rfl⟩
      · exact isLong_of_jsonTree json
      · rfl
  | cons key path induction =>
      by_cases nullish : value.Nullish
      · obtain ⟨error, thrown⟩ := Value.get_of_nullish prototypes key nullish
        rw [Value.walk_cons, thrown] at walked
        cases walked
      rw [Value.walk_cons, Value.get_of_not_nullish prototypes key nullish, Value.member] at walked
      cases property : Value.own value key with
      | none =>
          rw [property] at walked
          exact longFree value.kind key path found walked
      | some below =>
          rw [property] at walked
          exact induction (jsonPart_of_own part property) walked

theorem LongFree.walk_of_leadsTo (longFree : LongFree prototypes) {value : Value}
    {path : List String} {expected : Scalar} (json : value.JsonTree)
    (leads : LeadsTo prototypes value path expected) :
    Value.walk prototypes value path = .ok (.scalar expected) := by
  obtain ⟨found, walked, -, same⟩ := leads
  have notLong := longFree.walk (Or.inl json) walked
  have found_eq : comparedAs expected found = found := by
    cases found with
    | long number unsigned => cases notLong
    | undefined | scalar | bytes | arr | obj | builtin => simp [comparedAs, notLong]
  rw [walked, ← found_eq, same]

/-- No object fits a filter that rejects everything. -/
theorem LongFree.not_rejectsAll (longFree : LongFree prototypes) (filter : TextFilter)
    {message : List (String × Value)} (typed : filter.type ≠ none)
    (fits : Fits prototypes filter.toCosmosMessageFilter [] (.obj message)) :
    ¬filter.RejectsAll prototypes := by
  rintro (untyped | ⟨contractCall, entry, requested, member, path, different⟩ |
    ⟨shorter, shorterMember, longer, longerMember, back, path, lost⟩)
  · exact typed untyped
  · -- the text at `msg` is neither the call nor an object that has it
    obtain ⟨text, isText⟩ := filter.texts entry member
    have walked := longFree.walk_of_leadsTo fits.json (fits.leads entry member ["msg"] path)
    obtain ⟨msg, same, isCall⟩ := fits.called contractCall requested ["msg"] rfl
    obtain rfl := Except.ok.inj (walked.symm.trans same)
    rcases isCall with call | ⟨object, -⟩
    · exact different (Value.scalar.inj call)
    · rw [isText] at object
      cases object
  · have walked := longFree.walk_of_leadsTo fits.json (fits.leads shorter shorterMember _ rfl)
    have leads := fits.leads longer longerMember _ path
    exact lost ((leadsTo_append walked).mp leads)

end LongFree

/-! ## Objects with nothing but the texts -/

/-- The object fits, and has nothing but the texts it has to have. -/
structure Sparse (prototypes : Prototypes) (filter : CosmosMessageFilter)
    (message : List (String × Value)) : Prop where
  fits : Fits prototypes filter [] (.obj message)
  arrayFree : Value.ArrayFree (.obj message)
  /-- Every key goes through a text the object has, and leads on from it. -/
  held : ∀ write ∈ writesOf filter.entries, ∃ shorter : Value.Write, ∃ back,
    write.1 = shorter.1 ++ back ∧
      Value.descend (.obj message) shorter.1 = some (.scalar shorter.2) ∧
        LeadsTo prototypes (.scalar shorter.2) back write.2
  texts : ∀ path text, Value.descend (.obj message) path = some (.str text) →
    (path, .str text) ∈ writesOf filter.entries

section Sparse

variable {prototypes : Prototypes} {filter : CosmosMessageFilter} {message : List (String × Value)}

theorem goesOn_of_mem_writesOf {entries : List (String × Scalar)} {write : Value.Write}
    (member : write ∈ writesOf entries) : Nested.GoesOn write := by
  obtain ⟨entry, -, rfl⟩ := mem_writesOf.mp member
  exact splitDots_ne_nil entry.1

theorem pairwise_writesOf (filter : CosmosMessageFilter) :
    (writesOf filter.entries).Pairwise fun earlier later => earlier.1 ≠ later.1 := by
  refine List.pairwise_map.mpr ?_
  rw [CosmosMessageFilter.entries]
  cases filter.values with
  | none => exact .nil
  | some values =>
      exact (List.pairwise_map.mp values.keys_nodup).imp fun different same =>
        different (splitDots_injective same)

theorem apart_call {path : List String} {contractCall : String} (nonempty : path ≠ [])
    (notMsg : path ≠ ["msg"]) (notBelow : ¬["msg", contractCall] <+: path) :
    Value.Apart path ["msg", contractCall] := by
  refine ⟨fun onward => ?_, notBelow⟩
  obtain ⟨key, rest, rfl⟩ := List.exists_cons_of_ne_nil nonempty
  obtain ⟨rfl, below⟩ := List.cons_prefix_cons.mp onward
  cases rest with
  | nil => exact notMsg rfl
  | cons second rest =>
      obtain ⟨rfl, ended⟩ := List.cons_prefix_cons.mp below
      obtain rfl := List.prefix_nil.mp ended
      exact notBelow List.prefix_rfl

theorem exists_call {contractCall : String} {back : List String} {found : Value}
    (reached : Value.descend (.obj message) ("msg" :: contractCall :: back) = some found) :
    ∃ msg, message.lookup "msg" = some msg ∧ IsCall prototypes contractCall msg := by
  obtain ⟨_, msg, same, looked, deeper⟩ := Value.descend_cons_eq_some reached
  obtain rfl := Value.obj.inj same
  obtain ⟨fields, _, rfl, named, -⟩ := Value.descend_cons_eq_some deeper
  refine ⟨_, looked, Or.inr ⟨rfl, ?_⟩⟩
  rw [Value.hasProperty, Value.own_obj, named]
  rfl

/-- The shortest keys of a filter that does not reject everything, and primitives that are no texts,
make a sparse object, if it is the requested call. -/
theorem sparse_of_leaves (satisfiable : ¬filter.RejectsAll prototypes) {extra : List Value.Write}
    (leaves : ∀ path primitive, Value.descend (.obj message) path = some (.scalar primitive) ↔
      (path, primitive) ∈ Value.shortest (writesOf filter.entries) ++ extra)
    (free : Value.ArrayFree (.obj message)) (json : Value.JsonTree (.obj message))
    (noTexts : ∀ write ∈ extra, write.2 = .null)
    (called : ∀ contractCall, filter.requestedCall = some contractCall →
      ∃ msg, message.lookup "msg" = some msg ∧ IsCall prototypes contractCall msg) :
    Sparse prototypes filter message := by
  have held : ∀ write ∈ writesOf filter.entries, ∃ shorter : Value.Write, ∃ back,
      write.1 = shorter.1 ++ back ∧
        Value.descend (.obj message) shorter.1 = some (.scalar shorter.2) ∧
          LeadsTo prototypes (.scalar shorter.2) back write.2 := by
    intro write member
    obtain ⟨shorter, shorterMember, back, path⟩ := Value.exists_shortest member
    refine ⟨shorter, back, path.symm,
      (leaves _ _).mpr (List.mem_append_left _ shorterMember), ?_⟩
    obtain ⟨longEntry, longListed, rfl⟩ := mem_writesOf.mp member
    obtain ⟨shortEntry, shortListed, rfl⟩ :=
      mem_writesOf.mp (Value.mem_shortest.mp shorterMember).1
    by_contra lost
    exact satisfiable
      (Or.inr (Or.inr ⟨shortEntry, shortListed, longEntry, longListed, back, path.symm, lost⟩))
  refine ⟨⟨json, fun _ => ⟨message, rfl⟩, nofun, fun entry member back split => ?_,
    fun contractCall requested back split => ?_⟩, free, held, fun path text reached => ?_⟩
  · obtain rfl : splitDots entry.1 = back := split
    obtain ⟨shorter, back, path, leaf, leads⟩ := held _ (mem_writesOf.mpr ⟨entry, member, rfl⟩)
    rw [show splitDots entry.1 = shorter.1 ++ back from path]
    exact (leadsTo_append (Value.walk_of_descend prototypes leaf)).mpr leads
  · obtain rfl : ["msg"] = back := split
    obtain ⟨msg, looked, isCall⟩ := called contractCall requested
    refine ⟨msg, ?_, isCall⟩
    rw [walk_property, looked]
    rfl
  · rcases List.mem_append.mp ((leaves path (.str text)).mp reached) with short | added
    · exact (Value.mem_shortest.mp short).1
    · cases noTexts _ added

/-- Unless the filter rejects everything, some sparse object fits. -/
theorem exists_sparse (filter : TextFilter) (satisfiable : ¬filter.RejectsAll prototypes) :
    ∃ message, Sparse prototypes filter.toCosmosMessageFilter message := by
  have short := Value.pairwise_shortest (pairwise_writesOf filter.toCosmosMessageFilter)
  have nonempty : ∀ write ∈ Value.shortest (writesOf filter.entries), write.1 ≠ [] :=
    fun write member => goesOn_of_mem_writesOf (Value.mem_shortest.mp member).1
  have noFlags : ∀ write ∈ Value.shortest (writesOf filter.entries), write.2 ≠ .bool true := by
    intro write member
    obtain ⟨entry, listed, rfl⟩ := mem_writesOf.mp (Value.mem_shortest.mp member).1
    obtain ⟨text, isText⟩ := filter.texts entry listed
    simp [isText]
  by_cases about : ∀ contractCall, filter.requestedCall = some contractCall →
      ∃ write ∈ Value.shortest (writesOf filter.entries),
        write.1 = ["msg"] ∨ ["msg", contractCall] <+: write.1
  · obtain ⟨message, leaves, free, json⟩ := Value.exists_object nonempty short noFlags
    rw [← List.append_nil (Value.shortest _)] at leaves
    refine ⟨message, sparse_of_leaves satisfiable leaves free json nofun
      fun contractCall requested => ?_⟩
    obtain ⟨⟨path, value⟩, member, whole | ⟨back, longer⟩⟩ := about contractCall requested
    · obtain rfl : path = ["msg"] := whole
      obtain ⟨entry, listed, same⟩ := mem_writesOf.mp (Value.mem_shortest.mp member).1
      obtain ⟨split, rfl⟩ := Prod.mk.inj same
      have isCall : entry.2 = .str contractCall := by
        by_contra different
        exact satisfiable (Or.inr (Or.inl
          ⟨contractCall, entry, requested, listed, split.symm, different⟩))
      have leaf := (leaves _ _).mpr (List.mem_append_left _ member)
      rw [isCall] at leaf
      exact ⟨.str contractCall, by simpa using leaf, Or.inl rfl⟩
    · obtain rfl : ["msg", contractCall] ++ back = path := longer
      exact exists_call ((leaves _ _).mpr (List.mem_append_left _ member))
  · -- no key is about the call, so it can be added as one more leaf
    push Not at about
    obtain ⟨contractCall, requested, other⟩ := about
    have away : ∀ write ∈ Value.shortest (writesOf filter.entries),
        Value.Apart write.1 ["msg", contractCall] := fun write member =>
      apart_call (nonempty write member) (other write member).1 (other write member).2
    have allNonempty : ∀ write ∈ Value.shortest (writesOf filter.entries) ++
        [(["msg", contractCall], .null)], write.1 ≠ [] :=
      List.forall_mem_append.mpr ⟨nonempty, by simp⟩
    obtain ⟨message, leaves, free, json⟩ := Value.exists_object allNonempty
      (List.pairwise_append.mpr ⟨short, List.pairwise_singleton _ _, fun write member =>
        List.forall_mem_singleton.mpr (away write member)⟩)
      (List.forall_mem_append.mpr ⟨noFlags, by simp⟩)
    refine ⟨message, sparse_of_leaves satisfiable leaves free json (by simp)
      fun called calledRequested => ?_⟩
    obtain rfl : contractCall = called := Option.some.inj (requested.symm.trans calledRequested)
    exact exists_call
      ((leaves _ _).mpr (List.mem_append_right _ (List.mem_singleton_self _)))

theorem hasProperty_putEntry {fields : List (String × Value)} {name key : String} {value : Value}
    (has : Value.hasProperty prototypes (.obj fields) name = true) :
    Value.hasProperty prototypes (.obj (Record.putEntry key value fields)) name = true := by
  rw [Value.hasProperty, Value.own_obj, Bool.or_eq_true] at has ⊢
  refine has.imp_left fun own => ?_
  rw [Record.lookup_putEntry]
  split
  · rfl
  · exact own

/-- A value that fits at an object of a sparse message can take its place. -/
theorem Sparse.graft (sparse : Sparse prototypes filter message) {place : List String}
    {value : Value}
    (object : ∃ inner, Value.descend (.obj message) place = some (.obj inner))
    (fits : Fits prototypes filter place value) :
    ∃ grafted, Value.graft value message place = .obj grafted ∧
      Fits prototypes filter [] (.obj grafted) := by
  cases place with
  | nil =>
      obtain ⟨fields, rfl⟩ := fits.root rfl
      exact ⟨fields, rfl, fits⟩
  | cons key place =>
      obtain ⟨inner, reached⟩ := object
      refine ⟨_, rfl, sparse.fits.json.graft fits.json fits.unflagged, fun _ => ⟨_, rfl⟩, nofun,
        fun entry member back split => ?_, fun contractCall requested back split => ?_⟩
      · obtain rfl : splitDots entry.1 = back := split
        by_cases inside : key :: place <+: splitDots entry.1
        · obtain ⟨back, path⟩ := inside
          rw [← path]
          exact (leadsTo_append (Value.walk_of_descend prototypes
            (Value.descend_graft_self value message (key :: place)))).mpr
              (fits.leads entry member back path.symm)
        · -- the text the key goes through lies apart from the place
          obtain ⟨shorter, back, path, leaf, leads⟩ :=
            sparse.held _ (mem_writesOf.mpr ⟨entry, member, rfl⟩)
          have path : splitDots entry.1 = shorter.1 ++ back := path
          have apart : Value.Apart (key :: place) shorter.1 := by
            refine ⟨fun onward => inside (path ▸ onward.trans (List.prefix_append _ _)), ?_⟩
            rintro ⟨rest, further⟩
            rw [← further, Value.descend_append, leaf, Option.bind_some] at reached
            cases rest <;> cases reached
          rw [path]
          refine (leadsTo_append (Value.walk_of_descend prototypes ?_)).mpr leads
          exact (Value.descend_graft_apart apart).trans leaf
      · obtain rfl : ["msg"] = back := split
        obtain ⟨msg, walked, isCall⟩ := sparse.fits.called contractCall requested ["msg"] rfl
        rw [walk_property, Except.ok.injEq] at walked
        rw [walk_property, Record.lookup_putEntry]
        by_cases here : "msg" = key
        · subst here
          rw [if_pos rfl]
          refine ⟨_, rfl, ?_⟩
          cases place with
          | nil =>
              obtain ⟨other, same, isCall⟩ := fits.called contractCall requested [] rfl
              obtain rfl := Except.ok.inj same
              exact isCall
          | cons next place =>
              obtain ⟨_, below, same, looked, deeper⟩ := Value.descend_cons_eq_some reached
              obtain rfl := Value.obj.inj same
              obtain ⟨fields, _, rfl, found, -⟩ := Value.descend_cons_eq_some deeper
              rw [looked] at walked
              obtain rfl : Value.obj fields = msg := walked
              rw [looked]
              exact Or.inr ⟨rfl, hasProperty_putEntry (isCall.resolve_left nofun).2⟩
        · rw [if_neg here]
          exact ⟨msg, congrArg _ walked, isCall⟩

end Sparse

/-! ## When the data condition is complete -/

/-- What is contained in all messages that fit is aligned. -/
theorem aligned_of_contained {prototypes : Prototypes} {lodash : Lodash} {filter : TextFilter}
    {message : List (String × Value)}
    (sparse : Sparse prototypes filter.toCosmosMessageFilter message)
    (contained : ∀ message, Fits prototypes filter.toCosmosMessageFilter [] (.obj message) →
      ¬RefusesValues lodash filter.entries ∧
        Value.containedIn
            (Nested.writeAll lodash (lodashWrites lodash [] filter.entries)).toValue.toJson
            (.obj message) = true) :
    filter.Aligned prototypes lodash := by
  obtain ⟨written, inside⟩ := contained message sparse.fits
  have objectsOnly := Value.objectsOnly_of_containedIn sparse.arrayFree inside
  refine ⟨written, objectsOnly, fun place value left fits => ?_,
    fun place key front value left ends => ?_⟩
  · obtain ⟨inner, reached, -⟩ := Value.exists_object_of_containedIn objectsOnly inside left
    obtain ⟨grafted, tree, graftedFits⟩ := sparse.graft ⟨inner, reached⟩ fits
    obtain ⟨fields, found, owned⟩ := Value.exists_object_of_containedIn objectsOnly
      (contained grafted graftedFits).2 left
    rw [← tree, Value.descend_graft_self] at found
    exact ⟨fields, Option.some.inj found, owned⟩
  · have last : ([], value) ∈ Nested.entering lodash key
        (Nested.through lodash (lodashWrites lodash [] filter.entries) place) := by
      rw [ends]
      exact List.mem_append_right _ (List.mem_singleton_self _)
    obtain ⟨below, left, leaf⟩ := Value.exists_descend_toJson objectsOnly left
      (List.ne_nil_of_mem last)
    obtain rfl := leaf front value ends
    obtain ⟨held, reached, same⟩ := Value.descend_of_containedIn inside left
    obtain rfl := (Value.containedIn_scalar_iff value held).mp same
    obtain ⟨entry, listed, rfl⟩ := exists_of_mem_lodashWrites
      (Nested.mem_of_mem_through (Nested.mem_of_mem_entering last))
    obtain ⟨text, isText⟩ := filter.texts entry listed
    rw [isText] at reached ⊢
    exact sparse.texts _ text reached

/-- The data condition built from a message filter, alone or inside an event filter, is contained in
every accepted message exactly when the filter rejects everything, or lodash and the run-time loop
agree about its keys. -/
theorem dataComplete_iff {prototypes : Prototypes} (longFree : LongFree prototypes)
    (lodash : Lodash) (filter : TextFilter) :
    (DataComplete prototypes filter.toCosmosMessageFilter
        (messageFilterToQueryEntry lodash filter.toCosmosMessageFilter) ↔
      filter.RejectsAll prototypes ∨ filter.Aligned prototypes lodash) ∧
    ∀ type attributes,
      (DataComplete prototypes filter.toCosmosMessageFilter
          (eventFilterToQueryEntry lodash
            { type := type, messageFilter := some filter.toCosmosMessageFilter,
              attributes := attributes }) ↔
        filter.RejectsAll prototypes ∨ filter.Aligned prototypes lodash) := by
  have complete_iff : DataComplete prototypes filter.toCosmosMessageFilter
        (messageFilterToQueryEntry lodash filter.toCosmosMessageFilter) ↔
      filter.RejectsAll prototypes ∨ filter.Aligned prototypes lodash := by
    rw [dataComplete_iff_contained]
    constructor
    · intro complete
      refine or_iff_not_imp_left.mpr fun satisfiable => ?_
      obtain ⟨message, sparse⟩ := exists_sparse filter satisfiable
      exact aligned_of_contained sparse
        (complete.resolve_left fun untyped => satisfiable (Or.inl untyped))
    · intro condition
      refine or_iff_not_imp_left.mpr fun typed message fits => ?_
      have aligned := condition.resolve_left (longFree.not_rejectsAll filter typed fits)
      exact ⟨aligned.written, aligned.contained fits⟩
  refine ⟨complete_iff, fun type attributes => ?_⟩
  rw [dataComplete_event_iff]
  exact complete_iff

/-! ## Keys that are paths of object properties -/

/-- Keys that are paths of object properties agree, unless one resolves through an inherited member. -/
theorem ObjectPaths.aligned {prototypes : Prototypes} (lodash : Lodash) {filter : CosmosMessageFilter}
    (values : ObjectPaths) (given : filter.values = some values.toRecord)
    (ownOnly : ∀ entry ∈ values.entries, ¬Inherits prototypes (splitDots entry.1) entry.2) :
    filter.Aligned prototypes lodash := by
  have same : filter.entries = values.entries := by rw [CosmosMessageFilter.entries, given]
  have writes : lodashWrites lodash [] filter.entries = writesOf filter.entries := by
    rw [same]
    exact lodashWrites_of_bracketless lodash (fun _ => List.not_mem_nil.elim) values.bracketless
  have separate := values.separate lodash
  rw [← same] at separate
  -- what a value that fits holds below a place is read at the rest of a key
  have reads : ∀ {place value path text}, Fits prototypes filter place value →
      (place ++ path, text) ∈ writesOf filter.entries →
        LeadsTo prototypes value path text ∧ ¬Inherits prototypes path text := by
    intro place value path text fits member
    obtain ⟨entry, listed, split⟩ := mem_writesOf.mp member
    obtain ⟨whole, rfl⟩ := Prod.mk.inj split
    refine ⟨fits.leads entry listed path whole.symm, fun inherits => ?_⟩
    exact ownOnly entry (same ▸ listed) (whole ▸ inherits.of_append place)
  refine ⟨?_, writes ▸ separate.objectsOnly, fun place value left fits => ?_,
    fun place key front value _ ends => ?_⟩
  · rw [same, refusesValues_iff, values.nestedValues_eq lodash]
    simp
  · rw [writes] at left ⊢
    obtain ⟨fields, rfl⟩ : ∃ fields, value = .obj fields := by
      rcases left with root | onward
      · exact fits.root root
      · obtain ⟨⟨path, text⟩, member⟩ := List.exists_mem_of_ne_nil _ onward
        obtain ⟨next, path, rfl⟩ :=
          List.exists_cons_of_ne_nil (Nested.goesOn_of_mem_through separate.nonempty member)
        have listed := Nested.mem_of_mem_through member
        obtain ⟨leads, own⟩ := reads fits listed
        obtain ⟨entry, entryListed, split⟩ := mem_writesOf.mp listed
        obtain ⟨whole, rfl⟩ := Prod.mk.inj split
        obtain ⟨content, isText⟩ := values.texts entry (same ▸ entryListed)
        rw [isText] at leads own
        refine object_of_leadsTo fits.json leads own ?_
        exact (values.plain entry (same ▸ entryListed) next (by simp [← whole])).2.1
    refine ⟨fields, rfl, fun key entered => ?_⟩
    obtain ⟨⟨path, text⟩, member⟩ := List.exists_mem_of_ne_nil _ entered
    obtain ⟨leads, own⟩ :=
      reads fits (Nested.mem_of_mem_through (Nested.mem_of_mem_entering member))
    obtain ⟨below, property, -⟩ := own_of_leadsTo fits.json leads own
    exact Option.isSome_iff_exists.mpr ⟨below, property⟩
  · rw [writes] at ends
    have last : ([], value) ∈ Nested.entering lodash key
        (Nested.through lodash (writesOf filter.entries) place) := by
      rw [ends]
      exact List.mem_append_right _ (List.mem_singleton_self _)
    exact Nested.mem_of_mem_through (Nested.mem_of_mem_entering last)

theorem not_inherits_of_undefined {prototypes : Prototypes} {path : List String} {expected : Scalar}
    (absent : ∀ kind ∈ jsonKinds, ∀ segment ∈ path, prototypes kind segment = .undefined) :
    ¬Inherits prototypes path expected := by
  rintro ⟨front, segment, back, kind, rfl, isJson, found, walked, -, same⟩
  rw [absent kind isJson segment (by simp)] at walked
  cases back with
  | nil =>
      obtain rfl : Value.undefined = found := by simpa using walked
      exact Value.noConfusion same
  | cons next back =>
      have nullish : Value.Nullish .undefined := trivial
      obtain ⟨error, thrown⟩ := Value.get_of_nullish prototypes next nullish
      rw [Value.walk_cons, thrown] at walked
      exact absurd walked (by simp [Except.bind])

theorem longFree_undefined : LongFree fun _ _ => .undefined := by
  intro kind key path found walked
  cases path with
  | nil => exact Except.ok.inj walked ▸ rfl
  | cons next path =>
      have nullish : Value.Nullish .undefined := trivial
      obtain ⟨error, thrown⟩ := Value.get_of_nullish (fun _ _ => .undefined) next nullish
      rw [Value.walk_cons, thrown] at walked
      cases walked

/-- The filter on the fields of a swap. -/
def swapTextFilter : TextFilter where
  toCosmosMessageFilter := { swapFilter with values := some swapPaths.toRecord }
  texts := swapPaths.texts

theorem dataComplete_of_swapTextFilter :
    DataComplete (fun _ _ => .undefined) swapTextFilter.toCosmosMessageFilter
      (messageFilterToQueryEntry .dotted swapTextFilter.toCosmosMessageFilter) :=
  (dataComplete_iff longFree_undefined .dotted swapTextFilter).1.mpr (Or.inr
    (swapPaths.aligned .dotted rfl fun _ _ => not_inherits_of_undefined fun _ _ _ _ => rfl))

/-- A filter on the second message of a list. -/
def secondAmountFilter : TextFilter where
  type := some "/cosmos.authz.v1beta1.MsgExec"
  values := some ⟨[("msgs.1.amount", .str "5")], by decide⟩
  texts := by simp [CosmosMessageFilter.entries]

/-- Two messages in a list, the second one with the amount the filter asks for. -/
def twoAmounts : Value :=
  .obj [("msgs", .arr [.obj [("amount", .str "1")], .obj [("amount", .str "5")]])]

theorem secondAmountFilter_misses :
    filterMessageData (fun _ _ => .undefined)
        (messageOf "/cosmos.authz.v1beta1.MsgExec" twoAmounts).toCosmosMessage
        (some secondAmountFilter.toCosmosMessageFilter) = .ok true ∧
      nestedValues .dotted secondAmountFilter.entries =
        .ok (.obj [("msgs", .arr [.undefined, .obj [("amount", .str "5")]])]) ∧
      ¬DataComplete (fun _ _ => .undefined) secondAmountFilter.toCosmosMessageFilter
        (messageFilterToQueryEntry .dotted secondAmountFilter.toCosmosMessageFilter) := by
  have accepted : filterMessageData (fun _ _ => .undefined)
      (messageOf "/cosmos.authz.v1beta1.MsgExec" twoAmounts).toCosmosMessage
      (some secondAmountFilter.toCosmosMessageFilter) = .ok true := by
    decide +kernel
  have written : nestedValues .dotted secondAmountFilter.entries =
      .ok (.obj [("msgs", .arr [.undefined, .obj [("amount", .str "5")]])]) := by
    decide +kernel
  refine ⟨accepted, written, fun complete => ?_⟩
  obtain ⟨entry, built, contained⟩ := complete _ (by decide +kernel) ⟨_, rfl⟩ accepted
  obtain rfl := Except.ok.inj
    ((bind_eq_ok.mpr ⟨_, written, rfl⟩ : messageFilterToQueryEntry .dotted
      secondAmountFilter.toCosmosMessageFilter = .ok _).symm.trans built)
  exact absurd (contained _ rfl) (by decide +kernel)

end SubqlCosmos
