import SubqlCosmos.DictionaryCover
import SubqlCosmos.Js.JsonText

/-!
# Keys of entries as texts

`buildDictionaryQueryEntries` tells entries apart by texts: the entity, a bar and the sorted conditions as
`JSON.stringify` writes them. What is said of the entries with the structured keys of `Dictionary` holds
of the texts.
-/

namespace SubqlCosmos

open Js

/-- A condition as an object. -/
def DictionaryQueryCondition.object (condition : DictionaryQueryCondition) : Value :=
  .obj [("field", .str condition.field), ("value", condition.value),
    ("matcher", .str condition.matcher)]

/-- The key of `uniqBy`: `${item.entity}|${JSON.stringify(sortBy(item.conditions, (c) => c.field))}`. -/
def DictionaryQueryEntry.keyText (numbers : NumberFormat) (entry : DictionaryQueryEntry) :
    List Char :=
  entry.entity.toList ++ '|' ::
    (Json.stringify numbers
      (.arr ((entry.conditions.insertionSort fun left right =>
        codeUnits left.field ≤ codeUnits right.field).map
          DictionaryQueryCondition.object))).getD "undefined".toList

/-- `buildDictionaryQueryEntries`, with the keys as texts. -/
def buildDictionaryQueryEntriesByText (numbers : NumberFormat) (lodash : Lodash)
    (getDsProcessor : String → Except Error DatasourceProcessor)
    (dataSources : List CosmosDatasource) : Except Error (List DictionaryQueryEntry) := do
  match ← gather (datasourceEntries lodash getDsProcessor) dataSources with
  | none => return []
  | some queryEntries => return lodash.uniqBy (DictionaryQueryEntry.keyText numbers) queryEntries

/-- The entity has no bar, and the conditions compare with JSON values whose numbers are safe integers. -/
structure DictionaryQueryEntry.Plain (entry : DictionaryQueryEntry) : Prop where
  unbarred : '|' ∉ entry.entity.toList
  portable : ∀ condition ∈ entry.conditions, Json.Portable condition.value

/-! ## Texts and structures -/

variable {numbers : NumberFormat} {first second : DictionaryQueryEntry}

theorem toJsonItems_objects (conditions : List DictionaryQueryCondition) :
    Value.toJsonItems (conditions.map DictionaryQueryCondition.object) =
      conditions.map DictionaryQueryCondition.toJson := by
  induction conditions with
  | nil => rfl
  | cons condition conditions ih =>
      rw [List.map_cons, Value.toJsonItems, ih, List.map_cons]
      rfl

theorem stringify_arr (items : List Value) :
    Json.stringify numbers (.arr items) =
      some (Json.write numbers (.arr (Value.toJsonItems items))) := by
  rw [Json.stringify]
  exact if_neg id

theorem keyText_eq (entry : DictionaryQueryEntry) :
    entry.keyText numbers =
      entry.entity.toList ++ '|' :: Json.write numbers (.arr entry.key.2) := by
  rw [DictionaryQueryEntry.keyText, stringify_arr, toJsonItems_objects]
  rfl

theorem portable_toJson {condition : DictionaryQueryCondition}
    (portable : Json.Portable condition.value) : Json.Portable condition.toJson := by
  obtain ⟨serialisable, same⟩ := Json.toJson_of_portable portable
  have named : ["field", "value", "matcher"].Pairwise EnumeratedBefore := by decide
  rw [condition.toJson_eq, if_neg serialisable, same]
  refine .obj _ named fun field listed => ?_
  simp only [List.mem_cons, List.not_mem_nil, or_false] at listed
  rcases listed with rfl | rfl | rfl
  · exact .str condition.field
  · exact portable
  · exact .str condition.matcher

theorem DictionaryQueryEntry.Plain.portable_key (plain : first.Plain) :
    Json.Portable (.arr first.key.2) := by
  refine .arr _ fun item member => ?_
  obtain ⟨condition, sorted, rfl⟩ := List.mem_map.mp member
  exact portable_toJson (plain.portable condition ((List.perm_insertionSort _ _).mem_iff.mp sorted))

/-- Two plain entries have one text exactly when they have one key. -/
theorem keyText_eq_iff (firstPlain : first.Plain) (secondPlain : second.Plain) :
    first.keyText numbers = second.keyText numbers ↔ first.key = second.key := by
  constructor
  · intro same
    rw [keyText_eq, keyText_eq] at same
    have front := congrArg (List.takeWhile (· ≠ '|')) same
    have back := congrArg (List.dropWhile (· ≠ '|')) same
    rw [takeWhile_ne_append firstPlain.unbarred, takeWhile_ne_append secondPlain.unbarred] at front
    rw [dropWhile_ne_append firstPlain.unbarred, dropWhile_ne_append secondPlain.unbarred] at back
    have written := (List.cons_eq_cons.mp back).2
    have parsed := congrArg (Json.parse numbers) written
    rw [Json.parse_write firstPlain.portable_key, Json.parse_write secondPlain.portable_key] at parsed
    have entities : first.entity = second.entity :=
      String.toList_injective (by simpa using front)
    exact Prod.ext entities (Value.arr.inj (Option.some.inj parsed))
  · intro same
    have entities : first.entity = second.entity := congrArg Prod.fst same
    rw [keyText_eq, keyText_eq, entities, same]

/-- The entries of a project are the same whether they are told apart by texts or by what the texts stand
for. -/
theorem build_by_text (numbers : NumberFormat) {lodash : Lodash}
    {getDsProcessor : String → Except Error DatasourceProcessor}
    {dataSources : List CosmosDatasource}
    (plain : ∀ queryEntries,
      gather (datasourceEntries lodash getDsProcessor) dataSources = .ok (some queryEntries) →
        ∀ entry ∈ queryEntries, entry.Plain) :
    buildDictionaryQueryEntriesByText numbers lodash getDsProcessor dataSources =
      buildDictionaryQueryEntries lodash getDsProcessor dataSources := by
  rw [buildDictionaryQueryEntriesByText, buildDictionaryQueryEntries]
  cases gathered : gather (datasourceEntries lodash getDsProcessor) dataSources with
  | error error => rfl
  | ok found =>
      cases found with
      | none => rfl
      | some queryEntries =>
          have each := plain queryEntries gathered
          have kept : lodash.uniqBy (DictionaryQueryEntry.keyText numbers) queryEntries =
              lodash.uniqBy DictionaryQueryEntry.key queryEntries :=
            lodash.uniqBy_congr fun first firstMember second secondMember =>
              keyText_eq_iff (each first firstMember) (each second secondMember)
          exact congrArg Except.ok kept

/-- The entry of messages of a type. -/
def typeEntry (type : String) : DictionaryQueryEntry where
  entity := "messages"
  conditions := [{ field := "type", value := .str type, matcher := "equalTo" }]

theorem plain_typeEntry (type : String) : (typeEntry type).Plain where
  unbarred := (by decide : '|' ∉ "messages".toList)
  portable condition member := by
    obtain rfl := List.mem_singleton.mp member
    exact .str type

/-- Two handlers of transfers ask for one entry. -/
theorem transfers_by_text :
    buildDictionaryQueryEntriesByText .integersOnly .dotted (fun _ => .ok ⟨[]⟩)
        [.runtime
          { handlers :=
              [.message (some { type := some "/cosmos.bank.v1beta1.MsgSend" }),
                .message (some { type := some "/cosmos.bank.v1beta1.MsgSend" })] }] =
      .ok [typeEntry "/cosmos.bank.v1beta1.MsgSend"] := by
  rw [build_by_text]
  · rfl
  · rintro queryEntries gathered entry member
    obtain rfl := Option.some.inj (Except.ok.inj gathered)
    obtain rfl : entry = typeEntry "/cosmos.bank.v1beta1.MsgSend" := by
      simpa [typeEntry, optionalText] using member
    exact plain_typeEntry _

end SubqlCosmos
