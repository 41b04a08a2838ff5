import SubqlCosmos.Js.SetWith
import SubqlCosmos.FilterLaws

/-!
# Dictionary query entries

The query the fetch service builds from the handlers of all datasources
(`indexer/fetch.service.ts`). An empty list of entries turns the dictionary off.
-/

namespace SubqlCosmos

open Js

/-! ## Entries -/

/-- `DictionaryQueryCondition`. -/
structure DictionaryQueryCondition where
  field : String
  value : Value
  matcher : String
deriving DecidableEq

/-- `DictionaryQueryEntry`. -/
structure DictionaryQueryEntry where
  entity : String
  conditions : List DictionaryQueryCondition
deriving DecidableEq

/-- A text, or `undefined` where it is absent. -/
def optionalText : Option String → Value
  | none => .undefined
  | some text => .str text

/-- The nested object written from dotted keys: `msg.swap.input_token` becomes
`{ msg: { swap: { input_token: … } } }`. -/
def nestedValues (lodash : Lodash) (entries : List (String × Scalar)) : Except Error Value := do
  let nested ← entries.foldlM (fun nested entry => Nested.setWith lodash nested entry.1 entry.2)
    (.obj [])
  return nested.toValue

/-- The query entry of a message filter. -/
def messageFilterToQueryEntry (lodash : Lodash) (filter : CosmosMessageFilter) :
    Except Error DictionaryQueryEntry := do
  let type : DictionaryQueryCondition :=
    { field := "type", value := optionalText filter.type, matcher := "equalTo" }
  match filter.values with
  | none => return { entity := "messages", conditions := [type] }
  | some values =>
      let nested ← nestedValues lodash values.entries
      return {
        entity := "messages"
        conditions := [type, { field := "data", value := nested, matcher := "contains" }] }

/-- A condition on a message among those on an event; the type of the message goes by another name. -/
def DictionaryQueryCondition.onMessage (condition : DictionaryQueryCondition) :
    DictionaryQueryCondition :=
  if condition.field = "type" then { condition with field := "msgType" } else condition

/-- The query entry of an event filter. -/
def eventFilterToQueryEntry (lodash : Lodash) (filter : CosmosEventFilter) :
    Except Error DictionaryQueryEntry := do
  let type : DictionaryQueryCondition :=
    { field := "type", value := optionalText filter.type, matcher := "equalTo" }
  match filter.messageFilter with
  | none => return { entity := "events", conditions := [type] }
  | some messageFilter =>
      let entry ← messageFilterToQueryEntry lodash messageFilter
      return {
        entity := "events"
        conditions := type :: entry.conditions.map DictionaryQueryCondition.onMessage }

/-! ### Entries that are built -/

section Built

variable {lodash : Lodash} {entry : DictionaryQueryEntry}

theorem messageFilterToQueryEntry_ok {filter : CosmosMessageFilter}
    (built : messageFilterToQueryEntry lodash filter = .ok entry) :
    entry.entity = "messages" ∧
      (filter.values = none ∧
          entry.conditions =
            [{ field := "type", value := optionalText filter.type, matcher := "equalTo" }] ∨
        ∃ values nested, filter.values = some values ∧
          nestedValues lodash values.entries = .ok nested ∧
            entry.conditions =
              [{ field := "type", value := optionalText filter.type, matcher := "equalTo" },
                { field := "data", value := nested, matcher := "contains" }]) := by
  rw [messageFilterToQueryEntry] at built
  cases given : filter.values with
  | none =>
      rw [given] at built
      obtain rfl := Except.ok.inj built
      exact ⟨rfl, Or.inl ⟨rfl, rfl⟩⟩
  | some values =>
      rw [given] at built
      obtain ⟨nested, written, same⟩ := bind_eq_ok.mp built
      obtain rfl := Except.ok.inj same
      exact ⟨rfl, Or.inr ⟨values, nested, rfl, written, rfl⟩⟩

theorem eventFilterToQueryEntry_ok {filter : CosmosEventFilter}
    (built : eventFilterToQueryEntry lodash filter = .ok entry) :
    entry.entity = "events" ∧
      (filter.messageFilter = none ∧
          entry.conditions =
            [{ field := "type", value := optionalText filter.type, matcher := "equalTo" }] ∨
        ∃ messageFilter messageEntry, filter.messageFilter = some messageFilter ∧
          messageFilterToQueryEntry lodash messageFilter = .ok messageEntry ∧
            entry.conditions =
              { field := "type", value := optionalText filter.type, matcher := "equalTo" } ::
                messageEntry.conditions.map DictionaryQueryCondition.onMessage) := by
  rw [eventFilterToQueryEntry] at built
  cases given : filter.messageFilter with
  | none =>
      rw [given] at built
      obtain rfl := Except.ok.inj built
      exact ⟨rfl, Or.inl ⟨rfl, rfl⟩⟩
  | some messageFilter =>
      rw [given] at built
      obtain ⟨messageEntry, written, same⟩ := bind_eq_ok.mp built
      obtain rfl := Except.ok.inj same
      exact ⟨rfl, Or.inr ⟨messageFilter, messageEntry, rfl, written, rfl⟩⟩

end Built

/-! ## Processors of custom datasources -/

/-- What a datasource processor says about one kind of custom handler. -/
structure SecondLayerHandlerProcessor where
  /-- The base handler kind and the base filters for it. -/
  base : BaseFilter
  dictionaryQuery : Option (Option Value → CosmosCustomDatasource → Option DictionaryQueryEntry)

/-- A datasource processor: its handler processors by the handler kinds they serve. -/
structure DatasourceProcessor where
  handlerProcessors : List (String × SecondLayerHandlerProcessor)

/-- The handler kind of a base filter. -/
def BaseFilter.kind : BaseFilter → CosmosHandlerKind
  | .block _ => .block
  | .transaction _ => .transaction
  | .message _ => .message
  | .event _ => .event

/-- `isBaseHandler`: the kind is one of the runtime handler kinds. -/
def isBaseHandler (kind : String) : Bool :=
  [CosmosHandlerKind.block, .transaction, .message, .event].any fun base => base.text = kind

/-- `getBaseHandlerKind` for a handler of a custom datasource, where `none` stands for the
`undefined` a handler of a runtime kind gets. -/
def getBaseHandlerKind (plugin : DatasourceProcessor) (ds : CosmosCustomDatasource)
    (handler : CosmosCustomHandler) : Except Error (Option CosmosHandlerKind) :=
  if isBaseHandler handler.kind then .ok none
  else
    match plugin.handlerProcessors.lookup handler.kind with
    | none =>
        .error
          { name := "Error"
            message :=
              "handler type " ++ handler.kind ++ " not found in processor for " ++ ds.kind }
    | some processor => .ok (some processor.base.kind)

/-! ## The entries of one handler

Below, `none` stands for the early `return []`. -/

/-- Gathers the entries of all items in order, unless an item ends the search. -/
def gather {α : Type} (entriesOf : α → Except Error (Option (List DictionaryQueryEntry))) :
    List α → Except Error (Option (List DictionaryQueryEntry))
  | [] => .ok (some [])
  | item :: items => do
      match ← entriesOf item with
      | none => return none
      | some entries =>
          let rest ← gather entriesOf items
          return rest.map (entries ++ ·)

/-- The loop over the filters that are given, which must be at least one. -/
def forEachFilter {α : Type} (entry : α → Except Error (Option (List DictionaryQueryEntry)))
    (filterList : OneOrMany α) : Except Error (Option (List DictionaryQueryEntry)) :=
  let given := filterList.toList.reduceOption
  if given.isEmpty then .ok none else gather entry given

/-- The switch over the base handler kind. -/
def filterEntries (lodash : Lodash) :
    BaseFilter → Except Error (Option (List DictionaryQueryEntry))
  | .block filterList =>
      forEachFilter (fun filter => .ok (filter.modulo.map fun _ => [])) filterList
  | .transaction filterList => forEachFilter (fun _ => .ok (some [])) filterList
  | .message filterList =>
      forEachFilter (fun filter =>
        if filter.type.isSome then
          (messageFilterToQueryEntry lodash filter).map fun entry => some [entry]
        else .ok none) filterList
  | .event filterList =>
      forEachFilter (fun filter =>
        if filter.type.isSome then
          (eventFilterToQueryEntry lodash filter).map fun entry => some [entry]
        else .ok none) filterList

/-- The switch when the base handler kind is `undefined`. -/
def untypedEntries : BaseFilter → Except Error (Option (List DictionaryQueryEntry))
  | .block filterList => forEachFilter (fun _ => .ok (some [])) filterList
  | .transaction filterList => forEachFilter (fun _ => .ok (some [])) filterList
  | .message filterList => forEachFilter (fun _ => .ok (some [])) filterList
  | .event filterList => forEachFilter (fun _ => .ok (some [])) filterList

/-- The filter of a runtime handler with its kind. -/
def CosmosRuntimeHandler.baseFilter : CosmosRuntimeHandler → BaseFilter
  | .block filter => .block (.one filter)
  | .transaction filter => .transaction (.one filter)
  | .message filter => .message (.one filter)
  | .event filter => .event (.one filter)

/-- The entries of a handler of a custom datasource. -/
def customHandlerEntries (lodash : Lodash) (plugin : DatasourceProcessor)
    (ds : CosmosCustomDatasource) (handler : CosmosCustomHandler) :
    Except Error (Option (List DictionaryQueryEntry)) := do
  let baseHandlerKind ← getBaseHandlerKind plugin ds handler
  match plugin.handlerProcessors.lookup handler.kind with
  | none =>
      .error
        { name := "TypeError"
          message := "Cannot read properties of undefined (reading 'dictionaryQuery')" }
  | some processor =>
      match processor.dictionaryQuery.bind fun query => query handler.filter ds with
      | some queryEntry => return some [queryEntry]
      | none =>
          match baseHandlerKind with
          | none => untypedEntries processor.base
          | some _ => filterEntries lodash processor.base

/-! ## The loops over datasources and handlers -/

/-- The entries of the handlers of a datasource. -/
def datasourceEntries (lodash : Lodash)
    (getDsProcessor : String → Except Error DatasourceProcessor) :
    CosmosDatasource → Except Error (Option (List DictionaryQueryEntry))
  | .runtime ds => gather (fun handler => filterEntries lodash handler.baseFilter) ds.handlers
  | .custom ds => do
      let plugin ← getDsProcessor ds.processor
      gather (customHandlerEntries lodash plugin ds) ds.handlers

/-- A condition as `JSON.stringify` writes it. -/
def DictionaryQueryCondition.toJson (condition : DictionaryQueryCondition) : Value :=
  Value.toJson
    (.obj [("field", .str condition.field), ("value", condition.value),
      ("matcher", .str condition.matcher)])

/-- The key of an entry: its entity and its conditions as JSON, sorted by field. -/
def DictionaryQueryEntry.key (entry : DictionaryQueryEntry) : String × List Value :=
  (entry.entity,
    (entry.conditions.insertionSort fun left right =>
      codeUnits left.field ≤ codeUnits right.field).map DictionaryQueryCondition.toJson)

/-- `buildDictionaryQueryEntries`. -/
def buildDictionaryQueryEntries (lodash : Lodash)
    (getDsProcessor : String → Except Error DatasourceProcessor)
    (dataSources : List CosmosDatasource) : Except Error (List DictionaryQueryEntry) := do
  match ← gather (datasourceEntries lodash getDsProcessor) dataSources with
  | none => return []
  | some queryEntries => return lodash.uniqBy DictionaryQueryEntry.key queryEntries

end SubqlCosmos
