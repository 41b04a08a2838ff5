import SubqlCosmos.DictionaryCover

/-!
# What the dictionary covers for custom datasources

The dictionary query of a project of runtime and custom datasources, compared with what the base
filters of its handlers let through: messages and events are never left out, and nothing is asked for
that no handler stands behind.
-/

namespace SubqlCosmos

open Js

/-! ## What handlers are after -/

/-- A message or event of the block passes the base filters, as `baseCustomHandlerFilter` applies
them. -/
def BaseFilter.LetsThrough (prototypes : Prototypes) (content : BlockContent) : BaseFilter → Prop
  | .message filterList =>
      ∃ msg ∈ content.messages, filterMessages prototypes (some [msg]) filterList = .ok [msg]
  | .event filterList =>
      ∃ event ∈ content.beginBlockEvents ++ content.events ++ content.endBlockEvents,
        filterEvents prototypes [event] filterList = .ok [event]
  | .block _ | .transaction _ => False

/-- The entries of the filters that are given. -/
def BaseFilter.entries (lodash : Lodash) : BaseFilter → List DictionaryQueryEntry
  | .message filterList =>
      filterList.toList.reduceOption.filterMap fun filter =>
        (messageFilterToQueryEntry lodash filter).toOption
  | .event filterList =>
      filterList.toList.reduceOption.filterMap fun filter =>
        (eventFilterToQueryEntry lodash filter).toOption
  | .block _ | .transaction _ => []

section Project

variable (getDsProcessor : String → Except Error DatasourceProcessor)
  (dataSources : List CosmosDatasource)

/-- The processor of a custom handler answers with a query entry of its own. -/
inductive Asked : DictionaryQueryEntry → Prop
  | processor {ds : CosmosCustomDatasource} {handler : CosmosCustomHandler}
      {plugin : DatasourceProcessor} {processor : SecondLayerHandlerProcessor}
      {entry : DictionaryQueryEntry} (listed : .custom ds ∈ dataSources)
      (loaded : getDsProcessor ds.processor = .ok plugin) (member : handler ∈ ds.handlers)
      (served : plugin.handlerProcessors.lookup handler.kind = some processor)
      (answers : (processor.dictionaryQuery.bind fun query => query handler.filter ds) = some entry) :
      Asked entry

/-- The base filters of a runtime handler, or of a custom handler whose processor has no query entry
for it. -/
inductive Sought : BaseFilter → Prop
  | runtime {ds : CosmosRuntimeDatasource} {handler : CosmosRuntimeHandler}
      (listed : .runtime ds ∈ dataSources) (member : handler ∈ ds.handlers) :
      Sought handler.baseFilter
  | custom {ds : CosmosCustomDatasource} {handler : CosmosCustomHandler}
      {plugin : DatasourceProcessor} {processor : SecondLayerHandlerProcessor}
      (listed : .custom ds ∈ dataSources) (loaded : getDsProcessor ds.processor = .ok plugin)
      (member : handler ∈ ds.handlers) (named : isBaseHandler handler.kind = false)
      (served : plugin.handlerProcessors.lookup handler.kind = some processor)
      (silent : (processor.dictionaryQuery.bind fun query => query handler.filter ds) = none) :
      Sought processor.base

end Project

/-! ## Gathering -/

/-- What is gathered is what the items have, and each has something. -/
theorem exists_of_gather {α : Type}
    {entriesOf : α → Except Error (Option (List DictionaryQueryEntry))} {items : List α}
    {entries : List DictionaryQueryEntry} (gathered : gather entriesOf items = .ok (some entries)) :
    (∀ item ∈ items, ∃ part, entriesOf item = .ok (some part) ∧ part ⊆ entries) ∧
      ∀ entry ∈ entries, ∃ item ∈ items, ∃ part, entriesOf item = .ok (some part) ∧ entry ∈ part := by
  induction items generalizing entries with
  | nil =>
      obtain rfl : [] = entries := Option.some.inj (Except.ok.inj gathered)
      exact ⟨nofun, nofun⟩
  | cons item items ih =>
      obtain ⟨here, own, gathered⟩ := bind_eq_ok.mp gathered
      cases here with
      | none => cases gathered
      | some part =>
          obtain ⟨rest, others, joined⟩ := bind_eq_ok.mp gathered
          obtain ⟨left, rfl, rfl⟩ := Option.map_eq_some_iff.mp (Except.ok.inj joined)
          obtain ⟨present, source⟩ := ih others
          constructor
          · intro other member
            rcases List.mem_cons.mp member with rfl | member
            · exact ⟨part, own, List.subset_append_left _ _⟩
            · obtain ⟨otherPart, given, inside⟩ := present other member
              exact ⟨otherPart, given, List.Subset.trans inside (List.subset_append_right _ _)⟩
          · intro entry member
            rcases List.mem_append.mp member with member | member
            · exact ⟨item, List.mem_cons_self, part, own, member⟩
            · obtain ⟨other, listed, otherPart, given, inside⟩ := source entry member
              exact ⟨other, List.mem_cons_of_mem _ listed, otherPart, given, inside⟩

/-! ## The entries of base filters -/

section Base

variable {lodash : Lodash} {prototypes : Prototypes} {content : BlockContent}

/-- The loop over filters gathers from those that are given, which are some. -/
theorem gather_of_forEachFilter {α : Type}
    {entry : α → Except Error (Option (List DictionaryQueryEntry))} {filterList : OneOrMany α}
    {part : List DictionaryQueryEntry} (looped : forEachFilter entry filterList = .ok (some part)) :
    filterList.isEmpty = false ∧ gather entry filterList.toList.reduceOption = .ok (some part) := by
  rw [forEachFilter] at looped
  split at looped
  · cases looped
  · rename_i given
    refine ⟨?_, looped⟩
    cases filterList with
    | one filter =>
        cases filter with
        | none => exact absurd rfl given
        | some filter => rfl
    | many filters =>
        cases filters with
        | nil => exact absurd rfl given
        | cons first rest => rfl

theorem single_of_typed {typed : Bool} {outcome : Except Error DictionaryQueryEntry}
    {part : List DictionaryQueryEntry}
    (gives : (if typed then outcome.map fun entry => some [entry] else .ok none) =
      .ok (some part)) : ∃ entry, outcome = .ok entry ∧ part = [entry] := by
  cases typed with
  | false => cases gives
  | true =>
      cases outcome with
      | error error => cases gives
      | ok entry => exact ⟨entry, rfl, (Option.some.inj (Except.ok.inj gives)).symm⟩

theorem eq_nil_of_forEachFilter {α : Type}
    {entry : α → Except Error (Option (List DictionaryQueryEntry))} {filterList : OneOrMany α}
    {part : List DictionaryQueryEntry} (looped : forEachFilter entry filterList = .ok (some part))
    (nothing : ∀ filter own, entry filter = .ok (some own) → own = []) : part = [] := by
  refine List.eq_nil_iff_forall_not_mem.mpr fun found member => ?_
  obtain ⟨filter, -, own, given, inside⟩ :=
    (exists_of_gather (gather_of_forEachFilter looped).2).2 found member
  rw [nothing filter own given] at inside
  exact List.not_mem_nil inside

/-- The loop over filters with types gives the entries that are built from them. -/
theorem mem_of_forEachTyped {α : Type} {typed : α → Bool}
    {build : α → Except Error DictionaryQueryEntry} {filterList : OneOrMany α}
    {part : List DictionaryQueryEntry}
    (looped : forEachFilter (fun filter =>
      if typed filter then (build filter).map fun entry => some [entry] else .ok none) filterList =
        .ok (some part)) :
    (∀ filter, some filter ∈ filterList.toList → ∃ entry ∈ part, build filter = .ok entry) ∧
      ∀ entry, entry ∈ part ↔
        entry ∈ filterList.toList.reduceOption.filterMap fun filter => (build filter).toOption := by
  obtain ⟨present, source⟩ := exists_of_gather (gather_of_forEachFilter looped).2
  have each : ∀ filter, some filter ∈ filterList.toList →
      ∃ entry ∈ part, build filter = .ok entry := by
    intro filter listed
    obtain ⟨own, given, inside⟩ := present filter (List.reduceOption_mem_iff.mpr listed)
    obtain ⟨entry, built, rfl⟩ := single_of_typed given
    exact ⟨entry, inside (List.mem_singleton_self _), built⟩
  refine ⟨each, fun entry => ⟨fun member => ?_, fun member => ?_⟩⟩
  · obtain ⟨filter, listed, own, given, inside⟩ := source entry member
    obtain ⟨single, built, rfl⟩ := single_of_typed given
    obtain rfl := List.mem_singleton.mp inside
    exact List.mem_filterMap.mpr ⟨filter, listed, by rw [built]; rfl⟩
  · obtain ⟨filter, listed, built⟩ := List.mem_filterMap.mp member
    obtain ⟨own, ownMember, ownBuilt⟩ := each filter (List.reduceOption_mem_iff.mp listed)
    rw [ownBuilt] at built
    exact Option.some.inj built ▸ ownMember

/-- What the switch gives is the entries of the filters. -/
theorem mem_filterEntries_iff {base : BaseFilter} {part : List DictionaryQueryEntry}
    (switched : filterEntries lodash base = .ok (some part)) (entry : DictionaryQueryEntry) :
    entry ∈ part ↔ entry ∈ base.entries lodash := by
  cases base with
  | block filterList =>
      have none := eq_nil_of_forEachFilter switched fun filter own given => by
        obtain ⟨modulo, -, rfl⟩ := Option.map_eq_some_iff.mp (Except.ok.inj given)
        rfl
      rw [none]
      rfl
  | transaction filterList =>
      have none := eq_nil_of_forEachFilter switched fun filter own given =>
        (Option.some.inj (Except.ok.inj given)).symm
      rw [none]
      rfl
  | message filterList => exact (mem_of_forEachTyped switched).2 entry
  | event filterList => exact (mem_of_forEachTyped switched).2 entry

theorem untyped_eq_nil {base : BaseFilter} {part : List DictionaryQueryEntry}
    (switched : untypedEntries base = .ok (some part)) : part = [] := by
  cases base with
  | block filterList | transaction filterList | message filterList | event filterList =>
      exact eq_nil_of_forEachFilter switched fun filter own given =>
        (Option.some.inj (Except.ok.inj given)).symm

/-- What passes the base filters is matched by the entry of one of them. -/
theorem matches_of_letsThrough {base : BaseFilter} {part : List DictionaryQueryEntry}
    (switched : filterEntries lodash base = .ok (some part))
    (passes : base.LetsThrough prototypes content) : ∃ entry ∈ part, entry.Matches content := by
  cases base with
  | block filterList | transaction filterList => exact passes.elim
  | message filterList =>
      obtain ⟨msg, member, kept⟩ := passes
      obtain ⟨filter, listed, accepted⟩ := mem_of_filterAll (gather_of_forEachFilter switched).1 kept
        (List.mem_singleton_self msg)
      obtain ⟨entry, entryMember, built⟩ := (mem_of_forEachTyped switched).1 filter listed
      exact ⟨entry, entryMember, messageEntry_matches built member accepted⟩
  | event filterList =>
      obtain ⟨event, member, kept⟩ := passes
      obtain ⟨filter, listed, accepted⟩ := mem_of_filterAll (gather_of_forEachFilter switched).1 kept
        (List.mem_singleton_self event)
      obtain ⟨entry, entryMember, built⟩ := (mem_of_forEachTyped switched).1 filter listed
      exact ⟨entry, entryMember, eventEntry_matches built member accepted⟩

end Base

/-! ## The query of a project -/

section Project

variable {lodash : Lodash} {getDsProcessor : String → Except Error DatasourceProcessor}
  {dataSources : List CosmosDatasource} {built : List DictionaryQueryEntry}

/-- A custom handler with entries has its processor's own entry, or those of its base filters. -/
theorem customHandlerEntries_cases {plugin : DatasourceProcessor} {ds : CosmosCustomDatasource}
    {handler : CosmosCustomHandler} {part : List DictionaryQueryEntry}
    (entries : customHandlerEntries lodash plugin ds handler = .ok (some part)) :
    ∃ processor, plugin.handlerProcessors.lookup handler.kind = some processor ∧
      ((∃ entry, (processor.dictionaryQuery.bind fun query => query handler.filter ds) = some entry ∧
          part = [entry]) ∨
        (processor.dictionaryQuery.bind fun query => query handler.filter ds) = none ∧
          (isBaseHandler handler.kind = false ∧
              filterEntries lodash processor.base = .ok (some part) ∨
            isBaseHandler handler.kind = true ∧ part = [])) := by
  obtain ⟨kind, based, entries⟩ := bind_eq_ok.mp entries
  cases served : plugin.handlerProcessors.lookup handler.kind with
  | none => simp [served] at entries
  | some processor =>
      refine ⟨processor, rfl, ?_⟩
      simp only [served] at entries
      cases answers : processor.dictionaryQuery.bind fun query => query handler.filter ds with
      | some entry =>
          simp only [answers] at entries
          exact Or.inl ⟨entry, rfl, (Option.some.inj (Except.ok.inj entries)).symm⟩
      | none =>
          simp only [answers] at entries
          refine Or.inr ⟨rfl, ?_⟩
          rw [getBaseHandlerKind] at based
          cases named : isBaseHandler handler.kind with
          | true =>
              rw [named, if_pos rfl] at based
              obtain rfl := Except.ok.inj based
              exact Or.inr ⟨rfl, untyped_eq_nil entries⟩
          | false =>
              rw [named, if_neg Bool.false_ne_true, served] at based
              obtain rfl := Except.ok.inj based
              exact Or.inl ⟨rfl, entries⟩

/-- Whatever the handlers are after has its entries among those gathered, and nothing else has. -/
theorem gathered_iff {queryEntries : List DictionaryQueryEntry}
    (gathered : gather (datasourceEntries lodash getDsProcessor) dataSources =
      .ok (some queryEntries)) :
    (∀ base, Sought getDsProcessor dataSources base →
        ∃ part, filterEntries lodash base = .ok (some part) ∧ part ⊆ queryEntries) ∧
      (∀ own, Asked getDsProcessor dataSources own → own ∈ queryEntries) ∧
        ∀ entry ∈ queryEntries, Asked getDsProcessor dataSources entry ∨
          ∃ base, Sought getDsProcessor dataSources base ∧ entry ∈ base.entries lodash := by
  obtain ⟨present, source⟩ := exists_of_gather gathered
  -- the entries of a handler of a custom datasource
  have custom : ∀ {ds : CosmosCustomDatasource} {handler : CosmosCustomHandler}
      {plugin : DatasourceProcessor} (_ : .custom ds ∈ dataSources)
      (_ : getDsProcessor ds.processor = .ok plugin) (_ : handler ∈ ds.handlers),
      ∃ part, customHandlerEntries lodash plugin ds handler = .ok (some part) ∧
        part ⊆ queryEntries := by
    intro ds handler plugin listed loaded member
    obtain ⟨all, whole, inside⟩ := present _ listed
    obtain ⟨same, found, whole⟩ := bind_eq_ok.mp whole
    obtain rfl := Except.ok.inj (loaded.symm.trans found)
    obtain ⟨part, given, sub⟩ := (exists_of_gather whole).1 handler member
    exact ⟨part, given, List.Subset.trans sub inside⟩
  refine ⟨fun base sought => ?_, fun own asked => ?_, fun entry member => ?_⟩
  · cases sought with
    | runtime listed member =>
        obtain ⟨all, whole, inside⟩ := present _ listed
        obtain ⟨part, given, sub⟩ := (exists_of_gather whole).1 _ member
        exact ⟨part, given, List.Subset.trans sub inside⟩
    | custom listed loaded member named served silent =>
        obtain ⟨part, given, sub⟩ := custom listed loaded member
        obtain ⟨processor, same, ⟨entry, answers, -⟩ | ⟨-, ⟨-, switched⟩ | ⟨base, -⟩⟩⟩ :=
          customHandlerEntries_cases given
        all_goals obtain rfl := Option.some.inj (served.symm.trans same)
        · rw [silent] at answers
          cases answers
        · exact ⟨part, switched, sub⟩
        · rw [named] at base
          cases base
  · cases asked with
    | processor listed loaded member served answers =>
        obtain ⟨part, given, sub⟩ := custom listed loaded member
        obtain ⟨processor, same, ⟨entry, answered, rfl⟩ | ⟨silent, -⟩⟩ :=
          customHandlerEntries_cases given
        all_goals obtain rfl := Option.some.inj (served.symm.trans same)
        · obtain rfl := Option.some.inj (answers.symm.trans answered)
          exact sub (List.mem_singleton_self _)
        · rw [silent] at answers
          cases answers
  · obtain ⟨ds, listed, part, whole, inside⟩ := source entry member
    cases ds with
    | runtime ds =>
        obtain ⟨handler, handled, own, given, ownMember⟩ := (exists_of_gather whole).2 entry inside
        refine Or.inr ⟨_, .runtime listed handled, ?_⟩
        exact (mem_filterEntries_iff given entry).mp ownMember
    | custom ds =>
        obtain ⟨plugin, loaded, whole⟩ := bind_eq_ok.mp whole
        obtain ⟨handler, handled, own, given, ownMember⟩ := (exists_of_gather whole).2 entry inside
        obtain ⟨processor, served,
            ⟨query, answers, rfl⟩ | ⟨silent, ⟨named, switched⟩ | ⟨-, rfl⟩⟩⟩ :=
          customHandlerEntries_cases given
        · obtain rfl := List.mem_singleton.mp ownMember
          exact Or.inl (.processor listed loaded handled served answers)
        · refine Or.inr ⟨_, .custom listed loaded handled named served silent, ?_⟩
          exact (mem_filterEntries_iff switched entry).mp ownMember
        · exact absurd ownMember List.not_mem_nil

/-- The query of a project that uses the dictionary: up to keys it has the entries of the handlers'
base filters and of the processors and no others, and a block in which a message or event passes base
filters matches an entry. -/
theorem project_covered
    (outcome : buildDictionaryQueryEntries lodash getDsProcessor dataSources = .ok built)
    (used : built ≠ []) :
    (∀ base, Sought getDsProcessor dataSources base →
        (∀ own ∈ base.entries lodash, ∃ entry ∈ built, entry.key = own.key) ∧
          ∀ prototypes content, base.LetsThrough prototypes content →
            ∃ entry ∈ built, entry.Matches content) ∧
      (∀ own, Asked getDsProcessor dataSources own → ∃ entry ∈ built, entry.key = own.key) ∧
        ∀ entry ∈ built, Asked getDsProcessor dataSources entry ∨
          ∃ base, Sought getDsProcessor dataSources base ∧ entry ∈ base.entries lodash := by
  obtain ⟨gathered, all, outcome⟩ := bind_eq_ok.mp outcome
  cases gathered with
  | none => exact absurd (Except.ok.inj outcome).symm used
  | some queryEntries =>
      obtain rfl := Except.ok.inj outcome
      obtain ⟨sought, asked, source⟩ := gathered_iff all
      refine ⟨fun base seeks => ?_, fun own asks => lodash.exists_mem_uniqBy _ (asked own asks),
        fun entry member => source entry (lodash.mem_of_mem_uniqBy member)⟩
      obtain ⟨part, switched, inside⟩ := sought base seeks
      refine ⟨fun own member => ?_, fun prototypes content passes => ?_⟩
      · exact lodash.exists_mem_uniqBy _ (inside ((mem_filterEntries_iff switched own).mpr member))
      · obtain ⟨entry, member, matched⟩ := matches_of_letsThrough switched passes
        obtain ⟨kept, inBuilt, sameKey⟩ :=
          lodash.exists_mem_uniqBy DictionaryQueryEntry.key (inside member)
        exact ⟨kept, inBuilt, matched.of_key_eq sameKey⟩

end Project

/-- What a processor says about contract executions: it leaves the query to its base filter. -/
def executionHandlers : SecondLayerHandlerProcessor where
  base := .message (.one (some { type := some msgExecuteContract }))
  dictionaryQuery := none

def executionProcessor : DatasourceProcessor where
  handlerProcessors := [("cosmos/ExecutionHandler", executionHandlers)]

/-- A project of transfers and, through that processor, of contract executions. -/
def transfersAndExecutions : List CosmosDatasource :=
  [.runtime { handlers := [.message (some { type := some "/cosmos.bank.v1beta1.MsgSend" })] },
    .custom
      { kind := "cosmos/Execution"
        processor := "./dist/execution.js"
        handlers := [{ kind := "cosmos/ExecutionHandler", filter := none }] }]

theorem execution_covered :
    ∃ built,
      buildDictionaryQueryEntries .dotted (fun _ => .ok executionProcessor) transfersAndExecutions =
          .ok built ∧
        ∃ entry ∈ built, entry.Matches executionBlock := by
  have outcome :
      buildDictionaryQueryEntries .dotted (fun _ => .ok executionProcessor) transfersAndExecutions =
        .ok
          [{ entity := "messages"
             conditions :=
               [{ field := "type", value := .str "/cosmos.bank.v1beta1.MsgSend", matcher := "equalTo" }] },
            { entity := "messages"
              conditions :=
                [{ field := "type", value := .str msgExecuteContract, matcher := "equalTo" }] }] := rfl
  refine ⟨_, outcome, ?_⟩
  obtain ⟨covered, -⟩ := project_covered outcome (List.cons_ne_nil _ _)
  have sought : Sought (fun _ => .ok executionProcessor) transfersAndExecutions
      executionHandlers.base :=
    .custom (List.mem_cons_of_mem _ List.mem_cons_self) rfl List.mem_cons_self rfl rfl rfl
  exact (covered _ sought).2 (fun _ _ => .undefined) executionBlock
    ⟨_, List.mem_singleton_self _, rfl⟩

end SubqlCosmos
