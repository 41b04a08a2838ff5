import SubqlCosmos.RpcErrors
import SubqlCosmos.Js.Heap

/-!
# Dynamic datasources

A handler can ask for a datasource made from a template of the project. The template is copied, given its
start block and, for a custom datasource, the arguments of the request among its processor options
(`indexer/dynamic-ds.service.ts`).
-/

namespace SubqlCosmos

open Js

/-- `DatasourceParams`. -/
structure DatasourceParams where
  templateName : String
  startBlock : Nat
  args : Slot

/-- The templates of the project, lodash, the validation of custom datasources, and the texts of
primitives. -/
structure DynamicDsService where
  templates : List Slot
  lodash : Heap.DeepClone
  validateCustomDs : Heap → Slot → Except Error Unit × Heap
  /-- A validation may make objects, and writes none that is there. -/
  validateCustomDs_grown : ∀ (heap : Heap) (ds : Slot), heap.Grown (validateCustomDs heap ds).2
  textOf : Scalar → String

/-- The kind of runtime datasources. -/
def runtimeKind : String := "cosmos/Runtime"

/-- `Unable to create dynamic datasource.` -/
def unableToCreate (error : Error) : Error where
  name := "Error"
  message := "Unable to create dynamic datasource.\n " ++ error.message

/-- The error of an assignment to a property of a primitive. -/
def cannotCreateProperty (textOf : Scalar → String) (key : String) (primitive : Scalar) : Error where
  name := "TypeError"
  message := "Cannot create property '" ++ key ++ "' on " ++
    (match primitive with
      | .null => "object"
      | .bool _ => "boolean"
      | .num _ => "number"
      | .str _ => "string") ++ " '" ++ textOf primitive ++ "'"

namespace DynamicDsService

variable (service : DynamicDsService)

/-- `isCustomCosmosDs`. -/
def IsCustomCosmosDs (heap : Heap) (ds : Slot) : Prop :=
  heap.field ds "kind" ≠ .scalar (.str runtimeKind) ∧
    match heap.field ds "processor" with
    | .undefined => False
    | .scalar primitive => ¬Falsy (.scalar primitive)
    | .object _ => True

instance (heap : Heap) (ds : Slot) : Decidable (IsCustomCosmosDs heap ds) := by
  unfold IsCustomCosmosDs
  split <;> infer_instance

/-- `dsObj.processor.options = { ...dsObj.processor.options, ...params.args }`. A processor that passed
`isCustomCosmosDs` is not `undefined`. -/
def assignOptions (params : DatasourceParams) (heap : Heap) (ds : Slot) : Except Error Heap :=
  match heap.field ds "processor" with
  | .object processor =>
      let options := heap.fields (heap.field (.object processor) "options")
      let assigned : Cell :=
        { fields := Heap.spread (Heap.spread [] options) (heap.fields params.args) }
      .ok (Heap.setField (heap ++ [assigned]) processor "options" (.object heap.length))
  | .scalar primitive => .error (cannotCreateProperty service.textOf "options" primitive)
  | .undefined => .ok heap

/-- The template that a request names. -/
def template? (heap : Heap) (templateName : String) : Option Slot :=
  service.templates.find?
    fun template => heap.field template "name" = .scalar (.str templateName)

/-- `undefined` cannot be taken apart. -/
def missingTemplate : Error where
  name := "TypeError"
  message := "Cannot destructure property 'name' of '_a' as it is undefined."

/-- The copy of the template without its name, and with the start block. A missing template is copied to
`undefined`, which cannot be taken apart, so the check for it after that is never reached. -/
def startDatasource (params : DatasourceParams) (heap : Heap) : Except Error (Slot × Heap) :=
  match service.template? heap params.templateName with
  | none => .error missingTemplate
  | some found => do
      let (copy, copied) ← service.lodash.cloneDeep heap found
      let template : Cell := { fields := Heap.others "name" (copied.fields copy) }
      let dsObj : Cell :=
        { fields := Record.putEntry "startBlock" (.scalar (.num params.startBlock))
            (Heap.spread [] template.fields) }
      return (.object (copied.length + 1), copied ++ [template, dsObj])

/-- `getDatasource`: the datasource or an error, and the heap afterwards. -/
def getDatasource (params : DatasourceParams) (heap : Heap) : Except Error Slot × Heap :=
  match service.startDatasource params heap with
  | .error error => (.error error, heap)
  | .ok (ds, heap) =>
      if IsCustomCosmosDs heap ds then
        match service.assignOptions params heap ds with
        | .error error => (.error (unableToCreate error), heap)
        | .ok heap =>
            match service.validateCustomDs heap ds with
            | (.error error, heap) => (.error (unableToCreate error), heap)
            | (.ok (), heap) => (.ok ds, heap)
      else
        (.ok ds, heap)

end DynamicDsService

/-! ## Datasources as values -/

section Values

/-- The own properties of a value that is an object, or none. -/
def ownFields : Value → List (String × Value)
  | .obj fields => fields
  | _ => []

/-- A property, or `undefined`. -/
def property (fields : List (String × Value)) (key : String) : Value :=
  (fields.lookup key).getD .undefined

/-- A value that is spread into its own properties or into none: no array and no text. -/
def Spreads : Value → Prop
  | .arr _ | .scalar (.str _) => False
  | _ => True

/-- The template without its name, and with the start block. -/
def startedFields (template : List (String × Value)) (startBlock : Nat) : List (String × Value) :=
  Record.putEntry "startBlock" (.num startBlock) (Heap.spread [] (Heap.others "name" template))

/-- The processor with the arguments among its options. -/
def withArgs (processor args : List (String × Value)) : List (String × Value) :=
  Record.putEntry "options"
    (.obj (Heap.spread (Heap.spread [] (ownFields (property processor "options"))) args)) processor

/-- A datasource of another kind than the runtime's, with a processor. -/
def IsCustom (fields : List (String × Value)) : Prop :=
  property fields "kind" ≠ .str runtimeKind ∧ ¬Falsy (property fields "processor")

instance (fields : List (String × Value)) : Decidable (IsCustom fields) :=
  inferInstanceAs (Decidable (_ ∧ _))

variable (textOf : Scalar → String) (validates : Value → Except Error Unit)

/-- The datasource that a template gives: a function of the template and of what the request says. -/
def datasourceOf (template args : List (String × Value)) (startBlock : Nat) : Except Error Value :=
  let started := startedFields template startBlock
  if IsCustom started then
    match property started "processor" with
    | .obj processor =>
        let ds : Value := .obj (Record.putEntry "processor" (.obj (withArgs processor args)) started)
        ((validates ds).map fun _ => ds).mapError unableToCreate
    | .scalar primitive =>
        .error (unableToCreate (cannotCreateProperty textOf "options" primitive))
    | _ => .ok (.obj started)
  else
    .ok (.obj started)

/-- What a request gives: a function of the templates and of the request alone. -/
def createOf (templates : List (List (String × Value))) (templateName : String) (args : Value)
    (startBlock : Nat) : Except Error Value :=
  match templates.find? (fun template => property template "name" = .str templateName) with
  | none => .error DynamicDsService.missingTemplate
  | some template => datasourceOf textOf validates template (ownFields args) startBlock

/-- The processor of a template is an object with options that are one too, or there is none. -/
def ProcessorShape (template : List (String × Value)) : Prop :=
  match property template "processor" with
  | .obj processor => Spreads (property processor "options")
  | .arr _ => False
  | _ => True

end Values

/-! ## Assigning the options -/

section Assignment

open Heap

theorem property_values (parts : List (String × Part)) (key : String) :
    property (values parts) key = (partAt parts key).value := by
  rw [property, values, lookup_map_snd Part.value, partAt]
  cases parts.lookup key <;> rfl

theorem exists_parts_of_spreads {heap : Heap} {slot : Slot} {value : Value} {originals : List Nat}
    (owned : Owns heap slot value originals) (spreads : Spreads value) :
    ∃ parts, heap.fields slot = slots parts ∧ ownFields value = values parts ∧ OwnsAll heap parts ∧
      ∀ place ∈ places parts, place ∈ originals := by
  cases slot with
  | undefined | scalar =>
      cases owned
      exact ⟨[], rfl, rfl, ⟨by simp, List.nodup_nil⟩, by simp [places]⟩
  | object place =>
      obtain ⟨isArray, parts, object, rfl, rfl⟩ := owned.exists_isObject
      cases isArray with
      | true => exact spreads.elim
      | false =>
          exact ⟨parts, object.fields_eq, rfl, object.all, fun _ => List.mem_cons_of_mem _⟩

variable {heap : Heap}

theorem owned_spreads {first second : List (String × Part)} (firstOwned : OwnsAll heap first)
    (secondOwned : OwnsAll heap second) (apart : (places second).Disjoint (places first)) :
    OwnsAll heap (spread (spread [] first) second) := by
  refine (secondOwned.append firstOwned.spread_nil fun place inside listed => ?_).subperm (spread_subperm _ second)
  rcases mem_places_spread listed with old | none
  · exact apart inside old
  · exact absurd none List.not_mem_nil

theorem mem_places_spreads {first second : List (String × Part)} {place : Nat}
    (listed : place ∈ places (spread (spread [] first) second)) :
    place ∈ places second ∨ place ∈ places first := by
  refine (mem_places_spread listed).imp_right fun old => ?_
  exact (mem_places_spread old).resolve_right List.not_mem_nil

theorem slots_spreads (first second : List (String × Part)) :
    slots (spread (spread [] first) second) = spread (spread [] (slots first)) (slots second) := by
  rw [slots, map_spread Part.slot, map_spread Part.slot]
  rfl

theorem values_spreads (first second : List (String × Part)) :
    values (spread (spread [] first) second) = spread (spread [] (values first)) (values second) := by
  rw [values, map_spread Part.value, map_spread Part.value]
  rfl

theorem ordered_spreads (first second : List (String × Part)) :
    ((spread (spread [] first) second).map Prod.fst).Pairwise EnumeratedBefore :=
  spread_ordered second (spread_ordered first List.Pairwise.nil)

theorem setField_new (assigned : Cell) (key : String) {place : Nat} (other : Nat) (different : other ≠ place) :
    (Heap.setField (heap ++ [assigned]) place key (.object heap.length))[other]? =
      (heap ++ [assigned])[other]? :=
  List.getElem?_modify_ne _ _ different.symm

/-- The processor with new options. -/
theorem owns_withArgs {place : Nat} {processorParts argParts : List (String × Part)}
    (processor : IsObject heap place false processorParts)
    (spreads : Spreads (partAt processorParts "options").value) (args : OwnsAll heap argParts)
    (apart : (places argParts).Disjoint (place :: places processorParts)) :
    ∃ after parts,
      Heap.setField
        (heap ++ [{
          fields := spread (spread [] (heap.fields (partAt processorParts "options").slot))
            (slots argParts) }])
        place "options" (.object heap.length) = after ∧
      IsObject after place false parts ∧
      values parts = withArgs (values processorParts) (values argParts) ∧
      (∀ other < heap.length, other ≠ place → after[other]? = heap[other]?) ∧
      ∀ other ∈ places parts, other ∈ places processorParts ∨ other ∈ places argParts ∨
        other = heap.length := by
  obtain ⟨options, read, readValues, optionsOwned, inside⟩ :=
    exists_parts_of_spreads (processor.all.partAt "options") spreads
  let merged := spread (spread [] options) argParts
  let assigned : Cell := { fields := slots merged }
  let after := Heap.setField (heap ++ [assigned]) place "options" (.object heap.length)
  have there : place < heap.length := (List.getElem?_eq_some_iff.mp processor.held).1
  have below : ∀ other < heap.length, other ≠ place → after[other]? = heap[other]? := by
    intro other old different
    rw [setField_new assigned "options" other different, List.getElem?_append_left old]
  have newHeld : after[heap.length]? = some assigned := by
    rw [setField_new assigned "options" _ there.ne']
    exact List.getElem?_concat_length
  have optionsInside : ∀ other ∈ places options, other ∈ places processorParts := fun other listed =>
    mem_places_of_partAt (inside other listed)
  have mergedOwned : OwnsAll heap merged := owned_spreads optionsOwned args
    fun other fromArgs old => apart fromArgs (List.mem_cons_of_mem _ (optionsInside other old))
  have mergedPlaces : ∀ other ∈ places merged,
      other ≠ place ∧ other ∉ places (others "options" processorParts) := by
    intro other listed
    rcases mem_places_spreads listed with fromArgs | old
    · have outside : other ∉ place :: places processorParts := fun among => apart fromArgs among
      rw [List.mem_cons, not_or] at outside
      refine ⟨outside.1, fun among => outside.2 ?_⟩
      exact mem_places_of_subperm List.filter_sublist.subperm among
    · refine ⟨fun same => processor.outside (same ▸ optionsInside other old), ?_⟩
      exact processor.all.partAt_disjoint "options" (inside other old)
  have newObject : IsObject after heap.length false merged := by
    refine ⟨newHeld, ⟨fun part member => ?_, mergedOwned.once⟩, ordered_spreads _ _, fun listed => ?_⟩
    · refine (mergedOwned.each part member).frame fun other listed => below other ?_ ?_
      · exact (mergedOwned.each part member).place_lt other listed
      · exact (mergedPlaces other (mem_places.mpr ⟨part, member, listed⟩)).1
    · exact (mergedOwned.place_lt _ listed).false
  let newOptions : Part := ⟨.object heap.length, .obj (values merged), heap.length :: places merged⟩
  have kept : ∀ other ∈ places (others "options" processorParts), after[other]? = heap[other]? := by
    intro other among
    have inside := mem_places_of_subperm List.filter_sublist.subperm among
    exact below other (processor.all.place_lt other inside)
      fun same => processor.outside (same ▸ inside)
  have newApart : newOptions.places.Disjoint (places (others "options" processorParts)) := by
    intro other listed among
    rcases List.mem_cons.mp listed with rfl | old
    · have inside := mem_places_of_subperm List.filter_sublist.subperm among
      exact (processor.all.place_lt _ inside).false
    · exact (mergedPlaces other old).2 among
  refine ⟨after, Record.putEntry "options" newOptions processorParts, ?_, ⟨?_, ?_, ?_, ?_⟩, ?_, below,
    fun other listed => ?_⟩
  · rw [read, ← slots_spreads]
  · have changed : after[place]? = (heap ++ [assigned])[place]?.map fun cell =>
        { cell with fields := Record.putEntry "options" (.object heap.length) cell.fields } :=
      List.getElem?_modify_eq _ _ _
    rw [changed, List.getElem?_append_left there, processor.held, slots_putEntry]
    rfl
  · exact processor.all.put processor.ordered newObject.owns kept newApart
  · exact Record.putEntry_ordered _ _ processor.ordered
  · intro listed
    rcases mem_places_putEntry processor.ordered listed with new | among
    · rcases List.mem_cons.mp new with same | old
      · exact there.ne same
      · exact (mergedPlaces _ old).1 rfl
    · exact processor.outside (mem_places_of_subperm List.filter_sublist.subperm among)
  · rw [values_putEntry, withArgs, property_values, readValues, ← values_spreads]
  · rcases mem_places_putEntry processor.ordered listed with new | among
    · rcases List.mem_cons.mp new with same | old
      · exact Or.inr (Or.inr same)
      · rcases mem_places_spreads old with fromArgs | fromOptions
        · exact Or.inr (Or.inl fromArgs)
        · exact Or.inl (optionsInside other fromOptions)
    · exact Or.inl (mem_places_of_subperm List.filter_sublist.subperm among)

/-- The datasource with the options of its processor assigned. -/
theorem assignOptions_owned (service : DynamicDsService) (params : DatasourceParams) {ds place : Nat}
    {parts argParts : List (String × Part)} {processor : List (String × Value)}
    (object : IsObject heap ds false parts)
    (at_place : (partAt parts "processor").slot = .object place)
    (read : (partAt parts "processor").value = .obj processor)
    (spreads : Spreads (property processor "options")) (args : OwnsAll heap argParts)
    (given : heap.fields params.args = slots argParts)
    (apart : (places argParts).Disjoint (ds :: places parts)) :
    ∃ after changed, service.assignOptions params heap (.object ds) = .ok after ∧
      IsObject after ds false changed ∧
      values changed = Record.putEntry "processor" (.obj (withArgs processor (values argParts)))
        (values parts) := by
  have owned := object.all.partAt "processor"
  rw [at_place, read] at owned
  obtain ⟨processorPlace, processorParts, same, processorObject, rfl, listed⟩ := owned.exists_of_obj
  obtain rfl := Slot.object.inj same
  have inside : ∀ other ∈ place :: places processorParts, other ∈ places parts := fun other member =>
    mem_places_of_partAt (listed ▸ member)
  rw [property_values] at spreads
  obtain ⟨after, newParts, assigned, newObject, newValues, below, newPlaces⟩ :=
    owns_withArgs processorObject spreads args fun other fromArgs old =>
      apart fromArgs (List.mem_cons_of_mem _ (inside other old))
  let newProcessor : Part := ⟨.object place, .obj (values newParts), place :: places newParts⟩
  have fromProcessor : ∀ other ∈ newProcessor.places,
      other ∈ (partAt parts "processor").places ∨ other ∈ places argParts ∨ other = heap.length := by
    intro other member
    rw [listed]
    rcases List.mem_cons.mp member with rfl | deeper
    · exact Or.inl List.mem_cons_self
    · exact (newPlaces other deeper).imp_left (List.mem_cons_of_mem _)
  have dsHere : ds < heap.length := (List.getElem?_eq_some_iff.mp object.held).1
  have amongParts : ∀ other ∈ places (others "processor" parts), other ∈ places parts :=
    fun other member => mem_places_of_subperm List.filter_sublist.subperm member
  have dsKept : after[ds]? = heap[ds]? :=
    below ds dsHere fun same => object.outside (inside ds (same ▸ List.mem_cons_self))
  refine ⟨after, Record.putEntry "processor" newProcessor parts, ?_, ⟨?_, ?_, ?_, ?_⟩, ?_⟩
  · have field := object.field_eq "processor"
    have options := processorObject.field_eq "options"
    simp only [DynamicDsService.assignOptions, field, at_place, options, given, assigned]
  · rw [dsKept, object.held, slots_putEntry]
    have there : parts.lookup "processor" = some (partAt parts "processor") :=
      lookup_of_partAt (by rw [at_place]; simp)
    have same : Record.putEntry "processor" newProcessor.slot (slots parts) = slots parts := by
      refine putEntry_of_lookup ((keys_slots parts).symm ▸ object.ordered) ?_
      rw [slots, lookup_map_snd Part.slot, there]
      exact congrArg some at_place
    rw [same]
  · refine object.all.put object.ordered newObject.owns (fun other among => ?_) fun other new among => ?_
    · refine below other (object.all.place_lt other (amongParts other among)) ?_
      rintro rfl
      exact object.all.partAt_disjoint "processor" (listed ▸ List.mem_cons_self) among
    · rcases fromProcessor other new with old | fromArgs | rfl
      · exact object.all.partAt_disjoint "processor" old among
      · exact apart fromArgs (List.mem_cons_of_mem _ (amongParts other among))
      · exact (object.all.place_lt _ (amongParts _ among)).false
  · exact Record.putEntry_ordered _ _ object.ordered
  · intro listed
    rcases mem_places_putEntry object.ordered listed with new | among
    · rcases fromProcessor ds new with old | fromArgs | rfl
      · exact object.outside (mem_places_of_partAt old)
      · exact apart fromArgs List.mem_cons_self
      · exact dsHere.false
    · exact object.outside (amongParts ds among)
  · rw [values_putEntry, ← newValues]

end Assignment

/-! ## One request -/

section Requests

open Heap

variable (service : DynamicDsService) {heap : Heap} {params : DatasourceParams}

/-- The datasource is started with a copy of the template. -/
theorem startDatasource_owned {found : Slot} {template : List (String × Value)} {originals : List Nat}
    (chosen : service.template? heap params.templateName = some found)
    (owned : Owns heap found (.obj template) originals) :
    ∃ ds parts started, service.startDatasource params heap = .ok (.object ds, started) ∧
      heap.Grown started ∧ IsObject started ds false parts ∧
      values parts = startedFields template params.startBlock ∧
      ∀ place ∈ ds :: places parts, heap.length ≤ place := by
  obtain ⟨copy, copied, fresh, cloned, copyOwned, grown, new⟩  :=
    service.lodash.cloneDeep_of_owns owned
  obtain ⟨place, parts, rfl, object, rfl, rfl⟩ := copyOwned.exists_of_obj
  let named := others "name" parts
  let startBlock : Part := ⟨.scalar (.num params.startBlock), .num params.startBlock, []⟩
  let started := Record.putEntry "startBlock" startBlock (spread [] named)
  let cells : Heap :=
    [{ fields := slots named }, { fields := slots started }]
  have longer : copied.Grown (copied ++ cells) := Grown.append _ _
  have namedOwned : OwnsAll copied named := object.all.subperm List.filter_sublist.subperm
  have startedOwned : OwnsAll copied started := by
    refine (OwnsAll.cons "startBlock" ?_ namedOwned.spread_nil ?_).subperm
      (putEntry_subperm _ _ _)
    · exact .scalar _
    · exact List.disjoint_nil_left _
  have startedPlaces : ∀ other ∈ places started, other ∈ places parts := by
    intro other listed
    have spreadListed := mem_places_of_subperm (putEntry_subperm _ _ _) listed
    have namedListed := (mem_places_spread (show other ∈ places (spread [] named) from spreadListed))
    exact mem_places_of_subperm List.filter_sublist.subperm
      (namedListed.resolve_right List.not_mem_nil)
  have held : (copied ++ cells)[copied.length + 1]? = some { fields := slots started } := by
    rw [List.getElem?_append_right (by omega), Nat.add_sub_cancel_left]
    rfl
  refine ⟨copied.length + 1, started, copied ++ cells, ?_, grown.trans longer,
    ⟨held, startedOwned.grown longer, ?_, fun listed => ?_⟩, ?_, ?_⟩
  · rw [DynamicDsService.startDatasource, chosen]
    simp only [cloned, bind, Except.bind, object.fields_eq]
    rw [← slots_others, show spread [] (slots named) = slots (spread [] named) from
      (map_spread Part.slot [] named).symm]
    rw [show (Slot.scalar (.num params.startBlock)) = startBlock.slot from rfl, ← slots_putEntry]
    rfl
  · exact Record.putEntry_ordered _ _ (spread_ordered named List.Pairwise.nil)
  · have old := startedOwned.place_lt _ listed
    omega
  · rw [values_putEntry, show values (spread [] named) = spread [] (values named) from
      map_spread Part.value [] named, values_others]
    rfl
  · refine List.forall_mem_cons.mpr ⟨?_, fun other listed => ?_⟩
    · exact grown.1.trans (Nat.le_succ _)
    · exact new other (List.mem_cons_of_mem _ (startedPlaces other listed))

theorem isCustomCosmosDs_iff {ds : Nat} {parts : List (String × Part)}
    (object : IsObject heap ds false parts) :
    DynamicDsService.IsCustomCosmosDs heap (.object ds) ↔ IsCustom (values parts) := by
  have kind := (object.all.partAt "kind").eq_scalar_iff (.str runtimeKind)
  have processor := object.all.partAt "processor"
  rw [DynamicDsService.IsCustomCosmosDs, IsCustom, property_values, property_values, object.field_eq,
    object.field_eq, ne_eq, kind]
  refine and_congr_right fun _ => ?_
  cases slot : (partAt parts "processor").slot with
  | undefined =>
      rw [slot] at processor
      rw [processor.eq_undefined]
      simp [Falsy]
  | scalar primitive =>
      rw [(processor.eq_scalar_iff primitive).mp slot]
  | object place =>
      rw [slot] at processor
      obtain ⟨isArray, inner, -, same, -⟩ := processor.exists_isObject
      rw [same]
      cases isArray <;> simp [Cell.value, Falsy]

theorem property_startedFields {template : List (String × Value)} (startBlock : Nat)
    (ordered : (template.map Prod.fst).Pairwise EnumeratedBefore) :
    property (startedFields template startBlock) "processor" = property template "processor" := by
  have named : ((others "name" template).map Prod.fst).Pairwise EnumeratedBefore :=
    ordered.sublist (List.filter_sublist.map _)
  rw [property, startedFields, Record.lookup_putEntry, if_neg (by decide), spread_of_ordered named,
    List.nil_append, lookup_others (by decide), property]

/-- What an outcome is read as: a datasource with the value, or the error. -/
def Shows (heap : Heap) : Except Error Slot → Except Error Value → Prop
  | .ok slot, .ok value => ∃ originals, Owns heap slot value originals
  | .error raised, .error expected => raised = expected
  | _, _ => False

variable {service} {validates : Value → Except Error Unit}

/-- A request changes no object that was there before. -/
theorem getDatasource_grown
    (owned : ∀ found, service.template? heap params.templateName = some found →
      ∃ template originals, Owns heap found (.obj template) originals) :
    heap.Grown (service.getDatasource params heap).2 := by
  cases chosen : service.template? heap params.templateName with
  | none =>
      rw [DynamicDsService.getDatasource, DynamicDsService.startDatasource, chosen]
      exact Grown.refl heap
  | some found =>
      obtain ⟨template, originals, ownedTemplate⟩ := owned found chosen
      obtain ⟨ds, parts, started, begun, grown, object, -, new⟩ :=
        startDatasource_owned service chosen ownedTemplate
      rw [DynamicDsService.getDatasource, begun]
      dsimp only
      split
      · cases assigned : service.assignOptions params started (.object ds) with
        | error error => exact grown
        | ok after =>
            have written : heap.Grown after := by
              rw [DynamicDsService.assignOptions, object.field_eq] at assigned
              split at assigned
              · rename_i place slot
                have processor := object.all.partAt "processor"
                rw [slot] at processor
                obtain ⟨_, _, _, _, listed⟩ := processor.exists_isObject
                have inside : place ∈ places parts :=
                  mem_places_of_partAt (listed ▸ List.mem_cons_self)
                rw [← Except.ok.inj assigned]
                exact (grown.trans (Grown.append _ _)).setField
                  (new place (List.mem_cons_of_mem _ inside)) _ _
              · cases assigned
              · exact Except.ok.inj assigned ▸ grown
            have validated := written.trans (service.validateCustomDs_grown after (.object ds))
            dsimp only
            split <;> rename_i checked <;> rwa [checked] at validated
      · exact grown

/-- A request is answered with what the template gives, whatever else there is. -/
theorem getDatasource_shows
    (reads : ∀ {heap slot value originals}, Owns heap slot value originals →
      (service.validateCustomDs heap slot).1 = validates value)
    {found : Slot} {template : List (String × Value)} {originals argPlaces : List Nat}
    {argsValue : Value} (chosen : service.template? heap params.templateName = some found)
    (owned : Owns heap found (.obj template) originals) (shape : ProcessorShape template)
    (args : Owns heap params.args argsValue argPlaces) (spreads : Spreads argsValue) :
    Shows (service.getDatasource params heap).2 (service.getDatasource params heap).1
      (datasourceOf service.textOf validates template (ownFields argsValue) params.startBlock) := by
  obtain ⟨ds, parts, started, begun, grown, object, startedValues, new⟩ :=
    startDatasource_owned service chosen owned
  obtain ⟨_, templateParts, _, templateObject, templateValues, _⟩ := owned.exists_of_obj
  have ordered : (template.map Prod.fst).Pairwise EnumeratedBefore := by
    rw [templateValues, keys_values]
    exact templateObject.ordered
  have sameProcessor : (partAt parts "processor").value = property template "processor" := by
    rw [← property_values, startedValues, property_startedFields _ ordered]
  rw [DynamicDsService.getDatasource, begun, datasourceOf]
  simp only [isCustomCosmosDs_iff object, startedValues, property_startedFields _ ordered]
  by_cases custom : IsCustom (startedFields template params.startBlock)
  · rw [if_pos custom, if_pos custom]
    have processor := object.all.partAt "processor"
    rw [sameProcessor] at processor
    cases slot : (partAt parts "processor").slot with
    | undefined =>
        rw [slot] at processor
        refine absurd custom fun custom => custom.2 ?_
        rw [property_startedFields _ ordered, processor.eq_undefined]
        trivial
    | scalar primitive =>
        have read := (processor.eq_scalar_iff primitive).mp slot
        have field := object.field_eq "processor"
        rw [slot] at field
        rw [read]
        simp only [DynamicDsService.assignOptions, field]
        exact rfl
    | object place =>
        rw [slot] at processor
        obtain ⟨isArray, inner, _, read, _⟩ := processor.exists_isObject
        cases isArray with
        | true =>
            rw [ProcessorShape, read] at shape
            exact shape.elim
        | false =>
            have isObj : property template "processor" = .obj (values inner) := read
            rw [ProcessorShape, isObj] at shape
            obtain ⟨argParts, given, argValues, argsOwned, inside⟩ :=
              exists_parts_of_spreads (args.grown grown) spreads
            have apart : (places argParts).Disjoint (ds :: places parts) := by
              intro other fromArgs listed
              have old := args.place_lt other (inside other fromArgs)
              have recent := new other listed
              omega
            obtain ⟨after, changed, assigned, dsObject, changedValues⟩ :=
              assignOptions_owned service params object slot (sameProcessor.trans isObj) shape argsOwned
                given apart
            have read : Owns after (.object ds) (.obj (values changed)) (ds :: places changed) :=
              dsObject.owns
            rw [changedValues, startedValues, ← argValues] at read
            rw [isObj, assigned]
            have kept := read.grown (service.validateCustomDs_grown after (.object ds))
            have verdict := reads read
            dsimp only
            generalize service.validateCustomDs after (.object ds) = checked at kept verdict ⊢
            obtain ⟨outcome, validated⟩ := checked
            rw [← verdict]
            cases outcome with
            | error error => exact rfl
            | ok checked => exact ⟨_, kept⟩
  · rw [if_neg custom, if_neg custom]
    refine ⟨ds :: places parts, ?_⟩
    rw [← startedValues]
    exact object.owns

end Requests

/-! ## Runs -/

section Runs

open Heap

/-- What happens: other objects are made, or a datasource is requested. -/
inductive DsEvent
  | made (objects : Heap)
  | requested (params : DatasourceParams)

/-- The heap, and how the requests so far were answered. -/
structure DsRun where
  heap : Heap
  outcomes : List (Except Error Slot) := []

variable (service : DynamicDsService)

def DynamicDsService.next (run : DsRun) : DsEvent → DsRun
  | .made objects => { run with heap := run.heap ++ objects }
  | .requested params =>
      { heap := (service.getDatasource params run.heap).2
        outcomes := run.outcomes ++ [(service.getDatasource params run.heap).1] }

/-- What events come to. -/
def DynamicDsService.run (start : DsRun) (events : List DsEvent) : DsRun :=
  events.foldl service.next start

/-- The templates are trees of objects with the given properties. -/
def OwnsTemplates (heap : Heap) (slots : List Slot) (templates : List (List (String × Value))) : Prop :=
  List.Forall₂ (fun slot template => ∃ originals, Owns heap slot (.obj template) originals)
    slots templates

variable {service} {templates : List (List (String × Value))} {heap : Heap}

theorem OwnsTemplates.grown {after : Heap} (owned : OwnsTemplates heap service.templates templates)
    (grown : heap.Grown after) : OwnsTemplates after service.templates templates := by
  refine owned.imp ?_
  rintro slot template ⟨originals, tree⟩
  exact ⟨originals, tree.grown grown⟩

/-- A template is found where it is read. -/
theorem find?_of_ownsTemplates {slots : List Slot} (owned : OwnsTemplates heap slots templates)
    (templateName : String) :
    Option.Rel (fun slot template => template ∈ templates ∧
        ∃ originals, Owns heap slot (.obj template) originals)
      (slots.find? fun slot => heap.field slot "name" = .scalar (.str templateName))
      (templates.find? fun template => property template "name" = .str templateName) := by
  induction owned with
  | nil => exact .none
  | @cons slot template slots templates first rest ih =>
      obtain ⟨originals, tree⟩ := first
      obtain ⟨place, parts, rfl, object, rfl, -⟩ := tree.exists_of_obj
      have named := (object.all.partAt "name").eq_scalar_iff (.str templateName)
      rw [← object.field_eq, ← property_values] at named
      rw [List.find?_cons, List.find?_cons]
      by_cases here : heap.field (.object place) "name" = .scalar (.str templateName)
      · rw [decide_eq_true here, decide_eq_true (named.mp here)]
        exact .some ⟨List.mem_cons_self, originals, tree⟩
      · rw [decide_eq_false here, decide_eq_false fun same => here (named.mpr same)]
        dsimp only
        revert ih
        generalize slots.find? _ = first
        generalize templates.find? _ = second
        rintro (related | _)
        · exact .some ⟨List.mem_cons_of_mem _ related.1, related.2⟩
        · exact .none

theorem next_grown (owned : OwnsTemplates heap service.templates templates)
    (outcomes : List (Except Error Slot)) (event : DsEvent) :
    heap.Grown (service.next { heap, outcomes } event).heap := by
  cases event with
  | made objects => exact Grown.append _ _
  | requested params =>
      refine getDatasource_grown fun found chosen => ?_
      have either := find?_of_ownsTemplates owned params.templateName
      rw [show service.templates.find? _ = some found from chosen] at either
      generalize templates.find? _ = second at either
      cases either with
      | some related => exact ⟨_, related.2⟩

/-- In a run no object is changed that was there before. -/
theorem run_grown (events : List DsEvent) (start : DsRun)
    (owned : OwnsTemplates start.heap service.templates templates) :
    start.heap.Grown (service.run start events).heap := by
  induction events generalizing start with
  | nil => exact Grown.refl _
  | cons event events ih =>
      have first := next_grown owned start.outcomes event
      exact first.trans (ih _ (owned.grown first))

theorem outcomes_prefix (events : List DsEvent) (start : DsRun) :
    start.outcomes <+: (service.run start events).outcomes := by
  induction events generalizing start with
  | nil => exact List.prefix_rfl
  | cons event events ih =>
      refine List.IsPrefix.trans ?_ (ih _)
      cases event with
      | made objects => exact List.prefix_rfl
      | requested params => exact List.prefix_append _ _

theorem Shows.grown {after : Heap} {outcome : Except Error Slot} {expected : Except Error Value}
    (shown : Shows heap outcome expected) (grown : heap.Grown after) :
    Shows after outcome expected := by
  cases outcome with
  | error raised => cases expected <;> exact shown
  | ok slot =>
      cases expected with
      | error error => exact shown
      | ok value =>
          obtain ⟨originals, tree⟩ := shown
          exact ⟨originals, tree.grown grown⟩

variable (service)

/-- Whatever is requested and made before and after it, a request for a datasource is answered with what
its template gives with its arguments, as if it were the only one, and the answer stays as it is; and the
templates stay as they are. -/
theorem datasources_shown (validates : Value → Except Error Unit)
    (reads : ∀ {heap slot value originals}, Owns heap slot value originals →
      (service.validateCustomDs heap slot).1 = validates value)
    (start : DsRun) (owned : OwnsTemplates start.heap service.templates templates)
    (shapes : ∀ template ∈ templates, ProcessorShape template)
    (before after : List DsEvent) (params : DatasourceParams) {args : Value} {argPlaces : List Nat}
    (argsOwned : Owns (service.run start before).heap params.args args argPlaces)
    (spreads : Spreads args) :
    ∃ outcome, (service.run start (before ++ .requested params :: after)).outcomes[
          (service.run start before).outcomes.length]? = some outcome ∧
      Shows (service.run start (before ++ .requested params :: after)).heap outcome
        (createOf service.textOf validates templates params.templateName args params.startBlock) ∧
      OwnsTemplates (service.run start (before ++ .requested params :: after)).heap service.templates
        templates := by
  let middle := service.run start before
  have middleOwned : OwnsTemplates middle.heap service.templates templates :=
    owned.grown (run_grown before start owned)
  have step : middle.heap.Grown (service.next middle (.requested params)).heap :=
    next_grown middleOwned middle.outcomes _
  have later := run_grown after _ (middleOwned.grown step)
  have split : service.run start (before ++ .requested params :: after) =
      service.run (service.next middle (.requested params)) after := by
    rw [DynamicDsService.run, List.foldl_append]
    rfl
  have answered : Shows (service.next middle (.requested params)).heap
      (service.getDatasource params middle.heap).1
      (createOf service.textOf validates templates params.templateName args params.startBlock) := by
    have either := find?_of_ownsTemplates middleOwned params.templateName
    rw [createOf]
    cases chosen : service.template? middle.heap params.templateName with
    | none =>
        rw [show service.templates.find? _ = none from chosen] at either
        generalize templates.find? _ = second at either ⊢
        cases either
        rw [DynamicDsService.getDatasource, DynamicDsService.startDatasource, chosen]
        exact rfl
    | some found =>
        rw [show service.templates.find? _ = some found from chosen] at either
        generalize templates.find? _ = second at either ⊢
        cases either with
        | some related =>
            obtain ⟨member, originals, tree⟩ := related
            exact getDatasource_shows reads chosen tree (shapes _ member) argsOwned spreads
  rw [split]
  refine ⟨_, ?_, answered.grown later, middleOwned.grown (step.trans later)⟩
  have there : (service.next middle (.requested params)).outcomes[middle.outcomes.length]? =
      some (service.getDatasource params middle.heap).1 := List.getElem?_concat_length
  obtain ⟨others, whole⟩ := outcomes_prefix after (service.next middle (.requested params))
  rw [← whole, List.getElem?_append_left (List.getElem?_eq_some_iff.mp there).1]
  exact there

/-- A template at place 0, with its processor and the options of it. -/
def pairTemplate : Heap :=
  [{ fields := [("name", .scalar (.str "Pair")), ("kind", .scalar (.str "custom")),
      ("processor", .object 1)] },
    { fields := [("file", .scalar (.str "bundle.js")), ("options", .object 2)] },
    { fields := [("abi", .scalar (.str "erc20"))] }]

/-- A service whose only template is that one. -/
def pairService : DynamicDsService where
  templates := [.object 0]
  lodash := recursiveClone
  validateCustomDs heap _ := (.ok (), heap)
  validateCustomDs_grown heap _ := Grown.refl heap
  textOf _ := ""

/-- A property that is a text. -/
def textPart (text : String) : Part := ⟨.scalar (.str text), .str text, []⟩

/-- A property that is an object with the given parts. -/
def objectPart (place : Nat) (parts : List (String × Part)) : Part :=
  ⟨.object place, .obj (values parts), place :: places parts⟩

def pairOptions : List (String × Part) := [("abi", textPart "erc20")]

def pairProcessor : List (String × Part) :=
  [("file", textPart "bundle.js"), ("options", objectPart 2 pairOptions)]

def pairParts : List (String × Part) :=
  [("name", textPart "Pair"), ("kind", textPart "custom"), ("processor", objectPart 1 pairProcessor)]

theorem owns_pair : Owns pairTemplate (.object 0) (.obj (values pairParts)) [0, 1, 2] := by
  have options : IsObject pairTemplate 2 false pairOptions :=
    ⟨rfl, ⟨List.forall_mem_singleton.mpr (.scalar _), by decide⟩, by decide, by decide⟩
  have processor : IsObject pairTemplate 1 false pairProcessor :=
    ⟨rfl, ⟨List.forall_mem_cons.mpr ⟨.scalar _, List.forall_mem_singleton.mpr options.owns⟩,
      by decide⟩, by decide, by decide⟩
  have template : IsObject pairTemplate 0 false pairParts :=
    ⟨rfl, ⟨List.forall_mem_cons.mpr ⟨.scalar _, List.forall_mem_cons.mpr ⟨.scalar _,
      List.forall_mem_singleton.mpr processor.owns⟩⟩, by decide⟩, by decide, by decide⟩
  exact template.owns

/-- The arguments, made before the request. -/
def pairArgs : Cell := { fields := [("address", .scalar (.str "0x1"))] }

def pairParams : DatasourceParams := { templateName := "Pair", startBlock := 7, args := .object 3 }

theorem datasources_shown_pair : ∃ outcome,
    (pairService.run { heap := pairTemplate }
        ([.made [pairArgs]] ++ .requested pairParams :: [.requested pairParams])).outcomes[0]? =
      some outcome ∧
    Shows (pairService.run { heap := pairTemplate }
        ([.made [pairArgs]] ++ .requested pairParams :: [.requested pairParams])).heap outcome
      (.ok (.obj [("kind", .str "custom"),
        ("processor", .obj [("file", .str "bundle.js"),
          ("options", .obj [("abi", .str "erc20"), ("address", .str "0x1")])]),
        ("startBlock", .num 7)])) := by
  have args : IsObject (pairTemplate ++ [pairArgs]) 3 false [("address", textPart "0x1")] :=
    ⟨rfl, ⟨List.forall_mem_singleton.mpr (.scalar _), by decide⟩, by decide, by decide⟩
  have created : createOf pairService.textOf (fun _ => .ok ()) [values pairParts] "Pair"
      (.obj [("address", .str "0x1")]) 7 =
        .ok (.obj [("kind", .str "custom"),
          ("processor", .obj [("file", .str "bundle.js"),
            ("options", .obj [("abi", .str "erc20"), ("address", .str "0x1")])]),
          ("startBlock", .num 7)]) := by
    decide
  have templates : OwnsTemplates pairTemplate pairService.templates [values pairParts] :=
    .cons ⟨_, owns_pair⟩ .nil
  have shapes : ∀ template ∈ [values pairParts], ProcessorShape template :=
    List.forall_mem_singleton.mpr trivial
  obtain ⟨outcome, there, shown, -⟩ := datasources_shown pairService (fun _ => .ok ()) (fun _ => rfl)
    { heap := pairTemplate } templates shapes [.made [pairArgs]] [.requested pairParams] pairParams
    args.owns trivial
  exact ⟨outcome, there, created ▸ shown⟩

end Runs

end SubqlCosmos
