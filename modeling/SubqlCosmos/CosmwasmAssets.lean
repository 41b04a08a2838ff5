import SubqlCosmos.Js.Path
import SubqlCosmos.Js.Record
import SubqlCosmos.Js.Traverse

/-!
# Contract assets

The assets of runtime datasources: what `FileReferenceImp` of `project/utils.ts` accepts, and the map
from names to files that `prepareSortedAssets` of `codegen/codegen-controller.ts` makes of them.
-/

namespace SubqlCosmos

open Js

/-! ## Validation -/

/-- `typeof value === 'object'`; a builtin counts as a function. -/
def typeofObject : Value → Bool
  | .undefined | .builtin _ => false
  | .scalar primitive => primitive = .null
  | .long _ _ | .bytes _ | .arr _ | .obj _ => true

/-- `typeof value === 'string'`. -/
def typeofString : Value → Bool
  | .scalar (.str _) => true
  | _ => false

/-- `'file' in value`, where the value is an object or null. -/
def fileIn (prototypes : Prototypes) (value : Value) : Except Error Bool :=
  if value = .null then
    .error
      { name := "TypeError", message := "Cannot use 'in' operator to search for 'file' in null" }
  else .ok (Value.hasProperty prototypes value "file")

/-- `isValidFileReference`. -/
def isValidFileReference (prototypes : Prototypes) (fileReference : Value) : Except Error Bool := do
  if ¬typeofObject fileReference then
    return false
  if ¬(← fileIn prototypes fileReference) then
    return false
  return typeofString (← Value.get prototypes fileReference "file")

/-- `FileReferenceImp.validate`. What it finds is an object, so it is there when something is found. -/
def validate (prototypes : Prototypes) (value : Option (Record Value)) : Except Error Bool :=
  match value with
  | none => .ok false
  | some value => do
      let found ← (value.entries.map Prod.snd).findM? (isValidFileReference prototypes)
      return found.isSome

/-- A non-null object with a string field `file`. -/
def IsFileReference (prototypes : Prototypes) (value : Value) : Prop :=
  typeofObject value ∧ value ≠ .null ∧ typeofString (Value.member prototypes value "file")

instance (prototypes : Prototypes) : DecidablePred (IsFileReference prototypes) :=
  fun _ => inferInstanceAs (Decidable (_ ∧ _ ∧ _))

section Validation

variable {prototypes : Prototypes} {value : Value}

theorem not_nullish_of_object (object : typeofObject value = true) (nonnull : value ≠ .null) :
    ¬Value.Nullish value := by
  cases value with
  | undefined => cases object
  | scalar primitive => simpa [typeofObject, Value.Nullish] using nonnull
  | long | bytes | arr | obj | builtin => exact id

theorem typeofString_iff : typeofString value = true ↔ ∃ text, value = .str text := by
  constructor
  · intro string
    match value, string with
    | .scalar (.str text), _ => exact ⟨text, rfl⟩
  · rintro ⟨text, rfl⟩
    rfl

/-- The operator `in` throws on null. -/
theorem isValidFileReference_null (prototypes : Prototypes) :
    ∃ error, isValidFileReference prototypes .null = .error error :=
  ⟨_, rfl⟩

theorem hasProperty_of_string (string : typeofString (Value.member prototypes value "file") = true) :
    Value.hasProperty prototypes value "file" = true := by
  unfold Value.member at string
  unfold Value.hasProperty
  cases own : Value.own value "file" with
  | some file => rfl
  | none =>
      rw [own] at string
      have inherited : prototypes value.kind "file" ≠ .undefined := by
        intro absent
        rw [Option.getD_none, absent] at string
        cases string
      simp [inherited]

/-- On everything else the check answers. -/
theorem isValidFileReference_of_ne_null (prototypes : Prototypes) (nonnull : value ≠ .null) :
    isValidFileReference prototypes value = .ok (decide (IsFileReference prototypes value)) := by
  unfold isValidFileReference
  by_cases object : typeofObject value = true
  · have read := Value.get_of_not_nullish prototypes "file" (not_nullish_of_object object nonnull)
    have reference : IsFileReference prototypes value ↔
        typeofString (Value.member prototypes value "file") = true := by
      simp [IsFileReference, object, nonnull]
    have present : fileIn prototypes value = .ok (Value.hasProperty prototypes value "file") :=
      if_neg nonnull
    simp only [object, not_true_eq_false, if_false, present, read, reference]
    cases held : Value.hasProperty prototypes value "file" with
    | true => simp [bind, Except.bind, pure, Except.pure]
    | false =>
        have missing : ¬typeofString (Value.member prototypes value "file") = true := fun string =>
          absurd (hasProperty_of_string string) (by simp [held])
        simp [bind, Except.bind, pure, Except.pure, missing]
  · have unfit : ¬IsFileReference prototypes value := fun reference => object reference.1
    rw [if_pos object, decide_eq_false unfit]
    rfl

/-- Assets are turned down when each is something other than null and no file reference. -/
theorem validate_eq_false_iff (record : Record Value) :
    validate prototypes (some record) = .ok false ↔
      ∀ entry ∈ record.entries, ¬IsFileReference prototypes entry.2 ∧ entry.2 ≠ .null := by
  have searched : validate prototypes (some record) = .ok false ↔
      (record.entries.map Prod.snd).findM? (isValidFileReference prototypes) = .ok none := by
    simp only [validate, bind_eq_ok]
    constructor
    · rintro ⟨found, outcome, absent⟩
      cases found with
      | none => exact outcome
      | some item => cases absent
    · intro outcome
      exact ⟨none, outcome, rfl⟩
  rw [searched, findM?_eq_none_iff, List.forall_mem_map]
  refine forall₂_congr fun entry _ => ?_
  by_cases null : entry.2 = .null
  · obtain ⟨error, thrown⟩ := isValidFileReference_null prototypes
    simp [null, thrown]
  · rw [isValidFileReference_of_ne_null prototypes null]
    simp [null]

theorem validate_of_forall {record : Record Value} (nonempty : record.entries ≠ [])
    (all : ∀ entry ∈ record.entries, IsFileReference prototypes entry.2) :
    validate prototypes (some record) = .ok true := by
  obtain ⟨entry, rest, split⟩ := List.exists_cons_of_ne_nil nonempty
  have reference := all entry (split ▸ List.mem_cons_self)
  have fits := isValidFileReference_of_ne_null prototypes reference.2.1
  rw [decide_eq_true reference] at fits
  rw [validate, split, List.map_cons, findM?_of_true _ fits]
  rfl

end Validation

/-! ## Sorting -/

/-- What the preparation of assets asks the platform. -/
structure AssetHost where
  prototypes : Prototypes
  /-- How an error of Node describes an argument of a wrong type. -/
  received : Value → String
  existsSync : String → Bool

/-- A datasource, as far as it is read here. -/
structure AssetDatasource where
  kind : String
  assets : Option (Record Value)

/-- `isRuntimeCosmosDs`. -/
def isRuntimeCosmosDs (ds : AssetDatasource) : Bool := ds.kind = "cosmos/Runtime"

/-- The check `path.join` makes of an argument. -/
def pathArgument (received : Value → String) : Value → Except Error String
  | .scalar (.str path) => .ok path
  | other =>
      .error
        { name := "TypeError"
          message := "The \"path\" argument must be of type string. Received " ++ received other }

/-- The error about an asset whose file is not there. -/
def missingAsset (name file : String) : Error :=
  { name := "Error", message := "Error: Asset " ++ name ++ ", file " ++ file ++ " does not exist" }

section Sorting

variable (host : AssetHost) (projectPath : String)

/-- The turn of `prepareSortedAssets` for one asset: its name and its file. -/
def sortAsset (asset : String × Value) : Except Error (String × String) := do
  let file ← pathArgument host.received (← Value.get host.prototypes asset.2 "file")
  let filePath := Path.joinTexts [projectPath, file]
  if ¬host.existsSync filePath then
    throw (missingAsset asset.1 file)
  return (asset.1, filePath)

/-- The assets in the order in which they are visited. -/
def assetsOf (datasources : List AssetDatasource) : List (String × Value) :=
  (datasources.filter isRuntimeCosmosDs).flatMap fun d => (d.assets.map Record.entries).getD []

/-- `prepareSortedAssets`. -/
def prepareSortedAssets (datasources : List AssetDatasource) : Except Error (Record String) :=
  (assetsOf datasources).foldlM
    (fun sortedAssets asset => do return sortedAssets.assign (← sortAsset host projectPath asset))
    Record.empty

theorem prepareSortedAssets_eq (datasources : List AssetDatasource) :
    prepareSortedAssets host projectPath datasources =
      ((assetsOf datasources).mapM (sortAsset host projectPath)).map fun files =>
        files.foldl Record.assign Record.empty :=
  foldlM_eq_mapM (sortAsset host projectPath) Record.assign (assetsOf datasources) Record.empty

variable {host}

/-- A file reference is sorted under its name, if its file is there. -/
theorem sortAsset_of_reference {asset : String × Value}
    (reference : IsFileReference host.prototypes asset.2) :
    ∃ file, Value.member host.prototypes asset.2 "file" = .str file ∧
      sortAsset host projectPath asset =
        if host.existsSync (Path.joinTexts [projectPath, file]) then
          .ok (asset.1, Path.joinTexts [projectPath, file])
        else .error (missingAsset asset.1 file) := by
  obtain ⟨object, nonnull, string⟩ := reference
  obtain ⟨file, held⟩ := typeofString_iff.mp string
  have read : Value.get host.prototypes asset.2 "file" = .ok (.str file) := by
    rw [Value.get_of_not_nullish _ _ (not_nullish_of_object object nonnull), held]
  refine ⟨file, held, ?_⟩
  simp only [sortAsset, read, bind, Except.bind, pathArgument]
  by_cases there : host.existsSync (Path.joinTexts [projectPath, file]) = true
  · rw [if_pos there, if_neg (not_not.mpr there)]
    rfl
  · rw [if_neg there, if_pos there]
    rfl

variable {projectPath}

/-- File references are sorted, unless a file is missing. -/
theorem prepareSortedAssets_of_references {datasources : List AssetDatasource}
    (references : ∀ asset ∈ assetsOf datasources, IsFileReference host.prototypes asset.2) :
    (∃ sortedAssets, prepareSortedAssets host projectPath datasources = .ok sortedAssets) ∨
      ∃ name file,
        prepareSortedAssets host projectPath datasources = .error (missingAsset name file) := by
  rw [prepareSortedAssets_eq]
  cases outcome : (assetsOf datasources).mapM (sortAsset host projectPath) with
  | ok files => exact Or.inl ⟨_, rfl⟩
  | error error =>
      obtain ⟨asset, member, failed⟩ := exists_of_mapM_error outcome
      obtain ⟨file, -, sorted⟩ :=
        sortAsset_of_reference projectPath (references asset member)
      rw [sorted] at failed
      split at failed
      · cases failed
      · exact Or.inr ⟨asset.1, file, congrArg Except.error (Except.error.inj failed).symm⟩

end Sorting

/-! ## Which assets are covered -/

/-- The runtime datasource with the given assets. -/
def runtimeDatasource (assets : Record Value) : AssetDatasource where
  kind := "cosmos/Runtime"
  assets := some assets

theorem assetsOf_runtimeDatasource (assets : Record Value) :
    assetsOf [runtimeDatasource assets] = assets.entries := by
  simp [assetsOf, runtimeDatasource, isRuntimeCosmosDs]

/-- Validation answers, accepts just the assets that are all file references, and the assets it
accepts are sorted unless a file is missing. -/
def CoversEvery (host : AssetHost) (assets : Record Value) : Prop :=
  ∃ verdict, validate host.prototypes (some assets) = .ok verdict ∧
    (verdict = true ↔
      assets.entries ≠ [] ∧ ∀ entry ∈ assets.entries, IsFileReference host.prototypes entry.2) ∧
    (verdict = true → ∀ projectPath,
      (∃ sortedAssets,
        prepareSortedAssets host projectPath [runtimeDatasource assets] = .ok sortedAssets) ∨
      ∃ name file,
        prepareSortedAssets host projectPath [runtimeDatasource assets] =
          .error (missingAsset name file))

/-- Assets are covered exactly when all of them are file references, or none is and none is null. -/
theorem coversEvery_iff (host : AssetHost) (assets : Record Value) :
    CoversEvery host assets ↔
      (∀ entry ∈ assets.entries, IsFileReference host.prototypes entry.2) ∨
        ∀ entry ∈ assets.entries,
          ¬IsFileReference host.prototypes entry.2 ∧ entry.2 ≠ .null := by
  constructor
  · rintro ⟨verdict, outcome, universal, -⟩
    cases verdict with
    | true => exact Or.inl (universal.mp rfl).2
    | false => exact Or.inr ((validate_eq_false_iff assets).mp outcome)
  · rintro (all | none)
    · by_cases empty : assets.entries = []
      · have rejected : validate host.prototypes (some assets) = .ok false :=
          (validate_eq_false_iff assets).mpr (by simp [empty])
        exact ⟨false, rejected, iff_of_false Bool.false_ne_true fun both => both.1 empty,
          fun accepted => absurd accepted Bool.false_ne_true⟩
      · refine ⟨true, validate_of_forall empty all, iff_of_true rfl ⟨empty, all⟩, ?_⟩
        intro _ projectPath
        exact prepareSortedAssets_of_references (by rwa [assetsOf_runtimeDatasource])
    · refine ⟨false, (validate_eq_false_iff assets).mpr none, iff_of_false Bool.false_ne_true ?_,
        fun accepted => absurd accepted Bool.false_ne_true⟩
      rintro ⟨nonempty, all⟩
      obtain ⟨entry, member⟩ := List.exists_mem_of_ne_nil _ nonempty
      exact (none entry member).1 (all entry member)

/-- A host on which objects inherit nothing and every file exists. -/
def plainHost : AssetHost where
  prototypes := fun _ _ => .undefined
  received := fun value => if value = .undefined then "undefined" else "something else"
  existsSync := fun _ => true

/-- A file reference beside a text. -/
def mixedAssets : Record Value where
  entries := [("cw20", .obj [("file", .str "./cw20/schema.json")]), ("cw721", .str "./cw721.json")]
  ordered := by decide

/-- An asset without a value. -/
def nullAsset : Record Value where
  entries := [("cw20", .null)]
  ordered := List.pairwise_singleton _ _

/-- One good asset makes the check pass, and a null asset makes it throw. -/
theorem mixed_assets_accepted :
    validate plainHost.prototypes (some mixedAssets) = .ok true ∧
      prepareSortedAssets plainHost "/project" [runtimeDatasource mixedAssets] =
        .error
          { name := "TypeError"
            message := "The \"path\" argument must be of type string. Received undefined" } ∧
      ¬CoversEvery plainHost mixedAssets ∧
      validate plainHost.prototypes (some nullAsset) =
        .error
          { name := "TypeError"
            message := "Cannot use 'in' operator to search for 'file' in null" } := by
  have accepted : validate plainHost.prototypes (some mixedAssets) = .ok true := rfl
  refine ⟨accepted, rfl, ?_, rfl⟩
  rintro ⟨verdict, outcome, universal, -⟩
  obtain rfl := Except.ok.inj (accepted.symm.trans outcome)
  have reference := (universal.mp rfl).2 ("cw721", .str "./cw721.json") (by simp [mixedAssets])
  exact absurd reference.1 Bool.false_ne_true

end SubqlCosmos
