import SubqlCosmos.Codegen
import SubqlCosmos.CosmwasmAssets
import SubqlCosmos.Js.Program

/-!
# Code generation for contract assets

`prepareCosmwasmJobs` and `generateCosmwasm` of `codegen/codegen-controller.ts`: the file each asset
leads to, and which assets keep one of their own.
-/

namespace SubqlCosmos

open Js

/-! ## Jobs -/

/-- The titles read of a contract's `IDLObject`. -/
structure IDLObject where
  instantiate : Option String := none
  migrate : Option String := none
  execute : Option String := none

/-- `CosmwasmRenderJobType`. -/
structure CosmwasmRenderJobType where
  contract : String
  messages : List (String × String)
deriving DecidableEq, Repr

/-- The functions `generateCosmwasm` is given or imports, each with what it comes to. -/
structure CosmwasmHost extends AssetHost where
  loadCosmwasmAbis : String → Except Error IDLObject
  upperFirst : Option String → String
  prepareDirPath : String → Bool → Except Error Unit
  cosmwasmCodegen : String → List (String × String) → Except Error Unit
  renderTemplate : String → CosmwasmRenderJobType → Except Error Unit

variable (host : CosmwasmHost) (projectPath : String)

/-- The job for an asset, by its name and file. -/
def prepareCosmwasmJob (asset : String × String) : Except Error CosmwasmRenderJobType := do
  let readContract ← host.loadCosmwasmAbis asset.2
  let msgObject :=
    [("MsgInstantiateContract", host.upperFirst readContract.instantiate),
      ("MsgMigrateContract", host.upperFirst readContract.migrate),
      ("MsgExecuteContract", host.upperFirst readContract.execute)]
  return { contract := host.upperFirst (some asset.1), messages := msgObject.filter (·.2 ≠ "") }

/-- `prepareCosmwasmJobs`. -/
def prepareCosmwasmJobs (sortedAssets : Record String) : Except Error (List CosmwasmRenderJobType) :=
  sortedAssets.entries.mapM (prepareCosmwasmJob host)

/-! ## Generation -/

/-- `COSMWASM_INTERFACES_ROOT_DIR`. -/
def interfacesRootDir : String := "src/types/cosmwasm-interfaces"

/-- `COSMWASM_INTERFACE_WRAPPER_PATH`. -/
def interfaceWrapperPath : String := "/src/types/cosmwasm-interface-wrappers"

/-- The file the wrapper of a contract is rendered to. -/
def wrapperFile (contract : String) : String :=
  Path.joinTexts [projectPath, interfaceWrapperPath, contract ++ "MsgWrapper.ts"]

/-- What a call has done: the files it has rendered, and what it has written to the console about a
failure. -/
structure CosmwasmRun where
  rendered : List (String × CosmwasmRenderJobType) := []
  reports : List String := []
deriving DecidableEq, Repr

/-- The report about a failure. -/
def cosmwasmReport (e : Error) : String :=
  "! Unable to generate from provided cosmwasm interface. " ++ e.message ++ "\n" ++
    "Please check the path of your abi path in the project.yaml"

/-- The calls of `renderTemplate`, which are all made before one of them can fail. -/
def renderWrappers (renderJobs : List CosmwasmRenderJobType) : Program CosmwasmRun Unit := do
  let calls := renderJobs.map fun job => (wrapperFile projectPath job.contract, job)
  modify fun run => { run with rendered := run.rendered ++ calls }
  perform (calls.forM fun call => host.renderTemplate call.1 call.2)

/-- The body of the `try` block of `generateCosmwasm`. -/
def buildCosmwasm (sortedAssets : Record String) : Program CosmwasmRun Unit := do
  perform (host.cosmwasmCodegen (Path.joinTexts [projectPath, interfacesRootDir])
    (sortedAssets.entries.map fun entry => (entry.1, String.ofList (Path.dirname entry.2.toList))))
  let renderJobs ← perform (prepareCosmwasmJobs host sortedAssets)
  renderWrappers host projectPath renderJobs

/-- `generateCosmwasm`. -/
def generateCosmwasm (datasources : List AssetDatasource) : Program CosmwasmRun Unit := do
  let sortedAssets ← perform (prepareSortedAssets host.toAssetHost projectPath datasources)
  if sortedAssets.entries = [] then
    perform (host.prepareDirPath (Path.joinTexts [projectPath, interfacesRootDir]) false)
  else
    perform (host.prepareDirPath (Path.joinTexts [projectPath, interfacesRootDir]) true)
    perform (host.prepareDirPath (Path.joinTexts [projectPath, interfaceWrapperPath]) true)
    try
      buildCosmwasm host projectPath sortedAssets
    catch e =>
      modify fun run => { run with reports := run.reports ++ [cosmwasmReport e] }

section Rendered

variable {host projectPath} {run : CosmwasmRun}

theorem rendered_of_buildCosmwasm {sortedAssets : Record String}
    (done : buildCosmwasm host projectPath sortedAssets {} = .ok () run) :
    ∃ jobs, prepareCosmwasmJobs host sortedAssets = .ok jobs ∧
      run.rendered = jobs.map fun job => (wrapperFile projectPath job.contract, job) := by
  obtain ⟨_, _, generated, done⟩ := Program.bind_eq_ok_iff.mp done
  obtain ⟨-, rfl⟩ := Program.perform_eq_ok_iff.mp generated
  obtain ⟨jobs, _, prepared, done⟩ := Program.bind_eq_ok_iff.mp done
  obtain ⟨jobsPrepared, rfl⟩ := Program.perform_eq_ok_iff.mp prepared
  obtain ⟨_, _, called, done⟩ := Program.bind_eq_ok_iff.mp done
  obtain ⟨-, rfl⟩ := Program.perform_eq_ok_iff.mp done
  cases called
  exact ⟨jobs, jobsPrepared, rfl⟩

/-- A call that fails nowhere renders the wrapper of each job to its file. -/
theorem rendered_of_succeeds {datasources : List AssetDatasource}
    (done : generateCosmwasm host projectPath datasources {} = .ok () run)
    (silent : run.reports = []) :
    ∃ sortedAssets jobs,
      prepareSortedAssets host.toAssetHost projectPath datasources = .ok sortedAssets ∧
      prepareCosmwasmJobs host sortedAssets = .ok jobs ∧
      run.rendered = jobs.map fun job => (wrapperFile projectPath job.contract, job) := by
  obtain ⟨sortedAssets, _, first, done⟩ := Program.bind_eq_ok_iff.mp done
  obtain ⟨sorted, rfl⟩ := Program.perform_eq_ok_iff.mp first
  split at done
  · rename_i empty
    obtain ⟨-, rfl⟩ := Program.perform_eq_ok_iff.mp done
    exact ⟨sortedAssets, [], sorted, by rw [prepareCosmwasmJobs, empty]; rfl, rfl⟩
  · obtain ⟨_, _, prepared, done⟩ := Program.bind_eq_ok_iff.mp done
    obtain ⟨-, rfl⟩ := Program.perform_eq_ok_iff.mp prepared
    obtain ⟨_, _, prepared, done⟩ := Program.bind_eq_ok_iff.mp done
    obtain ⟨-, rfl⟩ := Program.perform_eq_ok_iff.mp prepared
    rcases Program.tryCatch_eq_ok_iff.mp done with built | ⟨error, _, -, reported⟩
    · obtain ⟨jobs, prepared, rendered⟩ := rendered_of_buildCosmwasm built
      exact ⟨sortedAssets, jobs, sorted, prepared, rendered⟩
    · cases reported
      simp at silent

end Rendered

/-! ## The file of a wrapper -/

/-- The directory of the wrappers. -/
def wrapperDirectory : List Char :=
  ['/'].intercalate ([projectPath.toList, interfaceWrapperPath.toList].filter (· ≠ []))

/-- The segments of the path a wrapper is rendered to, the last one on top. -/
def wrapperSegments (contract : String) : List Path.Segment :=
  Path.joinStack (wrapperDirectory projectPath) (contract ++ "MsgWrapper.ts").toList

theorem ending_wrapper : Path.Ending "MsgWrapper.ts".toList := ⟨by decide, by decide⟩

theorem wrapperDirectory_ne_nil : wrapperDirectory projectPath ≠ [] := by
  refine Path.intercalate_ne_nil ?_ fun part member => by simpa using (List.mem_filter.mp member).2
  exact List.ne_nil_of_mem (List.mem_filter.mpr
    ⟨List.mem_cons_of_mem _ List.mem_cons_self, by decide⟩)

/-- Two wrappers are rendered to one file only where the segments of their paths are the same. -/
theorem wrapperFile_eq_iff (contract other : String) :
    wrapperFile projectPath contract = wrapperFile projectPath other ↔
      wrapperSegments projectPath contract = wrapperSegments projectPath other := by
  have joined : ∀ name : String, (wrapperFile projectPath name).toList =
      Path.join (wrapperDirectory projectPath) (name.toList ++ "MsgWrapper.ts".toList) := by
    intro name
    rw [wrapperFile, Path.joinTexts, String.toList_ofList]
    refine Eq.trans ?_ (Path.joinAll_concat [projectPath.toList, interfaceWrapperPath.toList]
      (ending_wrapper.ne_nil name.toList))
    simp
  rw [← String.toList_inj, joined, joined, wrapperSegments, wrapperSegments, String.toList_append,
    String.toList_append]
  exact Path.join_inj_iff (wrapperDirectory_ne_nil projectPath) (ending_wrapper.ne_nil _)
    (ending_wrapper.ne_nil _) (ending_wrapper.joinStack_ne_nil _ _)
    (ending_wrapper.joinStack_ne_nil _ _) (ending_wrapper.closed _) (ending_wrapper.closed _)

/-- Contracts without slashes in their names have their own files. -/
theorem wrapperSegments_eq_iff {contract other : String} (slashless : '/' ∉ contract.toList)
    (otherSlashless : '/' ∉ other.toList) :
    wrapperSegments projectPath contract = wrapperSegments projectPath other ↔ contract = other := by
  have stack : ∀ {name : String}, '/' ∉ name.toList → wrapperSegments projectPath name =
      (name.toList ++ "MsgWrapper.ts".toList) :: Path.baseStack (wrapperDirectory projectPath) := by
    intro name absent
    have whole : '/' ∉ name.toList ++ "MsgWrapper.ts".toList := by
      rw [List.mem_append, not_or]
      exact ⟨absent, ending_wrapper.slashless⟩
    rw [wrapperSegments, String.toList_append, Path.joinStack_eq, Path.segments,
      List.splitOn_eq_singleton whole, Path.resolve_cons,
      Path.climb_plain (ending_wrapper.plain _), Path.resolve_nil]
  rw [stack slashless, stack otherSlashless, List.cons_eq_cons, and_iff_left rfl,
    List.append_cancel_right_eq, String.toList_inj]

/-! ## Which assets keep a file of their own -/

/-- The file an asset names, as it is resolved. -/
def assetPath (host : AssetHost) (projectPath : String) (value : Value) : String :=
  match Value.member host.prototypes value "file" with
  | .scalar (.str file) => Path.joinTexts [projectPath, file]
  | _ => ""

/-- The assets by their names and files. -/
def assetFiles (host : AssetHost) (projectPath : String) (datasources : List AssetDatasource) :
    List (String × String) :=
  (assetsOf datasources).map fun asset => (asset.1, assetPath host projectPath asset.2)

/-- Datasources whose runtime assets name files that exist. -/
structure PresentAssets (host : AssetHost) (projectPath : String) where
  datasources : List AssetDatasource
  present : ∀ asset ∈ assetsOf datasources, IsFileReference host.prototypes asset.2 ∧
    host.existsSync (assetPath host projectPath asset.2) = true

/-- The assets of the datasources by their names and files. -/
def PresentAssets.files {host : AssetHost} {projectPath : String}
    (assets : PresentAssets host projectPath) : List (String × String) :=
  assetFiles host projectPath assets.datasources

theorem PresentAssets.sorted {host : AssetHost} {projectPath : String}
    (assets : PresentAssets host projectPath) :
    prepareSortedAssets host projectPath assets.datasources =
      .ok (assets.files.foldl Record.assign Record.empty) := by
  have each : ∀ asset ∈ assetsOf assets.datasources, sortAsset host projectPath asset =
      .ok (asset.1, assetPath host projectPath asset.2) := by
    intro asset member
    obtain ⟨reference, there⟩ := assets.present asset member
    obtain ⟨file, held, sorted⟩ := sortAsset_of_reference projectPath reference
    have path : assetPath host projectPath asset.2 = Path.joinTexts [projectPath, file] := by
      rw [assetPath, held]
    rw [path] at there ⊢
    rw [sorted, if_pos there]
  rw [prepareSortedAssets_eq, mapM_eq_ok_of_forall each]
  rfl

section Keeping

variable {host projectPath} (assets : PresentAssets host.toAssetHost projectPath)

/-- Both assets stand in the map, and their jobs lead to different files. -/
def KeepsBoth (host : CosmwasmHost) (projectPath : String) (sortedAssets : Record String)
    (jobs : List CosmwasmRenderJobType) (left right : String × String) : Prop :=
  left ∈ sortedAssets.entries ∧ right ∈ sortedAssets.entries ∧
    ∃ leftJob ∈ jobs, ∃ rightJob ∈ jobs,
      prepareCosmwasmJob host left = .ok leftJob ∧ prepareCosmwasmJob host right = .ok rightJob ∧
        wrapperFile projectPath leftJob.contract ≠ wrapperFile projectPath rightJob.contract

/-- Unless an error is raised, any two assets with different files are kept. -/
def DropsNone (host : CosmwasmHost) (assets : PresentAssets host.toAssetHost projectPath) : Prop :=
  ∀ sortedAssets jobs,
    prepareSortedAssets host.toAssetHost projectPath assets.datasources = .ok sortedAssets →
    prepareCosmwasmJobs host sortedAssets = .ok jobs →
    ∀ left ∈ assets.files, ∀ right ∈ assets.files, left.2 ≠ right.2 →
      KeepsBoth host projectPath sortedAssets jobs left right

/-- The contracts of two assets are rendered to different files, and neither has the name a map
ignores. -/
def NamedApart (host : CosmwasmHost) (projectPath : String) (left right : String × String) : Prop :=
  left.1 ≠ "__proto__" ∧ right.1 ≠ "__proto__" ∧
    wrapperSegments projectPath (host.upperFirst (some left.1)) ≠
      wrapperSegments projectPath (host.upperFirst (some right.1))

/-- The schema of an asset that is the last of its name cannot be loaded. -/
def SchemaFails (host : CosmwasmHost) (files : List (String × String)) : Prop :=
  ∃ item, item.1 ≠ "__proto__" ∧ Record.LastOfName files item ∧
    ∃ error, host.loadCosmwasmAbis item.2 = .error error

theorem contract_of_job {asset : String × String} {job : CosmwasmRenderJobType}
    (prepared : prepareCosmwasmJob host asset = .ok job) :
    job.contract = host.upperFirst (some asset.1) := by
  obtain ⟨readContract, -, same⟩ := bind_eq_ok.mp prepared
  rw [← Except.ok.inj same]

theorem exists_job_iff (asset : String × String) :
    (∃ job, prepareCosmwasmJob host asset = .ok job) ↔
      ¬∃ error, host.loadCosmwasmAbis asset.2 = .error error := by
  unfold prepareCosmwasmJob
  cases loaded : host.loadCosmwasmAbis asset.2 with
  | error error => simp [bind, Except.bind]
  | ok contract => simp [bind, Except.bind, pure, Except.pure]

theorem exists_jobs_iff (files : List (String × String)) :
    (∃ jobs, prepareCosmwasmJobs host (files.foldl Record.assign Record.empty) = .ok jobs) ↔
      ¬SchemaFails host files := by
  constructor
  · rintro ⟨jobs, prepared⟩ ⟨item, named, lastOf, failed⟩
    have member := (Record.mem_assignAll_iff files item).mpr ⟨named, lastOf⟩
    exact (exists_job_iff item).mp (succeeds_of_mapM prepared item member) failed
  · intro loads
    refine exists_mapM_ok fun item member => (exists_job_iff item).mpr fun failed => ?_
    obtain ⟨named, lastOf⟩ := (Record.mem_assignAll_iff files item).mp member
    exact loads ⟨item, named, lastOf, failed⟩

/-- Once the jobs are there, two assets in the map are kept if their wrappers have different paths. -/
theorem keepsBoth_iff {sortedAssets : Record String} {jobs : List CosmwasmRenderJobType}
    (prepared : prepareCosmwasmJobs host sortedAssets = .ok jobs) (left right : String × String) :
    KeepsBoth host projectPath sortedAssets jobs left right ↔
      left ∈ sortedAssets.entries ∧ right ∈ sortedAssets.entries ∧
        wrapperSegments projectPath (host.upperFirst (some left.1)) ≠
          wrapperSegments projectPath (host.upperFirst (some right.1)) := by
  refine and_congr_right fun leftMember => and_congr_right fun rightMember => ?_
  constructor
  · rintro ⟨leftJob, -, rightJob, -, leftPrepared, rightPrepared, different⟩
    rwa [contract_of_job leftPrepared, contract_of_job rightPrepared, Ne, wrapperFile_eq_iff]
      at different
  · intro different
    obtain ⟨leftJob, leftPrepared⟩ := succeeds_of_mapM prepared left leftMember
    obtain ⟨rightJob, rightPrepared⟩ := succeeds_of_mapM prepared right rightMember
    refine ⟨leftJob, mem_of_mapM prepared leftMember leftPrepared, rightJob,
      mem_of_mapM prepared rightMember rightPrepared, leftPrepared, rightPrepared, ?_⟩
    rwa [contract_of_job leftPrepared, contract_of_job rightPrepared, Ne, wrapperFile_eq_iff]

theorem mem_of_namedApart {files : List (String × String)} {item other : String × String}
    (member : item ∈ files) (named : NamedApart host projectPath item other)
    (apart : ∀ later ∈ files, item.2 ≠ later.2 → NamedApart host projectPath item later) :
    item ∈ (files.foldl Record.assign Record.empty).entries := by
  obtain ⟨file, lastOf⟩ := Record.exists_lastOfName member
  have same : item.2 = file := by
    by_contra different
    exact (apart (item.1, file) lastOf.mem different).2.2 rfl
  subst same
  exact (Record.mem_assignAll_iff files item).mpr ⟨named.1, lastOf⟩

theorem NamedApart.symm {left right : String × String}
    (apart : NamedApart host projectPath left right) : NamedApart host projectPath right left :=
  ⟨apart.2.1, apart.1, apart.2.2.symm⟩

/-- No asset is dropped silently exactly when a schema cannot be loaded, or assets with different files
are all named apart. -/
theorem dropsNone_iff :
    DropsNone host assets ↔
      SchemaFails host assets.files ∨
        ∀ left ∈ assets.files, ∀ right ∈ assets.files, left.2 ≠ right.2 →
          NamedApart host projectPath left right := by
  constructor
  · intro drops
    by_contra neither
    obtain ⟨loads, shared⟩ := not_or.mp neither
    obtain ⟨jobs, prepared⟩ := (exists_jobs_iff assets.files).mpr loads
    refine shared fun left leftMember right rightMember different => ?_
    have kept := drops _ jobs assets.sorted prepared left leftMember right rightMember different
    obtain ⟨leftKept, rightKept, segments⟩ := (keepsBoth_iff prepared left right).mp kept
    exact ⟨((Record.mem_assignAll_iff _ left).mp leftKept).1,
      ((Record.mem_assignAll_iff _ right).mp rightKept).1, segments⟩
  · intro either sortedAssets jobs sorted prepared left leftMember right rightMember different
    obtain rfl := Except.ok.inj (assets.sorted.symm.trans sorted)
    have apart := either.resolve_left ((exists_jobs_iff assets.files).mp ⟨jobs, prepared⟩)
    have named := apart left leftMember right rightMember different
    refine (keepsBoth_iff prepared left right).mpr ⟨?_, ?_, named.2.2⟩
    · exact mem_of_namedApart leftMember named (apart left leftMember)
    · exact mem_of_namedApart rightMember named.symm (apart right rightMember)

end Keeping

/-- The assets of the datasources that name the given files. -/
def fileAssets (files : List (String × String)) : List (String × Value) :=
  files.map fun item => (item.1, .obj [("file", .str item.2)])

/-- A host on which everything is there and every schema is empty. -/
def openHost : CosmwasmHost where
  toAssetHost := plainHost
  loadCosmwasmAbis := fun _ => .ok {}
  upperFirst := fun input => (input.map asciiUpperFirst).getD ""
  prepareDirPath := fun _ _ => .ok ()
  cosmwasmCodegen := fun _ _ => .ok ()
  renderTemplate := fun _ _ => .ok ()

/-- Two names that differ in the case of their first letter. -/
def twoCases : PresentAssets plainHost "/project" where
  datasources :=
    [runtimeDatasource
      { entries := fileAssets [("cw20", "./cw20/schema.json"), ("Cw20", "./other/schema.json")]
        ordered := by decide }]
  present := by decide

/-- One name in two datasources. -/
def oneName : PresentAssets plainHost "/project" where
  datasources :=
    [runtimeDatasource
      { entries := fileAssets [("cw20", "./cw20/schema.json")]
        ordered := by decide },
    runtimeDatasource
      { entries := fileAssets [("cw20", "./other/schema.json")]
        ordered := by decide }]
  present := by decide

/-- Of two names in two cases both are kept, and their wrappers are rendered to one file. Of one name
in two datasources the later file alone is kept. -/
theorem assets_dropped :
    (generateCosmwasm openHost "/project" twoCases.datasources {} =
        .ok ()
          { rendered :=
              [("/project/src/types/cosmwasm-interface-wrappers/Cw20MsgWrapper.ts",
                  { contract := "Cw20", messages := [] }),
                ("/project/src/types/cosmwasm-interface-wrappers/Cw20MsgWrapper.ts",
                  { contract := "Cw20", messages := [] })] } ∧
      ¬DropsNone openHost twoCases) ∧
    (prepareSortedAssets plainHost "/project" oneName.datasources =
        .ok
          { entries := [("cw20", "/project/other/schema.json")]
            ordered := List.pairwise_singleton _ _ } ∧
      ¬DropsNone openHost oneName) := by
  refine ⟨⟨rfl, fun drops => ?_⟩, rfl, fun drops => ?_⟩
  · have kept := drops (.mk [("cw20", "/project/cw20/schema.json"),
        ("Cw20", "/project/other/schema.json")] (by decide)) _ rfl rfl
      ("cw20", "/project/cw20/schema.json") (by decide) ("Cw20", "/project/other/schema.json")
      (by decide) (by decide)
    exact ((keepsBoth_iff rfl _ _).mp kept).2.2 rfl
  · have kept := drops (.mk [("cw20", "/project/other/schema.json")] (List.pairwise_singleton _ _))
      _ rfl rfl ("cw20", "/project/cw20/schema.json") (by decide)
      ("cw20", "/project/other/schema.json") (by decide) (by decide)
    exact absurd kept.1 (by decide)

end SubqlCosmos
