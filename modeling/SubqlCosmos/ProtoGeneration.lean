import SubqlCosmos.Codegen
import SubqlCosmos.Js.Program

/-!
# Generating from protobufs

`generateProto` of `codegen/codegen-controller.ts`: where it ends when one of its steps fails, and
which temporary directories it leaves.
-/

namespace SubqlCosmos

open Js

/-! ## The steps -/

/-- The functions `generateProto` is given or imports, each with what it comes to. -/
structure ProtoHost where
  existsSync : String → Bool
  /-- `makeTempDir`, which makes the directory it returns. -/
  makeTempDir : Except Error String
  require : String → Except Error String
  copySync : String → String → Except Error Unit
  prepareDirPath : String → Bool → Except Error Unit
  telescope : List String → String → Except Error Unit
  renderTemplate : String → List ProtobufRenderProps → Except Error Unit

/-- The packages with the protobufs all projects use. -/
def commonProtos : List String :=
  ["@protobufs/amino", "@protobufs/confio", "@protobufs/cosmos", "@protobufs/cosmos_proto",
    "@protobufs/cosmwasm", "@protobufs/gogoproto", "@protobufs/google", "@protobufs/ibc",
    "@protobufs/tendermint"]

/-- `tmpProtoDir`. -/
def tmpProtoDir (tmpDir protoPath : String) : String :=
  Path.joinTexts [tmpDir, String.ofList (Path.basename protoPath.toList)]

/-- What a call has at hand: the temporary directories it has made that are still there, and the
variable `tmpPath`. -/
structure ProtoRun where
  tempDirs : List String := []
  tmpPath : Option String := none

variable (upperFirst : String → String) (host : ProtoHost)
  (chaintypes : List (Option (Record CustomModule))) (projectPath : String)

/-- The copies `tempProtoDir` makes into its directory. -/
def copyProtos (tmpDir : String) : Except Error Unit := do
  let userProto := Path.joinTexts [projectPath, "./proto"]
  let commonProtoPaths ← commonProtos.mapM host.require
  commonProtoPaths.forM fun p => host.copySync p (tmpProtoDir tmpDir p)
  host.copySync userProto tmpDir

/-- `makeTempDir`. -/
def makeTempDir : Program ProtoRun String := do
  let tmpDir ← perform host.makeTempDir
  modify fun run => { run with tempDirs := tmpDir :: run.tempDirs }
  return tmpDir

/-- `tempProtoDir`. -/
def tempProtoDir : Program ProtoRun String := do
  let tmpDir ← makeTempDir host
  perform (copyProtos host projectPath tmpDir)
  return tmpDir

/-- What `generateProto` does with the temporary directory. -/
def buildProto (tmpPath : String) : Except Error Unit := do
  let (_, protobufRenderProps) ←
    prepareProtobufRenderProps upperFirst host.existsSync projectPath (some chaintypes)
  let outputPath := Path.joinTexts [projectPath, "src/types/proto-interfaces"]
  host.prepareDirPath outputPath true
  host.telescope [tmpPath] outputPath
  host.renderTemplate (Path.joinTexts [projectPath, "src/types", "CosmosMessageTypes.ts"])
    protobufRenderProps

/-- The advice `generateProto` adds to a failure. -/
def errorMessage (e : Error) : String :=
  if "Dependency".toList <+: e.message.toList then
    "Please add the missing protobuf file to ./proto directory"
  else ""

/-- The error `generateProto` reports a failure with. -/
def generateError (e : Error) : Error :=
  { name := "Error"
    message := "Failed to generate from protobufs. " ++ e.message ++ ", " ++ errorMessage e }

/-- `fs.rmSync(tmpPath, …)`, which throws where the variable is not set. -/
def rmSync : Program ProtoRun Unit := fun run =>
  match run.tmpPath with
  | none =>
      .error
        { name := "TypeError"
          message := "The \"path\" argument must be of type string or an instance of Buffer or URL. " ++
            "Received undefined" }
        run
  | some tmpPath => .ok () { run with tempDirs := run.tempDirs.filter (· ≠ tmpPath) }

/-- `generateProto`. -/
def generateProto : Program ProtoRun Unit := do
  try
    let tmpPath ← tempProtoDir host projectPath
    modify fun run => { run with tmpPath := some tmpPath }
    perform (buildProto upperFirst host chaintypes projectPath tmpPath)
  catch e =>
    throw (generateError e)
  finally
    rmSync

/-! ## Where the steps end -/

/-- The steps of a call, up to the first that fails. -/
def protoSteps : Except Error Unit := do
  let tmpDir ← host.makeTempDir
  copyProtos host projectPath tmpDir
  buildProto upperFirst host chaintypes projectPath tmpDir

/-- `tempProtoDir` has this directory to return: it is made, and every copy into it succeeds. -/
structure TempDirReady (tmpDir : String) : Prop where
  made : host.makeTempDir = .ok tmpDir
  /-- The packages are found and copied. -/
  common : ∀ name ∈ commonProtos, ∃ p,
    host.require name = .ok p ∧ host.copySync p (tmpProtoDir tmpDir p) = .ok ()
  /-- The protobufs of the project are copied. -/
  project : host.copySync (Path.joinTexts [projectPath, "./proto"]) tmpDir = .ok ()

section Steps

variable {host : ProtoHost} {projectPath : String}

theorem copyProtos_eq_ok_iff {tmpDir : String} (made : host.makeTempDir = .ok tmpDir) :
    copyProtos host projectPath tmpDir = .ok () ↔ TempDirReady host projectPath tmpDir := by
  simp only [copyProtos, bind_eq_ok]
  constructor
  · rintro ⟨paths, required, ⟨⟩, copied, project⟩
    refine ⟨made, fun name member => ?_, project⟩
    obtain ⟨p, found⟩ := succeeds_of_mapM required name member
    have listed : p ∈ paths := mem_of_mapM required member found
    exact ⟨p, found, (forM_eq_ok_iff _ paths).mp copied p listed⟩
  · intro ready
    obtain ⟨paths, required⟩ := exists_mapM_ok fun name member =>
      (ready.common name member).imp fun _ both => both.1
    refine ⟨paths, required, (), (forM_eq_ok_iff _ paths).mpr fun p listed => ?_, ready.project⟩
    obtain ⟨name, member, found⟩ := exists_of_mem_mapM required listed
    obtain ⟨other, same, copied⟩ := ready.common name member
    obtain rfl := Except.ok.inj (found.symm.trans same)
    exact copied

theorem makeTempDir_of_ok {tmpDir : String} (made : host.makeTempDir = .ok tmpDir) :
    makeTempDir host {} = .ok tmpDir { tempDirs := [tmpDir] } := by
  simp only [makeTempDir, made]
  rfl

theorem tempProtoDir_of_ready {tmpDir : String} (ready : TempDirReady host projectPath tmpDir) :
    tempProtoDir host projectPath {} = .ok tmpDir { tempDirs := [tmpDir] } := by
  have copied := (copyProtos_eq_ok_iff ready.made).mpr ready
  rw [tempProtoDir, Program.bind_of_ok (makeTempDir_of_ok ready.made), copied]
  rfl

/-- Otherwise a step of it fails, before the variable `tmpPath` is set. -/
theorem tempProtoDir_of_not_ready (unready : ¬∃ tmpDir, TempDirReady host projectPath tmpDir) :
    ∃ error dirs, tempProtoDir host projectPath {} = .error error { tempDirs := dirs } ∧
      ∀ chaintypes, protoSteps upperFirst host chaintypes projectPath = .error error := by
  cases making : host.makeTempDir with
  | error error =>
      refine ⟨error, [], ?_, fun chaintypes => ?_⟩
      · have failed : makeTempDir host {} = .error error {} := by
          simp only [makeTempDir, making]
          rfl
        rw [tempProtoDir, Program.bind_of_error failed]
      · rw [protoSteps, making]
        rfl
  | ok tmpDir =>
      cases copying : copyProtos host projectPath tmpDir with
      | ok =>
          exact absurd ⟨tmpDir, (copyProtos_eq_ok_iff making).mp copying⟩ unready
      | error error =>
          refine ⟨error, [tmpDir], ?_, fun chaintypes => ?_⟩
          · rw [tempProtoDir, Program.bind_of_ok (makeTempDir_of_ok making), copying]
            rfl
          · rw [protoSteps, making]
            simp only [bind, Except.bind, copying]

end Steps

/-! ## Reporting -/

/-- Every failure is reported with its message, and leaves no temporary directory of the call. -/
def ReportsFailure : Prop :=
  ∀ error, protoSteps upperFirst host chaintypes projectPath = .error error →
    ∃ before after run,
      generateProto upperFirst host chaintypes projectPath {} =
        .error
          { name := "Error"
            message := "Failed to generate from protobufs. " ++ before ++ error.message ++ after }
          run ∧
      run.tempDirs = []

section Reporting

variable {upperFirst : String → String} {host : ProtoHost}
  {chaintypes : List (Option (Record CustomModule))} {projectPath : String}

theorem protoSteps_of_ready {tmpDir : String} (ready : TempDirReady host projectPath tmpDir) :
    protoSteps upperFirst host chaintypes projectPath =
      buildProto upperFirst host chaintypes projectPath tmpDir := by
  have copied := (copyProtos_eq_ok_iff ready.made).mpr ready
  simp only [protoSteps, ready.made, copied, bind, Except.bind]

theorem rmSync_made (tmpDir : String) :
    rmSync { tempDirs := [tmpDir], tmpPath := some tmpDir } = .ok () { tmpPath := some tmpDir } := by
  simp [rmSync]

theorem steps_of_ready {tmpDir : String} (ready : TempDirReady host projectPath tmpDir) :
    (tempProtoDir host projectPath >>= fun tmpPath => do
      modify fun run => { run with tmpPath := some tmpPath }
      perform (buildProto upperFirst host chaintypes projectPath tmpPath)) {} =
        perform (buildProto upperFirst host chaintypes projectPath tmpDir)
          { tempDirs := [tmpDir], tmpPath := some tmpDir } := by
  rw [Program.bind_of_ok (tempProtoDir_of_ready ready)]
  rfl

/-- A call that succeeds leaves no temporary directory either. -/
theorem generateProto_of_succeeds
    (done : protoSteps upperFirst host chaintypes projectPath = .ok ()) :
    ∃ run, generateProto upperFirst host chaintypes projectPath {} = .ok () run ∧
      run.tempDirs = [] := by
  simp only [protoSteps, bind_eq_ok] at done
  obtain ⟨tmpDir, made, ⟨⟩, copied, built⟩ := done
  have ready := (copyProtos_eq_ok_iff made).mp copied
  unfold generateProto
  refine ⟨{ tmpPath := some tmpDir }, ?_, rfl⟩
  refine Program.tryFinally_of_ok (Program.tryCatch_of_ok ?_) (rmSync_made tmpDir)
  rw [steps_of_ready ready, built]
  rfl

/-- A failure after `tempProtoDir` is reported, and its directory is removed. -/
theorem generateProto_of_ready {tmpDir : String} (ready : TempDirReady host projectPath tmpDir)
    {error : Error} (failed : buildProto upperFirst host chaintypes projectPath tmpDir = .error error) :
    generateProto upperFirst host chaintypes projectPath {} =
      .error (generateError error) { tmpPath := some tmpDir } := by
  unfold generateProto
  refine Program.tryFinally_of_error (Program.tryCatch_of_error ?_) (rmSync_made tmpDir)
  rw [steps_of_ready ready, failed]
  rfl

/-- A failure of `tempProtoDir` is reported as an error of the clean-up, and nothing is removed. -/
theorem generateProto_of_not_ready {error : Error} {dirs : List String}
    (failed : tempProtoDir host projectPath {} = .error error { tempDirs := dirs }) :
    ∃ message, generateProto upperFirst host chaintypes projectPath {} =
      .error { name := "TypeError", message } { tempDirs := dirs } := by
  unfold generateProto
  exact ⟨_, Program.tryFinally_of_cleanup_error
    (Program.tryCatch_of_error (Program.bind_of_error failed)) rfl⟩

/-- Where `tempProtoDir` fails, its failure is not reported. -/
theorem not_reportsFailure (unready : ¬∃ tmpDir, TempDirReady host projectPath tmpDir) :
    ¬ReportsFailure upperFirst host chaintypes projectPath := by
  intro reports
  obtain ⟨error, dirs, stopped, failed⟩ := tempProtoDir_of_not_ready upperFirst unready
  obtain ⟨before, after, run, reported, -⟩ := reports error (failed chaintypes)
  obtain ⟨message, thrown⟩ := generateProto_of_not_ready stopped
  have names := congrArg Error.name (EStateM.Result.error.inj (thrown.symm.trans reported)).1
  exact absurd names (by simp)

end Reporting

/-- Failures are reported, and their directories removed, exactly where `tempProtoDir` succeeds. -/
theorem reportsFailure_iff :
    ReportsFailure upperFirst host chaintypes projectPath ↔
      ∃ tmpDir, TempDirReady host projectPath tmpDir := by
  constructor
  · intro reports
    by_contra unready
    exact not_reportsFailure unready reports
  · rintro ⟨tmpDir, ready⟩ error failed
    have built := (protoSteps_of_ready ready).symm.trans failed
    refine ⟨"", ", " ++ errorMessage error, { tmpPath := some tmpDir }, ?_, rfl⟩
    rw [generateProto_of_ready ready built, generateError, String.append_empty, String.append_assoc,
      String.append_assoc]

/-- A host on which the project has no `./proto` directory to copy. -/
def missingProtoHost : ProtoHost where
  existsSync := fun _ => false
  makeTempDir := .ok "/tmp/subql"
  require := fun name => .ok ("/node_modules/" ++ name)
  copySync := fun _ target =>
    if target = "/tmp/subql" then
      .error { name := "Error", message := "ENOENT: no such file or directory, stat '/project/proto'" }
    else .ok ()
  prepareDirPath := fun _ _ => .ok ()
  telescope := fun _ _ => .ok ()
  renderTemplate := fun _ _ => .ok ()

/-- The failure of the copy is not reported, and the directory stays. -/
theorem generateProto_missingProto :
    generateProto id missingProtoHost [] "/project" {} =
        .error
          { name := "TypeError"
            message :=
              "The \"path\" argument must be of type string or an instance of Buffer or URL. " ++
                "Received undefined" }
          { tempDirs := ["/tmp/subql"] } ∧
      ¬ReportsFailure id missingProtoHost [] "/project" := by
  refine ⟨rfl, not_reportsFailure ?_⟩
  rintro ⟨tmpDir, ready⟩
  have same : "/tmp/subql" = tmpDir := Except.ok.inj ready.made
  subst same
  have copied := ready.project
  simp [missingProtoHost] at copied

end SubqlCosmos
