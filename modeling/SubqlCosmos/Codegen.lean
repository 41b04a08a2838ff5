import SubqlCosmos.Js.Path
import SubqlCosmos.Js.Record
import SubqlCosmos.Js.Traverse

/-!
# Code generation for protobuf chain types

The functions of `codegen/codegen-controller.ts` that turn the chain types of a manifest into the
properties the template `proto-interface.ts.ejs` is rendered with.
-/

namespace SubqlCosmos

open Js

/-! ## Names of a file -/

/-- The directory that is cut off a path. -/
def protoDirectory : List Char := ['.', '/', 'p', 'r', 'o', 't', 'o', '/']

/-- The extension that is cut off a path. -/
def protoExtension : List Char := ['.', 'p', 'r', 'o', 't', 'o']

/-- `path.replace(/^\.\/proto\/|\.proto$/g, '')`. -/
def stripProto (path : List Char) : List Char :=
  let below := if protoDirectory <+: path then path.drop protoDirectory.length else path
  if protoExtension <:+ below then below.take (below.length - protoExtension.length) else below

/-- `processProtoFilePath`. -/
def processProtoFilePath (path : String) : String :=
  String.ofList
    ("./proto-interfaces/".toList ++
      (stripProto path.toList).map fun c => if c = '.' then '/' else c)

/-- Whether a slash separates, by the text before it, last character first: no backslash stands
before it, or two do. -/
def separates : List Char → Bool
  | '\\' :: '\\' :: _ => true
  | '\\' :: _ => false
  | _ => true

/-- The pieces `split(/(?<=\\\\)\/|(?<!\\)\//)` gives, by the text before and the piece begun, both
last character first. -/
def slashPieces (before piece : List Char) : List Char → List (List Char)
  | [] => [piece.reverse]
  | c :: path =>
      if c = '/' ∧ separates before then piece.reverse :: slashPieces (c :: before) [] path
      else slashPieces (c :: before) (c :: piece) path

/-- `pathToNamespace`. -/
def pathToNamespace (path : String) : String :=
  String.ofList (['.'].intercalate (slashPieces [] [] (stripProto path.toList)))

/-- `pathToName`, given lodash's `upperFirst`. -/
def pathToName (upperFirst : String → String) (path : String) : String :=
  String.ofList ((splitDots (pathToNamespace path)).flatMap fun p => (upperFirst p).toList)

/-- `isProtoPath`. -/
def isProtoPath (filePath projectPath : String) : Bool :=
  Path.join projectPath.toList protoDirectory <+: Path.join projectPath.toList filePath.toList

/-! ## Render properties -/

/-- `CustomModule`. -/
structure CustomModule where
  file : String
  messages : List String
deriving DecidableEq, Repr

/-- `ProtobufRenderProps`. -/
structure ProtobufRenderProps where
  messageNames : List String
  nameSpace : String
  name : String
  path : String
deriving DecidableEq, Repr

/-- What is written to the console about a file outside `./proto`. -/
def outsideReport (file : String) : String :=
  "Codegen will not apply for this file: " ++ file ++
    " Please ensure it is under the ./proto directory if you want to run codegen on it"

/-- `m.indexOf('Msg') === 0`. -/
def isMsg (m : String) : Bool := ['M', 's', 'g'] <+: m.toList

/-- The entries of the given chain types in the order in which they are visited. -/
def entriesOf (chaintypes : List (Option (Record CustomModule))) : List (String × CustomModule) :=
  chaintypes.reduceOption.flatMap Record.entries

section Render

variable (upperFirst : String → String) (fileExists : String → Bool) (projectPath : String)

/-- The properties for a chain type, if it has a message to generate for. -/
def renderProps (value : CustomModule) : Option ProtobufRenderProps :=
  let messages := value.messages.filter isMsg
  if messages = [] then none
  else
    some
      { messageNames := messages
        nameSpace := pathToNamespace value.file
        name := pathToName upperFirst value.file
        path := processProtoFilePath value.file }

/-- The reports about a chain type. -/
def reportsOf (value : CustomModule) : List String :=
  if isProtoPath value.file projectPath then [] else [outsideReport value.file]

/-- One entry of a chain type: what is reported, and the properties if there are any. -/
def renderEntry (entry : String × CustomModule) :
    Except Error (List String × Option ProtobufRenderProps) :=
  if ¬fileExists (String.ofList (Path.join projectPath.toList entry.2.file.toList)) then
    .error
      { name := "Error"
        message :=
          "Error: chainType " ++ entry.1 ++ ", file " ++ entry.2.file ++ " does not exist" }
  else .ok (reportsOf projectPath entry.2, renderProps upperFirst entry.2)

/-- `prepareProtobufRenderProps`, together with what it writes to the console. -/
def prepareProtobufRenderProps (chaintypes : Option (List (Option (Record CustomModule)))) :
    Except Error (List String × List ProtobufRenderProps) :=
  match chaintypes with
  | none => .ok ([], [])
  | some chaintypes => do
      let rendered ← (entriesOf chaintypes).mapM (renderEntry upperFirst fileExists projectPath)
      return (rendered.flatMap Prod.fst, rendered.filterMap Prod.snd)

end Render

/-! ## Which chain types are rendered -/

/-- Chain types all of whose files exist. -/
structure ChainTypes (fileExists : String → Bool) (projectPath : String) where
  chaintypes : List (Option (Record CustomModule))
  existing : ∀ entry ∈ entriesOf chaintypes,
    fileExists (String.ofList (Path.join projectPath.toList entry.2.file.toList)) = true

section Eligible

variable {fileExists : String → Bool} {projectPath : String}

/-- Some message of the chain type is prefixed with `Msg`. -/
def HasMsg (entry : String × CustomModule) : Prop := ∃ m ∈ entry.2.messages, isMsg m = true

instance (entry : String × CustomModule) : Decidable (HasMsg entry) :=
  inferInstanceAs (Decidable (∃ m ∈ entry.2.messages, isMsg m = true))

/-- The file is under `./proto`. -/
def UnderProto (projectPath : String) (entry : String × CustomModule) : Prop :=
  isProtoPath entry.2.file projectPath = true

instance (entry : String × CustomModule) : Decidable (UnderProto projectPath entry) :=
  inferInstanceAs (Decidable (_ = true))

/-- The properties are those of the entry. -/
structure RendersEntry (upperFirst : String → String) (entry : String × CustomModule)
    (props : ProtobufRenderProps) : Prop where
  messageNames : props.messageNames = entry.2.messages.filter isMsg
  nameSpace : props.nameSpace = pathToNamespace entry.2.file
  name : props.name = pathToName upperFirst entry.2.file
  path : props.path = processProtoFilePath entry.2.file

/-- The entries under `./proto` that have messages are rendered, one element each and in order, and
the entries outside are reported. -/
def RendersEligible (upperFirst : String → String) (config : ChainTypes fileExists projectPath) :
    Prop :=
  ∃ reports props,
    prepareProtobufRenderProps upperFirst fileExists projectPath (some config.chaintypes) =
        .ok (reports, props) ∧
      List.Forall₂ (RendersEntry upperFirst)
        ((entriesOf config.chaintypes).filter fun entry =>
          UnderProto projectPath entry ∧ HasMsg entry) props ∧
        reports =
          ((entriesOf config.chaintypes).filter fun entry => ¬UnderProto projectPath entry).map
            fun entry => outsideReport entry.2.file

theorem renderProps_eq_none_iff (upperFirst : String → String) (entry : String × CustomModule) :
    renderProps upperFirst entry.2 = none ↔ ¬HasMsg entry := by
  have noMessages : entry.2.messages.filter isMsg = [] ↔ ¬HasMsg entry := by
    simp [List.filter_eq_nil_iff, HasMsg]
  rw [renderProps, ← noMessages]
  by_cases empty : entry.2.messages.filter isMsg = [] <;> simp [empty]

theorem rendersEntry_of_renderProps {upperFirst : String → String} {entry : String × CustomModule}
    {props : ProtobufRenderProps} (rendered : renderProps upperFirst entry.2 = some props) :
    RendersEntry upperFirst entry props := by
  rw [renderProps] at rendered
  split at rendered
  · cases rendered
  · obtain rfl := Option.some.inj rendered
    exact ⟨rfl, rfl, rfl, rfl⟩

theorem flatMap_reportsOf (entries : List (String × CustomModule)) :
    (entries.flatMap fun entry => reportsOf projectPath entry.2) =
      (entries.filter fun entry => ¬UnderProto projectPath entry).map fun entry =>
        outsideReport entry.2.file := by
  induction entries with
  | nil => rfl
  | cons entry entries induction =>
      rw [List.flatMap_cons, induction, reportsOf]
      by_cases under : UnderProto projectPath entry
      · have inside : isProtoPath entry.2.file projectPath = true := under
        rw [if_pos inside, List.filter_cons_of_neg (by simpa using under)]
        rfl
      · have outside : ¬isProtoPath entry.2.file projectPath = true := under
        rw [if_neg outside, List.filter_cons_of_pos (by simpa using under)]
        rfl

theorem forall₂_renderProps (upperFirst : String → String)
    (entries : List (String × CustomModule)) :
    List.Forall₂ (RendersEntry upperFirst) (entries.filter HasMsg)
      (entries.filterMap fun entry => renderProps upperFirst entry.2) := by
  induction entries with
  | nil => exact .nil
  | cons entry entries induction =>
      rw [List.filterMap_cons]
      cases rendered : renderProps upperFirst entry.2 with
      | none =>
          have without := (renderProps_eq_none_iff upperFirst entry).mp rendered
          rw [List.filter_cons_of_neg (by simpa using without)]
          exact induction
      | some props =>
          have has : HasMsg entry := by
            by_contra without
            rw [(renderProps_eq_none_iff upperFirst entry).mpr without] at rendered
            cases rendered
          rw [List.filter_cons_of_pos (by simpa using has)]
          exact .cons (rendersEntry_of_renderProps rendered) induction

/-- What is rendered are the entries with messages, wherever their files are. -/
theorem rendered_of_existing (upperFirst : String → String)
    (config : ChainTypes fileExists projectPath) :
    ∃ props,
      prepareProtobufRenderProps upperFirst fileExists projectPath (some config.chaintypes) =
          .ok (((entriesOf config.chaintypes).filter fun entry =>
            ¬UnderProto projectPath entry).map fun entry => outsideReport entry.2.file, props) ∧
        List.Forall₂ (RendersEntry upperFirst) ((entriesOf config.chaintypes).filter HasMsg)
          props := by
  have outcome : (entriesOf config.chaintypes).mapM
      (renderEntry upperFirst fileExists projectPath) =
        .ok ((entriesOf config.chaintypes).map fun entry =>
          (reportsOf projectPath entry.2, renderProps upperFirst entry.2)) :=
    mapM_eq_ok_of_forall fun entry member => by
      rw [renderEntry, if_neg (by simp [config.existing entry member])]
  refine ⟨_, ?_, forall₂_renderProps upperFirst (entriesOf config.chaintypes)⟩
  rw [prepareProtobufRenderProps, outcome, ← flatMap_reportsOf]
  simp [bind, Except.bind, pure, Except.pure, List.flatMap_map, List.filterMap_map]

/-- Exactly the eligible chain types are rendered just when every chain type with a message is under
`./proto`: one outside is reported and rendered all the same. -/
theorem rendersEligible_iff (upperFirst : String → String)
    (config : ChainTypes fileExists projectPath) :
    RendersEligible upperFirst config ↔
      ∀ entry ∈ entriesOf config.chaintypes, HasMsg entry → UnderProto projectPath entry := by
  obtain ⟨props, outcome, rendered⟩ := rendered_of_existing upperFirst config
  constructor
  · rintro ⟨reports, otherProps, otherOutcome, eligible, -⟩
    obtain ⟨-, rfl⟩ := Prod.mk.inj (Except.ok.inj (outcome.symm.trans otherOutcome))
    have lengths := eligible.length_eq.trans rendered.length_eq.symm
    have nested : ((entriesOf config.chaintypes).filter fun entry =>
        UnderProto projectPath entry ∧ HasMsg entry) =
          ((entriesOf config.chaintypes).filter HasMsg).filter (UnderProto projectPath) := by
      rw [List.filter_filter]
      refine List.filter_congr fun entry _ => ?_
      simp
    rw [nested, List.length_filter_eq_length_iff] at lengths
    intro entry member has
    simpa using lengths entry (List.mem_filter.mpr ⟨member, by simpa using has⟩)
  · intro allUnder
    have same : ((entriesOf config.chaintypes).filter fun entry =>
        UnderProto projectPath entry ∧ HasMsg entry) =
          (entriesOf config.chaintypes).filter HasMsg := by
      refine List.filter_congr fun entry member => ?_
      by_cases has : HasMsg entry
      · simp [has, allUnder entry member has]
      · simp [has]
    exact ⟨_, props, outcome, same ▸ rendered, rfl⟩

end Eligible

/-- lodash's `upperFirst` on a text that begins with an ASCII character. -/
def asciiUpperFirst (text : String) : String :=
  match text.toList with
  | [] => ""
  | first :: rest => String.ofList (first.toUpper :: rest)

/-- A chain type whose file stands in another directory of the project. -/
def strayChainTypes : ChainTypes (fun _ => true) "/project" where
  chaintypes :=
    [some
      { entries := [("stray", { file := "./other/x.proto", messages := ["MsgSend"] })]
        ordered := List.pairwise_singleton _ _ }]
  existing _ _ := rfl

theorem stray_chain_type_rendered :
    prepareProtobufRenderProps asciiUpperFirst (fun _ => true) "/project"
          (some strayChainTypes.chaintypes) =
        .ok ([outsideReport "./other/x.proto"],
          [{ messageNames := ["MsgSend"]
             nameSpace := "..other.x"
             name := "OtherX"
             path := "./proto-interfaces///other/x" }]) ∧
      ¬RendersEligible asciiUpperFirst strayChainTypes := by
  have outcome : prepareProtobufRenderProps asciiUpperFirst (fun _ => true) "/project"
      (some strayChainTypes.chaintypes) =
        .ok ([outsideReport "./other/x.proto"],
          [{ messageNames := ["MsgSend"]
             nameSpace := "..other.x"
             name := "OtherX"
             path := "./proto-interfaces///other/x" }]) := rfl
  have outside : ¬UnderProto "/project" ("stray", ⟨"./other/x.proto", ["MsgSend"]⟩) := by decide
  refine ⟨outcome, ?_⟩
  rintro ⟨reports, props, otherOutcome, eligible, -⟩
  obtain ⟨-, rfl⟩ := Prod.mk.inj (Except.ok.inj (outcome.symm.trans otherOutcome))
  have none : ((entriesOf strayChainTypes.chaintypes).filter fun entry =>
      UnderProto "/project" entry ∧ HasMsg entry) = [] := by
    rw [List.filter_eq_nil_iff]
    intro entry member
    obtain rfl : entry = ("stray", ⟨"./other/x.proto", ["MsgSend"]⟩) := by
      simpa [entriesOf, strayChainTypes] using member
    simp [outside]
  rw [none] at eligible
  cases eligible

end SubqlCosmos
