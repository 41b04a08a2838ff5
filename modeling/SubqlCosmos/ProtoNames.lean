import SubqlCosmos.Js.Camel
import SubqlCosmos.ProtoSpelling

/-!
# Names of protobuf files

The names under which the template `proto-interface.ts.ejs` imports the generated modules, and the
files that share one.
-/

namespace SubqlCosmos

open Js

/-! ## Words of a path -/

/-- What lodash documents of `upperFirst`, which converts the first character to upper case: a text
that begins with one already is left as it is, whatever follows. -/
structure UpperFirst (upperFirst : String → String) : Prop where
  empty : upperFirst "" = ""
  idempotent : ∀ text, upperFirst (upperFirst text) = upperFirst text
  longer : ∀ text more, text ≠ "" → upperFirst text = text → upperFirst more = more →
    upperFirst (text ++ more) = text ++ more

/-- `upperFirst` on characters. -/
def onLetters (upperFirst : String → String) (word : List Char) : List Char :=
  (upperFirst (String.ofList word)).toList

theorem capitalises_onLetters {upperFirst : String → String} (laws : UpperFirst upperFirst) :
    Camel.Capitalises (onLetters upperFirst) where
  empty := congrArg String.toList laws.empty
  idempotent word := by
    rw [onLetters, onLetters, String.ofList_toList, laws.idempotent]
  longer word more nonempty raised raisedMore := by
    have asText : ∀ {letters : List Char}, onLetters upperFirst letters = letters →
        upperFirst (String.ofList letters) = String.ofList letters := fun same => by
      rw [← String.toList_inj, String.toList_ofList]
      exact same
    have whole := laws.longer (String.ofList word) (String.ofList more) (by simpa using nonempty)
      (asText raised) (asText raisedMore)
    rw [onLetters, String.ofList_append, whole, ← String.ofList_append, String.toList_ofList]

/-- The words of a path: what stands between its slashes and dots. -/
def pathWords (path : String) : List (List Char) :=
  (slashPieces [] [] path.toList).flatMap fun piece => piece.splitOn '.'

theorem splitOn_intercalate_dots {pieces : List (List Char)} (nonempty : pieces ≠ []) :
    (['.'].intercalate pieces).splitOn '.' = pieces.flatMap fun piece => piece.splitOn '.' := by
  induction pieces with
  | nil => exact absurd rfl nonempty
  | cons piece pieces induction =>
      cases pieces with
      | nil => simp
      | cons next pieces =>
          rw [List.intercalate_cons_cons, List.append_assoc, List.singleton_append,
            List.splitOn_append_cons_self, induction (by simp),
            ← List.flatMap_cons]

theorem slashPieces_ne_nil (before piece path : List Char) : slashPieces before piece path ≠ [] := by
  induction path generalizing before piece with
  | nil => simp [slashPieces]
  | cons c path induction =>
      rw [slashPieces]
      split
      · simp
      · exact induction _ _

theorem pathToName_below (upperFirst : String → String) (path : String) :
    pathToName upperFirst ("./proto/" ++ path ++ ".proto") =
      String.ofList (Camel.camel (onLetters upperFirst) (pathWords path)) := by
  have letters : ("./proto/" ++ path ++ ".proto").toList =
      protoDirectory ++ (path.toList ++ protoExtension) := by
    rw [String.toList_append, String.toList_append, List.append_assoc]
    rfl
  rw [pathToName, pathToNamespace, letters, stripProto_inside, splitDots, String.toList_ofList,
    splitOn_intercalate_dots (slashPieces_ne_nil _ _ _), List.flatMap_map]
  rfl

/-! ## Which files share a name -/

/-- Chain types whose entries with messages have files below `./proto`, each another one. -/
structure ProtoFiles where
  chaintypes : List (Option (Record CustomModule))
  paths : List String
  files : ((entriesOf chaintypes).filter HasMsg).map (fun entry => entry.2.file) =
    paths.map fun path => "./proto/" ++ path ++ ".proto"
  distinct : paths.Nodup

/-- The paths lead to each other by writing words in upper case, by leaving out the slash or the dot
between two words in upper case, and by leaving out empty words. -/
def SharesName (upperFirst : String → String) (path other : String) : Prop :=
  Camel.Interchangeable (onLetters upperFirst) (pathWords path) (pathWords other)

section Names

variable {upperFirst : String → String} {fileExists : String → Bool} {projectPath : String}

theorem existing_of_returned {chaintypes : List (Option (Record CustomModule))}
    {reports : List String} {props : List ProtobufRenderProps}
    (returned : prepareProtobufRenderProps upperFirst fileExists projectPath (some chaintypes) =
      .ok (reports, props)) :
    ∀ entry ∈ entriesOf chaintypes,
      fileExists (String.ofList (Path.join projectPath.toList entry.2.file.toList)) = true := by
  intro entry member
  obtain ⟨rendered, mapped, -⟩ := bind_eq_ok.mp returned
  obtain ⟨value, outcome⟩ := succeeds_of_mapM mapped entry member
  rw [renderEntry] at outcome
  split at outcome
  · cases outcome
  · rename_i exists_
    simpa using exists_

/-- The names are those of the files with messages, in order. -/
theorem names_of_returned {config : ProtoFiles} {reports : List String}
    {props : List ProtobufRenderProps}
    (returned : prepareProtobufRenderProps upperFirst fileExists projectPath
      (some config.chaintypes) = .ok (reports, props)) :
    props.map (fun prop => prop.name) =
      config.paths.map fun path => pathToName upperFirst ("./proto/" ++ path ++ ".proto") := by
  obtain ⟨otherProps, outcome, rendered⟩ := rendered_of_existing upperFirst
    { chaintypes := config.chaintypes, existing := existing_of_returned returned }
  obtain ⟨-, rfl⟩ := Prod.mk.inj (Except.ok.inj (returned.symm.trans outcome))
  have names : List.Forall₂ (fun entry prop => pathToName upperFirst entry.2.file = prop.name)
      ((entriesOf config.chaintypes).filter HasMsg) props :=
    rendered.imp fun entry prop same => same.name.symm
  have listed : ((entriesOf config.chaintypes).filter HasMsg).map
      (fun entry => pathToName upperFirst entry.2.file) = props.map fun prop => prop.name := by
    rw [← List.forall₂_eq_eq_eq, List.forall₂_map_left_iff, List.forall₂_map_right_iff]
    exact names
  rw [← listed]
  have files := congrArg (List.map (pathToName upperFirst)) config.files
  rw [List.map_map, List.map_map] at files
  exact files

theorem pathToName_eq_iff (laws : UpperFirst upperFirst) (path other : String) :
    pathToName upperFirst ("./proto/" ++ path ++ ".proto") =
        pathToName upperFirst ("./proto/" ++ other ++ ".proto") ↔
      SharesName upperFirst path other := by
  rw [pathToName_below, pathToName_below, String.ofList_inj,
    Camel.camel_eq_iff (capitalises_onLetters laws)]
  rfl

/-- The names are distinct just when no two paths lead to each other. -/
theorem names_nodup_iff (laws : UpperFirst upperFirst) (config : ProtoFiles) {reports : List String}
    {props : List ProtobufRenderProps}
    (returned : prepareProtobufRenderProps upperFirst fileExists projectPath
      (some config.chaintypes) = .ok (reports, props)) :
    (props.map fun prop => prop.name).Nodup ↔
      config.paths.Pairwise fun path other => ¬SharesName upperFirst path other := by
  rw [names_of_returned returned, List.Nodup, List.pairwise_map]
  exact List.Pairwise.iff fun path other => not_congr (pathToName_eq_iff laws path other)

end Names

/-! ## Two files with one name -/

theorem asciiUpperFirst_cons (first : Char) (rest : List Char) :
    asciiUpperFirst (String.ofList (first :: rest)) = String.ofList (first.toUpper :: rest) := by
  rw [asciiUpperFirst, String.toList_ofList]

theorem upperFirst_ascii : UpperFirst asciiUpperFirst where
  empty := rfl
  idempotent text := by
    obtain ⟨letters, rfl⟩ : ∃ letters, text = String.ofList letters :=
      ⟨text.toList, String.ofList_toList.symm⟩
    cases letters with
    | nil => rfl
    | cons first rest =>
        rw [asciiUpperFirst_cons, asciiUpperFirst_cons, Char.toUpper_toUpper_eq_toUpper]
  longer text more nonempty raised _ := by
    obtain ⟨letters, rfl⟩ : ∃ letters, text = String.ofList letters :=
      ⟨text.toList, String.ofList_toList.symm⟩
    obtain ⟨back, rfl⟩ : ∃ back, more = String.ofList back :=
      ⟨more.toList, String.ofList_toList.symm⟩
    cases letters with
    | nil => exact absurd rfl nonempty
    | cons first rest =>
        rw [asciiUpperFirst_cons, String.ofList_inj] at raised
        have upper : first.toUpper = first := (List.cons_eq_cons.mp raised).1
        rw [← String.ofList_append, List.cons_append, asciiUpperFirst_cons, upper]

/-- The chain types of one file after the other. -/
def oneFileEach (first second : String) : List (Option (Record CustomModule)) :=
  [some
      { entries := [("first", { file := "./proto/" ++ first ++ ".proto", messages := ["MsgSend"] })]
        ordered := List.pairwise_singleton _ _ },
    some
      { entries := [("second", { file := "./proto/" ++ second ++ ".proto", messages := ["MsgVote"] })]
        ordered := List.pairwise_singleton _ _ }]

/-- A file in a directory, and one whose name is the two words in one. -/
def twoSpellings : ProtoFiles where
  chaintypes := oneFileEach "a/b" "aB"
  paths := ["a/b", "aB"]
  files := rfl
  distinct := by decide

/-- The transactions of two modules. -/
def twoModules : ProtoFiles where
  chaintypes := oneFileEach "cosmos/bank/v1beta1/tx" "cosmos/gov/v1beta1/tx"
  paths := ["cosmos/bank/v1beta1/tx", "cosmos/gov/v1beta1/tx"]
  files := rfl
  distinct := by decide

theorem names_nodup_iff_at_two_modules :
    (["CosmosBankV1beta1Tx", "CosmosGovV1beta1Tx"] : List String).Nodup ↔
      twoModules.paths.Pairwise fun path other => ¬SharesName asciiUpperFirst path other := by
  have returned : prepareProtobufRenderProps asciiUpperFirst (fun _ => true) "/project"
      (some twoModules.chaintypes) =
        .ok ([],
          [{ messageNames := ["MsgSend"]
             nameSpace := "cosmos.bank.v1beta1.tx"
             name := "CosmosBankV1beta1Tx"
             path := "./proto-interfaces/cosmos/bank/v1beta1/tx" },
            { messageNames := ["MsgVote"]
              nameSpace := "cosmos.gov.v1beta1.tx"
              name := "CosmosGovV1beta1Tx"
              path := "./proto-interfaces/cosmos/gov/v1beta1/tx" }]) := rfl
  exact names_nodup_iff upperFirst_ascii twoModules returned

theorem two_spellings_share_name :
    ∃ props,
      prepareProtobufRenderProps asciiUpperFirst (fun _ => true) "/project"
          (some twoSpellings.chaintypes) = .ok ([], props) ∧
        props.map (fun prop => prop.name) = ["AB", "AB"] ∧
          ¬(props.map fun prop => prop.name).Nodup := by
  have outcome : prepareProtobufRenderProps asciiUpperFirst (fun _ => true) "/project"
      (some twoSpellings.chaintypes) =
        .ok ([],
          [{ messageNames := ["MsgSend"]
             nameSpace := "a.b"
             name := "AB"
             path := "./proto-interfaces/a/b" },
            { messageNames := ["MsgVote"]
              nameSpace := "aB"
              name := "AB"
              path := "./proto-interfaces/aB" }]) := rfl
  refine ⟨_, outcome, rfl, fun distinct => ?_⟩
  simp at distinct

end SubqlCosmos
