import SubqlCosmos.Codegen

/-!
# Spellings of protobuf files

The names generated for a protobuf file, for every path that leads to the file.
-/

namespace SubqlCosmos

open Js

/-! ## Stripping -/

theorem stripProto_inside (rest : List Char) :
    stripProto (protoDirectory ++ (rest ++ protoExtension)) = rest := by
  have below : (protoDirectory ++ (rest ++ protoExtension)).drop protoDirectory.length =
      rest ++ protoExtension := List.drop_left
  rw [stripProto, if_pos (List.prefix_append _ _), below, if_pos (List.suffix_append _ _), List.length_append, Nat.add_sub_cancel, List.take_left]

theorem stripProto_outside {rest : List Char} (outside : ¬protoDirectory <+: rest ++ protoExtension) :
    stripProto (rest ++ protoExtension) = rest := by
  rw [stripProto, if_neg outside, if_pos (List.suffix_append _ _), List.length_append, Nat.add_sub_cancel, List.take_left]

/-- Directory and extension do not overlap. -/
theorem exists_of_directory {front : List Char} (inside : protoDirectory <+: front ++ protoExtension) :
    ∃ rest, front = protoDirectory ++ rest := by
  obtain ⟨back, same⟩ := inside
  rcases List.append_eq_append_iff.mp same with ⟨rest, split, -⟩ | ⟨overlap, split, extension⟩
  · exact ⟨rest, split⟩
  · cases overlap using List.reverseRecOn with
    | nil => exact ⟨[], by rw [List.append_nil] at split ⊢; exact split.symm⟩
    | append_singleton overlap last =>
        -- the directory ends with a slash, which the extension does not have
        have isSlash : last = '/' := by
          have lasts := congrArg List.getLast? split
          rw [← List.append_assoc, List.getLast?_concat] at lasts
          exact (Option.some.inj lasts).symm
        have inExtension : '/' ∈ protoExtension := by
          rw [extension, isSlash]
          simp
        exact absurd inExtension (by decide)

/-! ## Pieces -/

theorem slashPieces_of_plain {before path : List Char} (plainBefore : '\\' ∉ before)
    (plain : '\\' ∉ path) (piece : List Char) :
    slashPieces before piece path =
      (path.splitOn '/').modifyHead fun first => piece.reverse ++ first := by
  induction path generalizing before piece with
  | nil => simp [slashPieces]
  | cons c path induction =>
      have separated : separates before = true := by
        cases before with
        | nil => rfl
        | cons last before =>
            have notBackslash : last ≠ '\\' :=
              ne_of_mem_of_not_mem List.mem_cons_self plainBefore
            unfold separates
            split
            · rfl
            · simp_all
            · rfl
      have notBackslash : c ≠ '\\' := ne_of_mem_of_not_mem List.mem_cons_self plain
      have plainNext : '\\' ∉ c :: before := by simp [Ne.symm notBackslash, plainBefore]
      have plainRest : '\\' ∉ path := fun member => plain (List.mem_cons_of_mem _ member)
      obtain ⟨first, rest, split⟩ := List.exists_cons_of_ne_nil (List.splitOn_ne_nil '/' path)
      rw [slashPieces, List.splitOn_cons_eq_if_modifyHead]
      by_cases slash : c = '/'
      · rw [if_pos ⟨slash, separated⟩, induction plainNext plainRest, split]
        simp [slash]
      · rw [if_neg (by simp [slash]), induction plainNext plainRest, split]
        simp [slash]

theorem slashPieces_eq {path : List Char} (plain : '\\' ∉ path) :
    slashPieces [] [] path = path.splitOn '/' := by
  rw [slashPieces_of_plain List.not_mem_nil plain]
  cases path.splitOn '/' <;> rfl

theorem intercalate_dots (path : List Char) :
    ['.'].intercalate (path.splitOn '/') = path.map fun c => if c = '/' then '.' else c := by
  induction path with
  | nil => rfl
  | cons c path induction =>
      obtain ⟨first, rest, split⟩ := List.exists_cons_of_ne_nil (List.splitOn_ne_nil '/' path)
      rw [split] at induction
      rw [List.splitOn_cons_eq_if_modifyHead, split, List.map_cons, ← induction]
      by_cases slash : c = '/'
      · simp [slash]
      · cases rest <;> simp [slash]

/-! ## Names after the file -/

/-- A path, accepted as one under `./proto`, that leads to the file `r.proto` there. -/
structure Spelling where
  projectPath : String
  path : String
  rest : String
  accepted : isProtoPath path projectPath = true
  extension : protoExtension <:+ path.toList
  resolves : Path.join projectPath.toList path.toList =
    Path.join projectPath.toList protoDirectory ++ rest.toList ++ protoExtension
  noDot : '.' ∉ rest.toList
  noBackslash : '\\' ∉ rest.toList

/-- What is generated is named after the file. -/
structure NamedAfterFile (upperFirst : String → String) (spelling : Spelling) : Prop where
  path : processProtoFilePath spelling.path = "./proto-interfaces/" ++ spelling.rest
  nameSpace : pathToNamespace spelling.path =
    String.ofList (spelling.rest.toList.map fun c => if c = '/' then '.' else c)
  name : pathToName upperFirst spelling.path =
    String.ofList ((spelling.rest.toList.splitOn '/').flatMap fun word =>
      (upperFirst (String.ofList word)).toList)

/-- The path is the one the manifest examples use. -/
def Spelling.Literal (spelling : Spelling) : Prop :=
  spelling.path.toList = protoDirectory ++ (spelling.rest.toList ++ protoExtension)

theorem map_slash_of_not_mem {text : List Char} (absent : '.' ∉ text) :
    text.map (fun c => if c = '.' then '/' else c) = text := by
  calc text.map (fun c => if c = '.' then '/' else c)
      = text.map id := List.map_congr_left fun c member => by
        have notDot : c ≠ '.' := ne_of_mem_of_not_mem member absent
        simp [notDot]
    _ = text := List.map_id text

theorem toList_processProtoFilePath (path : String) :
    (processProtoFilePath path).toList =
      "./proto-interfaces/".toList ++
        (stripProto path.toList).map fun c => if c = '.' then '/' else c :=
  String.toList_ofList

theorem namedAfterFile_of_literal (upperFirst : String → String) {spelling : Spelling}
    (literal : spelling.Literal) : NamedAfterFile upperFirst spelling := by
  have stripped : stripProto spelling.path.toList = spelling.rest.toList := by
    rw [literal, stripProto_inside]
  have dotted : pathToNamespace spelling.path =
      String.ofList (['.'].intercalate (spelling.rest.toList.splitOn '/')) := by
    rw [pathToNamespace, stripped, slashPieces_eq spelling.noBackslash]
  refine ⟨?_, ?_, ?_⟩
  · apply String.toList_injective
    rw [toList_processProtoFilePath, stripped, map_slash_of_not_mem spelling.noDot,
      String.toList_append]
  · rw [dotted, intercalate_dots]
  · have words : (['.'].intercalate (spelling.rest.toList.splitOn '/')).splitOn '.' =
        spelling.rest.toList.splitOn '/' := by
      refine List.splitOn_intercalate '.' (fun piece member dot => spelling.noDot ?_)
        (List.splitOn_ne_nil '/' _)
      exact mem_of_mem_splitOn member dot
    rw [pathToName, dotted, splitDots, String.toList_ofList, words, List.flatMap_map]

/-! ## Other spellings -/

section Resolution

open Path

theorem segments_directory (rest : List Char) :
    segments (protoDirectory ++ rest) = ['.'] :: ['p', 'r', 'o', 't', 'o'] :: segments rest := by
  have shape : protoDirectory ++ rest = ['.'] ++ '/' :: (['p', 'r', 'o', 't', 'o'] ++ '/' :: rest) :=
    rfl
  rw [shape, segments, List.splitOn_append_cons_self_of_not_mem (by decide),
    List.splitOn_append_cons_self_of_not_mem (by decide)]
  rfl

theorem ending_protoExtension : Ending protoExtension := ⟨by decide, by decide⟩

theorem segments_ne_nil (rest : List Char) : segments rest ≠ [] := List.splitOn_ne_nil '/' rest

theorem intercalate_segments (rest : List Char) : ['/'].intercalate (segments rest) = rest :=
  List.intercalate_splitOn '/'

theorem rootOf_directory (project rest : List Char) :
    isAbsolute (rootOf project (protoDirectory ++ rest)) =
      isAbsolute (rootOf project protoDirectory) := by
  by_cases empty : project = []
  · rw [rootOf, rootOf, if_pos empty, if_pos empty]
    rfl
  · rw [rootOf, rootOf, if_neg empty, if_neg empty]

theorem join_directory (project : List Char) :
    join project protoDirectory =
      slashIf (isAbsolute (rootOf project protoDirectory)) ++
        ['/'].intercalate ((baseStack project).reverse ++ [['p', 'r', 'o', 't', 'o']]) ++ ['/'] := by
  have stack : joinStack project protoDirectory = ['p', 'r', 'o', 't', 'o'] :: baseStack project := by
    rw [joinStack_eq, show segments protoDirectory = [['.'], ['p', 'r', 'o', 't', 'o'], []] from rfl,
      resolve_cons, climb_dot, resolve_cons, climb_plain (by decide), resolve_cons, climb_empty,
      resolve_nil]
  rw [join_eq (by decide) (by rw [stack]; exact List.cons_ne_nil _ _), stack, List.reverse_cons]
  rfl

/-- A path below the directory that has only plain segments stays as it is. -/
theorem join_plain (project : List Char) {rest : List Char}
    (plain : ∀ segment ∈ segments (rest ++ protoExtension), Plain segment) :
    join project (protoDirectory ++ (rest ++ protoExtension)) =
      join project protoDirectory ++ (rest ++ protoExtension) := by
  have stack : joinStack project (protoDirectory ++ (rest ++ protoExtension)) =
      (segments (rest ++ protoExtension)).reverse ++
        ['p', 'r', 'o', 't', 'o'] :: baseStack project := by
    rw [joinStack_eq, segments_directory, resolve_cons, climb_dot, resolve_cons,
      climb_plain (by decide), resolve_plain plain]
  have kept : joinStack project (protoDirectory ++ (rest ++ protoExtension)) ≠ [] := by
    rw [stack]
    simp
  have closed := ending_protoExtension.closed (protoDirectory ++ rest)
  rw [List.append_assoc] at closed
  rw [join_eq (by simp [protoDirectory]) kept, rootOf_directory, closed, stack, join_directory,
    List.reverse_append, List.reverse_reverse, List.reverse_cons,
    intercalate_append (by simp) (segments_ne_nil _), intercalate_segments]
  simp [slashIf]

/-- Where a segment below the directory is not plain, dots turned into slashes leave two slashes in a
row. -/
theorem doubled_of_special {rest : List Char} {segment : Segment}
    (member : segment ∈ segments (rest ++ protoExtension)) (special : ¬Plain segment) :
    ∃ front back, '/' :: rest.map (fun c => if c = '.' then '/' else c) =
      front ++ '/' :: '/' :: back := by
  obtain ⟨pieces, last, split, extended⟩ := ending_protoExtension.segments_append rest
  have inPieces : segment ∈ pieces := by
    rw [extended] at member
    rcases List.mem_append.mp member with inside | isLast
    · exact inside
    · obtain rfl := List.mem_singleton.mp isLast
      exact absurd (ending_protoExtension.plain last) special
  obtain ⟨before, after, rfl⟩ := List.append_of_mem inPieces
  have whole : '/' :: rest = ['/'].intercalate ([] :: segments rest) := by
    rw [List.intercalate_cons_of_ne_nil (segments_ne_nil rest), intercalate_segments]
    rfl
  have parts : [] :: segments rest = ([] :: before) ++ ([segment] ++ (after ++ [last])) := by
    rw [split]
    simp
  have cut : '/' :: rest =
      ['/'].intercalate ([] :: before) ++
        '/' :: (segment ++ '/' :: ['/'].intercalate (after ++ [last])) := by
    rw [whole, parts, intercalate_append (by simp) (by simp), intercalate_append (by simp) (by simp)]
    simp
  have mapped := congrArg (List.map fun c => if c = '.' then '/' else c) cut
  rw [List.map_cons, List.map_append, List.map_cons, List.map_append, List.map_cons] at mapped
  have slashes : segment = [] ∨ segment = ['.'] ∨ segment = ['.', '.'] := by
    by_contra other
    simp only [not_or] at other
    exact special other
  rcases slashes with rfl | rfl | rfl
  · exact ⟨_, _, mapped⟩
  · exact ⟨_, _, mapped⟩
  · exact ⟨_, _, mapped⟩

theorem join_ne_of_doubled {project rest named before after : List Char}
    (doubled : '/' :: named = before ++ '/' :: '/' :: after) :
    join project (protoDirectory ++ (rest ++ protoExtension)) ≠
      join project protoDirectory ++ (named ++ protoExtension) := by
  rw [join_directory, ← List.append_assoc protoDirectory]
  intro same
  rw [List.append_assoc _ ['/'], List.singleton_append, ← List.cons_append, doubled,
    List.append_assoc before, List.cons_append, List.cons_append, ← List.append_assoc] at same
  exact join_ne_doubled (ending_protoExtension.ne_nil _)
    (ending_protoExtension.joinStack_ne_nil project _) (ending_protoExtension.closed _) _ _ same

/-- A path does not get longer by resolving it, so it must have had the directory in front. -/
theorem join_ne_of_length {project front named : List Char}
    (lengths : front.length = named.length) :
    join project (front ++ protoExtension) ≠
      join project protoDirectory ++ (named ++ protoExtension) := by
  intro same
  have short := length_join_le (ending_protoExtension.ne_nil front)
    (ending_protoExtension.joinStack_ne_nil project front) (ending_protoExtension.closed front)
  have long := length_intercalate
    (show (baseStack project).reverse ++ [['p', 'r', 'o', 't', 'o']] ≠ [] by simp)
  rw [extent_append, extent_reverse] at long
  rw [same, join_directory] at short
  simp only [List.length_append, extent_cons, extent_nil, List.length_cons,
    List.length_nil] at short long
  omega

end Resolution

theorem literal_of_namedAfterFile {upperFirst : String → String} {spelling : Spelling}
    (named : NamedAfterFile upperFirst spelling) : spelling.Literal := by
  obtain ⟨front, path⟩ := spelling.extension
  have mapped : (stripProto spelling.path.toList).map (fun c => if c = '.' then '/' else c) =
      spelling.rest.toList := by
    have texts := congrArg String.toList named.path
    rw [toList_processProtoFilePath, String.toList_append] at texts
    exact List.append_cancel_left texts
  have resolves := spelling.resolves
  rw [← path] at mapped resolves
  rw [List.append_assoc] at resolves
  by_cases inside : protoDirectory <+: front ++ protoExtension
  · obtain ⟨rest, rfl⟩ := exists_of_directory inside
    rw [List.append_assoc] at mapped resolves path
    rw [stripProto_inside] at mapped
    by_cases plain : ∀ segment ∈ Path.segments (rest ++ protoExtension), Path.Plain segment
    · rw [join_plain _ plain] at resolves
      obtain rfl := List.append_cancel_right (List.append_cancel_left resolves)
      exact path.symm
    · push Not at plain
      obtain ⟨segment, member, special⟩ := plain
      obtain ⟨before, after, doubled⟩ := doubled_of_special member special
      exact absurd resolves (join_ne_of_doubled (mapped ▸ doubled))
  · rw [stripProto_outside inside] at mapped
    have lengths : front.length = spelling.rest.toList.length := by
      rw [← mapped, List.length_map]
    exact absurd resolves (join_ne_of_length lengths)

/-- What is generated is named after the file just where the path is spelled `./proto/` … `.proto`. -/
theorem namedAfterFile_iff (upperFirst : String → String) (spelling : Spelling) :
    NamedAfterFile upperFirst spelling ↔ spelling.Literal :=
  ⟨literal_of_namedAfterFile, namedAfterFile_of_literal upperFirst⟩

/-- A file of the project, without the dot at the start of its path. -/
def dotless : Spelling where
  projectPath := "/project"
  path := "proto/a/b.proto"
  rest := "a/b"
  accepted := rfl
  extension := by decide
  resolves := rfl
  noDot := by decide
  noBackslash := by decide

/-- The same file with the dot. -/
def dotted : Spelling where
  projectPath := "/project"
  path := "./proto/a/b.proto"
  rest := "a/b"
  accepted := rfl
  extension := by decide
  resolves := rfl
  noDot := by decide
  noBackslash := by decide

theorem dotless_not_named_after_file :
    (processProtoFilePath dotless.path = "./proto-interfaces/proto/a/b" ∧
        pathToNamespace dotless.path = "proto.a.b" ∧
          pathToName asciiUpperFirst dotless.path = "ProtoAB") ∧
      (processProtoFilePath dotted.path = "./proto-interfaces/a/b" ∧
        pathToNamespace dotted.path = "a.b" ∧ pathToName asciiUpperFirst dotted.path = "AB") ∧
        ¬NamedAfterFile asciiUpperFirst dotless := by
  have path : processProtoFilePath dotless.path = "./proto-interfaces/proto/a/b" := rfl
  refine ⟨⟨path, rfl, rfl⟩, ⟨rfl, rfl, rfl⟩, fun named => ?_⟩
  have expected := path.symm.trans named.path
  revert expected
  decide

end SubqlCosmos
