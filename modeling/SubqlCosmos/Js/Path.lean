import SubqlCosmos.Js.Text

/-!
# Paths

The POSIX `path.normalize` and `path.join`: a path is split at its slashes, empty segments and single
dots are left out, and a double dot takes the segment before it away.
-/

namespace Js
namespace Path

/-! ## Segments -/

/-- A segment of a path. -/
abbrev Segment := List Char

/-- The segments of a path. -/
def segments (path : List Char) : List Segment := path.splitOn '/'

/-- The step of `normalizeString` from one segment to the next. The segments that are kept stand in a
stack, the last one on top; a double dot is kept only above the start of a relative path. -/
def climb (allowAboveRoot : Bool) (stack : List Segment) (segment : Segment) : List Segment :=
  if segment = [] ∨ segment = ['.'] then stack
  else if segment = ['.', '.'] then
    match stack with
    | [] => if allowAboveRoot then [segment] else []
    | top :: below =>
        if top = ['.', '.'] then if allowAboveRoot then segment :: top :: below else top :: below
        else below
  else segment :: stack

/-- The segments kept, from the first on. -/
def resolve (allowAboveRoot : Bool) (stack segments : List Segment) : List Segment :=
  segments.foldl (climb allowAboveRoot) stack

/-- `normalizeString`. -/
def normalizeString (allowAboveRoot : Bool) (path : List Char) : List Char :=
  ['/'].intercalate (resolve allowAboveRoot [] (segments path)).reverse

/-- The path begins with a slash. -/
def isAbsolute (path : List Char) : Bool := path.head? = some '/'

/-- The path ends with a slash. -/
def hasTrailingSeparator (path : List Char) : Bool := path.getLast? = some '/'

/-- A slash, if the condition holds. -/
def slashIf (condition : Bool) : List Char := if condition then ['/'] else []

/-- `path.normalize(path)`. -/
def normalize (path : List Char) : List Char :=
  if path = [] then ['.']
  else
    let normal := normalizeString (!isAbsolute path) path
    if normal = [] then
      if isAbsolute path then ['/'] else if hasTrailingSeparator path then ['.', '/'] else ['.']
    else slashIf (isAbsolute path) ++ normal ++ slashIf (hasTrailingSeparator path)

/-- `path.join(first, second)`. -/
def join (first second : List Char) : List Char :=
  let given := [first, second].filter (· ≠ [])
  if given = [] then ['.'] else normalize (['/'].intercalate given)

/-- `path.join(…given)`. -/
def joinAll (given : List (List Char)) : List Char :=
  let given := given.filter (· ≠ [])
  if given = [] then ['.'] else normalize (['/'].intercalate given)

/-- `path.join(…given)` on strings. -/
def joinTexts (given : List String) : String := String.ofList (joinAll (given.map String.toList))

/-- `path.basename(path)`. -/
def basename (path : List Char) : List Char := ((segments path).filter (· ≠ [])).getLastD []

/-- `path.dirname(path)`. -/
def dirname : List Char → List Char
  | [] => ['.']
  | first :: rest =>
      let above := (rest.reverse.dropWhile (· = '/')).dropWhile (· ≠ '/')
      if above = [] then if first = '/' then ['/'] else ['.']
      else if first = '/' ∧ above.length = 1 then ['/', '/']
      else (first :: rest).take above.length

/-! ## What is kept -/

section Resolve

variable {allowAboveRoot : Bool}

/-- A segment that means what it says. -/
def Plain (segment : Segment) : Prop :=
  segment ≠ [] ∧ segment ≠ ['.'] ∧ segment ≠ ['.', '.']

instance : DecidablePred Plain := fun _ => inferInstanceAs (Decidable (_ ∧ _ ∧ _))

@[simp]
theorem resolve_nil (stack : List Segment) : resolve allowAboveRoot stack [] = stack := rfl

@[simp]
theorem resolve_cons (stack : List Segment) (segment : Segment) (rest : List Segment) :
    resolve allowAboveRoot stack (segment :: rest) =
      resolve allowAboveRoot (climb allowAboveRoot stack segment) rest := rfl

theorem resolve_append (stack front back : List Segment) :
    resolve allowAboveRoot stack (front ++ back) =
      resolve allowAboveRoot (resolve allowAboveRoot stack front) back :=
  List.foldl_append

@[simp]
theorem climb_empty (stack : List Segment) : climb allowAboveRoot stack [] = stack := by
  simp [climb]

@[simp]
theorem climb_dot (stack : List Segment) : climb allowAboveRoot stack ['.'] = stack := by
  simp [climb]

theorem climb_plain {segment : Segment} (plain : Plain segment) (stack : List Segment) :
    climb allowAboveRoot stack segment = segment :: stack := by
  unfold climb
  rw [if_neg (by simp [plain.1, plain.2.1]), if_neg plain.2.2]

theorem resolve_plain {rest : List Segment} (plain : ∀ segment ∈ rest, Plain segment)
    (stack : List Segment) : resolve allowAboveRoot stack rest = rest.reverse ++ stack := by
  induction rest generalizing stack with
  | nil => rfl
  | cons segment rest induction =>
      rw [resolve_cons, climb_plain (plain segment List.mem_cons_self),
        induction fun other member => plain other (List.mem_cons_of_mem _ member)]
      simp

theorem mem_climb {stack : List Segment} {segment kept : Segment}
    (member : kept ∈ climb allowAboveRoot stack segment) :
    kept ∈ stack ∨ kept = segment ∧ segment ≠ [] := by
  unfold climb at member
  split at member
  · exact Or.inl member
  · rename_i special
    have nonempty : segment ≠ [] := fun empty => special (Or.inl empty)
    split at member
    · split at member
      · split at member
        · exact Or.inr ⟨List.mem_singleton.mp member, nonempty⟩
        · exact absurd member List.not_mem_nil
      · split at member
        · split at member
          · exact (List.mem_cons.mp member).symm.imp id fun same => ⟨same, nonempty⟩
          · exact Or.inl member
        · exact Or.inl (List.mem_cons_of_mem _ member)
    · exact (List.mem_cons.mp member).symm.imp id fun same => ⟨same, nonempty⟩

theorem mem_resolve {stack rest : List Segment} {kept : Segment}
    (member : kept ∈ resolve allowAboveRoot stack rest) :
    kept ∈ stack ∨ kept ∈ rest ∧ kept ≠ [] := by
  induction rest generalizing stack with
  | nil => exact Or.inl member
  | cons segment rest induction =>
      rcases induction member with inStack | ⟨inRest, nonempty⟩
      · rcases mem_climb inStack with old | ⟨rfl, nonempty⟩
        · exact Or.inl old
        · exact Or.inr ⟨List.mem_cons_self, nonempty⟩
      · exact Or.inr ⟨List.mem_cons_of_mem _ inRest, nonempty⟩

/-- The length of segments with a slash behind each. -/
def extent (segments : List Segment) : Nat := (segments.map fun segment => segment.length + 1).sum

@[simp]
theorem extent_nil : extent [] = 0 := rfl

@[simp]
theorem extent_cons (segment : Segment) (rest : List Segment) :
    extent (segment :: rest) = segment.length + 1 + extent rest := by
  simp [extent]

@[simp]
theorem extent_append (front back : List Segment) :
    extent (front ++ back) = extent front + extent back := by
  simp [extent]

@[simp]
theorem extent_reverse (segments : List Segment) : extent segments.reverse = extent segments := by
  simp [extent, List.sum_reverse]

theorem extent_climb_le (stack : List Segment) (segment : Segment) :
    extent (climb allowAboveRoot stack segment) ≤ extent stack + (segment.length + 1) := by
  unfold climb
  split
  · omega
  · split
    · split
      · split <;> simp
      · split
        · split
          · simp
            omega
          · simp
        · simp
          omega
    · simp
      omega

theorem extent_resolve_le (stack rest : List Segment) :
    extent (resolve allowAboveRoot stack rest) ≤ extent stack + extent rest := by
  induction rest generalizing stack with
  | nil => simp
  | cons segment rest induction =>
      have step : extent (climb allowAboveRoot stack segment) ≤ _ := extent_climb_le stack segment
      have later := induction (climb allowAboveRoot stack segment)
      rw [resolve_cons, extent_cons]
      omega

end Resolve

theorem extent_segments (path : List Char) : extent (segments path) = path.length + 1 := by
  rw [segments]
  induction path with
  | nil => rfl
  | cons c path induction =>
      obtain ⟨piece, pieces, split⟩ := List.exists_cons_of_ne_nil (List.splitOn_ne_nil '/' path)
      rw [List.splitOn_cons_eq_if_modifyHead, split]
      rw [split] at induction
      split
      · simp at induction ⊢
        omega
      · simp at induction ⊢
        omega

theorem length_intercalate {segments : List Segment} (nonempty : segments ≠ []) :
    (['/'].intercalate segments).length + 1 = extent segments := by
  induction segments with
  | nil => exact absurd rfl nonempty
  | cons segment rest induction =>
      cases rest with
      | nil => simp
      | cons next rest =>
          have later := induction (by simp)
          rw [List.intercalate_cons_cons, extent_cons, ← later]
          simp
          omega

theorem intercalate_ne_nil {segments : List Segment} (nonempty : segments ≠ [])
    (filled : ∀ segment ∈ segments, segment ≠ []) : ['/'].intercalate segments ≠ [] := by
  cases segments with
  | nil => exact absurd rfl nonempty
  | cons segment rest =>
      have first := filled segment List.mem_cons_self
      cases rest with
      | nil => simpa using first
      | cons next rest =>
          rw [List.intercalate_cons_cons]
          simp

/-! ## Joining -/

/-- The path whose first character decides whether the joined path is absolute. -/
def rootOf (first second : List Char) : List Char := if first = [] then second else first

/-- The segments a joined path keeps, the last one on top. -/
def joinStack (first second : List Char) : List Segment :=
  resolve (!isAbsolute (rootOf first second)) [] (segments first ++ segments second)

theorem segments_nil : segments [] = [[]] := rfl

/-- A joined path from which something is left. -/
theorem join_eq {first second : List Char} (nonempty : second ≠ [])
    (kept : joinStack first second ≠ []) :
    join first second =
      slashIf (isAbsolute (rootOf first second)) ++
        ['/'].intercalate (joinStack first second).reverse ++
          slashIf (hasTrailingSeparator second) := by
  have filled : ['/'].intercalate (joinStack first second).reverse ≠ [] := by
    refine intercalate_ne_nil (by simpa using kept) fun segment member => ?_
    rcases mem_resolve (List.mem_reverse.mp member) with early | ⟨-, nonempty⟩
    · exact absurd early List.not_mem_nil
    · exact nonempty
  by_cases empty : first = []
  · subst empty
    have root : rootOf [] second = second := if_pos rfl
    have stack : joinStack [] second = resolve (!isAbsolute second) [] (segments second) := by
      rw [joinStack, root, segments_nil, resolve_append, resolve_cons, climb_empty, resolve_nil]
    have given : [[], second].filter (· ≠ []) = [second] := by simp [nonempty]
    rw [root]
    rw [stack] at filled ⊢
    simp only [join, given, normalize, normalizeString]
    simp [nonempty, filled]
  · have root : rootOf first second = first := if_neg empty
    have given : [first, second].filter (· ≠ []) = [first, second] := by simp [nonempty, empty]
    have whole : ['/'].intercalate [first, second] = first ++ '/' :: second := by simp
    have split : segments (first ++ '/' :: second) = segments first ++ segments second :=
      List.splitOn_append_cons_self first second
    have absolute : isAbsolute (first ++ '/' :: second) = isAbsolute first := by
      obtain ⟨c, rest, rfl⟩ := List.exists_cons_of_ne_nil empty
      rfl
    have trailing : hasTrailingSeparator (first ++ '/' :: second) = hasTrailingSeparator second := by
      obtain ⟨rest, c, rfl⟩ := (List.eq_nil_or_concat' second).resolve_left nonempty
      have regrouped : first ++ '/' :: (rest ++ [c]) = (first ++ '/' :: rest) ++ [c] := by simp
      simp only [hasTrailingSeparator]
      rw [regrouped, List.getLast?_concat, List.getLast?_concat]
    rw [joinStack, root] at filled ⊢
    simp only [join, given, normalize, normalizeString, whole, split, absolute, trailing]
    simp [filled]

/-- The segments a directory keeps, the last one on top. -/
def baseStack (directory : List Char) : List Segment :=
  resolve (!isAbsolute directory) [] (segments directory)

theorem joinStack_eq (first second : List Char) :
    joinStack first second =
      resolve (!isAbsolute (rootOf first second)) (baseStack first) (segments second) := by
  rw [joinStack, resolve_append]
  by_cases empty : first = []
  · subst empty
    rw [baseStack, segments_nil, resolve_cons, resolve_cons, climb_empty, climb_empty, resolve_nil,
      resolve_nil]
  · have root : rootOf first second = first := if_neg empty
    rw [root, baseStack]

theorem mem_joinStack {first second : List Char} {segment : Segment}
    (member : segment ∈ joinStack first second) : segment ≠ [] ∧ '/' ∉ segment := by
  rcases mem_resolve member with early | ⟨listed, nonempty⟩
  · exact absurd early List.not_mem_nil
  · rcases List.mem_append.mp listed with inFirst | inSecond
    · exact ⟨nonempty, not_mem_of_mem_splitOn inFirst⟩
    · exact ⟨nonempty, not_mem_of_mem_splitOn inSecond⟩

theorem length_slashIf_le (condition : Bool) : (slashIf condition).length ≤ 1 := by
  cases condition <;> simp [slashIf]

theorem length_join_le {first second : List Char} (nonempty : second ≠ [])
    (kept : joinStack first second ≠ []) (closed : hasTrailingSeparator second = false) :
    (join first second).length ≤ extent (baseStack first) + second.length + 1 := by
  have bound : extent (joinStack first second) ≤ extent (baseStack first) + (second.length + 1) := by
    rw [joinStack_eq, ← extent_segments second]
    exact extent_resolve_le _ _
  have whole := length_intercalate (List.reverse_ne_nil_iff.mpr kept)
  have root := length_slashIf_le (isAbsolute (rootOf first second))
  rw [extent_reverse] at whole
  rw [join_eq nonempty kept, closed, List.length_append, List.length_append]
  simp only [slashIf, Bool.false_eq_true, if_false, List.length_nil] at root ⊢
  omega

/-- The segments of a joined path are read back from it. -/
theorem segments_joinStack {first second : List Char} (kept : joinStack first second ≠ []) :
    segments (['/'].intercalate (joinStack first second).reverse) =
      (joinStack first second).reverse :=
  List.splitOn_intercalate '/'
    (fun _ member => (mem_joinStack (List.mem_reverse.mp member)).2) (by simpa using kept)

/-- Two files of a directory are one only if their segments are. -/
theorem join_inj_iff {directory first second : List Char} (located : directory ≠ [])
    (firstNonempty : first ≠ []) (secondNonempty : second ≠ [])
    (firstKept : joinStack directory first ≠ []) (secondKept : joinStack directory second ≠ [])
    (firstClosed : hasTrailingSeparator first = false)
    (secondClosed : hasTrailingSeparator second = false) :
    join directory first = join directory second ↔
      joinStack directory first = joinStack directory second := by
  have root : ∀ path, rootOf directory path = directory := fun _ => if_neg located
  rw [join_eq firstNonempty firstKept, join_eq secondNonempty secondKept, root, root, firstClosed,
    secondClosed, List.append_assoc, List.append_assoc, List.append_cancel_left_eq,
    List.append_cancel_right_eq]
  constructor
  · intro same
    have pieces := congrArg segments same
    rw [segments_joinStack firstKept, segments_joinStack secondKept] at pieces
    exact List.reverse_injective pieces
  · intro same
    rw [same]

/-- A joined path has no two slashes in a row. -/
theorem join_ne_doubled {first second : List Char} (nonempty : second ≠ [])
    (kept : joinStack first second ≠ []) (closed : hasTrailingSeparator second = false)
    (front back : List Char) : join first second ≠ front ++ '/' :: '/' :: back := by
  intro doubled
  have split : segments (join first second) =
      segments front ++ [] :: segments back := by
    rw [doubled, segments, List.splitOn_append_cons_self, List.splitOn_cons_eq_if_modifyHead]
    simp [segments]
  have whole := segments_joinStack kept
  obtain ⟨head, rest, frontSplit⟩ := List.exists_cons_of_ne_nil
    (show segments front ≠ [] from List.splitOn_ne_nil '/' front)
  have filled : [] ∉ (joinStack first second).reverse := fun member =>
    (mem_joinStack (List.mem_reverse.mp member)).1 rfl
  rw [join_eq nonempty kept, closed, frontSplit] at split
  cases absolute : isAbsolute (rootOf first second) with
  | false =>
      rw [absolute] at split
      simp only [slashIf, Bool.false_eq_true, if_false, List.nil_append, List.append_nil, whole]
        at split
      exact filled (split ▸ by simp)
  | true =>
      rw [absolute] at split
      have leading : segments (['/'] ++ ['/'].intercalate (joinStack first second).reverse) =
          [] :: (joinStack first second).reverse := by
        rw [List.singleton_append, segments, List.splitOn_cons_eq_if_modifyHead, if_pos (by simp),
          ← segments, whole]
      simp only [slashIf, if_true, Bool.false_eq_true, if_false, List.append_nil, leading] at split
      obtain ⟨-, tail⟩ := List.cons_eq_cons.mp split
      exact filled (tail ▸ by simp)

theorem intercalate_append {front back : List Segment} (frontNonempty : front ≠ [])
    (backNonempty : back ≠ []) :
    ['/'].intercalate (front ++ back) =
      ['/'].intercalate front ++ '/' :: ['/'].intercalate back := by
  obtain ⟨before, last, rfl⟩ := (List.eq_nil_or_concat' front).resolve_left frontNonempty
  obtain ⟨first, after, rfl⟩ := List.exists_cons_of_ne_nil backNonempty
  rw [intercalate_append_cons, intercalate_append_cons]
  simp

/-! ## Joining several parts -/

/-- The last of the joined parts is joined to those before it. -/
theorem joinAll_concat (front : List (List Char)) {last : List Char} (nonempty : last ≠ []) :
    joinAll (front ++ [last]) = join (['/'].intercalate (front.filter (· ≠ []))) last := by
  have given : (front ++ [last]).filter (· ≠ []) = front.filter (· ≠ []) ++ [last] := by
    simp [List.filter_append, nonempty]
  have filled : ∀ part ∈ front.filter (· ≠ []), part ≠ [] := fun part member => by
    simpa using (List.mem_filter.mp member).2
  rw [joinAll, given, if_neg (by simp)]
  generalize front.filter (· ≠ []) = parts at filled
  by_cases empty : parts = []
  · subst empty
    have alone : [['/'].intercalate [], last].filter (· ≠ []) = [last] := by simp [nonempty]
    rw [join, alone, if_neg (by simp)]
    rfl
  · have directory := intercalate_ne_nil empty filled
    have both : [['/'].intercalate parts, last].filter (· ≠ []) = [['/'].intercalate parts, last] := by
      simp [nonempty, directory]
    rw [join, both, if_neg (by simp), intercalate_append empty (by simp)]
    simp

/-! ## Endings -/

/-- A text that ends the name of a file: no slash is in it, and it is longer than a double dot. -/
structure Ending (ending : List Char) : Prop where
  long : 2 < ending.length
  slashless : '/' ∉ ending

namespace Ending

variable {ending : List Char}

theorem ne_nil (isEnding : Ending ending) (rest : List Char) : rest ++ ending ≠ [] := by
  intro empty
  have long := isEnding.long
  rw [(List.append_eq_nil_iff.mp empty).2] at long
  simp at long

theorem segments_append (isEnding : Ending ending) (rest : List Char) :
    ∃ front last, segments rest = front ++ [last] ∧
      segments (rest ++ ending) = front ++ [last ++ ending] := by
  obtain ⟨front, last, first, back, restSplit, endingSplit, joined⟩ := splitOn_append '/' rest ending
  rw [List.splitOn_eq_singleton isEnding.slashless] at endingSplit
  obtain ⟨rfl, rfl⟩ := List.cons_eq_cons.mp endingSplit
  exact ⟨front, last, restSplit, joined⟩

theorem plain (isEnding : Ending ending) (last : Segment) : Plain (last ++ ending) := by
  have long : 2 < (last ++ ending).length := by
    rw [List.length_append]
    have := isEnding.long
    omega
  refine ⟨?_, ?_, ?_⟩ <;>
  · intro same
    rw [same] at long
    simp at long

theorem closed (isEnding : Ending ending) (rest : List Char) :
    hasTrailingSeparator (rest ++ ending) = false := by
  obtain ⟨front, last, rfl⟩ := (List.eq_nil_or_concat' ending).resolve_left fun empty => by
    have long := isEnding.long
    simp [empty] at long
  have different : last ≠ '/' := fun same => isEnding.slashless (by simp [same])
  rw [hasTrailingSeparator, ← List.append_assoc, List.getLast?_concat]
  simpa using different

theorem joinStack_ne_nil (isEnding : Ending ending) (directory rest : List Char) :
    joinStack directory (rest ++ ending) ≠ [] := by
  obtain ⟨front, last, -, split⟩ := isEnding.segments_append rest
  rw [joinStack_eq, split, resolve_append, resolve_cons, climb_plain (isEnding.plain last)]
  exact List.cons_ne_nil _ _

end Ending

end Path
end Js
