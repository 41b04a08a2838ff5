import SubqlCosmos.Js.SetWith

/-!
# Many writes

What primitives written one after the other into one object leave at every property of it. Only the
writes after the last one that ended at the property matter, and the first of them decides what is
created: an array in front of an integer, else an object, into which they are all written.
-/

namespace Js

namespace Value

/-- A path and the primitive written at it. -/
abbrev Write := List String × Scalar

/-- Neither path leads through the other one. -/
def Apart (left right : List String) : Prop := ¬left <+: right ∧ ¬right <+: left

instance (left right : List String) : Decidable (Apart left right) :=
  inferInstanceAs (Decidable (_ ∧ _))

theorem Apart.of_cons {key : String} {left right : List String}
    (apart : Apart (key :: left) (key :: right)) : Apart left right :=
  ⟨fun onward => apart.1 (List.cons_prefix_cons.mpr ⟨rfl, onward⟩),
    fun onward => apart.2 (List.cons_prefix_cons.mpr ⟨rfl, onward⟩)⟩

end Value

namespace Nested

open Value (Write Apart)

section Written

variable (lodash : Lodash)

/-- The object after all writes, in order. -/
def writeAll (writes : List Write) : Nested :=
  writes.foldl (fun tree write => setPath lodash tree write.1 write.2) (.obj [])

/-- A write seen from the property it goes through. -/
def stepInto (key : String) : Write → Option Write
  | ([], _) => none
  | (first :: path, value) => if first = key then some (path, value) else none

/-- What stands at a property after writes through it, given what stood there. -/
def settle (key : String) (own : Option Nested) (writes : List Write) : Option Nested :=
  writes.foldl (fun own write => some (written lodash key own write.1 write.2)) own

/-- What the writes leave at a property of the object. -/
def settled (key : String) (writes : List Write) : Option Nested :=
  if key ∈ guarded then none else settle lodash key none (writes.filterMap (stepInto key))

theorem writeAll_concat (writes : List Write) (write : Write) :
    writeAll lodash (writes ++ [write]) =
      setPath lodash (writeAll lodash writes) write.1 write.2 := by
  simp [writeAll, List.foldl_append]

theorem settle_concat (key : String) (own : Option Nested) (writes : List Write) (write : Write) :
    settle lodash key own (writes ++ [write]) =
      some (written lodash key (settle lodash key own writes) write.1 write.2) := by
  simp [settle, List.foldl_append]

/-- The object after all writes has what they leave at its properties, in the order of enumeration. -/
theorem exists_writeAll (writes : List Write) :
    ∃ fields, writeAll lodash writes = .obj fields ∧
      (fields.map Prod.fst).Pairwise EnumeratedBefore ∧
        ∀ key, fields.lookup key = settled lodash key writes := by
  induction writes using List.reverseRecOn with
  | nil => exact ⟨[], rfl, .nil, fun key => (ite_self _).symm⟩
  | append_singleton writes write induction =>
      obtain ⟨fields, tree, ordered, looked⟩ := induction
      obtain ⟨path, value⟩ := write
      rw [writeAll_concat, tree]
      -- the write changes nothing that is seen from a property it does not go through
      have unseen : ∀ key, stepInto key (path, value) = none →
          settled lodash key (writes ++ [(path, value)]) = settled lodash key writes := by
        intro key passes
        rw [settled, settled, List.filterMap_append, List.filterMap_cons_none passes,
          List.filterMap_nil, List.append_nil]
      cases path with
      | nil =>
          refine ⟨fields, setPath_nil lodash _ _, ordered, fun key => ?_⟩
          rw [looked, unseen key rfl]
      | cons first path =>
          by_cases refused : first ∈ guarded
          · refine ⟨fields, setPath_guarded lodash _ path value refused, ordered, fun key => ?_⟩
            by_cases same : first = key
            · subst same
              rw [looked, settled, settled, if_pos refused, if_pos refused]
            · rw [looked, unseen key (if_neg same)]
          · refine ⟨_, setPath_obj lodash fields path value refused, Record.putEntry_ordered _ _ ordered,
              fun key => ?_⟩
            rw [Record.lookup_putEntry]
            by_cases same : key = first
            · subst same
              have seen : stepInto key (key :: path, value) = some (path, value) := if_pos rfl
              rw [if_pos rfl, looked, settled, settled, if_neg refused, if_neg refused,
                List.filterMap_append, List.filterMap_cons_some seen, List.filterMap_nil,
                settle_concat]
            · rw [if_neg same, looked, unseen key (if_neg (Ne.symm same))]

theorem exists_writeAll_eq (writes : List Write) : ∃ fields, writeAll lodash writes = .obj fields :=
  (exists_writeAll lodash writes).imp fun _ both => both.1

/-! ## The writes that matter -/

/-- The write goes on behind the place. -/
def GoesOn (write : Write) : Prop := write.1 ≠ []

instance : DecidablePred GoesOn := fun write => inferInstanceAs (Decidable (write.1 ≠ []))

/-- The writes after the last one that ends here. -/
def goingOn (writes : List Write) : List Write := writes.rtakeWhile (GoesOn ·)

/-- The writes that matter at a property of an object: those through it, if lodash writes it at all.
Where a function is inherited, they get lost in it until one ends at the property. -/
def entering (key : String) (writes : List Write) : List Write :=
  if key ∈ guarded then []
  else if lodash.inherits false key then
    (writes.filterMap (stepInto key)).dropWhile (GoesOn ·)
  else writes.filterMap (stepInto key)

/-- Writes end here, or all of them go on. -/
theorem ends_or_goesOn (writes : List Write) :
    (∀ write ∈ writes, GoesOn write) ∨
      ∃ front value, writes = front ++ ([], value) :: goingOn writes := by
  induction writes using List.reverseRecOn with
  | nil => exact Or.inl nofun
  | append_singleton writes write induction =>
      by_cases ends : GoesOn write
      · rcases induction with all | ⟨front, value, split⟩
        · refine Or.inl fun other member => ?_
          rcases List.mem_append.mp member with old | new
          · exact all other old
          · exact List.mem_singleton.mp new ▸ ends
        · refine Or.inr ⟨front, value, ?_⟩
          rw [goingOn, List.rtakeWhile_concat_pos _ _ _ (by simpa using ends)]
          nth_rewrite 1 [split]
          rw [goingOn, List.append_assoc, List.cons_append]
      · obtain ⟨path, value⟩ := write
        obtain rfl : path = [] := not_not.mp ends
        refine Or.inr ⟨writes, value, ?_⟩
        rw [goingOn, List.rtakeWhile_concat_neg _ _ _ (by simp [GoesOn])]

theorem goesOn_of_mem_goingOn {writes : List Write} {write : Write}
    (member : write ∈ goingOn writes) : GoesOn write := by
  simpa using List.mem_rtakeWhile_imp member

theorem goingOn_of_all {writes : List Write} (all : ∀ write ∈ writes, GoesOn write) :
    goingOn writes = writes :=
  List.rtakeWhile_eq_self_iff.mpr fun write member => by simpa using all write member

theorem goingOn_append {front back : List Write} {value : Scalar}
    (all : ∀ write ∈ back, GoesOn write) : goingOn (front ++ ([], value) :: back) = back := by
  induction back using List.reverseRecOn with
  | nil => exact List.rtakeWhile_concat_neg _ _ _ (by simp [GoesOn])
  | append_singleton back write induction =>
      have last : GoesOn write := all write (List.mem_append_right _ (List.mem_singleton_self _))
      have rest := induction fun other member => all other (List.mem_append_left _ member)
      rw [← List.cons_append, ← List.append_assoc, goingOn,
        List.rtakeWhile_concat_pos _ _ _ (by simpa using last)]
      exact congrArg (· ++ [write]) rest

theorem goingOn_concat_end (front : List Write) (value : Scalar) :
    goingOn (front ++ [([], value)]) = [] := goingOn_append nofun

/-! ## What is left at a property -/

theorem settle_append (key : String) (own : Option Nested) (front back : List Write) :
    settle lodash key own (front ++ back) =
      settle lodash key (settle lodash key own front) back :=
  List.foldl_append

theorem settle_obj (key : String) (fields : List (String × Nested)) {writes : List Write}
    (all : ∀ write ∈ writes, GoesOn write) :
    settle lodash key (some (.obj fields)) writes =
      some (writes.foldl (fun tree write => setPath lodash tree write.1 write.2) (.obj fields)) := by
  induction writes generalizing fields with
  | nil => rfl
  | cons write writes induction =>
      obtain ⟨path, value⟩ := write
      obtain ⟨here, later⟩ := List.forall_mem_cons.mp all
      obtain ⟨next, path, rfl⟩ := List.exists_cons_of_ne_nil here
      obtain ⟨after, tree⟩ := exists_setPath_obj lodash fields (next :: path) value
      have step : written lodash key (some (.obj fields)) (next :: path) value = .obj after := tree
      rw [settle, List.foldl_cons, List.foldl_cons, step, tree]
      exact induction after later

theorem exists_settle_arr (key : String) (length : Nat) (fields : List (String × Nested))
    {writes : List Write} (all : ∀ write ∈ writes, GoesOn write) :
    ∃ longer after, settle lodash key (some (.arr length fields)) writes =
      some (.arr longer after) := by
  induction writes generalizing length fields with
  | nil => exact ⟨length, fields, rfl⟩
  | cons write writes induction =>
      obtain ⟨path, value⟩ := write
      obtain ⟨here, later⟩ := List.forall_mem_cons.mp all
      obtain ⟨next, path, rfl⟩ := List.exists_cons_of_ne_nil here
      obtain ⟨longer, after, tree⟩ := exists_setPath_arr lodash length fields (next :: path) value
      have step : written lodash key (some (.arr length fields)) (next :: path) value =
          .arr longer after := tree
      rw [settle, List.foldl_cons, step]
      exact induction longer after later

theorem settle_inherited (key : String) (array : Bool) (name : String) {writes : List Write}
    (all : ∀ write ∈ writes, GoesOn write) :
    settle lodash key (some (.inherited array name)) writes = some (.inherited array name) := by
  induction writes with
  | nil => rfl
  | cons write writes induction =>
      obtain ⟨path, value⟩ := write
      obtain ⟨here, later⟩ := List.forall_mem_cons.mp all
      obtain ⟨next, path, rfl⟩ := List.exists_cons_of_ne_nil here
      have step : written lodash key (some (.inherited array name)) (next :: path) value =
          .inherited array name := setPath_inherited lodash array name _ value
      rw [settle, List.foldl_cons, step]
      exact induction later

/-- Where no container stands at the property, the first write that goes on decides which is created. -/
theorem settle_fresh {key : String} {own : Option Nested}
    (creates : ∀ next, container (own.or (inheritedMember lodash false key)) next = fresh next)
    {next : String} {path : List String} {value : Scalar} {more : List Write}
    (all : ∀ write ∈ more, GoesOn write) :
    (ListIndex next → ∃ length fields, settle lodash key own ((next :: path, value) :: more) =
        some (.arr length fields)) ∧
      (¬ListIndex next → settle lodash key own ((next :: path, value) :: more) =
        some (writeAll lodash ((next :: path, value) :: more))) := by
  have first : settle lodash key own ((next :: path, value) :: more) =
      settle lodash key (some (setPath lodash (fresh next) (next :: path) value)) more := by
    rw [settle, List.foldl_cons, written, creates]
    rfl
  constructor
  · intro list
    obtain ⟨length, fields, tree⟩ := exists_setPath_arr lodash 0 [] (next :: path) value
    rw [first, fresh, if_pos list, tree]
    exact exists_settle_arr lodash key length fields all
  · intro named
    obtain ⟨fields, tree⟩ := exists_setPath_obj lodash [] (next :: path) value
    rw [first, fresh, if_neg named, tree, settle_obj lodash key fields all, ← tree]
    rfl

/-- Of the writes through a property either none matters, or all go on from nothing, or the last one
that ends there is followed by those that go on. -/
theorem settled_eq (key : String) (writes : List Write) :
    entering lodash key writes = [] ∧
        (settled lodash key writes = none ∨ settled lodash key writes = some (.inherited false key)) ∨
      (inheritedMember lodash false key = none ∧ entering lodash key writes ≠ [] ∧
          (∀ write ∈ entering lodash key writes, GoesOn write) ∧
          settled lodash key writes = settle lodash key none (entering lodash key writes)) ∨
        ∃ front value back, entering lodash key writes = front ++ ([], value) :: back ∧
          (∀ write ∈ back, GoesOn write) ∧
            settled lodash key writes = settle lodash key (some (.leaf value)) back := by
  by_cases refused : key ∈ guarded
  · rw [entering, settled, if_pos refused, if_pos refused]
    exact Or.inl ⟨rfl, Or.inl rfl⟩
  rw [entering, settled, if_neg refused, if_neg refused]
  generalize writes.filterMap (stepInto key) = seen
  rcases ends_or_goesOn seen with all | ⟨front, value, split⟩
  · by_cases inherits : lodash.inherits false key = true
    · have lost : seen.dropWhile (GoesOn ·) = [] :=
        List.dropWhile_eq_nil_iff.mpr fun write member => by simpa using all write member
      rw [if_pos inherits, lost]
      refine Or.inl ⟨rfl, ?_⟩
      cases seen with
      | nil => exact Or.inl rfl
      | cons write seen =>
          obtain ⟨path, value⟩ := write
          obtain ⟨here, later⟩ := List.forall_mem_cons.mp all
          obtain ⟨next, path, rfl⟩ := List.exists_cons_of_ne_nil here
          have step : written lodash key none (next :: path) value = .inherited false key := by
            rw [written, inheritedMember, if_pos inherits]
            exact setPath_inherited lodash false key _ value
          refine Or.inr ?_
          rw [settle, List.foldl_cons, step]
          exact settle_inherited lodash key false key later
    · rw [if_neg inherits]
      cases seen with
      | nil => exact Or.inl ⟨rfl, Or.inl rfl⟩
      | cons write seen => exact Or.inr (Or.inl ⟨if_neg inherits, List.cons_ne_nil _ _, all, rfl⟩)
  · have last : ∀ front, settle lodash key none (front ++ ([], value) :: goingOn seen) =
        settle lodash key (some (.leaf value)) (goingOn seen) := by
      intro front
      rw [settle_append, settle, List.foldl_cons]
      rfl
    have each : ∀ write ∈ goingOn seen, GoesOn write := fun write => goesOn_of_mem_goingOn
    refine Or.inr (Or.inr ?_)
    by_cases inherits : lodash.inherits false key = true
    · rw [if_pos inherits]
      refine ⟨front.dropWhile (GoesOn ·), value, goingOn seen, ?_, each, ?_⟩
      · nth_rewrite 1 [split]
        rw [List.dropWhile_append]
        split
        · rename_i empty
          have ends : ¬GoesOn ([], value) := fun goes => goes rfl
          rw [List.isEmpty_iff.mp empty, List.dropWhile_cons_of_neg (by simpa using ends)]
          rfl
        · rfl
      · nth_rewrite 1 [split]
        exact last front
    · rw [if_neg inherits]
      refine ⟨front, value, goingOn seen, split, each, ?_⟩
      nth_rewrite 1 [split]
      exact last front

/-- No write matters: nothing is left that is serialised. -/
theorem settled_of_nil {key : String} {writes : List Write}
    (empty : entering lodash key writes = []) :
    settled lodash key writes = none ∨ settled lodash key writes = some (.inherited false key) := by
  rcases settled_eq lodash key writes with ⟨-, either⟩ | ⟨-, some, -⟩ | ⟨front, value, back, split, -⟩
  · exact either
  · exact absurd empty some
  · rw [empty] at split
    simp at split

/-- The last write ends at the property: it is left. -/
theorem settled_of_end {key : String} {writes front : List Write} {value : Scalar}
    (split : entering lodash key writes = front ++ [([], value)]) :
    settled lodash key writes = some (.leaf value) := by
  rcases settled_eq lodash key writes with
    ⟨empty, -⟩ | ⟨-, -, all, -⟩ | ⟨other, last, back, same, goOn, outcome⟩
  · rw [empty] at split
    simp at split
  · refine absurd rfl (all ([], value) ?_)
    rw [split]
    exact List.mem_append_right _ (List.mem_singleton_self _)
  · have none : back = [] := by
      have behind : goingOn (other ++ ([], last) :: back) = back := goingOn_append goOn
      rw [← behind, ← same, split]
      exact goingOn_concat_end front value
    subst none
    obtain ⟨-, equal⟩ := List.append_inj' (same.symm.trans split) rfl
    cases equal
    exact outcome

/-- Writes go on behind the last one that ends at the property: the first of them decides what is
left. -/
theorem settled_of_goingOn {key next : String} {path : List String} {value : Scalar}
    {writes more : List Write}
    (onward : goingOn (entering lodash key writes) = (next :: path, value) :: more) :
    (ListIndex next → ∃ length fields, settled lodash key writes = some (.arr length fields)) ∧
      (¬ListIndex next → settled lodash key writes =
        some (writeAll lodash (goingOn (entering lodash key writes)))) := by
  have each : ∀ write ∈ more, GoesOn write := by
    intro write member
    have listed : write ∈ goingOn (entering lodash key writes) :=
      onward ▸ List.mem_cons_of_mem _ member
    exact goesOn_of_mem_goingOn listed
  rcases settled_eq lodash key writes with
    ⟨empty, -⟩ | ⟨nothing, -, all, outcome⟩ | ⟨front, last, back, split, all, outcome⟩
  · rw [empty] at onward
    cases onward
  · rw [goingOn_of_all all] at onward ⊢
    rw [outcome, onward]
    refine settle_fresh lodash (fun other => ?_) each
    rw [Option.none_or, nothing]
    rfl
  · rw [split, goingOn_append all] at onward ⊢
    rw [outcome, onward]
    exact settle_fresh lodash (fun _ => rfl) each

/-! ## Below a place -/

/-- What is left at a property, seen from the last of its writes. -/
theorem entering_cases (key : String) (writes : List Write) :
    entering lodash key writes = [] ∨
      (∃ front value, entering lodash key writes = front ++ [([], value)]) ∨
        ∃ next path value more,
          goingOn (entering lodash key writes) = (next :: path, value) :: more := by
  rcases List.eq_nil_or_concat' (entering lodash key writes) with empty | ⟨front, last, split⟩
  · exact Or.inl empty
  · obtain ⟨path, value⟩ := last
    cases path with
    | nil => exact Or.inr (Or.inl ⟨front, value, split⟩)
    | cons next path =>
        refine Or.inr (Or.inr ?_)
        have onward : goingOn (entering lodash key writes) ≠ [] := by
          rw [split, goingOn, List.rtakeWhile_concat_pos _ _ _ (by simp [GoesOn])]
          simp
        obtain ⟨⟨first, other⟩, more, same⟩ := List.exists_cons_of_ne_nil onward
        obtain ⟨start, rest, rfl⟩ := List.exists_cons_of_ne_nil
          (goesOn_of_mem_goingOn (same ▸ List.mem_cons_self) : GoesOn (first, other))
        exact ⟨start, rest, other, more, same⟩

/-- The writes that matter below a place. -/
def through : List Write → List String → List Write
  | writes, [] => writes
  | writes, key :: place => through (goingOn (entering lodash key writes)) place

/-- The writes leave a container at the place. -/
def Opened (writes : List Write) (place : List String) : Prop :=
  place = [] ∨ through lodash writes place ≠ []

/-- No place gets an array. -/
def ObjectsOnly (writes : List Write) : Prop :=
  ∀ place next path value more, place ≠ [] →
    through lodash writes place = (next :: path, value) :: more → ¬ListIndex next

variable {lodash}

@[simp]
theorem entering_empty (key : String) : entering lodash key [] = [] := by simp [entering]

theorem ne_nil_of_entering {writes : List Write} {key : String}
    (entered : entering lodash key writes ≠ []) : writes ≠ [] := by
  rintro rfl
  exact entered (entering_empty key)

theorem entering_ne_nil_of_through {writes : List Write} {key : String}
    (onward : through lodash writes [key] ≠ []) : entering lodash key writes ≠ [] := by
  intro nothing
  rw [through, nothing] at onward
  exact onward rfl

theorem through_append (writes : List Write) (front back : List String) :
    through lodash writes (front ++ back) = through lodash (through lodash writes front) back := by
  induction front generalizing writes with
  | nil => rfl
  | cons key front induction => exact induction _

theorem through_empty (place : List String) : through lodash [] place = [] := by
  induction place with
  | nil => rfl
  | cons key place induction =>
      rw [through, entering_empty]
      exact induction

theorem ObjectsOnly.below {writes : List Write} (objectsOnly : ObjectsOnly lodash writes)
    (key : String) : ObjectsOnly lodash (goingOn (entering lodash key writes)) :=
  fun place next path value more _ =>
    objectsOnly (key :: place) next path value more (List.cons_ne_nil _ _)

theorem goesOn_of_mem_through {writes : List Write} (all : ∀ write ∈ writes, GoesOn write)
    {place : List String} {write : Write} (member : write ∈ through lodash writes place) :
    GoesOn write := by
  induction place generalizing writes with
  | nil => exact all write member
  | cons key place induction => exact induction (fun other => goesOn_of_mem_goingOn) member

/-- Where no place gets an array, writes that go on leave an object. -/
theorem ObjectsOnly.settled {writes : List Write} (objectsOnly : ObjectsOnly lodash writes)
    {key : String} (onward : goingOn (entering lodash key writes) ≠ []) :
    settled lodash key writes = some (writeAll lodash (goingOn (entering lodash key writes))) := by
  obtain ⟨⟨path, value⟩, more, split⟩ := List.exists_cons_of_ne_nil onward
  obtain ⟨next, path, rfl⟩ := List.exists_cons_of_ne_nil
    (goesOn_of_mem_goingOn (split ▸ List.mem_cons_self) : GoesOn (path, value))
  exact (settled_of_goingOn lodash split).2
    (objectsOnly [key] next path value more (List.cons_ne_nil _ _) split)

end Written

/-! ## Writes at ordinary paths -/

section Separate

variable {lodash : Lodash} {writes : List Write}

@[simp]
theorem mem_stepInto {key : String} {path : List String} {value : Scalar} :
    (path, value) ∈ writes.filterMap (stepInto key) ↔ (key :: path, value) ∈ writes := by
  constructor
  · intro member
    obtain ⟨⟨whole, other⟩, listed, steps⟩ := List.mem_filterMap.mp member
    cases whole with
    | nil => cases steps
    | cons first rest =>
        rw [stepInto] at steps
        split at steps
        · rename_i same
          obtain ⟨rfl, rfl⟩ := Prod.mk.inj (Option.some.inj steps)
          exact same ▸ listed
        · cases steps
  · intro member
    exact List.mem_filterMap.mpr ⟨_, member, if_pos rfl⟩

theorem mem_of_mem_entering {key : String} {path : List String} {value : Scalar}
    (member : (path, value) ∈ entering lodash key writes) : (key :: path, value) ∈ writes := by
  rw [entering] at member
  split at member
  · exact absurd member List.not_mem_nil
  · split at member
    · exact mem_stepInto.mp ((List.dropWhile_sublist _).subset member)
    · exact mem_stepInto.mp member

theorem mem_of_mem_through {place path : List String} {value : Scalar}
    (member : (path, value) ∈ through lodash writes place) : (place ++ path, value) ∈ writes := by
  induction place generalizing writes with
  | nil => exact member
  | cons key place induction =>
      have here : (place ++ path, value) ∈ goingOn (entering lodash key writes) := induction member
      exact mem_of_mem_entering ((List.rtakeWhile_suffix _ _).subset here)

/-- Paths of ordinary names, none of which leads through another. -/
structure Separate (lodash : Lodash) (writes : List Write) : Prop where
  nonempty : ∀ write ∈ writes, GoesOn write
  ordinary : ∀ write ∈ writes, ∀ key ∈ write.1, Ordinary lodash key
  apart : writes.Pairwise fun earlier later => Apart earlier.1 later.1

theorem pairwise_stepInto (key : String)
    (apart : writes.Pairwise fun earlier later => Apart earlier.1 later.1) :
    (writes.filterMap (stepInto key)).Pairwise fun earlier later => Apart earlier.1 later.1 := by
  refine List.pairwise_filterMap.mpr (apart.imp ?_)
  rintro ⟨left, value⟩ ⟨right, other⟩ away ⟨leftRest, _⟩ leftSteps ⟨rightRest, _⟩ rightSteps
  have passes : ∀ {whole rest : List String} {first second : Scalar},
      stepInto key (whole, first) = some (rest, second) → whole = key :: rest := by
    intro whole rest first second steps
    cases whole with
    | nil => cases steps
    | cons head tail =>
        rw [stepInto] at steps
        split at steps
        · rename_i same
          obtain ⟨rfl, -⟩ := Prod.mk.inj (Option.some.inj steps)
          rw [same]
        · cases steps
  rw [passes leftSteps, passes rightSteps] at away
  exact away.of_cons

/-- Separate writes leave nothing at a property, or the one that ends there, or an object with those
that go on. -/
theorem Separate.settled (separate : Separate lodash writes) (key : String) :
    writes.filterMap (stepInto key) = [] ∧ settled lodash key writes = none ∨
      (∃ value, writes.filterMap (stepInto key) = [([], value)] ∧
          settled lodash key writes = some (.leaf value)) ∨
        writes.filterMap (stepInto key) ≠ [] ∧ Separate lodash (writes.filterMap (stepInto key)) ∧
          settled lodash key writes =
            some (writeAll lodash (writes.filterMap (stepInto key))) := by
  have apart := pairwise_stepInto key separate.apart
  have listed : ∀ {path value}, (path, value) ∈ writes.filterMap (stepInto key) →
      (key :: path, value) ∈ writes := fun member => mem_stepInto.mp member
  cases seen : writes.filterMap (stepInto key) with
  | nil =>
      refine Or.inl ⟨rfl, ?_⟩
      rw [Nested.settled, seen]
      exact ite_self _
  | cons write more =>
      obtain ⟨path, value⟩ := write
      have here : (key :: path, value) ∈ writes := listed (seen ▸ List.mem_cons_self)
      have ordinary := separate.ordinary _ here key List.mem_cons_self
      have matters : entering lodash key writes = (path, value) :: more := by
        rw [entering, if_neg ordinary.writable, ordinary.uninherited, ← seen]
        exact if_neg Bool.false_ne_true
      rw [seen] at apart
      obtain ⟨away, -⟩ := List.pairwise_cons.mp apart
      refine Or.inr ?_
      cases path with
      | nil =>
          -- a write that ends here would be led through by any other one
          have single : more = [] := by
            refine List.eq_nil_iff_forall_not_mem.mpr fun other member => ?_
            exact (away other member).1 List.nil_prefix
          subst single
          have ends : entering lodash key writes = [] ++ [([], value)] := matters
          exact Or.inl ⟨value, rfl, settled_of_end lodash ends⟩
      | cons next path =>
          have all : ∀ other ∈ (next :: path, value) :: more, GoesOn other := by
            refine List.forall_mem_cons.mpr ⟨List.cons_ne_nil _ _, fun other member ends => ?_⟩
            exact (away other member).2 (ends ▸ List.nil_prefix)
          have onward : goingOn (entering lodash key writes) = (next :: path, value) :: more := by
            rw [matters, goingOn_of_all all]
          have named : ¬ListIndex next :=
            (separate.ordinary _ here next (List.mem_cons_of_mem _ List.mem_cons_self)).named
          refine Or.inr ⟨List.cons_ne_nil _ _, ⟨all, fun other member segment inside => ?_, apart⟩, ?_⟩
          · exact separate.ordinary _ (listed (seen.symm ▸ member)) segment
              (List.mem_cons_of_mem _ inside)
          · rw [(settled_of_goingOn lodash onward).2 named, onward]

theorem Separate.objectsOnly (separate : Separate lodash writes) : ObjectsOnly lodash writes := by
  intro place next path value more _ split
  have member : (next :: path, value) ∈ through lodash writes place := split ▸ List.mem_cons_self
  exact (separate.ordinary _ (mem_of_mem_through member) next (by simp)).named

/-- No separate write throws, one after the other. -/
theorem Separate.objectTree (separate : Separate lodash writes) :
    ObjectTree (writeAll lodash writes) ∧
      ∀ before write after, writes = before ++ write :: after →
        writeError lodash (writeAll lodash before) write.1 write.2 = none := by
  have ordinary := separate.ordinary
  clear separate
  induction writes using List.reverseRecOn with
  | nil => exact ⟨.obj [] nofun, fun before write after split => by simp at split⟩
  | append_singleton writes write induction =>
      obtain ⟨tree, unthrown⟩ := induction fun other member =>
        ordinary other (List.mem_append_left _ member)
      obtain ⟨fields, same⟩ := exists_writeAll_eq lodash writes
      have last := ordinary write (List.mem_append_right _ (List.mem_singleton_self _))
      obtain ⟨kept, unthrownLast⟩ := ObjectTree.setPath (same ▸ tree) last write.2
      rw [writeAll_concat, same]
      refine ⟨kept, fun before other after split => ?_⟩
      rcases List.eq_nil_or_concat' after with rfl | ⟨rest, final, rfl⟩
      · obtain ⟨rfl, equal⟩ := List.append_inj' split rfl
        obtain rfl := List.singleton_inj.mp equal
        rw [same]
        exact unthrownLast
      · rw [← List.cons_append, ← List.append_assoc] at split
        obtain ⟨rfl, -⟩ := List.append_inj' split rfl
        exact unthrown before other rest rfl

end Separate

end Nested

/-! ## Trees with given leaves -/

namespace Value

/-- The path goes on behind the place. -/
def PassesThrough (path place : List String) : Prop :=
  ∃ next back, path = place ++ next :: back

/-- The tree has the written leaves, objects on the way to them, and nothing else. -/
structure Exact (writes : List Write) (tree : Value) : Prop where
  leaves : ∀ write ∈ writes, descend tree write.1 = some (.scalar write.2)
  nodes : ∀ path found, descend tree path = some found →
    (∃ write ∈ writes, path = write.1 ∧ found = .scalar write.2) ∨
      (path = [] ∨ ∃ write ∈ writes, PassesThrough write.1 path) ∧ ∃ fields, found = .obj fields

theorem Exact.object {writes : List Write} {tree : Value} (exact : Exact writes tree)
    {write : Write}
    (member : write ∈ writes) {place : List String} (passes : PassesThrough write.1 place) :
    ∃ fields, descend tree place = some (.obj fields) := by
  obtain ⟨next, back, split⟩ := passes
  have leaf := exact.leaves write member
  rw [split] at leaf
  exact object_of_descend_append leaf

theorem descend_writeAll (lodash : Lodash) (writes : List Write) (key : String)
    (path : List String) :
    descend (Nested.writeAll lodash writes).toValue (key :: path) =
      (Nested.settled lodash key writes).bind fun below => descend below.toValue path := by
  obtain ⟨fields, tree, -, looked⟩ := Nested.exists_writeAll lodash writes
  rw [tree, Nested.toValue, descend_obj_cons, Nested.lookup_toFields, looked, Option.bind_map]
  rfl

theorem exists_writeAll_toValue (lodash : Lodash) (writes : List Write) :
    ∃ fields, (Nested.writeAll lodash writes).toValue = .obj fields := by
  obtain ⟨fields, tree⟩ := Nested.exists_writeAll_eq lodash writes
  exact ⟨Nested.toFields fields, by rw [tree, Nested.toValue]⟩

/-- The object written is exact. -/
theorem exact_writeAll {lodash : Lodash} {writes : List Write}
    (separate : Nested.Separate lodash writes) :
    Exact writes (Nested.writeAll lodash writes).toValue where
  leaves := by
    rintro ⟨path, value⟩ member
    induction path generalizing writes with
    | nil => exact absurd rfl (separate.nonempty _ member)
    | cons key path induction =>
        have seen := Nested.mem_stepInto.mpr member
        rw [descend_writeAll]
        rcases separate.settled key with
          ⟨none, -⟩ | ⟨last, single, outcome⟩ | ⟨some, below, outcome⟩
        · rw [none] at seen
          exact absurd seen List.not_mem_nil
        · rw [single] at seen
          obtain ⟨rfl, rfl⟩ := Prod.mk.inj (List.mem_singleton.mp seen)
          rw [outcome]
          rfl
        · rw [outcome]
          exact induction below seen
  nodes := by
    intro path found reached
    induction path generalizing writes with
    | nil =>
        obtain ⟨fields, tree⟩ := exists_writeAll_toValue lodash writes
        refine Or.inr ⟨Or.inl rfl, fields, ?_⟩
        rw [← tree]
        exact (by simpa using reached.symm)
    | cons key path induction =>
        rw [descend_writeAll] at reached
        rcases separate.settled key with
          ⟨-, outcome⟩ | ⟨last, single, outcome⟩ | ⟨some, below, outcome⟩
        · rw [outcome] at reached
          cases reached
        · have member : (key :: [], last) ∈ writes :=
            Nested.mem_stepInto.mp (single ▸ List.mem_singleton_self _)
          rw [outcome] at reached
          cases path with
          | nil => exact Or.inl ⟨_, member, rfl, by simpa [Nested.toValue] using reached.symm⟩
          | cons next path => simp [Nested.toValue, descend] at reached
        · rw [outcome] at reached
          rcases induction below reached with
            ⟨⟨rest, value⟩, member, rfl, leaf⟩ | ⟨rfl | ⟨⟨rest, value⟩, member, passes⟩, object⟩
          · exact Or.inl ⟨_, Nested.mem_stepInto.mp member, rfl, leaf⟩
          · obtain ⟨⟨rest, value⟩, member⟩ := List.exists_mem_of_ne_nil _ some
            obtain ⟨next, back, rfl⟩ := List.exists_cons_of_ne_nil (below.nonempty _ member)
            exact Or.inr ⟨Or.inr ⟨_, Nested.mem_stepInto.mp member, next, back, rfl⟩, object⟩
          · obtain ⟨next, back, rfl⟩ := passes
            exact Or.inr ⟨Or.inr ⟨_, Nested.mem_stepInto.mp member, next, back, rfl⟩, object⟩

/-! ## The object as it is serialised -/

/-- No path leads to an array. -/
def ArrayFree (tree : Value) : Prop := ∀ path items, descend tree path ≠ some (.arr items)

section Serialised

variable {lodash : Lodash} {writes : List Write}

/-- The properties of the serialised object are those left that can be serialised. -/
theorem exists_writeAll_toJson (lodash : Lodash) (writes : List Write) :
    ∃ fields, (Nested.writeAll lodash writes).toValue.toJson = .obj fields ∧
      (∀ key below, Nested.settled lodash key writes = some below →
        ¬below.toValue.Unserialisable → fields.lookup key = some below.toValue.toJson) ∧
      ∀ key query, (key, query) ∈ fields →
        ∃ below, Nested.settled lodash key writes = some below ∧
          ¬below.toValue.Unserialisable ∧ query = below.toValue.toJson := by
  obtain ⟨properties, tree, ordered, looked⟩ := Nested.exists_writeAll lodash writes
  refine ⟨toJsonFields (Nested.toFields properties), ?_, fun key below left written => ?_, ?_⟩
  · rw [tree, Nested.toValue, toJson]
  · refine lookup_toJsonFields ?_ written
    rw [Nested.lookup_toFields, looked, left]
    rfl
  · intro key query member
    obtain ⟨value, listed, written, rfl⟩ := mem_toJsonFields.mp member
    rw [Nested.toFields_eq] at listed
    obtain ⟨⟨name, below⟩, belowMember, same⟩ := List.mem_map.mp listed
    obtain ⟨rfl, rfl⟩ := Prod.mk.inj same
    refine ⟨below, ?_, written, rfl⟩
    rw [← looked]
    exact (Record.lookup_eq_some_iff ⟨properties, ordered⟩ name below).mpr belowMember

/-- Where no place gets an array, an object stands serialised at every place that gets one. -/
theorem descend_toJson (objectsOnly : Nested.ObjectsOnly lodash writes) {place : List String}
    (left : Nested.Opened lodash writes place) :
    descend (Nested.writeAll lodash writes).toValue.toJson place =
      some (Nested.writeAll lodash (Nested.through lodash writes place)).toValue.toJson := by
  induction place generalizing writes with
  | nil => rw [descend_nil, Nested.through]
  | cons key place induction =>
      have onward := Or.resolve_left left (List.cons_ne_nil _ _)
      rw [Nested.through] at onward ⊢
      have some : Nested.goingOn (Nested.entering lodash key writes) ≠ [] := by
        intro nothing
        rw [nothing, Nested.through_empty] at onward
        exact onward rfl
      obtain ⟨fields, tree, looked, -⟩ := exists_writeAll_toJson lodash writes
      obtain ⟨properties, object⟩ := exists_writeAll_toValue lodash
        (Nested.goingOn (Nested.entering lodash key writes))
      have found := looked key _ (objectsOnly.settled some) (by rw [object]; exact not_false)
      rw [tree, descend_obj_cons, found, Option.bind_some]
      exact induction (objectsOnly.below key) (Or.inr onward)

/-- What stands serialised at a property of a place. -/
theorem exists_descend_toJson (objectsOnly : Nested.ObjectsOnly lodash writes)
    {place : List String} (left : Nested.Opened lodash writes place)
    {key : String} (entered : Nested.entering lodash key (Nested.through lodash writes place) ≠ []) :
    ∃ below, descend (Nested.writeAll lodash writes).toValue.toJson (place ++ [key]) = some below ∧
      ∀ front value,
        Nested.entering lodash key (Nested.through lodash writes place) = front ++ [([], value)] →
          below = .scalar value := by
  rcases Nested.entering_cases lodash key (Nested.through lodash writes place) with
    nothing | ⟨front, value, ends⟩ | ⟨next, path, value, more, onward⟩
  · exact absurd nothing entered
  · obtain ⟨fields, tree, looked, -⟩ :=
      exists_writeAll_toJson lodash (Nested.through lodash writes place)
    have found := looked key _ (Nested.settled_of_end lodash ends) not_false
    refine ⟨.scalar value, ?_, fun other last same => ?_⟩
    · rw [descend_append, descend_toJson objectsOnly left, Option.bind_some, tree, descend_obj_cons,
        found]
      rfl
    · obtain ⟨-, equal⟩ := List.append_inj' (ends.symm.trans same) rfl
      cases equal
      rfl
  · have further : Nested.through lodash writes (place ++ [key]) ≠ [] := by
      rw [Nested.through_append, Nested.through, onward]
      exact List.cons_ne_nil _ _
    refine ⟨_, descend_toJson objectsOnly (Or.inr further), fun front last ends => ?_⟩
    rw [ends, Nested.goingOn_concat_end] at onward
    cases onward

/-- A tree the object is contained in has an object wherever a container is left, and all that is left
in it. -/
theorem exists_object_of_containedIn (objectsOnly : Nested.ObjectsOnly lodash writes) {tree : Value}
    (contained : containedIn (Nested.writeAll lodash writes).toValue.toJson tree = true)
    {place : List String} (left : Nested.Opened lodash writes place) :
    ∃ fields, descend tree place = some (.obj fields) ∧
      ∀ key, Nested.entering lodash key (Nested.through lodash writes place) ≠ [] →
        (fields.lookup key).isSome := by
  obtain ⟨held, reached, inside⟩ :=
    descend_of_containedIn contained (descend_toJson objectsOnly left)
  obtain ⟨properties, object, -⟩ :=
    exists_writeAll_toJson lodash (Nested.through lodash writes place)
  rw [object] at inside
  obtain ⟨fields, rfl, -⟩ := (containedIn_obj_iff _ _).mp inside
  refine ⟨fields, reached, fun key entered => ?_⟩
  obtain ⟨below, belowReached, -⟩ := exists_descend_toJson objectsOnly left entered
  obtain ⟨found, foundReached, -⟩ := descend_of_containedIn contained belowReached
  rw [descend_append, reached, Option.bind_some, descend_obj_cons] at foundReached
  obtain ⟨_, looked, -⟩ := Option.bind_eq_some_iff.mp foundReached
  rw [looked]
  rfl

/-- No place gets an array where the object is contained in a tree without arrays. -/
theorem objectsOnly_of_containedIn {tree : Value} (free : ArrayFree tree)
    (contained : containedIn (Nested.writeAll lodash writes).toValue.toJson tree = true) :
    Nested.ObjectsOnly lodash writes := by
  intro place next path value more nonempty split
  induction place generalizing writes tree with
  | nil => exact absurd rfl nonempty
  | cons key place induction =>
      rw [Nested.through] at split
      obtain ⟨⟨whole, first⟩, others, onward⟩ := List.exists_cons_of_ne_nil
        (show Nested.goingOn (Nested.entering lodash key writes) ≠ [] from fun nothing => by
          rw [nothing, Nested.through_empty] at split
          cases split)
      obtain ⟨start, rest, rfl⟩ := List.exists_cons_of_ne_nil
        (Nested.goesOn_of_mem_goingOn (onward ▸ List.mem_cons_self) : Nested.GoesOn (whole, first))
      obtain ⟨fields, object, looked, -⟩ := exists_writeAll_toJson lodash writes
      rw [object] at contained
      obtain ⟨lists, objects⟩ := Nested.settled_of_goingOn lodash onward
      -- an array right here would lie in an array of the tree
      have named : ¬ListIndex start := by
        intro list
        obtain ⟨length, properties, left⟩ := lists list
        have found : descend (.obj fields) [key] =
            some (Nested.arr length properties).toValue.toJson := by
          rw [descend_obj_cons, looked key _ left not_false]
          rfl
        obtain ⟨held, reached, inside⟩ := descend_of_containedIn contained found
        obtain ⟨items, rfl, -⟩ := (containedIn_arr_iff _ _).mp inside
        exact free [key] items reached
      cases place with
      | nil =>
          rw [Nested.through, onward] at split
          obtain ⟨same, -⟩ := List.cons.inj split
          cases same
          exact named
      | cons second place =>
          obtain ⟨properties, belowObject⟩ := exists_writeAll_toValue lodash
            (Nested.goingOn (Nested.entering lodash key writes))
          have found : descend (.obj fields) [key] = some
              (Nested.writeAll lodash (Nested.goingOn (Nested.entering lodash key writes))).toValue.toJson := by
            rw [descend_obj_cons, looked key _ (objects named) (by rw [belowObject]; exact not_false)]
            rfl
          obtain ⟨below, reached, inside⟩ := descend_of_containedIn contained found
          refine induction (fun path items deeper => free (key :: path) items ?_) inside
            (List.cons_ne_nil _ _) split
          rw [← List.singleton_append, descend_append, reached]
          exact deeper

/-- The object is contained in a tree that has an object at every place that gets one, and every
primitive that is left. -/
theorem containedIn_writeAll (objectsOnly : Nested.ObjectsOnly lodash writes) {tree : Value}
    (objects : ∀ place, Nested.Opened lodash writes place →
      ∃ fields, descend tree place = some (.obj fields))
    (leaves : ∀ place key front value, Nested.Opened lodash writes place →
      Nested.entering lodash key (Nested.through lodash writes place) = front ++ [([], value)] →
        descend tree (place ++ [key]) = some (.scalar value)) :
    containedIn (Nested.writeAll lodash writes).toValue.toJson tree = true := by
  obtain ⟨bound, short⟩ : ∃ bound, ∀ write ∈ writes, write.1.length ≤ bound :=
    ⟨(writes.map fun write => write.1.length).sum,
      fun write member => List.le_sum_of_mem (List.mem_map_of_mem member)⟩
  induction bound using Nat.strong_induction_on generalizing writes tree with
  | _ bound induction =>
      obtain ⟨fields, written, -, listed⟩ := exists_writeAll_toJson lodash writes
      obtain ⟨data, root⟩ := objects [] (Or.inl rfl)
      obtain rfl : tree = .obj data := by simpa using root
      rw [written]
      refine (containedIn_obj_iff fields _).mpr ⟨data, rfl, fun key query member => ?_⟩
      obtain ⟨below, left, serialisable, rfl⟩ := listed key query member
      have looked : ∀ {found}, descend (.obj data) [key] = some found →
          data.lookup key = some found := by
        intro found reached
        simpa using reached
      rcases Nested.entering_cases lodash key writes with
        nothing | ⟨front, value, ends⟩ | ⟨next, path, value, more, onward⟩
      · rcases Nested.settled_of_nil lodash nothing with none | inherited
        · rw [none] at left
          cases left
        · obtain rfl := Option.some.inj (inherited.symm.trans left)
          exact absurd trivial serialisable
      · obtain rfl := Option.some.inj ((Nested.settled_of_end lodash ends).symm.trans left)
        exact ⟨.scalar value, looked (leaves [] key front value (Or.inl rfl) ends),
          (containedIn_scalar_iff value _).mpr rfl⟩
      · have some : Nested.goingOn (Nested.entering lodash key writes) ≠ [] := by
          rw [onward]
          exact List.cons_ne_nil _ _
        obtain rfl := Option.some.inj ((objectsOnly.settled some).symm.trans left)
        obtain ⟨inner, reached⟩ := objects [key] (Or.inr some)
        have deeper : ∀ path, descend (.obj data) (key :: path) = descend (.obj inner) path := by
          intro path
          rw [descend_obj_cons, looked reached]
          rfl
        have shorter : ∀ write ∈ Nested.goingOn (Nested.entering lodash key writes),
            write.1.length + 1 ≤ bound := fun write member =>
          short (key :: write.1, write.2)
            (Nested.mem_of_mem_entering ((List.rtakeWhile_suffix _ _).subset member))
        have longest := shorter (next :: path, value) (onward ▸ List.mem_cons_self)
        refine ⟨.obj inner, looked reached, induction (bound - 1) (by omega)
          (objectsOnly.below key) (fun place left => ?_) (fun place name front last left ends => ?_)
          fun write member => Nat.le_sub_one_of_lt (shorter write member)⟩
        · rw [← deeper]
          refine objects (key :: place) (Or.inr ?_)
          rcases left with rfl | left
          · exact some
          · exact left
        · rw [← deeper]
          refine leaves (key :: place) name front last (Or.inr ?_) ends
          rcases left with rfl | left
          · exact some
          · exact left

end Serialised

/-! ## Order of the writes -/

/-- A value with the contents of an object left out. -/
def outline : Value → Value
  | .obj _ => .obj []
  | value => value

/-- At every path both trees hold the same, where of an object it counts only that it is one: they
differ at most in the order of properties. -/
def SameUpToKeyOrder (left right : Value) : Prop :=
  ∀ path, (descend left path).map outline = (descend right path).map outline

theorem Exact.outline_eq {writes others : List Write} {left right : Value}
    (leftExact : Exact writes left) (rightExact : Exact others right)
    (subset : ∀ write ∈ writes, write ∈ others) (root : ∃ fields, right = .obj fields)
    {path : List String} {found : Value} (reached : descend left path = some found) :
    (descend right path).map outline = some (outline found) := by
  rcases leftExact.nodes path found reached with
    ⟨write, member, rfl, rfl⟩ | ⟨rfl | ⟨write, member, passes⟩, fields, rfl⟩
  · rw [rightExact.leaves write (subset write member)]
    rfl
  · obtain ⟨rootFields, rfl⟩ := root
    simp [outline]
  · obtain ⟨inner, object⟩ := rightExact.object (subset write member) passes
    rw [object]
    rfl

/-- Exact trees of the same leaves are the same up to key order. -/
theorem Exact.same {writes others : List Write} {left right : Value}
    (leftExact : Exact writes left) (rightExact : Exact others right)
    (permuted : writes.Perm others)
    (leftRoot : ∃ fields, left = .obj fields) (rightRoot : ∃ fields, right = .obj fields) :
    SameUpToKeyOrder left right := by
  intro path
  cases leftReached : descend left path with
  | some found =>
      exact (leftExact.outline_eq rightExact (fun write => permuted.mem_iff.mp) rightRoot
        leftReached).symm
  | none =>
      cases rightReached : descend right path with
      | none => rfl
      | some found =>
          have back := rightExact.outline_eq leftExact (fun write => permuted.mem_iff.mpr) leftRoot
            rightReached
          rw [leftReached] at back
          exact absurd back (by simp)

end Value
end Js
