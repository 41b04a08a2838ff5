import SubqlCosmos.Js.Writes

/-!
# Values put at paths

A value put at a path into an object through objects only, and the objects that hold given
primitives at paths none of which leads through another.
-/

namespace Js
namespace Value

/-- The properties of an object, none of anything else. -/
def objectFields : Option Value → List (String × Value)
  | some (.obj fields) => fields
  | _ => []

/-- The value put at a path into an object, through objects only: whatever else is on the way makes
room. -/
def graft (value : Value) : List (String × Value) → List String → Value
  | _, [] => value
  | fields, key :: path =>
      .obj (Record.putEntry key (graft value (objectFields (fields.lookup key)) path) fields)

section Graft

variable {value : Value} {fields : List (String × Value)}

theorem exists_graft {path : List String} (nonempty : path ≠ []) :
    ∃ grafted, graft value fields path = .obj grafted := by
  obtain ⟨key, rest, rfl⟩ := List.exists_cons_of_ne_nil nonempty
  exact ⟨_, rfl⟩

theorem descend_graft_cons (key : String) (path : List String) (first : String)
    (other : List String) :
    descend (graft value fields (key :: path)) (first :: other) =
      if first = key then descend (graft value (objectFields (fields.lookup key)) path) other
      else descend (.obj fields) (first :: other) := by
  rw [graft, descend_obj_cons, Record.lookup_putEntry]
  split <;> rfl

theorem descend_objectFields (found : Option Value) (key : String) (path : List String) :
    descend (.obj (objectFields found)) (key :: path) =
      found.bind fun below => descend below (key :: path) := by
  unfold objectFields
  split
  · rfl
  · rename_i other
    cases found with
    | none => rfl
    | some below =>
        cases below with
        | obj inner => exact absurd rfl (other inner)
        | undefined | scalar | long | bytes | arr | builtin => rfl

theorem descend_graft_self (value : Value) (fields : List (String × Value)) (path : List String) :
    descend (graft value fields path) path = some value := by
  induction path generalizing fields with
  | nil => rw [graft, descend_nil]
  | cons key path induction => rw [descend_graft_cons, if_pos rfl, induction]

theorem descend_graft_apart {path other : List String} (apart : Apart path other) :
    descend (graft value fields path) other = descend (.obj fields) other := by
  induction path generalizing fields other with
  | nil => exact absurd List.nil_prefix apart.1
  | cons key path induction =>
      cases other with
      | nil => exact absurd List.nil_prefix apart.2
      | cons first other =>
          rw [descend_graft_cons]
          by_cases same : first = key
          · subst same
            obtain ⟨second, rest, rfl⟩ := List.exists_cons_of_ne_nil
              (show other ≠ [] from fun ends => apart.of_cons.2 (ends ▸ List.nil_prefix))
            rw [if_pos rfl, induction apart.of_cons, descend_objectFields, descend_obj_cons]
          · rw [if_neg same]

/-- A primitive in the result is the grafted one, or was there before. -/
theorem scalar_of_descend_graft {leaf primitive : Scalar} {path other : List String}
    (reached : descend (graft (.scalar leaf) fields path) other = some (.scalar primitive)) :
    other = path ∧ primitive = leaf ∨ descend (.obj fields) other = some (.scalar primitive) := by
  induction path generalizing fields other with
  | nil =>
      cases other with
      | nil =>
          rw [graft, descend_nil] at reached
          cases reached
          exact Or.inl ⟨rfl, rfl⟩
      | cons first other => cases reached
  | cons key path induction =>
      cases other with
      | nil => rw [graft, descend_nil] at reached; cases reached
      | cons first other =>
          rw [descend_graft_cons] at reached
          split at reached
          · rename_i same
            subst same
            rcases induction reached with ⟨rfl, rfl⟩ | deeper
            · exact Or.inl ⟨rfl, rfl⟩
            · cases other with
              | nil => rw [descend_nil] at deeper; cases deeper
              | cons second other =>
                  rw [descend_objectFields] at deeper
                  exact Or.inr deeper
          · exact Or.inr reached

theorem ArrayFree.graft {leaf : Scalar} (free : ArrayFree (.obj fields)) (path : List String) :
    ArrayFree (graft (.scalar leaf) fields path) := by
  induction path generalizing fields with
  | nil =>
      intro other items reached
      cases other <;> cases reached
  | cons key path induction =>
      intro other items reached
      cases other with
      | nil => rw [Value.graft, descend_nil] at reached; cases reached
      | cons first other =>
          rw [descend_graft_cons] at reached
          split at reached
          · refine induction (fun deeper items found => ?_) other items reached
            cases deeper with
            | nil => rw [descend_nil] at found; cases found
            | cons second deeper =>
                rw [descend_objectFields] at found
                exact free (key :: second :: deeper) items found
          · exact free (first :: other) items reached

theorem JsonTree.objectFields (json : JsonTree (.obj fields)) (key : String) :
    JsonTree (.obj (objectFields (fields.lookup key))) := by
  unfold Value.objectFields
  split
  · exact ((jsonTree_obj fields).mp json).2 _ (mem_of_lookup ‹_›)
  · simp

/-- A JSON tree with another one put in, unless it is put where Longs have their flag. -/
theorem JsonTree.graft (json : JsonTree (.obj fields)) (valueJson : value.JsonTree)
    {path : List String}
    (unflagged : path.getLast? = some "__isLong__" → value ≠ .scalar (.bool true)) :
    (graft value fields path).JsonTree := by
  induction path generalizing fields with
  | nil => exact valueJson
  | cons key path induction =>
      obtain ⟨notLong, each⟩ := (jsonTree_obj fields).mp json
      refine (jsonTree_obj _).mpr ⟨?_, fun field member => ?_⟩
      · rw [Record.lookup_putEntry]
        split
        · rename_i flag
          intro same
          cases path with
          | nil => exact unflagged (congrArg some flag.symm) (Option.some.inj same)
          | cons next path => cases same
        · exact notLong
      · rcases Record.mem_putEntry member with rfl | old
        · refine induction (json.objectFields key) fun last => unflagged ?_
          cases path with
          | nil => cases last
          | cons next path => rwa [List.getLast?_cons_cons]
        · exact each field old

end Graft

/-- Primitives apart from each other are those of some JSON object without arrays. -/
theorem exists_object {writes : List Write} (nonempty : ∀ write ∈ writes, write.1 ≠ [])
    (apart : writes.Pairwise fun earlier later => Apart earlier.1 later.1)
    (notFlag : ∀ write ∈ writes, write.2 ≠ .bool true) :
    ∃ fields, (∀ path primitive, descend (.obj fields) path = some (.scalar primitive) ↔
        (path, primitive) ∈ writes) ∧
      ArrayFree (.obj fields) ∧ JsonTree (.obj fields) := by
  induction writes using List.reverseRecOn with
  | nil =>
      refine ⟨[], fun path primitive => ?_, fun path items => ?_, by simp⟩ <;> cases path <;> simp
  | append_singleton writes write induction =>
      obtain ⟨path, leaf⟩ := write
      obtain ⟨front, -, across⟩ := List.pairwise_append.mp apart
      have last : (path, leaf) ∈ writes ++ [(path, leaf)] :=
        List.mem_append_right _ (List.mem_singleton_self _)
      obtain ⟨fields, leaves, free, json⟩ := induction
        (fun earlier member => nonempty earlier (List.mem_append_left _ member)) front
        fun earlier member => notFlag earlier (List.mem_append_left _ member)
      obtain ⟨grafted, tree⟩ : ∃ grafted, graft (.scalar leaf) fields path = .obj grafted :=
        exists_graft (nonempty _ last)
      refine ⟨grafted, fun other primitive => ?_, tree ▸ free.graft path,
        tree ▸ json.graft (jsonTree_scalar leaf) fun _ same => ?_⟩
      · rw [← tree]
        constructor
        · intro reached
          rcases scalar_of_descend_graft reached with ⟨rfl, rfl⟩ | old
          · exact last
          · exact List.mem_append_left _ ((leaves other primitive).mp old)
        · intro member
          rcases List.mem_append.mp member with old | new
          · have away := across _ old _ (List.mem_singleton_self _)
            rw [descend_graft_apart ⟨away.2, away.1⟩]
            exact (leaves other primitive).mpr old
          · obtain ⟨rfl, rfl⟩ := Prod.mk.inj (List.mem_singleton.mp new)
            exact descend_graft_self _ _ _
      · exact notFlag _ last (Value.scalar.inj same)

/-! ## The shortest paths -/

/-- The writes whose paths no other one leads to. -/
def shortest (writes : List Write) : List Write :=
  writes.filter fun write => ∀ other ∈ writes, other.1 <+: write.1 → other.1 = write.1

theorem mem_shortest {writes : List Write} {write : Write} :
    write ∈ shortest writes ↔
      write ∈ writes ∧ ∀ other ∈ writes, other.1 <+: write.1 → other.1 = write.1 := by
  rw [shortest, List.mem_filter, decide_eq_true_iff]

theorem pairwise_shortest {writes : List Write}
    (distinct : writes.Pairwise fun earlier later => earlier.1 ≠ later.1) :
    (shortest writes).Pairwise fun earlier later => Apart earlier.1 later.1 := by
  refine (distinct.sublist List.filter_sublist).imp_of_mem fun first second different => ?_
  obtain ⟨firstMember, noneToFirst⟩ := mem_shortest.mp first
  obtain ⟨secondMember, noneToSecond⟩ := mem_shortest.mp second
  exact ⟨fun onward => different (noneToSecond _ firstMember onward),
    fun onward => different (noneToFirst _ secondMember onward).symm⟩

/-- Every path goes on from a shortest one. -/
theorem exists_shortest {writes : List Write} {write : Write} (member : write ∈ writes) :
    ∃ shorter ∈ shortest writes, shorter.1 <+: write.1 := by
  induction length : write.1.length using Nat.strong_induction_on generalizing write with
  | _ size induction =>
      by_cases alone : ∀ other ∈ writes, other.1 <+: write.1 → other.1 = write.1
      · exact ⟨write, mem_shortest.mpr ⟨member, alone⟩, List.prefix_rfl⟩
      · push Not at alone
        obtain ⟨other, otherMember, onward, different⟩ := alone
        have less : other.1.length < size := by
          rw [← length]
          refine lt_of_le_of_ne onward.length_le fun same => different (onward.eq_of_length same)
        obtain ⟨shorter, shorterMember, further⟩ := induction _ less otherMember rfl
        exact ⟨shorter, shorterMember, further.trans onward⟩

end Value
end Js
