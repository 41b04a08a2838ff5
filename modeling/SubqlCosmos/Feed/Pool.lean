import Mathlib

/-!
# Objects made on first use

A pool makes an object for every key it is asked for, the first time it is asked and can, and gives out
the same object from then on. Every use refreshes the object it gives out.
-/

namespace Feed

/-- The objects made so far, and where those of the keys are. -/
structure Pool (Key Object : Type) where
  places : List (Key × Nat) := []
  objects : List Object := []

/-- What a pool does for a request. -/
structure Pooling (Request Key Object Failure : Type) where
  key : Request → Key
  create : Request → Except Failure Object
  refresh : Request → Object → Object

variable {Request Key Object Failure : Type}

namespace Pool

/-- The places are those of the objects, one for each key. -/
structure Tidy (pool : Pool Key Object) : Prop where
  placed : pool.places.map Prod.snd = List.range pool.objects.length
  distinct : (pool.places.map Prod.fst).Nodup

namespace Tidy

theorem empty : ({} : Pool Key Object).Tidy := ⟨rfl, List.nodup_nil⟩

theorem length_objects {pool : Pool Key Object} (tidy : pool.Tidy) :
    (pool.places.map Prod.fst).length = pool.objects.length := by
  have places := congrArg List.length tidy.placed
  simpa using places

end Tidy
end Pool

namespace Pooling

variable (pooling : Pooling Request Key Object Failure)

/-- An object can be made for the request. -/
def Makes (request : Request) : Prop := ∃ object, pooling.create request = .ok object

instance : DecidablePred pooling.Makes := fun request =>
  match creates : pooling.create request with
  | .ok object => .isTrue ⟨object, creates⟩
  | .error _ => .isFalse fun ⟨_, same⟩ => nomatch creates.symm.trans same

theorem not_makes_iff {request : Request} :
    ¬pooling.Makes request ↔ ∃ failure, pooling.create request = .error failure := by
  rw [Makes]
  cases pooling.create request <;> simp

/-- An object that is made when there is none and one can be made, and refreshed. -/
def renew (object? : Option Object) (request : Request) : Option Object :=
  (object?.or (pooling.create request).toOption).map (pooling.refresh request)

/-- What becomes of an object through the requests for it. -/
def made (requests : List Request) : Option Object :=
  requests.foldl pooling.renew none

theorem made_concat (requests : List Request) (request : Request) :
    pooling.made (requests ++ [request]) = pooling.renew (pooling.made requests) request := by
  rw [made, List.foldl_append]
  rfl

theorem made_isSome (requests : List Request) :
    (pooling.made requests).isSome ↔ ∃ request ∈ requests, pooling.Makes request := by
  induction requests using List.reverseRecOn with
  | nil => simp [made]
  | append_singleton requests request ih =>
      have now : (pooling.create request).toOption.isSome ↔ pooling.Makes request := by
        rw [Makes]
        cases pooling.create request <;> simp [Except.toOption]
      rw [made_concat, renew, Option.isSome_map, Option.isSome_or, Bool.or_eq_true, ih, now]
      simp [or_and_right, exists_or]

/-- The first request that an object can be made for makes it, and all from there on refresh it. -/
theorem made_of_first {before later : List Request} {first : Request} {object : Object}
    (fails : ∀ request ∈ before, ¬pooling.Makes request)
    (creates : pooling.create first = .ok object) :
    pooling.made (before ++ first :: later) =
      some ((first :: later).foldl (fun object request => pooling.refresh request object) object) := by
  have nothing : pooling.made before = none := by
    rw [← Option.not_isSome_iff_eq_none, made_isSome]
    rintro ⟨request, member, makes⟩
    exact fails request member makes
  induction later using List.reverseRecOn with
  | nil => rw [made_concat, nothing, renew, creates]; rfl
  | append_singleton later request ih =>
      rw [← List.cons_append, ← List.append_assoc, made_concat, ih, List.foldl_append]
      rfl

end Pooling

variable [DecidableEq Key]

namespace Pool

/-- Where the object of a key is. -/
def place? (pool : Pool Key Object) (key : Key) : Option Nat :=
  pool.places.lookup key

/-- The object of a key. -/
def object? (pool : Pool Key Object) (key : Key) : Option Object :=
  (pool.place? key).bind fun place => pool.objects[place]?

end Pool

namespace Pooling

variable (pooling : Pooling Request Key Object Failure)

/-- The place of the object given out for a request, and the pool afterwards. -/
def use (request : Request) (pool : Pool Key Object) : Except Failure (Nat × Pool Key Object) :=
  match pool.place? (pooling.key request) with
  | some place =>
      .ok (place, { pool with objects := pool.objects.modify place (pooling.refresh request) })
  | none => do
      let object ← pooling.create request
      return (pool.objects.length,
        { places := pool.places ++ [(pooling.key request, pool.objects.length)]
          objects := pool.objects ++ [pooling.refresh request object] })

/-- The pool after a request, the same when no object can be given out. -/
def after (pool : Pool Key Object) (request : Request) : Pool Key Object :=
  match pooling.use request pool with
  | .ok (_, used) => used
  | .error _ => pool

/-- The pool after requests, from the first one on. -/
def useAll (requests : List Request) : Pool Key Object :=
  requests.foldl pooling.after {}

end Pooling

namespace Pool

variable {pool : Pool Key Object} {key other : Key} {place : Nat}

theorem mem_of_place? (found : pool.place? key = some place) : (key, place) ∈ pool.places := by
  obtain ⟨front, back, split, -⟩ := List.lookup_eq_some_iff.mp found
  rw [split]
  exact List.mem_append_right _ List.mem_cons_self

theorem place?_eq_none : pool.place? key = none ↔ key ∉ pool.places.map Prod.fst := by
  rw [place?, List.lookup_eq_none_iff]
  constructor
  · rintro absent listed
    obtain ⟨entry, member, rfl⟩ := List.mem_map.mp listed
    simpa using absent entry member
  · intro absent entry member
    have named := List.mem_map_of_mem (f := Prod.fst) member
    have different : key ≠ entry.1 := fun same => absent (same ▸ named)
    simpa using different

theorem place?_isSome : (pool.place? key).isSome ↔ key ∈ pool.places.map Prod.fst := by
  rw [Option.isSome_iff_ne_none, ne_eq, place?_eq_none, not_not]

namespace Tidy

theorem lt_of_place? (tidy : pool.Tidy) (found : pool.place? key = some place) :
    place < pool.objects.length := by
  have listed : place ∈ pool.places.map Prod.snd := List.mem_map_of_mem (mem_of_place? found)
  rw [tidy.placed] at listed
  exact List.mem_range.mp listed

theorem key_eq (tidy : pool.Tidy) (found : pool.place? key = some place)
    (same : pool.place? other = some place) : key = other := by
  have once : (pool.places.map Prod.snd).Nodup := tidy.placed ▸ List.nodup_range
  have entries := List.inj_on_of_nodup_map once (mem_of_place? found) (mem_of_place? same) rfl
  exact congrArg Prod.fst entries

theorem object?_isSome (tidy : pool.Tidy) (key : Key) :
    (pool.object? key).isSome ↔ key ∈ pool.places.map Prod.fst := by
  rw [← place?_isSome, object?]
  cases found : pool.place? key with
  | none => rfl
  | some place => simp [tidy.lt_of_place? found]

end Tidy
end Pool

namespace Pooling

variable {pooling : Pooling Request Key Object Failure} {pool used : Pool Key Object}
  {request : Request} {place : Nat} {key : Key}

/-- A use refreshes the object that is there, or makes one; or it fails. -/
theorem use_cases (pooling : Pooling Request Key Object Failure) (request : Request)
    (pool : Pool Key Object) :
    (∃ place, pool.place? (pooling.key request) = some place ∧
      pooling.use request pool =
        .ok (place, { pool with objects := pool.objects.modify place (pooling.refresh request) })) ∨
    pool.place? (pooling.key request) = none ∧
      ((∃ object, pooling.create request = .ok object ∧
        pooling.use request pool =
          .ok (pool.objects.length,
            { places := pool.places ++ [(pooling.key request, pool.objects.length)]
              objects := pool.objects ++ [pooling.refresh request object] })) ∨
      ∃ failure, pooling.create request = .error failure ∧
        pooling.use request pool = .error failure) := by
  rw [use]
  cases pool.place? (pooling.key request) with
  | some place => exact Or.inl ⟨place, rfl, rfl⟩
  | none =>
      refine Or.inr ⟨rfl, ?_⟩
      cases pooling.create request with
      | ok object => exact Or.inl ⟨object, rfl, rfl⟩
      | error failure => exact Or.inr ⟨failure, rfl, rfl⟩

theorem after_of_ok (given : pooling.use request pool = .ok (place, used)) :
    pooling.after pool request = used := by
  rw [after, given]

theorem after_of_error {failure : Failure} (fails : pooling.use request pool = .error failure) :
    pooling.after pool request = pool := by
  rw [after, fails]

theorem tidy_after (tidy : pool.Tidy) : (pooling.after pool request).Tidy := by
  rcases use_cases pooling request pool with
    ⟨place, found, given⟩ | ⟨missing, ⟨object, -, given⟩ | ⟨failure, -, fails⟩⟩
  · rw [after_of_ok given]
    exact ⟨by simpa using tidy.placed, tidy.distinct⟩
  · rw [after_of_ok given]
    refine ⟨by simp [tidy.placed, List.range_succ], ?_⟩
    rw [List.map_append, List.map_singleton, ← List.concat_eq_append]
    exact tidy.distinct.concat (Pool.place?_eq_none.mp missing)
  · rwa [after_of_error fails]

theorem place?_concat (missing : pool.place? key = none) (objects : List Object) (place : Nat) :
    Pool.place? { places := pool.places ++ [(key, place)], objects := objects } key = some place := by
  rw [Pool.place?, List.lookup_append, show pool.places.lookup key = none from missing]
  simp

theorem place?_of_use (given : pooling.use request pool = .ok (place, used)) :
    used.place? (pooling.key request) = some place := by
  rcases use_cases pooling request pool with
    ⟨own, found, same⟩ | ⟨missing, ⟨object, -, same⟩ | ⟨failure, -, fails⟩⟩
  · obtain ⟨rfl, rfl⟩ := Prod.mk.inj (Except.ok.inj (same.symm.trans given))
    exact found
  · obtain ⟨rfl, rfl⟩ := Prod.mk.inj (Except.ok.inj (same.symm.trans given))
    exact place?_concat missing _ _
  · rw [fails] at given
    cases given

theorem place?_after_of_some (found : pool.place? key = some place) :
    (pooling.after pool request).place? key = some place := by
  rcases use_cases pooling request pool with
    ⟨own, -, given⟩ | ⟨-, ⟨object, -, given⟩ | ⟨failure, -, fails⟩⟩
  · rw [after_of_ok given]
    exact found
  · rw [after_of_ok given, Pool.place?, List.lookup_append]
    rw [show pool.places.lookup key = some place from found]
    rfl
  · rwa [after_of_error fails]

theorem place?_after_of_ne (different : key ≠ pooling.key request) :
    (pooling.after pool request).place? key = pool.place? key := by
  rcases use_cases pooling request pool with
    ⟨own, -, given⟩ | ⟨-, ⟨object, -, given⟩ | ⟨failure, -, fails⟩⟩
  · rw [after_of_ok given]
    rfl
  · have elsewhere : (key == pooling.key request) = false := beq_false_of_ne different
    rw [after_of_ok given, Pool.place?, List.lookup_append, List.lookup_cons, elsewhere]
    exact Option.or_none
  · rw [after_of_error fails]

theorem object?_after (tidy : pool.Tidy) :
    (pooling.after pool request).object? (pooling.key request) =
      pooling.renew (pool.object? (pooling.key request)) request := by
  rcases use_cases pooling request pool with
    ⟨place, found, given⟩ | ⟨missing, ⟨object, creates, given⟩ | ⟨failure, creates, fails⟩⟩
  · have held := List.getElem?_eq_getElem (tidy.lt_of_place? found)
    rw [after_of_ok given, Pool.object?, place?_of_use given, Option.bind_some, Pool.object?, found,
      Option.bind_some, held]
    simp only [List.getElem?_modify_eq, held, Option.map_eq_map, Option.map_some, renew,
      Option.some_or]
  · rw [after_of_ok given, Pool.object?, place?_of_use given, Pool.object?, missing, renew, creates]
    simp [Except.toOption]
  · rw [after_of_error fails, Pool.object?, missing, renew, creates]
    rfl

/-- The object of another key stays as it is. -/
theorem object?_after_of_ne (tidy : pool.Tidy) (different : key ≠ pooling.key request) :
    (pooling.after pool request).object? key = pool.object? key := by
  rw [Pool.object?, place?_after_of_ne different, Pool.object?]
  cases other : pool.place? key with
  | none => rfl
  | some place =>
      rw [Option.bind_some, Option.bind_some]
      rcases use_cases pooling request pool with
        ⟨own, found, given⟩ | ⟨-, ⟨object, -, given⟩ | ⟨failure, -, fails⟩⟩
      · have apart : own ≠ place := by
          rintro rfl
          exact different (tidy.key_eq other found)
        rw [after_of_ok given]
        exact List.getElem?_modify_ne _ _ apart
      · rw [after_of_ok given]
        exact List.getElem?_append_left (tidy.lt_of_place? other)
      · rw [after_of_error fails]

section Runs

variable (pooling) (requests : List Request)

theorem useAll_concat (request : Request) :
    pooling.useAll (requests ++ [request]) = pooling.after (pooling.useAll requests) request := by
  rw [useAll, List.foldl_append]
  rfl

theorem tidy_useAll : (pooling.useAll requests).Tidy := by
  induction requests using List.reverseRecOn with
  | nil => exact Pool.Tidy.empty
  | append_singleton requests request ih =>
      rw [useAll_concat]
      exact tidy_after ih

/-- The object of a key is what the requests for that key make of it. -/
theorem object?_useAll (key : Key) :
    (pooling.useAll requests).object? key =
      pooling.made (requests.filter fun request => pooling.key request = key) := by
  induction requests using List.reverseRecOn with
  | nil => rfl
  | append_singleton requests request ih =>
      have tidy := tidy_useAll pooling requests
      rw [useAll_concat, List.filter_append]
      by_cases own : pooling.key request = key
      · subst own
        rw [object?_after tidy, ih, List.filter_cons_of_pos (by simp), List.filter_nil, made_concat]
      · rw [object?_after_of_ne tidy (Ne.symm own), ih, List.filter_cons_of_neg (by simpa using own),
          List.filter_nil, List.append_nil]

theorem mem_keys_useAll (key : Key) :
    key ∈ (pooling.useAll requests).places.map Prod.fst ↔
      ∃ request ∈ requests, pooling.key request = key ∧ pooling.Makes request := by
  rw [← (tidy_useAll pooling requests).object?_isSome, object?_useAll, made_isSome]
  simp [and_assoc]

/-- One object is made for every key with a request that one can be made for. -/
theorem length_objects_useAll :
    (pooling.useAll requests).objects.length =
      ((requests.filter fun request => pooling.Makes request).map pooling.key).toFinset.card := by
  have tidy := tidy_useAll pooling requests
  rw [← tidy.length_objects, ← List.toFinset_card_of_nodup tidy.distinct]
  congr 1
  ext key
  rw [List.mem_toFinset, mem_keys_useAll, List.mem_toFinset, List.mem_map]
  simp only [List.mem_filter, decide_eq_true_iff]
  exact exists_congr fun request => by rw [and_assoc, and_comm (a := pooling.key request = key)]

theorem filter_key_concat (request : Request) :
    (requests ++ [request]).filter (fun earlier => pooling.key earlier = pooling.key request) =
      requests.filter (fun earlier => pooling.key earlier = pooling.key request) ++ [request] := by
  rw [List.filter_append, List.filter_cons_of_pos (by simp), List.filter_nil]

/-- A use after requests gives out what they and it make: the object given out before, if any, and no
object of another key, all of which stay as they are. -/
theorem use_useAll_of_made {object : Object}
    (made : pooling.made
      (requests.filter (fun earlier => pooling.key earlier = pooling.key request) ++ [request]) =
        some object) :
    ∃ place used, pooling.use request (pooling.useAll requests) = .ok (place, used) ∧
      used.objects[place]? = some object ∧
      (∀ earlier, (pooling.useAll requests).place? (pooling.key request) = some earlier →
        earlier = place) ∧
      (∀ key ≠ pooling.key request, used.place? key ≠ some place ∧
        used.object? key = (pooling.useAll requests).object? key) ∧
      used.objects.length =
        (((requests ++ [request]).filter fun request => pooling.Makes request).map
          pooling.key).toFinset.card := by
  have tidy := pooling.tidy_useAll requests
  have given := pooling.object?_useAll (requests ++ [request]) (pooling.key request)
  have counted := pooling.length_objects_useAll (requests ++ [request])
  have kept : ∀ earlier, (pooling.useAll requests).place? (pooling.key request) = some earlier →
      (pooling.after (pooling.useAll requests) request).place? (pooling.key request) =
        some earlier := fun _ => place?_after_of_some
  have still : ∀ key ≠ pooling.key request,
      (pooling.after (pooling.useAll requests) request).object? key =
        (pooling.useAll requests).object? key := fun _ => object?_after_of_ne tidy
  have tidyAfter : (pooling.after (pooling.useAll requests) request).Tidy := tidy_after tidy
  rw [filter_key_concat, made, useAll_concat] at given
  rw [useAll_concat] at counted
  rcases outcome : pooling.use request (pooling.useAll requests) with failure | ⟨place, used⟩
  · -- a key with an object has a place, so that its use does not fail
    rcases use_cases pooling request (pooling.useAll requests) with
      ⟨place, -, same⟩ | ⟨missing, -⟩
    · cases outcome.symm.trans same
    · rw [after_of_error outcome, Pool.object?, missing] at given
      cases given
  · have placed := place?_of_use outcome
    rw [after_of_ok outcome] at given counted kept still tidyAfter
    rw [Pool.object?, placed, Option.bind_some] at given
    refine ⟨place, used, rfl, given, fun earlier before => ?_, fun key different => ?_, counted⟩
    · exact Option.some.inj ((kept earlier before).symm.trans placed)
    · exact ⟨fun shared => different (tidyAfter.key_eq shared placed), still key different⟩

/-- A use fails where no request for its key could make an object. -/
theorem use_useAll_of_not_makes
    (none : ∀ earlier ∈ requests ++ [request], pooling.key earlier = pooling.key request →
      ¬pooling.Makes earlier) :
    ∃ failure, pooling.create request = .error failure ∧
      pooling.use request (pooling.useAll requests) = .error failure := by
  have unmade := none request (List.mem_append_right _ (List.mem_singleton_self _)) rfl
  rcases use_cases pooling request (pooling.useAll requests) with
    ⟨place, found, -⟩ | ⟨-, ⟨object, creates, -⟩ | failed⟩
  · obtain ⟨earlier, member, named, makes⟩ := (pooling.mem_keys_useAll requests _).mp
      (Pool.place?_isSome.mp (Option.isSome_iff_exists.mpr ⟨place, found⟩))
    exact absurd makes (none earlier (List.mem_append_left _ member) named)
  · exact absurd ⟨object, creates⟩ unmade
  · exact failed

end Runs
end Pooling

end Feed
