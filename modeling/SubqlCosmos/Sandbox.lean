import SubqlCosmos.Feed.Pool
import SubqlCosmos.Js.Lodash

/-!
# Sandboxes

The handlers of an entry file run in a sandbox of their own. It is made when a datasource with that file
is first indexed, and its globals are frozen anew each time it is given out
(`indexer/sandbox.service.ts`).
-/

namespace SubqlCosmos

open Feed Js

/-- The options of a sandbox. -/
structure SandboxOptions (Cache Store : Type) where
  cache : Cache
  store : Store
  root : String
  entry : String
  chainId : String

/-- What is frozen into a sandbox. -/
inductive Frozen (Api Registry Client : Type)
  | api (api : Api)
  | registry (registry : Registry)
  | unsafeApi (client : Client)
  | chainId (chainId : String)
deriving DecidableEq

/-- The virtual machine of a sandbox: how it is made of files that stay as they are, if it can be, and its
globals. -/
structure VirtualMachine (Options NodeConfig Global IndexerSandbox : Type) where
  create : Options → NodeConfig → Except Error IndexerSandbox
  freeze : Global → String → IndexerSandbox → IndexerSandbox
  global? : IndexerSandbox → String → Option Global

/-- Freezing a value sets the global it is frozen under, and no other. -/
def VirtualMachine.Freezes {Options NodeConfig Global IndexerSandbox : Type}
    (vm : VirtualMachine Options NodeConfig Global IndexerSandbox) : Prop :=
  ∀ value name sandbox other, vm.global? (vm.freeze value name sandbox) other =
    if other = name then some value else vm.global? sandbox other

section Service

variable (Cache Store Api Registry Client NodeConfig IndexerSandbox : Type)

/-- A call of `getDsProcessor`: the file of the datasource, the client of the block, and what the
services answer during the call. -/
structure ProcessorRequest where
  file : String
  api : Api
  cache : Cache
  store : Store
  hostStore : Store
  registry : Registry
  client : Client

/-- The parts of the service that stay as they are. -/
structure SandboxService where
  vm : VirtualMachine (SandboxOptions Cache Store) NodeConfig (Frozen Api Registry Client)
    IndexerSandbox
  nodeConfig : NodeConfig
  isUnsafe : Bool
  isMainThread : Bool
  root : String
  chainId : String

/-- The sandboxes made so far, and the values frozen outside of any. -/
structure SandboxState where
  processorCache : Pool String IndexerSandbox := {}
  frozen : List (Frozen Api Registry Client) := []

end Service

/-- What a caller is given: one of the sandboxes, or the constructor of objects. -/
inductive Processor
  | sandbox (place : Nat)
  | objectConstructor
deriving DecidableEq

variable {Cache Store Api Registry Client NodeConfig IndexerSandbox : Type}

namespace SandboxService

variable (service : SandboxService Cache Store Api Registry Client NodeConfig IndexerSandbox)
  (request : ProcessorRequest Cache Store Api Registry Client)

def getDataSourceEntry (request : ProcessorRequest Cache Store Api Registry Client) : String :=
  request.file

/-- The options a request makes a sandbox with. -/
def options : SandboxOptions Cache Store where
  cache := request.cache
  store := if service.isMainThread then request.store else request.hostStore
  root := service.root
  entry := getDataSourceEntry request
  chainId := service.chainId

/-- The values a request freezes, under their names and in their order. -/
def freezes : List (Frozen Api Registry Client × String) :=
  [(.api request.api, "api"), (.registry request.registry, "registry")] ++
    (if service.isUnsafe then [(.unsafeApi request.client, "unsafeApi")] else []) ++
      [(.chainId service.chainId, "chainId")]

/-- Sandboxes are made once for each entry, and filled on every request. -/
def pooling :
    Pooling (ProcessorRequest Cache Store Api Registry Client) String IndexerSandbox Error where
  key := getDataSourceEntry
  create request := service.vm.create (service.options request) service.nodeConfig
  refresh request processor :=
    (service.freezes request).foldl
      (fun sandbox frozen => service.vm.freeze frozen.1 frozen.2 sandbox) processor

/-- The cache is an object, so that the names of the members every object has are never missing in it.
Of these members only the constructor has a `freeze`, which is `Object.freeze`. -/
def getDsProcessor (state : SandboxState Api Registry Client IndexerSandbox) :
    Except Error (Processor × SandboxState Api Registry Client IndexerSandbox) :=
  let entry := getDataSourceEntry request
  if entry = "constructor" then
    .ok (.objectConstructor,
      { state with frozen := state.frozen ++ (service.freezes request).map Prod.fst })
  else if entry ∈ objectMembers then
    .error { name := "TypeError", message := "processor.freeze is not a function" }
  else do
    let (place, processorCache) ← service.pooling.use request state.processorCache
    return (.sandbox place, { state with processorCache := processorCache })

/-- The state after a request. -/
def next (state : SandboxState Api Registry Client IndexerSandbox)
    (request : ProcessorRequest Cache Store Api Registry Client) :
    SandboxState Api Registry Client IndexerSandbox :=
  match service.getDsProcessor request state with
  | .ok (_, state) => state
  | .error _ => state

/-- The state after requests to a new service. -/
def run (requests : List (ProcessorRequest Cache Store Api Registry Client)) :
    SandboxState Api Registry Client IndexerSandbox :=
  requests.foldl service.next {}

/-- The global of a sandbox that a request sets. -/
def global? (name : String) : Option (Frozen Api Registry Client) :=
  if name = "api" then some (.api request.api)
  else if name = "registry" then some (.registry request.registry)
  else if name = "unsafeApi" ∧ service.isUnsafe then some (.unsafeApi request.client)
  else if name = "chainId" then some (.chainId service.chainId)
  else none

section Globals

variable {service} {request}

theorem global?_refresh (freezes : service.vm.Freezes) (sandbox : IndexerSandbox) (name : String) :
    service.vm.global? (service.pooling.refresh request sandbox) name =
      (service.global? request name).or (service.vm.global? sandbox name) := by
  have given := fun value frozen other => freezes value frozen other name
  cases isUnsafe : service.isUnsafe with
  | false =>
      simp only [pooling, SandboxService.freezes, isUnsafe, Bool.false_eq_true, if_false,
        List.append_nil, List.cons_append, List.nil_append, List.foldl_cons, List.foldl_nil, given,
        global?, and_false]
      split_ifs <;> simp_all
  | true =>
      simp only [pooling, SandboxService.freezes, isUnsafe, if_true, List.cons_append,
        List.nil_append, List.foldl_cons, List.foldl_nil, given, global?, and_true]
      split_ifs <;> simp_all

theorem global?_eq_none {other : ProcessorRequest Cache Store Api Registry Client} {name : String}
    (unset : service.global? request name = none) : service.global? other name = none := by
  revert unset
  unfold global?
  split_ifs <;> simp

theorem global?_refreshed (freezes : service.vm.Freezes)
    (earlier : List (ProcessorRequest Cache Store Api Registry Client))
    (request : ProcessorRequest Cache Store Api Registry Client) (fresh : IndexerSandbox)
    (name : String) :
    service.vm.global? ((earlier ++ [request]).foldl
        (fun sandbox request => service.pooling.refresh request sandbox) fresh) name =
      (service.global? request name).or (service.vm.global? fresh name) := by
  induction earlier using List.reverseRecOn generalizing request with
  | nil => exact global?_refresh freezes fresh name
  | append_singleton earlier previous ih =>
      rw [List.foldl_append, List.foldl_cons, List.foldl_nil, global?_refresh freezes, ih]
      cases set : service.global? request name with
      | some value => rfl
      | none => rw [global?_eq_none set]; rfl

/-- The sandbox that requests make is that of the first one it can be made for, with the globals of the
last. -/
theorem made_concat_cases (freezes : service.vm.Freezes)
    (earlier : List (ProcessorRequest Cache Store Api Registry Client))
    (request : ProcessorRequest Cache Store Api Registry Client) :
    (∃ first fresh sandbox,
      (earlier ++ [request]).find? (fun request => service.pooling.Makes request) = some first ∧
      service.vm.create (service.options first) service.nodeConfig = .ok fresh ∧
      service.pooling.made (earlier ++ [request]) = some sandbox ∧
      ∀ name, service.vm.global? sandbox name =
        (service.global? request name).or (service.vm.global? fresh name)) ∨
    ∀ other ∈ earlier ++ [request], ¬service.pooling.Makes other := by
  cases found : (earlier ++ [request]).find? (fun request => service.pooling.Makes request) with
  | none => exact Or.inr fun other member => by simpa using List.find?_eq_none.mp found other member
  | some first =>
      obtain ⟨makes, before, later, split, fails⟩ := List.find?_eq_some_iff_append.mp found
      obtain ⟨fresh, creates⟩ := of_decide_eq_true makes
      have made : service.pooling.made (before ++ first :: later) = some ((first :: later).foldl
          (fun sandbox request => service.pooling.refresh request sandbox) fresh) :=
        service.pooling.made_of_first (fun other member => by simpa using fails other member) creates
      -- the last request refreshes the sandbox, be it the first or a later one
      obtain ⟨middle, ends⟩ : ∃ middle, first :: later = middle ++ [request] := by
        have last := congrArg List.getLast? split
        rw [List.getLast?_concat, List.getLast?_append_cons] at last
        exact List.getLast?_eq_some_iff.mp last.symm
      rw [← split, ends] at made
      exact Or.inl ⟨first, fresh, _, rfl, creates, made,
        global?_refreshed freezes middle request fresh⟩

end Globals

section Runs

variable {request} (requests : List (ProcessorRequest Cache Store Api Registry Client))

/-- A request for a file that is not named like a member of every object uses the cache. -/
theorem getDsProcessor_of_own (own : getDataSourceEntry request ∉ objectMembers)
    (state : SandboxState Api Registry Client IndexerSandbox) :
    service.getDsProcessor request state =
      (service.pooling.use request state.processorCache).map fun used =>
        (.sandbox used.1, { state with processorCache := used.2 }) := by
  have notConstructor : getDataSourceEntry request ≠ "constructor" := by
    intro named
    exact own (named ▸ by decide)
  rw [getDsProcessor, if_neg notConstructor, if_neg own]
  cases service.pooling.use request state.processorCache <;> rfl

theorem processorCache_next_of_own (own : getDataSourceEntry request ∉ objectMembers)
    (state : SandboxState Api Registry Client IndexerSandbox) :
    (service.next state request).processorCache =
      service.pooling.after state.processorCache request := by
  rw [next, getDsProcessor_of_own service own, Pooling.after]
  cases service.pooling.use request state.processorCache <;> rfl

/-- Any other request leaves the sandboxes as they are. -/
theorem processorCache_next_of_inherited (inherited : getDataSourceEntry request ∈ objectMembers)
    (state : SandboxState Api Registry Client IndexerSandbox) :
    (service.next state request).processorCache = state.processorCache := by
  rw [next, getDsProcessor]
  by_cases named : getDataSourceEntry request = "constructor"
  · rw [if_pos named]
  · rw [if_neg named, if_pos inherited]

/-- The requests that use the cache. -/
def cached : List (ProcessorRequest Cache Store Api Registry Client) :=
  requests.filter fun request => getDataSourceEntry request ∉ objectMembers

theorem cached_concat (own : getDataSourceEntry request ∉ objectMembers) :
    cached (requests ++ [request]) = cached requests ++ [request] := by
  rw [cached, List.filter_append, List.filter_cons_of_pos (by simpa using own), List.filter_nil]
  rfl

theorem filter_cached {entry : String} (own : entry ∉ objectMembers) :
    (cached requests).filter (fun earlier => getDataSourceEntry earlier = entry) =
      requests.filter fun earlier => getDataSourceEntry earlier = entry := by
  rw [cached, List.filter_filter]
  refine List.filter_congr fun earlier _ => ?_
  by_cases named : getDataSourceEntry earlier = entry <;> simp [named, own]

/-- The sandboxes after requests are those of a pool. -/
theorem processorCache_run :
    (service.run requests).processorCache = service.pooling.useAll (cached requests) := by
  induction requests using List.reverseRecOn with
  | nil => rfl
  | append_singleton requests request ih =>
      have last : service.run (requests ++ [request]) = service.next (service.run requests) request := by
        rw [run, List.foldl_append]
        rfl
      rw [last]
      by_cases inherited : getDataSourceEntry request ∈ objectMembers
      · rw [processorCache_next_of_inherited service inherited, ih, cached, cached, List.filter_append,
          List.filter_cons_of_neg (by simpa using inherited), List.filter_nil, List.append_nil]
      · rw [processorCache_next_of_own service inherited, ih, cached_concat requests inherited,
          Pooling.useAll_concat]

end Runs

/-- Whatever was requested before, a request for a file is given the sandbox of that file, made with the
options of the first request for it that one could be made for and with the globals of this one; it is the
one given out before; the sandboxes of other files are other ones, and stay as they are; and there is one
sandbox for each file that one could be made for. Where none could be made so far, the request fails and
leaves everything as it was. -/
theorem sandbox_given (freezes : service.vm.Freezes)
    (requests : List (ProcessorRequest Cache Store Api Registry Client))
    (own : getDataSourceEntry request ∉ objectMembers) :
    (∃ place state first fresh sandbox,
      service.getDsProcessor request (service.run requests) = .ok (.sandbox place, state) ∧
      (requests ++ [request]).find? (fun earlier =>
        getDataSourceEntry earlier = getDataSourceEntry request ∧ service.pooling.Makes earlier) =
          some first ∧
      service.vm.create (service.options first) service.nodeConfig = .ok fresh ∧
      state.processorCache.objects[place]? = some sandbox ∧
      (∀ earlier, (service.run requests).processorCache.place? (getDataSourceEntry request) =
        some earlier → earlier = place) ∧
      (∀ name, service.vm.global? sandbox name =
        (service.global? request name).or (service.vm.global? fresh name)) ∧
      (∀ entry ≠ getDataSourceEntry request, state.processorCache.place? entry ≠ some place ∧
        state.processorCache.object? entry = (service.run requests).processorCache.object? entry) ∧
      state.processorCache.objects.length =
        (((requests ++ [request]).filter fun earlier =>
          getDataSourceEntry earlier ∉ objectMembers ∧ service.pooling.Makes earlier).map
            getDataSourceEntry).toFinset.card) ∨
    ∃ error,
      (∀ earlier ∈ requests ++ [request], getDataSourceEntry earlier = getDataSourceEntry request →
        ∃ error, service.vm.create (service.options earlier) service.nodeConfig = .error error) ∧
      service.vm.create (service.options request) service.nodeConfig = .error error ∧
      service.getDsProcessor request (service.run requests) = .error error ∧
      service.run (requests ++ [request]) = service.run requests := by
  have pool := processorCache_run service requests
  rw [getDsProcessor_of_own service own, pool]
  have ofFile : (requests ++ [request]).filter
      (fun earlier => getDataSourceEntry earlier = getDataSourceEntry request) =
        requests.filter (fun earlier => getDataSourceEntry earlier = getDataSourceEntry request) ++
          [request] := service.pooling.filter_key_concat requests request
  rcases made_concat_cases freezes
      (requests.filter fun earlier => getDataSourceEntry earlier = getDataSourceEntry request)
        request with
    ⟨first, fresh, sandbox, found, creates, made, globals⟩ | none
  · rw [← filter_cached requests own] at made
    obtain ⟨place, used, outcome, object, same, others, counted⟩ :=
      service.pooling.use_useAll_of_made (cached requests) made
    refine Or.inl ⟨place, _, first, fresh, sandbox, congrArg (Except.map _) outcome, ?_, creates,
      object, same, globals, others, ?_⟩
    · rw [← ofFile, List.find?_filter] at found
      simpa using found
    · rw [← cached_concat requests own, cached, List.filter_filter] at counted
      have listed : (requests ++ [request]).filter (fun earlier =>
            decide (service.pooling.Makes earlier) &&
              decide (getDataSourceEntry earlier ∉ objectMembers)) =
          (requests ++ [request]).filter fun earlier =>
            getDataSourceEntry earlier ∉ objectMembers ∧ service.pooling.Makes earlier :=
        List.filter_congr fun _ _ => by rw [Bool.decide_and, Bool.and_comm]
      rw [listed] at counted
      exact counted
  · have unmade : ∀ earlier ∈ cached requests ++ [request],
        service.pooling.key earlier = service.pooling.key request →
          ¬service.pooling.Makes earlier := by
      intro earlier member named
      rw [← cached_concat requests own] at member
      exact none earlier (ofFile ▸ List.mem_filter.mpr
        ⟨List.mem_of_mem_filter member, decide_eq_true named⟩)
    obtain ⟨error, creates, fails⟩ :=
      service.pooling.use_useAll_of_not_makes (cached requests) unmade
    refine Or.inr ⟨error, fun earlier member named => ?_, creates, congrArg (Except.map _) fails, ?_⟩
    · exact (service.pooling.not_makes_iff).mp (none earlier
        (ofFile ▸ List.mem_filter.mpr ⟨member, decide_eq_true named⟩))
    · rw [run, List.foldl_append, List.foldl_cons, List.foldl_nil, ← run, next,
        getDsProcessor_of_own service own, pool, fails]
      rfl

/-- A machine whose sandboxes are their globals. -/
def listMachine : VirtualMachine (SandboxOptions Unit Unit) Unit (Frozen Nat Unit Unit)
    (String → Option (Frozen Nat Unit Unit)) where
  create options _ :=
    if options.entry = "" then .error { name := "Error", message := "No entry" } else .ok fun _ => none
  freeze value name sandbox := Function.update sandbox name (some value)
  global? sandbox name := sandbox name

/-- A service that is not unsafe, over this machine. -/
def listService :
    SandboxService Unit Unit Nat Unit Unit Unit (String → Option (Frozen Nat Unit Unit)) :=
  { vm := listMachine, nodeConfig := (), isUnsafe := false, isMainThread := true
    root := "/project", chainId := "juno-1" }

/-- The request for a file at a height. -/
def requestAt (file : String) (height : Nat) : ProcessorRequest Unit Unit Nat Unit Unit :=
  { file, api := height, cache := (), store := (), hostStore := (), registry := (), client := () }

theorem sandbox_given_again : ∃ place state sandbox,
    listService.getDsProcessor (requestAt "./dist/index.js" 8)
      (listService.run [requestAt "./dist/index.js" 7, requestAt "constructor" 7]) =
        .ok (.sandbox place, state) ∧
    state.processorCache.objects[place]? = some sandbox ∧
    listService.vm.global? sandbox "api" = some (.api 8) ∧
    listService.vm.global? sandbox "unsafeApi" = none := by
  have freezes : listService.vm.Freezes := fun value name sandbox other =>
    Function.update_apply sandbox name (some value) other
  rcases sandbox_given listService (requestAt "./dist/index.js" 8) freezes
      [requestAt "./dist/index.js" 7, requestAt "constructor" 7] (by decide) with
    ⟨place, state, first, fresh, sandbox, given, -, creates, object, -, globals, -⟩ |
      ⟨error, -, fails, -⟩
  · have bare : fresh = fun _ => none := by
      change (if _ then _ else _) = Except.ok fresh at creates
      split at creates
      · cases creates
      · exact (Except.ok.inj creates).symm
    exact ⟨place, state, sandbox, given, object, (globals "api").trans rfl,
      (globals "unsafeApi").trans (bare ▸ rfl)⟩
  · cases fails

end SandboxService

end SubqlCosmos
