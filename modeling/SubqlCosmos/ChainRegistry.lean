import SubqlCosmos.Codegen
import SubqlCosmos.Js.Protobuf

/-!
# Registering chain types

`processNetworkConfig` and `loadNetworkChainType` of `utils/project.ts`, and `getChainType` of
`indexer/api.service.ts`: which messages of the chain types of a manifest are registered.
-/

namespace SubqlCosmos

open Js

/-! ## Loading -/

/-- A `Map` from names, its entries in the order of insertion. -/
structure NameMap (α : Type) where
  entries : List (String × α)
  distinct : (entries.map Prod.fst).Nodup

/-- The network of a manifest, as far as it is read here. -/
structure Network where
  chainId : Option String
  genesisHash : Option String
  chaintypes : Option (NameMap CustomModule)

/-- `CosmosChainType`. -/
structure CosmosChainType (Root : Type) extends CustomModule where
  packageName : Option String
  proto : Root

/-- `CosmosProjectNetConfig`, its chain types with the property `protoRoot`. -/
structure CosmosProjectNetConfig (Root : Type) where
  chainId : Option String
  chaintypes : List (String × CosmosChainType Root)
  protoRoot : Option Root

/-- A text that is there and not empty. -/
def given (text : Option String) : Bool := text.any (· ≠ "")

section Loading

variable {Root GeneratedType : Type} (protobuf : Protobuf Root GeneratedType)
  (getFile : String → Except Error (Option String))

/-- `loadNetworkChainType`. -/
def loadNetworkChainType (file : String) : Except Error (Option String × Root) := do
  match (← getFile file).filter (· ≠ "") with
  | none => throw { name := "Error", message := "Unable to load chain type from " ++ file }
  | some proto => protobuf.parse proto

/-- The identification of a network: the genesis hash stands in for a missing chain id. -/
def chainIdOf (network : Network) : Option String :=
  if given network.genesisHash ∧ ¬given network.chainId then network.genesisHash else network.chainId

end Loading

/-! ## Registering -/

section Registering

variable {Root GeneratedType : Type} (protobuf : Protobuf Root GeneratedType)

/-- The name under which a message is looked up. -/
def messageName (userPackageName : String) (packageName : Option String) (msg : String) : String :=
  packageName.getD userPackageName ++ "." ++ msg

/-- The names of the messages of all chain types. -/
def messageNames (chaintypes : List (String × CosmosChainType Root)) : List String :=
  chaintypes.flatMap fun entry => entry.2.messages.map (messageName entry.1 entry.2.packageName)

/-- The lookup of one message. -/
def lookupMessage (protoRoot : Option Root) (name : String) : Except Error (String × GeneratedType) :=
  match protoRoot with
  | none =>
      .error
        { name := "TypeError"
          message := "Cannot read properties of undefined (reading 'lookupTypeOrEnum')" }
  | some root => do return ("/" ++ name, ← protobuf.lookupTypeOrEnum root (splitDots name))

/-- `ApiService.getChainType`. -/
def getChainType (network : CosmosProjectNetConfig Root) : Except Error (Record GeneratedType) :=
  (messageNames network.chaintypes).foldlM
    (fun res name => do return res.assign (← lookupMessage protobuf network.protoRoot name))
    Record.empty

variable {protobuf}

theorem getChainType_eq (network : CosmosProjectNetConfig Root) :
    getChainType protobuf network =
      ((messageNames network.chaintypes).mapM (lookupMessage protobuf network.protoRoot)).map
        fun items => items.foldl Record.assign Record.empty :=
  foldlM_eq_mapM _ _ _ _

/-- The lookups of all names decide whether the chain types are registered. -/
theorem exists_getChainType_iff (network : CosmosProjectNetConfig Root) {root : Root}
    (rooted : network.protoRoot = some root) :
    (∃ res, getChainType protobuf network = .ok res) ↔
      ∀ name ∈ messageNames network.chaintypes,
        ∃ type, protobuf.lookupTypeOrEnum root (splitDots name) = .ok type := by
  have each : ∀ name : String, (∃ item, lookupMessage protobuf network.protoRoot name = .ok item) ↔
      ∃ type, protobuf.lookupTypeOrEnum root (splitDots name) = .ok type := by
    intro name
    rw [rooted]
    simp only [lookupMessage, bind_eq_ok]
    constructor
    · rintro ⟨item, type, found, -⟩
      exact ⟨type, found⟩
    · rintro ⟨type, found⟩
      exact ⟨("/" ++ name, type), type, found, rfl⟩
  rw [getChainType_eq]
  constructor
  · rintro ⟨res, registered⟩ name listed
    obtain ⟨items, looked, -⟩ := map_eq_ok.mp registered
    exact (each name).mp (succeeds_of_mapM looked name listed)
  · intro found
    obtain ⟨items, looked⟩ := exists_mapM_ok fun name listed => (each name).mpr (found name listed)
    exact ⟨items.foldl Record.assign Record.empty, map_eq_ok.mpr ⟨items, looked, rfl⟩⟩

/-- Each name is registered with the type it is resolved to. -/
theorem lookup_of_getChainType {network : CosmosProjectNetConfig Root} {root : Root}
    {res : Record GeneratedType} (rooted : network.protoRoot = some root)
    (registered : getChainType protobuf network = .ok res) {name : String}
    (listed : name ∈ messageNames network.chaintypes) {type : GeneratedType}
    (found : protobuf.lookupTypeOrEnum root (splitDots name) = .ok type) :
    res.entries.lookup ("/" ++ name) = some type := by
  rw [getChainType_eq] at registered
  obtain ⟨items, looked, rfl⟩ := map_eq_ok.mp registered
  have item : lookupMessage protobuf network.protoRoot name = .ok ("/" ++ name, type) := by
    rw [rooted]
    exact bind_eq_ok.mpr ⟨type, found, rfl⟩
  obtain ⟨last, lastOf⟩ := Record.exists_lastOfName (mem_of_mapM looked listed item)
  -- whichever assignment of the name is the last, it is that of the same lookup
  obtain ⟨other, -, otherItem⟩ := exists_of_mem_mapM looked lastOf.mem
  rw [rooted] at otherItem
  obtain ⟨otherType, otherFound, same⟩ := bind_eq_ok.mp otherItem
  obtain ⟨sameUrl, rfl⟩ := Prod.mk.inj (Except.ok.inj same)
  obtain rfl : other = name := (String.append_right_inj _).mp sameUrl
  obtain rfl := Except.ok.inj (otherFound.symm.trans found)
  have named : "/" ++ other ≠ "__proto__" := by
    intro clash
    have heads := congrArg (fun text => text.toList.head?) clash
    simp at heads
  exact (Record.lookup_eq_some_iff _ _ _).mpr
    ((Record.mem_assignAll_iff items _).mpr ⟨named, lastOf⟩)

/-- Registering types one after the other in a registry. -/
def register (registry : String → Option GeneratedType) (types : List (String × GeneratedType)) :
    String → Option GeneratedType :=
  types.foldl (fun registry item => Function.update registry item.1 (some item.2)) registry

/-- `ApiService.buildRegistry`, given the types it starts from. -/
def buildRegistry (protobuf : Protobuf Root GeneratedType) (types : List (String × GeneratedType))
    (network : CosmosProjectNetConfig Root) : Except Error (String → Option GeneratedType) := do
  let chaintypes ← getChainType protobuf network
  return register (register (fun _ => none) types) chaintypes.entries

theorem register_of_not_mem (registry : String → Option GeneratedType)
    {types : List (String × GeneratedType)} {url : String} (absent : url ∉ types.map Prod.fst) :
    register registry types url = registry url := by
  induction types generalizing registry with
  | nil => rfl
  | cons item types induction =>
      obtain ⟨different, absent⟩ := not_or.mp (List.mem_cons.not.mp absent)
      refine (induction (Function.update registry item.1 (some item.2)) absent).trans ?_
      exact Function.update_of_ne different _ _

theorem register_of_mem (registry : String → Option GeneratedType)
    {types : List (String × GeneratedType)} (distinct : (types.map Prod.fst).Nodup)
    {url : String} {type : GeneratedType} (member : (url, type) ∈ types) :
    register registry types url = some type := by
  induction types generalizing registry with
  | nil => exact absurd member List.not_mem_nil
  | cons item types induction =>
      obtain ⟨fresh, distinct⟩ := List.nodup_cons.mp distinct
      rcases List.mem_cons.mp member with rfl | later
      · refine (register_of_not_mem (Function.update registry url (some type)) fresh).trans ?_
        exact Function.update_self _ _ _
      · exact induction (Function.update registry item.1 (some item.2)) distinct later

end Registering

/-! ## Which messages are registered with their own types -/

/-- The path of a package. -/
def packagePath (packageName : Option String) : List String := (packageName.map splitDots).getD []

section Declared

variable {Root GeneratedType : Type} {protobuf : Protobuf Root GeneratedType}
  {getFile : String → Except Error (Option String)}

/-- A chain type whose file loads and parses, and declares all the messages listed at its top
level. -/
structure DeclaredChainType (protobuf : Protobuf Root GeneratedType)
    (getFile : String → Except Error (Option String)) where
  key : String
  value : CustomModule
  packageName : Option String
  proto : Root
  loads : loadNetworkChainType protobuf getFile value.file = .ok (packageName, proto)
  declares : ∀ msg ∈ value.messages,
    (protobuf.declared proto (packagePath packageName ++ [msg])).isSome

/-- A network with one identification, whose chain types declare types of different names. -/
structure DeclaredNetwork (protobuf : Protobuf Root GeneratedType)
    (getFile : String → Except Error (Option String)) where
  chainId : Option String
  genesisHash : Option String
  oneId : ¬(given chainId ∧ given genesisHash)
  chaintypes : List (DeclaredChainType protobuf getFile)
  distinct : (chaintypes.map DeclaredChainType.key).Nodup
  separate : (chaintypes.map DeclaredChainType.proto).Pairwise protobuf.Separate

/-- The entry of the map. -/
def DeclaredChainType.entry (chaintype : DeclaredChainType protobuf getFile) : String × CustomModule :=
  (chaintype.key, chaintype.value)

/-- What is loaded of a chain type. -/
def DeclaredChainType.loaded (chaintype : DeclaredChainType protobuf getFile) :
    String × CosmosChainType Root :=
  (chaintype.key,
    { toCustomModule := chaintype.value
      packageName := chaintype.packageName
      proto := chaintype.proto })

/-- The network as it is given. -/
def DeclaredNetwork.network (declared : DeclaredNetwork protobuf getFile) : Network where
  chainId := declared.chainId
  genesisHash := declared.genesisHash
  chaintypes :=
    some
      { entries := declared.chaintypes.map DeclaredChainType.entry
        distinct := by
          rw [List.map_map]
          exact declared.distinct }

/-- The network as it is loaded, with the given root. -/
def DeclaredNetwork.config (declared : DeclaredNetwork protobuf getFile) (root : Root) :
    CosmosProjectNetConfig Root where
  chainId := chainIdOf declared.network
  chaintypes := declared.chaintypes.map DeclaredChainType.loaded
  protoRoot := some root

/-- The root the files are merged into. -/
def DeclaredNetwork.protoRoot (declared : DeclaredNetwork protobuf getFile) : Except Error Root :=
  protobuf.mergedRoot (declared.chaintypes.map DeclaredChainType.proto)

section Resolving

variable {root : Root} {type : GeneratedType}

end Resolving

end Declared

/-! ## A file without a package -/

/-- What the two texts declare. -/
def parseTwo (text : String) : Except Error (Option String × List (List String)) :=
  if text = "package a.bank; message Send {}" then .ok (some "a.bank", [["a", "bank", "Send"]])
  else if text = "message Note {}" then .ok (none, [["Note"]])
  else .error { name := "Error", message := "illegal token" }

end SubqlCosmos
