import SubqlCosmos.Js.Value

/-!
# Protobuf roots

The parsing of protobuf files into roots, the merging of roots and the search for a type by its
dotted name, as a library offers them, with the laws that are relied on.
-/

namespace Js

/-- The operations on roots, and what can be said of a root. -/
structure Protobuf (Root GeneratedType : Type) where
  /-- `parse(text)`: the declared package, if there is one, and the root. -/
  parse : String → Except Error (Option String × Root)
  /-- `new Root()`. -/
  emptyRoot : Root
  /-- `root.add(other)`. -/
  add : Root → Root → Except Error Root
  /-- `root.lookupTypeOrEnum(name)`, given the parts of the name between its dots. -/
  lookupTypeOrEnum : Root → List String → Except Error GeneratedType
  /-- The type at a path from the root. -/
  declared : Root → List String → Option GeneratedType
  /-- The path at which a type stands. -/
  pathOf : GeneratedType → List String
  /-- A search for the path finds a namespace. -/
  contains : Root → List String → Bool

namespace Protobuf

variable {Root GeneratedType : Type} (protobuf : Protobuf Root GeneratedType)

/-- No name of a type in one root is a name of a type or a namespace in the other. -/
def Separate (left right : Root) : Prop :=
  ∀ path other type otherType, protobuf.declared left path = some type →
    protobuf.declared right other = some otherType → ¬path <+: other ∧ ¬other <+: path

/-- The root all the given roots are merged into. -/
def mergedRoot (roots : List Root) : Except Error Root :=
  roots.foldlM protobuf.add protobuf.emptyRoot

namespace Laws

variable {protobuf}

end Laws

/-! ## Roots as lists of paths -/

/-- The path can be one of a type. -/
def IsTypePath (path : List String) : Prop := ∀ part ∈ path, part ≠ "" ∧ '.' ∉ part.toList

instance (path : List String) : Decidable (IsTypePath path) :=
  inferInstanceAs (Decidable (∀ part ∈ path, _ ∧ _))

/-- Roots that are the lists of the paths of their types, in which no search descends. -/
def ofPaths (parse : String → Except Error (Option String × List (List String))) :
    Protobuf (List (List String)) (List String) where
  parse := parse
  emptyRoot := []
  add := fun left right => .ok (left ++ right)
  lookupTypeOrEnum := fun root parts =>
    let path := parts.dropWhile (· = "")
    if path ∈ root ∧ IsTypePath path then .ok path
    else
      .error
        { name := "Error"
          message := "no such Type or Enum '" ++ ".".intercalate parts ++ "' in Root" }
  declared := fun root path => if path ∈ root ∧ IsTypePath path then some path else none
  pathOf := id
  contains := fun _ front => front.all (· = "")

end Protobuf
end Js
