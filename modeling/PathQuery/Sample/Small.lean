import PathQuery.Schema

/-! Schemas of one or two models, for statements that need no more. -/

namespace PathQuery.Sample

def keyed (name table key : String) : Model :=
  ⟨"s", name, table, [.key key]⟩

def card : Model :=
  keyed "A" "a" "id"

def stock : List Model :=
  [keyed "B" "b" "p"]

/-- Two models of which the first has a many-to-many field to the second. -/
def shelf : List Model :=
  [⟨"s", "B", "b", [.key "id", .manyToMany "as" "A" "ab" "x" "y"]⟩, card]

/-- A model with a link to itself. -/
def looped (table field relatedName : String) : List Model :=
  [⟨"s", "N", table, [.key "id", (Field.foreignKey field "N").withRelatedName relatedName]⟩]

end PathQuery.Sample
