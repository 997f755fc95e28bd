import PathQuery.Schema

/-! The schema of a zoo, with models that have something unusual about them. -/

namespace PathQuery.Sample.Zoo

def keyTo (name toModel : String) (toField relatedName : Option String) (type : FieldType) :
    Field :=
  { name, type, link := some (.foreignKey toModel toField relatedName) }

def primary (name : String) (type : FieldType) : Field :=
  { name, type, primaryKey := true }

def animal : Model where
  ns := "zoo"
  name := "Animal"
  table := "zoo_animal"
  fields := [{ primary "code" .char with column := some "animal_code" },
    { name := "born", type := .dateTime }, { name := "fed_at", type := .time },
    { keyTo "parent" "Animal" none (some "children") .foreignKey with nullable := true },
    { keyTo "keeper" "Keeper" (some "badge") (some "animals") .foreignKey with
      column := some "keeper_badge" },
    Field.withRelatedName (.manyToMany "friends" "Animal" "zoo_friend" "a_id" "b_id") "friend_of",
    { name := "spot", type := .geometry }, { name := "outer", type := .integer },
    keyTo "Tag" "alt.Tag" none (some "tagged") .foreignKey]

def keeper : Model where
  ns := "zoo"
  name := "Keeper"
  table := "zoo_keeper"
  fields := [primary "id" .auto,
    { name := "badge", column := some "badge_no", type := .char, unique := true },
    { name := "pk", column := some "not_really_pk", type := .integer },
    keyTo "boss" "Keeper" (some "badge") (some "minions") .oneToOne,
    { name := "hired", type := .date, default := some (.str "2020-01-01") }]

def tag : Model where
  ns := "zoo"
  name := "Tag"
  table := "zoo_tag"
  fields := [{ name := "label" },
    { name := "weight", type := .float, default := some (.real 1.5) }]

def altTag : Model where
  ns := "alt"
  name := "Tag"
  table := "alt_tag"
  fields := [{ name := "id", type := .integer }, { name := "label" },
    { name := "year", type := .date }, .foreignKey "zoo_tag" "zoo.Tag"]

def quote : Model where
  ns := "odd"
  name := "Quote"
  table := "o'brien"
  fields := [primary "id" .auto, { name := "text", column := some "te\"xt" },
    { name := "brace", column := some "\x7bhole\x7d" },
    keyTo "next" "Quote" none (some "prev") .foreignKey]

def brace : Model where
  ns := "odd"
  name := "Brace"
  table := "t\x7bx\x7d"
  fields := [primary "id" .auto, { name := "when", type := .dateTime },
    Field.withRelatedName (.manyToMany "link" "odd.Brace" "t\x7bx\x7d" "s" "t") "back"]

def empty : Model where
  ns := "odd"
  name := "Empty"
  table := "odd_empty"

def declared : Model where
  ns := "odd"
  name := "Declared"
  table := "odd_declared"
  fields := [primary "uid" .uuid,
    { name := "manual", type := .reverse, link := some (.reverse "zoo.Tag" "label") },
    { name := "broken", type := .reverse, link := some (.reverse "zoo.Tag" "nope") },
    keyTo "bad_fk" "zoo.Tag" (some "nope") (some "declared_bad") .foreignKey,
    { name := "Upper", type := .integer }]

def models : List Model :=
  [animal, keeper, tag, altTag, quote, brace, empty, declared]

def schema : Except Error Schema :=
  Schema.build models

end PathQuery.Sample.Zoo
