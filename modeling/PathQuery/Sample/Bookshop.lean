import PathQuery.Schema

/-! The schema of a bookshop, for trying things out. -/

namespace PathQuery.Sample.Bookshop

def user : Model where
  ns := "auth"
  name := "User"
  table := "auth_user"
  fields := [.key "id", { name := "username", type := .char, unique := true },
    { name := "email", type := .char }]

def profile : Model where
  ns := "books"
  name := "Profile"
  table := "books_profile"
  fields := [.key "id",
    { name := "user", type := .oneToOne, unique := true,
      link := some (.foreignKey "auth.User" none (some "profile")) },
    { name := "company", type := .char }]

def author : Model where
  ns := "books"
  name := "Author"
  table := "books_author"
  fields := [.key "id", { name := "name", type := .char }, { name := "age", type := .integer }]

def publisher : Model where
  ns := "books"
  name := "Publisher"
  table := "books_publisher"
  fields := [.key "id", { name := "name", type := .char },
    { Field.foreignKey "owner" "Author" |>.withRelatedName "owned_publishers" with
      nullable := true }]

def book : Model where
  ns := "books"
  name := "Book"
  table := "books_book"
  fields := [.key "id", { name := "name", type := .char }, { name := "pages", type := .integer },
    { name := "price", type := .decimal }, { name := "rating", type := .float },
    .manyToMany "authors" "Author" "books_book_authors" "book_id" "author_id",
    .foreignKey "publisher" "Publisher",
    { Field.foreignKey "alt_publisher" "Publisher" |>.withRelatedName "alt_books" with
      nullable := true },
    { name := "pubdate", type := .date },
    { name := "in_print", type := .boolean, default := some (.bool true) }]

def store : Model where
  ns := "books"
  name := "Store"
  table := "books_store"
  fields := [.key "id", { name := "name", type := .char },
    .manyToMany "books" "Book" "books_store_books" "store_id" "book_id"]

def models : List Model :=
  [user, profile, author, publisher, book, store]

def schema : Except Error Schema :=
  Schema.build models

end PathQuery.Sample.Bookshop
