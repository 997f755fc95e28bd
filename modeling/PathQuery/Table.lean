/-!
Tables from names to values that remember the order of their entries. Writing a name that is
already there keeps its place and changes its value.
-/

namespace PathQuery

structure Table (α : Type) where
  entries : List (String × α) := []
deriving Repr

namespace Table

variable {α β : Type}

instance : Inhabited (Table α) := ⟨{}⟩

def find? (k : String) : List (String × α) → Option α
  | [] => none
  | (k', v) :: rest => if k' == k then some v else find? k rest

def get? (t : Table α) (k : String) : Option α :=
  find? k t.entries

def contains (t : Table α) (k : String) : Bool :=
  (t.get? k).isSome

def put (k : String) (v : α) : List (String × α) → List (String × α)
  | [] => [(k, v)]
  | (k', v') :: rest => if k' == k then (k, v) :: rest else (k', v') :: put k v rest

def insert (t : Table α) (k : String) (v : α) : Table α :=
  ⟨put k v t.entries⟩

def putSorted (k : String) (v : α) : List (String × α) → List (String × α)
  | [] => [(k, v)]
  | (k', v') :: rest =>
    if k' == k then (k, v) :: rest
    else if k < k' then (k, v) :: (k', v') :: rest
    else (k', v') :: putSorted k v rest

def insertSorted (t : Table α) (k : String) (v : α) : Table α :=
  ⟨putSorted k v t.entries⟩

def ofList (entries : List (String × α)) : Table α :=
  entries.foldl (fun t (k, v) => t.insert k v) {}

def ofListSorted (entries : List (String × α)) : Table α :=
  entries.foldl (fun t (k, v) => t.insertSorted k v) {}

def merge (t u : Table α) : Table α :=
  u.entries.foldl (fun t (k, v) => t.insert k v) t

def keys (t : Table α) : List String :=
  t.entries.map (·.1)

def values (t : Table α) : List α :=
  t.entries.map (·.2)

def size (t : Table α) : Nat :=
  t.entries.length

def isEmpty (t : Table α) : Bool :=
  t.entries.isEmpty

def mapValues (f : α → β) (t : Table α) : Table β :=
  ⟨t.entries.map fun (k, v) => (k, f v)⟩

end Table
end PathQuery
