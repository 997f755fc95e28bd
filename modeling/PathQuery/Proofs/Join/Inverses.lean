import Mathlib.Data.List.Nodup
import PathQuery.Proofs.Join.Growth
import PathQuery.Proofs.Schema.OtherSides

/-!
Links walked from both ends. A foreign key is joined by its column and the key that it refers to, a
many-to-many link over its link table by the keys of both models. The field that a schema adds for
the other side of a link is joined by the same columns of the same tables, the other way round.
-/

namespace PathQuery

namespace Schema

variable {s : Schema} {models : List Model} {m n : Model} {f : Field}

theorem resolveModel_label_iff (hd : s.Distinct) (hm : m ∈ s.models) (w : Option Whitelist) :
    s.resolveModel m.label w = .ok n ↔ Whitelist.admits w m ∧ n = m := by
  have hdot : m.label.toList.contains '.' := by simp [Model.label]
  simp only [resolveModel, if_pos hdot, hd.get?_eq hm]
  split
  · next hw => simp [hw, eq_comm]
  · next hw => simp [hw]

/-- Where names differ, a field is found by its name. -/
theorem resolveField_self (hnames : (m.fields.map (·.name)).Nodup) (hf : f ∈ m.fields) :
    resolveField m f.name = .ok f := by
  have hfound : m.field? f.name = some f := Lists.find?_of_nodup hnames hf
  rw [resolveField, hfound]

theorem Inverts.link {g : Field} (h : Inverts m f g) :
    (∃ toModel toField relatedName, f.link = some (.foreignKey toModel toField relatedName) ∧
        g.link = some (.reverse m.label f.name)) ∨
      ∃ toModel through source target relatedName,
        f.link = some (.manyToMany toModel through source target relatedName) ∧
          g.link = some (.manyToMany m.label through target source none) := by
  cases h with
  | foreignKey h => exact .inl ⟨_, _, _, h, rfl⟩
  | manyToMany h => exact .inr ⟨_, _, _, _, _, h, rfl⟩

/-- Every link to a model has its other side there. -/
theorem exists_inverts (h : build models = .ok s) (hm : m ∈ s.models) (hn : n ∈ s.models)
    (hf : f ∈ m.fields) (hlink : f.isLinkTo n.label) : ∃ g ∈ n.fields, Inverts m f g := by
  obtain ⟨_, _, hextends⟩ := build_extends h
  obtain ⟨_, _, hext⟩ := Lists.exists_of_forall₂ hextends.flip hn
  obtain ⟨declared, added, hfields, -, hadded, -⟩ := hext.fields
  have hmem : (m, f) ∈ s.linksTo n.label := mem_linksTo.mpr ⟨hm, hf, hlink⟩
  obtain ⟨g, hg, hinverts⟩ := Lists.exists_of_forall₂ hadded hmem
  exact ⟨g, by rw [hfields]; exact List.mem_append_right _ hg, hinverts⟩

end Schema

/-- A column of a table, whatever its instances are known as. -/
structure TableColumn where
  table : String
  column : String
deriving DecidableEq, Repr

namespace Join

open Steps

/-- The columns that have to be equal along a link of the model `m` to the model `n`. -/
inductive KeyPairs (m n : Model) (f : Field) : List (TableColumn × TableColumn) → Prop
  | foreignKey {toModel key : String} {toField relatedName : Option String}
      (hf : f.link = some (.foreignKey toModel toField relatedName))
      (hkey : keyColumnOf n toField = .ok key) :
      KeyPairs m n f [(⟨m.table, f.columnName⟩, ⟨n.table, key⟩)]
  | manyToMany {toModel through source target : String} {relatedName : Option String}
      (hf : f.link = some (.manyToMany toModel through source target relatedName)) :
      KeyPairs m n f [(⟨m.table, m.keyColumn⟩, ⟨through, source⟩),
        (⟨through, target⟩, ⟨n.table, n.keyColumn⟩)]

/-- The pairs from the other end. -/
def backwards (pairs : List (TableColumn × TableColumn)) : List (TableColumn × TableColumn) :=
  (pairs.map Prod.swap).reverse

theorem backwards_backwards (pairs : List (TableColumn × TableColumn)) :
    backwards (backwards pairs) = pairs := by
  simp [backwards]

/-- Relations that are linked one to the other, and the first one to `p`, by pairs of columns. -/
inductive Linked : Relation → List Relation → List (TableColumn × TableColumn) → Prop
  | nil (p : Relation) : Linked p [] []
  | cons {p r : Relation} {rs : List Relation} {pairs : List (TableColumn × TableColumn)}
      {a b : String} (hr : r.linkage = some ⟨p.column a, r.column b⟩) (h : Linked r rs pairs) :
      Linked p (r :: rs) ((⟨p.table, a⟩, ⟨r.table, b⟩) :: pairs)

/-- Following the field adds relations that are linked by the pairs, and leads to the last of them,
which stands for the model `n`. -/
def JoinsBy (s : Scope) (p : Relation) (m : Model) (f : Field) (rs : List Relation) (n : Model)
    (pairs : List (TableColumn × TableColumn)) : Prop :=
  ∃ added r, joinField s p m f rs = .ok (r, rs ++ (added ++ [r])) ∧
    Linked p (added ++ [r]) pairs ∧ r.model = some n.label ∧ r.table = n.table

variable {s : Scope} {p r : Relation} {m n : Model} {f g : Field} {rs rs' : List Relation}

theorem Joins.joinField (h : Joins s p m f rs r rs') : joinField s p m f rs = .ok (r, rs') := by
  cases h with
  | known hr => simp only [Join.joinField, hr]
  | forward hnew hf ht hc hr => simp [Join.joinField, hnew, hf, ht, hc, hr, joinAt]
  | reverse hnew hf ht hk hc hr => simp [Join.joinField, hnew, hf, ht, hk, hc, hr, joinAt]
  | bridge hnew hf ht hl hr => simp [Join.joinField, hnew, hf, ht, hl, hr, joinAt]

theorem attached_linkage {model : Option String} {table path : String} {join : JoinType}
    {source : ColumnRef} {column : String} :
    (attached s rs model table path join source column).linkage =
      some ⟨source, (attached s rs model table path join source column).column column⟩ := rfl

/-- One table is joined to `p` by a pair of columns. -/
theorem JoinsBy.single {path a b : String} {join : JoinType}
    (h : Joins s p m f rs (attached s rs (some n.label) n.table path join (p.column a) b)
      (rs ++ [attached s rs (some n.label) n.table path join (p.column a) b])) :
    JoinsBy s p m f rs n [(⟨p.table, a⟩, ⟨n.table, b⟩)] :=
  ⟨[], _, h.joinField, .cons attached_linkage (.nil _), rfl, rfl⟩

/-- Two tables are joined, the first one to `p` and the second one to the first. -/
theorem JoinsBy.double {through path path' a b c d : String} {join : JoinType} {link : Relation}
    (hlink : link = attached s rs none through path' join (p.column a) b)
    (h : Joins s p m f rs
      (attached s (rs ++ [link]) (some n.label) n.table path join (link.column c) d)
      (rs ++ [link] ++
        [attached s (rs ++ [link]) (some n.label) n.table path join (link.column c) d])) :
    JoinsBy s p m f rs n [(⟨p.table, a⟩, ⟨through, b⟩), (⟨through, c⟩, ⟨n.table, d⟩)] := by
  refine ⟨[link], _, h.joinField.trans (by rw [List.append_assoc]), ?_, rfl, rfl⟩
  subst hlink
  exact .cons attached_linkage (.cons attached_linkage (.nil _))

/-- Following the field is possible if and only if the model `n` may be seen and there are pairs of
keys, and then it joins by them. -/
structure JoinedBy (s : Scope) (p : Relation) (m : Model) (f : Field) (rs : List Relation)
    (n : Model) (keys : List (TableColumn × TableColumn) → Prop) : Prop where
  possible : (∃ x, joinField s p m f rs = .ok x) ↔
    Whitelist.admits s.options.whitelist n ∧ ∃ pairs, keys pairs
  joins : ∀ pairs, keys pairs → Whitelist.admits s.options.whitelist n → JoinsBy s p m f rs n pairs

theorem JoinedBy.of_joins {keys : List (TableColumn × TableColumn) → Prop}
    (hok : ∀ r rs', Joins s p m f rs r rs' →
      Whitelist.admits s.options.whitelist n ∧ ∃ pairs, keys pairs)
    (hjoins : ∀ pairs, keys pairs → Whitelist.admits s.options.whitelist n →
      JoinsBy s p m f rs n pairs) : JoinedBy s p m f rs n keys := by
  refine ⟨⟨?_, ?_⟩, hjoins⟩
  · rintro ⟨⟨r, rs'⟩, h⟩
    exact hok r rs' (joinField_joins h)
  · rintro ⟨hw, pairs, hpairs⟩
    obtain ⟨added, r, h, -⟩ := hjoins pairs hpairs hw
    exact ⟨_, h⟩

/-- A foreign key or a many-to-many link is joined by its keys. -/
theorem joinedBy_keyPairs (hd : s.schema.Distinct) (hn : n ∈ s.schema.models)
    (htarget : ∀ link ∈ f.link, link.target = n.label)
    (hreverse : ∀ l k, f.link ≠ some (.reverse l k))
    (hp : p.table = m.table) (hnew : rs.find? (·.path == pathOf p f) = none) :
    JoinedBy s p m f rs n (KeyPairs m n f) := by
  have hresolve {k : Model} : resolveModel s n.label = .ok k ↔
      Whitelist.admits s.options.whitelist n ∧ k = n := Schema.resolveModel_label_iff hd hn _
  refine .of_joins ?_ ?_
  · intro r rs' h
    cases h with
    | known hr => rw [hnew] at hr; cases hr
    | forward _ hf ht hc =>
      obtain rfl : _ = n.label := htarget _ hf
      obtain ⟨hw, rfl⟩ := hresolve.mp ht
      exact ⟨hw, _, .foreignKey hf hc⟩
    | reverse _ hf => exact absurd hf (hreverse _ _)
    | bridge _ hf ht =>
      obtain rfl : _ = n.label := htarget _ hf
      exact ⟨(hresolve.mp ht).1, _, .manyToMany hf⟩
  · intro pairs hpairs hw
    cases hpairs with
    | foreignKey hf hkey =>
      obtain rfl : _ = n.label := htarget _ hf
      rw [← hp]
      exact .single (.forward hnew hf (hresolve.mpr ⟨hw, rfl⟩) hkey rfl)
    | manyToMany hf =>
      obtain rfl : _ = n.label := htarget _ hf
      rw [← hp]
      exact .double rfl (.bridge hnew hf (hresolve.mpr ⟨hw, rfl⟩) rfl rfl)

/-- The other side of a foreign key is joined by the keys of it. -/
theorem joinedBy_reverse (hd : s.schema.Distinct) (hm : m ∈ s.schema.models)
    (hfind : Schema.resolveField m f.name = .ok f) {toModel : String}
    {toField relatedName : Option String}
    (hf : f.link = some (.foreignKey toModel toField relatedName))
    (hg : g.link = some (.reverse m.label f.name)) (hp : p.table = n.table)
    (hnew : rs.find? (·.path == pathOf p g) = none) :
    JoinedBy s p n g rs m (fun pairs => KeyPairs m n f (backwards pairs)) := by
  have hresolve {k : Model} : resolveModel s m.label = .ok k ↔
      Whitelist.admits s.options.whitelist m ∧ k = m := Schema.resolveModel_label_iff hd hm _
  have hreferenced : referencedColumn n f = keyColumnOf n toField := by rw [referencedColumn, hf]
  refine .of_joins ?_ ?_
  · intro r rs' h
    cases h with
    | known hr => rw [hnew] at hr; cases hr
    | forward _ h => rw [hg] at h; cases h
    | reverse _ h ht hk hc =>
      rw [hg] at h
      cases h
      obtain ⟨hw, rfl⟩ := hresolve.mp ht
      rw [hfind] at hk
      cases hk
      rw [hreferenced] at hc
      exact ⟨hw, [(_, _)], .foreignKey hf hc⟩
    | bridge _ h => rw [hg] at h; cases h
  · intro pairs hpairs hw
    obtain ⟨pairs, rfl⟩ : ∃ keys, pairs = backwards keys :=
      ⟨backwards pairs, (backwards_backwards pairs).symm⟩
    rw [backwards_backwards] at hpairs
    cases hpairs with
    | foreignKey hf' hkey =>
      rw [hf] at hf'
      cases hf'
      rw [← hp]
      exact .single (.reverse hnew hg (hresolve.mpr ⟨hw, rfl⟩) hfind (hreferenced.trans hkey) rfl)
    | manyToMany hf' => rw [hf] at hf'; cases hf'

/-- From the other side, a many-to-many link has the same keys backwards. -/
theorem keyPairs_backwards {toModel toModel' through source target : String}
    {relatedName relatedName' : Option String}
    (hf : f.link = some (.manyToMany toModel through source target relatedName))
    (hg : g.link = some (.manyToMany toModel' through target source relatedName')) :
    KeyPairs n m g = fun pairs => KeyPairs m n f (backwards pairs) := by
  funext pairs
  apply propext
  constructor
  · intro h
    cases h with
    | foreignKey h => rw [hg] at h; cases h
    | manyToMany h =>
      rw [hg] at h
      cases h
      exact .manyToMany hf
  · intro h
    obtain ⟨pairs, rfl⟩ : ∃ keys, pairs = backwards keys :=
      ⟨backwards pairs, (backwards_backwards pairs).symm⟩
    rw [backwards_backwards] at h
    cases h with
    | foreignKey h => rw [hf] at h; cases h
    | manyToMany h =>
      rw [hf] at h
      cases h
      exact .manyToMany hg

theorem target_of_isLinkTo {label : String} (h : f.isLinkTo label) :
    (∀ link ∈ f.link, link.target = label) ∧ ∀ l k, f.link ≠ some (.reverse l k) := by
  unfold Field.isLinkTo at h
  generalize f.link = link at h
  match link with
  | none => simp at h
  | some (.foreignKey toModel _ _) => simpa [Link.target] using (Bool.and_eq_true_iff.mp h).2
  | some (.manyToMany toModel _ _ _ _) => simpa [Link.target] using (Bool.and_eq_true_iff.mp h).2
  | some (.reverse _ _) => simp at h

/-- A link between two models of a schema and the field that the schema adds for its other side are
joined by the same columns of the same tables, in opposite directions, wherever they are met first.
Both can be followed as far as the models may be seen, unless the link refers to a field that its
target does not have. -/
theorem joinField_backwards {models : List Model} {schema : Schema} {a b : Model}
    (h : Schema.build models = .ok schema)
    (hnames : ∀ m ∈ models, (m.fields.map (·.name)).Nodup)
    (ha : a ∈ schema.models) (hb : b ∈ schema.models) (hf : f ∈ a.fields)
    (hlink : f.isLinkTo b.label) :
    ∃ g ∈ b.fields, Schema.Inverts a f g ∧
      ∀ (s s' : Scope) (p q : Relation) (rs rs' : List Relation),
        s.schema = schema → s'.schema = schema → p.table = a.table → q.table = b.table →
        rs.find? (·.path == pathOf p f) = none → rs'.find? (·.path == pathOf q g) = none →
        JoinedBy s p a f rs b (KeyPairs a b f) ∧
          JoinedBy s' q b g rs' a (fun pairs => KeyPairs a b f (backwards pairs)) := by
  have hd : schema.Distinct := Schema.build_distinct h
  obtain ⟨htarget, hreverse⟩ := target_of_isLinkTo hlink
  obtain ⟨g, hg, hinverts⟩ := Schema.exists_inverts h ha hb hf hlink
  refine ⟨g, hg, hinverts, ?_⟩
  rintro s s' p q rs rs' rfl hs' hp hq hnew hnew'
  refine ⟨joinedBy_keyPairs hd hb htarget hreverse hp hnew, ?_⟩
  rw [← hs'] at hd ha
  rcases hinverts.link with ⟨_, _, _, hlink, hlink'⟩ | ⟨_, _, _, _, _, hlink, hlink'⟩
  · have hfind := Schema.resolveField_self (Schema.build_names_nodup h hnames a (hs' ▸ ha)) hf
    exact joinedBy_reverse hd ha hfind hlink hlink' hq hnew'
  · rw [← keyPairs_backwards hlink hlink']
    exact joinedBy_keyPairs hd ha (by simp [hlink', Link.target]) (by simp [hlink']) hq hnew'

/-- A foreign key to a field that is not the key and has another column name. -/
def kennels : List Model :=
  [⟨"zoo", "Animal", "animal", [.key "id",
      { name := "keeper", type := .foreignKey,
        link := some (.foreignKey "Keeper" (some "badge") (some "animals")) }]⟩,
   ⟨"zoo", "Keeper", "keeper", [.key "id", { name := "badge", column := some "badge_no" }]⟩]

theorem joinField_backwards_kennels :
    ∃ schema a b f g, Schema.build kennels = .ok schema ∧ a ∈ schema.models ∧ b ∈ schema.models ∧
      f ∈ a.fields ∧ f.isLinkTo b.label ∧ g ∈ b.fields ∧ Schema.Inverts a f g ∧
      JoinsBy (.top schema {} a {}) (.master a none) a f [.master a none] b
        [(⟨"animal", "keeper_id"⟩, ⟨"keeper", "badge_no"⟩)] ∧
      JoinsBy (.top schema {} b {}) (.master b none) b g [.master b none] a
        [(⟨"keeper", "badge_no"⟩, ⟨"animal", "keeper_id"⟩)] := by
  have h : ((Schema.build kennels).toOption.bind fun s => (s.get? "zoo.Animal").bind fun a =>
      (s.get? "zoo.Keeper").bind fun b => (a.field? "keeper").map fun f =>
        decide (f.isLinkTo b.label ∧ f.name = "keeper" ∧
          f.link = some (.foreignKey "zoo.Keeper" (some "badge") (some "animals")) ∧
          a.table = "animal" ∧ f.columnName = "keeper_id" ∧ b.table = "keeper" ∧
          (keyColumnOf b (some "badge")).toOption = some "badge_no")) = some true := by
    decide +kernel
  simp only [Option.bind_eq_some_iff, Option.map_eq_some_iff, toOption_eq_some_iff,
    decide_eq_true_eq] at h
  obtain ⟨schema, hs, a, ha, b, hb, f, hf, hlink, hname, hkey, htable, hcolumn, htable',
    hbadge⟩ := h
  have ha := List.mem_of_find?_eq_some ha
  have hb := List.mem_of_find?_eq_some hb
  have hf := List.mem_of_find?_eq_some hf
  have hpairs : KeyPairs a b f [(⟨"animal", "keeper_id"⟩, ⟨"keeper", "badge_no"⟩)] := by
    rw [← htable, ← htable', ← hcolumn]
    exact .foreignKey hkey hbadge
  obtain ⟨g, hg, hinverts, hjoined⟩ := joinField_backwards hs (by decide +kernel) ha hb hf hlink
  have hname' : g.name = "animals" := by
    cases hinverts <;> simp_all
  obtain ⟨hforth, hback⟩ := hjoined (.top schema {} a {}) (.top schema {} b {}) (.master a none)
    (.master b none) [.master a none] [.master b none] rfl rfl rfl rfl
    (by simp [Relation.master, pathOf, hname]) (by simp [Relation.master, pathOf, hname'])
  exact ⟨schema, a, b, f, g, hs, ha, hb, hf, hlink, hg, hinverts, hforth.joins _ hpairs rfl,
    hback.joins _ hpairs rfl⟩

end Join
end PathQuery
