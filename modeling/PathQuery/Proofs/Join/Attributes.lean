import Mathlib.Data.List.Nodup
import Mathlib.Data.List.Pairwise
import PathQuery.Proofs.Join.Growth
import PathQuery.Proofs.Schema.Labels
import PathQuery.Proofs.Text.Joined
import PathQuery.Sample.Small

/-!
One relation for each attribute path. Relations are found again by the text of their path, and link
tables have paths of their own in the same list: that of the field, then the name of the table. If
no text is that of two different things, a field always leads to the model on its other side, linked
as the field says, and different attribute paths lead to different relations.
-/

namespace PathQuery

namespace Schema

/-- The names of links. -/
def linkNames (s : Schema) : List String :=
  s.models.flatMap fun m => (m.fields.filter (·.link.isSome)).map (·.name)

/-- The link table of a many-to-many link. -/
def linkTable? : Link → Option String
  | .manyToMany _ through _ _ _ => some through
  | _ => none

def linkTables (s : Schema) : List String :=
  s.models.flatMap fun m => m.fields.filterMap fun f => f.link.bind linkTable?

theorem mem_linkNames {s : Schema} {m : Model} {f : Field} (hm : m ∈ s.models) (hf : f ∈ m.fields)
    (hl : f.link.isSome) : f.name ∈ s.linkNames :=
  List.mem_flatMap.mpr ⟨m, hm, List.mem_map_of_mem (List.mem_filter.mpr ⟨hf, hl⟩)⟩

theorem mem_linkTables {s : Schema} {m : Model} {f : Field}
    {toModel through sourceColumn targetColumn : String} {relatedName : Option String}
    (hm : m ∈ s.models) (hf : f ∈ m.fields)
    (hl : f.link = some (.manyToMany toModel through sourceColumn targetColumn relatedName)) :
    through ∈ s.linkTables :=
  List.mem_flatMap.mpr ⟨m, hm, List.mem_filterMap.mpr ⟨f, hf, by rw [hl]; rfl⟩⟩

/-- The names of links that can be followed one after the other, from a model on. -/
inductive Spells (s : Schema) : Model → List String → Prop
  | last {m : Model} {f : Field} (hf : f ∈ m.fields) (hl : f.link.isSome) : Spells s m [f.name]
  | next {m n : Model} {f : Field} {names : List String} (hf : f ∈ m.fields)
      (hn : s.relatedModel f none = .ok n) (h : Spells s n names) : Spells s m (f.name :: names)

/-- The text of a path is that of one thing only: names of links have no dots and differ inside a
model, and after a many-to-many field the name of its link table is no path that goes on there. -/
structure Clear (s : Schema) : Prop where
  named : ∀ name ∈ s.linkNames, name ≠ "" ∧ '.' ∉ name.toList
  distinct : ∀ m ∈ s.models, ((m.fields.filter (·.link.isSome)).map (·.name)).Nodup
  apart : ∀ m ∈ s.models, ∀ f ∈ m.fields,
    ∀ toModel through sourceColumn targetColumn relatedName,
      f.link = some (.manyToMany toModel through sourceColumn targetColumn relatedName) →
        ∀ n, s.resolveModel toModel none = .ok n →
          ∀ names, s.Spells n names → Text.join "." names ≠ through

variable {s : Schema} {m n : Model} {f g : Field} {w : Option Whitelist}

/-- A whitelist only takes models away. -/
theorem resolveModel_none {name : String} (h : s.resolveModel name w = .ok m) :
    s.resolveModel name none = .ok m := by
  simp only [resolveModel] at h ⊢
  split at h
  · split at h
    · cases h
      rfl
    · cases h
  · cases h

theorem relatedModel_none (h : s.relatedModel f w = .ok m) : s.relatedModel f none = .ok m := by
  unfold relatedModel at h ⊢
  split at h
  · exact resolveModel_none h
  · cases h

theorem relatedModel_of_link {link : Link} (hf : f.link = some link) :
    s.relatedModel f w = s.resolveModel link.target w := by
  rw [relatedModel, hf]

theorem isSome_of_relatedModel (h : s.relatedModel f w = .ok m) : f.link.isSome := by
  unfold relatedModel at h
  split at h
  · next hlink => rw [hlink]; rfl
  · cases h

theorem relatedModel_mem (h : s.relatedModel f w = .ok m) : m ∈ s.models := by
  unfold relatedModel at h
  split at h
  · exact (resolveModel_mem h).1
  · cases h

/-- In a clear schema a name is that of one link of a model. -/
theorem Clear.field_eq (h : s.Clear) (hm : m ∈ s.models) (hf : f ∈ m.fields) (hg : g ∈ m.fields)
    (hf' : f.link.isSome) (hg' : g.link.isSome) (hname : f.name = g.name) : f = g :=
  List.inj_on_of_nodup_map (h.distinct m hm) (List.mem_filter.mpr ⟨hf, hf'⟩)
    (List.mem_filter.mpr ⟨hg, hg'⟩) hname

end Schema

namespace Join

open Steps

variable {s : Scope} {rs rs' : List Relation} {parent r : Relation} {m n : Model} {f : Field}
  {names names' : List String}

/-- How the relation `r` of the model `target` is linked to `parent` by a field of the model `m`:
directly, or over a link table among `rs`. -/
inductive LinkedBy (rs : List Relation) (parent : Relation) (m target : Model) (f : Field)
    (r : Relation) : Prop
  | forward {toModel column : String} {toField relatedName : Option String}
      (hf : f.link = some (.foreignKey toModel toField relatedName))
      (hc : keyColumnOf target toField = .ok column)
      (hr : r.linkage = some ⟨parent.column f.columnName, r.column column⟩)
  | reverse {source field column : String} {key : Field}
      (hf : f.link = some (.reverse source field))
      (hk : Schema.resolveField target field = .ok key) (hc : referencedColumn m key = .ok column)
      (hr : r.linkage = some ⟨parent.column column, r.column key.columnName⟩)
  | bridge {toModel sourceColumn targetColumn : String} {relatedName : Option String}
      {link : Relation}
      (hf : f.link = some (.manyToMany toModel link.table sourceColumn targetColumn relatedName))
      (hmem : link ∈ rs) (hmodel : link.model = none)
      (hl : link.linkage = some ⟨parent.column m.keyColumn, link.column sourceColumn⟩)
      (hr : r.linkage = some ⟨link.column targetColumn, r.column target.keyColumn⟩)

/-- The relation `r` is what a field of `parent` stands for: the label and the table are those of
the model on the other side, and it is linked as the field says. -/
def OtherSide (s : Scope) (rs : List Relation) (parent : Relation) (m : Model) (f : Field)
    (r : Relation) : Prop :=
  ∃ target, s.schema.relatedModel f s.options.whitelist = .ok target ∧
    r.model = some target.label ∧ r.table = target.table ∧ LinkedBy rs parent m target f r

/-- The relations that attribute paths lead to, with the names of the fields, the last one first. -/
inductive Leads (s : Scope) (rs : List Relation) : List String → Relation → Prop
  | master : Leads s rs [] s.master
  | field {names : List String} {parent r : Relation} {m : Model} {f : Field}
      (h : Leads s rs names parent) (hm : modelOf s parent = .ok m) (hf : f ∈ m.fields)
      (hr : r ∈ rs) (hpath : r.path = pathOf parent f) (hside : OtherSide s rs parent m f r) :
      Leads s rs (f.name :: names) r

theorem OtherSide.mono (h : OtherSide s rs parent m f r) (hsub : rs ⊆ rs') :
    OtherSide s rs' parent m f r := by
  obtain ⟨target, ht, hmodel, htable, hlinked⟩ := h
  refine ⟨target, ht, hmodel, htable, ?_⟩
  cases hlinked with
  | forward hf hc hr => exact .forward hf hc hr
  | reverse hf hk hc hr => exact .reverse hf hk hc hr
  | bridge hf hmem hmodel hl hr => exact .bridge hf (hsub hmem) hmodel hl hr

theorem Leads.mono (h : Leads s rs names r) (hsub : rs ⊆ rs') : Leads s rs' names r := by
  induction h with
  | master => exact .master
  | field _ hm hf hr hpath hside ih => exact .field ih hm hf (hsub hr) hpath (hside.mono hsub)

theorem Leads.mem (h : Leads s rs names r) (hmaster : s.master ∈ rs) : r ∈ rs := by
  cases h with
  | master => exact hmaster
  | field _ _ _ hr => exact hr

theorem Leads.cons_inv {name : String} (h : Leads s rs (name :: names) r) :
    ∃ parent m f, f.name = name ∧ Leads s rs names parent ∧ modelOf s parent = .ok m ∧
      f ∈ m.fields ∧ OtherSide s rs parent m f r := by
  cases h with
  | @field _ parent _ m f hp hm hf _ _ hside => exact ⟨parent, m, f, rfl, hp, hm, hf, hside⟩

theorem modelOf_ok_iff :
    modelOf s r = .ok m ↔ ∃ label, r.model = some label ∧ s.schema.get? label = some m := by
  unfold modelOf
  cases hmodel : r.model with
  | none => simp
  | some label =>
    cases hget : s.schema.get? label with
    | none => simp [hget]
    | some n => simp [hget]

theorem isSome_of_modelOf (h : modelOf s r = .ok m) : r.model.isSome := by
  obtain ⟨label, hlabel, -⟩ := modelOf_ok_iff.mp h
  rw [hlabel]
  rfl

theorem mem_models_of_modelOf (h : modelOf s r = .ok m) : m ∈ s.schema.models := by
  obtain ⟨label, -, hget⟩ := modelOf_ok_iff.mp h
  exact List.mem_of_find?_eq_some hget

theorem Leads.isSome (h : Leads s rs names r) (hmaster : s.master.model.isSome) :
    r.model.isSome := by
  cases h with
  | master => exact hmaster
  | field _ _ _ _ _ hside =>
    obtain ⟨target, -, hmodel, -⟩ := hside
    rw [hmodel]
    rfl

/-- The relation on the other side of a field has the model there. -/
theorem OtherSide.modelOf_eq (hd : s.schema.Distinct) (h : OtherSide s rs parent m f r)
    (hr : modelOf s r = .ok n) : s.schema.relatedModel f none = .ok n := by
  obtain ⟨target, ht, hmodel, -⟩ := h
  obtain ⟨label, hlabel, hget⟩ := modelOf_ok_iff.mp hr
  rw [hmodel, Option.some.injEq] at hlabel
  rw [← hlabel, hd.get?_eq (Schema.relatedModel_mem ht), Option.some.injEq] at hget
  rw [← hget]
  exact Schema.relatedModel_none ht

/-! ### Every relation has its place -/

/-- A link table, with the path of its field and then its name. -/
def LinkTable (s : Scope) (rs : List Relation) (r : Relation) : Prop :=
  ∃ names parent m f toModel through sourceColumn targetColumn relatedName,
    Leads s rs names parent ∧ modelOf s parent = .ok m ∧ f ∈ m.fields ∧
    f.link = some (.manyToMany toModel through sourceColumn targetColumn relatedName) ∧
    r.path = pathOf parent f ++ "." ++ through

/-- Relations with a model are led to and have different paths; those without one are link
tables. -/
structure Traced (s : Scope) (rs : List Relation) : Prop where
  led : ∀ r ∈ rs, r.model.isSome → ∃ names, Leads s rs names r
  link : ∀ r ∈ rs, r.model = none → LinkTable s rs r
  once : rs.Pairwise fun a b => a.model.isSome → b.model.isSome → a.path ≠ b.path

theorem LinkTable.mono (h : LinkTable s rs r) (hsub : rs ⊆ rs') : LinkTable s rs' r := by
  obtain ⟨names, parent, m, f, _, _, _, _, _, hlead, hrest⟩ := h
  exact ⟨names, parent, m, f, _, _, _, _, _, hlead.mono hsub, hrest⟩

namespace Traced

theorem singleton (h : s.master.model.isSome) : Traced s [s.master] where
  led := by
    intro r hr _
    obtain rfl := List.mem_singleton.mp hr
    exact ⟨[], .master⟩
  link := by
    intro r hr hnone
    obtain rfl := List.mem_singleton.mp hr
    rw [hnone] at h
    cases h
  once := List.pairwise_singleton ..

theorem push_link (h : Traced s rs) (hmodel : r.model = none) (hr : LinkTable s rs r) :
    Traced s (rs ++ [r]) where
  led := by
    intro x hx hsome
    rcases List.mem_append.mp hx with hx | hx
    · obtain ⟨names, hlead⟩ := h.led x hx hsome
      exact ⟨names, hlead.mono (List.subset_append_left ..)⟩
    · rw [List.mem_singleton.mp hx, hmodel] at hsome
      cases hsome
  link := by
    intro x hx hnone
    rcases List.mem_append.mp hx with hx | hx
    · exact (h.link x hx hnone).mono (List.subset_append_left ..)
    · rw [List.mem_singleton.mp hx]
      exact hr.mono (List.subset_append_left ..)
  once := by
    refine List.pairwise_append.mpr ⟨h.once, List.pairwise_singleton .., ?_⟩
    intro a _ b hb _ hsome
    rw [List.mem_singleton.mp hb, hmodel] at hsome
    cases hsome

theorem push (h : Traced s rs) (hr : Leads s (rs ++ [r]) names r)
    (hnew : ∀ a ∈ rs, a.model.isSome → a.path ≠ r.path) (hmodel : r.model.isSome) :
    Traced s (rs ++ [r]) where
  led := by
    intro x hx hsome
    rcases List.mem_append.mp hx with hx | hx
    · obtain ⟨names, hlead⟩ := h.led x hx hsome
      exact ⟨names, hlead.mono (List.subset_append_left ..)⟩
    · rw [List.mem_singleton.mp hx]
      exact ⟨names, hr⟩
  link := by
    intro x hx hnone
    rcases List.mem_append.mp hx with hx | hx
    · exact (h.link x hx hnone).mono (List.subset_append_left ..)
    · rw [List.mem_singleton.mp hx] at hnone
      rw [hnone] at hmodel
      cases hmodel
  once := by
    refine List.pairwise_append.mpr ⟨h.once, List.pairwise_singleton .., ?_⟩
    intro a ha b hb hsome _
    rw [List.mem_singleton.mp hb]
    exact hnew a ha hsome

/-- A path is that of one relation with a model. -/
theorem eq_of_path (h : Traced s rs) {a b : Relation} (ha : a ∈ rs) (hb : b ∈ rs)
    (ha' : a.model.isSome) (hb' : b.model.isSome) (hpath : a.path = b.path) : a = b := by
  by_contra hne
  have hsymm : Std.Symm fun a b : Relation =>
      a.model.isSome → b.model.isSome → a.path ≠ b.path :=
    ⟨fun _ _ hab hb ha he => hab ha hb he.symm⟩
  exact h.once.forall ha hb hne ha' hb' hpath

end Traced

/-- A path that is found joins nothing. -/
theorem Joins.eq_known {known : Relation} (h : Joins s parent m f rs r rs')
    (hfind : rs.find? (·.path == pathOf parent f) = some known) :
    rs = rs' ∧ r ∈ rs ∧ r.path = pathOf parent f := by
  cases h with
  | known hr =>
    have hpath := List.find?_some hr
    exact ⟨rfl, List.mem_of_find?_eq_some hr, beq_iff_eq.mp hpath⟩
  | forward hnew => rw [hfind] at hnew; cases hnew
  | reverse hnew => rw [hfind] at hnew; cases hnew
  | bridge hnew => rw [hfind] at hnew; cases hnew

/-- A new relation is on the other side of the field. -/
theorem Joins.otherSide (h : Joins s parent m f rs r rs')
    (hnew : rs.find? (·.path == pathOf parent f) = none) :
    OtherSide s rs' parent m f r ∧ r.path = pathOf parent f := by
  cases h with
  | known hr =>
    rw [hnew] at hr
    cases hr
  | @forward _ _ _ target _ _ _ hf ht hc hr =>
    rw [hr]
    exact ⟨⟨target, by rw [Schema.relatedModel_of_link hf]; exact ht, rfl, rfl,
      .forward hf hc rfl⟩, rfl⟩
  | @reverse _ _ _ target _ _ _ hf ht hk hc hr =>
    rw [hr]
    exact ⟨⟨target, by rw [Schema.relatedModel_of_link hf]; exact ht, rfl, rfl,
      .reverse hf hk hc rfl⟩, rfl⟩
  | @bridge toModel _ sourceColumn targetColumn relatedName target link _ _ hf ht hl hr =>
    have htable : f.link
        = some (.manyToMany toModel link.table sourceColumn targetColumn relatedName) := by
      rw [hf, hl]
      rfl
    have hmodel : link.model = none := by rw [hl]; rfl
    have hlinkage : link.linkage = some ⟨parent.column m.keyColumn, link.column sourceColumn⟩ := by
      rw [hl]
      rfl
    rw [hr]
    exact ⟨⟨target, by rw [Schema.relatedModel_of_link hf]; exact ht, rfl, rfl,
      .bridge htable (by simp) hmodel hlinkage rfl⟩, rfl⟩

theorem Joins.traced (h : Joins s parent m f rs r rs') (ht : Traced s rs) (hp : parent ∈ rs)
    (hm : modelOf s parent = .ok m) (hf : f ∈ m.fields) : Traced s rs' := by
  cases hfind : rs.find? (·.path == pathOf parent f) with
  | some _ =>
    rw [← (h.eq_known hfind).1]
    exact ht
  | none =>
    obtain ⟨names, hlead⟩ := ht.led parent hp (isSome_of_modelOf hm)
    obtain ⟨hside, hpath⟩ := h.otherSide hfind
    have hled : Leads s rs' (f.name :: names) r :=
      .field (hlead.mono h.subset) hm hf h.mem hpath hside
    have hmodel : r.model.isSome := by
      obtain ⟨target, -, hmodel, -⟩ := hside
      rw [hmodel]
      rfl
    have hnew : ∀ a ∈ rs, a.path ≠ r.path := by
      rw [hpath]
      exact path_ne_of_find?_eq_none hfind
    cases h with
    | known hr => rw [hfind] at hr; cases hr
    | forward => exact ht.push hled (fun a ha _ => hnew a ha) hmodel
    | reverse => exact ht.push hled (fun a ha _ => hnew a ha) hmodel
    | @bridge _ _ _ _ _ _ link _ _ hlink _ hl _ =>
      have hlinkModel : link.model = none := by
        rw [hl]
        rfl
      have hlinkTable : LinkTable s rs link :=
        ⟨names, parent, m, f, _, _, _, _, _, hlead, hm, hf, hlink, by rw [hl]; rfl⟩
      refine (ht.push_link hlinkModel hlinkTable).push hled ?_ hmodel
      intro a ha hsome
      rcases List.mem_append.mp ha with ha | ha
      · exact hnew a ha
      · rw [List.mem_singleton.mp ha, hlinkModel] at hsome
        cases hsome

theorem Grows.traced (h : Grows s rs rs') (ht : Traced s rs) : Traced s rs' := by
  induction h with
  | refl => exact ht
  | step hp hm hf hj _ ih => exact ih (hj.traced ht hp hm hf)

/-! ### Texts of paths -/

theorem Leads.names_subset (h : Leads s rs names r) : names ⊆ s.schema.linkNames := by
  induction h with
  | master => exact List.nil_subset _
  | field _ hm hf _ _ hside ih =>
    obtain ⟨target, ht, -⟩ := hside
    exact List.cons_subset.mpr ⟨Schema.mem_linkNames (mem_models_of_modelOf hm) hf
      (Schema.isSome_of_relatedModel ht), ih⟩

theorem Leads.cons_subset (hp : Leads s rs names parent) (hm : modelOf s parent = .ok m)
    (hf : f ∈ m.fields) (hl : f.link.isSome) : f.name :: names ⊆ s.schema.linkNames :=
  List.cons_subset.mpr ⟨Schema.mem_linkNames (mem_models_of_modelOf hm) hf hl, hp.names_subset⟩

theorem pathOf_eq_join (hpath : parent.path = Text.join "." names.reverse)
    (hnames : ∀ name ∈ names, name ≠ "") (f : Field) :
    pathOf parent f = Text.join "." (f.name :: names).reverse := by
  rw [List.reverse_cons, pathOf, hpath]
  by_cases hnil : names = []
  · subst hnil
    rfl
  · have hne : names.reverse ≠ [] := fun h => hnil (List.reverse_eq_nil_iff.mp h)
    rw [Text.join_append hne (by simp), if_neg]
    · rfl
    · rw [String.isEmpty_iff]
      exact Text.join_ne_empty hne fun name hname => hnames name (List.mem_reverse.mp hname)

/-- The path of a relation is the text of the attribute path that leads to it. -/
theorem Leads.path_eq (h : Leads s rs names r) (hnames : ∀ name ∈ s.schema.linkNames, name ≠ "")
    (hmaster : s.master.path = "") : r.path = Text.join "." names.reverse := by
  induction h with
  | master => exact hmaster
  | @field names parent _ _ f h _ _ _ hpath _ ih =>
    rw [hpath]
    exact pathOf_eq_join ih (fun name hname => hnames name (h.names_subset hname)) f

/-- An attribute path goes through the relations of the shorter ones, and spells what follows. -/
theorem Leads.split (hd : s.schema.Distinct) {front : List String}
    (h : Leads s rs (front ++ names) r) :
    ∃ q, Leads s rs names q ∧ ∀ m n tail, modelOf s r = .ok m → modelOf s q = .ok n →
      s.schema.Spells m tail → s.schema.Spells n (front.reverse ++ tail) := by
  induction front generalizing r with
  | nil =>
    refine ⟨r, h, ?_⟩
    intro m n tail hm hn hspells
    rw [hm, Except.ok.injEq] at hn
    rw [← hn]
    exact hspells
  | cons name front ih =>
    cases h with
    | field hparent hm hf _ _ hside =>
      obtain ⟨q, hq, hspell⟩ := ih hparent
      refine ⟨q, hq, ?_⟩
      intro m n tail hr hn hspells
      have := hspell _ n _ hm hn (.next hf (hside.modelOf_eq hd hr) hspells)
      rwa [List.reverse_cons, List.append_assoc]

/-! ### One relation for each path -/

/-- What the relations of a clear schema are joined from. -/
structure Rooted (s : Scope) (rs : List Relation) : Prop where
  clear : s.schema.Clear
  labels : s.schema.Distinct
  path : s.master.path = ""
  model : s.master.model.isSome
  mem : s.master ∈ rs
  traced : Traced s rs

namespace Rooted

theorem names_ne_empty (h : Rooted s rs) : ∀ name ∈ s.schema.linkNames, name ≠ "" :=
  fun name hname => (h.clear.named name hname).1

theorem path_eq (h : Rooted s rs) (hr : Leads s rs names r) :
    r.path = Text.join "." names.reverse :=
  hr.path_eq h.names_ne_empty h.path

theorem pathOf_eq (h : Rooted s rs) (hp : Leads s rs names parent) (f : Field) :
    pathOf parent f = Text.join "." (f.name :: names).reverse :=
  pathOf_eq_join (h.path_eq hp) (fun name hname => h.names_ne_empty name (hp.names_subset hname)) f

/-- The names of an attribute path, in the order in which they are written, have no dots. -/
theorem dotless (h : Rooted s rs) (hnames : names ⊆ s.schema.linkNames) :
    ∀ name ∈ names.reverse, '.' ∉ name.toList :=
  fun name hname => (h.clear.named name (hnames (List.mem_reverse.mp hname))).2

theorem join_ne_empty (h : Rooted s rs) (hnames : names ⊆ s.schema.linkNames) (hne : names ≠ []) :
    Text.join "." names.reverse ≠ "" :=
  Text.join_ne_empty (fun hnil => hne (List.reverse_eq_nil_iff.mp hnil))
    fun name hname => h.names_ne_empty name (hnames (List.mem_reverse.mp hname))

/-- Attribute paths with the same text are the same. -/
theorem names_eq (h : Rooted s rs) (hnames : names ⊆ s.schema.linkNames)
    (hnames' : names' ⊆ s.schema.linkNames)
    (he : Text.join "." names.reverse = Text.join "." names'.reverse) : names = names' := by
  by_cases hnil : names = []
  · subst hnil
    by_contra hne
    exact h.join_ne_empty hnames' (Ne.symm hne) he.symm
  · by_cases hnil' : names' = []
    · subst hnil'
      exact absurd he (h.join_ne_empty hnames hnil)
    · exact List.reverse_injective (Text.divides_dot.join_injective (h.dotless hnames)
        (h.dotless hnames') (by simpa using hnil) (by simpa using hnil') he)

theorem leads_unique {a b : Relation} (h : Rooted s rs) (ha : Leads s rs names a)
    (hb : Leads s rs names b) : a = b := by
  refine h.traced.eq_of_path (ha.mem h.mem) (hb.mem h.mem) (ha.isSome h.model)
    (hb.isSome h.model) ?_
  rw [h.path_eq ha, h.path_eq hb]

theorem names_unique (h : Rooted s rs) (hr : Leads s rs names r) (hr' : Leads s rs names' r) :
    names = names' :=
  h.names_eq hr.names_subset hr'.names_subset ((h.path_eq hr).symm.trans (h.path_eq hr'))

/-- What an attribute path leads to by a field is on the other side of it. -/
theorem leads_cons (h : Rooted s rs) (hp : Leads s rs names parent)
    (hm : modelOf s parent = .ok m) (hf : f ∈ m.fields) (hl : f.link.isSome)
    (hr : Leads s rs (f.name :: names) r) : OtherSide s rs parent m f r := by
  obtain ⟨parent', m', f', hname, hp', hm', hf', hside⟩ := hr.cons_inv
  obtain rfl := h.leads_unique hp hp'
  obtain rfl : m = m' := Except.ok.inj (hm.symm.trans hm')
  obtain ⟨target, ht, -⟩ := id hside
  obtain rfl := h.clear.field_eq (mem_models_of_modelOf hm) hf' hf
    (Schema.isSome_of_relatedModel ht) hl hname
  exact hside

/-- The path of a link table is not that of a field. -/
theorem not_linkTable (h : Rooted s rs) (hp : Leads s rs names parent)
    (hm : modelOf s parent = .ok m) (hf : f ∈ m.fields) (hl : f.link.isSome)
    (hpath : r.path = pathOf parent f) : ¬ LinkTable s rs r := by
  rintro ⟨names', parent', m', f', toModel, through, _, _, _, hp', hm', hf', hlink', hpath'⟩
  have hl' : f'.link.isSome := by rw [hlink']; rfl
  rw [hpath, h.pathOf_eq hp, h.pathOf_eq hp'] at hpath'
  obtain ⟨rest, hrest, hsplit, hthrough⟩ := Text.divides_dot.of_join_append
    (h.dotless (hp'.cons_subset hm' hf' hl')) (h.dotless (hp.cons_subset hm hf hl))
    (by simp) (by simp) hpath'.symm
  -- the path goes over the many-to-many field and spells the name of the link table after it
  obtain ⟨before, last, rfl⟩ := List.eq_nil_or_concat rest |>.resolve_left hrest
  have hcons : f.name :: names = last :: (before.reverse ++ (f'.name :: names')) := by
    apply List.reverse_injective
    rw [hsplit]
    simp
  obtain ⟨hlast, hnames⟩ := List.cons.inj hcons
  rw [hnames] at hp
  obtain ⟨q, hq, hspell⟩ := hp.split h.labels
  obtain ⟨target, ht, hlabel, -⟩ := h.leads_cons hp' hm' hf' hl' hq
  have hq' : modelOf s q = .ok target :=
    modelOf_ok_iff.mpr ⟨_, hlabel, h.labels.get?_eq (Schema.relatedModel_mem ht)⟩
  have htarget := Schema.relatedModel_none ht
  rw [Schema.relatedModel_of_link hlink'] at htarget
  refine h.clear.apart m' (mem_models_of_modelOf hm') f' hf' _ _ _ _ _ hlink' target htarget
    (before ++ [f.name]) ?_ ?_
  · have := hspell m target [f.name] hm hq' (.last hf hl)
    rwa [List.reverse_reverse] at this
  · rw [hlast, ← hthrough, List.concat_eq_append]

/-- A relation that is found by the path of a field is on its other side. -/
theorem otherSide_of_path (h : Rooted s rs) (hp : Leads s rs names parent)
    (hm : modelOf s parent = .ok m) (hf : f ∈ m.fields) (hl : f.link.isSome) (hr : r ∈ rs)
    (hpath : r.path = pathOf parent f) : OtherSide s rs parent m f r := by
  cases hmodel : r.model with
  | none => exact absurd (h.traced.link r hr hmodel) (h.not_linkTable hp hm hf hl hpath)
  | some label =>
    obtain ⟨names', hlead⟩ := h.traced.led r hr (by rw [hmodel]; rfl)
    rw [h.path_eq hlead, h.pathOf_eq hp] at hpath
    obtain rfl := h.names_eq hlead.names_subset (hp.cons_subset hm hf hl) hpath
    exact h.leads_cons hp hm hf hl hlead

end Rooted

/-- The relation was joined for something else that has the path of the field: it is the master, a
link table, or on the other side of another field. -/
def Elsewhere (s : Scope) (rs : List Relation) (parent : Relation) (f : Field)
    (r : Relation) : Prop :=
  r.path = pathOf parent f ∧
    (r = s.master ∨ LinkTable s rs r ∨ ∃ parent' m' f', ¬ (parent' = parent ∧ f' = f) ∧
      modelOf s parent' = .ok m' ∧ f' ∈ m'.fields ∧ OtherSide s rs parent' m' f' r)

theorem Traced.otherSide_or_elsewhere (ht : Traced s rs) (hm : modelOf s parent = .ok m)
    (hr : r ∈ rs) (hpath : r.path = pathOf parent f) :
    OtherSide s rs parent m f r ∨ Elsewhere s rs parent f r := by
  cases hmodel : r.model with
  | none => exact .inr ⟨hpath, .inr (.inl (ht.link r hr hmodel))⟩
  | some label =>
    obtain ⟨names, hlead⟩ := ht.led r hr (by rw [hmodel]; rfl)
    cases hlead with
    | master => exact .inr ⟨hpath, .inl rfl⟩
    | @field _ parent' _ m' f' _ hm' hf' _ _ hside =>
      by_cases hsame : parent' = parent ∧ f' = f
      · obtain ⟨rfl, rfl⟩ := hsame
        obtain rfl : m' = m := Except.ok.inj (hm'.symm.trans hm)
        exact .inl hside
      · exact .inr ⟨hpath, .inr (.inr ⟨parent', m', f', hsame, hm', hf', hside⟩)⟩

/-- In every state that joins can reach, following a link of a relation gives the relation of the
model on the other side, linked as the field says, unless something else that was joined before has
the path of the field. In a clear schema nothing else has it: whether it was joined just now or
found by its path, the relation is the right one, and attribute paths lead to the same relation only
if they are the same. -/
theorem joinField_otherSide {models : List Model} {master : Model} {knownAs : Option String}
    (hschema : Schema.build models = .ok s.schema) (hmaster : s.master = .master master knownAs)
    (hrs : Grows s [s.master] rs) :
    (∀ parent ∈ rs, ∀ m, modelOf s parent = .ok m → ∀ f ∈ m.fields, f.link.isSome →
      ∀ r rs', joinField s parent m f rs = .ok (r, rs') →
        OtherSide s rs' parent m f r ∨ Elsewhere s rs parent f r) ∧
    (s.schema.Clear →
      (∀ parent ∈ rs, ∀ m, modelOf s parent = .ok m → ∀ f ∈ m.fields, f.link.isSome →
        ∀ r rs', joinField s parent m f rs = .ok (r, rs') →
          OtherSide s rs' parent m f r ∧
            ∃ names, Leads s rs names parent ∧ Leads s rs' (f.name :: names) r) ∧
      ∀ names names' r r', Leads s rs names r → Leads s rs names' r' →
        (r = r' ↔ names = names')) := by
  have hmodel : s.master.model.isSome := by rw [hmaster]; rfl
  have htraced := hrs.traced (.singleton hmodel)
  refine ⟨?_, ?_⟩
  · intro parent hp m hm f hf hl r rs' hjoin
    have hjoins := joinField_joins hjoin
    cases hfind : rs.find? (·.path == pathOf parent f) with
    | none => exact .inl (hjoins.otherSide hfind).1
    | some known =>
      obtain ⟨rfl, hmem, hpath⟩ := hjoins.eq_known hfind
      exact htraced.otherSide_or_elsewhere hm hmem hpath
  · intro hclear
    have hrooted : Rooted s rs :=
      ⟨hclear, Schema.build_distinct hschema, by rw [hmaster]; rfl, hmodel,
        hrs.subset (List.mem_singleton_self _), htraced⟩
    refine ⟨?_, ?_⟩
    · intro parent hp m hm f hf hl r rs' hjoin
      have hjoins := joinField_joins hjoin
      obtain ⟨names, hlead⟩ := htraced.led parent hp (isSome_of_modelOf hm)
      have hfound : OtherSide s rs' parent m f r ∧ r.path = pathOf parent f := by
        cases hfind : rs.find? (·.path == pathOf parent f) with
        | none => exact hjoins.otherSide hfind
        | some known =>
          obtain ⟨rfl, hmem, hpath⟩ := hjoins.eq_known hfind
          exact ⟨hrooted.otherSide_of_path hlead hm hf hl hmem hpath, hpath⟩
      obtain ⟨hside, hpath⟩ := hfound
      exact ⟨hside, names, hlead,
        .field (hlead.mono hjoins.subset) hm hf hjoins.mem hpath hside⟩
    · intro names names' r r' hr hr'
      constructor
      · rintro rfl
        exact hrooted.names_unique hr hr'
      · rintro rfl
        exact hrooted.leads_unique hr hr'

end Join

namespace Schema

variable {s : Schema}

/-- A schema is clear if no link has a dot in its name or shares it with another link of the model
or with a link table. -/
theorem clear_of_names
    (hnames : ∀ name ∈ s.linkNames, name ≠ "" ∧ '.' ∉ name.toList)
    (hdistinct : ∀ m ∈ s.models, ((m.fields.filter (·.link.isSome)).map (·.name)).Nodup)
    (htables : ∀ table ∈ s.linkTables, '.' ∉ table.toList ∧ table ∉ s.linkNames) : s.Clear where
  named := hnames
  distinct := hdistinct
  apart := by
    intro m hm f hf _ through _ _ _ hl n hn names hspells
    obtain ⟨hdot, hname⟩ := htables through (mem_linkTables hm hf hl)
    cases hspells with
    | last hg hlink =>
      rintro rfl
      exact hname (mem_linkNames (resolveModel_mem hn).1 hg hlink)
    | @next _ _ g names _ _ hrest =>
      rintro rfl
      have hne : names ≠ [] := by
        cases hrest <;> simp
      refine hdot ?_
      rw [Text.join_cons g.name hne]
      simp

end Schema

namespace Join

open Steps

theorem joinField_otherSide_shelf :
    ∃ schema model other f inverse r rs r' rs', Schema.build Sample.shelf = .ok schema ∧
      schema.Clear ∧ schema.resolveModel "B" none = .ok model ∧ model.field? "as" = some f ∧
      joinField (.top schema {} model {}) (.master model none) model f [.master model none]
        = .ok (r, rs) ∧
      rs.length = 3 ∧ modelOf (.top schema {} model {}) r = .ok other ∧
      other.field? "b" = some inverse ∧
      joinField (.top schema {} model {}) r other inverse rs = .ok (r', rs') ∧ rs'.length = 5 ∧
      OtherSide (.top schema {} model {}) rs' r other inverse r' ∧
      Leads (.top schema {} model {}) rs' ["b", "as"] r' := by
  have h : ((Schema.build Sample.shelf).toOption.bind fun schema =>
      (schema.resolveModel "B" none).toOption.bind fun model =>
      (model.field? "as").bind fun f =>
      (joinField (.top schema {} model {}) (.master model none) model f
        [.master model none]).toOption.bind fun p =>
      (modelOf (.top schema {} model {}) p.1).toOption.bind fun other =>
      (other.field? "b").bind fun inverse =>
      (joinField (.top schema {} model {}) p.1 other inverse p.2).toOption.map fun p' =>
      decide ((∀ name ∈ schema.linkNames, name ≠ "" ∧ '.' ∉ name.toList) ∧
        (∀ m ∈ schema.models, ((m.fields.filter (·.link.isSome)).map (·.name)).Nodup) ∧
        (∀ table ∈ schema.linkTables, '.' ∉ table.toList ∧ table ∉ schema.linkNames) ∧
        f.link.isSome ∧ inverse.link.isSome ∧ p.2.length = 3 ∧ p'.2.length = 5)) = some true := by
    decide +kernel
  simp only [Option.bind_eq_some_iff, Option.map_eq_some_iff, toOption_eq_some_iff,
    decide_eq_true_eq] at h
  obtain ⟨schema, hschema, model, hmodel, f, hf, ⟨r, rs⟩, hjoin, other, hother, inverse, hinverse,
    ⟨r', rs'⟩, hjoin', hnames, hdistinct, htables, hl, hl', hlength, hlength'⟩ := h
  have hclear := Schema.clear_of_names hnames hdistinct htables
  have hm : modelOf (.top schema {} model {}) (.master model none) = .ok model :=
    modelOf_ok_iff.mpr ⟨_, rfl,
      (Schema.build_distinct hschema).get?_eq (Schema.resolveModel_mem hmodel).1⟩
  have hmaster := List.mem_singleton_self (Relation.master model none)
  -- the first link is followed from the master alone
  obtain ⟨hfirst, hunique⟩ :=
    (joinField_otherSide (s := .top schema {} model {}) hschema rfl (.refl _)).2 hclear
  obtain ⟨-, names, hstart, hlead⟩ := hfirst _ hmaster model hm f (field?_mem hf) hl r rs hjoin
  obtain rfl := (hunique names [] _ _ hstart .master).mp rfl
  -- the second one from what it has joined
  obtain ⟨hgrows, hr⟩ := Grows.join hmaster hm (field?_mem hf) hjoin
  obtain ⟨hsecond, hunique⟩ :=
    (joinField_otherSide (s := .top schema {} model {}) hschema rfl hgrows).2 hclear
  obtain ⟨hside, names, hstart, hlead'⟩ :=
    hsecond r hr other hother inverse (field?_mem hinverse) hl' r' rs' hjoin'
  obtain rfl := (hunique names _ _ _ hstart hlead).mp rfl
  rw [field?_name hf, field?_name hinverse] at hlead'
  exact ⟨schema, model, other, f, inverse, r, rs, r', rs', hschema, hclear, hmodel, hf, hjoin,
    hlength, hother, hinverse, hjoin', hlength', hside, hlead'⟩

end Join
end PathQuery
