import PathQuery.Proofs.Compile.Plan
import PathQuery.Proofs.Schema.Labels
import PathQuery.Sample.Small

/-!
A compilation stays inside the whitelist. Every table instance of every SELECT in the result, also
of sub-queries at any depth, belongs to a model that the whitelist admits, or is the link table
between two that do.
-/

namespace PathQuery

variable {schema : Schema} {w : Option Whitelist} {rs rs' : List Relation}

/-- A model of the schema that the whitelist admits. -/
def Usable (schema : Schema) (w : Option Whitelist) (m : Model) : Prop :=
  schema.get? m.label = some m ∧ Whitelist.admits w m

/-- Rows of `link` join `source` with `target`, as a many-to-many field of the model of `source`
has it. -/
def Bridges (schema : Schema) (w : Option Whitelist) (source link target : Relation) : Prop :=
  ∃ (m n : Model) (f : Field) (toModel sourceColumn targetColumn : String)
    (relatedName : Option String),
    Usable schema w m ∧ source.model = some m.label ∧
    Usable schema w n ∧ target.model = some n.label ∧
    f ∈ m.fields ∧
    f.link = some (.manyToMany toModel link.table sourceColumn targetColumn relatedName) ∧
    schema.resolveModel toModel w = .ok n ∧
    link.linkage = some ⟨source.column m.keyColumn, link.column sourceColumn⟩ ∧
    target.linkage = some ⟨link.column targetColumn, target.column n.keyColumn⟩

/-- Relations with a model have one that may be used, and those without one are link tables. -/
structure Contained (schema : Schema) (w : Option Whitelist) (rs : List Relation) : Prop where
  labelled : ∀ r ∈ rs, ∀ label, r.model = some label → ∃ m, m.label = label ∧ Usable schema w m
  bridges : ∀ r ∈ rs, r.model = none →
    ∃ source ∈ rs, ∃ target ∈ rs, Bridges schema w source r target

theorem Schema.Distinct.usable {name : String} {m : Model} (hs : schema.Distinct)
    (h : schema.resolveModel name w = .ok m) : Usable schema w m := by
  obtain ⟨hmem, hadmits⟩ := Schema.resolveModel_mem h
  exact ⟨hs.get?_eq hmem, hadmits⟩

namespace Contained

theorem singleton {m : Model} {r : Relation} (hm : Usable schema w m)
    (hr : r.model = some m.label) : Contained schema w [r] where
  labelled := by
    intro r' hr' label hlabel
    obtain rfl := List.mem_singleton.mp hr'
    rw [hr] at hlabel
    exact ⟨m, Option.some.inj hlabel, hm⟩
  bridges := by
    intro r' hr' hnone
    obtain rfl := List.mem_singleton.mp hr'
    rw [hr] at hnone
    cases hnone

/-- More relations keep what is there, so only the new ones have to be looked at. -/
theorem extend {new : List Relation} (h : Contained schema w rs)
    (hl : ∀ r ∈ new, ∀ label, r.model = some label → ∃ m, m.label = label ∧ Usable schema w m)
    (hb : ∀ r ∈ new, r.model = none →
      ∃ source ∈ rs ++ new, ∃ target ∈ rs ++ new, Bridges schema w source r target) :
    Contained schema w (rs ++ new) where
  labelled := by
    intro r hr label hlabel
    rcases List.mem_append.mp hr with hr | hr
    · exact h.labelled r hr label hlabel
    · exact hl r hr label hlabel
  bridges := by
    intro r hr hnone
    rcases List.mem_append.mp hr with hr | hr
    · obtain ⟨source, hs, target, ht, hbridge⟩ := h.bridges r hr hnone
      exact ⟨source, List.mem_append_left _ hs, target, List.mem_append_left _ ht, hbridge⟩
    · exact hb r hr hnone

theorem push {m : Model} {r : Relation} (h : Contained schema w rs) (hm : Usable schema w m)
    (hr : r.model = some m.label) : Contained schema w (rs ++ [r]) := by
  refine h.extend ?_ ?_
  · intro r' hr' label hlabel
    exact (singleton hm hr).labelled r' hr' label hlabel
  · intro r' hr' hnone
    obtain rfl := List.mem_singleton.mp hr'
    rw [hr] at hnone
    cases hnone

/-- A link table and its target are joined to a relation that is there. -/
theorem pushBridge {source link target : Relation} (h : Contained schema w rs)
    (hs : source ∈ rs) (hl : link.model = none) (hb : Bridges schema w source link target) :
    Contained schema w (rs ++ [link] ++ [target]) := by
  have hb' := hb
  obtain ⟨m, n, f, _, _, _, _, hm, hsource, hn, htarget, _⟩ := hb'
  rw [List.append_assoc]
  refine h.extend ?_ ?_
  · intro r hr label hlabel
    rcases List.mem_cons.mp hr with rfl | hr
    · rw [hl] at hlabel
      cases hlabel
    · exact (singleton hn htarget).labelled r hr label hlabel
  · intro r hr hnone
    rcases List.mem_cons.mp hr with rfl | hr
    · exact ⟨source, List.mem_append_left _ hs, target, by simp, hb⟩
    · obtain rfl := List.mem_singleton.mp hr
      rw [htarget] at hnone
      cases hnone

/-- The model that a relation is found to have is one that may be used. -/
theorem usable_of_modelOf {s : Scope} {r : Relation} {m : Model} (h : Contained schema w rs)
    (hschema : s.schema = schema) (hr : r ∈ rs) (hm : Join.modelOf s r = .ok m) :
    Usable schema w m ∧ r.model = some m.label := by
  unfold Join.modelOf at hm
  split at hm
  · next n hn =>
    cases hm
    obtain ⟨label, hlabel, hget⟩ := Option.bind_eq_some_iff.mp hn
    have hname : m.label = label := Schema.get?_label hget
    obtain ⟨m', hm', husable⟩ := h.labelled r hr label hlabel
    rw [hschema] at hget
    obtain rfl : m' = m := by
      have hsame := husable.1
      rw [hm', hget] at hsame
      exact (Option.some.inj hsame).symm
    exact ⟨husable, by rw [hname, hlabel]⟩
  · cases hm

theorem joins {s : Scope} {parent r : Relation} {m : Model} {f : Field}
    (h : Contained schema w rs) (hd : schema.Distinct) (hschema : s.schema = schema)
    (hw : s.options.whitelist = w) (hp : parent ∈ rs) (hm : Join.modelOf s parent = .ok m)
    (hf : f ∈ m.fields) (hj : Join.Joins s parent m f rs r rs') : Contained schema w rs' := by
  obtain ⟨hparent, hlabel⟩ := h.usable_of_modelOf hschema hp hm
  have resolved {name : String} {n : Model} (hn : Join.resolveModel s name = .ok n) :
      schema.resolveModel name w = .ok n := by
    rw [← hschema, ← hw]
    exact hn
  cases hj with
  | known => exact h
  | forward _ _ ht _ hr => exact h.push (hd.usable (resolved ht)) (by rw [hr]; rfl)
  | reverse _ _ ht _ _ hr => exact h.push (hd.usable (resolved ht)) (by rw [hr]; rfl)
  | @bridge toModel _ sourceColumn targetColumn relatedName n _ _ _ hlink ht hl hr =>
    refine h.pushBridge hp (by rw [hl]; rfl) ⟨m, n, f, toModel, sourceColumn, targetColumn,
      relatedName, hparent, hlabel, hd.usable (resolved ht), by rw [hr]; rfl, hf, ?_,
      resolved ht, ?_, ?_⟩
    · rw [hl]
      exact hlink
    · rw [hl]
      rfl
    · rw [hr]
      rfl

theorem grows {s : Scope} (h : Contained schema w rs) (hd : schema.Distinct)
    (hschema : s.schema = schema) (hw : s.options.whitelist = w) (hg : Join.Grows s rs rs') :
    Contained schema w rs' := by
  induction hg with
  | refl => exact h
  | step hp hm hf hj _ ih => exact ih (h.joins hd hschema hw hp hm hf hj)

end Contained

/-- A scope in the schema and under the whitelist, with a model that may be used. -/
structure Scope.Inside (schema : Schema) (w : Option Whitelist) (s : Scope) : Prop where
  schema_eq : s.schema = schema
  whitelist_eq : s.options.whitelist = w
  master : ∃ m, Usable schema w m ∧ s.master.model = some m.label

theorem Scope.Inside.below {s : Scope} {name : String} {m : Model} {outer : Option Outer}
    {joinTypes : Table JoinType} {trail : List String} (h : s.Inside schema w)
    (hd : schema.Distinct) (hm : Join.resolveModel s name = .ok m) :
    (s.below rs m outer joinTypes trail).Inside schema w where
  schema_eq := h.schema_eq
  whitelist_eq := h.whitelist_eq
  master := by
    have hresolved : schema.resolveModel name w = .ok m := by
      rw [← h.schema_eq, ← h.whitelist_eq]
      exact hm
    exact ⟨m, hd.usable hresolved, rfl⟩

namespace Compile

open Steps

/-- The relations gathered so far and those of the sub-queries stay inside. -/
structure Gathered.Contained (schema : Schema) (w : Option Whitelist) (s : Scope)
    (g : Gathered) : Prop where
  master : s.master ∈ g.relations
  relations : PathQuery.Contained schema w g.relations
  nested : ∀ plan ∈ g.nested, PathQuery.Contained schema w plan.relations

theorem Step.contained {f : Frame} {g g' : Gathered} (hd : schema.Distinct)
    (hs : f.scope.Inside schema w)
    (hn : ∀ scope s t, f.nested scope s = .ok t → scope.Inside schema w →
      ∀ plan ∈ t.select :: t.nested, PathQuery.Contained schema w plan.relations)
    (h : Step f g g') (hg : Gathered.Contained schema w f.scope g) :
    Gathered.Contained schema w f.scope g' := by
  cases h with
  | path hp =>
    have hgrows := Join.resolvePath_grows hg.master hp
    exact ⟨hgrows.subset hg.master, hg.relations.grows hd hs.schema_eq hs.whitelist_eq hgrows,
      hg.nested⟩
  | nested hsub ht _ =>
    refine ⟨hg.master, hg.relations, ?_⟩
    intro plan hplan
    rcases List.mem_append.mp hplan with hplan | hplan
    · exact hg.nested plan hplan
    · cases hsub with
      | correlated hm => exact hn _ _ _ ht (hs.below hd hm) plan hplan
      | named _ hm => exact hn _ _ _ ht (hs.below hd hm) plan hplan
  | values => exact ⟨hg.master, hg.relations, hg.nested⟩
  | text => exact ⟨hg.master, hg.relations, hg.nested⟩
  | call => exact ⟨hg.master, hg.relations, hg.nested⟩

theorem templateWithin_contained {registry : Registry} {n : Nat} {scope : Scope} {s : Statement}
    {t : Template} (hd : schema.Distinct) (h : templateWithin registry n scope s = .ok t)
    (hs : scope.Inside schema w) :
    ∀ plan ∈ t.select :: t.nested, PathQuery.Contained schema w plan.relations := by
  refine templateWithin_induction (P := fun scope _ t => scope.Inside schema w →
    ∀ plan ∈ t.select :: t.nested, PathQuery.Contained schema w plan.relations) ?_ n h hs
  intro nested hnested scope s t ht hs plan hplan
  obtain ⟨g, hrun, hrelations, hgathered⟩ := select_run ht
  obtain ⟨m, hm, hmaster⟩ := hs.master
  have hstart : Gathered.Contained schema w scope { relations := [scope.master] } :=
    ⟨by simp, .singleton hm hmaster, by simp⟩
  have hend := hrun.invariant (fun g g' hstep => hstep.contained hd hs hnested) hstart
  rcases List.mem_cons.mp hplan with rfl | hplan
  · rw [hrelations]
    exact hend.relations
  · rw [hgathered] at hplan
    exact hend.nested plan hplan

/-- Compiled for a model that the whitelist admits, a statement uses only models that it admits,
and link tables between them, in itself and in every sub-query. -/
theorem template_contained {models : List Model} {options : Options} {name : String}
    {model : Model} {joinTypes : Table JoinType} {registry : Registry} {s : Statement}
    {t : Template} (hschema : Schema.build models = .ok schema)
    (hmodel : schema.resolveModel name options.whitelist = .ok model)
    (h : template registry (.top schema options model joinTypes) s = .ok t) :
    ∀ plan ∈ t.select :: t.nested, Contained schema options.whitelist plan.relations := by
  have hd := Schema.build_distinct hschema
  exact templateWithin_contained hd h ⟨rfl, rfl, model, hd.usable hmodel, rfl⟩

def shelfStatement : Statement :=
  { select := "as.id as x, subquery('A', 'id as i') as y", filter := some "id in '@o'" }

theorem template_contained_shelf :
    ∃ schema model t, Schema.build Sample.shelf = .ok schema ∧
      schema.resolveModel "B" (some ⟨⟨[("s", ["B", "A"])]⟩⟩) = .ok model ∧
      template ⟨[("o", .query { model := "A", select := "id as i" })]⟩
        (.top schema { whitelist := some ⟨⟨[("s", ["B", "A"])]⟩⟩ } model {}) shelfStatement
        = .ok t ∧
      t.select.relations.length = 3 ∧ t.nested.length = 2 ∧
      ∀ plan ∈ t.select :: t.nested,
        Contained schema (some ⟨⟨[("s", ["B", "A"])]⟩⟩) plan.relations := by
  have h : ((Schema.build Sample.shelf).toOption.bind fun schema =>
      (schema.resolveModel "B" (some ⟨⟨[("s", ["B", "A"])]⟩⟩)).toOption.bind fun model =>
      (template ⟨[("o", .query { model := "A", select := "id as i" })]⟩
        (.top schema { whitelist := some ⟨⟨[("s", ["B", "A"])]⟩⟩ } model {})
        shelfStatement).toOption.map fun t =>
      (t.select.relations.length, t.nested.length)) = some (3, 2) := by decide +kernel
  simp only [Option.bind_eq_some_iff, Option.map_eq_some_iff, toOption_eq_some_iff,
    Prod.mk.injEq] at h
  obtain ⟨schema, hschema, model, hmodel, t, ht, hrelations, hnested⟩ := h
  exact ⟨schema, model, t, hschema, hmodel, ht, hrelations, hnested,
    template_contained hschema hmodel ht⟩

end Compile
end PathQuery
