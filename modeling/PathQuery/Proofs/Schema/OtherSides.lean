import Mathlib.Data.String.Basic
import PathQuery.Proofs.Schema.Labels
import PathQuery.Proofs.Steps

/-!
What a schema is built to. Every model keeps its fields, with their columns filled in and the
targets of their links qualified, and is given a field for each foreign key and many-to-many link to
it: the other side of the link, under a name that no other field of the model has.
-/

namespace PathQuery

/-- Whether a field is a foreign key or a many-to-many link to the model of a label, and not itself
made for another link. -/
def Field.isLinkTo (f : Field) (label : String) : Bool :=
  !f.autoCreated &&
    match f.link with
    | some (.foreignKey toModel ..) | some (.manyToMany toModel ..) => toModel == label
    | _ => false

namespace Schema

/-! ### What is declared and what is added -/

/-- The model that `target` names inside the namespace `ns`. A dotted name is a label. Any other one
is looked for in the namespace, and then among all models, where the least label wins. -/
inductive Denotes (models : List Model) (ns target : String) (m : Model) : Prop
  | label (hm : m ∈ models) (hdot : '.' ∈ target.toList) (h : m.label = target)
  | near (hm : m ∈ models) (hdot : '.' ∉ target.toList) (h : m.label = ns ++ "." ++ target)
  | far (hm : m ∈ models) (hdot : '.' ∉ target.toList)
      (hfar : ∀ n ∈ models, n.label ≠ ns ++ "." ++ target) (h : m.name = target)
      (hleast : ∀ n ∈ models, n.name = target → ¬ n.label < m.label)

/-- A field with its column filled in and its target qualified, and not changed otherwise. -/
structure Completes (models : List Model) (ns : String) (f f' : Field) : Prop where
  same : f' = { f with column := f.column.or (defaultColumn f), link := f'.link }
  link : Option.Rel (fun l l' => ∃ t, Denotes models ns l.target t ∧ l' = l.withTarget t.label)
    f.link f'.link

/-- The field for the other side of a link of `m`. A many-to-many link has the same link table from
there, with its columns swapped. -/
inductive Inverts (m : Model) (f : Field) : Field → Prop
  | foreignKey {toModel : String} {toField relatedName : Option String}
      (h : f.link = some (.foreignKey toModel toField relatedName)) :
      Inverts m f { name := relatedName.getD (Text.lower m.name), type := .reverse,
                    nullable := true, autoCreated := true, link := some (.reverse m.label f.name) }
  | manyToMany {toModel through source target : String} {relatedName : Option String}
      (h : f.link = some (.manyToMany toModel through source target relatedName)) :
      Inverts m f { name := relatedName.getD (Text.lower m.name), type := .manyToMany,
                    nullable := true, autoCreated := true,
                    link := some (.manyToMany m.label through target source none) }

/-- The links to the model of a label, each with the model that has it. -/
def linksTo (s : Schema) (label : String) : List (Model × Field) :=
  s.models.flatMap fun m => (m.fields.filter (·.isLinkTo label)).map (m, ·)

theorem mem_linksTo {s : Schema} {label : String} {p : Model × Field} :
    p ∈ s.linksTo label ↔ p.1 ∈ s.models ∧ p.2 ∈ p.1.fields ∧ p.2.isLinkTo label := by
  simp only [linksTo, List.mem_flatMap, List.mem_map, List.mem_filter]
  constructor
  · rintro ⟨m, hm, f, hf, rfl⟩
    exact ⟨hm, hf⟩
  · rintro ⟨hm, hf⟩
    exact ⟨p.1, hm, p.2, hf, rfl⟩

/-- A model of the schema as it was declared, and after its own fields the other sides of the links
to it, one for each link. -/
structure Extends (s : Schema) (m built : Model) : Prop where
  same : built = { m with fields := built.fields }
  fields : ∃ declared added, built.fields = declared ++ added ∧
    List.Forall₂ (Completes s.models m.ns) m.fields declared ∧
    List.Forall₂ (fun p g => Inverts p.1 p.2 g) (s.linksTo built.label) added ∧
    (added.map (·.name)).Nodup ∧ ∀ g ∈ added, ∀ f ∈ declared, g.name ≠ f.name

/-! ### The order of the models -/

/-- The models are in the order of their labels. -/
def Sorted (models : List Model) : Prop :=
  models.Pairwise fun a b => a.label < b.label

variable {models placed built completed : List Model} {m b : Model} {s : Schema}

theorem arrange_perm (h : arrange placed models = .ok built) : built.Perm (placed ++ models) := by
  induction models generalizing placed with
  | nil =>
    cases h
    rw [List.append_nil]
  | cons m rest ih =>
    simp only [arrange] at h
    split at h
    · cases h
    · have hplaced := (place_perm m placed).append_right rest
      exact (ih h).trans (hplaced.trans List.perm_middle.symm)

theorem Sorted.place (h : Sorted placed) (hm : ∀ n ∈ placed, n.label ≠ m.label) :
    Sorted (place m placed) := by
  induction placed with
  | nil => exact List.pairwise_singleton ..
  | cons n rest ih =>
    obtain ⟨hn, hrest⟩ := List.pairwise_cons.mp h
    rw [List.forall_mem_cons] at hm
    rw [Schema.place]
    split
    · next hless =>
      refine List.pairwise_cons.mpr ⟨?_, h⟩
      intro x hx
      rcases List.mem_cons.mp hx with rfl | hx
      · exact hless
      · exact hless.trans (hn x hx)
    · next hless =>
      have hlater : n.label < m.label := lt_of_le_of_ne (not_lt.mp hless) hm.1
      refine List.pairwise_cons.mpr ⟨?_, ih hrest hm.2⟩
      intro x hx
      rcases List.mem_cons.mp ((place_perm m rest).mem_iff.mp hx) with rfl | hx
      · exact hlater
      · exact hn x hx

theorem arrange_sorted (hp : Sorted placed) (h : arrange placed models = .ok built) :
    Sorted built := by
  induction models generalizing placed with
  | nil =>
    cases h
    exact hp
  | cons m rest ih =>
    simp only [arrange] at h
    split at h
    · cases h
    · next hnew =>
      refine ih (hp.place ?_) h
      simpa using hnew

/-! ### Completing -/

theorem mem_of_find?_sorted {target : String} (hs : Sorted models)
    (h : models.find? (·.name == target) = some m) :
    ∀ n ∈ models, n.name = target → ¬ n.label < m.label := by
  obtain ⟨-, before, after, rfl, hbefore⟩ := List.find?_eq_some_iff_append.mp h
  intro n hn hname
  rcases List.mem_append.mp hn with hn | hn
  · have hother := hbefore n hn
    simp [hname] at hother
  · rcases List.mem_cons.mp hn with rfl | hn
    · exact lt_irrefl _
    · have hlater := (List.pairwise_cons.mp (List.pairwise_append.mp hs).2.1).1 n hn
      exact hlater.asymm

/-- A target is qualified to the label of the model that it names. -/
theorem qualify_denotes {ns target label : String} (hs : Sorted models)
    (h : qualify models ns target = .ok label) :
    ∃ t, Denotes models ns target t ∧ label = t.label := by
  simp only [qualify] at h
  split at h
  · next hdot =>
    split at h
    · next hany =>
      cases h
      obtain ⟨t, ht, hlabel⟩ := List.any_eq_true.mp hany
      exact ⟨t, .label ht (by simpa using hdot) (beq_iff_eq.mp hlabel), (beq_iff_eq.mp hlabel).symm⟩
    · cases h
  · next hdot =>
    have hdot : '.' ∉ target.toList := by simpa using hdot
    split at h
    · next hany =>
      cases h
      obtain ⟨t, ht, hlabel⟩ := List.any_eq_true.mp hany
      exact ⟨t, .near ht hdot (beq_iff_eq.mp hlabel), (beq_iff_eq.mp hlabel).symm⟩
    · next hfar =>
      split at h
      · next t ht =>
        cases h
        have hname := List.find?_some ht
        exact ⟨t, .far (List.mem_of_find?_eq_some ht) hdot (by simpa using hfar)
          (beq_iff_eq.mp hname) (mem_of_find?_sorted hs ht), rfl⟩
      · cases h

theorem completeField_completes {ns : String} {f f' : Field} (hs : Sorted models)
    (h : completeField models ns f = .ok f') : Completes models ns f f' := by
  simp only [completeField] at h
  split at h
  · next hlink =>
    cases h
    exact ⟨by simp, by simp only [hlink]; exact .none⟩
  · next link hlink =>
    split at h
    · next label hlabel =>
      cases h
      refine ⟨rfl, ?_⟩
      rw [hlink]
      obtain ⟨t, ht, rfl⟩ := qualify_denotes hs hlabel
      exact .some ⟨t, ht, rfl⟩
    · cases h

theorem completeModel_completes (hs : Sorted models) (h : completeModel models m = .ok b) :
    b = { m with fields := b.fields } ∧
      List.Forall₂ (Completes models m.ns) m.fields b.fields := by
  simp only [completeModel, bind, Except.bind] at h
  split at h
  · cases h
  · next fields hfields =>
    cases h
    exact ⟨rfl, (Lists.forall₂_of_mapM hfields).imp fun _ _ => completeField_completes hs⟩

/-! ### Adding the other sides -/

/-- The fields that go to the model of a label. -/
def sidesOf (sides : List (String × Field)) (label : String) : List Field :=
  (sides.filter (·.1 == label)).map (·.2)

/-- A model with the fields that go to it at the end, each under a name that is free there. -/
structure Gains (sides : List (String × Field)) (m built : Model) : Prop where
  eq : built = { m with fields := m.fields ++ sidesOf sides m.label }
  nodup : ((sidesOf sides m.label).map (·.name)).Nodup
  fresh : ∀ g ∈ sidesOf sides m.label, ∀ f ∈ m.fields, g.name ≠ f.name

theorem Gains.label_eq {sides : List (String × Field)} (h : Gains sides m b) :
    b.label = m.label := by
  rw [h.eq]
  rfl

theorem gains_nil (m : Model) : Gains [] m m :=
  ⟨by simp [sidesOf], by simp [sidesOf], by simp [sidesOf]⟩

theorem gains_other {label : String} {f : Field} (h : m.label ≠ label) :
    Gains [(label, f)] m m := by
  have hnone : sidesOf [(label, f)] m.label = [] := by simp [sidesOf, Ne.symm h]
  exact ⟨by simp [hnone], by simp [hnone], by simp [hnone]⟩

theorem gains_self {f : Field} (h : m.field? f.name = none) :
    Gains [(m.label, f)] m { m with fields := m.fields ++ [f] } := by
  have hone : sidesOf [(m.label, f)] m.label = [f] := by simp [sidesOf]
  refine ⟨by rw [hone], by simp [hone], ?_⟩
  rw [hone]
  intro g hg x hx hname
  rw [List.mem_singleton.mp hg] at hname
  have hother := List.find?_eq_none.mp h x hx
  simp [hname] at hother

/-- Fields that are added one after the other. -/
theorem Gains.trans {sides more : List (String × Field)} {mid : Model} (h : Gains sides m mid)
    (h' : Gains more mid b) : Gains (sides ++ more) m b := by
  have hmid := h.eq
  have hsides :
      sidesOf (sides ++ more) m.label = sidesOf sides m.label ++ sidesOf more m.label := by
    simp [sidesOf]
  obtain ⟨heq, hnodup, hfresh⟩ := h'
  rw [h.label_eq] at heq hnodup hfresh
  rw [hmid] at heq hfresh
  simp only [List.mem_append] at hfresh
  refine ⟨?_, ?_, ?_⟩
  · rw [heq, hsides, List.append_assoc]
  · rw [hsides, List.map_append, List.nodup_append]
    refine ⟨h.nodup, hnodup, ?_⟩
    intro x hx y hy hxy
    obtain ⟨f, hf, rfl⟩ := List.mem_map.mp hx
    obtain ⟨g, hg, rfl⟩ := List.mem_map.mp hy
    exact hfresh g hg f (.inr hf) hxy.symm
  · rw [hsides]
    intro g hg f hf
    rcases List.mem_append.mp hg with hg | hg
    · exact h.fresh g hg f hf
    · exact hfresh g hg f (.inl hf)

theorem addField_gains {label : String} {f : Field} (hd : (models.map Model.label).Nodup)
    (h : addField label f models = .ok built) :
    List.Forall₂ (Gains [(label, f)]) models built := by
  induction models generalizing built with
  | nil =>
    cases h
    exact .nil
  | cons m rest ih =>
    rw [List.map_cons, List.nodup_cons] at hd
    simp only [addField] at h
    split at h
    · next hlabel =>
      obtain rfl := beq_iff_eq.mp hlabel
      split at h
      · cases h
      · next hfree =>
        cases h
        refine .cons (gains_self (by simpa using hfree)) (List.forall₂_same.mpr ?_)
        intro n hn
        exact gains_other fun hsame => hd.1 (hsame ▸ List.mem_map_of_mem hn)
    · next hlabel =>
      split at h
      · next hrest =>
        cases h
        exact .cons (gains_other (by simpa using hlabel)) (ih hd.2 hrest)
      · cases h

theorem addFields_gains {sides : List (String × Field)} (hd : (models.map Model.label).Nodup)
    (h : addFields sides models = .ok built) : List.Forall₂ (Gains sides) models built := by
  induction sides generalizing models with
  | nil =>
    cases h
    exact List.forall₂_same.mpr fun m _ => gains_nil m
  | cons side rest ih =>
    obtain ⟨label, f⟩ := side
    simp only [addFields] at h
    split at h
    · next mid hmid =>
      have hrest := ih (by rwa [addField_labels hmid]) h
      refine Lists.forall₂_comp ?_ (addField_gains hd hmid) hrest
      intro _ _ _ hfirst hlater
      exact hfirst.trans hlater
    · cases h

/-! ### Links and their other sides -/

theorem isLinkTo_eq_false {f : Field} (h : otherSide? m f = none) (label : String) :
    f.isLinkTo label = false := by
  unfold otherSide? at h
  unfold Field.isLinkTo
  split at h
  · next hauto => simp [hauto]
  · cases hlink : f.link with
    | none => simp
    | some link =>
      rw [hlink] at h
      cases link with
      | foreignKey => cases h
      | manyToMany => cases h
      | reverse => simp

theorem otherSide?_inverts {f g : Field} {label : String} (h : otherSide? m f = some (label, g)) :
    Inverts m f g ∧ ∀ l, f.isLinkTo l = (label == l) := by
  unfold otherSide? at h
  split at h
  · cases h
  · next hauto =>
    split at h
    · next hlink =>
      cases h
      exact ⟨.foreignKey hlink, fun l => by simp [Field.isLinkTo, hauto, hlink]⟩
    · next hlink =>
      cases h
      exact ⟨.manyToMany hlink, fun l => by simp [Field.isLinkTo, hauto, hlink]⟩
    · cases h

/-- The links of a model to another one and the fields that the other one gets for them. -/
theorem inverts_sidesOf (m : Model) (fields : List Field) (label : String) :
    List.Forall₂ (Inverts m) (fields.filter (·.isLinkTo label))
      (sidesOf (fields.filterMap (otherSide? m)) label) := by
  induction fields with
  | nil => exact .nil
  | cons f rest ih =>
    cases hside : otherSide? m f with
    | none =>
      rw [List.filterMap_cons_none hside, List.filter_cons_of_neg
        (by simp [isLinkTo_eq_false hside])]
      exact ih
    | some side =>
      obtain ⟨label', g⟩ := side
      obtain ⟨hinverts, hlink⟩ := otherSide?_inverts hside
      rw [List.filterMap_cons_some hside]
      by_cases hlabel : label' = label
      · subst hlabel
        rw [List.filter_cons_of_pos (by simp [hlink]), sidesOf,
          List.filter_cons_of_pos (by simp), List.map_cons]
        exact .cons hinverts ih
      · rw [List.filter_cons_of_neg (by simpa [hlink] using hlabel), sidesOf,
          List.filter_cons_of_neg (by simpa using hlabel)]
        exact ih

theorem Inverts.isLinkTo {f g : Field} (h : Inverts m f g) (label : String) :
    g.isLinkTo label = false := by
  cases h <;> rfl

theorem sidesOf_otherSides (models : List Model) (label : String) :
    sidesOf (otherSides models) label =
      models.flatMap fun m => sidesOf (m.fields.filterMap (otherSide? m)) label := by
  simp only [sidesOf, otherSides, List.filter_flatMap, List.map_flatMap]

theorem mem_sidesOf_otherSides {label : String} {g : Field}
    (h : g ∈ sidesOf (otherSides models) label) : ∃ m f, Inverts m f g := by
  obtain ⟨side, hside, rfl⟩ := List.mem_map.mp h
  obtain ⟨m, -, hside⟩ := List.mem_flatMap.mp (List.mem_filter.mp hside).1
  obtain ⟨f, -, hside⟩ := List.mem_filterMap.mp hside
  exact ⟨m, f, (otherSide?_inverts hside).1⟩

/-- What is added to the models makes no further links: the links of the schema are those that were
declared, and each has its other side. -/
theorem inverts_linksTo (h : List.Forall₂ (Gains (otherSides completed)) completed s.models)
    (label : String) :
    List.Forall₂ (fun p g => Inverts p.1 p.2 g) (s.linksTo label)
      (sidesOf (otherSides completed) label) := by
  have hone (m b : Model) (hgains : Gains (otherSides completed) m b) :
      List.Forall₂ (fun p g => Inverts p.1 p.2 g)
        ((b.fields.filter (·.isLinkTo label)).map (b, ·))
        (sidesOf (m.fields.filterMap (otherSide? m)) label) := by
    have hnone : (sidesOf (otherSides completed) m.label).filter (·.isLinkTo label) = [] := by
      rw [List.filter_eq_nil_iff]
      intro g hg
      obtain ⟨_, _, hinverts⟩ := mem_sidesOf_otherSides hg
      simp [hinverts.isLinkTo]
    rw [hgains.eq, List.filter_append, hnone, List.append_nil, List.forall₂_map_left_iff]
    refine (inverts_sidesOf m m.fields label).imp ?_
    intro f g hinverts
    cases hinverts with
    | foreignKey hlink => exact .foreignKey hlink
    | manyToMany hlink => exact .manyToMany hlink
  rw [sidesOf_otherSides, linksTo]
  exact List.rel_flatMap h.flip fun b m hgains => hone m b hgains

/-! ### Building -/

theorem Denotes.mem {ns target : String} (h : Denotes models ns target m) : m ∈ models := by
  cases h <;> assumption

/-- What a target names depends on the labels and the names of the models only. -/
theorem Denotes.transfer {ns target : String}
    (hsame : List.Forall₂ (fun m b => b.label = m.label ∧ b.name = m.name) models built)
    (h : Denotes models ns target m) : ∃ b, Denotes built ns target b ∧ b.label = m.label := by
  obtain ⟨b, hb, hlabel, hname⟩ := Lists.exists_of_forall₂ hsame h.mem
  refine ⟨b, ?_, hlabel⟩
  cases h with
  | label _ hdot h => exact .label hb hdot (hlabel.trans h)
  | near _ hdot h => exact .near hb hdot (hlabel.trans h)
  | far _ hdot hfar h hleast =>
    refine .far hb hdot ?_ (hname.trans h) ?_
    · intro n hn
      obtain ⟨m, hm, hlabel, -⟩ := Lists.exists_of_forall₂ hsame.flip hn
      rw [hlabel]
      exact hfar m hm
    · intro n hn htarget
      obtain ⟨m, hm, hlabel', hname'⟩ := Lists.exists_of_forall₂ hsame.flip hn
      rw [hlabel, hlabel']
      exact hleast m hm (hname'.symm.trans htarget)

theorem Completes.transfer {ns : String} {f f' : Field}
    (hsame : List.Forall₂ (fun m b => b.label = m.label ∧ b.name = m.name) models built)
    (h : Completes models ns f f') : Completes built ns f f' := by
  obtain ⟨heq, hlink⟩ := h
  refine ⟨heq, ?_⟩
  generalize f.link = link, f'.link = link' at hlink
  cases hlink with
  | none => exact .none
  | some hlink =>
    obtain ⟨t, ht, rfl⟩ := hlink
    obtain ⟨b, hb, hlabel⟩ := ht.transfer hsame
    exact .some ⟨b, hb, by rw [hlabel]⟩

theorem Completes.target {ns : String} {f f' : Field} {link : Link}
    (h : Completes models ns f f') (hlink : f'.link = some link) :
    ∃ m ∈ models, m.label = link.target := by
  have hrel := h.link
  rw [hlink] at hrel
  generalize f.link = declared at hrel
  cases hrel with
  | @some l _ hlink =>
    obtain ⟨t, ht, rfl⟩ := hlink
    exact ⟨t, ht.mem, by cases l <;> rfl⟩

theorem Inverts.target {f g : Field} {link : Link} (h : Inverts m f g)
    (hlink : g.link = some link) : m.label = link.target := by
  cases h <;> (cases hlink; rfl)

/-- The models that a schema is built from, completed, and then each with what it gains. -/
theorem build_ok (h : build models = .ok s) :
    ∃ arranged completed, arranged.Perm models ∧ Sorted arranged ∧
      List.Forall₂ (fun m b => completeModel arranged m = .ok b) arranged completed ∧
      List.Forall₂ (Gains (otherSides completed)) completed s.models := by
  have hd := build_distinct h
  simp only [build, bind, Except.bind] at h
  split at h
  · cases h
  · next arranged harranged =>
    split at h
    · cases h
    · next completed hcompleted =>
      split at h
      · cases h
      · next added hadded =>
        cases h
        refine ⟨arranged, completed, by simpa using arrange_perm harranged,
          arrange_sorted .nil harranged, Lists.forall₂_of_mapM hcompleted,
          addFields_gains ?_ hadded⟩
        rw [← addFields_labels hadded]
        exact hd

theorem build_extends (h : build models = .ok s) :
    ∃ arranged, arranged.Perm models ∧ List.Forall₂ (Extends s) arranged s.models := by
  obtain ⟨arranged, completed, hperm, hsorted, hcompleted, hgains⟩ := build_ok h
  have hsame : List.Forall₂ (fun m b => b.label = m.label ∧ b.name = m.name)
      arranged s.models := by
    refine Lists.forall₂_comp ?_ hcompleted hgains
    intro m c b hc hb
    rw [hb.eq, (completeModel_completes hsorted hc).1]
    exact ⟨rfl, rfl⟩
  refine ⟨arranged, hperm, Lists.forall₂_comp ?_ hcompleted hgains⟩
  intro m c b hc hb
  obtain ⟨hc, hfields⟩ := completeModel_completes hsorted hc
  refine ⟨by rw [hb.eq, hc], c.fields, sidesOf (otherSides completed) c.label, by rw [hb.eq],
    hfields.imp fun _ _ => Completes.transfer hsame, ?_, hb.nodup, hb.fresh⟩
  rw [hb.label_eq]
  exact inverts_linksTo hgains c.label

theorem names_of_completes {models : List Model} {ns : String} {fields declared : List Field}
    (h : List.Forall₂ (Completes models ns) fields declared) :
    declared.map (·.name) = fields.map (·.name) := by
  induction h with
  | nil => rfl
  | cons hf _ ih => rw [List.map_cons, List.map_cons, ih, hf.same]

/-- If the declared names differ inside each model, so do all names. -/
theorem build_names_nodup (h : build models = .ok s)
    (hnames : ∀ m ∈ models, (m.fields.map (·.name)).Nodup) :
    ∀ m ∈ s.models, (m.fields.map (·.name)).Nodup := by
  obtain ⟨arranged, hperm, hextends⟩ := build_extends h
  intro m hm
  obtain ⟨a, ha, hext⟩ := Lists.exists_of_forall₂ hextends.flip hm
  obtain ⟨declared, added, hfields, hdeclared, -, hnodup, hfresh⟩ := hext.fields
  have hkept : declared.map (·.name) = a.fields.map (·.name) := names_of_completes hdeclared
  rw [hfields, List.map_append, List.nodup_append, hkept]
  refine ⟨hnames a (hperm.mem_iff.mp ha), hnodup, ?_⟩
  intro x hx y hy hxy
  rw [← hkept] at hx
  obtain ⟨f, hf, rfl⟩ := List.mem_map.mp hx
  obtain ⟨g, hg, rfl⟩ := List.mem_map.mp hy
  exact hfresh g hg f hf hxy.symm

/-- Building a schema gives each model, after its own fields, exactly one field for each foreign key
and many-to-many link to it that was declared, under a name that no other of its fields has, and
every link of the schema names a model of it. -/
theorem build_otherSides (h : build models = .ok s) :
    (∃ arranged, arranged.Perm models ∧ List.Forall₂ (Extends s) arranged s.models) ∧
      ∀ m ∈ s.models, ∀ f ∈ m.fields, ∀ link ∈ f.link, ∃ n ∈ s.models, n.label = link.target := by
  obtain ⟨arranged, hperm, hextends⟩ := build_extends h
  refine ⟨⟨arranged, hperm, hextends⟩, ?_⟩
  intro m hm f hf link hlink
  obtain ⟨a, -, ha⟩ := Lists.exists_of_forall₂ hextends.flip hm
  obtain ⟨declared, added, hfields, hdeclared, hadded, -⟩ := ha.fields
  rw [hfields] at hf
  rcases List.mem_append.mp hf with hf | hf
  · obtain ⟨_, -, hcompletes⟩ := Lists.exists_of_forall₂ hdeclared.flip hf
    exact hcompletes.target hlink
  · obtain ⟨⟨n, f⟩, hmem, hinverts⟩ := Lists.exists_of_forall₂ hadded.flip hf
    exact ⟨n, (mem_linksTo.mp hmem).1, hinverts.target hlink⟩

/-- A model with a link to itself and one to another namespace, and one with a link to itself. -/
def shelves : List Model :=
  [⟨"b", "Book", "book", [.key "id", (Field.foreignKey "whole" "Book").withRelatedName "parts",
      .manyToMany "authors" "Author" "credit" "book_id" "author_id"]⟩,
   ⟨"a", "Author", "author", [.key "id", .foreignKey "teacher" "Author"]⟩]

theorem build_otherSides_shelves :
    ∃ s, build shelves = .ok s ∧
      s.models.map (fun m => (m.label, m.fields.map (·.name))) =
        [("a.Author", ["id", "teacher", "author", "book"]),
         ("b.Book", ["id", "whole", "authors", "parts"])] ∧
      (s.linksTo "a.Author").map (fun p => (p.1.label, p.2.name)) =
        [("a.Author", "teacher"), ("b.Book", "authors")] ∧
      ∃ arranged, arranged.Perm shelves ∧ List.Forall₂ (Extends s) arranged s.models := by
  have h : ((build shelves).toOption.map fun s =>
      decide (s.models.map (fun m => (m.label, m.fields.map (·.name))) =
        [("a.Author", ["id", "teacher", "author", "book"]),
         ("b.Book", ["id", "whole", "authors", "parts"])] ∧
      (s.linksTo "a.Author").map (fun p => (p.1.label, p.2.name)) =
        [("a.Author", "teacher"), ("b.Book", "authors")])) = some true := by
    decide +kernel
  simp only [Option.map_eq_some_iff, Steps.toOption_eq_some_iff, decide_eq_true_eq] at h
  obtain ⟨s, hs, hfields, hlinks⟩ := h
  exact ⟨s, hs, hfields, hlinks, (build_otherSides hs).1⟩

end Schema
end PathQuery
