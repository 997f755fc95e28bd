import PathQuery.Join
import PathQuery.Proofs.Steps

/-!
How the relations of one SELECT grow. Following a field of a relation finds the one that is known
by its path or joins a new one at the end, for a many-to-many field with a link table before it.
Resolving a path is a run of such steps.
-/

namespace PathQuery.Join

open Steps

variable {s : Scope} {parent r : Relation} {m : Model} {f : Field} {rs rs' rs'' : List Relation}

@[simp]
theorem lift_ok_iff {α : Type} {x : Except Error α} {a : α} :
    lift x rs = .ok (a, rs') ↔ x = .ok a ∧ rs' = rs := by
  cases x <;> simp [lift, eq_comm]

/-- The relation that `attach` joins to those already there. -/
def attached (s : Scope) (rs : List Relation) (model : Option String) (table path : String)
    (join : JoinType) (source : ColumnRef) (column : String) : Relation :=
  let r : Relation := { model, table, knownAs := aliasFor s rs table path, path, join }
  { r with linkage := some ⟨source, r.column column⟩ }

@[simp]
theorem attach_ok_iff {model : Option String} {table path : String} {join : JoinType}
    {source : ColumnRef} {column : String} :
    attach s model table path join source column rs = .ok (r, rs') ↔
      r = attached s rs model table path join source column ∧ rs' = rs ++ [r] := by
  simp only [attach, push, attached, Except.ok.injEq, Prod.mk.injEq]
  constructor
  · rintro ⟨rfl, rfl⟩
    exact ⟨rfl, rfl⟩
  · rintro ⟨rfl, rfl⟩
    exact ⟨rfl, rfl⟩

/-- How a path is to be joined. -/
def joinAt (s : Scope) (path : String) : JoinType :=
  (s.joinTypes.get? path).getD .left

/-- What following a field of `parent` does: the relation it leads to and the relations then. -/
inductive Joins (s : Scope) (parent : Relation) (m : Model) (f : Field) (rs : List Relation) :
    Relation → List Relation → Prop
  | known {r : Relation} (hr : rs.find? (·.path == pathOf parent f) = some r) :
      Joins s parent m f rs r rs
  | forward {toModel : String} {toField relatedName : Option String} {target : Model}
      {column : String} {r : Relation}
      (hnew : rs.find? (·.path == pathOf parent f) = none)
      (hf : f.link = some (.foreignKey toModel toField relatedName))
      (ht : resolveModel s toModel = .ok target) (hc : keyColumnOf target toField = .ok column)
      (hr : r = attached s rs (some target.label) target.table (pathOf parent f)
        (joinAt s (pathOf parent f)) (parent.column f.columnName) column) :
      Joins s parent m f rs r (rs ++ [r])
  | reverse {source field column : String} {target : Model} {key : Field} {r : Relation}
      (hnew : rs.find? (·.path == pathOf parent f) = none)
      (hf : f.link = some (.reverse source field))
      (ht : resolveModel s source = .ok target) (hk : Schema.resolveField target field = .ok key)
      (hc : referencedColumn m key = .ok column)
      (hr : r = attached s rs (some target.label) target.table (pathOf parent f)
        (joinAt s (pathOf parent f)) (parent.column column) key.columnName) :
      Joins s parent m f rs r (rs ++ [r])
  | bridge {toModel through sourceColumn targetColumn : String} {relatedName : Option String}
      {target : Model} {link r : Relation}
      (hnew : rs.find? (·.path == pathOf parent f) = none)
      (hf : f.link = some (.manyToMany toModel through sourceColumn targetColumn relatedName))
      (ht : resolveModel s toModel = .ok target)
      (hl : link = attached s rs none through (pathOf parent f ++ "." ++ through)
        (joinAt s (pathOf parent f)) (parent.column m.keyColumn) sourceColumn)
      (hr : r = attached s (rs ++ [link]) (some target.label) target.table (pathOf parent f)
        (joinAt s (pathOf parent f)) (link.column targetColumn) target.keyColumn) :
      Joins s parent m f rs r (rs ++ [link] ++ [r])

theorem joinField_joins (h : joinField s parent m f rs = .ok (r, rs')) :
    Joins s parent m f rs r rs' := by
  simp only [joinField] at h
  split at h
  · next known hknown =>
    obtain ⟨rfl, rfl⟩ : known = r ∧ rs = rs' := by simpa using h
    exact .known hknown
  · next hnew =>
    cases hf : f.link with
    | none => simp [hf, fail] at h
    | some link =>
      cases link with
      | foreignKey toModel toField relatedName =>
        simp [hf] at h
        obtain ⟨target, ht, column, hc, hr, rfl⟩ := h
        exact .forward hnew hf ht hc hr
      | reverse source field =>
        simp [hf] at h
        obtain ⟨target, ht, key, hk, column, hc, hr, rfl⟩ := h
        exact .reverse hnew hf ht hk hc hr
      | manyToMany toModel through sourceColumn targetColumn relatedName =>
        simp [hf] at h
        obtain ⟨target, ht, hr, rfl⟩ := h
        rw [List.append_cons]
        exact .bridge hnew hf ht rfl hr

theorem Joins.mem (h : Joins s parent m f rs r rs') : r ∈ rs' := by
  cases h with
  | known hr => exact List.mem_of_find?_eq_some hr
  | forward => simp
  | reverse => simp
  | bridge => simp

theorem Joins.subset (h : Joins s parent m f rs r rs') : rs ⊆ rs' := by
  intro x hx
  cases h with
  | known => exact hx
  | forward => exact List.mem_append_left _ hx
  | reverse => exact List.mem_append_left _ hx
  | bridge => exact List.mem_append_left _ (List.mem_append_left _ hx)

/-- The relations after following any fields of relations that were there. -/
inductive Grows (s : Scope) : List Relation → List Relation → Prop
  | refl (rs : List Relation) : Grows s rs rs
  | step {rs mid rs' : List Relation} {parent r : Relation} {m : Model} {f : Field}
      (hp : parent ∈ rs) (hm : modelOf s parent = .ok m) (hf : f ∈ m.fields)
      (hj : Joins s parent m f rs r mid) (h : Grows s mid rs') : Grows s rs rs'

/-- What holds after every push of a relation linked to one that is there holds after a field is
followed. -/
theorem Joins.invariant {I : List Relation → Prop}
    (hpush : ∀ {rs : List Relation} {p : Relation} {model : Option String} {table path : String}
      {join : JoinType} {source column : String}, p ∈ rs → I rs →
        I (rs ++ [attached s rs model table path join (p.column source) column]))
    (h : Joins s parent m f rs r rs') (hp : parent ∈ rs) (hrs : I rs) : I rs' := by
  cases h with
  | known => exact hrs
  | forward _ _ _ _ hr =>
    rw [hr]
    exact hpush hp hrs
  | reverse _ _ _ _ _ hr =>
    rw [hr]
    exact hpush hp hrs
  | @bridge _ _ _ _ _ _ link _ _ _ _ hl hr =>
    have hlink : I (rs ++ [link]) := by
      rw [hl]
      exact hpush hp hrs
    rw [hr]
    exact hpush (show link ∈ rs ++ [link] by simp) hlink

theorem Grows.invariant {I : List Relation → Prop}
    (hpush : ∀ {rs : List Relation} {p : Relation} {model : Option String} {table path : String}
      {join : JoinType} {source column : String}, p ∈ rs → I rs →
        I (rs ++ [attached s rs model table path join (p.column source) column]))
    (h : Grows s rs rs') (hrs : I rs) : I rs' := by
  induction h with
  | refl => exact hrs
  | step hp _ _ hj _ ih => exact ih (hj.invariant hpush hp hrs)

theorem path_ne_of_find?_eq_none {path : String} (h : rs.find? (·.path == path) = none) :
    ∀ a ∈ rs, a.path ≠ path := by
  intro a ha he
  exact List.find?_eq_none.mp h a ha (beq_iff_eq.mpr he)

theorem Grows.trans (h : Grows s rs rs') (h' : Grows s rs' rs'') : Grows s rs rs'' := by
  induction h with
  | refl => exact h'
  | step hp hm hf hj _ ih => exact .step hp hm hf hj (ih h')

theorem Grows.subset (h : Grows s rs rs') : rs ⊆ rs' := by
  induction h with
  | refl rs => exact List.Subset.refl rs
  | step _ _ _ hj _ ih => exact List.Subset.trans hj.subset ih

theorem Grows.join (hp : parent ∈ rs) (hm : modelOf s parent = .ok m) (hf : f ∈ m.fields)
    (h : joinField s parent m f rs = .ok (r, rs')) : Grows s rs rs' ∧ r ∈ rs' :=
  ⟨.step hp hm hf (joinField_joins h) (.refl rs'), (joinField_joins h).mem⟩

theorem field?_mem {name : String} (h : m.field? name = some f) : f ∈ m.fields :=
  List.mem_of_find?_eq_some h

theorem field?_name {name : String} (h : m.field? name = some f) : f.name = name := by
  simpa using List.find?_some h

theorem resolveField_mem {name : String} (h : Schema.resolveField m name = .ok f) :
    f ∈ m.fields := by
  unfold Schema.resolveField at h
  split at h
  · next f' hf =>
    cases h
    exact field?_mem hf
  · cases h

theorem key?_mem (h : m.key? = some f) : f ∈ m.fields := by
  rcases Option.or_eq_some_iff.mp h with h | ⟨_, h⟩
  · exact List.mem_of_find?_eq_some h
  · exact field?_mem h

theorem lastField_mem {name : String} (h : lastField m name = .ok f) : f ∈ m.fields := by
  unfold lastField at h
  split at h
  · next key hkey =>
    split at h
    · cases h
      exact key?_mem hkey
    · exact resolveField_mem h
  · exact resolveField_mem h

/-- What the last segment of a path comes to, once it is the field `f`: a column of `r`, or a column
on the other side of a link. -/
inductive Ends (s : Scope) (r : Relation) (m : Model) (f : Field) (rs : List Relation) :
    ColumnRef → List Relation → Prop
  | own (hc : f.isConcrete) : Ends s r m f rs (r.column f.columnName) rs
  | reverse {source field : String} {target : Model} {key : Field} {joined : Relation}
      {rs' : List Relation} (hl : f.link = some (.reverse source field))
      (ht : resolveModel s source = .ok target) (hk : Schema.resolveField target field = .ok key)
      (hj : Joins s r m f rs joined rs') : Ends s r m f rs (joined.column key.columnName) rs'
  | bridge {toModel through sourceColumn targetColumn : String} {relatedName : Option String}
      {target : Model} {joined : Relation} {rs' : List Relation}
      (hl : f.link = some (.manyToMany toModel through sourceColumn targetColumn relatedName))
      (ht : resolveModel s toModel = .ok target) (hj : Joins s r m f rs joined rs') :
      Ends s r m f rs (joined.column target.keyColumn) rs'

theorem terminal_ends {name : String} {c : ColumnRef} (h : terminal s r name rs = .ok (c, rs')) :
    ∃ m f, modelOf s r = .ok m ∧ lastField m name = .ok f ∧ Ends s r m f rs c rs' := by
  simp [terminal] at h
  obtain ⟨m, hm, f, hf, h⟩ := h
  refine ⟨m, f, hm, hf, ?_⟩
  cases hl : f.link with
  | none =>
    simp [hl] at h
    rw [h.1, h.2]
    exact .own (by rw [Field.isConcrete, hl])
  | some link =>
    cases link with
    | foreignKey =>
      simp [hl] at h
      rw [h.1, h.2]
      exact .own (by rw [Field.isConcrete, hl])
    | reverse =>
      simp [hl] at h
      obtain ⟨target, ht, key, hk, joined, hj, rfl⟩ := h
      exact .reverse hl ht hk (joinField_joins hj)
    | manyToMany =>
      simp [hl] at h
      obtain ⟨target, ht, joined, hj, rfl⟩ := h
      exact .bridge hl ht (joinField_joins hj)

theorem Ends.grows {c : ColumnRef} (h : Ends s r m f rs c rs') (hr : r ∈ rs)
    (hm : modelOf s r = .ok m) (hf : f ∈ m.fields) : Grows s rs rs' := by
  cases h with
  | own => exact .refl _
  | reverse _ _ _ hj => exact .step hr hm hf hj (.refl _)
  | bridge _ _ hj => exact .step hr hm hf hj (.refl _)

theorem follow_grows {walked segments : List String} {last : Relation} (hr : r ∈ rs)
    (h : follow s walked r segments rs = .ok (last, rs')) : Grows s rs rs' ∧ last ∈ rs' := by
  induction segments generalizing walked r rs with
  | nil =>
    obtain ⟨rfl, rfl⟩ := pure_ok_iff.mp h
    exact ⟨.refl rs', hr⟩
  | cons segment rest ih =>
    simp [follow] at h
    obtain ⟨m, hm, f, hf, h⟩ := h
    split at h
    · simp [fail] at h
    · obtain ⟨joined, mid, hj, h⟩ := bind_ok_iff.mp h
      obtain ⟨hg, hmem⟩ := Grows.join hr hm (resolveField_mem hf) hj
      obtain ⟨hg', hlast⟩ := ih hmem h
      exact ⟨hg.trans hg', hlast⟩

/-- What a path inside the query leads to. Its last segment, or the field that the last segment is a
part of the date of, is read from a relation that is there after the segments before. -/
inductive Arrives (s : Scope) (rs : List Relation) : PathTarget → List Relation → Prop
  | column {mid rs' : List Relation} {r : Relation} {m : Model} {f : Field} {c : ColumnRef}
      (hg : Grows s rs mid) (hr : r ∈ mid) (hm : modelOf s r = .ok m) (hf : f ∈ m.fields)
      (h : Ends s r m f mid c rs') : Arrives s rs ⟨c, none⟩ rs'
  | datePart {rs' : List Relation} {r : Relation} {m : Model} {f : Field} {part : String}
      (hg : Grows s rs rs') (hr : r ∈ rs') (hm : modelOf s r = .ok m) (hf : f ∈ m.fields)
      (hc : f.isConcrete) : Arrives s rs ⟨r.column f.columnName, some part⟩ rs'

theorem Arrives.grows {t : PathTarget} (h : Arrives s rs t rs') : Grows s rs rs' := by
  cases h with
  | column hg hr hm hf h => exact hg.trans (h.grows hr hm hf)
  | datePart hg => exact hg

theorem walk_arrives {segments : List String} {t : PathTarget} (hs : s.master ∈ rs)
    (h : walk s segments rs = .ok (t, rs')) : Arrives s rs t rs' := by
  unfold walk at h
  cases hsegments : segments.reverse with
  | nil => simp [hsegments, fail] at h
  | cons last before =>
    cases before with
    | nil =>
      simp [hsegments] at h
      obtain ⟨c, hc, rfl⟩ := h
      obtain ⟨m, f, hm, hf, hends⟩ := terminal_ends hc
      exact .column (.refl rs) hs hm (lastField_mem hf) hends
    | cons owner before =>
      simp [hsegments] at h
      obtain ⟨r, mid, hr, m, hm, f, hf, h⟩ := h
      obtain ⟨hg, hmem⟩ := follow_grows hs hr
      split at h
      · next hnone =>
        obtain ⟨hpart, rfl⟩ := lift_ok_iff.mp h
        simp only [Join.datePart] at hpart
        split at hpart
        · cases hpart
          exact .datePart hg hmem hm (resolveField_mem hf) (by rw [Field.isConcrete, hnone])
        · cases hpart
      · simp at h
        obtain ⟨joined, after, hj, c, hc, rfl⟩ := h
        obtain ⟨hg', hmem'⟩ := Grows.join hmem hm (resolveField_mem hf) hj
        obtain ⟨m', f', hm', hf', hends⟩ := terminal_ends hc
        exact .column (hg.trans hg') hmem' hm' (lastField_mem hf') hends

/-- A path leads to something inside the query, or to a field of the enclosing row. -/
theorem resolvePath_cases {head : String} {rest : List String} {t : PathTarget}
    (hs : s.master ∈ rs) (h : resolvePath s head rest rs = .ok (t, rs')) :
    Arrives s rs t rs' ∨ ∃ o field, head = "outer" ∧ rest = [field] ∧ s.outer = some o ∧
      outerColumn o field = .ok t ∧ rs' = rs := by
  have inside (h : (do let segments ← lift (dropModel s head rest); walk s segments) rs
      = .ok (t, rs')) : Arrives s rs t rs' := by
    simp at h
    obtain ⟨segments, -, hwalk⟩ := h
    exact walk_arrives hs hwalk
  unfold resolvePath at h
  cases ho : outerOf s head with
  | none => exact .inl (inside (by simpa only [ho] using h))
  | some o =>
    rw [ho] at h
    rcases rest with _ | ⟨field, _ | _⟩
    · exact .inl (inside h)
    · obtain ⟨hcolumn, rfl⟩ := lift_ok_iff.mp h
      unfold outerOf at ho
      split at ho
      · next hhead => exact .inr ⟨o, field, beq_iff_eq.mp hhead, rfl, ho, hcolumn, rfl⟩
      · cases ho
    · exact .inl (inside h)

theorem resolvePath_grows {head : String} {rest : List String} {t : PathTarget}
    (hs : s.master ∈ rs) (h : resolvePath s head rest rs = .ok (t, rs')) : Grows s rs rs' := by
  obtain harrives | ⟨_, _, -, -, -, -, rfl⟩ := resolvePath_cases hs h
  · exact harrives.grows
  · exact .refl rs'

end PathQuery.Join
