import PathQuery.Proofs.Join.Names

/-!
The last segment of a path. A field with a column of its own is read from the relation before it,
and every other one is a link that has to be joined. `pk` is the key of the model where no field has
that name. Read from inside a correlated sub-query, a field of the enclosing row is looked up by its
name alone.
-/

namespace PathQuery.Join

variable {s : Scope} {r : Relation} {m : Model} {f : Field} {name : String} {rs rs' : List Relation}

/-- The name is no field but stands for the key. -/
def IsKeyword (m : Model) (name : String) : Prop :=
  name = "pk" ∧ m.field? name = none

theorem lastField_eq (h : ¬ IsKeyword m name) :
    lastField m name = Schema.resolveField m name := by
  unfold lastField
  split
  · next hnone _ =>
    have hname : name ≠ "pk" := fun hpk => h ⟨hpk, hnone⟩
    simp [hname]
  · rfl

theorem lastField_keyword (h : IsKeyword m name) (hkey : m.key? = some f) :
    lastField m name = .ok f := by
  obtain ⟨rfl, hnone⟩ := h
  simp [lastField, hnone, hkey]

theorem resolveField_ok_iff : Schema.resolveField m name = .ok f ↔ m.field? name = some f := by
  unfold Schema.resolveField
  cases m.field? name <;> simp

theorem lastField_of_field? (h : m.field? name = some f) : lastField m name = .ok f := by
  have hk : ¬ IsKeyword m name := fun hk => by simp [hk.2] at h
  rw [lastField_eq hk, resolveField_ok_iff, h]

/-- A path of one segment is read from the master. -/
theorem resolvePath_single (s : Scope) (name : String) (rs : List Relation) :
    resolvePath s name [] rs =
      (do return ⟨← terminal s s.master name, none⟩ : Action PathTarget) rs := by
  unfold resolvePath
  cases outerOf s name <;> rfl

theorem terminal_concrete (hm : modelOf s r = .ok m) (hf : lastField m name = .ok f)
    (hc : f.isConcrete) (rs : List Relation) :
    terminal s r name rs = .ok (r.column f.columnName, rs) := by
  unfold Field.isConcrete at hc
  rcases hlink : f.link with _ | (_ | _ | _)
  · simp [terminal, hm, hf, hlink]
  · simp [terminal, hm, hf, hlink]
  · simp [hlink] at hc
  · simp [hlink] at hc

theorem resolvePath_concrete (hm : modelOf s s.master = .ok m) (hf : lastField m name = .ok f)
    (hc : f.isConcrete) (rs : List Relation) :
    resolvePath s name [] rs = .ok (⟨s.master.column f.columnName, none⟩, rs) := by
  simp [resolvePath_single, terminal_concrete hm hf hc]

/-- Following a field from the master alone joins something, if the field has a name. -/
theorem Joins.ne_singleton {joined : Relation} (h : Joins s r m f [r] joined rs')
    (hpath : r.path = "") (hname : f.name ≠ "") : rs' ≠ [r] := by
  cases h with
  | known hr =>
    obtain ⟨hsame, -⟩ : r.path = pathOf r f ∧ r = joined := by simpa using hr
    rw [pathOf, hpath, if_pos (by rfl)] at hsame
    exact absurd hsame.symm hname
  | forward => simp
  | reverse => simp
  | bridge => simp

theorem columnName?_eq_some_iff {column : String} :
    f.columnName? = some column ↔ f.isConcrete ∧ f.columnName = column := by
  constructor
  · intro h
    exact ⟨Field.isConcrete_of_some h, Field.columnName_of_some h⟩
  · rintro ⟨hc, rfl⟩
    simp [Field.columnName, Field.columnName?, hc]

/-- A name of the enclosing row is a field of its model with a column of its own. -/
theorem outerColumn_ok_iff {o : Outer} {t : PathTarget} :
    outerColumn o name = .ok t ↔ ∃ f, o.model.field? name = some f ∧ f.isConcrete ∧
      t = ⟨⟨o.reference, f.columnName⟩, none⟩ := by
  unfold outerColumn
  cases hf : Schema.resolveField o.model name with
  | error e =>
    simp only [reduceCtorEq, false_iff]
    rintro ⟨f, hfield, -⟩
    rw [resolveField_ok_iff.mpr hfield] at hf
    cases hf
  | ok f =>
    have hfield := resolveField_ok_iff.mp hf
    simp only [hfield, Option.some.injEq, exists_eq_left']
    cases hcolumn : f.columnName? with
    | none =>
      have hc : f.isConcrete = false := by
        rw [Field.columnName?] at hcolumn
        simpa using hcolumn
      simp [hc]
    | some column =>
      obtain ⟨hc, rfl⟩ := columnName?_eq_some_iff.mp hcolumn
      simp only [Except.ok.injEq, hc, true_and]
      exact eq_comm

end PathQuery.Join
