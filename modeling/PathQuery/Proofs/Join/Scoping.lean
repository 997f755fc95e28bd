import PathQuery.Proofs.Join.Growth
import PathQuery.Select

/-!
Scoping of joins. The relations of one SELECT stand in the order in which they can be joined: the
master first, and each of the others linked by a column of its own to a relation before it. Paths
only add relations at the end, and lead to a column of one of them or of the enclosing row. So each
condition of a join is about its own table and one that is already there.
-/

namespace PathQuery

/-- The relation `i` of `rs` is linked by a column of its own to an earlier one. -/
def LinkedBack (rs : List Relation) (i : Nat) (r : Relation) : Prop :=
  ∃ l, r.linkage = some l ∧ l.target.relation = r.reference ∧
    ∃ j p, j < i ∧ rs[j]? = some p ∧ l.source.relation = p.reference

/-- The master comes first and is linked to nothing, and the others are linked back. -/
structure WellScoped (master : Relation) (rs : List Relation) : Prop where
  first : rs[0]? = some master
  unlinked : master.linkage = none
  linked : ∀ i r, 1 ≤ i → rs[i]? = some r → LinkedBack rs i r

variable {master r parent : Relation} {rs rs' : List Relation}

theorem LinkedBack.mono {i : Nat} (h : LinkedBack rs i r) (hrs : rs <+: rs') :
    LinkedBack rs' i r := by
  obtain ⟨l, hl, htarget, j, p, hj, hp, hsource⟩ := h
  obtain ⟨hlt, -⟩ := List.getElem?_eq_some_iff.mp hp
  obtain ⟨more, rfl⟩ := hrs
  exact ⟨l, hl, htarget, j, p, hj, by rw [List.getElem?_append_left hlt, hp], hsource⟩

namespace WellScoped

theorem singleton (h : master.linkage = none) : WellScoped master [master] where
  first := rfl
  unlinked := h
  linked := by
    intro i r hi hr
    obtain ⟨hlt, -⟩ := List.getElem?_eq_some_iff.mp hr
    simp only [List.length_singleton] at hlt
    omega

/-- A relation that is linked to one of those there can be joined next. -/
theorem push {source target : String} (h : WellScoped master rs) (hp : parent ∈ rs)
    (hr : r.linkage = some ⟨parent.column source, r.column target⟩) :
    WellScoped master (rs ++ [r]) where
  first := by
    obtain ⟨hlt, -⟩ := List.getElem?_eq_some_iff.mp h.first
    rw [List.getElem?_append_left hlt, h.first]
  unlinked := h.unlinked
  linked := by
    intro i x hi hx
    rcases Nat.lt_or_ge i rs.length with hlt | hge
    · rw [List.getElem?_append_left hlt] at hx
      exact (h.linked i x hi hx).mono (List.prefix_append ..)
    · obtain ⟨hlen, -⟩ := List.getElem?_eq_some_iff.mp hx
      obtain rfl : i = rs.length := by
        simp only [List.length_append, List.length_singleton] at hlen
        omega
      obtain rfl : x = r := by simpa using hx.symm
      obtain ⟨j, hj, hget⟩ := List.mem_iff_getElem.mp hp
      refine ⟨_, hr, rfl, j, parent, hj, ?_, rfl⟩
      rw [List.getElem?_append_left hj, List.getElem?_eq_getElem hj, hget]

/-- What is linked well stays so when the last relations are left out: the relations are linked back
from the moment they are joined. -/
theorem of_extends (h : WellScoped master rs') (hrs : rs <+: rs') (hne : rs ≠ []) :
    WellScoped master rs := by
  obtain ⟨more, rfl⟩ := hrs
  refine ⟨?_, h.unlinked, ?_⟩
  · rw [← h.first, List.getElem?_append_left (List.length_pos_iff.mpr hne)]
  · intro i r hi hr
    obtain ⟨hlt, -⟩ := List.getElem?_eq_some_iff.mp hr
    obtain ⟨l, hl, htarget, j, p, hj, hp, hsource⟩ :=
      h.linked i r hi (by rw [List.getElem?_append_left hlt, hr])
    rw [List.getElem?_append_left (by omega)] at hp
    exact ⟨l, hl, htarget, j, p, hj, hp, hsource⟩

end WellScoped

namespace Join

variable {s : Scope} {m : Model} {f : Field}

theorem Joins.extends (h : Joins s parent m f rs r rs') : rs <+: rs' := by
  cases h with
  | known => exact List.prefix_rfl
  | forward => exact List.prefix_append ..
  | reverse => exact List.prefix_append ..
  | bridge =>
    rw [List.append_assoc]
    exact List.prefix_append ..

/-- What is joined stays as it is. -/
theorem Grows.extends (h : Grows s rs rs') : rs <+: rs' := by
  induction h with
  | refl => exact List.prefix_rfl
  | step _ _ _ hj _ ih => exact hj.extends.trans ih

theorem Grows.wellScoped (h : Grows s rs rs') (hrs : WellScoped master rs) :
    WellScoped master rs' :=
  h.invariant (fun hp hrs => hrs.push hp rfl) hrs

/-! ### Columns that paths lead to -/

/-- The column is one of a relation among `rs`. -/
def Within (rs : List Relation) (c : ColumnRef) : Prop :=
  ∃ r ∈ rs, c.relation = r.reference

theorem Ends.within {c : ColumnRef} (hr : r ∈ rs) (h : Ends s r m f rs c rs') : Within rs' c := by
  cases h with
  | own => exact ⟨r, hr, rfl⟩
  | reverse _ _ _ hj => exact ⟨_, hj.mem, rfl⟩
  | bridge _ _ hj => exact ⟨_, hj.mem, rfl⟩

theorem Arrives.within {t : PathTarget} (h : Arrives s rs t rs') : Within rs' t.column := by
  cases h with
  | column _ hr _ _ h => exact h.within hr
  | datePart _ hr => exact ⟨_, hr, rfl⟩

/-- A path leads to a column of a relation that is there then, or of the enclosing row. -/
theorem resolvePath_within {head : String} {rest : List String} {t : PathTarget}
    (hmaster : s.master ∈ rs) (h : resolvePath s head rest rs = .ok (t, rs')) :
    Within rs' t.column ∨ ∃ field o, head = "outer" ∧ rest = [field] ∧ s.outer = some o ∧
      t.column.relation = o.reference := by
  obtain harrives | ⟨o, field, hhead, hrest, ho, hcolumn, -⟩ := resolvePath_cases hmaster h
  · exact .inl harrives.within
  · refine .inr ⟨field, o, hhead, hrest, ho, ?_⟩
    unfold outerColumn at hcolumn
    split at hcolumn
    · cases hcolumn
    · split at hcolumn
      · cases hcolumn
        rfl
      · cases hcolumn

end Join

/-! ### Text -/

/-- Text without a double quote, so that it names no table and no column. -/
def Unquoted (text : String) : Prop :=
  '"' ∉ text.toList

instance (text : String) : Decidable (Unquoted text) :=
  inferInstanceAs (Decidable ('"' ∉ text.toList))

theorem Unquoted.append {a b : String} (ha : Unquoted a) (hb : Unquoted b) : Unquoted (a ++ b) := by
  unfold Unquoted at *
  rw [String.toList_append, List.mem_append, not_or]
  exact ⟨ha, hb⟩

namespace Dialect

theorem unquoted_of_mem_dateParts : ∀ part ∈ dateParts,
    Unquoted part ∧ Unquoted (formatCode part) ∧ Unquoted (Text.upperBasic part) := by
  decide

/-- The text around a column in the expression for a part of its date. -/
theorem datePart?_around {d : Dialect} {part column text : String}
    (h : d.datePart? part column = some text) :
    ∃ before after, text = before ++ column ++ after ∧ Unquoted before ∧ Unquoted after := by
  simp only [datePart?] at h
  split at h
  · cases h
  · next hmem =>
    have hpart : Text.lowerBasic part ∈ dateParts := by simpa using hmem
    obtain ⟨hplain, hcode, hupper⟩ := unquoted_of_mem_dateParts _ hpart
    have around {lead word mid : String} (hlead : Unquoted lead) (hword : Unquoted word)
        (hmid : Unquoted mid) : Unquoted (lead ++ word ++ mid) :=
      (hlead.append hword).append hmid
    cases h
    cases d with
    | postgres => exact ⟨_, ")", rfl, around (by decide) hplain (by decide), by decide⟩
    | generic => exact ⟨_, ")", rfl, around (by decide) hupper (by decide), by decide⟩
    | sqlite =>
      have hlead : Unquoted ("CAST(strftime('" ++ formatCode (Text.lowerBasic part) ++ "', ") :=
        around (by decide) hcode (by decide)
      have hopen : Unquoted "((" := by decide
      simp only
      split
      · refine ⟨_, ") AS INTEGER) + 2) / 3)", ?_, hopen.append hlead, by decide⟩
        simp only [String.append_assoc]
        rfl
      · exact ⟨_, ") AS INTEGER)", rfl, hlead, by decide⟩

end Dialect

/-- The column that a path leads to is all that its fragment names. -/
theorem PathTarget.sql_around (t : PathTarget) (d : Dialect) :
    ∃ before after, t.sql d = before ++ t.column.sql ++ after ∧ Unquoted before ∧
      Unquoted after := by
  have bare : ∃ before after, t.column.sql = before ++ t.column.sql ++ after ∧ Unquoted before ∧
      Unquoted after :=
    ⟨"", "", by simp, by decide, by decide⟩
  unfold PathTarget.sql
  split
  · next part _ =>
    cases hpart : d.datePart? part t.column.sql with
    | none => exact bare
    | some text => exact Dialect.datePart?_around hpart
  · exact bare

namespace Select

/-- The joins of relations are written one after the other. -/
theorem fromSql_append_singleton (rs : List Relation) (r : Relation) (l : Linkage) (hne : rs ≠ [])
    (hl : r.linkage = some l) :
    fromSql (rs ++ [r]) = fromSql rs ++ " " ++ r.join.sql ++ " " ++ r.tableSql ++ " ON (" ++
      l.source.sql ++ " = " ++ l.target.sql ++ ")" := by
  cases rs with
  | nil => exact absurd rfl hne
  | cons master joined =>
    simp only [List.cons_append, fromSql, List.foldl_append, List.foldl_cons, List.foldl_nil,
      Relation.joinSql?, hl, Option.map_some, Linkage.sql, String.append_assoc]

end Select

/-- Each join is written after those of the relations before it, with a condition about a column of
its own and one of an earlier relation. -/
def JoinedInOrder (master : Relation) (rs : List Relation) : Prop :=
  Select.fromSql (rs.take 1) = " FROM " ++ master.tableSql ∧
    ∀ i r, 1 ≤ i → rs[i]? = some r → ∃ source target : ColumnRef,
      Select.fromSql (rs.take (i + 1)) = Select.fromSql (rs.take i) ++ " " ++ r.join.sql ++ " " ++
        r.tableSql ++ " ON (" ++ source.sql ++ " = " ++ target.sql ++ ")" ∧
      target.relation = r.reference ∧
      ∃ j p, j < i ∧ rs[j]? = some p ∧ source.relation = p.reference

theorem WellScoped.joinedInOrder (h : WellScoped master rs) : JoinedInOrder master rs := by
  constructor
  · rw [List.take_one, List.head?_eq_getElem?, h.first]
    rfl
  · intro i r hi hr
    obtain ⟨l, hl, htarget, hsource⟩ := h.linked i r hi hr
    refine ⟨l.source, l.target, ?_, htarget, hsource⟩
    obtain ⟨hlt, hget⟩ := List.getElem?_eq_some_iff.mp hr
    rw [List.take_succ_eq_append_getElem hlt, hget]
    refine Select.fromSql_append_singleton _ r l ?_ hl
    intro hnil
    have := congrArg List.length hnil
    simp only [List.length_take, List.length_nil] at this
    omega

end PathQuery
