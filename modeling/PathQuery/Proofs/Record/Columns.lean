import PathQuery.Proofs.Compile.Plan
import PathQuery.Record

/-!
The columns of a compiled query have distinct names, so a record has every value of its row, in the
order of the columns.
-/

namespace PathQuery

namespace Table

variable {α : Type}

theorem put_of_notMem {k : String} {v : α} {entries : List (String × α)}
    (h : k ∉ entries.map (·.1)) : put k v entries = entries ++ [(k, v)] := by
  induction entries with
  | nil => rfl
  | cons e rest ih =>
    obtain ⟨k', v'⟩ := e
    simp only [List.map_cons, List.mem_cons, not_or] at h
    simp [put, ih h.2, Ne.symm h.1]

/-- Entries with new and distinct names are added as they are. -/
theorem foldl_insert_of_nodup (entries : List (String × α)) (t : Table α)
    (h : ((t.entries ++ entries).map (·.1)).Nodup) :
    entries.foldl (fun t (k, v) => t.insert k v) t = ⟨t.entries ++ entries⟩ := by
  induction entries generalizing t with
  | nil => simp
  | cons e rest ih =>
    obtain ⟨k, v⟩ := e
    have hnew : k ∉ t.entries.map (·.1) := by
      rw [List.map_append, List.nodup_append] at h
      exact fun hk => h.2.2 k hk k List.mem_cons_self rfl
    have hput : t.insert k v = ⟨t.entries ++ [(k, v)]⟩ := congrArg _ (put_of_notMem hnew)
    have hrest := ih ⟨t.entries ++ [(k, v)]⟩ (by simpa using h)
    rw [← hput] at hrest
    simpa [hput] using hrest

theorem ofList_of_nodup {entries : List (String × α)} (h : (entries.map (·.1)).Nodup) :
    ofList entries = ⟨entries⟩ :=
  foldl_insert_of_nodup entries {} h

end Table

theorem Record.ofRow_of_nodup {columns : List String} {row : Row} (hnodup : columns.Nodup)
    (hwidth : row.length = columns.length) :
    Record.ofRow columns row = .ok ⟨columns.zip row⟩ := by
  have hkeys : ((columns.zip row).map (·.1)).Nodup := by
    rwa [List.map_fst_zip hwidth.ge]
  simp [ofRow, hwidth, Table.ofList_of_nodup hkeys]

theorem Column.ofParts_nodup {columns result : List Column} {parts : List (List Char)}
    (hcolumns : (columns.map (·.name)).Nodup) (h : ofParts columns parts = .ok result) :
    (result.map (·.name)).Nodup := by
  induction parts generalizing columns with
  | nil =>
    cases h
    exact hcolumns
  | cons part parts ih =>
    simp only [ofParts] at h
    split at h
    · exact ih hcolumns h
    · split at h
      · cases h
      · next hnew =>
        refine ih ?_ h
        simp only [List.any_eq_true, beq_iff_eq, not_exists, not_and] at hnew
        rw [List.map_append, List.nodup_append]
        exact ⟨hcolumns, by simp, by simpa using hnew⟩

theorem Column.parseList_nodup {source : String} {columns : List Column}
    (h : parseList source = .ok columns) : (columns.map (·.name)).Nodup := by
  unfold parseList at h
  split at h
  · cases h
  · split at h
    · cases h
    · exact ofParts_nodup (by simp) h

theorem Compile.templateWithin_written {registry : Registry} {scope : Scope} {s : Statement}
    {t : Template} (n : Nat) (h : templateWithin registry n scope s = .ok t) :
    Written scope s t := by
  cases n with
  | zero => exact (select_row h).1
  | succ n => exact (select_row h).1

/-- No two columns of a compiled statement have the same name. -/
theorem compile_aliases_nodup {registry : Registry} {scope : Scope} {context : Context}
    {s : Statement} {c : Compiled} (h : compile registry scope context s = .ok c) :
    c.aliases.Nodup := by
  unfold compile Template.bind at h
  split at h
  · next t ht =>
    split at h
    · cases h
      exact Column.parseList_nodup (Compile.templateWithin_written _ ht).columns
    · cases h
  · cases h

end PathQuery
