import PathQuery.Proofs.Compile.Composition
import PathQuery.Proofs.Compile.Correlation
import PathQuery.Proofs.Record.Columns

/-!
Aliases, the SELECT list and records. The columns of a template have pairwise different words as
aliases. Its text selects one fragment for each column, in their order and under its alias, so a
row that the statement brings has a value for each alias, and the record of the row keeps them all.
-/

namespace PathQuery

/-! ### Records -/

theorem Record.ofRow_eq_error {columns : List String} {row : Row}
    (h : row.length ≠ columns.length) :
    Record.ofRow columns row = .error (.rowWidth row.length columns.length) := by
  simp [ofRow, Ne.symm h]

/-! ### The SELECT list -/

theorem Select.exists_fromSql {r : Relation} {rs : List Relation} (h : rs.head? = some r) :
    ∃ rest, fromSql rs = " FROM " ++ rest := by
  obtain ⟨joined, rfl⟩ := List.head?_eq_some_iff.mp h
  simp only [fromSql]
  generalize r.tableSql = start
  induction joined generalizing start with
  | nil => exact ⟨start, rfl⟩
  | cons q joined ih =>
    rw [List.foldl_cons]
    cases q.joinSql? with
    | none => exact ih rfl start
    | some join => simpa [String.append_assoc] using ih rfl (start ++ " " ++ join)

namespace Compile

/-- The fragment is what the expression of the column is compiled to. -/
def CompilesTo (f : Frame) (c : Column) (part : Fragment) : Prop :=
  Expr.parse c.expression = .ok part.expr ∧ ∃ g g', fragment f part.expr g = .ok (part, g')

theorem Row.fragment_eq {f : Frame} {g g' : Gathered} {parts : List Fragment}
    (h : Row f parts g g') : ∀ part ∈ parts, ∃ g g', fragment f part.expr g = .ok (part, g') := by
  induction h with
  | nil => simp
  | cons h _ ih => exact List.forall_mem_cons.mpr ⟨⟨_, _, h⟩, ih⟩

variable {registry : Registry} {scope : Scope} {s : Statement} {t : Template}

/-- Each column of a template has its fragment in the plan. -/
theorem select_compilesTo {nested : Nested} (h : select registry nested scope s = .ok t) :
    List.Forall₂ (CompilesTo ⟨scope, registry, nested⟩) t.columns
      (t.select.columns.map (·.1)) := by
  obtain ⟨hwritten, -, g, hrow, -⟩ := select_row h
  have hparts : ∀ p ∈ t.select.columns, p.1 ∈ t.select.parts := by
    intro p hp
    simp only [Select.parts, List.mem_append, List.mem_map]
    exact .inl (.inl ⟨p, hp, rfl⟩)
  rw [List.forall₂_map_right_iff]
  have htrees := hwritten.trees
  generalize t.columns = cs, t.select.columns = ps at htrees hparts
  induction htrees with
  | nil => exact .nil
  | cons hread _ ih =>
    rw [List.forall_mem_cons] at hparts
    exact .cons ⟨hread.1, hrow.fragment_eq _ hparts.1⟩ (ih hparts.2)

theorem map_columnSql {cs : List Column} {ps : List (Fragment × String)}
    (h : List.Forall₂ (fun c p => Expr.parse c.expression = .ok p.1.expr ∧ p.2 = c.name) cs ps) :
    ps.map Select.columnSql =
      List.zipWith (fun part c => part.sql ++ " AS " ++ Text.quoteIdent c.name)
        (ps.map (·.1)) cs := by
  induction h with
  | nil => rfl
  | cons hread _ ih => simp [Select.columnSql, hread.2, ih]

/-- What a template says of its columns. Their aliases are words and pairwise different. The text
selects what the expression of each column is compiled to, in the order of the columns, as its
alias. A row of as many values is kept as a record under the aliases, in their order and with the
values as they are; a row of another width is refused. -/
theorem template_aliases (h : template registry scope s = .ok t) :
    (∀ c ∈ t.columns, Sql.IsWord c.name) ∧ (t.columns.map (·.name)).Nodup ∧
    (∃ parts rest,
      List.Forall₂ (CompilesTo ⟨scope, registry, templateWithin registry (maxDepth - 1)⟩)
        t.columns parts ∧
      t.sql = "SELECT " ++ (if s.distinct then "DISTINCT " else "") ++
        Text.join ", " (List.zipWith (fun part c => part.sql ++ " AS " ++ Text.quoteIdent c.name)
          parts t.columns) ++ " FROM " ++ rest) ∧
    ∀ row : PathQuery.Row,
      (row.length = t.columns.length → ∃ r, Record.ofRow (t.columns.map (·.name)) row = .ok r ∧
        r.keys = t.columns.map (·.name) ∧ r.values = row) ∧
      (row.length ≠ t.columns.length →
        ∃ e, Record.ofRow (t.columns.map (·.name)) row = .error e ∧ e.kind = .decode) := by
  have hwritten := templateWithin_written _ h
  have hnodup := Column.parseList_nodup hwritten.columns
  refine ⟨Column.parseList_isWord hwritten.columns, hnodup, ?_, ?_⟩
  · have hselect : select registry (templateWithin registry (maxDepth - 1)) scope s = .ok t := h
    obtain ⟨start, hstart⟩ := Select.exists_fromSql (templateWithin_planted h).first
    have hdistinct : t.select.distinct = s.distinct := by
      obtain ⟨_, _, _, _, hplan⟩ := select_plan hselect
      rw [hplan]
    refine ⟨t.select.columns.map (·.1), start ++ Select.filterSql t.select.filter ++
      Select.clause " GROUP BY " (t.select.groupBy scope.options.dialect) ++
      Select.clause " ORDER BY " (t.select.orderBy.map Select.orderSql) ++
      Select.bound " LIMIT " t.select.limit ++ Select.bound " OFFSET " t.select.offset,
      select_compilesTo hselect, ?_⟩
    rw [(select_row hselect).2.1, Select.render, map_columnSql hwritten.trees, hstart, hdistinct]
    simp only [String.append_assoc]
  · intro row
    constructor
    · intro hwidth
      have hsame : row.length = (t.columns.map (·.name)).length := by simpa using hwidth
      exact ⟨_, Record.ofRow_of_nodup hnodup hsame, List.map_fst_zip hsame.ge,
        List.map_snd_zip hsame.le⟩
    · intro hwidth
      exact ⟨_, Record.ofRow_eq_error (by simpa using hwidth), rfl⟩

def albumModels : List Model := [
  ⟨"m", "Album", "album", [.key "id", { name := "title" }, .foreignKey "artist" "Artist"]⟩,
  ⟨"m", "Artist", "artist", [.key "id", { name := "name" }]⟩]

/-- An alias that is given, one made from a path, and one for a text without word characters. -/
def albumStatement : Statement := { select := "title as t, artist.name, '*'" }

theorem template_aliases_album :
    ∃ schema model t, Schema.build albumModels = .ok schema ∧
      schema.resolveModel "Album" none = .ok model ∧
      template ⟨[]⟩ (.top schema {} model {}) albumStatement = .ok t ∧
      t.columns.map (·.name) = ["t", "artist_name", "col2"] ∧
      (∃ r, Record.ofRow (t.columns.map (·.name)) [.text "Blue", .null, .text "*"] = .ok r ∧
        r.keys = ["t", "artist_name", "col2"] ∧ r.values = [.text "Blue", .null, .text "*"]) ∧
      ∃ e, Record.ofRow (t.columns.map (·.name)) [.text "Blue"] = .error e ∧ e.kind = .decode := by
  have h : ((Schema.build albumModels).toOption.bind fun schema =>
      (schema.resolveModel "Album" none).toOption.bind fun model =>
        (template ⟨[]⟩ (.top schema {} model {}) albumStatement).toOption.map fun t =>
          t.columns.map (·.name)) = some ["t", "artist_name", "col2"] := by
    decide +kernel
  simp only [Option.bind_eq_some_iff, Option.map_eq_some_iff, Steps.toOption_eq_some_iff] at h
  obtain ⟨schema, hschema, model, hmodel, t, ht, hnames⟩ := h
  have hwidth : t.columns.length = 3 := by simpa using congrArg List.length hnames
  obtain ⟨-, -, -, hrow⟩ := template_aliases ht
  refine ⟨schema, model, t, hschema, hmodel, ht, hnames, ?_, (hrow _).2 (by simp [hwidth])⟩
  obtain ⟨r, hr, hkeys, hvalues⟩ := (hrow [.text "Blue", .null, .text "*"]).1 (by simp [hwidth])
  exact ⟨r, hr, hkeys.trans hnames, hvalues⟩

end Compile
end PathQuery
