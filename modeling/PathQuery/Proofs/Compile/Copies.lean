import PathQuery.Proofs.Compile.Texts
import PathQuery.Proofs.Template.InTurn
import PathQuery.Sample.Small

/-!
The terms of GROUP BY after binding. In the template each of them is a copy of a selected
expression. Binding takes them in turn with all other text and numbers their parameters anew, so a
copy stays one if it adds no parameter, and only then.
-/

namespace PathQuery

open Sql Template Placeholder

/-- A statement whose columns and terms of GROUP BY are bound, with the text between them and behind
them. -/
structure BoundSelect where
  columns : List BoundText
  middle : BoundText
  terms : List BoundText
  last : BoundText

namespace BoundSelect

/-- The texts in the order in which they are bound. -/
def texts (b : BoundSelect) : List BoundText :=
  b.columns ++ b.middle :: (b.terms ++ [b.last])

def sql (b : BoundSelect) (q : Select) : String :=
  "SELECT " ++ (if q.distinct then "DISTINCT " else "") ++
    Text.join ", " (List.zipWith (fun column c => column.sql ++ " AS " ++ Text.quoteIdent c.2)
      b.columns q.columns) ++
    b.middle.sql ++ Select.clause " GROUP BY " (b.terms.map (·.sql)) ++ b.last.sql

/-- The texts are those of the plan. -/
structure Covers (b : BoundSelect) (q : Select) (d : Dialect) : Prop where
  columns : b.columns.map (·.text) = q.columns.map (·.1.sql)
  middle : b.middle.text = Select.fromSql q.relations ++ Select.filterSql q.filter
  terms : b.terms.map (·.text) = q.groupBy d
  last : b.last.text = q.tailSql

/-- Every term is a copy of a column in the template. -/
theorem Covers.copied {b : BoundSelect} {q : Select} {d : Dialect} (h : b.Covers q d) :
    ∀ term ∈ b.terms, ∃ column ∈ b.columns, column.text = term.text := by
  intro term hterm
  have hmem : term.text ∈ q.groupBy d := by
    rw [← h.terms]
    exact List.mem_map_of_mem hterm
  obtain ⟨c, hc, heq⟩ := Select.mem_groupBy hmem
  have hcolumn : term.text ∈ b.columns.map (·.text) := by
    rw [h.columns, ← heq]
    exact List.mem_map_of_mem hc
  exact List.mem_map.mp hcolumn

end BoundSelect

theorem closing_alias {name : String} (h : Tidy name) :
    Closing (" AS " ++ Text.quoteIdent name) := by
  have hident : ∀ c ∈ (Text.quoteIdent name).toList, c ≠ '\'' ∧ c ≠ '\x7b' := by
    intro c hc
    rw [Text.quoteIdent, Text.quoted, String.toList_ofList, List.mem_append, List.mem_cons,
      List.mem_singleton] at hc
    rcases hc with (rfl | hc) | rfl
    · decide
    · have hmem := mem_doubled hc
      constructor
      · rintro rfl
        exact h.1 hmem
      · rintro rfl
        exact h.2 hmem
    · decide
  refine ⟨?_, ?_⟩
  · rw [String.toList_append, List.forall_mem_append]
    exact ⟨unmarked_of_all (by decide), hident⟩
  · intro c hc
    rw [String.toList_append] at hc
    cases hc
    decide

section Bind

variable {d : Dialect} {carried : List Value} {context : Context} {quoted : Bool}
  {st st' : List Value} {out w : List Char}

/-- A clause is bound term by term. -/
theorem fill_clause {word : String} (hword : ∀ c ∈ word.toList, c ≠ '\'' ∧ c ≠ '\x7b')
    {terms : List String} (hw : ∀ c ∈ w.head?, isApart c)
    (h : fill (bindToken d carried context)
      (piecesFrom quoted 0 ((Select.clause word terms).toList ++ w)) st = .ok (out, st')) :
    ∃ bs quoted' mid rest, InTurn d carried context quoted st bs quoted' mid ∧
      bs.map (·.text) = terms ∧
      fill (bindToken d carried context) (piecesFrom quoted' 0 w) mid = .ok (rest, st') ∧
      out = (Select.clause word (bs.map (·.sql))).toList ++ rest := by
  cases terms with
  | nil => exact ⟨[], quoted, st, out, .nil, rfl, h, rfl⟩
  | cons term terms =>
    have hplain : term :: terms = (term :: terms).map fun term => term ++ "" := by simp
    rw [Select.clause, if_neg (by simp), String.toList_append, List.append_assoc,
      piecesFrom_unmarked _ hword, fill_chars, hplain] at h
    obtain ⟨_, h, rfl⟩ := h
    obtain ⟨bs, quoted', mid, rest, hturn, htexts, hrest, rfl⟩ :=
      fill_join (fun _ _ => ⟨by simp, by simp⟩) hw h
    rw [List.map_id'] at htexts
    refine ⟨bs, quoted', mid, rest, hturn, htexts, hrest, ?_⟩
    have hlength : bs.length = (term :: terms).length := by
      rw [← htexts, List.length_map]
    have hsql : List.zipWith (fun b _ => b.sql ++ "") bs (term :: terms) = bs.map (·.sql) := by
      have hfirst := List.map_fst_zip (Nat.le_of_eq hlength)
      calc List.zipWith (fun b _ => b.sql ++ "") bs (term :: terms)
          = ((bs.zip (term :: terms)).map Prod.fst).map (·.sql) := by
            simp [List.zip, List.map_zipWith]
        _ = bs.map (·.sql) := by rw [hfirst]
    cases bs with
    | nil => cases htexts
    | cons b bs =>
      rw [hsql, Select.clause, if_neg (by simp), String.toList_append, List.append_assoc]

/-- A statement is bound in turn: its columns, the text up to the terms that it is grouped by, these
terms, and the rest. -/
theorem bind_select {t : Template} {c : Compiled} (hsql : t.sql = t.select.render d)
    (hnames : ∀ c ∈ t.select.columns, Tidy c.2) (h : t.bind d context = .ok c) :
    ∃ b : BoundSelect, c.sql = b.sql t.select ∧ b.Covers t.select d ∧
      ∃ quoted, InTurn d t.carried context false [] b.texts quoted c.parameters := by
  have hfill := bind_fill h
  have hselect : ∀ c ∈ ("SELECT " ++ if t.select.distinct then "DISTINCT " else "").toList,
      c ≠ '\'' ∧ c ≠ '\x7b' := by
    cases t.select.distinct with
    | true => exact unmarked_of_all (by decide)
    | false => exact unmarked_of_all (by decide)
  have hgroup := (t.select.groupBy_trails d).append t.select.tailSql_trails
  have hmiddle : ∀ c ∈ (Select.fromSql t.select.relations ++
      Select.filterSql t.select.filter).toList.head?, isApart c := by
    rw [String.toList_append]
    exact apart_append (Select.fromSql_apart _) (Select.filterSql_trails _).apart
  have hsplit : t.sql = ("SELECT " ++ if t.select.distinct then "DISTINCT " else "") ++
      (Text.join ", " (t.select.columns.map fun c => c.1.sql ++ (" AS " ++ Text.quoteIdent c.2)) ++
        ((Select.fromSql t.select.relations ++ Select.filterSql t.select.filter) ++
          (Select.clause " GROUP BY " (t.select.groupBy d) ++ t.select.tailSql))) := by
    have hcolumn : Select.columnSql = fun c => c.1.sql ++ (" AS " ++ Text.quoteIdent c.2) :=
      funext fun c => String.append_assoc
    simp only [hsql, Select.render, Select.tailSql, hcolumn, String.append_assoc]
  rw [pieces, hsplit, String.toList_append, piecesFrom_unmarked _ hselect, fill_chars,
    String.toList_append, String.toList_append] at hfill
  obtain ⟨_, hall, hout⟩ := hfill
  obtain ⟨columns, _, _, _, hcolumns, htexts, hbehind, rfl⟩ :=
    fill_join (fun c hc => closing_alias (hnames c hc)) (apart_append hmiddle hgroup.apart) hall
  obtain ⟨middle, _, _, hmid, hend, hrest⟩ := fill_cut hgroup.apart hbehind
  rw [String.toList_append (t := t.select.tailSql)] at hend
  obtain ⟨terms, _, _, last, hterms, hgrouped, hlast, hrest'⟩ :=
    fill_clause (unmarked_of_all (by decide)) t.select.tailSql_trails.apart hend
  refine ⟨⟨columns, ⟨_, _, _, middle, _⟩, terms, ⟨t.select.tailSql, _, _, .ofList last, _⟩⟩, ?_,
    ⟨htexts, rfl, hgrouped, rfl⟩, _, hcolumns.append (.cons hmid (hterms.append (.cons ?_ .nil)))⟩
  · rw [← String.toList_inj, hout, hrest, hrest']
    simp [BoundSelect.sql, String.append_assoc]
  · rw [BoundText.Holds, String.toList_ofList]
    exact hlast

end Bind

theorem Sql.Composed.balanced {cs : List Char} {names : List String} (h : Composed cs names) :
    Balanced cs := by
  induction h with
  | nil => exact still_nil.balanced
  | text hu _ ih => exact hu.balanced.append ih
  | token hname _ _ ih =>
    refine (balanced_of_not_mem ?_).append ih
    simpa [Placeholder.token] using hname.not_mem

theorem Sql.IsComposed.balanced {cs : List Char} (h : IsComposed cs) : Balanced cs := by
  obtain ⟨_, h⟩ := h
  exact h.balanced

namespace Compile

/-- How the terms of GROUP BY come out of binding. -/
structure Grouped (registry : Registry) (scope : Scope) (context : Context) (t : Template)
    (c : Compiled) (b : BoundSelect) : Prop where
  sql : c.sql = b.sql t.select
  covers : b.Covers t.select scope.options.dialect
  inTurn : ∃ quoted, InTurn scope.options.dialect t.carried context false [] b.texts quoted
    c.parameters
  /-- In the template every term is the text of a column. -/
  copied : ∀ term ∈ b.terms, ∃ column ∈ b.columns, column.text = term.text
  /-- It is the same after binding if it adds no parameter, and only then, unless quotes that the
  texts before it leave open come in between. -/
  same : ∀ column ∈ b.columns, ∀ term ∈ b.terms, column.text = term.text →
    (column.sql = term.sql ↔ term.after = term.before ∧
      (column.quoted = term.quoted ∨ namesIn term.text.toList = []))
  /-- If all is calm, no column at all is the same as a term that adds a parameter. -/
  calm : Calm registry scope → ∀ term ∈ b.terms,
    ((∃ column ∈ b.columns, column.sql = term.sql) ↔ term.after = term.before)

section Grouped

variable {registry : Registry} {scope : Scope} {context : Context} {s : Statement} {t : Template}
  {c : Compiled} {b : BoundSelect}

theorem isComposed_of_calm (hcalm : Calm registry scope) (ht : template registry scope s = .ok t)
    (hcovers : b.Covers t.select scope.options.dialect) :
    (∀ column ∈ b.columns, IsComposed column.text.toList) ∧
      ∀ term ∈ b.terms, IsComposed term.text.toList := by
  have hcolumns : ∀ text ∈ b.columns.map (·.text), IsComposed text.toList := by
    rw [hcovers.columns, List.forall_mem_map]
    intro c hc
    exact (template_isComposed hcalm ht).2 c.1 (by simp [Select.parts]; exact .inl ⟨c.2, hc⟩)
  rw [List.forall_mem_map] at hcolumns
  refine ⟨hcolumns, fun term hterm => ?_⟩
  obtain ⟨column, hcolumn, htext⟩ := hcovers.copied term hterm
  rw [← htext]
  exact hcolumns column hcolumn

/-- If all is calm, no text leaves quotes open. -/
theorem quoted_of_calm (hcalm : Calm registry scope) (ht : template registry scope s = .ok t)
    (hcovers : b.Covers t.select scope.options.dialect) {quoted : Bool} {st : List Value}
    (hturn : InTurn scope.options.dialect t.carried context false [] b.texts quoted st) :
    ∀ bound ∈ b.texts, bound.quoted = false := by
  obtain ⟨hcolumns, hterms⟩ := isComposed_of_calm hcalm ht hcovers
  have hparts := (template_isComposed hcalm ht).2
  simp only [Select.parts, List.mem_append, or_imp, forall_and, List.forall_mem_map] at hparts
  obtain ⟨⟨-, hfilter⟩, horder⟩ := hparts
  have hfrom : Balanced (Select.fromSql t.select.relations).toList := by
    rw [template, maxDepth, templateWithin] at ht
    exact (Select.fromSql_trails (select_tidy hcalm.tidy ht)).woven.seam.balanced
  have hwhere : IsComposed (Select.filterSql t.select.filter).toList := by
    refine weaves_isComposed.woven (Select.filterSql_trails _).woven ?_
    rw [List.forall_mem_map]
    exact hfilter
  have htail : IsComposed t.select.tailSql.toList := by
    refine weaves_isComposed.woven t.select.tailSql_trails.woven ?_
    rw [List.forall_mem_map]
    exact horder
  refine (hturn.quoted_of_balanced ?_).2
  simp only [BoundSelect.texts, List.forall_mem_append, List.forall_mem_cons, hcovers.middle,
    hcovers.last, String.toList_append]
  exact ⟨fun column hcolumn => (hcolumns column hcolumn).balanced, hfrom.append hwhere.balanced,
    fun term hterm => (hterms term hterm).balanced, htail.balanced, by simp⟩

/-- If all is calm, a term that adds parameters has markers that no column before it has. -/
theorem after_eq_of_sql_eq (hd : scope.options.dialect ≠ .generic) {column term : BoundText}
    (hcolumn : column.Holds scope.options.dialect t.carried context)
    (hterm : term.Holds scope.options.dialect t.carried context)
    (hquoted : column.quoted = false ∧ term.quoted = false)
    (hcomposed : IsComposed column.text.toList ∧ IsComposed term.text.toList)
    (hlater : column.after <+: term.before) (hsame : column.sql = term.sql) :
    term.after = term.before := by
  obtain ⟨⟨_, hc⟩, _, ht⟩ := hcomposed
  rw [BoundText.Holds, hquoted.1] at hcolumn
  rw [BoundText.Holds, hquoted.2] at hterm
  obtain ⟨vs, -, hvs, -, hmarkers⟩ := composed_bind hc hcolumn
  obtain ⟨vs', -, hvs', -, hmarkers'⟩ := composed_bind ht hterm
  rw [hsame, hmarkers'] at hmarkers
  obtain ⟨hcount, hnone | hbefore⟩ := numbered_inj hd hmarkers
  · rw [hvs', List.length_eq_zero_iff.mp hnone, List.append_nil]
  · have hlength := hlater.length_le
    rw [hvs, List.length_append] at hlength
    have hnone : vs'.length = 0 := by omega
    rw [hvs', List.length_eq_zero_iff.mp hnone, List.append_nil]

end Grouped

end Compile

open Compile

/-- In a compiled statement the terms of GROUP BY come from binding copies of columns. Each is the
same as a column if it adds no parameter; one that adds a parameter is numbered anew. -/
theorem compile_grouped {registry : Registry} {scope : Scope} {context : Context}
    {s : Statement} {t : Template} {c : Compiled} (hd : scope.options.dialect ≠ .generic)
    (ht : template registry scope s = .ok t) (hc : compile registry scope context s = .ok c) :
    ∃ b, Grouped registry scope context t c b := by
  have hselect := ht
  rw [template, maxDepth, templateWithin] at hselect
  obtain ⟨hwritten, hsql, -⟩ := select_row hselect
  obtain ⟨b, hc, hcovers, quoted, hturn⟩ :=
    bind_select hsql hwritten.tidy ((compile_eq_bind ht context).symm.trans hc)
  have hholds := hturn.holds
  have hlater : ∀ column ∈ b.columns, ∀ term ∈ b.terms, column.after <+: term.before :=
    fun column hcolumn term hterm => hturn.before column hcolumn term (by simp [hterm])
  have hcolumns : ∀ column ∈ b.columns, column ∈ b.texts := by
    simp +contextual [BoundSelect.texts]
  have hterms : ∀ term ∈ b.terms, term ∈ b.texts := by
    simp +contextual [BoundSelect.texts]
  have hsame : ∀ column ∈ b.columns, ∀ term ∈ b.terms, column.text = term.text →
      (column.sql = term.sql ↔ term.after = term.before ∧
        (column.quoted = term.quoted ∨ namesIn term.text.toList = [])) :=
    fun column hcolumn term hterm htext => BoundText.sql_eq_iff hd (hholds _ (hcolumns _ hcolumn))
      (hholds _ (hterms _ hterm)) htext (hlater column hcolumn term hterm)
  -- if all is calm no quotes are open, and the markers of a text tell how many parameters come
  -- before it
  refine ⟨b, hc, hcovers, ⟨quoted, hturn⟩, hcovers.copied, hsame, fun hcalm term hterm => ?_⟩
  have hquoted := quoted_of_calm hcalm ht hcovers hturn
  constructor
  · rintro ⟨column, hcolumn, heq⟩
    obtain ⟨hselected, hgrouped⟩ := isComposed_of_calm hcalm ht hcovers
    exact after_eq_of_sql_eq hd (hholds _ (hcolumns _ hcolumn)) (hholds _ (hterms _ hterm))
      ⟨hquoted _ (hcolumns _ hcolumn), hquoted _ (hterms _ hterm)⟩
      ⟨hselected column hcolumn, hgrouped term hterm⟩ (hlater column hcolumn term hterm) heq
  · intro hnone
    obtain ⟨column, hcolumn, htext⟩ := hcovers.copied term hterm
    refine ⟨column, hcolumn, (hsame column hcolumn term hterm htext).mpr ⟨hnone, .inl ?_⟩⟩
    rw [hquoted _ (hcolumns _ hcolumn), hquoted _ (hterms _ hterm)]

def tallyStatement : Statement :=
  { select := "p + \x7bx\x7d as s, p as q, max(p) as m" }

def tallyContext : Context :=
  ⟨[("x", .text "x")]⟩

/-- The sum is numbered anew where it is grouped by, and the field is the same. -/
theorem compile_grouped_tally :
    ∃ schema model t c b, Schema.build Sample.stock = .ok schema ∧
      schema.resolveModel "B" none = .ok model ∧
      template {} (.top schema {} model {}) tallyStatement = .ok t ∧
      compile {} (.top schema {} model {}) tallyContext tallyStatement = .ok c ∧
      Calm {} (.top schema {} model {}) ∧
      Grouped {} (.top schema {} model {}) tallyContext t c b ∧
      c.sql =
        "SELECT (\"b\".\"p\" + $1) AS \"s\", \"b\".\"p\" AS \"q\", max(\"b\".\"p\") AS \"m\"" ++
        " FROM \"b\" GROUP BY (\"b\".\"p\" + $2), \"b\".\"p\"" := by
  have h : ((Schema.build Sample.stock).toOption.bind fun schema =>
      (schema.resolveModel "B" none).toOption.bind fun model =>
      (template {} (.top schema {} model {}) tallyStatement).toOption.bind fun t =>
      (t.bind .postgres tallyContext).toOption.map fun c =>
      decide (schema.Tidy ∧ c.sql =
        "SELECT (\"b\".\"p\" + $1) AS \"s\", \"b\".\"p\" AS \"q\", max(\"b\".\"p\") AS \"m\"" ++
          " FROM \"b\" GROUP BY (\"b\".\"p\" + $2), \"b\".\"p\"")) = some true := by
    decide +kernel
  simp only [Option.bind_eq_some_iff, Option.map_eq_some_iff, Steps.toOption_eq_some_iff,
    decide_eq_true_eq] at h
  obtain ⟨schema, hschema, model, hmodel, t, ht, c, hbind, htidy, hsql⟩ := h
  have hc : compile {} (.top schema {} model {}) tallyContext tallyStatement = .ok c :=
    (compile_eq_bind ht tallyContext).trans hbind
  have hcalm : Calm {} (.top schema {} model {}) := by
    refine ⟨Scope.tidy_top htidy (Schema.resolveModel_mem hmodel).1 _ _, rfl, ?_⟩
    intro name text own hget
    cases hget
  obtain ⟨b, hgrouped⟩ := compile_grouped (fun hgeneric => by cases hgeneric) ht hc
  exact ⟨schema, model, t, c, b, hschema, hmodel, ht, hc, hcalm, hgrouped, hsql⟩

end PathQuery
