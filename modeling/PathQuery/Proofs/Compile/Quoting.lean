import PathQuery.Proofs.Compile.Plan
import PathQuery.Proofs.Sql.Fragment

/-!
No statement breaks out of its quotes. Every piece of SQL that is made from a readable expression
is clean, so a plan is written as clean text; its sub-queries come from the level below, where the
same holds, and neither splicing nor binding is seen by the scan. Only text that the caller puts in
as SQL can be anything else: literals that are trusted and registered sources of text.
-/

namespace PathQuery

open Sql

/-! ### Names, numbers and columns -/

theorem Expr.IsName.inert {name : String} (h : Expr.IsName name) : Inert name.toList := by
  refine ⟨h.1, ?_⟩
  intro c hc
  have hclass : Expr.isNameRest c := by
    rw [← h.2.1] at hc
    cases hcs : name.toList with
    | nil => exact absurd hcs h.1
    | cons d rest =>
      rw [hcs, Expr.spelled] at hc
      split at hc
      · next hd =>
        rcases List.mem_cons.mp hc with rfl | hc
        · simp only [Expr.isNameStart, Expr.isNameRest, Char.isAlphanum, Bool.or_eq_true] at hd ⊢
          rcases hd with hd | hd
          · exact .inl (.inl hd)
          · exact .inr hd
        · exact List.mem_takeWhile_imp hc
      · cases hc
  revert hclass
  exact isInert_of_class (by decide)

theorem Expr.IsDigits.inert {cs : List Char} (h : Expr.IsDigits cs) : Inert cs :=
  ⟨h.1, fun c hc => isInert_of_isDigit (h.2 c hc)⟩

/-- The one sign that a number can hold stands before a digit. -/
theorem Expr.IsNumber.neutral {text : String} (h : Expr.IsNumber text.toList) : Neutral text := by
  obtain ⟨whole, part, power, htext, hwhole, hpart, hpower⟩ := h
  intro m hm
  have hstart : scan m whole = .plain := by
    rw [scan_inert hwhole.inert]
    cases m <;> first | rfl | cases hm
  have hplaces : scan .plain part = .plain := by
    rcases hpart with rfl | ⟨ds, rfl, hds⟩
    · rfl
    · rw [scan_cons]
      exact scan_inert hds.inert .plain
  rw [htext, scan_append, scan_append, hstart, hplaces]
  rcases hpower with rfl | ⟨mark, sign, ds, rfl, hmark, hsign, hds⟩
  · rfl
  · rw [List.cons_append, scan_cons, scan_append, scan_inert hds.inert]
    rcases hmark with rfl | rfl <;> rcases hsign with rfl | rfl | rfl <;> rfl

theorem ColumnRef.neutral_sql (c : ColumnRef) : Neutral c.sql := by
  have hdot : Closed "." := by decide
  exact ((neutral_quoteIdent c.relation).append hdot).append (neutral_quoteIdent c.column).closed

theorem Dialect.datePart?_neutral {d : Dialect} {part column sql : String}
    (hc : Neutral column) (h : d.datePart? part column = some sql) : Neutral sql := by
  have hend : Closed ")" := by decide
  simp only [datePart?] at h
  split at h
  · cases h
  · next hpart =>
    rw [Bool.not_eq_true, Bool.not_eq_false', List.contains_iff_mem] at hpart
    generalize Text.lowerBasic part = name at h hpart
    cases h
    cases d with
    | postgres =>
      have hstart : ∀ p ∈ dateParts, Neutral ("date_part('" ++ p ++ "', ") := by decide +kernel
      exact ((hstart name hpart).append hc.closed).append hend
    | sqlite =>
      have hstart : ∀ p ∈ dateParts, Neutral ("CAST(strftime('" ++ formatCode p ++ "', ") := by
        decide +kernel
      have hcast : Closed ") AS INTEGER)" := by decide
      have hextract := ((hstart name hpart).append hc.closed).append hcast
      have hquarter : Neutral "((" := by decide
      have hdivide : Closed " + 2) / 3)" := by decide
      dsimp only
      split
      · exact (hquarter.append hextract.closed).append hdivide
      · exact hextract
    | generic =>
      have hstart : ∀ p ∈ dateParts, Neutral ("EXTRACT(" ++ Text.upperBasic p ++ " FROM ") := by
        decide +kernel
      exact ((hstart name hpart).append hc.closed).append hend

theorem PathTarget.neutral_sql (t : PathTarget) (d : Dialect) : Neutral (t.sql d) := by
  have hc := t.column.neutral_sql
  unfold PathTarget.sql
  split
  · next part _ =>
    cases hd : d.datePart? part t.column.sql with
    | none => exact hc
    | some sql => exact Dialect.datePart?_neutral hc hd
  · exact hc

/-! ### Calls -/

namespace Builtin

theorem isInert_typeSize? {cs size rest : List Char} (h : typeSize? cs = some (size, rest)) :
    ∀ c ∈ size, isInert c := by
  have hdigit {c : Char} : Text.isDecimalDigit c → isInert c := isInert_of_class (by decide)
  have hblank {c : Char} : Text.isBlank c → isInert c := isInert_of_class (by decide)
  have hclose : isInert ')' := by decide
  have hcomma : isInert ',' := by decide
  simp only [typeSize?] at h
  split at h
  · cases h
  · split at h
    · cases h
      intro c hc
      rcases List.mem_append.mp hc with hc | hc
      · exact hdigit (List.mem_takeWhile_imp hc)
      · rw [List.mem_singleton.mp hc]
        exact hclose
    · split at h
      · cases h
      · split at h
        · cases h
          intro c hc
          simp only [List.mem_append, List.mem_cons, List.not_mem_nil, or_false] at hc
          rcases hc with (((hc | rfl | hc) | hc) | rfl)
          · exact hdigit (List.mem_takeWhile_imp hc)
          · exact hcomma
          · exact hblank (List.mem_takeWhile_imp hc)
          · exact hdigit (List.mem_takeWhile_imp hc)
          · exact hclose
        · cases h
    · cases h

theorem inert_typeName? {cs t : List Char} (h : typeName? cs = some t) : Inert t := by
  have hword {c : Char} : isTypeRest c → isInert c := isInert_of_class (by decide)
  have halpha {c : Char} (hc : c.isAlpha) : isInert c :=
    hword (by simp [isTypeRest, Char.isAlphanum, hc])
  have hopen : isInert '(' := by decide
  unfold typeName? at h
  split at h
  · next c cs =>
    split at h
    · cases h
    · next hc =>
      have hc' : isInert c := halpha (by simpa using hc)
      have hrest : ∀ d ∈ cs.takeWhile isTypeRest, isInert d :=
        fun d hd => hword (List.mem_takeWhile_imp hd)
      have hstart : Inert (c :: cs.takeWhile isTypeRest) :=
        ⟨by simp, by simpa using ⟨hc', hrest⟩⟩
      dsimp only at h
      split at h
      · cases h
        exact hstart
      · split at h
        · next hsize =>
          cases h
          refine hstart.append ?_
          intro d hd
          rcases List.mem_cons.mp hd with rfl | hd
          · exact hopen
          · exact isInert_typeSize? hsize d hd
        · cases h
      · cases h
  · cases h

theorem clean_choiceArms (i : Nat) {arms : List String} (h : ∀ a ∈ arms, Clean a) :
    ∀ a ∈ choiceArms i arms, Clean a := by
  have hwhen : Closed "WHEN " := by decide
  have hthen : Neutral " THEN " := by decide
  induction arms generalizing i with
  | nil => simp [choiceArms]
  | cons a rest ih =>
    have hi := hwhen.append (neutral_inert (inert_ofNat i)).clean
    intro x hx
    rcases List.mem_cons.mp hx with rfl | hx
    · exact (hi.close hthen).append (h a (by simp))
    · exact ih _ (fun y hy => h y (List.mem_cons_of_mem a hy)) x hx

theorem clean_choice {word stop c x y : String} (hword : Closed word) (hstop : Neutral stop)
    (hc : Clean c) (hx : Clean x) (hy : Clean y) :
    Clean (word ++ c ++ " THEN " ++ x ++ " ELSE " ++ y ++ stop) := by
  have hthen : Neutral " THEN " := by decide
  have helse : Neutral " ELSE " := by decide
  have harms := (((hword.append hc).close hthen).append hx).close helse
  exact ((harms.append hy).close hstop).clean

/-- The words of a builtin keep its arguments apart. -/
theorem clean_render {b : Builtin} {name sql : String} {args : List String} {d : Dialect}
    (hargs : ∀ a ∈ args, Clean a) (h : b.render name args d = .ok sql) : Clean sql := by
  have hblank : Neutral " " := by decide
  unfold render at h
  split at h
  · cases h
  · split at h
    · cases h
      simp only [List.forall_mem_cons] at hargs
      obtain ⟨hc, hx, hy, -⟩ := hargs
      have hcase : Closed "CASE WHEN " := by decide
      have hend : Neutral " END" := by decide
      exact clean_choice hcase hend hc hx hy
    · cases h
      simp only [List.forall_mem_cons] at hargs
      have hlike : Neutral " LIKE " := by decide
      exact (hargs.1.close hlike).append hargs.2.1
    · cases h
      simp only [List.forall_mem_cons] at hargs
      have hop : Clean d.ilike := by cases d <;> decide
      exact hargs.1.between hop hargs.2.1
    · cases h
      simp only [List.forall_mem_cons] at hargs
      have hop : Clean d.ilike := by cases d <;> decide
      have hbefore : Neutral " '%' || " := by decide
      have hafter : Neutral " || '%'" := by decide
      have hpattern := ((hargs.1.close hblank).append hop).close hbefore
      exact ((hpattern.append hargs.2.1).close hafter).clean
    · cases h
      simp only [List.forall_mem_cons] at hargs
      have hop : Clean d.regexMatch := by cases d <;> decide
      exact hargs.1.between hop hargs.2.1
    · cases h
      exact Clean.join (by decide) hargs
    · cases h
      decide
    · simp only [List.forall_mem_cons] at hargs
      split at h
      · next t ht =>
        cases h
        have hcast : Closed "CAST(" := by decide
        have has : Neutral " AS " := by decide
        have htype : Neutral (.ofList t) := neutral_inert (by simpa using inert_typeName? ht)
        exact ((hcast.append hargs.1).close has).enclose htype.clean
      · cases h
    · cases h
      simp only [List.forall_mem_cons] at hargs
      have hpoint : Closed "ST_X(" := by decide
      exact hpoint.enclose hargs.1
    · cases h
      simp only [List.forall_mem_cons] at hargs
      have hpoint : Closed "ST_Y(" := by decide
      exact hpoint.enclose hargs.1
    · cases h
      rw [List.forall_mem_cons] at hargs
      have hcase : Closed "CASE " := by decide
      have hend : Neutral " END" := by decide
      have harms := Clean.join hblank (clean_choiceArms 0 hargs.2)
      exact ((((hcase.append hargs.1).close hblank).append harms).close hend).clean
    · cases h
      simp only [List.forall_mem_cons] at hargs
      have hcount : Closed "COUNT(DISTINCT " := by decide
      exact hcount.enclose hargs.1
    · cases h
      simp only [List.forall_mem_cons] at hargs
      obtain ⟨hc, hx, hy, -⟩ := hargs
      have hsum : Closed "SUM(CASE WHEN " := by decide
      have hend : Neutral " END)" := by decide
      exact clean_choice hsum hend hc hx hy
    · cases h

end Builtin

theorem BinaryOp.clean_sql (op : BinaryOp) : Clean op.sql := by
  cases op <;> decide

theorem CompareOp.clean_sql (op : CompareOp) : Clean op.sql := by
  cases op <;> decide

theorem Connective.neutral_word (op : Connective) : Neutral (" " ++ op.sql ++ " ") := by
  cases op <;> decide

/-! ### Plans -/

theorem Relation.neutral_tableSql (r : Relation) : Neutral r.tableSql := by
  unfold Relation.tableSql
  split
  · next name _ =>
    have has : Closed " AS " := by decide
    exact ((neutral_quoteIdent r.table).append has).append (neutral_quoteIdent name).closed
  · exact neutral_quoteIdent r.table

theorem Relation.joinSql?_clean {r : Relation} {sql : String} (h : r.joinSql? = some sql) :
    Clean sql := by
  obtain ⟨l, _, rfl⟩ := Option.map_eq_some_iff.mp h
  have hjoin : Closed (r.join.sql ++ " ") := by cases r.join <;> decide
  have hon : Neutral " ON (" := by decide
  have hequal : Closed " = " := by decide
  have hlinkage : Neutral l.sql :=
    (l.source.neutral_sql.append hequal).append l.target.neutral_sql.closed
  exact ((hjoin.append r.neutral_tableSql.clean).close hon).enclose hlinkage.clean

namespace Select

theorem mem_distinctTexts {texts : List String} {t : String} (h : t ∈ distinctTexts texts) :
    t ∈ texts := by
  induction texts with
  | nil => exact h
  | cons s rest ih =>
    rcases List.mem_cons.mp h with rfl | h
    · exact List.mem_cons_self
    · exact List.mem_cons_of_mem s (ih (List.mem_of_mem_filter h))

/-- Only columns are grouped by. -/
theorem mem_groupBy {s : Select} {d : Dialect} {t : String} (h : t ∈ s.groupBy d) :
    ∃ c ∈ s.columns, c.1.sql = t := by
  unfold groupBy at h
  split at h
  · obtain ⟨part, hpart, rfl⟩ := List.mem_map.mp (mem_distinctTexts h)
    obtain ⟨c, hc, rfl⟩ := List.mem_map.mp (List.mem_of_mem_filter hpart)
    exact ⟨c, hc, rfl⟩
  · cases h

theorem columnSql_clean {c : Fragment × String} (h : Clean c.1.sql) : Clean (columnSql c) := by
  have has : Neutral " AS " := by decide
  exact (h.close has).append (neutral_quoteIdent c.2).clean

theorem orderSql_clean {t : Fragment × Bool} (h : Clean t.1.sql) : Clean (orderSql t) := by
  have hdirection : Neutral (if t.2 then " DESC" else " ASC") := by cases t.2 <;> decide
  exact (h.close hdirection).clean

theorem clause_follows {word : String} {terms : List String} (hword : Neutral word)
    (h : ∀ t ∈ terms, Clean t) : Follows (clause word terms) := by
  unfold clause
  split
  · exact follows_empty
  · exact hword.append_clean (Clean.join (by decide) h)

theorem bound_follows {word : String} (hword : Neutral word) (n : Option Nat) :
    Follows (bound word n) := by
  unfold bound
  split
  · next n =>
    split
    · exact follows_empty
    · exact hword.append_clean (neutral_inert (inert_ofNat n)).clean
  · exact follows_empty

theorem fromSql_follows (rs : List Relation) : Follows (fromSql rs) := by
  cases rs with
  | nil => exact follows_empty
  | cons master joined =>
    have hfrom : Neutral " FROM " := by decide
    have hblank : Neutral " " := by decide
    have hstart : Follows (" FROM " ++ master.tableSql) :=
      hfrom.append_clean master.neutral_tableSql.clean
    simp only [fromSql]
    generalize " FROM " ++ master.tableSql = start at hstart
    induction joined generalizing start with
    | nil => exact hstart
    | cons r rest ih =>
      rw [List.foldl_cons]
      refine ih _ ?_
      split
      · next join hjoin => exact (hstart.close hblank).append_clean (r.joinSql?_clean hjoin)
      · exact hstart

theorem filterSql_follows {filter : Option Fragment} (h : ∀ p ∈ filter, Clean p.sql) :
    Follows (filterSql filter) := by
  cases filter with
  | none => exact follows_empty
  | some part =>
    have hwhere : Neutral " WHERE " := by decide
    simp only [filterSql]
    split
    · exact follows_empty
    · exact hwhere.append_clean (h part rfl)

/-- A plan of clean fragments is written as clean text. -/
theorem render_clean {s : Select} (d : Dialect) (hcolumns : ∀ c ∈ s.columns, Clean c.1.sql)
    (hfilter : ∀ p ∈ s.filter, Clean p.sql) (horder : ∀ t ∈ s.orderBy, Clean t.1.sql) :
    Clean (s.render d) := by
  have hselect : Closed ("SELECT " ++ if s.distinct then "DISTINCT " else "") := by
    cases s.distinct <;> decide
  have hlist : Clean (Text.join ", " (s.columns.map columnSql)) := by
    refine Clean.join (by decide) ?_
    intro p hp
    obtain ⟨c, hc, rfl⟩ := List.mem_map.mp hp
    exact columnSql_clean (hcolumns c hc)
  have hgroup : Follows (clause " GROUP BY " (s.groupBy d)) := by
    refine clause_follows (by decide) ?_
    intro t ht
    obtain ⟨c, hc, rfl⟩ := mem_groupBy ht
    exact hcolumns c hc
  have hterms : Follows (clause " ORDER BY " (s.orderBy.map orderSql)) := by
    refine clause_follows (by decide) ?_
    intro p hp
    obtain ⟨t, ht, rfl⟩ := List.mem_map.mp hp
    exact orderSql_clean (horder t ht)
  have hbody := ((hselect.append hlist).append (fromSql_follows s.relations)).append
    (filterSql_follows hfilter)
  exact (((hbody.append hgroup).append hterms).append
    (bound_follows (by decide) s.limit)).append (bound_follows (by decide) s.offset)

end Select

namespace Compile

variable {f : Frame} {g g' : Gathered}

/-! ### Expressions -/

/-- No text of the caller is taken as SQL, here or in a sub-query. -/
structure Guarded (f : Frame) : Prop where
  untrusted : f.scope.options.trustLiteralSql = false
  noText : ∀ name text context, f.registry.get? name ≠ some (.sql text context)
  nested : ∀ scope s t, f.nested scope s = .ok t → scope.options = f.scope.options → Clean t.sql

theorem subquery_neutral (hf : Guarded f) {name sql : String} {correlated : Bool}
    {joinTypes : Table JoinType} {trail : List String} {s : Statement} {own : Option Context}
    (h : subquery f name correlated joinTypes trail s own g = .ok (sql, g')) : Neutral sql := by
  obtain ⟨_, t, moved, _, -, ht, hmove, rfl, -⟩ := subquery_ok h
  refine neutral_parenthesized ?_
  rw [Clean, scan_move hmove]
  exact hf.nested _ _ _ ht rfl

theorem named_neutral (hf : Guarded f) {name sql : String} (h : named f name g = .ok (sql, g')) :
    Neutral sql := by
  obtain ⟨_, -, h⟩ | ⟨_, -, rfl, -⟩ | ⟨text, context, hd, -⟩ := named_cases h
  · exact subquery_neutral hf h
  · exact neutral_inert (inert_spliceToken _)
  · exact absurd hd (hf.noText name text context)

theorem string_neutral (hf : Guarded f) {text sql : String}
    (h : string f text g = .ok (sql, g')) : Neutral sql := by
  rcases string_cases h with ⟨name, _, h⟩ | ⟨_, ⟨rfl, _⟩ | ⟨htrust, _⟩⟩
  · exact named_neutral hf h
  · exact neutral_quoteLiteral text
  · rw [hf.untrusted] at htrust
    cases htrust

theorem path_neutral {head sql : String} {rest : List String}
    (h : path f head rest g = .ok (sql, g')) : Neutral sql := by
  obtain ⟨t, _, -, rfl, -⟩ := path_ok_iff.mp h
  exact t.neutral_sql _

theorem call_clean {name sql : String} {args : List String} (hname : Inert name.toList)
    (hargs : ∀ a ∈ args, Clean a) (h : call f name args g = .ok (sql, g')) : Clean sql := by
  obtain ⟨b, -, h⟩ | ⟨-, rfl⟩ := call_cases h
  · exact Builtin.clean_render hargs h
  · have hopen : Neutral "(" := by decide
    have hjoined : Clean (Text.join ", " args) := Clean.join (by decide) hargs
    exact ((neutral_inert hname).clean.close hopen).enclose hjoined

theorem shortComparison?_follows {op : CompareOp} {right : Expr} {rest : String}
    (h : shortComparison? op right = some rest) : Follows rest := by
  have hlike : Neutral " LIKE " := by decide
  have hnotLike : Neutral " NOT LIKE " := by decide
  have hnull : Neutral " IS NULL" := by decide
  have hnotNull : Neutral " IS NOT NULL" := by decide
  unfold shortComparison? at h
  split at h
  · cases h
    exact hlike.append_clean (neutral_quoteLiteral _).clean
  · cases h
    exact hnotLike.append_clean (neutral_quoteLiteral _).clean
  · cases h
    exact hnull.follows
  · cases h
    exact hnull.follows
  · cases h
    exact hnotNull.follows
  · cases h
    exact hnotNull.follows
  · cases h

/-- Two minus signs are never written next to each other. -/
theorem unarySql_clean (op : UnaryOp) {sql : String} (h : Clean sql) : Clean (unarySql op sql) := by
  cases op with
  | not =>
    have hnot : Closed "NOT " := by decide
    exact hnot.append h
  | neg =>
    unfold unarySql
    dsimp only
    split
    · have hopen : Closed "-(" := by decide
      exact hopen.enclose h
    · next hhead => exact h.negated (by simpa using hhead)
  | pos => exact h

theorem tupleSql_clean {items : List String} (h : ∀ s ∈ items, Clean s) :
    Clean (tupleSql items) := by
  unfold tupleSql
  split
  · decide
  · exact (neutral_parenthesized (Clean.join (by decide) h)).clean

theorem clean_cases (hf : Guarded f) : Cases f Expr.Legible (fun _ _ sql _ => Clean sql)
    (fun _ _ parts _ => ∀ p ∈ parts, Clean p) where
  operand := Expr.Legible.operand
  path h := (path_neutral h).clean
  number _ he := he.isNumber.neutral.clean
  str _ h := (string_neutral hf h).clean
  bool b _ := by cases b <;> decide
  null _ := by decide
  placeholder _ he := (neutral_inert (inert_token fun c hc =>
    isInert_of_isNameChar (he.isBracedName.2 c hc))).clean
  star _ := by decide
  subquery _ _ h := by
    obtain ⟨_, _, _, -, h⟩ := subqueryCall_ok h
    exact (subquery_neutral hf h).clean
  call he _ _ hargs h := call_clean he.isName.inert hargs h
  binary _ hl hr := by
    have hopen : Closed "(" := by decide
    have hclose : Neutral ")" := by decide
    exact (((hopen.append hl).between (BinaryOp.clean_sql _) hr).close hclose).clean
  short _ hs hl := hl.append (shortComparison?_follows hs)
  compare _ hl hr := hl.between (CompareOp.clean_sql _) hr
  logical hparts := (neutral_parenthesized (Clean.join (Connective.neutral_word _) hparts)).clean
  unary := unarySql_clean _
  tuple := tupleSql_clean
  list := tupleSql_clean
  nil _ := by simp
  cons _ h hrest := List.forall_mem_cons.mpr ⟨h, hrest⟩

/-! ### Statements -/

theorem select_clean {registry : Registry} {nested : Nested} {scope : Scope} {s : Statement}
    {t : Template} (hf : Guarded ⟨scope, registry, nested⟩)
    (h : select registry nested scope s = .ok t) : Clean t.sql := by
  obtain ⟨hwritten, hsql, g, hrow, -⟩ := select_row h
  have hparts := (clean_cases hf).exprs _ hwritten.legible hrow.exprs
  simp only [Select.parts, List.map_append, List.map_map, List.mem_append, or_imp, forall_and,
    List.forall_mem_map, Option.mem_toList] at hparts
  rw [hsql]
  exact Select.render_clean _ hparts.1.1 hparts.1.2 hparts.2

theorem template_clean {registry : Registry} {scope : Scope} {s : Statement} {t : Template}
    (hregistry : ∀ name text context, registry.get? name ≠ some (.sql text context))
    (hscope : scope.options.trustLiteralSql = false) (h : template registry scope s = .ok t) :
    Clean t.sql := by
  revert hscope
  refine templateWithin_induction
    (P := fun scope _ t => scope.options.trustLiteralSql = false → Clean t.sql) ?_ maxDepth h
  intro nested hnested scope s t h hscope
  refine select_clean ⟨hscope, hregistry, ?_⟩ h
  intro inner s t ht hoptions
  exact hnested inner s t ht (by rw [hoptions]; exact hscope)

end Compile

/-- No text of the query language breaks out of the quotes of the SQL, whatever the schema, the
values and the functions that may be called. -/
theorem compile_settled {registry : Registry} {scope : Scope} {context : Context} {s : Statement}
    {c : Compiled}
    (hregistry : ∀ name text own, registry.get? name ≠ some (.sql text own))
    (hscope : scope.options.trustLiteralSql = false)
    (h : compile registry scope context s = .ok c) : Settled c.sql := by
  unfold compile at h
  split at h
  · next t ht =>
    refine settled_of_scan ?_
    rw [scan_bind h]
    exact Compile.template_clean hregistry hscope ht
  · cases h

def quotedTable : List Model :=
  [⟨"s", "B", "b\"; --", [.key "id", { name := "n", column := some "n'/*" }]⟩]

def quotedStatement : Statement :=
  { select := "- -id as x", filter := some "n == 'a''; --*' and n in '@p'" }

theorem compile_settled_quotedTable :
    ∃ schema model c, Schema.build quotedTable = .ok schema ∧
      schema.resolveModel "B" none = .ok model ∧
      compile ⟨[("p", .values [.text "';"])]⟩ (.top schema {} model {}) {} quotedStatement
        = .ok c ∧
      c.sql = "SELECT -(-\"b\"\"; --\".\"id\") AS \"x\" FROM \"b\"\"; --\" WHERE " ++
        "(\"b\"\"; --\".\"n'/*\" LIKE 'a''; --%' AND \"b\"\"; --\".\"n'/*\" IN ($1))" ∧
      Settled c.sql := by
  have h : ((Schema.build quotedTable).toOption.bind fun schema =>
      (schema.resolveModel "B" none).toOption.bind fun model =>
      (compile ⟨[("p", .values [.text "';"])]⟩ (.top schema {} model {}) {}
        quotedStatement).toOption.map fun c => c.sql) =
      some ("SELECT -(-\"b\"\"; --\".\"id\") AS \"x\" FROM \"b\"\"; --\" WHERE " ++
        "(\"b\"\"; --\".\"n'/*\" LIKE 'a''; --%' AND \"b\"\"; --\".\"n'/*\" IN ($1))") := by
    decide +kernel
  simp only [Option.bind_eq_some_iff, Option.map_eq_some_iff, Steps.toOption_eq_some_iff] at h
  obtain ⟨schema, hschema, model, hmodel, c, hc, hsql⟩ := h
  refine ⟨schema, model, c, hschema, hmodel, hc, hsql, compile_settled ?_ rfl hc⟩
  intro name text own
  simp only [Table.get?, Table.find?]
  split <;> simp

end PathQuery
