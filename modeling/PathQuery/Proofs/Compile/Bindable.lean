import PathQuery.Proofs.Compile.Missing
import PathQuery.Proofs.Compile.Registered
import PathQuery.Proofs.Compile.Texts
import PathQuery.Proofs.Condition.Meaning
import PathQuery.Proofs.Placeholder.Names
import PathQuery.Sample.Small

/-!
Filters that can be bound. If no registered name is used, the names in a template are among those in
the sources of the statement, however often its strings are unescaped, read again as the sources of
sub-queries or trusted as SQL. Of a condition only those leaves are left whose names have a value.
So if nothing but the condition has placeholders, no value is missing.
-/

namespace PathQuery

open Sql

namespace Placeholder

variable {N : String → Prop} {cs ds : List Char}

/-- Every name in the text has the property. -/
def AllNamed (N : String → Prop) (cs : List Char) : Prop :=
  ∀ name ∈ namesIn cs, N (.ofList name)

theorem allNamed_of_not_mem (h : '\x7b' ∉ cs) : AllNamed N cs := by
  rw [AllNamed, namesIn_of_not_mem h]
  simp

theorem AllNamed.subset (h : AllNamed N cs) (hsub : namesIn ds ⊆ namesIn cs) : AllNamed N ds :=
  fun name hname => h name (hsub hname)

theorem AllNamed.of_isInfix (h : AllNamed N cs) (hwithin : ds <:+: cs) : AllNamed N ds :=
  h.subset (namesIn_subset hwithin)

theorem AllNamed.of_mem_tokenNames {sql name : String} (h : AllNamed N sql.toList)
    (hname : name ∈ tokenNames sql) : N name := by
  obtain ⟨word, hword, rfl⟩ := List.mem_map.mp (mem_names_of_mem_tokenNames hname)
  exact h word hword

theorem weaves_allNamed (N : String → Prop) : Weaves (AllNamed N) where
  nil := by simp [AllNamed, namesIn]
  seam hu h := by rwa [AllNamed, namesIn_append_unbraced hu.unbraced]
  append h h' hapart := by
    rw [AllNamed, namesIn_append_apart hapart]
    exact List.forall_mem_append.mpr ⟨h, h'⟩

end Placeholder

open Placeholder

/-! ### Moving -/

namespace Splice

/-- Text without names of carried values stays as it is where it is moved. -/
theorem fill_free {offset : Nat} {ps : List Piece} (st : List Value)
    (h : ∀ name ∈ ps.filterMap tokenName?, index? name = none) :
    fill (moveToken offset none) ps st = .ok (ps.flatMap pieceText, st) := by
  induction ps with
  | nil => rfl
  | cons p ps ih =>
    cases p with
    | char c =>
      rw [fill_char]
      exact ⟨_, ih h, rfl⟩
    | token name =>
      have hcons : (Piece.token name :: ps).filterMap tokenName? =
          .ofList name :: ps.filterMap tokenName? := rfl
      rw [hcons, List.forall_mem_cons] at h
      rw [fill_token]
      refine ⟨Placeholder.token (.ofList name), st, _, ?_, ih h.2, ?_⟩
      · simp only [moveToken, h.1]
      · simp [pieceText, Placeholder.token]

theorem move_free {sql : String} {carried before : List Value}
    (h : ∀ name ∈ tokenNames sql, index? name = none) :
    move sql carried none before = .ok (sql, before ++ carried) := by
  have hfill : fill (moveToken before.length none) (pieces sql.toList) (before ++ carried) = _ :=
    fill_free (before ++ carried) h
  rw [pieces, (piecesFrom_text false 0 sql.toList).1] at hfill
  exact move_ok_iff.mpr hfill

end Splice

/-! ### Templates -/

/-- A name without a brace that opens. -/
def Unbraced (name : String) : Prop :=
  '\x7b' ∉ name.toList

theorem spelled_unbraced : Spelled Unbraced Unbraced where
  append hs ht := by
    rw [Unbraced, String.toList_append, List.mem_append]
    exact not_or.mpr ⟨hs, ht⟩
  plain hs hmem := by
    have hplain := List.all_eq_true.mp hs _ hmem
    cases hplain
  ident h := unbraced_quoted (by decide) h

theorem IsMade.unbraced {name : String} (h : IsMade name) : Unbraced name := by
  intro hmem
  have hmade := h _ hmem
  cases hmade

/-- No name of a table or a column has a brace, and neither has a field that stands for a star. -/
structure Schema.Unbraced (s : Schema) : Prop where
  sql : s.Named PathQuery.Unbraced
  fields : ∀ m ∈ s.models, ∀ f ∈ m.concreteFields, PathQuery.Unbraced f.name

/-- The sources of a statement. -/
def Statement.sources (s : Statement) : List String :=
  s.select :: s.filter.toList ++ s.orderBy.toList

namespace Compile

variable {N : String → Prop} {f : Frame} {g g' : Gathered}

/-- The relations so far have no names with braces. -/
def UnbracedSoFar (f : Frame) (g : Gathered) : Prop :=
  f.scope.master ∈ g.relations ∧ ∀ r ∈ g.relations, r.Named Unbraced

theorem selectSource_allNamed {m : Model} {select : String}
    (hfields : ∀ f ∈ m.concreteFields, Unbraced f.name) (h : AllNamed N select.toList) :
    AllNamed N (selectSource m select).toList := by
  unfold selectSource
  dsimp only
  split
  · have hcomma : Glue ", " := glue_of_isGlue (by decide)
    refine (weaves_allNamed N).woven (woven_list hcomma _) ?_
    rw [List.forall_mem_map]
    exact fun field hfield => allNamed_of_not_mem (hfields field hfield)
  · rw [Text.trim, String.toList_ofList]
    exact h.of_isInfix (Text.trimChars_isInfix _)

/-- The names in a plan are those in its sources. -/
theorem Written.allNamed {scope : Scope} {s : Statement} {t : Template} (h : Written scope s t)
    (hfields : ∀ f ∈ scope.model.concreteFields, Unbraced f.name)
    (hs : ∀ source ∈ s.sources, AllNamed N source.toList) :
    ∀ p ∈ t.select.parts, ∀ text ∈ p.expr.texts, AllNamed N text.toList := by
  simp only [Statement.sources, List.mem_append, List.mem_cons, Option.mem_toList, or_imp,
    forall_and, forall_eq] at hs
  obtain ⟨⟨hselect, hfilter⟩, horder⟩ := hs
  have hsource := selectSource_allNamed hfields hselect
  refine h.forall_parts (Q := fun e => ∀ text ∈ e.texts, AllNamed N text.toList) ?_ ?_ ?_
  · intro c hc e he text htext
    have hcolumn := hsource.of_isInfix (Column.parseList_isInfix h.columns c hc)
    exact hcolumn.subset (Expr.parse_names he text htext)
  · intro source hmem e he text htext
    exact (hfilter source hmem).subset (Expr.parse_names he text htext)
  · intro source hmem terms hterms term hterm text htext
    exact (horder source hmem).subset (OrderTerm.parseList_names hterms term hterm text htext)

/-- A pattern has the names of the literal that it is made from. -/
theorem shortRight_allNamed {right : Expr} (h : ∀ text ∈ right.texts, AllNamed N text.toList) :
    AllNamed N (shortRight right).toList := by
  unfold shortRight
  cases hglob : globPattern? right with
  | none => exact (weaves_allNamed N).nil
  | some pattern =>
    unfold globPattern? at hglob
    split at hglob
    · split at hglob
      · cases hglob
        have htext := h _ (by rw [Expr.texts]; exact List.mem_cons_self)
        rwa [Option.map_some, Option.getD_some, AllNamed, namesIn_quoteLiteral, namesIn_pattern]
      · cases hglob
    · cases hglob

/-- Names that are no names of carried values stay in a sub-query when it is put in its place. -/
theorem subqueryCall_allNamed (hN : ∀ name, N name → Splice.index? name = none)
    (hs : f.scope.Named Unbraced)
    (hn : ∀ scope s t, f.nested scope s = .ok t → scope.Named Unbraced →
      scope.schema = f.scope.schema → (∀ source ∈ s.sources, AllNamed N source.toList) →
        AllNamed N t.sql.toList)
    {args : List Expr} {sql : String} (htexts : ∀ text ∈ Expr.allTexts args, AllNamed N text.toList)
    (h : subqueryCall f args g = .ok (sql, g')) : AllNamed N sql.toList := by
  obtain ⟨model, select, filter, hargs, h⟩ := subqueryCall_ok h
  obtain ⟨m, t, moved, after, hm, ht, hmove, rfl, -⟩ := subquery_ok h
  have hnested : AllNamed N t.sql.toList := by
    refine hn _ _ t ht (hs.below (Schema.resolveModel_mem hm).1) rfl ?_
    -- the sources of the sub-query are string literals among the arguments
    intro source hsource
    refine htexts source (Expr.mem_allTexts.mpr ⟨.str source, ?_, by simp [Expr.texts]⟩)
    rw [Expr.mapM_text?_eq_some_iff.mp hargs]
    refine List.mem_map_of_mem (List.mem_cons_of_mem _ ?_)
    simpa [Statement.sources] using hsource
  rw [Splice.move_free fun name hname => hN name (hnested.of_mem_tokenNames hname)] at hmove
  cases hmove
  exact (weaves_allNamed N).woven (woven_single _).parenthesized (by simpa using hnested)

/-- Without registered names, what the leaves come to has the names of their texts. -/
theorem leaves_allNamed (hN : ∀ name, N name → Splice.index? name = none)
    (hs : f.scope.Named Unbraced) (hregistry : f.registry = {})
    (hn : ∀ scope s t, f.nested scope s = .ok t → scope.Named Unbraced →
      scope.schema = f.scope.schema → (∀ source ∈ s.sources, AllNamed N source.toList) →
        AllNamed N t.sql.toList) :
    Leaves f (UnbracedSoFar f) (fun text => AllNamed N text.toList) (AllNamed N) where
  run hrun hg := hrun.named hs hg
  path := by
    intro head rest g g' sql hg h
    obtain ⟨target, relations, hpath, rfl, -⟩ := path_ok_iff.mp h
    have hcolumn := (Join.resolvePath_named hs hg.1 hg.2 hpath).spelled spelled_unbraced
    exact (weaves_allNamed N).woven (target.woven _) (by simpa using allNamed_of_not_mem hcolumn)
  string := by
    intro text g g' sql htext _ h
    obtain ⟨name, -, h⟩ | ⟨-, ⟨rfl, -⟩ | ⟨-, -, rfl, -⟩⟩ := string_cases h
    · rw [named, hregistry] at h
      cases h
    · rwa [AllNamed, namesIn_quoteLiteral]
    · have htrim : AllNamed N (Text.trim text).toList := by
        rw [Text.trim, String.toList_ofList]
        exact htext.of_isInfix (Text.trimChars_isInfix _)
      exact (weaves_allNamed N).woven (woven_single _).parenthesized (by simpa using htrim)
  literal := shortRight_allNamed
  placeholder _ htoken := htoken
  subquery htexts _ h := subqueryCall_allNamed hN hs hn htexts h

/-- Without registered names, the names in a template are those in the sources of its statement. -/
theorem template_allNamed {scope : Scope} {s : Statement} {t : Template}
    (hN : ∀ name, N name → Splice.index? name = none) (hscope : scope.Named Unbraced)
    (hfields : ∀ m ∈ scope.schema.models, ∀ f ∈ m.concreteFields, Unbraced f.name)
    (hs : ∀ source ∈ s.sources, AllNamed N source.toList) (h : template {} scope s = .ok t) :
    AllNamed N t.sql.toList := by
  refine templateWithin_induction (P := fun scope s t => scope.Named Unbraced →
    (∀ m ∈ scope.schema.models, ∀ f ∈ m.concreteFields, Unbraced f.name) →
      (∀ source ∈ s.sources, AllNamed N source.toList) → AllNamed N t.sql.toList)
    ?_ maxDepth h hscope hfields hs
  intro nested hnested scope s t h hscope hfields hs
  have hleaves : Leaves ⟨scope, {}, nested⟩ (UnbracedSoFar ⟨scope, {}, nested⟩)
      (fun text => AllNamed N text.toList) (AllNamed N) := by
    refine leaves_allNamed hN hscope rfl ?_
    intro below s t ht hbelow hschema hs
    exact hnested below s t ht hbelow (by rw [hschema]; exact hfields) hs
  have hstart : UnbracedSoFar ⟨scope, {}, nested⟩ { relations := [scope.master] } :=
    ⟨List.mem_singleton_self _, by simpa using hscope.master⟩
  refine (select_keeps (weaves_allNamed N) hleaves hstart
    ((select_row h).1.allNamed (hfields _ hscope.model) hs) ?_ h).1
  intro g hg
  exact allNamed_of_not_mem (Select.fromSql_spelled spelled_unbraced hg.2)

end Compile

/-! ### Conditions -/

namespace Condition

variable {N : String → Prop} {context : Context}

theorem combine_allNamed {word : String} (hword : Glue word) {parts : List (Bool × String)}
    (h : ∀ p ∈ parts, AllNamed N p.2.toList) : AllNamed N (combine word parts).toList := by
  unfold combine
  split
  · exact (weaves_allNamed N).nil
  · exact h _ List.mem_cons_self
  · refine (weaves_allNamed N).woven (woven_list hword _).parenthesized ?_
    rwa [List.forall_mem_map]

mutual

/-- The names in a rendered condition are those in the leaves that are left. -/
theorem render_allNamed : ∀ c : Condition,
    (∀ source ∈ c.leaves context, isSupplied context source → AllNamed N source.toList) →
      AllNamed N (c.render context).toList
  | .leaf source, h => by
    rw [leaves] at h
    rw [render]
    split
    · next hsupplied =>
      rw [if_pos hsupplied] at h
      exact h source List.mem_cons_self hsupplied
    · exact (weaves_allNamed N).nil
  | .and children, h => by
    rw [leaves] at h
    rw [render]
    exact combine_allNamed (glue_of_isGlue (by decide)) (survivors_allNamed children h)
  | .or children, h => by
    rw [leaves] at h
    rw [render]
    exact combine_allNamed (glue_of_isGlue (by decide)) (survivors_allNamed children h)

theorem survivors_allNamed : ∀ cs : List Condition,
    (∀ source ∈ leavesAll context cs, isSupplied context source → AllNamed N source.toList) →
      ∀ p ∈ survivors context cs, AllNamed N p.2.toList
  | [], _ => by simp [survivors]
  | c :: rest, h => by
    rw [leavesAll, List.forall_mem_append] at h
    have hrest := survivors_allNamed rest h.2
    rw [survivors]
    split
    · exact hrest
    · exact List.forall_mem_cons.mpr ⟨render_allNamed c h.1, hrest⟩

end

/-- The name has a present value. -/
def Supplied (context : Context) (name : String) : Prop :=
  ∃ v, context.get? name = some v ∧ v.isPresent

theorem isSupplied_iff {source : String} :
    isSupplied context source ↔ ∀ name ∈ names source, Supplied context name := by
  rw [isSupplied, List.all_eq_true]
  refine forall₂_congr fun name _ => ?_
  cases h : context.get? name with
  | none => simp [Supplied, h]
  | some v => simp [Supplied, h]

end Condition

open Condition

/-- Against a context, only names with a value are left in the sources of a statement. -/
theorem Definition.statement_allNamed {d : Definition} {context : Context}
    (hselect : '\x7b' ∉ d.select.toList) (horder : ∀ source ∈ d.orderBy, '\x7b' ∉ source.toList)
    (hnames : ∀ c ∈ d.condition, ∀ source ∈ c.leaves context, ∀ name ∈ names source,
      ¬ Splice.lead <+: name.toList) :
    ∀ source ∈ (d.statement context).sources,
      AllNamed (fun name => Splice.index? name = none ∧ Supplied context name) source.toList := by
  simp only [Statement.sources, Definition.statement, List.mem_append, List.mem_cons,
    Option.mem_toList, or_imp, forall_and, forall_eq]
  refine ⟨⟨allNamed_of_not_mem hselect, ?_⟩,
    fun source hsource => allNamed_of_not_mem (horder source hsource)⟩
  intro source hsource
  unfold Definition.filterSource? at hsource
  cases hc : d.condition with
  | none => simp [hc] at hsource
  | some c =>
    simp only [hc] at hsource
    split at hsource
    · cases hsource
    · cases hsource
      refine c.render_allNamed fun leaf hleaf hsupplied word hword => ?_
      have hname : String.ofList word ∈ names leaf := List.mem_map_of_mem hword
      exact ⟨Splice.index?_eq_none (hnames c hc leaf hleaf _ hname),
        isSupplied_iff.mp hsupplied _ hname⟩

namespace Compile

/-- Without registered names, no value is missing before any is bound. -/
theorem template_ne_missing {scope : Scope} {s : Statement} {name : String} :
    template {} scope s ≠ .error (.missingParameter name) := by
  intro h
  obtain ⟨key, source, own, hget, -⟩ := template_excused _ h name rfl
  cases hget

theorem compile_eq_error {registry : Registry} {scope : Scope} {s : Statement} {e : Error}
    (h : template registry scope s = .error e) (context : Context) :
    compile registry scope context s = .error e := by
  unfold compile
  rw [h]

/-- If every name in a template has a value, compiling misses none. -/
theorem compile_of_supplied {scope : Scope} {s : Statement} {registry : Registry}
    {context : Context}
    (hsame : template registry scope s = template {} scope s)
    (hnames : ∀ t, template {} scope s = .ok t → ∀ name ∈ tokenNames t.sql,
      Splice.index? name = none ∧ Condition.Supplied context name) :
    (∀ name, compile registry scope context s ≠ .error (.missingParameter name)) ∧
      ∀ t, template registry scope s = .ok t →
        (∃ c, compile registry scope context s = .ok c) ∧
          ∀ name ∈ tokenNames t.sql, Condition.Supplied context name := by
  have hbound : ∀ t, template registry scope s = .ok t →
      ∃ c, compile registry scope context s = .ok c := by
    intro t ht
    rw [compile_eq_bind ht, Template.bind_ok_iff_values]
    intro name hname
    obtain ⟨hfree, v, hv, -⟩ := hnames t (hsame ▸ ht) name hname
    exact ⟨v, by rw [Template.valueOf?_free hfree, hv]⟩
  refine ⟨?_, fun t ht => ⟨hbound t ht, fun name hname => (hnames t (hsame ▸ ht) name hname).2⟩⟩
  intro name hmissing
  cases ht : template registry scope s with
  | ok t =>
    obtain ⟨c, hc⟩ := hbound t ht
    rw [hc] at hmissing
    cases hmissing
  | error e =>
    rw [compile_eq_error ht, Except.error.injEq] at hmissing
    rw [hsame, hmissing] at ht
    exact template_ne_missing ht

end Compile

/-- A statement whose placeholders all come from its condition, with the leaves left out that lack a
value, misses no value in the same context: whatever can be compiled can be bound, and every name
that is bound has a present value. -/
theorem compile_pruned {schema : Schema} {m : Model} (hschema : schema.Unbraced)
    (hm : m ∈ schema.models) {d : Definition} {context : Context}
    (hselect : '\x7b' ∉ d.select.toList) (horder : ∀ source ∈ d.orderBy, '\x7b' ∉ source.toList)
    (hnames : ∀ c ∈ d.condition, ∀ source ∈ c.leaves context, ∀ name ∈ names source,
      ¬ Splice.lead <+: name.toList)
    (registry : Registry) (o : Options) (joinTypes : Table JoinType)
    (hused : Task.used schema o.whitelist registry ⟨m, d.statement context⟩ = []) :
    (∀ name, compile registry (.top schema o m joinTypes) context (d.statement context) ≠
      .error (.missingParameter name)) ∧
    ∀ t, Compile.template registry (.top schema o m joinTypes) (d.statement context) = .ok t →
      (∃ c, compile registry (.top schema o m joinTypes) context (d.statement context) = .ok c) ∧
        ∀ name ∈ tokenNames t.sql, ∃ v, context.get? name = some v ∧ v.isPresent := by
  -- without registered names the template is made from its sources alone, so what holds of the
  -- names in these holds of the names that are bound
  have hscope := Scope.named_top (fun _ => IsMade.unbraced) hschema.sql hm o joinTypes
  have hsources := Definition.statement_allNamed hselect horder hnames
  have hsame : Compile.template registry (.top schema o m joinTypes) (d.statement context) =
      Compile.template {} (.top schema o m joinTypes) (d.statement context) :=
    Compile.template_unregistered hused
  refine Compile.compile_of_supplied hsame ?_
  intro t ht name hname
  have hall := Compile.template_allNamed (fun _ hN => hN.1) hscope hschema.fields hsources ht
  exact hall.of_mem_tokenNames hname

/-- A leaf without a value, a sub-query that is read from a string, and SQL in a string. -/
def pantryFilters : Condition :=
  .and [.leaf "p == \x7by\x7d",
    .or [.leaf "p in subquery('B', 'p', 'p == \x7bx\x7d')", .leaf "p in 'select \x7bx\x7d'"]]

def pantryQuery : Definition :=
  { model := "B", select := "*", condition := some pantryFilters, orderBy := some "-p" }

def pantryContext : Context :=
  ⟨[("x", .text "x")]⟩

/-- Text with a name that has no value. -/
def pantryRegistry : Registry :=
  ⟨[("w", .sql "select \x7bz\x7d" {})]⟩

def pantryOptions : Options :=
  { trustLiteralSql := true }

/-- The leaf that lacks a value is left out; on its own it fails. -/
theorem compile_pruned_pantry :
    ∃ schema model c, Schema.build Sample.stock = .ok schema ∧
      schema.resolveModel "B" none = .ok model ∧ schema.Unbraced ∧
      Task.used schema none pantryRegistry ⟨model, pantryQuery.statement pantryContext⟩ = [] ∧
      compile pantryRegistry (.top schema pantryOptions model {}) pantryContext
        (pantryQuery.statement pantryContext) = .ok c ∧
      c.sql = "SELECT \"b\".\"p\" AS \"p\" FROM \"b\"" ++
        " WHERE (\"b\".\"p\" IN (SELECT \"sq1\".\"p\" AS \"p\" FROM \"b\" AS \"sq1\"" ++
        " WHERE \"sq1\".\"p\" = $1) OR \"b\".\"p\" IN (select $2)) ORDER BY \"b\".\"p\" DESC" ∧
      compile pantryRegistry (.top schema pantryOptions model {}) pantryContext
        { pantryQuery.statement pantryContext with filter := some "p == \x7by\x7d" } =
          .error (.missingParameter "y") := by
  have h : ((Schema.build Sample.stock).toOption.bind fun schema =>
      (schema.resolveModel "B" none).toOption.bind fun model =>
      (Compile.template pantryRegistry (.top schema pantryOptions model {})
        (pantryQuery.statement pantryContext)).toOption.bind fun t =>
      (t.bind .postgres pantryContext).toOption.map fun c =>
      decide (((∀ name ∈ schema.sqlNames, '\x7b' ∉ name.toList) ∧
          ∀ m ∈ schema.models, ∀ f ∈ m.concreteFields, '\x7b' ∉ f.name.toList) ∧
        Task.used schema none pantryRegistry ⟨model, pantryQuery.statement pantryContext⟩ = [] ∧
        c.sql = "SELECT \"b\".\"p\" AS \"p\" FROM \"b\"" ++
          " WHERE (\"b\".\"p\" IN (SELECT \"sq1\".\"p\" AS \"p\" FROM \"b\" AS \"sq1\"" ++
          " WHERE \"sq1\".\"p\" = $1) OR \"b\".\"p\" IN (select $2))" ++
          " ORDER BY \"b\".\"p\" DESC" ∧
        (compile pantryRegistry (.top schema pantryOptions model {}) pantryContext
          { pantryQuery.statement pantryContext with
            filter := some "p == \x7by\x7d" }).map (fun _ => ()) =
              .error (.missingParameter "y"))) = some true := by
    decide +kernel
  simp only [Option.bind_eq_some_iff, Option.map_eq_some_iff, Steps.toOption_eq_some_iff,
    decide_eq_true_eq] at h
  obtain ⟨schema, hschema, model, hmodel, t, ht, c, hbind, hnames, hused, hsql, hfails⟩ := h
  have hunbraced : schema.Unbraced := ⟨hnames.1, hnames.2⟩
  have hlead : ∀ c ∈ pantryQuery.condition, ∀ source ∈ c.leaves pantryContext,
      ∀ name ∈ names source, ¬ Splice.lead <+: name.toList := by
    rintro _ ⟨⟩
    decide +kernel
  have hpruned := compile_pruned hunbraced (Schema.resolveModel_mem hmodel).1 (by decide)
    (by decide) hlead pantryRegistry pantryOptions {} hused
  obtain ⟨⟨c', hc'⟩, -⟩ := hpruned.2 t ht
  have hsame : c' = c := by
    have hbound := (Compile.compile_eq_bind ht pantryContext).symm.trans hc'
    have hbind : t.bind _ _ = .ok c := hbind
    exact Except.ok.inj (hbound.symm.trans hbind)
  refine ⟨schema, model, c, hschema, hmodel, hunbraced, hused, hsame ▸ hc', hsql, ?_⟩
  cases hwhole : compile pantryRegistry (.top schema pantryOptions model {}) pantryContext
    { pantryQuery.statement pantryContext with filter := some "p == \x7by\x7d" } with
  | ok c =>
    rw [hwhole] at hfails
    cases hfails
  | error e =>
    rw [hwhole] at hfails
    cases hfails
    rfl

end PathQuery
