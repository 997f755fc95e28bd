import PathQuery.Proofs.Compile.Missing
import PathQuery.Proofs.Compile.Parameters
import PathQuery.Sample.Small

/-!
The places of written placeholders. The text of a statement is threaded by the placeholders that are
written in its columns, its filter and its order. Each of them is bound to the value of its name in
the context, unless the name gives the place of a carried value or the quotes before it are open.
-/

namespace PathQuery

open Sql Template

namespace Expr

theorem allPlaceholders_eq (es : List Expr) :
    allPlaceholders es = (es.map placeholders).flatten := by
  induction es with
  | nil => rfl
  | cons e es ih => rw [allPlaceholders, ih, List.map_cons, List.flatten_cons]

theorem placeholders_node {e : Expr} (he : e.isNode) :
    e.placeholders = (e.operands.map placeholders).flatten := by
  cases e with
  | placeholder => cases he
  | call | logical | tuple | list => rw [placeholders, allPlaceholders_eq, operands]
  | binary | compare | unary => simp [placeholders, operands]
  | _ => rfl

/-- The names of placeholders are those that can be written in braces. -/
theorem Readable.isBracedName {e : Expr} (h : e.Readable) :
    ∀ name ∈ e.placeholders, IsBracedName name.toList := by
  induction h with
  | placeholder h => simpa [placeholders] using h
  | call _ _ ih | logical _ _ _ ih | tuple _ ih | list _ ih =>
    intro name hname
    rw [placeholders, mem_allPlaceholders] at hname
    obtain ⟨x, hx, hname⟩ := hname
    exact ih x hx name hname
  | binary _ _ _ ihl ihr | compare _ _ _ ihl ihr =>
    intro name hname
    rw [placeholders, List.mem_append] at hname
    exact hname.elim (ihl name) (ihr name)
  | unary _ _ ih => simpa only [placeholders] using ih
  | _ => simp [placeholders, allPlaceholders]

theorem IsBracedName.not_mem {cs : List Char} (h : IsBracedName cs) : '\'' ∉ cs := by
  intro hmem
  cases h.2 _ hmem

/-- Texts have no placeholders. -/
theorem allPlaceholders_of_texts {es : List Expr} {texts : List String}
    (h : es.mapM text? = some texts) : allPlaceholders es = [] := by
  rw [mapM_text?_eq_some_iff.mp h]
  clear h
  induction texts with
  | nil => rfl
  | cons text texts ih => exact ih

end Expr

namespace Compile

/-- Names are tidy, and no text of the caller is taken as SQL. -/
structure Calm (registry : Registry) (scope : Scope) : Prop where
  tidy : scope.Tidy
  untrusted : scope.options.trustLiteralSql = false
  noText : ∀ name text own, registry.get? name ≠ some (.sql text own)

/-- Sub-queries close the quotes that they open. -/
def NestedBalanced (f : Frame) : Prop :=
  ∀ scope s t, f.nested scope s = .ok t → Calm f.registry scope → Balanced t.sql.toList

section Threading

variable {f : Frame} {calm : Prop} {g g' : Gathered} {sql : String}

theorem threaded_move {text moved : String} {carried before after : List Value}
    {own : Option Context} (htext : calm → Balanced text.toList)
    (h : Splice.move text carried own before = .ok (moved, after)) :
    Threaded calm ("(" ++ moved ++ ")").toList [] := by
  have hmoved : Threaded calm moved.toList [] := .text fun hcalm => (htext hcalm).move h
  exact (woven_single moved).parenthesized.threaded (.cons hmoved .nil)

theorem subquery_threaded (hf : calm → Calm f.registry f.scope) (hn : NestedBalanced f)
    {model : String} {correlated : Bool} {joinTypes : Table JoinType} {trail : List String}
    {s : Statement} {own : Option Context}
    (h : subquery f model correlated joinTypes trail s own g = .ok (sql, g')) :
    Threaded calm sql.toList [] := by
  obtain ⟨m, t, moved, after, hm, ht, hmove, rfl, -⟩ := subquery_ok h
  refine threaded_move (fun hcalm => hn _ s t ht ?_) hmove
  have hscope := hf hcalm
  exact ⟨hscope.tidy.below (Schema.resolveModel_mem hm).1, hscope.untrusted, hscope.noText⟩

theorem string_threaded (hf : calm → Calm f.registry f.scope) (hn : NestedBalanced f)
    {text : String} (h : string f text g = .ok (sql, g')) : Threaded calm sql.toList [] := by
  obtain ⟨name, -, h⟩ | ⟨-, ⟨rfl, -⟩ | ⟨htrust, -, rfl, -⟩⟩ := string_cases h
  · obtain ⟨d, -, h⟩ | ⟨items, -, rfl, -⟩ | ⟨source, own, hsource, h⟩ := named_cases h
    · exact subquery_threaded hf hn h
    · exact .text fun _ => balanced_of_not_mem fun hmem => by
        cases (inert_spliceToken g.carried.length).2 _ hmem
    · obtain ⟨moved, after, hmove, rfl, -⟩ := splice_ok_iff.mp h
      exact threaded_move (fun hcalm => absurd hsource ((hf hcalm).noText _ _ _)) hmove
  · exact (still_literal text).threaded
  · refine .text fun hcalm => ?_
    rw [(hf hcalm).untrusted] at htrust
    cases htrust

theorem path_threaded (hf : calm → Calm f.registry f.scope) (hg : calm → Joined f g)
    {head : String} {rest : List String} (h : path f head rest g = .ok (sql, g')) :
    Threaded calm sql.toList [] := by
  obtain ⟨target, relations, hpath, rfl, -⟩ := path_ok_iff.mp h
  refine .text fun hcalm => Still.balanced ?_
  have htarget := Join.resolvePath_tidy (hf hcalm).tidy (hg hcalm).1 (hg hcalm).2 hpath
  exact PathTarget.still htarget f.scope.options.dialect

/-- The fragment for an expression is threaded by its placeholders. -/
theorem threaded_cases (hf : calm → Calm f.registry f.scope) (hn : NestedBalanced f) :
    WovenCases f Expr.Legible (fun g => calm → Joined f g)
      (fun e _ sql _ => Threaded calm sql.toList e.placeholders)
      (fun es _ parts _ => ThreadedAll calm parts (es.map Expr.placeholders)) where
  legible h := h
  operand := Expr.Legible.operand
  run h hg hcalm := h.joined (hf hcalm).tidy (hg hcalm)
  path hg h := path_threaded hf hg h
  str _ _ := string_threaded hf hn
  placeholder _ _ := threaded_token _
  subquery _ _ _ h := by
    obtain ⟨_, _, _, hargs, h⟩ := subqueryCall_ok h
    rw [Expr.placeholders, Expr.allPlaceholders_of_texts hargs]
    exact subquery_threaded hf hn h
  literal _ _ hs := by
    obtain ⟨hnode, hnone⟩ := shortComparison?_leaf hs
    rw [Expr.placeholders_node hnode, hnone]
    exact (still_shortRight _).threaded
  node _ he h hsql := by
    rw [Expr.placeholders_node he]
    exact hsql.threaded h
  nil _ := .nil
  cons h hrest := .cons h hrest

theorem Row.threaded (hf : calm → Calm f.registry f.scope) (hn : NestedBalanced f)
    {ps : List Fragment} (h : Row f ps g g') (hread : ∀ e ∈ ps.map (·.expr), e.Legible)
    (hg : calm → Joined f g) : ∀ p ∈ ps, Threaded calm p.sql.toList p.expr.placeholders := by
  have hall := (threaded_cases hf hn).cases.exprs _ hread h.exprs hg
  rwa [List.map_map, ThreadedAll, List.forall₂_map_left_iff, List.forall₂_map_right_iff,
    List.forall₂_same] at hall

end Threading

/-! ### Statements -/

variable {registry : Registry} {scope : Scope} {s : Statement} {t : Template}

theorem Written.isBracedName (h : Written scope s t) :
    ∀ name ∈ Expr.allPlaceholders t.select.trees, Expr.IsBracedName name.toList := by
  intro name hname
  obtain ⟨e, he, hname⟩ := Expr.mem_allPlaceholders.mp hname
  obtain ⟨p, hp, rfl⟩ := List.mem_map.mp he
  exact (h.readable p hp).isBracedName name hname

/-- The text of a statement is threaded by what is written in it. The copies that it is grouped by
are text like all other. -/
theorem select_threaded {calm : Prop} {nested : Nested} (hf : calm → Calm registry scope)
    (hn : NestedBalanced ⟨scope, registry, nested⟩) (h : select registry nested scope s = .ok t) :
    Threaded calm t.sql.toList (Expr.allPlaceholders t.select.trees) := by
  obtain ⟨hwritten, hsql, g, hrow, -⟩ := select_row h
  have hparts := hrow.threaded hf hn hwritten.legible fun hcalm => joined_start (hf hcalm).tidy
  simp only [Select.parts, List.mem_append, or_imp, forall_and, List.forall_mem_map] at hparts
  obtain ⟨⟨hcolumns, hfilter⟩, horder⟩ := hparts
  have hfrom : Threaded calm (Select.fromSql t.select.relations).toList [] := by
    refine .text fun hcalm => ?_
    exact (Select.fromSql_trails (select_tidy (hf hcalm).tidy h)).woven.seam.balanced
  have hgroup : ThreadedAll calm (t.select.groupBy scope.options.dialect)
      ((t.select.groupBy scope.options.dialect).map fun _ => []) := by
    rw [ThreadedAll, List.forall₂_map_right_iff, List.forall₂_same]
    intro term hterm
    obtain ⟨c, hc, rfl⟩ := Select.mem_groupBy hterm
    refine .text fun hcalm => (hcolumns c hc).balanced hcalm fun name hname => ?_
    have hread := hwritten.readable c.1 (by simp [Select.parts]; exact .inl ⟨c.2, hc⟩)
    exact (hread.isBracedName name hname).not_mem
  obtain ⟨first, last, hrender, hfirst, hlast⟩ :=
    Select.render_around t.select scope.options.dialect hwritten.tidy
  have hfront := hfirst.threaded (threadedAll_map hcolumns)
  have hback := hlast.woven.threaded
    (List.rel_append (List.rel_append (threadedAll_map hfilter) hgroup) (threadedAll_map horder))
  have hwhole := (hfront.follow hfrom).follow hback
  rw [hsql, hrender]
  simpa [Expr.allPlaceholders_eq, Select.trees, Select.parts, Function.comp_def] using hwhole

/-- Written placeholders stand in the text in their order, outside quotes if all is calm. -/
theorem template_threaded (h : template registry scope s = .ok t) :
    Threaded (Calm registry scope) t.sql.toList (Expr.allPlaceholders t.select.trees) := by
  refine templateWithin_induction (P := fun scope s t => Written scope s t ∧
    Threaded (Calm registry scope) t.sql.toList (Expr.allPlaceholders t.select.trees)) ?_
    maxDepth h |>.2
  intro nested hnested scope s t h
  refine ⟨(select_row h).1, select_threaded id ?_ h⟩
  intro inner s' t' ht' hcalm
  obtain ⟨hwritten, hthreaded⟩ := hnested inner s' t' ht'
  exact hthreaded.balanced hcalm fun name hname => (hwritten.isBracedName name hname).not_mem

/-- How the placeholders of a statement are bound. -/
structure Binds (registry : Registry) (scope : Scope) (context : Context) (s : Statement)
    (t : Template) : Prop where
  /-- The plan holds what is written in the statement. -/
  written : Written scope s t
  /-- The written placeholders stand in the text in their order. -/
  threaded : Threaded (Calm registry scope) t.sql.toList (Expr.allPlaceholders t.select.trees)
  /-- Wherever quotes are closed, a name in braces is bound to the carried value at the place that
  it gives, or if it gives none, to its value in the context. -/
  closed : ∀ {before name after c}, t.sql = before ++ Placeholder.token name ++ after →
    IsWord name → quotedAfter false before.toList = false →
      compile registry scope context s = .ok c → ∃ v, valueOf? t.carried context name = some v ∧
        BoundAt scope.options.dialect t.carried context before v c
  /-- Where quotes are open, it is bound to nothing. -/
  opened : ∀ {before name after c}, t.sql = before ++ Placeholder.token name ++ after →
    IsWord name → quotedAfter false before.toList = true →
      compile registry scope context s = .ok c →
        LeftAt scope.options.dialect t.carried context before (Placeholder.token name) c
  /-- If all is calm, quotes are closed before every written placeholder, and one whose name gives
  no place is bound to the value of the name in the context. -/
  own : Calm registry scope → ∀ {i name},
    (Expr.allPlaceholders t.select.trees)[i]? = some name →
      ∃ before after, t.sql = before ++ Placeholder.token name ++ after ∧
        Threaded (Calm registry scope) before.toList
          ((Expr.allPlaceholders t.select.trees).take i) ∧
        Threaded (Calm registry scope) after.toList
          ((Expr.allPlaceholders t.select.trees).drop (i + 1)) ∧
        quotedAfter false before.toList = false ∧
        (IsWord name → Splice.index? name = none →
          ∀ c, compile registry scope context s = .ok c → ∃ v, context.get? name = some v ∧
            BoundAt scope.options.dialect t.carried context before v c)
  /-- The statement is compiled if every name in its text has a value. -/
  compiles : (∃ c, compile registry scope context s = .ok c) ↔
    ∀ name ∈ tokenNames t.sql, ∃ v, valueOf? t.carried context name = some v
  /-- If all is calm and no written name could be that of a carried value, every place that a name
  in the text gives is that of a carried value, and only values of the context can be missing. -/
  placed : Calm registry scope → (∀ q ∈ t.select :: t.nested, q.WellNamed) →
    t.carried.length ≤ Splice.placeLimit →
      (∀ name ∈ tokenNames t.sql, Placed t.carried name) ∧
      ((∃ c, compile registry scope context s = .ok c) ↔
        ∀ name ∈ tokenNames t.sql, Splice.index? name = none → ∃ v, context.get? name = some v)

end Compile

open Compile

section Binding

variable {registry : Registry} {scope : Scope} {context : Context} {s : Statement} {t : Template}
  {c : Compiled}

/-- The place of a written placeholder, outside quotes. -/
theorem place_of_written (hcalm : Calm registry scope) (ht : template registry scope s = .ok t)
    (hwritten : Written scope s t) {i : Nat} {name : String}
    (hi : (Expr.allPlaceholders t.select.trees)[i]? = some name) :
    ∃ before after, t.sql = before ++ Placeholder.token name ++ after ∧
      Threaded (Calm registry scope) before.toList
        ((Expr.allPlaceholders t.select.trees).take i) ∧
      Threaded (Calm registry scope) after.toList
        ((Expr.allPlaceholders t.select.trees).drop (i + 1)) ∧
      quotedAfter false before.toList = false := by
  obtain ⟨u, v, hsplit, hu, hv⟩ := (template_threaded ht).split hi
  have hbalanced : Balanced u := by
    refine hu.balanced hcalm fun name hname => ?_
    exact (hwritten.isBracedName name (List.mem_of_mem_take hname)).not_mem
  refine ⟨.ofList u, .ofList v, by simp [← String.toList_inj, hsplit], ?_, ?_, ?_⟩
  · rwa [String.toList_ofList]
  · rwa [String.toList_ofList]
  · rw [String.toList_ofList]
    exact hbalanced false

theorem compile_ok_iff_values (ht : template registry scope s = .ok t) :
    (∃ c, compile registry scope context s = .ok c) ↔
      ∀ name ∈ tokenNames t.sql, ∃ v, valueOf? t.carried context name = some v := by
  rw [← bind_ok_iff_values (d := scope.options.dialect)]
  simp only [compile_eq_bind ht]

/-- Names that are written as words of their own are never taken for those of carried values. -/
theorem placed_of_wellNamed (hcalm : Calm registry scope) (ht : template registry scope s = .ok t)
    (hnamed : ∀ q ∈ t.select :: t.nested, q.WellNamed)
    (hlimit : t.carried.length ≤ Splice.placeLimit) :
    ∀ name ∈ tokenNames t.sql, Placed t.carried name := by
  obtain ⟨-, hfaithful⟩ := template_faithful hcalm.noText hcalm.tidy hcalm.untrusted ht
  obtain ⟨names, hsql, hplaced, -⟩ := hfaithful.stands hlimit hnamed
  rw [hsql.tokenNames_eq]
  exact hplaced

theorem binds_of_template (ht : template registry scope s = .ok t) :
    Binds registry scope context s t := by
  have hbind {c : Compiled} (hc : compile registry scope context s = .ok c) :
      t.bind scope.options.dialect context = .ok c :=
    (compile_eq_bind ht context).symm.trans hc
  have hwritten : Written scope s t := by
    rw [template, maxDepth, templateWithin] at ht
    exact (select_row ht).1
  refine ⟨hwritten, template_threaded ht, ?_, ?_, ?_, compile_ok_iff_values ht, ?_⟩
  · intro before name after c hsql hname hquotes hc
    exact bind_at_closed hname hsql hquotes (hbind hc)
  · intro before name after c hsql hname hquotes hc
    exact bind_at_open hname hsql hquotes (hbind hc)
  · intro hcalm i name hi
    obtain ⟨before, after, hsql, hbefore, hafter, hquotes⟩ :=
      place_of_written hcalm ht hwritten hi
    refine ⟨before, after, hsql, hbefore, hafter, hquotes, ?_⟩
    intro hname hfree c hc
    obtain ⟨v, hv, hbound⟩ := bind_at_closed hname hsql hquotes (hbind hc)
    rw [valueOf?_free hfree] at hv
    exact ⟨v, hv, hbound⟩
  · intro hcalm hnamed hlimit
    have hplaced := placed_of_wellNamed hcalm ht hnamed hlimit
    refine ⟨hplaced, (compile_ok_iff_values ht).trans ?_⟩
    exact forall₂_congr fun name hname => (hplaced name hname).hasValue_iff

end Binding

/-- Placeholders are bound as `Binds` tells, and a value is missing only for a name in the text of
the statement or in a registered source. -/
theorem compile_binds (registry : Registry) (scope : Scope) (context : Context) (s : Statement) :
    (∀ t, template registry scope s = .ok t → Binds registry scope context s t) ∧
      ∀ name, compile registry scope context s = .error (.missingParameter name) →
        registry.Lacks name ∨ ∃ t, template registry scope s = .ok t ∧
          name ∈ tokenNames t.sql ∧ valueOf? t.carried context name = none := by
  refine ⟨fun t ht => binds_of_template ht, fun name h => ?_⟩
  cases ht : template registry scope s with
  | error e =>
    have hexcused : Excused registry e := template_excused e ht
    have hsame : compile registry scope context s = .error e := by
      unfold compile
      rw [ht]
    rw [hsame, Except.error.injEq] at h
    exact .inl (hexcused name h)
  | ok t =>
    rw [compile_eq_bind ht] at h
    obtain ⟨other, hother, heq, hnone⟩ := bind_error h
    cases heq
    exact .inr ⟨t, rfl, hother, hnone⟩

def vaultRegistry : Registry :=
  ⟨[("secret", .values [.text "hidden"])]⟩

def vaultStatement : Statement :=
  { select := "p", filter := some "p in '@secret' and p == \x7b__djaq0\x7d and p == \x7bx\x7d" }

def vaultContext : Context :=
  ⟨[("__djaq0", .text "given"), ("x", .text "shown")]⟩

def vaultLookup : Statement :=
  { select := "p", filter := some "p == \x7b__djaq0\x7d" }

/-- A written name that gives the place of a carried value is bound to that value and not to its
own, and where no value is carried it is missing although the context has it. Another name is bound
to its value in the context. -/
theorem compile_binds_vault :
    ∃ schema model t c, Schema.build Sample.stock = .ok schema ∧
      schema.resolveModel "B" none = .ok model ∧
      template vaultRegistry (.top schema {} model {}) vaultStatement = .ok t ∧
      compile vaultRegistry (.top schema {} model {}) vaultContext vaultStatement = .ok c ∧
      Expr.allPlaceholders t.select.trees = ["__djaq0", "x"] ∧
      vaultContext.get? "__djaq0" = some (.text "given") ∧
      (∃ before after v, t.sql = before ++ Placeholder.token "__djaq0" ++ after ∧
        BoundAt .postgres t.carried vaultContext before v c ∧
        v.items.map Value.text? = [some "hidden"]) ∧
      (∃ before after, t.sql = before ++ Placeholder.token "x" ++ after ∧
        BoundAt .postgres t.carried vaultContext before (.text "shown") c) ∧
      compile {} (.top schema {} model {}) vaultContext vaultLookup =
        .error (.missingParameter "__djaq0") ∧
      ∃ t, template {} (.top schema {} model {}) vaultLookup = .ok t ∧
        valueOf? t.carried vaultContext "__djaq0" = none := by
  have h : ((Schema.build Sample.stock).toOption.bind fun schema =>
      (schema.resolveModel "B" none).toOption.bind fun model =>
      (template vaultRegistry (.top schema {} model {}) vaultStatement).toOption.bind fun t =>
      (t.bind .postgres vaultContext).toOption.map fun c =>
      decide (schema.Tidy ∧ Expr.allPlaceholders t.select.trees = ["__djaq0", "x"] ∧
        t.carried.map (fun v => v.items.map Value.text?) = [[some "hidden"]] ∧
        (compile {} (.top schema {} model {}) vaultContext vaultLookup).map Compiled.sql =
          .error (.missingParameter "__djaq0"))) = some true := by
    decide +kernel
  simp only [Option.bind_eq_some_iff, Option.map_eq_some_iff, Steps.toOption_eq_some_iff,
    decide_eq_true_eq] at h
  obtain ⟨schema, hschema, model, hmodel, t, ht, c, hbind, htidy, hplaceholders, hcarried,
    hlookup⟩ := h
  have hc : compile vaultRegistry (.top schema {} model {}) vaultContext vaultStatement = .ok c :=
    (compile_eq_bind ht vaultContext).trans hbind
  have hmissing : compile {} (.top schema {} model {}) vaultContext vaultLookup =
      .error (.missingParameter "__djaq0") := by
    cases hcompile : compile {} (.top schema {} model {}) vaultContext vaultLookup with
    | error e =>
      rw [hcompile] at hlookup
      cases hlookup
      rfl
    | ok c =>
      rw [hcompile] at hlookup
      cases hlookup
  have hcalm : Calm vaultRegistry (.top schema {} model {}) := by
    refine ⟨Scope.tidy_top htidy (Schema.resolveModel_mem hmodel).1 {} {}, rfl, ?_⟩
    intro name text own
    simp only [vaultRegistry, Table.get?, Table.find?]
    split <;> simp
  have hbinds := (compile_binds vaultRegistry (.top schema {} model {}) vaultContext
    vaultStatement).1 t ht
  have hcaptured : ∃ before after v, t.sql = before ++ Placeholder.token "__djaq0" ++ after ∧
      BoundAt .postgres t.carried vaultContext before v c ∧
      v.items.map Value.text? = [some "hidden"] := by
    obtain ⟨before, after, hsql, -, -, hquotes, -⟩ :=
      hbinds.own hcalm (i := 0) (by rw [hplaceholders]; rfl)
    obtain ⟨v, hv, hbound⟩ := hbinds.closed hsql (by decide) hquotes hc
    refine ⟨before, after, v, hsql, hbound, ?_⟩
    have hplace : Splice.index? "__djaq0" = some 0 := by decide
    rw [valueOf?, hplace] at hv
    dsimp only at hv
    have hfirst : (t.carried.map fun v => v.items.map Value.text?)[0]? = some [some "hidden"] := by
      rw [hcarried]
      rfl
    rw [List.getElem?_map, hv] at hfirst
    simpa using hfirst
  have hown : ∃ before after, t.sql = before ++ Placeholder.token "x" ++ after ∧
      BoundAt .postgres t.carried vaultContext before (.text "shown") c := by
    obtain ⟨before, after, hsql, -, -, -, hfree⟩ :=
      hbinds.own hcalm (i := 1) (by rw [hplaceholders]; rfl)
    obtain ⟨v, hv, hbound⟩ := hfree (by decide) (by decide) c hc
    cases hv
    exact ⟨before, after, hsql, hbound⟩
  refine ⟨schema, model, t, c, hschema, hmodel, ht, hc, hplaceholders, rfl, hcaptured, hown,
    hmissing, ?_⟩
  obtain ⟨_, _, _, hnone, -⟩ | ⟨t', ht', -, hnone⟩ :=
    (compile_binds {} (.top schema {} model {}) vaultContext vaultLookup).2 _ hmissing
  · cases hnone
  · exact ⟨t', ht', hnone⟩

end PathQuery
