import PathQuery.Proofs.Compile.Plan
import PathQuery.Proofs.Condition.Conjunct
import PathQuery.Proofs.Join.Terminal
import PathQuery.Proofs.Query.Current
import PathQuery.Proofs.Schema.Labels

/-!
Looking up a key. The statement that is sent has the filter of the query with a test of the key
behind it, in the context that the validator makes. The test is left out if the validator makes the
key a value that is not present, and it restricts only the last alternative of a filter that does
not bind tight. In all other cases the filter is the conjunction of the query's own and the test.
-/

namespace PathQuery

namespace Table

variable {α : Type}

theorem find?_put (k : String) (v : α) (entries : List (String × α)) :
    find? k (put k v entries) = some v := by
  induction entries with
  | nil => simp [put, find?]
  | cons e rest ih =>
    obtain ⟨k', v'⟩ := e
    by_cases hk : k' = k
    · simp [put, find?, hk]
    · simp [put, find?, hk, ih]

theorem get?_merge_single (t : Table α) (k : String) (v : α) :
    (t.merge (.ofList [(k, v)])).get? k = some v :=
  find?_put k v t.entries

end Table

namespace Query

variable {q : Query} {key k : Value} {context : Context}

/-! ### The key in its context -/

/-- What becomes of a value of the context before a statement is compiled. -/
def Validates (q : Query) (name : String) (given made : Value) : Prop :=
  match q.validator with
  | none => made = given
  | some validator => validator name given = .ok made

theorem find?_validated {validator : Validator} {name : String} {v : Value}
    {given made : List (String × Value)}
    (h : List.Forall₂ (fun g m => m.1 = g.1 ∧ validator g.1 g.2 = .ok m.2) given made)
    (hv : Table.find? name given = some v) :
    ∃ v', Table.find? name made = some v' ∧ validator name v = .ok v' := by
  induction h with
  | nil => cases hv
  | @cons g m given made hm _ ih =>
    obtain ⟨name', v'⟩ := g
    obtain ⟨name'', made'⟩ := m
    obtain ⟨rfl, hmade⟩ := hm
    by_cases hname : name'' = name
    · subst hname
      simp only [Table.find?, beq_self_eq_true, if_true, Option.some.injEq] at hv ⊢
      subst hv
      exact ⟨made', rfl, hmade⟩
    · simp only [Table.find?, beq_eq_false_iff_ne.mpr hname, Bool.false_eq_true, if_false] at hv ⊢
      exact ih hv

/-- The key is in the context as the validator makes it. -/
theorem lookup_key (h : (q.lookup key).InContext context) :
    ∃ k, context.get? keyName = some k ∧ q.Validates keyName key k := by
  have hgiven : (q.lookup key).definition.context.get? keyName = some key :=
    Table.get?_merge_single _ _ _
  have hvalidator : (q.lookup key).validator = q.validator := rfl
  unfold InContext at h
  unfold Validates
  rw [hvalidator] at h
  cases hv : q.validator with
  | none =>
    rw [hv] at h
    exact ⟨key, h ▸ hgiven, rfl⟩
  | some validator =>
    rw [hv] at h
    exact find?_validated h hgiven

/-! ### The test -/

/-- The test that a looked up key has to pass. -/
def keyTest : Expr :=
  .compare .eq (.path "pk" []) (.placeholder keyName)

def keySource : String :=
  "pk == " ++ Placeholder.token keyName

theorem parse_keySource : Expr.parse keySource = .ok keyTest := by
  rfl

theorem isSupplied_keySource (h : context.get? keyName = some k) :
    Condition.isSupplied context keySource = k.isPresent := by
  have hnames : Placeholder.names keySource = [keyName] := by decide +kernel
  simp [Condition.isSupplied, hnames, h]

theorem valueOf?_keyName (h : context.get? keyName = some k) (carried : List Value) :
    Template.valueOf? carried context keyName = some k := by
  have hname : Splice.index? keyName = none := by decide +kernel
  rw [Template.valueOf?, hname]
  exact h

/-- The test compares the key column of the queried table with the key. -/
theorem expr_keyTest {f : Compile.Frame} {m : Model} {field : Field}
    (hmodel : Join.modelOf f.scope f.scope.master = .ok m) (hkey : m.key? = some field)
    (hpk : m.field? "pk" = none) (hconcrete : field.isConcrete) (g : Gathered) :
    Compile.expr f keyTest g =
      .ok ((f.scope.master.column m.keyColumn).sql ++ " = " ++ Placeholder.token keyName,
        { g with fieldReads := g.fieldReads + 1 }) := by
  have hpath : Join.resolvePath f.scope "pk" [] g.relations =
      .ok (⟨f.scope.master.column m.keyColumn, none⟩, g.relations) := by
    have hcolumn : m.keyColumn = field.columnName := by
      simp [Model.keyColumn, hkey, Field.columnName, Field.columnName?, hconcrete]
    have hlast := Join.lastField_keyword ⟨rfl, hpk⟩ hkey
    rw [hcolumn, Join.resolvePath_concrete hmodel hlast hconcrete]
  have hshort : Compile.shortComparison? .eq (.placeholder keyName) = none := rfl
  simp [keyTest, Compile.expr, hshort]
  refine ⟨_, hpath, ?_⟩
  simp [← String.toList_inj, PathTarget.sql, CompareOp.sql]

/-! ### The filter -/

/-- Whether the filter of a query may stand unchanged beside `and`. -/
def bindsTight (q : Query) (context : Context) : Bool :=
  q.definition.condition.all fun c => c.conjuncts.all (·.bindsTight context)

/-- Every leaf of the condition that is left in the context can be read. -/
def Accepts (context : Context) (c : Condition) : Prop :=
  ∀ source ∈ c.leaves context, ∃ e, Expr.parse source = .ok e

theorem not_blank_of_parse {source : String} {e : Expr} (h : Expr.parse source = .ok e) :
    (Text.trimChars source.toList).isEmpty = false := by
  have hread := Expr.expression_of_parse h
  simpa using Expr.ne_nil_of_read Expr.expression_sound hread

theorem survivor_not_blank (s : Condition.Survivor context) :
    (Text.trimChars (s.condition.render context).toList).isEmpty = false := by
  cases hleaf : s.condition.isLeaf with
  | true => exact not_blank_of_parse (s.leaf hleaf)
  | false =>
    obtain ⟨w, hw⟩ := s.brackets hleaf
    rw [hw, Expr.trimChars_parenthesized]
    rfl

/-- The filter of a definition is read as its condition is. -/
theorem filterTree_iff_reads {d : Definition} {c : Condition} {own : Option Expr}
    (hc : d.condition = some c) (haccepted : Accepts context c) :
    Compile.filterTree (d.filterSource? context) = .ok own ↔ c.Reads context own := by
  unfold Definition.filterSource?
  rw [hc]
  obtain hgone | ⟨s, rfl⟩ := Condition.gone_or_survivor c haccepted
  · cases own <;> simp [hgone.render_eq, Compile.filterTree, Condition.Reads]
  · have hblank := survivor_not_blank s
    have hne := s.nonempty
    cases hparse : Expr.parse (s.condition.render context) <;> cases own <;>
      simp [Compile.filterTree, Condition.Reads, hblank, hne, hparse, Except.map]

theorem accepts_both {c : Condition} (h : Accepts context c) :
    Accepts context (c.both (.leaf keySource)) := by
  intro source hsource
  rw [Condition.both_leaf, Condition.leaves_node, Condition.leavesAll_append,
    Condition.leavesAll_conjuncts] at hsource
  rcases List.mem_append.mp hsource with hsource | hsource
  · exact h source hsource
  · simp only [Condition.leavesAll, Condition.leaves, List.append_nil] at hsource
    split at hsource
    · rw [List.mem_singleton.mp hsource]
      exact ⟨_, parse_keySource⟩
    · cases hsource

/-- What is read of a filter with the test behind it, from what is read of the filter alone. -/
theorem lookup_filter (key : Value) {read : Option Expr} (hk : context.get? keyName = some k)
    (haccepted : ∀ c ∈ q.definition.condition, Accepts context c)
    (hread : Compile.filterTree ((q.lookup key).definition.filterSource? context) = .ok read) :
    ∃ own, Compile.filterTree (q.definition.filterSource? context) = .ok own ∧
      (k.isPresent = false → read = own) ∧
      (k.isPresent = true → ∃ e, read = some e ∧
        Expr.Restricts keyTest own e (q.bindsTight context)) := by
  have hsupplied := isSupplied_keySource hk
  cases hc : q.definition.condition with
  | none =>
    have hlookup : (q.lookup key).definition.condition = some (.leaf keySource) := by
      simp [lookup, Definition.filter, Definition.withContext, hc, keySource]
    have hown : Compile.filterTree (q.definition.filterSource? context) = .ok none := by
      simp [Definition.filterSource?, hc, Compile.filterTree]
    have htight : q.bindsTight context = true := by simp [bindsTight, hc]
    have haccepts : Accepts context (.leaf keySource) := by
      intro source hsource
      simp only [Condition.leaves] at hsource
      split at hsource
      · rw [List.mem_singleton.mp hsource]
        exact ⟨_, parse_keySource⟩
      · cases hsource
    rw [filterTree_iff_reads hlookup haccepts] at hread
    have hrender : (Condition.leaf keySource).render context =
        if k.isPresent then keySource else "" := by
      simp [Condition.render, hsupplied]
    refine ⟨none, hown, ?_, ?_⟩
    · intro hpresent
      cases read with
      | none => rfl
      | some e => exact absurd hrender (by simpa [hpresent] using hread.1)
    · intro hpresent
      rw [if_pos hpresent] at hrender
      cases read with
      | none => exact absurd (hrender.symm.trans hread) (by decide)
      | some e =>
        have hparse := hread.2
        rw [hrender, parse_keySource, Except.ok.injEq] at hparse
        rw [htight, ← hparse]
        exact ⟨keyTest, rfl, Expr.restricts_none rfl⟩
  | some c =>
    have hlookup : (q.lookup key).definition.condition = some (c.both (.leaf keySource)) := by
      simp [lookup, Definition.filter, Definition.withContext, hc, keySource]
    have haccepted := haccepted c hc
    have htight : q.bindsTight context = c.conjuncts.all (·.bindsTight context) := by
      simp [bindsTight, hc]
    rw [filterTree_iff_reads hlookup (accepts_both haccepted)] at hread
    simp only [filterTree_iff_reads hc haccepted, htight]
    cases hpresent : k.isPresent with
    | false =>
      have hown := Condition.reads_both_of_gone haccepted (hsupplied.trans hpresent) hread
      exact ⟨read, hown, fun _ => rfl, by simp⟩
    | true =>
      obtain ⟨own, e, hown, hread, hrestricts⟩ := Condition.reads_both_of_atom haccepted
        (hsupplied.trans hpresent) parse_keySource rfl hread
      exact ⟨own, hown, by simp, fun _ => ⟨e, hread, hrestricts⟩⟩

/-! ### What is sent -/

/-- The scope that the statement of a query is compiled in. -/
def scope (q : Query) (m : Model) : Scope :=
  .top q.db.schema q.db.options m q.definition.joinTypes

/-- What is sent to look up a key, and how it came about: the key is `k` in the context that the
statement is compiled in, and `t` is the statement before the values are bound. -/
structure LooksUp (q : Query) (key : Value) (context : Context) (k : Value) (m : Model)
    (t : Template) : Prop where
  inContext : (q.lookup key).InContext context
  validates : q.Validates keyName key k
  bound : ∀ carried, Template.valueOf? carried context keyName = some k
  model : q.db.resolveModel q.definition.model = .ok m
  template : Compile.template q.registry (q.scope m)
    ((q.lookup key).definition.statement context) = .ok t
  sent : ∃ c, t.bind q.db.options.dialect context = .ok c ∧
    (q.get key).2.sent = q.sent ++ [⟨c.sql, c.parameters⟩]

/-- A statement is sent only if the key is present and the query with the key compiles. -/
theorem exists_looksUp (hsent : (q.get key).2.sent ≠ q.sent) :
    ∃ context k m t, context.get? keyName = some k ∧ q.LooksUp key context k m t := by
  have hstate : (q.get key).2.sent = q.sent ++ q.sends (.get key) := by rw [get_state]
  have hpresent : key.isPresent = true := by
    by_contra habsent
    exact hsent (by simp [hstate, sends, habsent])
  have hsends : q.sends (.get key) = (q.lookup key).statements Compiled.sql := by
    simp [sends, hpresent, opening, lookup]
  unfold statements at hsends
  split at hsends
  · next c _ hbuild =>
    obtain ⟨context, m, hcontext, hmodel, hcompile⟩ := build_eq_ok_iff.mp hbuild
    obtain ⟨k, hk, hvalidates⟩ := lookup_key hcontext
    rw [hsends] at hstate
    unfold PathQuery.compile at hcompile
    split at hcompile
    · next t ht =>
      exact ⟨context, k, m, t, hk, hcontext, hvalidates, valueOf?_keyName hk, hmodel, ht, c,
        hcompile, hstate⟩
    · cases hcompile
  · exact absurd (by rw [hstate, hsends, List.append_nil]) hsent

/-- Whenever a statement is sent to look up a key, its filter is made from the query's own filter
and the test of the key, which is bound to the key as the validator makes it. If that is present,
the test restricts the query's own filter, as far as that binds tight; if not, there is no test. The
test compares the key column of the model with the key. -/
theorem get_restricted (q : Query) (key : Value) (hd : q.db.schema.Distinct)
    (haccepted : ∀ c ∈ q.definition.condition, ∀ context, (q.lookup key).InContext context →
      Accepts context c)
    (hsent : (q.get key).2.sent ≠ q.sent) :
    ∃ context k m t own, q.LooksUp key context k m t ∧
      Compile.filterTree (q.definition.filterSource? context) = .ok own ∧
      (k.isPresent = false → t.select.filter.map (·.expr) = own) ∧
      (k.isPresent = true → ∃ e, t.select.filter.map (·.expr) = some e ∧
        Expr.Restricts keyTest own e (q.bindsTight context)) ∧
      ∀ field, m.key? = some field → m.field? "pk" = none → field.isConcrete →
        ∀ (f : Compile.Frame) (g : Gathered), f.scope = q.scope m →
          Compile.expr f keyTest g =
            .ok (((Relation.master m none).column m.keyColumn).sql ++ " = " ++
              Placeholder.token keyName, { g with fieldReads := g.fieldReads + 1 }) := by
  obtain ⟨context, k, m, t, hk, hlookup⟩ := exists_looksUp hsent
  have hselect := hlookup.template
  rw [Compile.template, Compile.maxDepth, Compile.templateWithin] at hselect
  have hwritten := (Compile.select_row hselect).1
  obtain ⟨own, hown, hgone, hrestricts⟩ := lookup_filter key hk
    (fun c hc => haccepted c hc context hlookup.inContext) hwritten.filter
  refine ⟨context, k, m, t, own, hlookup, hown, hgone, hrestricts, ?_⟩
  intro field hkey hpk hconcrete f g hscope
  have hm : m ∈ q.db.schema.models := (Schema.resolveModel_mem hlookup.model).1
  have hmodel : Join.modelOf f.scope f.scope.master = .ok m := by
    rw [hscope]
    simp [Join.modelOf, scope, Scope.top, Relation.master, hd.get?_eq hm]
  have hmaster : f.scope.master = .master m none := by rw [hscope]; rfl
  rw [← hmaster]
  exact expr_keyTest hmodel hkey hpk hconcrete g

/-- A query whose filter does not bind tight. -/
def looseQuery : Query :=
  { db := shopDatabase
    definition := { model := "A", select := "id", condition := some (.leaf "id == 1 or id == 2") } }

/-- A query whose validator makes a key of blanks empty. -/
def trimmingQuery : Query :=
  { db := shopDatabase
    definition := { model := "A", select := "id" }
    validator := some fun _ v =>
      match v with
      | .text s => .ok (.text (Text.trim s))
      | v => .ok v }

theorem shop_distinct : shopDatabase.schema.Distinct := by
  unfold Schema.Distinct
  decide +kernel

/-- The first filter can hold where the key is another one, and the second one is missing. -/
theorem get_restricted_shop :
    (∃ context k m t e v, looseQuery.LooksUp (.int 5) context k m t ∧
      t.select.filter.map (·.expr) = some e ∧ Expr.holds v e = true ∧ v keyTest = false) ∧
    ∃ context k m t, trimmingQuery.LooksUp (.text " ") context k m t ∧
      t.select.filter.map (·.expr) = none := by
  constructor
  · have hsent : (looseQuery.get (.int 5)).2.sent ≠ [] :=
      List.ne_nil_of_length_eq_add_one (show _ = 1 by decide +kernel)
    have haccepted : ∀ c ∈ looseQuery.definition.condition, ∀ context,
        (looseQuery.lookup (.int 5)).InContext context → Accepts context c := by
      rintro c ⟨⟩ context - source hsource
      simp only [Condition.leaves] at hsource
      split at hsource
      · rw [List.mem_singleton.mp hsource]
        exact ⟨_, rfl⟩
      · cases hsource
    obtain ⟨context, k, m, t, own, hlookup, hown, -, hrestricts, -⟩ :=
      get_restricted looseQuery (.int 5) shop_distinct haccepted hsent
    obtain rfl : k = .int 5 := hlookup.validates
    obtain rfl : context = (looseQuery.lookup (.int 5)).definition.context := hlookup.inContext
    obtain ⟨e, he, hrestricts⟩ := hrestricts rfl
    obtain rfl : some (Expr.logical .or [.compare .eq (.path "id" []) (.number "1"),
        .compare .eq (.path "id" []) (.number "2")]) = own := Except.ok.inj hown
    have hnodup : e.atoms.Nodup := by
      rw [hrestricts.atoms]
      simp [Expr.atoms, Expr.atomsAll, keyTest]
    obtain ⟨v, hv, hkey⟩ := hrestricts.loose (by decide +kernel) hnodup
    exact ⟨_, _, m, t, e, v, hlookup, he, hv, hkey⟩
  · have hsent : (trimmingQuery.get (.text " ")).2.sent ≠ [] :=
      List.ne_nil_of_length_eq_add_one (show _ = 1 by decide +kernel)
    obtain ⟨context, k, m, t, own, hlookup, hown, hgone, -⟩ :=
      get_restricted trimmingQuery (.text " ") shop_distinct (by simp [trimmingQuery]) hsent
    have hempty : Text.trim " " = "" := by decide +kernel
    have hk := hlookup.validates
    simp only [Validates, trimmingQuery, Except.ok.injEq, hempty] at hk
    obtain rfl : none = own := Except.ok.inj hown
    exact ⟨context, k, m, t, hlookup, hgone (by rw [← hk]; rfl)⟩

end Query
end PathQuery
