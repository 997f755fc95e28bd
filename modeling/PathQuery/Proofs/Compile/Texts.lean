import PathQuery.Proofs.Compile.Places
import PathQuery.Proofs.Expr.Spelling

/-!
Properties of SQL text that weaving keeps. If such a property holds of what the leaves of
expressions come to, it holds of the fragments that are woven from them and of the whole statement.
-/

namespace PathQuery

open Sql

namespace Sql

/-- Weaving keeps the property. -/
structure Weaves (T : List Char → Prop) : Prop where
  nil : T []
  seam : ∀ {u cs}, Seam u → T cs → T (u ++ cs)
  append : ∀ {cs ds}, T cs → T ds → (∀ c ∈ ds.head?, isApart c) → T (cs ++ ds)

variable {T : List Char → Prop} {cs : List Char} {parts : List String}

theorem Weaves.ofSeam (hT : Weaves T) (h : Seam cs) : T cs := by
  rw [← List.append_nil cs]
  exact hT.seam h hT.nil

theorem Weaves.woven (hT : Weaves T) (h : Woven cs parts) (hparts : ∀ p ∈ parts, T p.toList) :
    T cs := by
  induction h with
  | text hu => exact hT.ofSeam hu
  | part hu hnext _ ih =>
    rw [List.forall_mem_cons] at hparts
    exact hT.seam hu (hT.append hparts.1 (ih hparts.2) hnext)
  | left _ _ ih =>
    rw [List.forall_mem_cons] at hparts
    exact ih hparts.2

end Sql

theorem Expr.texts_operand {e x : Expr} (hx : x ∈ e.operands) : x.texts ⊆ e.texts := by
  intro text htext
  cases e with
  | call | logical | tuple | list => exact mem_allTexts.mpr ⟨x, hx, htext⟩
  | binary | compare =>
    rw [texts, List.mem_append]
    simp only [operands, List.mem_cons, List.not_mem_nil, or_false] at hx
    obtain rfl | rfl := hx
    · exact .inl htext
    · exact .inr htext
  | unary =>
    rw [List.mem_singleton.mp hx] at htext
    exact htext
  | _ => cases hx

namespace Compile

/-- What the leaves of expressions come to has the property `T`, as long as `I` holds of what is
gathered and `P` of the texts of the leaves. -/
structure Leaves (f : Frame) (I : Gathered → Prop) (P : String → Prop) (T : List Char → Prop) :
    Prop where
  run : ∀ {g g'}, Run f g g' → I g → I g'
  path : ∀ {head rest g g' sql}, I g → path f head rest g = .ok (sql, g') → T sql.toList
  string : ∀ {text g g' sql}, P text → I g → string f text g = .ok (sql, g') → T sql.toList
  literal : ∀ {right}, (∀ text ∈ right.texts, P text) → T (shortRight right).toList
  placeholder : ∀ {name}, Expr.IsBracedName name.toList → P (Placeholder.token name) →
    T (Placeholder.token name).toList
  subquery : ∀ {args g g' sql}, (∀ text ∈ Expr.allTexts args, P text) → I g →
    subqueryCall f args g = .ok (sql, g') → T sql.toList

variable {f : Frame} {I : Gathered → Prop} {P : String → Prop} {T : List Char → Prop}

/-- The fragment for an expression has the property. -/
theorem keeps_cases (hT : Weaves T) (hf : Leaves f I P T) :
    WovenCases f (fun e => e.Legible ∧ ∀ text ∈ e.texts, P text) I
      (fun _ _ sql _ => T sql.toList) (fun _ _ parts _ => ∀ p ∈ parts, T p.toList) where
  legible h := h.1
  operand h hx := ⟨h.1.operand hx, fun text htext => h.2 text (Expr.texts_operand hx htext)⟩
  run := hf.run
  path := hf.path
  str h hg hsql := hf.string (h.2 _ (by simp [Expr.texts])) hg hsql
  placeholder _ h := hf.placeholder h.1.isBracedName (h.2 _ (by simp [Expr.texts]))
  subquery h hg _ hsql := hf.subquery (by simpa only [Expr.texts] using h.2) hg hsql
  literal _ h _ := hf.literal h.2
  node _ _ h hsql := hT.woven hsql h
  nil _ := by simp
  cons h hrest := List.forall_mem_cons.mpr ⟨h, hrest⟩

/-- A statement has the property if its parts and its tables have it. -/
theorem render_keeps (hT : Weaves T) {s : Select} (d : Dialect) (htidy : ∀ c ∈ s.columns, Tidy c.2)
    (hparts : ∀ p ∈ s.parts, T p.sql.toList) (hfrom : T (Select.fromSql s.relations).toList) :
    T (s.render d).toList := by
  simp only [Select.parts, List.mem_append, or_imp, forall_and, List.forall_mem_map] at hparts
  obtain ⟨⟨hcolumns, hfilter⟩, horder⟩ := hparts
  obtain ⟨first, last, hrender, hfirst, hlast⟩ := Select.render_around s d htidy
  have hgroup : ∀ term ∈ s.groupBy d, T term.toList := by
    intro term hterm
    obtain ⟨c, hc, rfl⟩ := Select.mem_groupBy hterm
    exact hcolumns c hc
  have hfront : T first.toList := by
    refine hT.woven hfirst ?_
    rw [List.forall_mem_map]
    exact hcolumns
  have hback : T last.toList := by
    refine hT.woven hlast.woven ?_
    simp only [List.mem_append, or_imp, forall_and, List.forall_mem_map]
    exact ⟨⟨hfilter, hgroup⟩, horder⟩
  rw [hrender, String.toList_append, String.toList_append]
  exact hT.append (hT.append hfront hfrom (Select.fromSql_apart _)) hback hlast.apart

/-- The parts of a plan have the property, and with its tables the whole statement does. -/
theorem select_keeps {registry : Registry} {nested : Nested} {scope : Scope} {s : Statement}
    {t : Template} (hT : Weaves T) (hf : Leaves ⟨scope, registry, nested⟩ I P T)
    (hstart : I { relations := [scope.master] })
    (htexts : ∀ p ∈ t.select.parts, ∀ text ∈ p.expr.texts, P text)
    (hfrom : ∀ {g}, I g → T (Select.fromSql g.relations).toList)
    (h : select registry nested scope s = .ok t) :
    T t.sql.toList ∧ ∀ p ∈ t.select.parts, T p.sql.toList := by
  obtain ⟨hwritten, hsql, g, hrow, -⟩ := select_row h
  obtain ⟨g', hrun, hrelations, -⟩ := select_run h
  have hexprs : ∀ e ∈ t.select.parts.map (·.expr), ∀ text ∈ e.texts, P text :=
    List.forall_mem_map.mpr htexts
  have hparts := (keeps_cases hT hf).cases.exprs _
    (fun e he => ⟨hwritten.legible e he, hexprs e he⟩) hrow.exprs hstart
  rw [List.forall_mem_map] at hparts
  have hmiddle := hfrom (hf.run hrun hstart)
  rw [← hrelations] at hmiddle
  rw [hsql]
  exact ⟨render_keeps hT _ hwritten.tidy hparts hmiddle, hparts⟩

end Compile

/-! ### Composed text -/

theorem Expr.IsBracedName.still_tail {name : List Char} (h : IsBracedName name) :
    Still (name ++ ['\x7d']) := by
  refine still_plain ?_
  rw [List.all_append, Bool.and_eq_true, List.all_eq_true]
  exact ⟨fun c hc => isPlain_of_class (p := Text.isNameChar) (by decide) (h.2 c hc), by decide⟩

/-- A name in braces that is no word is no placeholder. -/
theorem Expr.IsBracedName.token?_eq_none {name : List Char} (hname : IsBracedName name)
    (h : ¬ ∀ c ∈ name, Text.isWordChar c) (rest : List Char) :
    Placeholder.token? (name ++ '\x7d' :: rest) = none := by
  by_contra hsome
  obtain ⟨word, hword⟩ := Option.ne_none_iff_exists'.mp hsome
  obtain ⟨hchars, after, hsplit⟩ := token?_some hword
  have hname' : '\x7d' ∉ name := fun hmem => by cases hname.2 _ hmem
  have hword' : '\x7d' ∉ word := fun hmem => by cases hchars _ hmem
  obtain ⟨rfl, -⟩ := Lists.append_cons_inj hname' hword' hsplit
  exact h hchars

theorem Expr.IsBracedName.still_unread {name : String} (hname : IsBracedName name.toList)
    (h : ¬ IsWord name) : Still (Placeholder.token name).toList := by
  have htail := hname.still_tail
  have hnone := hname.token?_eq_none fun hword => h ⟨hname.1, hword⟩
  have hbody (rest : List Char) : name.toList ++ '\x7d' :: rest =
      (name.toList ++ ['\x7d']) ++ rest := by
    simp
  refine ⟨fun rest => ?_, fun rest => ?_, fun rest => ?_⟩
  · rw [toList_token, Placeholder.piecesFrom, hnone, hbody, htail.pieces]
    simp [Placeholder.token]
  · rw [toList_token, lexedFrom, hnone, hbody, htail.lexed]
    simp [Placeholder.token]
  · rw [toList_token, markersFrom, hbody, htail.markers]
    simp

namespace Sql

/-- Text that is composed, whatever its placeholders are. -/
def IsComposed (cs : List Char) : Prop :=
  ∃ names, Composed cs names

theorem weaves_isComposed : Weaves IsComposed where
  nil := ⟨[], .nil⟩
  seam hu := fun ⟨names, h⟩ => ⟨names, .text hu.toStill h⟩
  append := fun ⟨_, h⟩ ⟨_, h'⟩ hapart =>
    ⟨_, h.append h' fun c hc => not_isDigit_of_isApart (hapart c hc)⟩

theorem Still.isComposed {u : List Char} (h : Still u) : IsComposed u :=
  ⟨[], h.composed⟩

theorem isComposed_token {name : String} (h : Expr.IsBracedName name.toList) :
    IsComposed (Placeholder.token name).toList := by
  by_cases hword : IsWord name
  · have hsingle := Composed.token hword (by simp) .nil
    rw [List.append_nil] at hsingle
    exact ⟨_, hsingle⟩
  · exact (h.still_unread hword).isComposed

theorem IsComposed.move {sql out : String} {carried before after : List Value}
    {own : Option Context} (hsql : IsComposed sql.toList)
    (h : Splice.move sql carried own before = .ok (out, after)) : IsComposed out.toList := by
  obtain ⟨names, hnames⟩ := hsql
  obtain ⟨moved, hmoved, -⟩ := Splice.composed_move hnames (Splice.move_ok_iff.mp h)
  exact ⟨moved, hmoved⟩

end Sql

namespace Compile

variable {f : Frame} {g g' : Gathered} {sql : String}

theorem subquery_isComposed (hf : Calm f.registry f.scope)
    (hn : ∀ scope s t, f.nested scope s = .ok t → Calm f.registry scope → IsComposed t.sql.toList)
    {model : String} {correlated : Bool} {joinTypes : Table JoinType} {trail : List String}
    {s : Statement} {own : Option Context}
    (h : subquery f model correlated joinTypes trail s own g = .ok (sql, g')) :
    IsComposed sql.toList := by
  obtain ⟨m, t, moved, after, hm, ht, hmove, rfl, -⟩ := subquery_ok h
  have hbelow : IsComposed t.sql.toList := by
    refine hn _ s t ht ?_
    exact ⟨hf.tidy.below (Schema.resolveModel_mem hm).1, hf.untrusted, hf.noText⟩
  exact weaves_isComposed.woven (woven_single moved).parenthesized
    (by simpa using hbelow.move hmove)

/-- If all is calm, what the leaves come to is composed. -/
theorem leaves_isComposed (hf : Calm f.registry f.scope)
    (hn : ∀ scope s t, f.nested scope s = .ok t → Calm f.registry scope →
      IsComposed t.sql.toList) :
    Leaves f (Joined f) (fun _ => True) IsComposed where
  run hrun hg := hrun.joined hf.tidy hg
  path := by
    intro head rest g g' sql hg h
    obtain ⟨target, relations, hpath, rfl, -⟩ := path_ok_iff.mp h
    have htarget := Join.resolvePath_tidy hf.tidy hg.1 hg.2 hpath
    exact (PathTarget.still htarget f.scope.options.dialect).isComposed
  string := by
    intro text g g' sql _ hg h
    obtain ⟨name, -, h⟩ | ⟨-, ⟨rfl, -⟩ | ⟨htrust, -⟩⟩ := string_cases h
    · obtain ⟨d, -, h⟩ | ⟨items, -, rfl, -⟩ | ⟨source, own, hsource, -⟩ := named_cases h
      · exact subquery_isComposed hf hn h
      · have hsingle := Composed.token (Splice.isWord_placeName g.carried.length) (by simp) .nil
        rw [List.append_nil] at hsingle
        exact ⟨_, hsingle⟩
      · exact absurd hsource (hf.noText _ _ _)
    · exact (still_literal text).isComposed
    · rw [hf.untrusted] at htrust
      cases htrust
  literal _ := (still_shortRight _).isComposed
  placeholder hname _ := isComposed_token hname
  subquery _ _ h := by
    obtain ⟨_, _, _, -, h⟩ := subqueryCall_ok h
    exact subquery_isComposed hf hn h

/-- If all is calm, a template is composed text, and so are the parts of its plan. -/
theorem template_isComposed {registry : Registry} {scope : Scope} {s : Statement} {t : Template}
    (hcalm : Calm registry scope) (h : template registry scope s = .ok t) :
    IsComposed t.sql.toList ∧ ∀ p ∈ t.select.parts, IsComposed p.sql.toList := by
  refine templateWithin_induction (P := fun scope _ t => Calm registry scope →
    IsComposed t.sql.toList ∧ ∀ p ∈ t.select.parts, IsComposed p.sql.toList) ?_ maxDepth h hcalm
  intro nested hnested scope s t h hcalm
  have hleaves : Leaves ⟨scope, registry, nested⟩ (Joined ⟨scope, registry, nested⟩)
      (fun _ => True) IsComposed :=
    leaves_isComposed hcalm fun scope s t ht hbelow => (hnested scope s t ht hbelow).1
  refine select_keeps weaves_isComposed hleaves (joined_start hcalm.tidy) (fun _ _ _ _ => trivial)
    ?_ h
  intro g hg
  exact (Select.fromSql_trails hg.2).woven.seam.isComposed

end Compile

end PathQuery
