import PathQuery.Proofs.Compile.Plan
import PathQuery.Proofs.Expr.Print
import PathQuery.Proofs.Sql.Outermost

/-!
What the SQL of an expression starts with. The text of a readable expression opens with a call of an
aggregate exactly if the expression does, on the left of all its operators and in the first argument
of the builtins that are written as operators. Registered SQL opens as its text does.
-/

namespace PathQuery

/-- The builtins whose fragment starts with that of the first argument. -/
def Builtin.leadsWithArgument : Builtin → Bool
  | .like | .ilike | .contains | .regex | .concat => true
  | _ => false

namespace Expr

mutual

/-- Whether the expression starts with an aggregate call, on the left of all operators. Registered
SQL counts as its text. -/
def opensAggregate (d : Dialect) (registry : Registry) : Expr → Bool
  | .str text =>
    match text.toList with
    | '@' :: name =>
      match registry.get? (.ofList name) with
      | some (.sql text _) => Select.isAggregateSql d text
      | _ => false
    | _ => false
  | .call name args =>
    if Compile.isSubquery name then false
    else
      match Builtin.ofName? name with
      | some b => b.isAggregate || (b.leadsWithArgument && firstOpensAggregate d registry args)
      | none => d.isAggregate name
  | .binary _ left _ | .compare _ left _ => opensAggregate d registry left
  | .logical _ es | .tuple es | .list es => firstOpensAggregate d registry es
  | .unary .pos e => opensAggregate d registry e
  | _ => false

def firstOpensAggregate (d : Dialect) (registry : Registry) : List Expr → Bool
  | [] => false
  | e :: _ => opensAggregate d registry e

end

end Expr

/-! ### How pieces of SQL open -/

section Pieces

open Select

variable {d : Dialect} {b : Bool}

/-- A class of characters that has no blank in it. -/
theorem Expr.not_isBlank_of_class {p : Char → Bool}
    (hp : ∀ n ∈ Expr.stops, p (Char.ofNat n) = false) {c : Char} (hc : p c) :
    Text.isBlank c = false := by
  by_contra hblank
  rw [Bool.not_eq_false] at hblank
  rw [Expr.not_class_of_isStop hp (Expr.isStop_of_isBlank hblank)] at hc
  cases hc

theorem Expr.IsNumber.outermost {text : String} (h : Expr.IsNumber text.toList) :
    Outermost d text false := by
  obtain ⟨whole, part, power, htext, ⟨hne, hdigits⟩, -, -⟩ := h
  obtain ⟨c, cs, rfl⟩ := List.exists_cons_of_ne_nil hne
  refine outermost_foreign htext ?_
  have hdigit := hdigits c (by simp)
  have hblank := Expr.not_isBlank_of_class (p := Char.isDigit) (by decide) hdigit
  have hrange : 48 ≤ c.toNat ∧ c.toNat ≤ 57 := by
    simpa [Char.isDigit, UInt32.le_iff_toNat_le] using hdigit
  have halpha : c.isAlpha = false := by
    by_contra halpha
    have hletter := Expr.toNat_of_isAlpha (Bool.not_eq_false _ ▸ halpha)
    omega
  have hne (x : Char) (hx : x.toNat < 48 ∨ 57 < x.toNat) : c ≠ x := by
    rintro rfl
    omega
  simp [isForeign, halpha, hblank, hne '_' (by decide), hne '(' (by decide)]

theorem Expr.IsName.outermost {name : String} (h : Expr.IsName name) :
    Outermost d (name ++ "(") (d.isAggregate name) := by
  refine outermost_call h.1 fun c hc => ?_
  have hrest := h.isNameRest c hc
  constructor
  · rintro rfl
    cases hrest
  · exact Expr.not_isBlank_of_class (p := Expr.isNameRest) (by decide) hrest

theorem outermost_quoted {q : Char} (hq : isForeign q) (text : String) :
    Outermost d (Text.quoted q text) false :=
  outermost_foreign (by rw [Text.quoted, String.toList_ofList]; rfl) hq

theorem outermost_token (name : String) : Outermost d (Placeholder.token name) false :=
  outermost_foreign (x := '\x7b') (by simp [Placeholder.token]; rfl) (by decide)

theorem ColumnRef.outermost (c : ColumnRef) : Outermost d c.sql false := by
  have hquote : isForeign '"' := by decide
  exact ((outermost_quoted hquote c.relation).append _).append _

theorem Dialect.datePart?_outermost {d' : Dialect} {part column sql : String}
    (h : d'.datePart? part column = some sql) : Outermost d sql false := by
  simp only [Dialect.datePart?] at h
  split at h
  · cases h
  · generalize Text.lowerBasic part = name at h
    cases h
    cases d' with
    | postgres =>
      have hword : Outermost d "date_part('" false :=
        outermost_bar (w := "date_part".toList) (by decide) (by decide)
      exact (((hword.append _).append _).append _).append _
    | sqlite =>
      have hword : Outermost d "CAST(strftime('" false :=
        outermost_bar (w := "CAST".toList) (by decide) (by decide)
      have hcast := ((((hword.append (formatCode name)).append "', ").append column).append
        ") AS INTEGER)")
      have hopen (x : String) : "((" ++ x = "(" ++ ("(" ++ x) := by
        rw [← String.append_assoc]
        rfl
      dsimp only
      split
      · rw [hopen]
        exact hcast.parenthesized.parenthesized.append _
      · exact hcast
    | generic =>
      have hword : Outermost d "EXTRACT(" false :=
        outermost_bar (w := "EXTRACT".toList) (by decide) (by decide)
      exact (((hword.append _).append _).append _).append _

theorem PathTarget.outermost (t : PathTarget) (d' : Dialect) : Outermost d (t.sql d') false := by
  unfold PathTarget.sql
  split
  · next part _ =>
    cases hd : d'.datePart? part t.column.sql with
    | none => exact t.column.outermost
    | some sql => exact Dialect.datePart?_outermost hd
  · exact t.column.outermost

/-- The first fragment opens as told, and where there is none nothing is told of it. -/
def FirstOutermost (d : Dialect) (b : Bool) : List String → Prop
  | [] => b = false
  | p :: _ => Outermost d p b

theorem outermost_join {p sep : String} (h : Outermost d p b) (ps : List String) :
    Outermost d (Text.join sep (p :: ps)) b := by
  cases ps with
  | nil => exact h
  | cons q ps =>
    rw [Text.join, String.append_assoc]
    exact h.append _

theorem FirstOutermost.parenthesized {sep : String} {parts : List String}
    (h : FirstOutermost d b parts) : Outermost d ("(" ++ Text.join sep parts ++ ")") b := by
  rw [String.append_assoc]
  apply Outermost.parenthesized
  cases parts with
  | nil =>
    rw [show b = false from h]
    exact outermost_foreign (x := ')') (by simp [Text.join]; rfl) (by decide)
  | cons p ps => exact (outermost_join h ps).append _

theorem outermost_aggregate {word : String} (hne : word.toList ≠ [])
    (hword : word.toList.all fun c => c != '(' && !Text.isBlank c)
    (haggregate : d.isAggregate word) (rest : String) :
    Outermost d (word ++ "(" ++ rest) true := by
  rw [← haggregate]
  refine (outermost_call hne fun c hc => ?_).append rest
  simpa using List.all_eq_true.mp hword c hc

/-- Most builtins start with a word of their own, the others with their first argument. -/
theorem Builtin.render_outermost {c : Builtin} {name sql : String} {args : List String}
    (hargs : FirstOutermost d b args) (h : c.render name args d = .ok sql) :
    Outermost d sql (c.isAggregate || (c.leadsWithArgument && b)) := by
  unfold Builtin.render at h
  split at h
  · cases h
  · next haccepts =>
    split at h
    · cases h
      simp only [String.append_assoc]
      exact (outermost_bar (w := "CASE".toList) (by decide) (by decide)).append _
    · cases h
      simp only [String.append_assoc]
      exact Outermost.append hargs _
    · cases h
      simp only [String.append_assoc]
      exact Outermost.append hargs _
    · cases h
      simp only [String.append_assoc]
      exact Outermost.append hargs _
    · cases h
      simp only [String.append_assoc]
      exact Outermost.append hargs _
    · cases h
      cases args with
      | nil => cases haccepts rfl
      | cons p ps => exact outermost_join hargs ps
    · cases h
      exact outermost_bar (w := "CURRENT_DATE".toList) (by decide) (by decide)
    · split at h
      · cases h
        simp only [String.append_assoc]
        exact (outermost_bar (w := "CAST".toList) (by decide) (by decide)).append _
      · cases h
    · cases h
      simp only [String.append_assoc]
      exact (outermost_bar (w := "ST_X".toList) (by decide) (by decide)).append _
    · cases h
      simp only [String.append_assoc]
      exact (outermost_bar (w := "ST_Y".toList) (by decide) (by decide)).append _
    · cases h
      simp only [String.append_assoc]
      exact (outermost_bar (w := "CASE".toList) (by decide) (by decide)).append _
    · cases h
      have hcount : d.isAggregate "COUNT" := by cases d <;> decide
      simp only [String.append_assoc]
      exact (outermost_aggregate (by decide) (by decide) hcount "DISTINCT ").append _
    · cases h
      have hsum : d.isAggregate "SUM" := by cases d <;> decide
      simp only [String.append_assoc]
      exact (outermost_aggregate (by decide) (by decide) hsum "CASE WHEN ").append _
    · cases h

/-- A statement opens with its own word. -/
theorem Select.render_outermost (s : Select) (d' : Dialect) : Outermost d (s.render d') false := by
  have hword : Outermost d "SELECT " false :=
    outermost_bar (w := "SELECT".toList) (by decide) (by decide)
  simp only [Select.render, String.append_assoc]
  exact hword.append _

end Pieces

namespace Compile

variable {f : Frame} {g g' : Gathered}

/-! ### How fragments open -/

open Select

variable {d : Dialect}

/-- Sub-queries are SELECTs, which no aggregate stands around. -/
def Selecting (f : Frame) : Prop :=
  ∀ scope s t, f.nested scope s = .ok t → ∀ d, isAggregateSql d t.sql = false

theorem path_outermost {head sql : String} {rest : List String}
    (h : path f head rest g = .ok (sql, g')) : Outermost d sql false := by
  obtain ⟨t, _, -, rfl, -⟩ := path_ok_iff.mp h
  exact t.outermost _

theorem subquery_outermost (hf : Selecting f) {model sql : String} {correlated : Bool}
    {joinTypes : Table JoinType} {trail : List String} {s : Statement} {own : Option Context}
    (h : subquery f model correlated joinTypes trail s own g = .ok (sql, g')) :
    Outermost d sql false := by
  obtain ⟨_, t, moved, _, -, ht, hmove, rfl, -⟩ := subquery_ok h
  rw [← hf _ _ _ ht d]
  exact outermost_move hmove

theorem named_outermost (hf : Selecting f) {name : List Char} {sql : String}
    (h : named f (.ofList name) g = .ok (sql, g')) :
    Outermost d sql (Expr.opensAggregate d f.registry (.str (.ofList ('@' :: name)))) := by
  rw [Expr.opensAggregate, String.toList_ofList]
  obtain ⟨_, hd, h⟩ | ⟨items, hd, rfl, -⟩ | ⟨text, context, hd, h⟩ := named_cases h
  · simp only [hd]
    exact subquery_outermost hf h
  · simp only [hd]
    exact outermost_token _
  · obtain ⟨_, _, hmove, rfl, -⟩ := splice_ok_iff.mp h
    simp only [hd]
    exact outermost_move hmove

theorem isBar_of_isSelectText {text : String} (h : isSelectText text) :
    ∃ w, isBar w ∧ w <+: Text.trimChars text.toList := by
  simp only [isSelectText, Bool.and_eq_true, beq_iff_eq] at h
  have hword := h.1
  have hletters : ∀ c ∈ (Text.trimStart text.toList).take 6, c.isAlpha := by
    intro c hc
    have hmem : c.toLower ∈ "select".toList := by
      rw [← hword]
      exact List.mem_map_of_mem hc
    have hlower : "select".toList.all Char.isLower := by decide
    exact Expr.isAlpha_of_toLower rfl (List.all_eq_true.mp hlower _ hmem)
  have hblank : ∀ c ∈ (Text.trimStart text.toList).take 6, Text.isBlank c = false := by
    intro c hc
    exact Expr.not_isBlank_of_class (p := Char.isAlpha) (by decide) (hletters c hc)
  have hne : (Text.trimStart text.toList).take 6 ≠ [] := by
    intro hnil
    rw [hnil] at hword
    cases hword
  refine ⟨(Text.trimStart text.toList).take 6, ?_, ?_⟩
  · have hsolid : ((Text.trimStart text.toList).take 6).all
        fun c => c != '(' && !Text.isBlank c := by
      rw [List.all_eq_true]
      intro c hc
      have hparen : c ≠ '(' := by
        rintro rfl
        cases hletters _ hc
      simp [hblank c hc, hparen]
    rw [isBar, hword, hsolid, List.isEmpty_eq_false_iff.mpr hne]
    decide
  · have hsplit := List.take_append_drop 6 (Text.trimStart text.toList)
    have hsame : Text.trimChars text.toList = Text.trimChars (Text.trimStart text.toList) := by
      simp [Text.trimChars, Text.trimStart, List.dropWhile_idempotent]
    rw [hsame, ← hsplit, trimChars_append hne hblank, List.take_append_drop]
    exact List.prefix_append _ _

theorem string_outermost (hf : Selecting f) {text sql : String}
    (h : string f text g = .ok (sql, g')) :
    Outermost d sql (Expr.opensAggregate d f.registry (.str text)) := by
  obtain ⟨name, hname, h⟩ | ⟨hname, hplain⟩ := string_cases h
  · have htext : text = .ofList ('@' :: name) := by rw [← hname, String.ofList_toList]
    rw [htext]
    exact named_outermost hf h
  · have hfalse : Expr.opensAggregate d f.registry (.str text) = false := by
      rw [Expr.opensAggregate]
      split
      · next name htext => exact absurd htext (hname name)
      · rfl
    rw [hfalse]
    obtain ⟨rfl, -⟩ | ⟨-, hselect, rfl, -⟩ := hplain
    · exact outermost_quoted (by decide) text
    · obtain ⟨w, hbar, hstart⟩ := isBar_of_isSelectText hselect
      rw [String.append_assoc]
      refine Outermost.parenthesized ((outermost_bar hbar ?_).append _)
      rw [Text.trim, String.toList_ofList]
      exact hstart

theorem call_outermost {name sql : String} {args : List String} {first : Bool}
    (hname : Expr.IsName name) (hargs : FirstOutermost f.scope.options.dialect first args)
    (h : call f name args g = .ok (sql, g')) :
    Outermost f.scope.options.dialect sql (match Builtin.ofName? name with
      | some b => b.isAggregate || (b.leadsWithArgument && first)
      | none => f.scope.options.dialect.isAggregate name) := by
  obtain ⟨b, hb, h⟩ | ⟨hb, rfl⟩ := call_cases h
  · simp only [hb]
    exact Builtin.render_outermost hargs h
  · simp only [hb]
    exact (hname.outermost.append _).append _

theorem unarySql_outermost (op : UnaryOp) {sql : String} {b : Bool} (h : Outermost d sql b) :
    Outermost d (unarySql op sql) (if op = .pos then b else false) := by
  cases op with
  | not =>
    have hnot : Outermost d "NOT " false :=
      outermost_bar (w := "NOT".toList) (by decide) (by decide)
    exact hnot.append sql
  | neg =>
    have hminus : isForeign '-' := by decide
    simp only [unarySql]
    split
    · exact outermost_foreign (x := '-') (by simp; rfl) hminus
    · exact outermost_foreign (x := '-') (by simp; rfl) hminus
  | pos => exact h

theorem tupleSql_outermost {items : List String} {b : Bool} (h : FirstOutermost d b items) :
    Outermost d (tupleSql items) b := by
  unfold tupleSql
  cases items with
  | nil =>
    have hnull : Outermost d "NULL)" false :=
      outermost_bar (w := "NULL".toList) (by decide) (by decide)
    rw [show b = false from h]
    exact hnull.parenthesized
  | cons p ps => exact h.parenthesized

/-- A fragment opens as its expression does. -/
theorem outermost_cases (hf : Selecting f) : Cases f Expr.Legible
    (fun e _ sql _ => Outermost f.scope.options.dialect sql
      (e.opensAggregate f.scope.options.dialect f.registry))
    (fun es _ parts _ => FirstOutermost f.scope.options.dialect
      (Expr.firstOpensAggregate f.scope.options.dialect f.registry es) parts) where
  operand := Expr.Legible.operand
  path h := by
    simp only [Expr.opensAggregate]
    exact path_outermost h
  number _ he := by
    simp only [Expr.opensAggregate]
    exact he.isNumber.outermost
  str _ h := string_outermost hf h
  bool b _ := by
    simp only [Expr.opensAggregate]
    cases b with
    | true => exact outermost_bar (w := "TRUE".toList) (by decide) (by decide)
    | false => exact outermost_bar (w := "FALSE".toList) (by decide) (by decide)
  null _ := by
    simp only [Expr.opensAggregate]
    exact outermost_bar (w := "NULL".toList) (by decide) (by decide)
  placeholder _ _ := by
    simp only [Expr.opensAggregate]
    exact outermost_token _
  star _ := by
    simp only [Expr.opensAggregate]
    exact outermost_foreign (x := '*') rfl (by decide)
  subquery _ hsub h := by
    obtain ⟨_, _, _, -, h⟩ := subqueryCall_ok h
    rw [Expr.opensAggregate, if_pos hsub]
    exact subquery_outermost hf h
  call he hsub _ hargs h := by
    rw [Expr.opensAggregate, if_neg (by simp [hsub])]
    exact call_outermost he.isName hargs h
  binary _ hl _ := by
    simp only [Expr.opensAggregate, String.append_assoc]
    exact (hl.append _).parenthesized
  short _ _ hl := by
    simp only [Expr.opensAggregate]
    exact hl.append _
  compare _ hl _ := by
    simp only [Expr.opensAggregate, String.append_assoc]
    exact hl.append _
  logical h := by
    simp only [Expr.opensAggregate]
    exact h.parenthesized
  unary {op _ _ _ _} h := by
    have hopens := unarySql_outermost op h
    cases op <;> simpa [Expr.opensAggregate] using hopens
  tuple h := by
    simp only [Expr.opensAggregate]
    exact tupleSql_outermost h
  list h := by
    simp only [Expr.opensAggregate]
    exact tupleSql_outermost h
  nil _ := rfl
  cons _ h _ := h

theorem selecting_templateWithin (scope : Scope) (registry : Registry) (n : Nat) :
    Selecting ⟨scope, registry, templateWithin registry n⟩ := by
  intro _ _ _ h d
  refine templateWithin_induction
    (P := fun _ _ t => isAggregateSql d t.sql = false) ?_ n h
  intro nested _ scope s t h
  obtain ⟨-, hsql, -⟩ := select_row h
  have hopens := Select.render_outermost (d := d) t.select scope.options.dialect []
  rw [List.append_nil, String.ofList_toList] at hopens
  rw [hsql]
  exact hopens

end Compile
end PathQuery
