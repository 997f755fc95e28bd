import PathQuery.Proofs.Compile.Run
import PathQuery.Proofs.Expr.Print
import PathQuery.Proofs.Expr.Regroup
import PathQuery.Proofs.Join.Terminal
import Mathlib.Data.List.Nodup

/-!
How far the SQL of an operation tells its grouping. Sums, products and connectives come in
parentheses, but comparisons, `NOT` and the minus do not, so that operations come to the same SQL
when they are groupings of one row of operands. Nothing else is lost: the fragment of a plain
operation is read back from the left, each part of it up to where it must end.
-/

namespace PathQuery.Compile

open PathQuery.Expr

/-! ### Wording -/

/-- A connective between two fragments. -/
def between (op : Connective) : List Char :=
  ' ' :: op.sql.toList ++ [' ']

mutual

/-- The fragment of an operation, where `column` gives those of the fields. -/
def wording (column : String → List Char) : Expr → List Char
  | .path name _ => column name
  | .number text => text.toList
  | .binary op left right =>
    '(' :: (wording column left ++ ' ' :: op.symbol :: ' ' :: (wording column right ++ [')']))
  | .compare op left right =>
    wording column left ++ ' ' :: (op.sql.toList ++ ' ' :: wording column right)
  | .logical op operands => '(' :: ((between op).intercalate (wordings column operands) ++ [')'])
  | .unary .not e => 'N' :: 'O' :: 'T' :: ' ' :: wording column e
  | .unary .neg e =>
    if e.lead = .minus then '-' :: '(' :: (wording column e ++ [')']) else '-' :: wording column e
  | _ => []

def wordings (column : String → List Char) : List Expr → List (List Char)
  | [] => []
  | e :: rest => wording column e :: wordings column rest

end

variable {column : String → List Char} {m : Model} {e e' : Expr}

theorem wordings_eq (es : List Expr) : wordings column es = es.map (wording column) := by
  induction es with
  | nil => rfl
  | cons e es ih => rw [wordings, ih, List.map_cons]

/-- Regrouping changes no text. -/
theorem wording_of_regrouped (h : Regrouped e e') : wording column e = wording column e' := by
  induction h with
  | refl e => rfl
  | symm _ ih => exact ih.symm
  | trans _ _ ih ih' => exact ih.trans ih'
  | chain op op' a b c => simp [wording]
  | not op a b => simp [wording]
  | neg op ha b => simp [wording, lead, ha]
  | isNot a b => simp [wording, CompareOp.sql]
  | binary op _ _ ihl ihr => rw [wording, wording, ihl, ihr]
  | compare op _ _ ihl ihr => rw [wording, wording, ihl, ihr]
  | logical op before after _ ih => simp [wording, wordings_eq, ih]
  | unary op h ih => cases op <;> simp [wording, ih, h.lead_eq]

/-- The first character of a fragment. -/
def Starts : Lead → Char → Prop
  | .column, c => c = '"'
  | .digit, c => c.isDigit
  | .group, c => c = '('
  | .minus, c => c = '-'
  | .not, c => c = 'N'

theorem Starts.unique {a b : Lead} {c : Char} (ha : Starts a c) (hb : Starts b c) :
    a = b := by
  cases a <;> cases b <;> simp_all [Starts]

theorem wording_cons (hcolumn : ∀ name, ∃ cs, column name = '"' :: cs) (h : Operation m e) :
    ∃ c cs, wording column e = c :: cs ∧ Starts e.lead c := by
  induction h with
  | @field name _ _ _ =>
    obtain ⟨cs, hcs⟩ := hcolumn name
    exact ⟨_, cs, by rw [wording, hcs], rfl⟩
  | @number text h =>
    obtain ⟨whole, part, power, htext, hwhole, -, -⟩ := h
    obtain ⟨d, ds, rfl⟩ := List.exists_cons_of_ne_nil hwhole.1
    exact ⟨d, _, by rw [wording, htext]; rfl, hwhole.2 d (by simp)⟩
  | binary | logical => exact ⟨_, _, by rw [wording], rfl⟩
  | compare op _ _ ihl _ =>
    obtain ⟨c, cs, hcs, hc⟩ := ihl
    exact ⟨c, _, by rw [wording, hcs]; rfl, hc⟩
  | not => exact ⟨_, _, by rw [wording], rfl⟩
  | @neg x _ _ =>
    rw [wording]
    split
    · exact ⟨_, _, rfl, rfl⟩
    · exact ⟨_, _, rfl, rfl⟩

/-! ### Compiled operations -/

theorem toList_join (sep : String) (parts : List String) :
    (Text.join sep parts).toList = sep.toList.intercalate (parts.map String.toList) := by
  induction parts with
  | nil => rfl
  | cons a parts ih =>
    cases parts with
    | nil => simp [Text.join]
    | cons b parts => simp [Text.join, ih, List.intercalate_cons_cons]

/-- The fragment of the field of a name, in the table instance `r`. -/
def columnText (r : Relation) (m : Model) (name : String) : List Char :=
  (r.column (((m.field? name).map Field.columnName).getD name)).sql.toList

theorem columnText_cons (r : Relation) (m : Model) (name : String) :
    ∃ cs, columnText r m name = '"' :: cs := by
  simp [columnText, ColumnRef.sql, Text.quoteIdent, Text.quoted]

variable {f : Frame}

theorem exprs_of_each {sql : Expr → String} {es : List Expr}
    (h : ∀ e ∈ es, ∀ g, ∃ g', expr f e g = .ok (sql e, g')) (g : Gathered) :
    ∃ g', exprs f es g = .ok (es.map sql, g') := by
  induction es generalizing g with
  | nil => exact ⟨g, rfl⟩
  | cons e es ih =>
    obtain ⟨g₁, he⟩ := h e (by simp) g
    obtain ⟨g₂, hrest⟩ := ih (fun x hx => h x (List.mem_cons_of_mem e hx)) g₁
    refine ⟨g₂, ?_⟩
    simp [exprs]
    exact ⟨_, he, hrest⟩

/-- Every operation is compiled, to its wording. -/
theorem expr_operation (hm : Join.modelOf f.scope f.scope.master = .ok m) (h : Operation m e)
    (g : Gathered) :
    ∃ g', expr f e g = .ok (.ofList (wording (columnText f.scope.master m) e), g') := by
  induction h generalizing g with
  | @field name fd h hc =>
    have hlast := Join.lastField_of_field? h
    have hpath := Join.resolvePath_concrete hm hlast hc g.relations
    refine ⟨{ g with relations := g.relations, fieldReads := g.fieldReads + 1 }, ?_⟩
    simp [expr, path, hpath, PathTarget.sql, wording, columnText, h]
  | number h => exact ⟨g, by simp [expr, wording]⟩
  | @binary op l r _ _ ihl ihr =>
    obtain ⟨g₁, hl⟩ := ihl g
    obtain ⟨g₂, hr⟩ := ihr g₁
    refine ⟨g₂, ?_⟩
    simp [expr]
    refine ⟨_, _, hl, _, hr, ?_⟩
    have hop : op.sql.toList = [op.symbol] := by cases op <;> rfl
    apply String.toList_injective
    simp [wording, hop]
  | @compare op l r _ hr' ihl ihr =>
    obtain ⟨g₁, hl⟩ := ihl g
    obtain ⟨g₂, hr⟩ := ihr g₁
    have hshort : shortComparison? op r = none := by
      cases hr' <;> cases op <;> rfl
    refine ⟨g₂, ?_⟩
    simp [expr, hshort]
    refine ⟨_, _, hl, _, hr, ?_⟩
    apply String.toList_injective
    simp [wording]
  | @logical op operands hlength _ ih =>
    obtain ⟨g', hparts⟩ := exprs_of_each ih g
    refine ⟨g', ?_⟩
    simp [expr]
    refine ⟨_, hparts, ?_⟩
    apply String.toList_injective
    simp [wording, toList_join, wordings_eq, between, Function.comp_def]
  | @not x _ ih =>
    obtain ⟨g', hx⟩ := ih g
    refine ⟨g', ?_⟩
    simp [expr]
    refine ⟨_, hx, ?_⟩
    apply String.toList_injective
    simp [wording, unarySql]
  | @neg x hx' ih =>
    obtain ⟨g', hx⟩ := ih g
    refine ⟨g', ?_⟩
    simp [expr]
    refine ⟨_, hx, ?_⟩
    obtain ⟨c, cs, hcs, hc⟩ := wording_cons (columnText_cons f.scope.master m) hx'
    apply String.toList_injective
    by_cases hlead : x.lead = .minus
    · have hminus : c = '-' := by simpa [hlead, Starts] using hc
      simp [wording, unarySql, hcs, hlead, hminus]
    · have hother : c ≠ '-' := by
        rintro rfl
        exact hlead (Starts.unique hc rfl)
      simp [wording, unarySql, hcs, hlead, hother]

/-! ### Reading a fragment -/

/-- What can follow an operand. -/
def Brief (t : List Char) : Prop :=
  ∀ c ∈ t.head?, c = ' ' ∨ c = ')'

/-- What can follow an operation that is not in parentheses: nothing, a parenthesis, or an operator
of those that are written in parentheses. -/
def Stops (t : List Char) : Prop :=
  t = [] ∨ (∃ rest, t = ')' :: rest) ∨
    ∃ c rest, t = ' ' :: c :: rest ∧ c ∈ ['+', '-', '*', '/', '%', 'A', 'O']

variable {k : Nat} {t t' : List Char}

theorem Stops.brief (h : Stops t) : Brief t := by
  obtain rfl | ⟨rest, rfl⟩ | ⟨c, rest, rfl, -⟩ := h <;> simp [Brief]

theorem brief_space (t : List Char) : Brief (' ' :: t) := by
  simp [Brief]

theorem stops_close (t : List Char) : Stops (')' :: t) :=
  .inr (.inl ⟨t, rfl⟩)

theorem stops_symbol (op : BinaryOp) (t : List Char) : Stops (' ' :: op.symbol :: t) :=
  .inr (.inr ⟨op.symbol, t, rfl, by cases op <;> decide⟩)

theorem stops_between (op : Connective) (t : List Char) : Stops (between op ++ t) := by
  cases op with
  | and => exact .inr (.inr ⟨'A', _, rfl, by decide⟩)
  | or => exact .inr (.inr ⟨'O', _, rfl, by decide⟩)

/-- Columns whose fragments start with a quote and are told from what follows them. -/
structure Legible (m : Model) (column : String → List Char) : Prop where
  starts : ∀ name, ∃ cs, column name = '"' :: cs
  apart : ∀ {name name' : String} {fd fd' : Field} {t t' : List Char}, m.field? name = some fd →
    m.field? name' = some fd' → fd.isConcrete → fd'.isConcrete → Brief t → Brief t' →
    column name ++ t = column name' ++ t' → name = name' ∧ t = t'

/-- In texts shorter than `k`, a plain operation is told from others and from what follows it. -/
def Told (m : Model) (column : String → List Char) (k : Nat) : Prop :=
  ∀ {e e' : Expr} {t t' : List Char}, Plain m e → Plain m e' → Stops t → Stops t' →
    (wording column e ++ t).length < k → wording column e ++ t = wording column e' ++ t' →
    e = e' ∧ t = t'

theorem lead_eq_of_wording (hcol : Legible m column) (he : Operation m e) (he' : Operation m e')
    (h : wording column e ++ t = wording column e' ++ t') : e.lead = e'.lead := by
  obtain ⟨c, cs, hcs, hc⟩ := wording_cons hcol.starts he
  obtain ⟨c', cs', hcs', hc'⟩ := wording_cons hcol.starts he'
  rw [hcs, hcs', List.cons_append, List.cons_append, List.cons.injEq] at h
  rw [← h.1] at hc'
  exact Starts.unique hc hc'

theorem number_apart {text text' : String} (h : IsNumber text.toList) (h' : IsNumber text'.toList)
    (ht : Brief t) (ht' : Brief t') (heq : text.toList ++ t = text'.toList ++ t') :
    text = text' ∧ t = t' := by
  let inside (c : Char) : Bool := c != ' ' && c != ')'
  have htake {text : String} {t : List Char} (h : IsNumber text.toList) (ht : Brief t) :
      (text.toList ++ t).takeWhile inside = text.toList := by
    have hend : ∀ c ∈ t.head?, inside c = false := by
      intro c hc
      rcases ht c hc with rfl | rfl <;> rfl
    rw [Lists.takeWhile_append_of_head hend, List.takeWhile_eq_self_iff]
    intro c hc
    obtain ⟨hspace, hclose⟩ := h.ne_edge hc
    simp [inside, hspace, hclose]
  have htext : text.toList = text'.toList := by rw [← htake h ht, heq, htake h' ht']
  rw [htext] at heq
  exact ⟨String.toList_injective htext, List.append_cancel_left heq⟩

theorem joined_cons (op : Connective) (a b : Expr) (rest : List Expr) :
    (between op).intercalate (wordings column (a :: b :: rest)) = wording column a ++
      (between op ++ (between op).intercalate (wordings column (b :: rest))) := by
  simp [wordings, List.intercalate_cons_cons]

theorem between_ne_close (op : Connective) (t t' : List Char) : between op ++ t ≠ ')' :: t' := by
  simp [between]

theorem joined_apart (ih : Told m column k) {op : Connective} {es es' : List Expr} (hne : es ≠ [])
    (hne' : es' ≠ []) (hes : ∀ e ∈ es, Plain m e) (hes' : ∀ e ∈ es', Plain m e)
    (hk : ((between op).intercalate (wordings column es) ++ ')' :: t).length < k)
    (h : (between op).intercalate (wordings column es) ++ ')' :: t =
      (between op).intercalate (wordings column es') ++ ')' :: t') : es = es' ∧ t = t' := by
  have single (e : Expr) : (between op).intercalate (wordings column [e]) = wording column e := by
    simp [wordings]
  induction es generalizing es' with
  | nil => exact absurd rfl hne
  | cons a es ihs =>
    have ha := hes a (by simp)
    match es, es', hne' with
    | [], [a'], _ =>
      rw [single] at hk h
      rw [single] at h
      obtain ⟨rfl, hrest⟩ := ih ha (hes' a' (by simp)) (stops_close t) (stops_close t') hk h
      exact ⟨rfl, by simpa using hrest⟩
    | [], a' :: b' :: rest', _ =>
      rw [single] at hk h
      rw [joined_cons, List.append_assoc, List.append_assoc] at h
      obtain ⟨-, hrest⟩ := ih ha (hes' a' (by simp)) (stops_close t) (stops_between op _) hk h
      exact absurd hrest.symm (between_ne_close op _ t)
    | b :: rest, [a'], _ =>
      rw [joined_cons, List.append_assoc, List.append_assoc] at hk h
      rw [single] at h
      obtain ⟨-, hrest⟩ := ih ha (hes' a' (by simp)) (stops_between op _) (stops_close t') hk h
      exact absurd hrest (between_ne_close op _ t')
    | b :: rest, a' :: b' :: rest', _ =>
      rw [joined_cons, List.append_assoc, List.append_assoc] at hk h
      rw [joined_cons, List.append_assoc, List.append_assoc] at h
      obtain ⟨rfl, hrest⟩ :=
        ih ha (hes' a' (by simp)) (stops_between op _) (stops_between op _) hk h
      have hk' :
          ((between op).intercalate (wordings column (b :: rest)) ++ ')' :: t).length < k := by
        simp only [List.length_append] at hk ⊢
        omega
      obtain ⟨hes, rfl⟩ := ihs (by simp) (by simp) (fun x hx => hes x (List.mem_cons_of_mem a hx))
        (fun x hx => hes' x (List.mem_cons_of_mem a hx)) hk' (List.append_cancel_left hrest)
      exact ⟨by rw [hes], rfl⟩

theorem symbol_injective {op op' : BinaryOp} (h : op.symbol = op'.symbol) : op = op' := by
  cases op <;> cases op' <;> simp_all [BinaryOp.symbol]

theorem between_injective {op op' : Connective} (h : between op ++ t = between op' ++ t') :
    op = op' ∧ t = t' := by
  cases op <;> cases op' <;> simp_all [between, Connective.sql]

theorem between_ne_symbol (op : Connective) (op' : BinaryOp) (t t' : List Char) :
    between op ++ t ≠ ' ' :: op'.symbol :: t' := by
  cases op <;> cases op' <;> simp [between, Connective.sql, BinaryOp.symbol]

/-- The first two of several operands. -/
theorem exists_cons_cons {es : List Expr} (h : 2 ≤ es.length) :
    ∃ a b rest, es = a :: b :: rest := by
  match es, h with
  | a :: b :: rest, _ => exact ⟨a, b, rest, rfl⟩

theorem closed_apart (hcol : Legible m column) (ih : Told m column k) (he : Plain m e)
    (he' : Plain m e') (ha : e.isClosed) (ha' : e'.isClosed) (ht : Brief t) (ht' : Brief t')
    (hk : (wording column e ++ t).length ≤ k)
    (h : wording column e ++ t = wording column e' ++ t') : e = e' ∧ t = t' := by
  have hlead := lead_eq_of_wording hcol he.operation he'.operation h
  cases he with
  | field hf hc =>
    cases he' with
    | field hf' hc' =>
      rw [wording, wording] at h
      obtain ⟨rfl, rfl⟩ := hcol.apart hf hf' hc hc' ht ht' h
      exact ⟨rfl, rfl⟩
    | compare | neg | not => cases ha'
    | _ => cases hlead
  | number hn =>
    cases he' with
    | number hn' =>
      rw [wording, wording] at h
      obtain ⟨rfl, rfl⟩ := number_apart hn hn' ht ht' h
      exact ⟨rfl, rfl⟩
    | compare | neg | not => cases ha'
    | _ => cases hlead
  | @binary op l r hl hr =>
    simp only [wording, List.cons_append, List.append_assoc, List.nil_append] at hk h
    cases he' with
    | @binary op' l' r' hl' hr' =>
      simp only [wording, List.cons_append, List.append_assoc, List.nil_append] at h
      obtain ⟨rfl, hrest⟩ := ih hl hl' (stops_symbol op _) (stops_symbol op' _) hk
        (List.cons.inj h).2
      simp only [List.cons.injEq, true_and] at hrest
      obtain rfl := symbol_injective hrest.1
      have hk' : (wording column r ++ ')' :: t).length < k := by
        simp only [List.length_append, List.length_cons] at hk ⊢
        omega
      obtain ⟨rfl, hclose⟩ := ih hr hr' (stops_close t) (stops_close t') hk' hrest.2
      exact ⟨rfl, by simpa using hclose⟩
    | @logical op' operands hlength hall =>
      obtain ⟨a, b, rest, rfl⟩ := exists_cons_cons hlength
      rw [wording, joined_cons] at h
      simp only [List.cons_append, List.append_assoc] at h
      obtain ⟨-, hrest⟩ := ih hl (hall a (by simp)) (stops_symbol op _) (stops_between op' _)
        hk (List.cons.inj h).2
      exact absurd hrest.symm (between_ne_symbol op' op _ _)
    | compare | neg | not => cases ha'
    | _ => cases hlead
  | @logical op operands hlength hall =>
    obtain ⟨a, b, rest, rfl⟩ := exists_cons_cons hlength
    rw [wording, joined_cons] at hk h
    simp only [List.cons_append, List.append_assoc, List.nil_append] at hk h
    have hfirst := hall a (by simp)
    cases he' with
    | @binary op' l' r' hl' hr' =>
      simp only [wording, List.cons_append, List.append_assoc] at h
      obtain ⟨-, hrest⟩ := ih hfirst hl' (stops_between op _) (stops_symbol op' _) hk
        (List.cons.inj h).2
      exact absurd hrest (between_ne_symbol op op' _ _)
    | @logical op' operands' hlength' hall' =>
      obtain ⟨a', b', rest', rfl⟩ := exists_cons_cons hlength'
      rw [wording, joined_cons] at h
      simp only [List.cons_append, List.append_assoc, List.nil_append] at h
      obtain ⟨rfl, hrest⟩ := ih hfirst (hall' a' (by simp)) (stops_between op _)
        (stops_between op' _) hk (List.cons.inj h).2
      obtain ⟨rfl, hrest⟩ := between_injective hrest
      have hk' :
          ((between op).intercalate (wordings column (b :: rest)) ++ ')' :: t).length < k := by
        simp only [List.length_append, List.length_cons] at hk ⊢
        omega
      obtain ⟨hes, rfl⟩ := joined_apart ih (by simp) (by simp)
        (fun x hx => hall x (List.mem_cons_of_mem a hx))
        (fun x hx => hall' x (List.mem_cons_of_mem a hx)) hk' hrest
      exact ⟨by rw [hes], rfl⟩
    | compare | neg | not => cases ha'
    | _ => cases hlead
  | compare | neg | not => cases ha

/-- In parentheses after a minus stands one operation, in a group stand several. -/
theorem group_ne_bracket (ih : Told m column k) (he : Plain m e) (hclosed : e.isClosed)
    (hlead : e.lead = .group) {x : Expr} (hx : Plain m x)
    (hk : (wording column x ++ ')' :: t).length < k) :
    '(' :: (wording column x ++ ')' :: t) ≠ wording column e ++ t' := by
  intro h
  cases he with
  | @binary op l r hl hr =>
    simp only [wording, List.cons_append, List.append_assoc] at h
    obtain ⟨-, hrest⟩ := ih hx hl (stops_close t) (stops_symbol op _) hk (List.cons.inj h).2
    cases hrest
  | @logical op operands hlength hall =>
    obtain ⟨a, b, rest, rfl⟩ := exists_cons_cons hlength
    rw [wording, joined_cons] at h
    simp only [List.cons_append, List.append_assoc] at h
    obtain ⟨-, hrest⟩ := ih hx (hall a (by simp)) (stops_close t) (stops_between op _) hk
      (List.cons.inj h).2
    exact between_ne_close op _ t hrest.symm
  | compare | neg | not => cases hclosed
  | _ => cases hlead

theorem wording_neg (column : String → List Char) (x : Expr) : wording column (.unary .neg x) =
    '-' :: if x.lead = .minus then '(' :: (wording column x ++ [')']) else wording column x := by
  rw [wording]
  split <;> rfl

/-- What starts with a parenthesis is a group. -/
theorem lead_of_open (hcol : Legible m column) (he : Operation m e)
    (h : '(' :: t = wording column e ++ t') : e.lead = .group := by
  obtain ⟨c, cs, hcs, hc⟩ := wording_cons hcol.starts he
  rw [hcs, List.cons_append, List.cons.injEq] at h
  rw [← h.1] at hc
  exact Starts.unique hc rfl

theorem tight_apart (hcol : Legible m column) (ih : Told m column k) (he : Plain m e)
    (he' : Plain m e') (ha : e.isTight) (ha' : e'.isTight) (ht : Brief t) (ht' : Brief t')
    (hk : (wording column e ++ t).length ≤ k)
    (h : wording column e ++ t = wording column e' ++ t') : e = e' ∧ t = t' := by
  have hlead := lead_eq_of_wording hcol he.operation he'.operation h
  by_cases hminus : e.lead = .minus
  · obtain ⟨x, rfl, hx, hclosed⟩ := he.exists_neg_of_lead ha hminus
    obtain ⟨x', rfl, hx', hclosed'⟩ := he'.exists_neg_of_lead ha' (hlead ▸ hminus)
    rw [wording_neg] at hk h
    rw [wording_neg] at h
    by_cases hm : x.lead = .minus <;> by_cases hm' : x'.lead = .minus <;>
      simp only [hm, hm', if_true, if_false, List.cons_append, List.append_assoc, List.nil_append,
        List.cons.injEq, true_and, List.length_cons] at hk h
    · obtain ⟨rfl, hclose⟩ := ih hx hx' (stops_close t) (stops_close t') (by omega) h
      exact ⟨rfl, by simpa using hclose⟩
    · exact absurd h (group_ne_bracket ih hx' (hclosed' hm') (lead_of_open hcol hx'.operation h) hx
        (by omega))
    · have hk' := congrArg List.length h
      rw [List.length_cons] at hk'
      exact absurd h.symm (group_ne_bracket ih hx (hclosed hm)
        (lead_of_open hcol hx.operation h.symm) hx' (by omega))
    · obtain ⟨rfl, rfl⟩ :=
        closed_apart hcol ih hx hx' (hclosed hm) (hclosed' hm') ht ht' (by omega) h
      exact ⟨rfl, rfl⟩
  · have hclosed := isClosed_of_isTight ha hminus
    have hclosed' := isClosed_of_isTight ha' (by rwa [← hlead])
    exact closed_apart hcol ih he he' hclosed hclosed' ht ht' hk h

/-- No tight operation starts with a minus before `NOT`. -/
theorem tight_ne_not (hcol : Legible m column) (he : Plain m e) (ha : e.isTight) :
    wording column e ++ t ≠ '-' :: 'N' :: t' := by
  intro h
  obtain ⟨c, cs, hcs, hc⟩ := wording_cons hcol.starts he.operation
  have hlead : e.lead = .minus := by
    rw [hcs, List.cons_append, List.cons.injEq] at h
    rw [h.1] at hc
    exact Starts.unique hc rfl
  obtain ⟨x, rfl, hx, hclosed⟩ := he.exists_neg_of_lead ha hlead
  rw [wording_neg, List.cons_append, List.cons.injEq] at h
  have h := h.2
  by_cases hm : x.lead = .minus
  · simp [hm] at h
  · obtain ⟨d, ds, hds, hd⟩ := wording_cons hcol.starts hx.operation
    rw [if_neg hm, hds, List.cons_append, List.cons.injEq] at h
    rw [h.1] at hd
    have hnot : x.lead = .not := Starts.unique hd rfl
    exact lead_of_isTight (isTight_of_isClosed (hclosed hm)) hnot

/-- A comparison is none of the operators that are written in parentheses. -/
theorem Stops.ne_compare (h : Stops t) (op : CompareOp) (cs : List Char) :
    t ≠ ' ' :: (op.sql.toList ++ ' ' :: cs) := by
  rintro rfl
  obtain ⟨d, ds, hds, hd⟩ : ∃ d ds, op.sql.toList = d :: ds ∧
      d ∉ ['+', '-', '*', '/', '%', 'A', 'O'] := by
    cases op <;> exact ⟨_, _, rfl, by decide⟩
  obtain h | ⟨rest, h⟩ | ⟨c, rest, h, hc⟩ := h
  · cases h
  · cases h
  · rw [hds] at h
    cases h
    exact hd hc

theorem compareSql_apart {op op' : CompareOp} {cs cs' : List Char}
    (h : op.sql.toList ++ ' ' :: cs = op'.sql.toList ++ ' ' :: cs') :
    (op = op' ∧ cs = cs') ∨
      (op = .is ∧ op' = .isNot ∧ cs = 'N' :: 'O' :: 'T' :: ' ' :: cs') ∨
      (op = .isNot ∧ op' = .is ∧ cs' = 'N' :: 'O' :: 'T' :: ' ' :: cs) := by
  cases op <;> cases op' <;> simp_all [CompareOp.sql]

theorem wording_compare_append (op : CompareOp) (a b : Expr) (t : List Char) :
    wording column (.compare op a b) ++ t =
      wording column a ++ ' ' :: (op.sql.toList ++ ' ' :: (wording column b ++ t)) := by
  simp [wording]

theorem wording_negNot_append (x : Expr) (t : List Char) :
    wording column (.unary .neg (.unary .not x)) ++ t =
      '-' :: 'N' :: 'O' :: 'T' :: ' ' :: (wording column x ++ t) := by
  simp [wording, lead]

/-- Before `NOT`, `IS` is not the comparison of a plain operation. -/
theorem not_is_before_not (hcol : Legible m column) (he : Plain m e)
    (his : CompareOp.is = .is → e.isNot = false) :
    wording column e ++ t ≠ 'N' :: 'O' :: 'T' :: ' ' :: t' := by
  intro h
  obtain ⟨c, cs, hcs, hc⟩ := wording_cons hcol.starts he.operation
  rw [hcs, List.cons_append, List.cons.injEq] at h
  rw [h.1] at hc
  obtain ⟨x, rfl, -⟩ := he.exists_not_of_lead (Starts.unique hc rfl)
  cases his rfl

theorem told_succ (hcol : Legible m column) (ih : Told m column k) : Told m column (k + 1) := by
  intro e e' t t' he he' ht ht' hk h
  have hlead := lead_eq_of_wording hcol he.operation he'.operation h
  have hk : (wording column e ++ t).length ≤ k := by omega
  by_cases hnot : e.lead = .not
  · -- Both start with `NOT`, and what follows it is shorter.
    obtain ⟨x, rfl, hx⟩ := he.exists_not_of_lead hnot
    obtain ⟨x', rfl, hx'⟩ := he'.exists_not_of_lead (hlead ▸ hnot)
    simp only [wording, List.cons_append, List.cons.injEq, true_and, List.length_cons] at hk h
    obtain ⟨rfl, rfl⟩ := ih hx hx' ht ht' (by omega) h
    exact ⟨rfl, rfl⟩
  · have hnot' : e'.lead ≠ .not := by rwa [← hlead]
    obtain ha | ⟨x, rfl, hx⟩ | ⟨op, a, b, rfl, hpa, hb, ha, his⟩ := he.shape hnot
    · obtain ha' | ⟨x', rfl, hx'⟩ | ⟨op', a', b', rfl, hpa', hb', ha', his'⟩ := he'.shape hnot'
      · exact tight_apart hcol ih he he' ha ha' ht.brief ht'.brief hk h
      · rw [wording_negNot_append] at h
        exact absurd h (tight_ne_not hcol he ha)
      · rw [wording_compare_append] at h
        obtain ⟨-, hrest⟩ := tight_apart hcol ih he hpa' ha ha' ht.brief (brief_space _) hk h
        exact absurd hrest (ht.ne_compare op' _)
    · rw [wording_negNot_append] at hk h
      obtain ha' | ⟨x', rfl, hx'⟩ | ⟨op', a', b', rfl, hpa', hb', ha', his'⟩ := he'.shape hnot'
      · exact absurd h.symm (tight_ne_not hcol he' ha')
      · rw [wording_negNot_append] at h
        simp only [List.cons.injEq, true_and, List.length_cons] at hk h
        obtain ⟨rfl, rfl⟩ := ih hx hx' ht ht' (by omega) h
        exact ⟨rfl, rfl⟩
      · rw [wording_compare_append] at h
        exact absurd h.symm (tight_ne_not hcol hpa' ha')
    · rw [wording_compare_append] at hk h
      obtain ha' | ⟨x', rfl, hx'⟩ | ⟨op', a', b', rfl, hpa', hb', ha', his'⟩ := he'.shape hnot'
      · obtain ⟨-, hrest⟩ := tight_apart hcol ih hpa he' ha ha' (brief_space _) ht'.brief hk h
        exact absurd hrest.symm (ht'.ne_compare op _)
      · rw [wording_negNot_append] at h
        exact absurd h (tight_ne_not hcol hpa ha)
      · rw [wording_compare_append] at h
        obtain ⟨rfl, hrest⟩ :=
          tight_apart hcol ih hpa hpa' ha ha' (brief_space _) (brief_space _) hk h
        have hk' : (wording column b ++ t).length < k := by
          simp only [List.length_append, List.length_cons] at hk ⊢
          omega
        obtain ⟨rfl, hb''⟩ | ⟨rfl, rfl, hb''⟩ | ⟨rfl, rfl, hb''⟩ :=
          compareSql_apart (List.cons.inj hrest).2
        · obtain ⟨rfl, rfl⟩ := ih hb hb' ht ht' hk' hb''
          exact ⟨rfl, rfl⟩
        · exact absurd hb'' (not_is_before_not hcol hb his)
        · exact absurd hb'' (not_is_before_not hcol hb' his')

theorem told (hcol : Legible m column) (k : Nat) : Told m column k := by
  induction k with
  | zero =>
    intro _ _ _ _ _ _ _ _ hk
    omega
  | succ k ih => exact told_succ hcol ih

/-- Plain operations with the same wording are the same. -/
theorem wording_injective (hcol : Legible m column) (he : Plain m e) (he' : Plain m e')
    (h : wording column e = wording column e') : e = e' := by
  have hstops : Stops [] := .inl rfl
  exact (told hcol _ he he' hstops hstops (Nat.lt_succ_self _) (by rw [h])).1

/-- Operations have the same wording if they are two groupings of one row of operands, and only
then. -/
theorem wording_eq_iff (hcol : Legible m column) (he : Operation m e) (he' : Operation m e') :
    wording column e = wording column e' ↔ Regrouped e e' := by
  constructor
  · intro h
    obtain ⟨p, hp, hep⟩ := he.exists_plain
    obtain ⟨p', hp', hep'⟩ := he'.exists_plain
    have hpp : p = p' := by
      apply wording_injective hcol hp hp'
      rw [← wording_of_regrouped hep, h, wording_of_regrouped hep']
    subst hpp
    exact hep.trans hep'.symm
  · exact wording_of_regrouped

/-! ### Columns -/

theorem doubled_apart {q : Char} {cs cs' : List Char} (ht : t.head? ≠ some q)
    (ht' : t'.head? ≠ some q) (h : Text.doubled q cs ++ q :: t = Text.doubled q cs' ++ q :: t') :
    cs = cs' ∧ t = t' := by
  have doubled_cons (c : Char) (cs : List Char) :
      Text.doubled q (c :: cs) = if c = q then q :: q :: Text.doubled q cs
        else c :: Text.doubled q cs := by
    by_cases hc : c = q <;> simp [Text.doubled, hc]
  induction cs generalizing cs' with
  | nil =>
    cases cs' with
    | nil => simpa [Text.doubled] using h
    | cons c' cs' =>
      rw [doubled_cons] at h
      by_cases hc' : c' = q
      · simp only [Text.doubled, hc', if_true, List.nil_append, List.cons_append, List.cons.injEq,
          true_and] at h
        exact absurd (by rw [h]; rfl) ht
      · simp only [Text.doubled, hc', if_false, List.nil_append, List.cons_append,
          List.cons.injEq] at h
        exact absurd h.1.symm hc'
  | cons c cs ih =>
    rw [doubled_cons] at h
    cases cs' with
    | nil =>
      by_cases hc : c = q
      · simp only [Text.doubled, hc, if_true, List.nil_append, List.cons_append, List.cons.injEq,
          true_and] at h
        exact absurd (by rw [← h]; rfl) ht'
      · simp only [Text.doubled, hc, if_false, List.nil_append, List.cons_append,
          List.cons.injEq] at h
        exact h.1.elim
    | cons c' cs' =>
      rw [doubled_cons] at h
      by_cases hc : c = q <;> by_cases hc' : c' = q <;>
        simp only [hc, hc', if_true, if_false, List.cons_append, List.cons.injEq, true_and] at h
      · obtain ⟨rfl, rfl⟩ := ih h
        exact ⟨by rw [hc, hc'], rfl⟩
      · exact absurd h.1.symm hc'
      · exact h.1.elim
      · obtain ⟨rfl, rfl⟩ := ih h.2
        exact ⟨by rw [h.1], rfl⟩

theorem quoteIdent_apart {name name' : String} (ht : Brief t) (ht' : Brief t')
    (h : (Text.quoteIdent name).toList ++ t = (Text.quoteIdent name').toList ++ t') :
    name = name' ∧ t = t' := by
  have hquote {t : List Char} (ht : Brief t) : t.head? ≠ some '"' := by
    intro hhead
    rcases ht '"' hhead with h | h <;> cases h
  simp only [Text.quoteIdent, Text.quoted, String.toList_ofList, List.cons_append,
    List.append_assoc, List.nil_append, List.cons.injEq, true_and] at h
  obtain ⟨hname, rfl⟩ := doubled_apart (hquote ht) (hquote ht') h
  exact ⟨String.toList_injective hname, rfl⟩

/-- Distinct columns are told by their names in quotes. -/
theorem legible_columnText (r : Relation)
    (hdistinct : (m.concreteFields.map Field.columnName).Nodup) : Legible m (columnText r m) := by
  refine ⟨columnText_cons r m, ?_⟩
  intro name name' fd fd' t t' hfd hfd' hc hc' ht ht' h
  simp only [columnText, hfd, hfd', Option.map_some, Option.getD_some, ColumnRef.sql,
    Relation.column, String.toList_append, List.append_assoc] at h
  obtain ⟨hcolumn, rfl⟩ := quoteIdent_apart ht ht' (List.append_cancel_left
    (List.append_cancel_left h))
  have hmem {name : String} {fd : Field} (hfd : m.field? name = some fd) (hc : fd.isConcrete) :
      fd ∈ m.concreteFields :=
    List.mem_filter.mpr ⟨Join.field?_mem hfd, hc⟩
  have hsame := List.inj_on_of_nodup_map hdistinct (hmem hfd hc) (hmem hfd' hc') hcolumn
  exact ⟨by rw [← Join.field?_name hfd, hsame, Join.field?_name hfd'], rfl⟩

/-! ### Grouping -/

/-- Every operation on the fields of a model is compiled. Two of them come to the same SQL if they
are groupings of one row of operands, and only then; of these groupings one is plain, and plain
operations with the same SQL are equal. -/
theorem expr_eq_iff_regrouped {f : Frame} {m : Model} {e e' : Expr}
    (hm : Join.modelOf f.scope f.scope.master = .ok m)
    (hdistinct : (m.concreteFields.map Field.columnName).Nodup) (he : Operation m e)
    (he' : Operation m e') (g g' : Gathered) :
    ∃ sql sql' h h', expr f e g = .ok (sql, h) ∧ expr f e' g' = .ok (sql', h') ∧
      (sql = sql' ↔ Regrouped e e') ∧ (∃ p, Plain m p ∧ Regrouped e p) ∧
      (Plain m e → Plain m e' → sql = sql' → e = e') := by
  obtain ⟨h, hsql⟩ := expr_operation hm he g
  obtain ⟨h', hsql'⟩ := expr_operation hm he' g'
  have hcol := legible_columnText f.scope.master hdistinct
  have hinj {cs cs' : List Char} : String.ofList cs = String.ofList cs' ↔ cs = cs' :=
    String.ofList_inj
  refine ⟨_, _, h, h', hsql, hsql', ?_, he.exists_plain, ?_⟩
  · rw [hinj]
    exact wording_eq_iff hcol he he'
  · intro hp hp' heq
    exact wording_injective hcol hp hp' (hinj.mp heq)

/-- A model of three plain columns. -/
def triple : Model :=
  ⟨"s", "T", "t", [{ name := "a" }, { name := "b" }, { name := "c" }]⟩

def tripleFrame : Frame :=
  ⟨.top ⟨[triple]⟩ {} triple {}, {}, fun _ _ => .error .emptyColumns⟩

/-- Both groupings of two comparisons in a row come to one text. -/
theorem expr_eq_iff_regrouped_chain :
    ∃ sql h h', Join.modelOf tripleFrame.scope tripleFrame.scope.master = .ok triple ∧
      (triple.concreteFields.map Field.columnName).Nodup ∧
      expr tripleFrame (.compare .eq (.compare .eq (.path "a" []) (.path "b" [])) (.path "c" []))
        { relations := [] } = .ok (sql, h) ∧
      expr tripleFrame (.compare .eq (.path "a" []) (.compare .eq (.path "b" []) (.path "c" [])))
        { relations := [] } = .ok (sql, h') := by
  have hm : Join.modelOf tripleFrame.scope tripleFrame.scope.master = .ok triple := rfl
  have hdistinct : (triple.concreteFields.map Field.columnName).Nodup := by decide
  have ha : Operation triple (.path "a" []) := .field rfl rfl
  have hb : Operation triple (.path "b" []) := .field rfl rfl
  have hc : Operation triple (.path "c" []) := .field rfl rfl
  obtain ⟨sql, sql', h, h', hsql, hsql', hiff, -⟩ := expr_eq_iff_regrouped hm hdistinct
    (.compare .eq (.compare .eq ha hb) hc) (.compare .eq ha (.compare .eq hb hc))
    { relations := [] } { relations := [] }
  obtain rfl := hiff.mpr (.chain .eq .eq _ _ _)
  exact ⟨sql, h, h', hm, hdistinct, hsql, hsql'⟩

end PathQuery.Compile
