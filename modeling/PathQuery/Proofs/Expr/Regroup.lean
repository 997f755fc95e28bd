import PathQuery.Proofs.Expr.Range
import PathQuery.Schema.Model

/-!
Groupings of one row of operands. Where nothing marks how far comparisons, `NOT` and the minus
reach, operations that differ only in that are the same when written down. One grouping of each row
is plain, and every operation can be regrouped to it.
-/

namespace PathQuery.Expr

/-! ### Operations -/

/-- Fields of the model and numbers, and what operators make of them. -/
inductive Operation (m : Model) : Expr → Prop
  | field {name : String} {fd : Field} (h : m.field? name = some fd) (hc : fd.isConcrete) :
      Operation m (.path name [])
  | number {text : String} (h : IsNumber text.toList) : Operation m (.number text)
  | binary (op : BinaryOp) {left right : Expr} (hl : Operation m left) (hr : Operation m right) :
      Operation m (.binary op left right)
  | compare (op : CompareOp) {left right : Expr} (hl : Operation m left)
      (hr : Operation m right) : Operation m (.compare op left right)
  | logical (op : Connective) {operands : List Expr} (hlength : 2 ≤ operands.length)
      (h : ∀ e ∈ operands, Operation m e) : Operation m (.logical op operands)
  | not {e : Expr} (h : Operation m e) : Operation m (.unary .not e)
  | neg {e : Expr} (h : Operation m e) : Operation m (.unary .neg e)

/-- What the fragment of an operation starts with. -/
inductive Lead where
  | column | digit | group | minus | not
deriving DecidableEq

def lead : Expr → Lead
  | .path .. => .column
  | .number _ => .digit
  | .compare _ left _ => left.lead
  | .unary .not _ => .not
  | .unary .. => .minus
  | _ => .group

/-- Two groupings of one row of operands. A comparison, `NOT` and the minus are each written before
or between their operands and nothing marks where they end, and `IS` before `NOT` is also one
operator. -/
inductive Regrouped : Expr → Expr → Prop
  | refl (e : Expr) : Regrouped e e
  | symm {e e' : Expr} (h : Regrouped e e') : Regrouped e' e
  | trans {e e' e'' : Expr} (h : Regrouped e e') (h' : Regrouped e' e'') : Regrouped e e''
  | chain (op op' : CompareOp) (a b c : Expr) :
      Regrouped (.compare op' (.compare op a b) c) (.compare op a (.compare op' b c))
  | not (op : CompareOp) (a b : Expr) :
      Regrouped (.compare op (.unary .not a) b) (.unary .not (.compare op a b))
  | neg (op : CompareOp) {a : Expr} (ha : a.lead ≠ .minus) (b : Expr) :
      Regrouped (.compare op (.unary .neg a) b) (.unary .neg (.compare op a b))
  | isNot (a b : Expr) : Regrouped (.compare .is a (.unary .not b)) (.compare .isNot a b)
  | binary (op : BinaryOp) {l l' r r' : Expr} (hl : Regrouped l l') (hr : Regrouped r r') :
      Regrouped (.binary op l r) (.binary op l' r')
  | compare (op : CompareOp) {l l' r r' : Expr} (hl : Regrouped l l') (hr : Regrouped r r') :
      Regrouped (.compare op l r) (.compare op l' r')
  | logical (op : Connective) (before : List Expr) {e e' : Expr} (after : List Expr)
      (h : Regrouped e e') :
      Regrouped (.logical op (before ++ e :: after)) (.logical op (before ++ e' :: after))
  | unary (op : UnaryOp) {e e' : Expr} (h : Regrouped e e') :
      Regrouped (.unary op e) (.unary op e')

/-- A field, a number or what stands in parentheses. -/
def isClosed : Expr → Bool
  | .compare .. | .unary .. => false
  | _ => true

/-- A closed operation, maybe after a minus. -/
def isTight : Expr → Bool
  | .unary .neg e => e.lead == .minus || e.isClosed
  | e => e.isClosed

def isCompare : Expr → Bool
  | .compare .. => true
  | _ => false

def isNot : Expr → Bool
  | .unary .not _ => true
  | _ => false

/-- Operations whose grouping is the one that the fragment is read with: the minus takes the next
closed operation, `NOT` takes all that follows, and so does a comparison on its right. -/
inductive Plain (m : Model) : Expr → Prop
  | field {name : String} {fd : Field} (h : m.field? name = some fd) (hc : fd.isConcrete) :
      Plain m (.path name [])
  | number {text : String} (h : IsNumber text.toList) : Plain m (.number text)
  | binary (op : BinaryOp) {left right : Expr} (hl : Plain m left) (hr : Plain m right) :
      Plain m (.binary op left right)
  | compare (op : CompareOp) {left right : Expr} (hl : Plain m left) (hr : Plain m right)
      (htight : left.isTight) (his : op = .is → right.isNot = false) :
      Plain m (.compare op left right)
  | logical (op : Connective) {operands : List Expr} (hlength : 2 ≤ operands.length)
      (h : ∀ e ∈ operands, Plain m e) : Plain m (.logical op operands)
  | not {e : Expr} (h : Plain m e) : Plain m (.unary .not e)
  | neg {e : Expr} (h : Plain m e) (hc : e.lead = .minus ∨ e.isCompare = false) :
      Plain m (.unary .neg e)

variable {m : Model} {e e' : Expr}

/-! ### Every operation has a plain grouping -/

theorem Regrouped.lead_eq (h : Regrouped e e') : e.lead = e'.lead := by
  induction h with
  | refl e => rfl
  | symm _ ih => exact ih.symm
  | trans _ _ ih ih' => exact ih.trans ih'
  | chain | not | neg | isNot | binary | logical => rfl
  | compare op _ _ ih _ => exact ih
  | unary op _ _ => cases op <;> rfl

theorem lead_of_isTight (h : e.isTight) : e.lead ≠ .not := by
  cases e with
  | unary op x => cases op <;> simp_all [isTight, isClosed, lead]
  | _ => simp_all [isTight, isClosed, lead]

theorem Plain.exists_not_of_lead (h : Plain m e) (hlead : e.lead = .not) :
    ∃ x, e = .unary .not x ∧ Plain m x := by
  cases h with
  | @not x hx => exact ⟨x, rfl, hx⟩
  | @compare op a b _ _ htight _ =>
    have ha : a.lead = .not := hlead
    exact absurd ha (lead_of_isTight htight)
  | _ => cases hlead

theorem isTight_of_isClosed (h : e.isClosed) : e.isTight := by
  cases e with
  | unary op x => cases h
  | _ => exact h

theorem isClosed_of_isTight (h : e.isTight) (hlead : e.lead ≠ .minus) : e.isClosed := by
  cases e with
  | unary op x => cases op <;> simp_all [isTight, isClosed, lead]
  | _ => exact h

/-- A comparison of a tight operand with a plain one. -/
theorem Plain.exists_compare_tight {l r : Expr} (op : CompareOp) (hl : Plain m l) (hr : Plain m r)
    (htight : l.isTight) : ∃ p, Plain m p ∧ Regrouped (.compare op l r) p := by
  by_cases his : op = .is ∧ r.isNot
  · obtain ⟨rfl, hnot⟩ := his
    cases hr with
    | not hx => exact ⟨_, .compare .isNot hl hx htight (by simp), .isNot l _⟩
    | _ => cases hnot
  · have hother : op = .is → r.isNot = false := by simpa using his
    exact ⟨_, .compare op hl hr htight hother, .refl _⟩

theorem Plain.exists_compare {l r : Expr} (op : CompareOp) (hl : Plain m l) (hr : Plain m r) :
    ∃ p, Plain m p ∧ Regrouped (.compare op l r) p := by
  -- The induction is on the left operand: what shows in it comes to stand before the comparison.
  induction hl with
  | field h hc => exact exists_compare_tight op (.field h hc) hr rfl
  | number h => exact exists_compare_tight op (.number h) hr rfl
  | binary bop hl hr' => exact exists_compare_tight op (.binary bop hl hr') hr rfl
  | logical lop hlength h => exact exists_compare_tight op (.logical lop hlength h) hr rfl
  | @compare op' a b ha _ htight _ _ ihb =>
    obtain ⟨q, hq, hbq⟩ := ihb
    obtain ⟨p, hp, hqp⟩ := exists_compare_tight op' ha hq htight
    have hchain := (Regrouped.chain op' op a b r).trans (.compare op' (.refl a) hbq)
    exact ⟨p, hp, hchain.trans hqp⟩
  | @not x _ ih =>
    obtain ⟨p, hp, hxp⟩ := ih
    exact ⟨_, .not hp, (Regrouped.not op x r).trans (.unary .not hxp)⟩
  | @neg x hx hc ih =>
    by_cases htight : (Expr.unary .neg x).isTight
    · exact exists_compare_tight op (.neg hx hc) hr htight
    · simp only [isTight, Bool.or_eq_true, beq_iff_eq, not_or] at htight
      obtain ⟨p, hp, hxp⟩ := ih
      have hlead : p.lead = .not := by
        rw [← hxp.lead_eq]
        cases hx with
        | not => rfl
        | neg => exact absurd rfl htight.1
        | compare => simp [htight.1, isCompare] at hc
        | _ => exact absurd rfl htight.2
      have hcompare : p.isCompare = false := by
        obtain ⟨y, rfl, -⟩ := hp.exists_not_of_lead hlead
        rfl
      exact ⟨_, .neg hp (.inr hcompare), (Regrouped.neg op htight.1 r).trans (.unary .neg hxp)⟩

theorem Plain.exists_neg (h : Plain m e) : ∃ p, Plain m p ∧ Regrouped (.unary .neg e) p := by
  by_cases hc : e.lead = .minus ∨ e.isCompare = false
  · exact ⟨_, .neg h hc, .refl _⟩
  · obtain ⟨hlead, hcompare⟩ := not_or.mp hc
    cases h with
    | @compare op a b ha hb htight _ =>
      have hminus : a.lead ≠ .minus := hlead
      have hclosed := isClosed_of_isTight htight hminus
      have hneg : Plain m (.unary .neg a) := by
        refine .neg ha (.inr ?_)
        cases a with
        | compare => cases hclosed
        | _ => rfl
      obtain ⟨p, hp, hregrouped⟩ := exists_compare_tight op hneg hb (by simp [isTight, hclosed])
      exact ⟨p, hp, (Regrouped.neg op hminus b).symm.trans hregrouped⟩
    | _ => exact absurd rfl hcompare

theorem exists_plain_all (op : Connective) {es : List Expr}
    (h : ∀ e ∈ es, ∃ p, Plain m p ∧ Regrouped e p) :
    ∃ ps : List Expr, ps.length = es.length ∧ (∀ p ∈ ps, Plain m p) ∧
      ∀ before, Regrouped (.logical op (before ++ es)) (.logical op (before ++ ps)) := by
  induction es with
  | nil => exact ⟨[], rfl, by simp, fun before => .refl _⟩
  | cons e es ih =>
    obtain ⟨p, hp, hep⟩ := h e (by simp)
    obtain ⟨ps, hlength, hps, hmore⟩ := ih fun x hx => h x (List.mem_cons_of_mem e hx)
    refine ⟨p :: ps, by simp [hlength], by simpa using ⟨hp, hps⟩, fun before => ?_⟩
    have hrest := hmore (before ++ [p])
    rw [List.append_assoc, List.append_assoc] at hrest
    exact (Regrouped.logical op before es hep).trans hrest

/-- Every operation can be regrouped to a plain one. -/
theorem Operation.exists_plain (h : Operation m e) : ∃ p, Plain m p ∧ Regrouped e p := by
  induction h with
  | field h hc => exact ⟨_, .field h hc, .refl _⟩
  | number h => exact ⟨_, .number h, .refl _⟩
  | binary op _ _ ihl ihr =>
    obtain ⟨l, hl, hll⟩ := ihl
    obtain ⟨r, hr, hrr⟩ := ihr
    exact ⟨_, .binary op hl hr, .binary op hll hrr⟩
  | compare op _ _ ihl ihr =>
    obtain ⟨l, hl, hll⟩ := ihl
    obtain ⟨r, hr, hrr⟩ := ihr
    obtain ⟨p, hp, hregrouped⟩ := Plain.exists_compare op hl hr
    exact ⟨p, hp, (Regrouped.compare op hll hrr).trans hregrouped⟩
  | logical op hlength _ ih =>
    obtain ⟨ps, hps, hplain, hregrouped⟩ := exists_plain_all op ih
    exact ⟨_, .logical op (by omega) hplain, hregrouped []⟩
  | not _ ih =>
    obtain ⟨p, hp, hxp⟩ := ih
    exact ⟨_, .not hp, .unary .not hxp⟩
  | neg _ ih =>
    obtain ⟨x, hx, hex⟩ := ih
    obtain ⟨p, hp, hregrouped⟩ := hx.exists_neg
    exact ⟨p, hp, (Regrouped.unary .neg hex).trans hregrouped⟩

theorem Plain.operation (h : Plain m e) : Operation m e := by
  induction h with
  | field h hc => exact .field h hc
  | number h => exact .number h
  | binary op _ _ ihl ihr => exact .binary op ihl ihr
  | compare op _ _ _ _ ihl ihr => exact .compare op ihl ihr
  | logical op hlength _ ih => exact .logical op hlength ih
  | not _ ih => exact .not ih
  | neg _ _ ih => exact .neg ih

/-- What a tight operation is that starts with a minus. -/
theorem Plain.exists_neg_of_lead (h : Plain m e) (htight : e.isTight) (hlead : e.lead = .minus) :
    ∃ x, e = .unary .neg x ∧ Plain m x ∧ (x.lead ≠ .minus → x.isClosed) := by
  cases h with
  | @neg x hx _ =>
    refine ⟨x, rfl, hx, fun hx => ?_⟩
    simpa [isTight, hx] using htight
  | compare | not => cases htight
  | _ => cases hlead

/-- What a plain operation can be that does not start with `NOT`. -/
theorem Plain.shape (h : Plain m e) (hlead : e.lead ≠ .not) :
    e.isTight ∨ (∃ x, e = .unary .neg (.unary .not x) ∧ Plain m x) ∨
      ∃ op a b, e = .compare op a b ∧ Plain m a ∧ Plain m b ∧ a.isTight ∧
        (op = .is → b.isNot = false) := by
  cases h with
  | @compare op a b ha hb htight his => exact .inr (.inr ⟨op, a, b, rfl, ha, hb, htight, his⟩)
  | not => exact absurd rfl hlead
  | @neg x hx hc =>
    by_cases htight : (Expr.unary .neg x).isTight
    · exact .inl htight
    · simp only [isTight, Bool.or_eq_true, beq_iff_eq, not_or] at htight
      cases hx with
      | @not y hy => exact .inr (.inl ⟨y, rfl, hy⟩)
      | neg => exact absurd rfl htight.1
      | compare => simp [htight.1, isCompare] at hc
      | _ => exact absurd rfl htight.2
  | _ => exact .inl rfl

theorem IsNumber.ne_edge {cs : List Char} (h : IsNumber cs) {c : Char} (hc : c ∈ cs) :
    c ≠ ' ' ∧ c ≠ ')' := by
  obtain ⟨whole, part, power, rfl, hwhole, hpart, hpower⟩ := h
  have digits {ds : List Char} (hds : IsDigits ds) (hc : c ∈ ds) : c ≠ ' ' ∧ c ≠ ')' := by
    have hdigit := hds.2 c hc
    constructor <;> rintro rfl <;> cases hdigit
  simp only [List.mem_append] at hc
  obtain (hc | hc) | hc := hc
  · exact digits hwhole hc
  · rcases hpart with rfl | ⟨ds, rfl, hds⟩
    · cases hc
    · rcases List.mem_cons.mp hc with rfl | hc
      · decide
      · exact digits hds hc
  · rcases hpower with rfl | ⟨mark, sign, ds, rfl, hmark, hsign, hds⟩
    · cases hc
    · simp only [List.cons_append, List.mem_cons, List.mem_append] at hc
      obtain rfl | hc | hc := hc
      · rcases hmark with rfl | rfl <;> decide
      · rcases hsign with rfl | rfl | rfl
        · cases hc
        · obtain rfl := List.mem_singleton.mp hc
          decide
        · obtain rfl := List.mem_singleton.mp hc
          decide
      · exact digits hds hc

end PathQuery.Expr
