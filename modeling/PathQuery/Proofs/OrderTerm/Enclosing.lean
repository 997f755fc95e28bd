import PathQuery.Proofs.Expr.RoundTrip
import PathQuery.Proofs.Expr.Spelling

/-!
Parentheses around a whole list. The scan that looks for them counts parentheses outside strings. It
passes over the text of an expression and is as deep behind it as before, so the first parenthesis
of such a text closes where the printer wrote its other half, and this is the end of the text only
for a tuple.
-/

namespace PathQuery.Column

/-! ### The scan between parentheses -/

/-- Where the scan changes its depth or comes to a string. -/
def turns : List Char := ['(', ')', '\'', '"']

/-- Between parentheses the scan is as deep behind the text as before it, whatever follows. -/
def Passed (w : List Char) : Prop :=
  ∀ depth cs, afterOuter? (depth + 1) none (w ++ cs) = afterOuter? (depth + 1) none cs

namespace Passed

variable {u v w : List Char}

theorem nil : Passed [] :=
  fun _ _ => rfl

theorem append (hu : Passed u) (hv : Passed v) : Passed (u ++ v) := by
  intro depth cs
  rw [List.append_assoc, hu, hv]

theorem char {c : Char} (hc : c ∉ turns) : Passed [c] := by
  intro depth cs
  simp only [turns, List.mem_cons, List.not_mem_nil, or_false, not_or] at hc
  obtain ⟨hopen, hclose, hsingle, hdouble⟩ := hc
  simp [afterOuter?, quoteAfter, hopen, hclose, hsingle, hdouble]

theorem cons {c : Char} (hc : c ∉ turns) (hw : Passed w) : Passed (c :: w) :=
  (char hc).append hw

theorem plain (hw : w.all fun c => !turns.contains c) : Passed w := by
  induction w with
  | nil => exact nil
  | cons c w ih =>
    rw [List.all_cons, Bool.and_eq_true] at hw
    exact cons (by simpa using hw.1) (ih hw.2)

theorem of_not_mem_marks (hw : ∀ c ∈ w, c ∉ Expr.marks) : Passed w := by
  have hturns : turns.all Expr.marks.contains := by decide
  refine plain (List.all_eq_true.mpr fun c hc => ?_)
  have hturn : c ∉ turns := fun hturn =>
    hw c hc (List.contains_iff_mem.mp (List.all_eq_true.mp hturns c hturn))
  simpa using hturn

theorem parenthesized (hw : Passed w) : Passed ('(' :: w ++ [')']) := by
  intro depth cs
  have hinside := hw (depth + 1) (')' :: cs)
  rw [List.append_assoc, List.cons_append, List.singleton_append, afterOuter?]
  simp only [Option.isNone_none, Bool.true_and, beq_self_eq_true, if_true, hinside]
  simp [afterOuter?]

theorem enclosed (hw : Passed w) (needed : Bool) : Passed (Expr.enclosed needed w) := by
  cases needed with
  | false => exact hw
  | true => exact hw.parenthesized

theorem intercalate {sep : List Char} {parts : List (List Char)} (hsep : Passed sep)
    (h : ∀ p ∈ parts, Passed p) : Passed (sep.intercalate parts) := by
  induction parts with
  | nil => exact nil
  | cons p rest ih =>
    rw [List.forall_mem_cons] at h
    cases rest with
    | nil =>
      rw [List.intercalate_singleton]
      exact h.1
    | cons q rest =>
      rw [List.intercalate_cons_cons]
      exact (h.1.append hsep).append (ih h.2)

end Passed

/-- A quote in a string ends it for the scan, and the second one starts the next string. -/
theorem afterOuter?_escaped (depth : Nat) (text cs : List Char) :
    afterOuter? depth (some '\'') (Expr.escaped text ++ '\'' :: cs) =
      afterOuter? depth none cs := by
  induction text with
  | nil => simp [Expr.escaped, afterOuter?, quoteAfter]
  | cons c text ih =>
    by_cases hquote : c = '\''
    · subst hquote
      simp [Expr.escaped, afterOuter?, quoteAfter, ih]
    · by_cases hslash : c = '\\'
      · subst hslash
        simp [Expr.escaped, afterOuter?, quoteAfter, ih]
      · simp [Expr.escaped, afterOuter?, quoteAfter, hquote, hslash, ih]

theorem Passed.quoted (text : List Char) : Passed ('\'' :: Expr.escaped text ++ ['\'']) := by
  intro depth cs
  have hinside := afterOuter?_escaped (depth + 1) text cs
  rw [List.append_assoc, List.singleton_append, List.cons_append, afterOuter?]
  simpa [quoteAfter] using hinside

/-! ### The first parenthesis -/

/-- The text starts with a parenthesis that is closed right before `rest`. -/
def Closes (cs rest : List Char) : Prop :=
  ∃ body, Passed body ∧ cs = '(' :: (body ++ ')' :: rest)

variable {cs rest body : List Char}

theorem Closes.append (h : Closes cs rest) (more : List Char) :
    Closes (cs ++ more) (rest ++ more) := by
  obtain ⟨body, hbody, rfl⟩ := h
  exact ⟨body, hbody, by simp⟩

theorem Closes.afterOuter?_eq (h : Closes cs rest) : afterOuter? 0 none cs = some rest := by
  obtain ⟨body, hbody, rfl⟩ := h
  have hinside := hbody 0 (')' :: rest)
  rw [afterOuter?]
  simp only [Option.isNone_none, Bool.true_and, beq_self_eq_true, if_true, hinside]
  simp [afterOuter?]

theorem stripOuter_of_head (h : cs.head? ≠ some '(') : stripOuter cs = .ok cs := by
  simp [stripOuter, h]

/-- Nothing is dropped where the first parenthesis is closed before the end. -/
theorem Closes.stripOuter_eq (h : Closes cs rest) (hne : rest ≠ []) : stripOuter cs = .ok cs := by
  obtain ⟨c, rest, rfl⟩ := List.exists_cons_of_ne_nil hne
  unfold stripOuter
  split
  · rw [h.afterOuter?_eq]
  · rfl

theorem stripOuter_parenthesized (h : Passed body) :
    stripOuter ('(' :: (body ++ [')'])) = .ok (Text.trimChars body) := by
  have hclosed : Closes ('(' :: (body ++ [')'])) [] := ⟨body, h, rfl⟩
  have hlast : ('(' :: (body ++ [')'])).getLast? = some ')' := by
    rw [← List.cons_append, List.getLast?_concat]
  simp [stripOuter, hclosed.afterOuter?_eq, hlast]

end PathQuery.Column

namespace PathQuery.Expr

open PathQuery.Column (Passed Closes)

theorem passed_charsAll {es : List Expr} (h : ∀ e ∈ es, Passed e.chars) (n : Nat) :
    ∀ part ∈ charsAll n es, Passed part := by
  rw [charsAll_eq]
  intro part hpart
  obtain ⟨e, he, rfl⟩ := List.mem_map.mp hpart
  exact (h e he).enclosed _

theorem passed_items {es : List Expr} (h : ∀ e ∈ es, Passed e.chars) :
    Passed ([',', ' '].intercalate (charsAll 0 es)) :=
  .intercalate (.plain (by decide)) (passed_charsAll h 0)

theorem IsName.not_mem_marks {name : String} (h : IsName name) : ∀ c ∈ name.toList, c ∉ marks :=
  fun c hc => Expr.not_mem_marks (p := Expr.isNameRest) (by decide) (h.isNameRest c hc)

theorem IsName.passed {name : String} (h : IsName name) : Passed name.toList :=
  .of_not_mem_marks h.not_mem_marks

/-- What stands between the parentheses of a tuple. -/
def tupleBody (items : List Expr) : List Char :=
  [',', ' '].intercalate (charsAll 0 items) ++ if items.length = 1 then [','] else []

theorem chars_tuple (items : List Expr) :
    chars (.tuple items) = '(' :: tupleBody items ++ [')'] := by
  by_cases hone : items.length = 1 <;> simp [chars, tupleBody, hone]

theorem passed_tupleBody {items : List Expr} (h : ∀ e ∈ items, Passed e.chars) :
    Passed (tupleBody items) := by
  refine (passed_items h).append ?_
  split <;> exact .plain (by decide)

/-- The scan passes over the text of an expression. -/
theorem Readable.passed {e : Expr} (h : Readable e) : Passed e.chars := by
  induction h with
  | @path head rest hhead hrest =>
    rw [chars]
    refine hhead.passed.append ?_
    induction rest with
    | nil => exact .nil
    | cons name rest ih =>
      rw [List.forall_mem_cons] at hrest
      rw [List.flatMap_cons]
      exact (Passed.cons (by decide) hrest.1.passed).append (ih hrest.2)
  | number h =>
    rw [chars]
    exact .of_not_mem_marks h.not_mem_marks
  | str => exact .quoted _
  | bool b => cases b <;> exact .plain (by decide)
  | null => exact .plain (by decide)
  | @placeholder name h =>
    have hname : Passed name.toList :=
      .of_not_mem_marks fun c hc => not_mem_marks (p := Text.isNameChar) (by decide) (h.2 c hc)
    rw [chars]
    exact (Passed.cons (by decide) hname).append (.plain (by decide))
  | callAll hname =>
    rw [chars, List.append_assoc]
    exact hname.passed.append (.parenthesized (.plain (by decide)))
  | call hname _ ih =>
    rw [chars, List.append_assoc]
    exact hname.passed.append (passed_items ih).parenthesized
  | binary op _ _ ihl ihr =>
    have hop : Passed [' ', op.symbol, ' '] := by cases op <;> exact .plain (by decide)
    rw [chars]
    exact (ihl.enclosed _).append (hop.append (ihr.enclosed _))
  | compare op _ _ ihl ihr =>
    have hop : Passed (' ' :: op.symbols ++ [' ']) := by cases op <;> exact .plain (by decide)
    rw [chars_compare]
    exact ((ihl.enclosed _).append hop).append (ihr.enclosed _)
  | logical op _ _ ih =>
    have hop : Passed op.separator := by cases op <;> exact .plain (by decide)
    rw [chars]
    exact hop.intercalate (passed_charsAll ih _)
  | unary op _ ih =>
    cases op with
    | not =>
      rw [chars]
      exact (Passed.plain (w := ['n', 'o', 't', ' ']) (by decide)).append (ih.enclosed _)
    | neg | pos =>
      rw [chars]
      exact .cons (by decide) (ih.enclosed _)
  | tuple _ ih =>
    rw [chars_tuple]
    exact (passed_tupleBody ih).parenthesized
  | list _ ih =>
    rw [chars]
    exact (Passed.cons (by decide) (passed_items ih)).append (.plain (by decide))

theorem starts_of_not_mem_marks {w : List Char} (hne : w ≠ []) (hw : ∀ c ∈ w, c ∉ marks)
    (t : List Char) : (w ++ t).head? ≠ some '(' := by
  obtain ⟨c, w, rfl⟩ := List.exists_cons_of_ne_nil hne
  intro hopen
  obtain rfl : c = '(' := by simpa using hopen
  exact hw '(' (by simp) (by decide)

theorem IsName.starts {name : String} (h : IsName name) (t : List Char) :
    (name.toList ++ t).head? ≠ some '(' :=
  starts_of_not_mem_marks h.1 h.not_mem_marks t

/-- What an operator follows goes on where its first operand is closed, be it in parentheses of its
own or not. -/
theorem closes_operand {e : Expr} (h : Readable e)
    (halone : e.chars.head? = some '(' →
      ∃ rest, Closes e.chars rest ∧ (rest = [] → ∃ items, e = .tuple items))
    {n : Nat} {more : List Char} (hmore : more ≠ [])
    (hopen : (charsAt n e ++ more).head? = some '(') :
    ∃ rest, Closes (charsAt n e ++ more) rest ∧ rest ≠ [] := by
  obtain ⟨c, cs, hcs, -⟩ := (h.readsBack.1.solid_charsAt n).starts
  have hfirst : (charsAt n e).head? = some '(' := by
    rw [hcs] at hopen ⊢
    exact hopen
  have hclosed : ∃ rest, Closes (charsAt n e) rest := by
    by_cases htier : n ≤ e.tier
    · rw [charsAt_of_le htier] at hfirst ⊢
      exact (halone hfirst).imp fun _ hrest => hrest.1
    · rw [charsAt_of_lt (by omega)]
      exact ⟨[], e.chars, h.passed, rfl⟩
  obtain ⟨rest, hrest⟩ := hclosed
  exact ⟨rest ++ more, hrest.append more, by simp [hmore]⟩

/-- The first parenthesis of an expression is closed, and not at the end unless the whole is a
tuple. -/
theorem Readable.closes {e : Expr} (h : Readable e) (hopen : e.chars.head? = some '(') :
    ∃ rest, Closes e.chars rest ∧ (rest = [] → ∃ items, e = .tuple items) := by
  -- only a tuple and what starts with an operand can start with a parenthesis
  induction h with
  | path hhead _ =>
    rw [chars] at hopen
    exact absurd hopen (hhead.starts _)
  | @number text h =>
    have hne : text.toList ≠ [] := by
      obtain ⟨whole, part, power, hw, hwhole, -, -⟩ := h
      simp [hw, hwhole.1]
    have hstart := starts_of_not_mem_marks hne h.not_mem_marks []
    rw [List.append_nil] at hstart
    rw [chars] at hopen
    exact absurd hopen hstart
  | str => simp [chars] at hopen
  | bool b => cases b <;> simp [chars] at hopen
  | null => simp [chars] at hopen
  | placeholder => simp [chars] at hopen
  | callAll hname | call hname _ _ =>
    rw [chars, List.append_assoc] at hopen
    exact absurd hopen (hname.starts _)
  | binary op hl hr ihl _ =>
    rw [chars] at hopen ⊢
    obtain ⟨rest, hrest, hne⟩ := closes_operand hl ihl (by simp) hopen
    exact ⟨rest, hrest, fun hnil => absurd hnil hne⟩
  | compare op hl hr ihl _ =>
    rw [chars_compare, List.append_assoc] at hopen ⊢
    obtain ⟨rest, hrest, hne⟩ := closes_operand hl ihl (by simp) hopen
    exact ⟨rest, hrest, fun hnil => absurd hnil hne⟩
  | @logical op operands hlength h ih =>
    obtain ⟨e, rest, rfl⟩ := List.exists_cons_of_length_pos (l := operands) (by omega)
    obtain ⟨f, es, rfl⟩ := List.exists_cons_of_length_pos (l := rest) (by simp at hlength; omega)
    have hmore : op.separator ≠ [] := by cases op <;> decide
    rw [chars, charsAll_eq, List.map_cons, List.map_cons, List.intercalate_cons_cons,
      List.append_assoc] at hopen ⊢
    obtain ⟨rest, hrest, hne⟩ := closes_operand (h e (by simp)) (ih e (by simp))
      (by simp [hmore]) hopen
    exact ⟨rest, hrest, fun hnil => absurd hnil hne⟩
  | unary op _ _ => cases op <;> simp [chars] at hopen
  | @tuple items h _ =>
    have hbody := passed_tupleBody fun e he => (h e he).passed
    exact ⟨[], ⟨tupleBody items, hbody, chars_tuple items⟩, fun _ => ⟨items, rfl⟩⟩
  | list => simp [chars] at hopen

end PathQuery.Expr
