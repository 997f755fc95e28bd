import PathQuery.Proofs.Expr.Spelling
import PathQuery.Proofs.Sql.Composed
import PathQuery.Proofs.Sql.Outermost
import PathQuery.Proofs.Steps
import PathQuery.Proofs.Text.Joined

/-!
Where column lists are split. A list that is written from its columns is read back if and only if
each expression is passed as one part. What the grammar accepts is passed, with its brackets,
quotes and commas, unless a string holds a quote of its own kind after a backslash.
-/

namespace PathQuery.Column

open PathQuery.Expr (marks brackets Spans)

/-! ### The state of the scan -/

/-- The depth and the quote after a character, where it does not end the part. -/
def step? (s : Nat × Quote) (c : Char) : Option (Nat × Quote) :=
  if s.2.isNone && opens c then some (s.1 + 1, none)
  else if s.2.isNone && closes c then if s.1 == 0 then none else some (s.1 - 1, none)
  else if s.2.isNone && s.1 == 0 && c == ',' then none
  else some (s.1, quoteAfter s.2 c)

def stateAfter (s : Nat × Quote) : List Char → Option (Nat × Quote)
  | [] => some s
  | c :: cs => (step? s c).bind fun s => stateAfter s cs

theorem stateAfter_append (s : Nat × Quote) (u v : List Char) :
    stateAfter s (u ++ v) = (stateAfter s u).bind fun s => stateAfter s v := by
  induction u generalizing s with
  | nil => rfl
  | cons c u ih =>
    simp only [List.cons_append, stateAfter, ih, Option.bind_assoc]

theorem splitFrom_step {depth : Nat} {quote : Quote} {c : Char} {s : Nat × Quote}
    (h : step? (depth, quote) c = some s) (part cs : List Char) :
    splitFrom depth quote part (c :: cs) = splitFrom s.1 s.2 (c :: part) cs := by
  grind [splitFrom, step?]

/-- A part ends at a comma outside brackets and strings; otherwise no bracket is open that the
character could close. -/
theorem splitFrom_stop {depth : Nat} {quote : Quote} {c : Char}
    (h : step? (depth, quote) c = none) (part cs : List Char) :
    depth = 0 ∧ quote = none ∧ splitFrom depth quote part (c :: cs) =
      if c = ',' then (split? cs).map (part.reverse :: ·) else none := by
  cases quote with
  | none => grind [splitFrom, step?, split?, closes]
  | some q => simp [step?] at h

theorem splitFrom_append {s t : Nat × Quote} {w : List Char} (h : stateAfter s w = some t)
    (part cs : List Char) :
    splitFrom s.1 s.2 part (w ++ cs) = splitFrom t.1 t.2 (w.reverse ++ part) cs := by
  induction w generalizing s part with
  | nil =>
    cases h
    rfl
  | cons c w ih =>
    obtain ⟨mid, hstep, hafter⟩ := Option.bind_eq_some_iff.mp h
    rw [List.cons_append, splitFrom_step hstep, ih hafter, List.reverse_cons, List.append_assoc]
    rfl

/-- The first part is passed, and it ends with the text or at a comma. -/
theorem splitFrom_eq_cons {s : Nat × Quote} {part cs first : List Char} {more : List (List Char)}
    (h : splitFrom s.1 s.2 part cs = some (first :: more)) :
    ∃ w, first = part.reverse ++ w ∧ stateAfter s w = some (0, none) ∧
      (cs = w ∧ more = [] ∨ ∃ rest, cs = w ++ ',' :: rest ∧ split? rest = some more) := by
  induction cs generalizing s part with
  | nil =>
    simp only [splitFrom, Option.ite_none_right_eq_some, Bool.and_eq_true, beq_iff_eq,
      Option.isNone_iff_eq_none, Option.some.injEq, List.cons.injEq] at h
    obtain ⟨⟨hdepth, hquote⟩, hfirst, hmore⟩ := h
    refine ⟨[], by simpa using hfirst.symm, ?_, .inl ⟨rfl, hmore.symm⟩⟩
    rw [stateAfter, ← hdepth, ← hquote]
  | cons c cs ih =>
    cases hstep : step? s c with
    | some t =>
      rw [splitFrom_step hstep] at h
      obtain ⟨w, hfirst, hafter, hend⟩ := ih h
      refine ⟨c :: w, by simpa using hfirst, by simpa [stateAfter, hstep] using hafter, ?_⟩
      rcases hend with ⟨rfl, hmore⟩ | ⟨rest, rfl, hmore⟩
      · exact .inl ⟨rfl, hmore⟩
      · exact .inr ⟨rest, rfl, hmore⟩
    | none =>
      obtain ⟨hdepth, hquote, hsplit⟩ := splitFrom_stop hstep part cs
      rw [hsplit, Option.ite_none_right_eq_some] at h
      obtain ⟨rfl, h⟩ := h
      obtain ⟨parts, hparts, hcons⟩ := Option.map_eq_some_iff.mp h
      cases hcons
      refine ⟨[], by simp, ?_, .inr ⟨cs, rfl, hparts⟩⟩
      rw [stateAfter, ← hdepth, ← hquote]

theorem split?_eq_self_iff {w : List Char} :
    split? w = some [w] ↔ stateAfter (0, none) w = some (0, none) := by
  constructor
  · intro h
    obtain ⟨v, hv, hafter, hend⟩ := splitFrom_eq_cons (s := (0, none)) h
    rw [List.reverse_nil, List.nil_append] at hv
    rwa [hv]
  · intro h
    have happend := splitFrom_append h [] []
    rw [List.append_nil, List.append_nil] at happend
    rw [split?, happend]
    simp [splitFrom]

/-- A part that is passed, and another after the comma. -/
theorem split?_append {w : List Char} (h : stateAfter (0, none) w = some (0, none))
    (cs : List Char) : split? (w ++ ',' :: cs) = (split? cs).map (w :: ·) := by
  have happend := splitFrom_append h [] (',' :: cs)
  rw [split?, happend, (splitFrom_stop (by decide) _ cs).2.2, if_pos rfl, List.append_nil,
    List.reverse_reverse]

/-! ### Texts that are passed -/

theorem quoteAfter_of_not_mem {quote : Quote} {c : Char} (hquote : ∀ q ∈ quote, q ∈ marks)
    (hc : c ∉ marks) : quoteAfter quote c = quote := by
  cases quote with
  | none =>
    have hne : c ≠ '\'' ∧ c ≠ '"' := by
      constructor <;> (rintro rfl; exact hc (by decide))
    simp [quoteAfter, hne]
  | some q =>
    have hne : c ≠ q := by
      rintro rfl
      exact hc (hquote c rfl)
    simp [quoteAfter, hne]

theorem stateAfter_plain {s : Nat × Quote} {w : List Char} (hs : ∀ q ∈ s.2, q ∈ marks)
    (hw : ∀ c ∈ w, c ∉ marks) : stateAfter s w = some s := by
  induction w with
  | nil => rfl
  | cons c w ih =>
    rw [List.forall_mem_cons] at hw
    have hc : opens c = false ∧ closes c = false ∧ c ≠ ',' := by
      have hmarks := hw.1
      simp only [marks, List.mem_cons, List.not_mem_nil, or_false, not_or] at hmarks
      simp [opens, closes, hmarks]
    have hstep : step? s c = some s := by
      simp [step?, hc, quoteAfter_of_not_mem hs hw.1]
    rw [stateAfter, hstep, Option.bind_some, ih hw.2]

theorem step?_quote {s t : Nat × Quote} {c : Char} (h : step? s c = some t)
    (hs : ∀ q ∈ s.2, q ∈ marks) : ∀ q ∈ t.2, q ∈ marks := by
  have hquote : ∀ q ∈ quoteAfter s.2 c, q ∈ marks := by
    intro q hq
    unfold quoteAfter at hq
    split at hq
    · next q' hsome =>
      split at hq
      · cases hq
      · exact hs q (hsome ▸ hq)
    · split at hq
      · next hc =>
        cases hq
        rw [Bool.or_eq_true, beq_iff_eq, beq_iff_eq] at hc
        rcases hc with rfl | rfl <;> decide
      · cases hq
  grind [step?]

theorem stateAfter_quote {s t : Nat × Quote} {w : List Char} (h : stateAfter s w = some t)
    (hs : ∀ q ∈ s.2, q ∈ marks) : ∀ q ∈ t.2, q ∈ marks := by
  induction w generalizing s with
  | nil =>
    cases h
    exact hs
  | cons c w ih =>
    obtain ⟨mid, hstep, hafter⟩ := Option.bind_eq_some_iff.mp h
    exact ih hafter (step?_quote hstep hs)

/-- Plain text at the end does not matter. -/
theorem stateAfter_of_append_plain {u v : List Char} (hv : ∀ c ∈ v, c ∉ marks)
    (h : stateAfter (0, none) (u ++ v) = some (0, none)) :
    stateAfter (0, none) u = some (0, none) := by
  rw [stateAfter_append] at h
  obtain ⟨s, hs, hafter⟩ := Option.bind_eq_some_iff.mp h
  rw [stateAfter_plain (stateAfter_quote hs (by simp)) hv] at hafter
  rw [hs, hafter]

/-! ### Expressions -/

/-- Whether a string of the text holds a quote of its own kind after a backslash. -/
def escapesQuote : Quote → List Char → Bool
  | _, [] => false
  | none, c :: cs => escapesQuote (quoteAfter none c) cs
  | some q, c :: cs =>
    if c == '\\' && Expr.escapes q cs then
      match cs with
      | d :: cs => d == q || escapesQuote (some q) cs
      | [] => false
    else escapesQuote (quoteAfter (some q) c) cs

theorem escapesQuote_escaped {q c d : Char} {cs : List Char}
    (h : (c == '\\' && Expr.escapes q (d :: cs)) = true) :
    escapesQuote (some q) (c :: d :: cs) = (d == q || escapesQuote (some q) cs) := by
  rw [escapesQuote, if_pos h]

theorem escapesQuote_unescaped {q c : Char} {cs : List Char}
    (h : (c == '\\' && Expr.escapes q cs) ≠ true) :
    escapesQuote (some q) (c :: cs) = escapesQuote (if c = q then none else some q) cs := by
  cases cs with
  | nil => simp [escapesQuote, Expr.escapes]
  | cons d cs =>
    rw [escapesQuote, if_neg h]
    simp [quoteAfter]

theorem stateAfter_inside (depth : Nat) (q c : Char) (cs : List Char) :
    stateAfter (depth, some q) (c :: cs) =
      stateAfter (depth, if c = q then none else some q) cs := by
  simp [stateAfter, step?, quoteAfter]

theorem stateAfter_opening {q : Char} (hq : q = '\'' ∨ q = '"') (depth : Nat) (cs : List Char) :
    stateAfter (depth, none) (q :: cs) = stateAfter (depth, some q) cs ∧
      escapesQuote none (q :: cs) = escapesQuote (some q) cs := by
  rcases hq with rfl | rfl <;> simp [stateAfter, step?, escapesQuote, quoteAfter, opens, closes]

/-- The scan leaves a string where reading does, unless a quote in it is escaped. -/
theorem stateAfter_quotedText? {q : Char} (hq : q = '\'' ∨ q = '"') (depth : Nat)
    {cs text rest : List Char} (h : Expr.quotedText? q cs = some (text, rest))
    (hescape : escapesQuote (some q) cs = false) :
    stateAfter (depth, some q) cs = stateAfter (depth, none) rest ∧
      escapesQuote none rest = false := by
  have hslash (cs : List Char) : (q == '\\' && Expr.escapes q cs) ≠ true := by
    rcases hq with rfl | rfl <;> simp
  have hopen := stateAfter_opening hq depth
  fun_induction Expr.quotedText? q cs generalizing text rest with
  | case1 => cases h
  | case2 c hc d after hd ih =>
    obtain ⟨⟨_, _⟩, htext, hreply⟩ := Option.map_eq_some_iff.mp h
    cases hreply
    cases beq_iff_eq.mp hc
    cases beq_iff_eq.mp hd
    rw [escapesQuote_unescaped (hslash _), if_pos rfl, (hopen after).2] at hescape
    rw [stateAfter_inside, if_pos rfl, (hopen after).1]
    exact ih htext hescape
  | case3 c hc d after hd =>
    cases h
    cases beq_iff_eq.mp hc
    rw [escapesQuote_unescaped (hslash _), if_pos rfl] at hescape
    rw [stateAfter_inside, if_pos rfl]
    exact ⟨rfl, hescape⟩
  | case4 c hc =>
    cases h
    cases beq_iff_eq.mp hc
    rw [stateAfter_inside, if_pos rfl]
    exact ⟨rfl, rfl⟩
  | case5 c hc d after hescapes ih =>
    obtain ⟨⟨_, _⟩, htext, hreply⟩ := Option.map_eq_some_iff.mp h
    cases hreply
    rw [escapesQuote_escaped hescapes, Bool.or_eq_false_iff, beq_eq_false_iff_ne] at hescape
    rw [beq_iff_eq] at hc
    rw [stateAfter_inside, if_neg hc, stateAfter_inside, if_neg hescape.1]
    exact ih htext hescape.2
  | case6 c hc hescapes => cases h
  | case7 c after hc hescapes ih =>
    obtain ⟨⟨_, _⟩, htext, hreply⟩ := Option.map_eq_some_iff.mp h
    cases hreply
    rw [beq_iff_eq] at hc
    rw [escapesQuote_unescaped hescapes, if_neg hc] at hescape
    rw [stateAfter_inside, if_neg hc]
    exact ih htext hescape

theorem escapesQuote_plain {w : List Char} (hw : ∀ c ∈ w, c ∉ marks) (cs : List Char) :
    escapesQuote none (w ++ cs) = escapesQuote none cs := by
  induction w with
  | nil => rfl
  | cons c w ih =>
    rw [List.forall_mem_cons] at hw
    rw [List.cons_append, escapesQuote, quoteAfter_of_not_mem (by simp) hw.1, ih hw.2]

/-- What is read as an expression is passed, if no quote in it is escaped. -/
theorem stateAfter_spans {inside : Bool} {cs rest : List Char} {ts : List String} {depth : Nat}
    (h : Spans inside cs rest ts) (hdepth : inside → 0 < depth)
    (hescape : escapesQuote none cs = false) :
    stateAfter (depth, none) cs = stateAfter (depth, none) rest ∧
      escapesQuote none rest = false := by
  have hplain {w : List Char} (hw : ∀ c ∈ w, c ∉ marks) (depth : Nat) (cs : List Char) :
      stateAfter (depth, none) (w ++ cs) = stateAfter (depth, none) cs := by
    rw [stateAfter_append, stateAfter_plain (by simp) hw, Option.bind_some]
  induction h generalizing depth with
  | done => exact ⟨rfl, hescape⟩
  | @char _ c cs _ _ hc _ ih =>
    have hw : ∀ x ∈ [c], x ∉ marks := by simpa using hc
    rw [← List.singleton_append, escapesQuote_plain hw] at hescape
    rw [← List.singleton_append, hplain hw]
    exact ih hdepth hescape
  | comma _ ih =>
    have hpos := hdepth rfl
    have hstep : step? (depth, none) ',' = some (depth, none) := by
      simp [step?, opens, closes, quoteAfter, hpos.ne']
    rw [stateAfter, hstep]
    exact ih hdepth hescape
  | @bracket _ left right _ mid _ _ _ hpair _ _ ihbody ih =>
    -- the body is one level down, where commas do not part
    have hleft (cs : List Char) :
        stateAfter (depth, none) (left :: cs) = stateAfter (depth + 1, none) cs ∧
          escapesQuote none (left :: cs) = escapesQuote none cs := by
      simp only [brackets, List.mem_cons, Prod.mk.injEq, List.not_mem_nil, or_false] at hpair
      rcases hpair with ⟨rfl, rfl⟩ | ⟨rfl, rfl⟩ <;> exact ⟨rfl, rfl⟩
    have hright (cs : List Char) :
        stateAfter (depth + 1, none) (right :: cs) = stateAfter (depth, none) cs ∧
          escapesQuote none (right :: cs) = escapesQuote none cs := by
      simp only [brackets, List.mem_cons, Prod.mk.injEq, List.not_mem_nil, or_false] at hpair
      rcases hpair with ⟨rfl, rfl⟩ | ⟨rfl, rfl⟩ <;> exact ⟨rfl, rfl⟩
    rw [(hleft _).2] at hescape
    obtain ⟨hbody, hmid⟩ := ihbody (fun _ => Nat.succ_pos depth) hescape
    rw [(hright _).2] at hmid
    rw [(hleft _).1, hbody, (hright _).1]
    exact ih hdepth hmid
  | @braced _ name cs _ _ hname _ ih =>
    have hw : ∀ c ∈ name, c ∉ marks :=
      fun c hc => Expr.not_mem_marks (p := Text.isNameChar) (by decide) (hname.2 c hc)
    have hbraces : stateAfter (depth, none) ('\x7b' :: name ++ '\x7d' :: cs) =
        stateAfter (depth, none) cs := by
      rw [List.cons_append, stateAfter]
      exact (hplain hw (depth + 1) _).trans rfl
    have hclean : escapesQuote none ('\x7b' :: name ++ '\x7d' :: cs) = escapesQuote none cs := by
      rw [List.cons_append, escapesQuote]
      exact (escapesQuote_plain hw _).trans rfl
    rw [hclean] at hescape
    rw [hbraces]
    exact ih hdepth hescape
  | @quoted _ q cs mid _ _ _ hq htext _ ih =>
    have hopen := stateAfter_opening hq depth cs
    rw [hopen.2] at hescape
    obtain ⟨hpass, hmid⟩ := stateAfter_quotedText? hq depth htext hescape
    rw [hopen.1, hpass]
    exact ih hdepth hmid

/-! ### Blanks at the edges -/

/-- A text that starts and ends with no blank. -/
structure Firm (cs : List Char) : Prop where
  ne_nil : cs ≠ []
  head : ∀ c ∈ cs.head?, Text.isBlank c = false
  last : ∀ c ∈ cs.getLast?, Text.isBlank c = false

theorem firm_trimChars {cs : List Char} (hne : Text.trimChars cs ≠ []) :
    Firm (Text.trimChars cs) := by
  refine ⟨hne, ?_, fun c hc => Expr.not_isBlank_getLast_trimChars hc⟩
  have hstart : Text.trimChars cs <+: Text.trimStart cs := by
    rw [← List.reverse_suffix, Expr.reverse_trimChars]
    exact List.dropWhile_suffix Text.isBlank
  intro c hc
  obtain ⟨post, hpost⟩ := hstart
  have hhead : (Text.trimChars cs ++ post).head? = (Text.trimChars cs).head? :=
    List.head?_append_of_ne_nil _ hne
  rw [← hhead, hpost] at hc
  exact Expr.not_isBlank_head_dropWhile hc

theorem Firm.append {u v : List Char} (hu : Firm u) (mid : List Char) (hv : Firm v) :
    Firm (u ++ (mid ++ v)) := by
  refine ⟨by simp [hu.ne_nil], ?_, ?_⟩
  · rw [List.head?_append_of_ne_nil _ hu.ne_nil]
    exact hu.head
  · rw [List.getLast?_append_of_ne_nil _ (by simp [hv.ne_nil]),
      List.getLast?_append_of_ne_nil _ hv.ne_nil]
    exact hv.last

theorem Firm.trimChars {cs : List Char} (h : Firm cs) (pre post : List Char)
    (hpre : ∀ c ∈ pre, Text.isBlank c) (hpost : ∀ c ∈ post, Text.isBlank c) :
    Text.trimChars (pre ++ (cs ++ post)) = cs := by
  have hstop {w t : List Char} (hne : w ≠ []) (hw : ∀ c ∈ w.head?, Text.isBlank c = false) :
      (w ++ t).dropWhile Text.isBlank = w ++ t := by
    obtain ⟨c, w, rfl⟩ := List.exists_cons_of_ne_nil hne
    rw [List.cons_append, List.dropWhile_cons_of_neg (by simp [hw c rfl])]
  rw [Text.trimChars, Text.trimStart, List.dropWhile_append_of_pos hpre, hstop h.ne_nil h.head,
    Text.trimEnd, List.reverse_append, List.dropWhile_append_of_pos (by simpa using hpost)]
  have hback := hstop (t := []) (by simpa using h.ne_nil : cs.reverse ≠ [])
    (by simpa [List.head?_reverse] using h.last)
  rw [List.append_nil] at hback
  rw [hback, List.reverse_reverse]

theorem isBlank_space : ∀ c ∈ [' '], Text.isBlank c :=
  List.forall_mem_singleton.mpr rfl

/-- Blanks before a text that starts with none can be told from it. -/
theorem blanks_append_inj {u v x y : List Char} (hu : ∀ c ∈ u, Text.isBlank c)
    (hv : ∀ c ∈ v, Text.isBlank c) (hx : ∀ c ∈ x.head?, Text.isBlank c = false)
    (hy : ∀ c ∈ y.head?, Text.isBlank c = false) (h : u ++ x = v ++ y) : u = v ∧ x = y := by
  obtain ⟨htake, hdrop⟩ := Lists.span_append hu hx
  obtain ⟨htake', hdrop'⟩ := Lists.span_append hv hy
  rw [h] at htake hdrop
  exact ⟨htake.symm.trans htake', hdrop.symm.trans hdrop'⟩

/-! ### Aliases -/

theorem isBlank_of_isWordChar {c : Char} (h : Text.isWordChar c) : Text.isBlank c = false := by
  by_contra hblank
  have hstop := Expr.isStop_of_isBlank (Bool.not_eq_false _ ▸ hblank)
  rw [Expr.not_class_of_isStop (p := Text.isWordChar) (by decide +kernel) hstop] at h
  cases h

theorem firm_of_isWord {name : String} (h : Sql.IsWord name) : Firm name.toList :=
  ⟨h.1, fun _ hx => isBlank_of_isWordChar (h.2 _ (List.mem_of_mem_head? hx)),
    fun _ hx => isBlank_of_isWordChar (h.2 _ (List.mem_of_mem_getLast? hx))⟩

/-- An expression, the word `as` between blanks and an alias. -/
structure Aliased (cs expression name : List Char) : Prop where
  text : ∃ g a s g', cs = expression ++ (g ++ (a :: s :: (g' ++ name))) ∧ isAliasWord a s ∧
    (g ≠ [] ∧ ∀ c ∈ g, Text.isBlank c) ∧ (g' ≠ [] ∧ ∀ c ∈ g', Text.isBlank c)
  ends : expression ≠ [] ∧ ∀ c ∈ expression.getLast?, Text.isBlank c = false
  word : name ≠ [] ∧ ∀ c ∈ name, Text.isWordChar c

/-- What is read from the end as an alias has the parts of one. -/
theorem exists_aliased {cs x name : List Char} (h : aliased? cs = some (x, name)) :
    ∃ expression, Aliased cs expression name ∧ Text.trimChars expression = x := by
  simp only [aliased?, Lists.drop_length_takeWhile] at h
  have hword := List.takeWhile_append_dropWhile (p := Text.isWordChar) (l := cs.reverse)
  generalize hrun : cs.reverse.takeWhile Text.isWordChar = word at h hword
  generalize cs.reverse.dropWhile Text.isWordChar = back at h hword
  split at h
  · next c g' s a back' hg' hback' =>
    split at h
    · next d g e before hg hbefore =>
      rw [Option.ite_none_right_eq_some, Bool.and_eq_true] at h
      obtain ⟨⟨hne, has⟩, hsome⟩ := h
      cases hsome
      have hgap' := List.takeWhile_append_dropWhile (p := Text.isBlank) (l := back)
      have hgap := List.takeWhile_append_dropWhile (p := Text.isBlank) (l := back')
      rw [hg', hback'] at hgap'
      rw [hg, hbefore] at hgap
      refine ⟨(e :: before).reverse, ⟨⟨(d :: g).reverse, a, s, (c :: g').reverse, ?_, has, ?_, ?_⟩,
        ⟨by simp, ?_⟩, ⟨by simpa using hne, ?_⟩⟩, rfl⟩
      · rw [← List.reverse_inj, ← hword, ← hgap', ← hgap]
        simp
      · refine ⟨by simp, fun x hx => ?_⟩
        rw [List.mem_reverse, ← hg] at hx
        exact List.mem_takeWhile_imp hx
      · refine ⟨by simp, fun x hx => ?_⟩
        rw [List.mem_reverse, ← hg'] at hx
        exact List.mem_takeWhile_imp hx
      · intro x hx
        rw [List.getLast?_reverse, ← hbefore] at hx
        exact Expr.not_isBlank_head_dropWhile hx
      · intro x hx
        rw [List.mem_reverse, ← hrun] at hx
        exact List.mem_takeWhile_imp hx
    · cases h
  · cases h

theorem Aliased.aliased?_eq {cs y name : List Char} (h : Aliased cs y name) :
    aliased? cs = some (Text.trimChars y, name) := by
  obtain ⟨⟨g, a, s, g', rfl, has, ⟨hg, hgap⟩, ⟨hg', hgap'⟩⟩, ⟨hy, hlast⟩, ⟨hne, hword⟩⟩ := h
  have hs : Text.isBlank s = false := by
    simp only [isAliasWord, Bool.and_eq_true, Bool.or_eq_true, beq_iff_eq] at has
    rcases has.2 with (rfl | rfl) | rfl <;> decide
  have hback : (y ++ (g ++ (a :: s :: (g' ++ name)))).reverse =
      name.reverse ++ (g'.reverse ++ (s :: a :: (g.reverse ++ y.reverse))) := by simp
  have hgapHead : ∀ c ∈ (g'.reverse ++ (s :: a :: (g.reverse ++ y.reverse))).head?,
      Text.isWordChar c = false := by
    intro c hc
    rw [List.head?_append_of_ne_nil _ (by simpa using hg')] at hc
    have hblank := hgap' c (List.mem_reverse.mp (List.mem_of_mem_head? hc))
    by_contra hclass
    rw [isBlank_of_isWordChar (Bool.not_eq_false _ ▸ hclass)] at hblank
    cases hblank
  -- the scan from the end stops at the alias, at the blanks before it and at those before the word
  obtain ⟨hw, hw'⟩ := Lists.span_append (p := Text.isWordChar) (u := name.reverse)
    (by simpa using hword) hgapHead
  obtain ⟨hb, hb'⟩ := Lists.span_append (p := Text.isBlank) (u := g'.reverse)
    (v := s :: a :: (g.reverse ++ y.reverse)) (by simpa using hgap') (by simpa using hs)
  obtain ⟨hc, hc'⟩ := Lists.span_append (p := Text.isBlank) (u := g.reverse) (v := y.reverse)
    (by simpa using hgap) (by simpa [List.head?_reverse] using hlast)
  obtain ⟨c', rest', hrest'⟩ := List.exists_cons_of_ne_nil (by simpa using hg' : g'.reverse ≠ [])
  obtain ⟨c, rest, hrest⟩ := List.exists_cons_of_ne_nil (by simpa using hg : g.reverse ≠ [])
  obtain ⟨e, before, hbefore⟩ := List.exists_cons_of_ne_nil (by simpa using hy : y.reverse ≠ [])
  simp only [aliased?, Lists.drop_length_takeWhile]
  rw [hback, hw, hw', hb, hb', hrest']
  dsimp only
  rw [hc, hc', hrest, hbefore]
  dsimp only
  rw [if_pos (by simpa [has] using hne), ← hbefore, List.reverse_reverse, List.reverse_reverse]

theorem aliased?_eq_some_iff {cs x name : List Char} : aliased? cs = some (x, name) ↔
    ∃ expression, Aliased cs expression name ∧ Text.trimChars expression = x := by
  refine ⟨exists_aliased, ?_⟩
  rintro ⟨expression, haliased, rfl⟩
  exact haliased.aliased?_eq

/-! ### Joined texts -/

section Joined

variable {texts : List String} {lead : List Char}

theorem passed_blanks (hlead : ∀ x ∈ lead, Text.isBlank x) (w : List Char) :
    stateAfter (0, none) (lead ++ w) = stateAfter (0, none) w := by
  have hplain : ∀ x ∈ lead, x ∉ marks :=
    fun x hx => Expr.not_mem_marks (p := Text.isBlank) (by decide) (hlead x hx)
  rw [stateAfter_append, stateAfter_plain (by simp) hplain, Option.bind_some]

/-- Texts that are passed are told apart, each with the blanks before it. -/
theorem split?_join (hne : texts ≠ []) (hfirm : ∀ t ∈ texts, Firm t.toList)
    (hpass : ∀ t ∈ texts, stateAfter (0, none) t.toList = some (0, none))
    (hlead : ∀ x ∈ lead, Text.isBlank x) :
    ∃ parts, split? (lead ++ (Text.join ", " texts).toList) = some parts ∧
      List.Forall₂ (fun part t => Text.trimChars part = t.toList) parts texts := by
  induction texts generalizing lead with
  | nil => exact absurd rfl hne
  | cons t more ih =>
    rw [List.forall_mem_cons] at hfirm hpass
    have hfirst := (passed_blanks hlead t.toList).trans hpass.1
    have htrim := hfirm.1.trimChars lead [] hlead (by simp)
    rw [List.append_nil] at htrim
    by_cases hmore : more = []
    · subst hmore
      exact ⟨[lead ++ t.toList], split?_eq_self_iff.mpr hfirst, .cons htrim .nil⟩
    · obtain ⟨parts, hsplit, hparts⟩ := ih hmore hfirm.2 hpass.2 isBlank_space
      refine ⟨(lead ++ t.toList) :: parts, ?_, .cons htrim hparts⟩
      have hjoin : lead ++ (Text.join ", " (t :: more)).toList =
          (lead ++ t.toList) ++ ',' :: ([' '] ++ (Text.join ", " more).toList) := by
        simp [Text.join_cons t hmore]
      rw [hjoin, split?_append hfirst, hsplit]
      rfl

/-- Texts without blanks and parentheses around them have none around the whole. -/
theorem parseList_join (hne : texts ≠ []) (hfirm : ∀ t ∈ texts, Firm t.toList)
    (hclose : ∀ t ∈ texts, ∀ c ∈ t.toList.getLast?, c ≠ ')') :
    parseList (Text.join ", " texts) =
      match split? (Text.join ", " texts).toList with
      | none => .error (.unbalanced (Text.join ", " texts))
      | some parts => ofParts [] parts := by
  have hends : ∀ t ∈ texts, t.toList ≠ [] := fun t ht => (hfirm t ht).ne_nil
  have hwhole : Firm (Text.join ", " texts).toList := by
    refine ⟨?_, ?_, Text.getLast?_join hends fun t ht => (hfirm t ht).last⟩
    · have hjoin : Text.join ", " texts ≠ "" :=
        Text.join_ne_empty hne fun t ht hempty => hends t ht (by simp [hempty])
      simpa using hjoin
    · obtain ⟨t, more, rfl⟩ := List.exists_cons_of_ne_nil hne
      by_cases hmore : more = []
      · subst hmore
        exact (hfirm t (by simp)).head
      · rw [Text.join_cons t hmore, String.append_assoc, String.toList_append,
          List.head?_append_of_ne_nil _ (hends t (by simp))]
        exact (hfirm t (by simp)).head
  have htrim := hwhole.trimChars [] [] (by simp) (by simp)
  rw [List.nil_append, List.append_nil] at htrim
  have houter : stripOuter (Text.join ", " texts).toList = .ok (Text.join ", " texts).toList := by
    have hlast : (Text.join ", " texts).toList.getLast? ≠ some ')' :=
      fun h => Text.getLast?_join hends hclose ')' h rfl
    simp [stripOuter, hlast]
  rw [parseList, htrim, houter]
  dsimp only
  cases split? (Text.join ", " texts).toList <;> simp

end Joined

/-! ### Columns as they are written -/

/-- The text of a column with its alias. -/
def written (c : Column) : String :=
  c.expression ++ " as " ++ c.name

theorem toList_written (c : Column) :
    c.written.toList =
      c.expression.toList ++ ([' '] ++ ('a' :: 's' :: ([' '] ++ c.name.toList))) := by
  simp [written]

/-- A column whose expression is trimmed and can be read, with a word as its alias. -/
structure Writable (c : Column) : Prop where
  trimmed : Text.trim c.expression = c.expression
  read : ∃ e, Expr.parse c.expression = .ok e
  named : Sql.IsWord c.name

namespace Writable

variable {c : Column}

theorem trimChars (h : c.Writable) :
    Text.trimChars c.expression.toList = c.expression.toList := by
  rw [← String.toList_ofList (l := Text.trimChars c.expression.toList)]
  exact congrArg String.toList h.trimmed

theorem firm (h : c.Writable) : Firm c.expression.toList := by
  obtain ⟨e, he⟩ := h.read
  have hread := Expr.expression_of_parse he
  rw [← h.trimChars]
  exact firm_trimChars (Expr.ne_nil_of_read Expr.expression_sound hread)

theorem not_comma (h : c.Writable) : ',' ∉ c.expression.toList.head? := by
  obtain ⟨e, he⟩ := h.read
  have hread := Expr.expression_of_parse he
  rw [h.trimChars] at hread
  intro hc
  obtain ⟨rest, hrest⟩ := List.head?_eq_some_iff.mp hc
  rw [hrest] at hread
  exact Expr.fails_iff.mp (Expr.exprAt_fails _ (by decide) rest) _ hread

/-- An expression in which no quote is escaped is one part. -/
theorem passed (h : c.Writable) (hescape : escapesQuote none c.expression.toList = false) :
    stateAfter (0, none) c.expression.toList = some (0, none) := by
  obtain ⟨e, he⟩ := h.read
  have hspans := Expr.parse_spans he
  rw [h.trimChars] at hspans
  exact (stateAfter_spans hspans (by simp) hescape).1

theorem firm_name (h : c.Writable) : Firm c.name.toList :=
  firm_of_isWord h.named

theorem firm_written (h : c.Writable) : Firm c.written.toList := by
  have hfirm := h.firm.append [' ', 'a', 's', ' '] h.firm_name
  rwa [toList_written]

theorem aliased (h : c.Writable) :
    Aliased c.written.toList c.expression.toList c.name.toList :=
  ⟨⟨[' '], 'a', 's', [' '], toList_written c, by decide, ⟨by decide, isBlank_space⟩,
    ⟨by decide, isBlank_space⟩⟩, ⟨h.firm.ne_nil, h.firm.last⟩, h.named⟩

theorem ofPart_written (h : c.Writable) (count : Nat) : ofPart count c.written.toList = c := by
  have hname : aliased? c.written.toList = some (c.expression.toList, c.name.toList) :=
    aliased?_eq_some_iff.mpr ⟨_, h.aliased, h.trimChars⟩
  rw [ofPart, hname]
  simp

/-- The blanks before a column and the alias behind it are passed in any case. -/
theorem passed_written_iff (h : c.Writable) {lead : List Char}
    (hlead : ∀ x ∈ lead, Text.isBlank x) :
    stateAfter (0, none) (lead ++ c.written.toList) = some (0, none) ↔
      stateAfter (0, none) c.expression.toList = some (0, none) := by
  have hpost : ∀ x ∈ [' '] ++ ('a' :: 's' :: ([' '] ++ c.name.toList)), x ∉ marks := by
    have hname : ∀ x ∈ c.name.toList, x ∉ marks :=
      fun x hx => Expr.not_mem_marks (p := Text.isWordChar) (by decide) (h.named.2 x hx)
    intro x hx
    simp only [List.cons_append, List.nil_append, List.mem_cons] at hx
    rcases hx with rfl | rfl | rfl | rfl | hx
    iterate 4 decide
    exact hname x hx
  rw [passed_blanks hlead, toList_written]
  constructor
  · exact stateAfter_of_append_plain hpost
  · intro hpass
    rw [stateAfter_append, hpass, Option.bind_some, stateAfter_plain (by simp) hpost]

end Writable

/-- What follows the first column of a list that goes on with `more`. -/
def continued (more : List Column) : List Char :=
  if more.isEmpty then [] else ',' :: ' ' :: (Text.join ", " (more.map written)).toList

theorem toList_join_written (c : Column) (more : List Column) :
    (Text.join ", " ((c :: more).map written)).toList = c.written.toList ++ continued more := by
  cases more with
  | nil => simp [continued, Text.join]
  | cons d more => simp [continued, Text.join]

variable {columns before : List Column} {parts : List (List Char)} {lead : List Char}

/-- Columns that are passed are told apart, each with the blanks before it. -/
theorem split?_written (hne : columns ≠ []) (hcolumns : ∀ c ∈ columns, c.Writable)
    (hpass : ∀ c ∈ columns, stateAfter (0, none) c.expression.toList = some (0, none))
    (hlead : ∀ x ∈ lead, Text.isBlank x) :
    ∃ parts, split? (lead ++ (Text.join ", " (columns.map written)).toList) = some parts ∧
      List.Forall₂ (fun part c => Text.trimChars part = c.written.toList) parts columns := by
  have hnone : ∀ x ∈ ([] : List Char), Text.isBlank x := by simp
  have hfirm : ∀ text ∈ columns.map written, Firm text.toList :=
    List.forall_mem_map.mpr fun c hc => (hcolumns c hc).firm_written
  have hwhole : ∀ text ∈ columns.map written, stateAfter (0, none) text.toList = some (0, none) :=
    List.forall_mem_map.mpr fun c hc => ((hcolumns c hc).passed_written_iff hnone).mpr (hpass c hc)
  simpa only [List.forall₂_map_right_iff] using split?_join (by simpa using hne) hfirm hwhole hlead

/-- A part that is not blank is a column, unless its alias is taken. -/
theorem ofParts_cons {part : List Char} (hne : Text.trimChars part ≠ []) :
    ofParts before (part :: parts) =
      if (ofPart before.length (Text.trimChars part)).name ∈ before.map (·.name) then
        .error (.duplicateAlias (ofPart before.length (Text.trimChars part)).name)
      else ofParts (before ++ [ofPart before.length (Text.trimChars part)]) parts := by
  simp only [ofParts, List.isEmpty_iff, hne, if_false]
  refine if_congr ?_ rfl rfl
  simp

theorem ofParts_written (hcolumns : ∀ c ∈ columns, c.Writable)
    (hnames : ((before ++ columns).map (·.name)).Nodup)
    (hparts : List.Forall₂ (fun part c => Text.trimChars part = c.written.toList) parts columns) :
    ofParts before parts = .ok (before ++ columns) := by
  induction hparts generalizing before with
  | nil => rw [ofParts, List.append_nil]
  | @cons part c parts more hpart _ ih =>
    rw [List.forall_mem_cons] at hcolumns
    have hnew : c.name ∉ before.map (·.name) := by
      rw [List.map_append, List.nodup_append] at hnames
      exact fun hold => hnames.2.2 c.name hold c.name (by simp) rfl
    rw [ofParts_cons (hpart ▸ hcolumns.1.firm_written.ne_nil), hpart, hcolumns.1.ofPart_written,
      if_neg hnew, ih hcolumns.2 (by simpa using hnames), List.append_assoc, List.singleton_append]

theorem ofParts_prefix {result : List Column} (h : ofParts before parts = .ok result) :
    before <+: result := by
  induction parts generalizing before with
  | nil =>
    cases h
    exact List.prefix_refl _
  | cons part parts ih =>
    simp only [ofParts] at h
    split at h
    · exact ih h
    · split at h
      · cases h
      · exact (List.prefix_append before _).trans (ih h)

theorem head?_continued {more : List Column} : ∀ x ∈ (continued more).head?, x = ',' := by
  cases more with
  | nil => simp [continued]
  | cons d more => simp [continued]

theorem blank_edges {part : List Char} (hne : Text.trimChars part ≠ []) :
    ∃ pre post, part = pre ++ (Text.trimChars part ++ post) ∧ (∀ x ∈ pre, Text.isBlank x) ∧
      ∀ x ∈ post, Text.isBlank x := by
  obtain ⟨pre, post, hpart, hpre, hpost⟩ := Expr.trimChars_edges hne
  refine ⟨pre, post, by rw [← List.append_assoc, ← hpart], fun x hx => ?_, fun x hx => ?_⟩
  · exact List.mem_takeWhile_imp (hpre.symm ▸ hx)
  · rw [← List.mem_reverse, ← hpost] at hx
    exact List.mem_takeWhile_imp hx

/-- A part that is read as the first column of the text ends where that column does. -/
theorem eq_written_of_ofPart {c : Column} (h : c.Writable) (hlead : ∀ x ∈ lead, Text.isBlank x)
    {part rest : List Char} {more : List Column} {count : Nat}
    (hrest : ∀ x ∈ rest.head?, x = ',')
    (htext : lead ++ (c.written.toList ++ continued more) = part ++ rest)
    (hne : Text.trimChars part ≠ []) (hc : ofPart count (Text.trimChars part) = c) :
    part = lead ++ c.written.toList ∧ rest = continued more := by
  have hstop {tail : List Char} (htail : ∀ x ∈ tail.head?, x = ',') :
      ∀ x ∈ tail.head?, Text.isBlank x = false := by
    intro x hx
    rw [htail x hx]
    decide
  obtain ⟨pre, post, hpart, hpre, hpost⟩ := blank_edges hne
  have hcore := firm_trimChars hne
  have hhead (tail : List Char) :
      ∀ x ∈ (c.expression.toList ++ tail).head?, Text.isBlank x = false := by
    rw [List.head?_append_of_ne_nil _ h.firm.ne_nil]
    exact h.firm.head
  generalize Text.trimChars part = core at hc hpart hcore
  rw [hpart, toList_written] at htext
  simp only [List.append_assoc] at htext
  unfold ofPart at hc
  split at hc
  · next x name hname =>
    obtain ⟨y, ⟨⟨g, a, s, g', rfl, has, hg, hg'⟩, hlast, hword⟩, rfl⟩ :=
      aliased?_eq_some_iff.mp hname
    have hy : Firm y := by
      refine ⟨hlast.1, ?_, hlast.2⟩
      rw [← List.head?_append_of_ne_nil _ hlast.1]
      exact hcore.head
    have hsame : Text.trimChars y = y := by
      simpa using hy.trimChars [] [] (by simp) (by simp)
    have hexpression : c.expression.toList = y := by
      rw [← hc, hsame, String.toList_ofList]
    have hname' : c.name.toList = name := by
      rw [← hc, String.toList_ofList]
    rw [hexpression, hname'] at htext
    rw [hexpression] at hhead
    simp only [List.append_assoc, List.cons_append] at htext
    obtain ⟨rfl, hafter⟩ := blanks_append_inj hlead hpre (hhead _) (hhead _) htext
    have ha : Text.isBlank a = false := by
      simp only [isAliasWord, Bool.and_eq_true, Bool.or_eq_true, beq_iff_eq] at has
      rcases has.1 with rfl | rfl <;> decide
    have hstart (tail : List Char) : ∀ x ∈ (name ++ tail).head?, Text.isBlank x = false := by
      rw [List.head?_append_of_ne_nil _ hword.1]
      exact fun x hx => isBlank_of_isWordChar (hword.2 x (List.mem_of_mem_head? hx))
    obtain ⟨rfl, has⟩ := blanks_append_inj isBlank_space hg.2 (by simp; decide)
      (by simpa using ha) (List.append_cancel_left hafter)
    rw [List.cons.injEq, List.cons.injEq] at has
    obtain ⟨rfl, rfl, hgap⟩ := has
    obtain ⟨rfl, htail⟩ := blanks_append_inj isBlank_space hg'.2 (hstart _) (hstart _)
      hgap
    obtain ⟨rfl, hend⟩ := blanks_append_inj (u := []) (by simp) hpost (hstop head?_continued)
      (hstop hrest) (List.append_cancel_left htail)
    rw [hpart, toList_written, hexpression, hname', List.append_nil]
    exact ⟨rfl, hend.symm⟩
  · have hexpression : c.expression.toList = core := by
      rw [← hc, String.toList_ofList]
    rw [hexpression] at htext hhead
    simp only [List.cons_append] at htext
    obtain ⟨rfl, hafter⟩ := blanks_append_inj hlead hpre (hhead _) (hhead _) htext
    obtain ⟨-, hafter⟩ := blanks_append_inj isBlank_space hpost (by simp; decide)
      (hstop hrest) (List.append_cancel_left hafter)
    cases hrest 'a' (by simp [← hafter])

/-- The first part of a list is not blank. -/
theorem trimChars_ne_nil_of_text {c : Column} (h : c.Writable) (hlead : ∀ x ∈ lead, Text.isBlank x)
    {part rest tail : List Char} (hrest : ∀ x ∈ rest.head?, x = ',')
    (htext : lead ++ (c.written.toList ++ tail) = part ++ rest) : Text.trimChars part ≠ [] := by
  intro hblank
  have hpart : ∀ x ∈ part, Text.isBlank x := by
    intro x hx
    by_contra hx'
    have hmem := Select.mem_trimChars (Bool.not_eq_true _ ▸ hx') hx
    rw [hblank] at hmem
    cases hmem
  obtain ⟨x, after, hx⟩ := List.exists_cons_of_ne_nil h.firm.ne_nil
  have hhead : (c.written.toList ++ tail).head? = some x := by
    rw [toList_written, hx]
    rfl
  have hstop : ∀ y ∈ rest.head?, Text.isBlank y = false := by
    intro y hy
    rw [hrest y hy]
    decide
  obtain ⟨-, hsame⟩ := blanks_append_inj hlead hpart
    (by simpa [hhead] using h.firm.head x (by simp [hx])) hstop htext
  have hcomma := hrest x (by rw [← hsame, hhead]; rfl)
  exact h.not_comma (by simp [hx, hcomma])

/-- Where a list is read back, each of its expressions was passed. -/
theorem passed_of_ofParts (hcolumns : ∀ c ∈ columns, c.Writable) (hne : columns ≠ [])
    (hlead : ∀ x ∈ lead, Text.isBlank x)
    (hsplit : split? (lead ++ (Text.join ", " (columns.map written)).toList) = some parts)
    (hparts : ofParts before parts = .ok (before ++ columns)) :
    ∀ c ∈ columns, stateAfter (0, none) c.expression.toList = some (0, none) := by
  induction columns generalizing lead before parts with
  | nil => exact absurd rfl hne
  | cons c more ih =>
    rw [List.forall_mem_cons] at hcolumns
    rw [toList_join_written] at hsplit
    cases parts with
    | nil =>
      rw [ofParts, Except.ok.injEq, List.self_eq_append_right] at hparts
      cases hparts
    | cons part parts =>
      -- the first part ends at a comma or with the text, and it is read as the first column, so it
      -- is that column and the comma is the one behind it
      obtain ⟨w, hw, hpass, hend⟩ := splitFrom_eq_cons (s := (0, none)) hsplit
      rw [List.reverse_nil, List.nil_append] at hw
      subst hw
      obtain ⟨rest, hrest, htext, hmore⟩ : ∃ rest, (∀ x ∈ rest.head?, x = ',') ∧
          lead ++ (c.written.toList ++ continued more) = part ++ rest ∧
            ∀ after, rest = ',' :: after → split? after = some parts := by
        rcases hend with ⟨htext, -⟩ | ⟨after, htext, hafter⟩
        · exact ⟨[], by simp, by rw [htext, List.append_nil], by simp⟩
        · refine ⟨',' :: after, by simp, htext, ?_⟩
          rintro _ ⟨rfl⟩
          exact hafter
      have hpart := trimChars_ne_nil_of_text hcolumns.1 hlead hrest htext
      simp only [ofParts, List.isEmpty_iff, hpart, if_false] at hparts
      split at hparts
      · cases hparts
      · have hfirst : ofPart before.length (Text.trimChars part) = c := by
          have hprefix := ofParts_prefix hparts
          rw [List.prefix_append_right_inj] at hprefix
          exact (List.cons_prefix_cons.mp hprefix).1
        obtain ⟨rfl, rfl⟩ := eq_written_of_ofPart hcolumns.1 hlead hrest htext hpart hfirst
        refine List.forall_mem_cons.mpr ⟨(hcolumns.1.passed_written_iff hlead).mp hpass, ?_⟩
        cases more with
        | nil => simp
        | cons d more =>
          have hafter : ofParts (before ++ [c]) parts = .ok (before ++ [c] ++ d :: more) := by
            rw [← hfirst, hparts, hfirst, List.append_assoc, List.singleton_append]
          exact ih hcolumns.2 (by simp) isBlank_space (hmore _ rfl) hafter

/-- The text of columns has neither blanks nor parentheses around it. -/
theorem parseList_join_written (hne : columns ≠ []) (hcolumns : ∀ c ∈ columns, c.Writable)
    {result : List Column} : parseList (Text.join ", " (columns.map written)) = .ok result ↔
      ∃ parts, split? (Text.join ", " (columns.map written)).toList = some parts ∧
        ofParts [] parts = .ok result := by
  have hclose : ∀ c ∈ columns, ∀ x ∈ c.written.toList.getLast?, x ≠ ')' := by
    rintro c hc _ hx rfl
    have hname := (hcolumns c hc).named
    have hlast : c.written.toList.getLast? = c.name.toList.getLast? := by
      simp [toList_written, List.getLast?_cons, List.getLast?_append,
        List.getLast?_eq_some_getLast hname.1]
    rw [hlast] at hx
    have hword := hname.2 _ (List.mem_of_mem_getLast? hx)
    revert hword
    decide
  rw [parseList_join (by simpa using hne)
    (List.forall_mem_map.mpr fun c hc => (hcolumns c hc).firm_written)
    (List.forall_mem_map.mpr hclose)]
  cases split? (Text.join ", " (columns.map written)).toList <;> simp

/-- A list of columns with pairwise different aliases is read back as it is written if and only if
every expression is one part where commas are told apart. It is one part if no string in it holds
a quote of its own kind after a backslash. -/
theorem parseList_written_iff (hne : columns ≠ []) (hcolumns : ∀ c ∈ columns, c.Writable)
    (hnames : (columns.map (·.name)).Nodup) :
    (parseList (Text.join ", " (columns.map written)) = .ok columns ↔
      ∀ c ∈ columns, split? c.expression.toList = some [c.expression.toList]) ∧
    ∀ c ∈ columns, escapesQuote none c.expression.toList = false →
      split? c.expression.toList = some [c.expression.toList] := by
  have hnone : ∀ x ∈ ([] : List Char), Text.isBlank x := by simp
  refine ⟨⟨?_, ?_⟩, fun c hc hescape => split?_eq_self_iff.mpr ((hcolumns c hc).passed hescape)⟩
  · intro h
    obtain ⟨parts, hsplit, hparts⟩ := (parseList_join_written hne hcolumns).mp h
    have hpass := passed_of_ofParts hcolumns hne hnone hsplit hparts
    exact fun c hc => split?_eq_self_iff.mpr (hpass c hc)
  · intro h
    have hpass := fun c hc => split?_eq_self_iff.mp (h c hc)
    obtain ⟨parts, hsplit, hparts⟩ := split?_written hne hcolumns hpass hnone
    exact (parseList_join_written hne hcolumns).mpr
      ⟨parts, hsplit, ofParts_written hcolumns hnames hparts⟩

/-- Columns with commas in calls, lists and strings, a doubled quote and an escaped backslash. -/
def punctuated : List Column := [
  ⟨"coalesce(name, 'a, b')", "n"⟩, ⟨"'it''s' == \"(\"", "s"⟩, ⟨"kind in ['\\\\', \x7bx\x7d]", "k"⟩]

/-- The punctuated columns are read back, and a string with an escaped quote is not. -/
theorem parseList_written_iff_punctuated :
    parseList ("coalesce(name, 'a, b') as n, 'it''s' == \"(\" as s, " ++
        "kind in ['\\\\', \x7bx\x7d] as k") = .ok punctuated ∧
      parseList "'it\\'s' as a" ≠ .ok [⟨"'it\\'s'", "a"⟩] := by
  have hwritable (columns : List Column)
      (h : columns.all fun c => decide (Text.trim c.expression = c.expression) &&
        (Expr.parse c.expression).toOption.isSome && decide (Sql.IsWord c.name)) :
      ∀ c ∈ columns, c.Writable := by
    intro c hc
    have hall := List.all_eq_true.mp h c hc
    simp only [Bool.and_eq_true, decide_eq_true_eq, Option.isSome_iff_exists] at hall
    obtain ⟨⟨htrim, e, he⟩, hname⟩ := hall
    exact ⟨htrim, ⟨e, Steps.toOption_eq_some_iff.mp he⟩, hname⟩
  constructor
  · obtain ⟨hiff, hpass⟩ := parseList_written_iff (by decide)
      (hwritable punctuated (by decide +kernel)) (by decide)
    exact hiff.mpr fun c hc => hpass c hc (by revert c; decide +kernel)
  · intro h
    have hwhole := (parseList_written_iff (by decide)
      (hwritable [⟨"'it\\'s'", "a"⟩] (by decide +kernel)) (by decide)).1.mp h
    have hsplit := hwhole _ (List.mem_singleton_self _)
    revert hsplit
    decide +kernel

end PathQuery.Column
