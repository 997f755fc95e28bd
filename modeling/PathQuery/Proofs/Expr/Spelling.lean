import PathQuery.Proofs.Expr.Print
import PathQuery.Placeholder

/-!
What a parse passes over. The text that is read as an expression falls into plain characters,
brackets that match, names in braces and quoted texts, and a comma stands between brackets only.
The texts of the expression, those of its strings and placeholders, are met in the same order.
-/

namespace PathQuery.Expr

mutual

/-- The texts of the strings and placeholders of an expression, in the order of the source. -/
def texts : Expr → List String
  | .str text => [text]
  | .placeholder name => [Placeholder.token name]
  | .call _ es | .logical _ es | .tuple es | .list es => allTexts es
  | .binary _ left right | .compare _ left right => texts left ++ texts right
  | .unary _ e => texts e
  | _ => []

def allTexts : List Expr → List String
  | [] => []
  | e :: rest => texts e ++ allTexts rest

end

theorem allTexts_append (es fs : List Expr) : allTexts (es ++ fs) = allTexts es ++ allTexts fs := by
  induction es with
  | nil => rfl
  | cons e es ih => rw [List.cons_append, allTexts, allTexts, ih, List.append_assoc]

theorem allTexts_concat (es : List Expr) (e : Expr) :
    allTexts (es ++ [e]) = allTexts es ++ e.texts := by
  rw [allTexts_append, allTexts, allTexts, List.append_nil]

theorem mem_allTexts {text : String} {es : List Expr} :
    text ∈ allTexts es ↔ ∃ e ∈ es, text ∈ e.texts := by
  induction es with
  | nil => simp [allTexts]
  | cons e rest ih => simp [allTexts, ih]

/-- The characters with a meaning where columns are told apart. -/
def marks : List Char := ['(', ')', '[', ']', '\x7b', '\x7d', ',', '\'', '"']

/-- The pairs of brackets that hold expressions. -/
def brackets : List (Char × Char) := [('(', ')'), ('[', ']')]

/-- A source is read up to `rest`, and these are the texts that are met; a comma is met only
`inside` brackets. -/
inductive Spans : Bool → List Char → List Char → List String → Prop
  | done {inside : Bool} {cs : List Char} : Spans inside cs cs []
  | char {inside : Bool} {c : Char} {cs rest : List Char} {ts : List String} (hc : c ∉ marks)
      (h : Spans inside cs rest ts) : Spans inside (c :: cs) rest ts
  | comma {cs rest : List Char} {ts : List String} (h : Spans true cs rest ts) :
      Spans true (',' :: cs) rest ts
  | bracket {inside : Bool} {left right : Char} {cs mid rest : List Char} {ts us : List String}
      (hpair : (left, right) ∈ brackets) (hbody : Spans true cs (right :: mid) ts)
      (h : Spans inside mid rest us) : Spans inside (left :: cs) rest (ts ++ us)
  | braced {inside : Bool} {name cs rest : List Char} {ts : List String}
      (hname : IsBracedName name) (h : Spans inside cs rest ts) :
      Spans inside ('\x7b' :: name ++ '\x7d' :: cs) rest (Placeholder.token (.ofList name) :: ts)
  | quoted {inside : Bool} {q : Char} {cs mid rest text : List Char} {ts : List String}
      (hq : q = '\'' ∨ q = '"') (htext : quotedText? q cs = some (text, mid))
      (h : Spans inside mid rest ts) : Spans inside (q :: cs) rest (.ofList text :: ts)

namespace Spans

variable {inside : Bool} {cs mid rest w : List Char} {ts us : List String}

theorem trans (h : Spans inside cs mid ts) (hrest : Spans inside mid rest us) :
    Spans inside cs rest (ts ++ us) := by
  induction h with
  | done => exact hrest
  | char hc _ ih => exact .char hc (ih hrest)
  | comma _ ih => exact .comma (ih hrest)
  | bracket hpair hbody _ _ ih =>
    rw [List.append_assoc]
    exact .bracket hpair hbody (ih hrest)
  | braced hname _ ih => exact .braced hname (ih hrest)
  | quoted hq htext _ ih => exact .quoted hq htext (ih hrest)

/-- Inside brackets no less can be read. -/
theorem within (h : Spans false cs rest ts) : Spans true cs rest ts := by
  generalize hb : false = b at h
  induction h with
  | done => exact .done
  | char hc _ ih => exact .char hc (ih hb)
  | comma => cases hb
  | bracket hpair hbody _ _ ih => exact .bracket hpair hbody (ih hb)
  | braced hname _ ih => exact .braced hname (ih hb)
  | quoted hq htext _ ih => exact .quoted hq htext (ih hb)

theorem suffix (h : Spans inside cs rest ts) : rest <:+ cs := by
  induction h with
  | done => exact List.suffix_refl _
  | char _ _ ih | comma _ ih => exact ih.trans (List.suffix_cons _ _)
  | bracket _ _ _ ihbody ih =>
    exact ih.trans ((List.suffix_cons _ _).trans (ihbody.trans (List.suffix_cons _ _)))
  | braced _ _ ih =>
    exact ih.trans ((List.suffix_cons _ _).trans (List.suffix_append _ _))
  | quoted _ htext _ ih =>
    exact ih.trans ((quotedText?_suffix htext).trans (List.suffix_cons _ _))

theorem plain (hw : ∀ c ∈ w, c ∉ marks) (h : cs = w ++ rest) : Spans inside cs rest [] := by
  induction w generalizing cs with
  | nil =>
    rw [h]
    exact .done
  | cons c w ih =>
    rw [List.forall_mem_cons] at hw
    rw [h]
    exact .char hw.1 (ih hw.2 rfl)

end Spans

/-! ### Tokens -/

section Tokens

variable {inside : Bool} {cs rest : List Char}

theorem not_mem_marks {p : Char → Bool} (hp : marks.all fun c => !p c) {c : Char} (h : p c) :
    c ∉ marks := by
  intro hc
  have hnot := List.all_eq_true.mp hp c hc
  rw [h] at hnot
  cases hnot

theorem skipGap_spans (cs : List Char) : Spans inside cs (skipGap cs) [] :=
  .plain (w := cs.takeWhile isGap)
    (fun _ hc => not_mem_marks (p := isGap) (by decide) (List.mem_takeWhile_imp hc))
    List.takeWhile_append_dropWhile.symm

theorem keyword?_spans {word : List Char} (hword : word.all Char.isLower)
    (h : keyword? word cs = some rest) : Spans inside cs rest [] := by
  obtain ⟨w, hw, rfl⟩ := dropWord?_eq_some (keyword?_eq_some h).1
  refine .plain ?_ hw
  intro c hc
  have hlower := List.all_eq_true.mp hword _ (List.mem_map_of_mem hc)
  exact not_mem_marks (p := fun c => c.toLower.isLower) (by decide) hlower

theorem gap?_spans (h : gap? cs = some rest) : Spans inside cs rest [] := by
  cases cs with
  | nil => cases h
  | cons c cs =>
    simp only [gap?] at h
    split at h
    · next hc =>
      cases h
      exact .char (not_mem_marks (p := isGap) (by decide) hc) (skipGap_spans cs)
    · cases h

theorem keywords?_spans {first second : List Char} (hfirst : first.all Char.isLower)
    (hsecond : second.all Char.isLower) (h : keywords? first second cs = some rest) :
    Spans inside cs rest [] := by
  simp only [keywords?, Option.bind_eq_some_iff] at h
  obtain ⟨after, ⟨mid, hmid, hgap⟩, hkey⟩ := h
  exact (keyword?_spans hfirst hmid).trans
    ((gap?_spans hgap).trans (keyword?_spans hsecond hkey))

theorem sumOp?_spans {op : BinaryOp} (h : sumOp? cs = some (op, rest)) :
    Spans inside cs rest [] := by
  unfold sumOp? at h
  split at h
  · cases h
    exact .char (by decide) .done
  · cases h
    exact .char (by decide) .done
  · cases h

theorem productOp?_spans {op : BinaryOp} (h : productOp? cs = some (op, rest)) :
    Spans inside cs rest [] := by
  unfold productOp? at h
  split at h
  · cases h
    exact .char (by decide) .done
  · cases h
    exact .char (by decide) .done
  · cases h
    exact .char (by decide) .done
  · cases h

theorem sign?_spans {op : UnaryOp} (h : sign? cs = some (op, rest)) :
    Spans inside cs rest [] := by
  unfold sign? at h
  split at h
  · cases h
    exact .char (by decide) .done
  · cases h
    exact .char (by decide) .done
  · cases h

theorem wordOp?_spans {op : CompareOp} (h : wordOp? cs = some (op, rest)) :
    Spans inside cs rest [] := by
  unfold wordOp? at h
  split at h
  · next hk =>
    cases h
    exact keywords?_spans (by decide) (by decide) hk
  · split at h
    · next hk =>
      cases h
      exact keyword?_spans (by decide) hk
    · split at h
      · next hk =>
        cases h
        exact keywords?_spans (by decide) (by decide) hk
      · obtain ⟨_, hk, hrest⟩ := Option.map_eq_some_iff.mp h
        cases hrest
        exact keyword?_spans (by decide) hk

theorem compareOp?_spans {op : CompareOp} (h : compareOp? cs = some (op, rest)) :
    Spans inside cs rest [] := by
  unfold compareOp? at h
  split at h
  all_goals first
    | exact wordOp?_spans h
    | (cases h; exact .char (by decide) (.char (by decide) .done))
    | (cases h; exact .char (by decide) .done)

theorem constant?_spans {e : Expr} (h : constant? cs = some (e, rest)) :
    Spans inside cs rest e.texts := by
  unfold constant? at h
  split at h
  · next hk =>
    cases h
    exact keyword?_spans (by decide) hk
  · split at h
    · next hk =>
      cases h
      exact keyword?_spans (by decide) hk
    · split at h
      · next hk =>
        cases h
        exact keyword?_spans (by decide) hk
      · obtain ⟨_, hk, hreply⟩ := Option.map_eq_some_iff.mp h
        cases hreply
        exact keyword?_spans (by decide) hk

theorem IsDigits.not_mem_marks {ds : List Char} (h : IsDigits ds) : ∀ c ∈ ds, c ∉ marks :=
  fun c hc => Expr.not_mem_marks (p := Char.isDigit) (by decide) (h.2 c hc)

theorem IsNumber.not_mem_marks {text : List Char} (h : IsNumber text) : ∀ c ∈ text, c ∉ marks := by
  obtain ⟨whole, part, power, rfl, hwhole, hpart, hpower⟩ := h
  rw [List.forall_mem_append, List.forall_mem_append]
  refine ⟨⟨hwhole.not_mem_marks, ?_⟩, ?_⟩
  · rcases hpart with rfl | ⟨ds, rfl, hds⟩
    · simp
    · exact List.forall_mem_cons.mpr ⟨by decide, hds.not_mem_marks⟩
  · rcases hpower with rfl | ⟨mark, sign, ds, rfl, hmark, hsign, hds⟩
    · simp
    · have hall : (mark :: sign).all fun c => !marks.contains c := by
        rcases hmark with rfl | rfl <;> rcases hsign with rfl | rfl | rfl <;> decide
      refine List.forall_mem_append.mpr ⟨?_, hds.not_mem_marks⟩
      simpa only [List.all_eq_true, Bool.not_eq_true', List.contains_eq_mem,
        decide_eq_false_iff_not] using hall

theorem name?_spans {name : List Char} (h : name? cs = some (name, rest)) :
    Spans inside cs rest [] := by
  obtain ⟨hname, hcs⟩ := name?_some h
  refine .plain ?_ hcs
  intro c hc
  rw [← String.toList_ofList (l := name)] at hc
  exact not_mem_marks (p := isNameRest) (by decide) (hname.isNameRest c hc)

theorem segments_spans (n : Nat) (cs : List Char) : Spans inside cs (segments n cs).2 [] := by
  induction n generalizing cs with
  | zero => exact .done
  | succ n ih =>
    unfold segments
    split
    · next rest =>
      split
      · next name after hname => exact .char (by decide) ((name?_spans hname).trans (ih after))
      · exact .done
    · exact .done

/-- The text of a string is that of the expression it is read as, also where this is a
placeholder. -/
theorem texts_ofQuoted (text : List Char) : (ofQuoted text).texts = [.ofList text] := by
  unfold ofQuoted
  split
  · next rest =>
    split
    · next name hb =>
      obtain ⟨-, rfl⟩ := braced?_some hb
      simp [texts, Placeholder.token, String.ext_iff]
    · rfl
  · rfl

end Tokens

/-! ### Levels -/

/-- What the parser reads is spelled like its reply. -/
def Spells (p : Parser Expr) : Prop :=
  ∀ {cs rest : List Char} {e : Expr}, p cs = .ok (e, rest) → Spans false cs rest e.texts

section Chains

variable {α β γ : Type} {op? : List Char → Option (β × List Char)} {operand : Parser α}
  {extend : γ → β → α → γ}

theorem chainLoop_spans {S : α → List String} {T : γ → List String}
    (hop : ∀ {cs op rest}, op? cs = some (op, rest) → Spans false cs rest [])
    (hoperand : ∀ {cs x rest}, operand cs = .ok (x, rest) → Spans false cs rest (S x))
    (hextend : ∀ acc op x, T (extend acc op x) = T acc ++ S x)
    (n : Nat) {acc acc' : γ} {source cs rest : List Char} (hacc : Spans false source cs (T acc))
    (h : chainLoop op? operand extend n acc cs = .ok (acc', rest)) :
    Spans false source rest (T acc') := by
  induction n generalizing acc cs with
  | zero =>
    cases h
    exact hacc
  | succ n ih =>
    unfold chainLoop at h
    cases hfound : op? (skipGap cs) with
    | none =>
      simp only [hfound] at h
      cases h
      exact hacc
    | some found =>
      obtain ⟨op, after⟩ := found
      simp only [hfound] at h
      cases hreply : operand (skipGap after) with
      | error stuck =>
        simp only [hreply] at h
        cases h
      | ok reply =>
        obtain ⟨x, after'⟩ := reply
        simp only [hreply] at h
        refine ih ?_ h
        rw [hextend]
        exact hacc.trans ((skipGap_spans cs).trans ((hop hfound).trans
          ((skipGap_spans after).trans (hoperand hreply))))

end Chains

theorem texts_group (op : Connective) (es : List Expr) : (group op es).texts = allTexts es := by
  cases es with
  | nil => rfl
  | cons e es =>
    cases es with
    | nil => simp [group, allTexts]
    | cons => rfl

section Levels

variable {operand inner : Parser Expr}

theorem connected_spells (op : Connective) {word : List Char} (hword : word.all Char.isLower)
    (h : Spells operand) : Spells (connected op word operand) := by
  intro cs rest e hread
  rw [connected_eq] at hread
  cases hfirst : operand cs with
  | error stuck =>
    rw [hfirst] at hread
    cases hread
  | ok reply =>
    obtain ⟨first, mid⟩ := reply
    rw [hfirst] at hread
    dsimp only [Except.bind] at hread
    cases hmore : moreOperands word operand mid.length [first] mid with
    | error stuck =>
      rw [hmore] at hread
      cases hread
    | ok reply =>
      rw [hmore] at hread
      cases hread
      rw [texts_group]
      refine chainLoop_spans ?_ h (fun es _ e => allTexts_concat es e) _ ?_ hmore
      · intro cs _ rest hlink
        obtain ⟨_, hkey, hreply⟩ := Option.map_eq_some_iff.mp hlink
        cases hreply
        exact keyword?_spans hword hkey
      · simpa [allTexts] using h hfirst

theorem leftward_spells {op? : List Char → Option (BinaryOp × List Char)}
    (hop : ∀ {cs op rest}, op? cs = some (op, rest) → Spans false cs rest [])
    (h : Spells operand) : Spells (leftward op? operand) := by
  intro cs rest e hread
  unfold leftward at hread
  cases hfirst : operand cs with
  | error stuck =>
    rw [hfirst] at hread
    cases hread
  | ok reply =>
    rw [hfirst] at hread
    exact chainLoop_spans hop h (fun _ _ _ => by rw [texts]) _ (h hfirst) hread

theorem comparison_spells (h : Spells operand) : Spells (comparison operand) := by
  intro cs rest e hread
  unfold comparison at hread
  cases hleft : operand cs with
  | error stuck =>
    simp only [hleft] at hread
    cases hread
  | ok reply =>
    obtain ⟨left, mid⟩ := reply
    simp only [hleft] at hread
    cases hop : compareOp? (skipGap mid) with
    | none =>
      simp only [hop] at hread
      cases hread
      exact h hleft
    | some found =>
      obtain ⟨op, after⟩ := found
      simp only [hop] at hread
      cases hright : operand (skipGap after) with
      | error stuck =>
        simp only [hright] at hread
        cases hread
      | ok reply =>
        simp only [hright] at hread
        cases hread
        rw [texts]
        exact (h hleft).trans ((skipGap_spans mid).trans ((compareOp?_spans hop).trans
          ((skipGap_spans after).trans (h hright))))

theorem negated_spells (h : Spells operand) (n : Nat) : Spells (negated operand n) := by
  induction n with
  | zero => exact h
  | succ n ih =>
    intro cs rest e hread
    unfold negated at hread
    cases hk : keyword? ['n', 'o', 't'] cs with
    | none =>
      simp only [hk] at hread
      exact h hread
    | some after =>
      simp only [hk] at hread
      cases hreply : negated operand n (skipGap after) with
      | error stuck =>
        simp only [hreply] at hread
        exact h hread
      | ok reply =>
        simp only [hreply] at hread
        cases hread
        rw [texts]
        exact (keyword?_spans (by decide) hk).trans ((skipGap_spans after).trans (ih hreply))

theorem signs_spells (h : Spells operand) (n : Nat) : Spells (signs operand n) := by
  induction n with
  | zero => exact h
  | succ n ih =>
    intro cs rest e hread
    unfold signs at hread
    cases hs : sign? cs with
    | none =>
      simp only [hs] at hread
      exact h hread
    | some found =>
      obtain ⟨op, after⟩ := found
      simp only [hs] at hread
      cases hreply : signs operand n (skipGap after) with
      | error stuck =>
        simp only [hreply] at hread
        cases hread
      | ok reply =>
        simp only [hreply] at hread
        cases hread
        rw [texts]
        exact (sign?_spans hs).trans ((skipGap_spans after).trans (ih hreply))

/-! ### Brackets -/

theorem moreItems_spans (h : Spells inner) (n : Nat) (items : List Expr) {source cs : List Char}
    (hitems : Spans true source cs (allTexts items)) :
    Spans true source (moreItems inner n items cs).2 (allTexts (moreItems inner n items cs).1) := by
  induction n generalizing items cs with
  | zero => exact hitems
  | succ n ih =>
    unfold moreItems
    split
    · next after hcomma =>
      split
      · next e rest hreply =>
        refine ih _ ?_
        rw [allTexts_concat]
        refine hitems.trans ((skipGap_spans cs).trans (?_ : Spans true _ rest _))
        rw [hcomma]
        exact .comma ((skipGap_spans after).trans (h hreply).within)
      · exact hitems
    · exact hitems

theorem trailingComma_spans (cs : List Char) : Spans true cs (trailingComma cs).2 [] := by
  unfold trailingComma
  split
  · next rest hcomma =>
    refine (skipGap_spans cs).trans (?_ : Spans true _ rest [])
    rw [hcomma]
    exact .comma .done
  · exact .done

theorem sequence_spans (h : Spells inner) (cs : List Char) :
    Spans true cs (sequence inner cs).2 (allTexts (sequence inner cs).1.1) := by
  unfold sequence
  cases hreply : inner cs with
  | error stuck => exact trailingComma_spans cs
  | ok reply =>
    obtain ⟨e, rest⟩ := reply
    have hfirst : Spans true cs rest (allTexts [e]) := by
      simpa [allTexts] using (h hreply).within
    simpa using (moreItems_spans h rest.length [e] hfirst).trans (trailingComma_spans _)

theorem closing?_spans {close : Char} {cs rest : List Char} (h : closing? close cs = some rest) :
    Spans true cs (close :: rest) [] := by
  rw [← closing?_some_iff.mp h]
  exact skipGap_spans cs

/-- A sequence between its brackets. -/
theorem bracketed_spans (h : Spells inner) {left right : Char} (hpair : (left, right) ∈ brackets)
    {cs rest : List Char} (hclose : closing? right (sequence inner (skipGap cs)).2 = some rest) :
    Spans false (left :: cs) rest (allTexts (sequence inner (skipGap cs)).1.1) := by
  have hbody : Spans true cs (right :: rest) (allTexts (sequence inner (skipGap cs)).1.1) := by
    simpa using (skipGap_spans cs).trans ((sequence_spans h _).trans (closing?_spans hclose))
  simpa using Spans.bracket hpair hbody .done

theorem texts_bracketed (body : List Expr × Bool) : (bracketed body).texts = allTexts body.1 := by
  obtain ⟨items, trailing⟩ := body
  cases items with
  | nil => rfl
  | cons e es =>
    cases es with
    | nil =>
      cases trailing with
      | false => simp [bracketed, allTexts]
      | true => rfl
    | cons => rfl

theorem grouped?_spans (h : Spells inner) {cs rest : List Char} {e : Expr}
    (hg : grouped? inner cs = some (e, rest)) : Spans false ('(' :: cs) rest e.texts := by
  rw [grouped?_eq] at hg
  obtain ⟨_, hclose, hreply⟩ := Option.map_eq_some_iff.mp hg
  cases hreply
  rw [texts_bracketed]
  exact bracketed_spans h (by decide) hclose

theorem listed?_spans (h : Spells inner) {cs rest : List Char} {e : Expr}
    (hl : listed? inner cs = some (e, rest)) : Spans false ('[' :: cs) rest e.texts := by
  rw [listed?_eq] at hl
  obtain ⟨_, hclose, hreply⟩ := Option.map_eq_some_iff.mp hl
  cases hreply
  exact bracketed_spans h (by decide) hclose

theorem arguments?_spans (h : Spells inner) {cs rest : List Char} {args : List Expr}
    (ha : arguments? inner cs = some (args, rest)) : Spans false cs rest (allTexts args) := by
  unfold arguments? at ha
  split at ha
  · next cs =>
    split at ha
    · next after hstar =>
      obtain ⟨_, hclose, hreply⟩ := Option.map_eq_some_iff.mp ha
      cases hreply
      have hbody : Spans true cs (')' :: rest) [] := by
        refine (skipGap_spans cs).trans (?_ : Spans true _ _ [])
        rw [hstar]
        exact .char (by decide) (closing?_spans hclose)
      exact .bracket (by decide) hbody .done
    · obtain ⟨_, hclose, hreply⟩ := Option.map_eq_some_iff.mp ha
      cases hreply
      exact bracketed_spans h (by decide) hclose
  · cases ha

/-! ### Whole expressions -/

theorem named_spells (h : Spells inner) : Spells (named inner) := by
  intro cs rest e hread
  unfold named at hread
  cases hn : name? cs with
  | none =>
    rw [hn] at hread
    cases hread
  | some found =>
    obtain ⟨name, after⟩ := found
    rw [hn] at hread
    dsimp only at hread
    cases ha : arguments? inner after with
    | none =>
      rw [ha] at hread
      cases hread
      exact (name?_spans hn).trans (segments_spans _ after)
    | some reply =>
      rw [ha] at hread
      cases hread
      exact (name?_spans hn).trans (arguments?_spans h ha)

theorem orStuck_ok {cs rest : List Char} {e : Expr} {reply : Option (Expr × List Char)}
    (h : orStuck cs reply = .ok (e, rest)) : reply = some (e, rest) := by
  cases reply with
  | none => cases h
  | some reply =>
    cases h
    rfl

theorem quoted_spans {q : Char} (hq : q = '\'' ∨ q = '"') {cs rest : List Char} {e : Expr}
    (h : (quotedText? q cs).map (fun reply => (ofQuoted reply.1, reply.2)) = some (e, rest)) :
    Spans false (q :: cs) rest e.texts := by
  obtain ⟨⟨text, _⟩, htext, hreply⟩ := Option.map_eq_some_iff.mp h
  cases hreply
  rw [texts_ofQuoted]
  exact .quoted hq htext .done

theorem primary_spells (h : Spells inner) : Spells (primary inner) := by
  intro cs rest e hread
  unfold primary at hread
  split at hread
  · exact grouped?_spans h (orStuck_ok hread)
  · exact listed?_spans h (orStuck_ok hread)
  · obtain ⟨⟨name, _⟩, hname, hreply⟩ := Option.map_eq_some_iff.mp (orStuck_ok hread)
    cases hreply
    obtain ⟨hbraced, rfl⟩ := braced?_some hname
    exact .braced hbraced .done
  · exact quoted_spans (.inl rfl) (orStuck_ok hread)
  · exact quoted_spans (.inr rfl) (orStuck_ok hread)
  · next c after _ _ _ _ _ =>
    split at hread
    · next hc =>
      cases hread
      exact .plain (numberText_isNumber hc after).not_mem_marks
        (List.prefix_append_drop (numberText_starts _))
    · split at hread
      · next reply hk =>
        cases hread
        exact constant?_spans hk
      · exact named_spells h hread
  · cases hread

theorem signedLevel_spells (h : Spells inner) : Spells (signedLevel inner) :=
  fun hread => signs_spells (primary_spells h) _ hread

theorem sumLevel_spells (h : Spells inner) : Spells (sumLevel inner) :=
  leftward_spells sumOp?_spans (leftward_spells productOp?_spans (signedLevel_spells h))

theorem notLevel_spells (h : Spells inner) : Spells (notLevel inner) :=
  fun hread => negated_spells (comparison_spells (sumLevel_spells h)) _ hread

theorem orLevel_spells (h : Spells inner) : Spells (orLevel inner) :=
  connected_spells .or (by decide) (connected_spells .and (by decide) (notLevel_spells h))

end Levels

theorem exprAt_spells (n : Nat) : Spells (exprAt n) := by
  induction n with
  | zero =>
    intro cs rest e hread
    cases hread
  | succ n ih => exact orLevel_spells ih

theorem expression_spells : Spells expression :=
  fun hread => exprAt_spells _ hread

/-- A source is spelled like the expression that it is read as. -/
theorem parse_spans {source : String} {e : Expr} (h : parse source = .ok e) :
    Spans false (Text.trimChars source.toList) [] e.texts :=
  expression_spells (expression_of_parse h)

end PathQuery.Expr
