import PathQuery.Proofs.OrderTerm.Enclosing
import PathQuery.Proofs.Text.Joined

/-!
Order lists as they are written. A term is the text of its expression with a word for the direction
behind it or a minus sign before it. No operator starts with such a word, so the expression is read
up to it, and a minus sign is read as one of the expression and taken off again.
-/

namespace PathQuery.OrderTerm

open PathQuery.Expr (Readable Solid After skipGap)

/-! ### Terms -/

/-- How the direction of a term is written. -/
inductive Marking
  | plain
  | asc
  | desc
  | minus
deriving DecidableEq, Repr

namespace Marking

/-- What stands behind the expression. -/
def word : Marking → List Char
  | .asc => [' ', 'a', 's', 'c']
  | .desc => [' ', 'd', 'e', 's', 'c']
  | .plain | .minus => []

def direction? : Marking → Option Bool
  | .asc => some false
  | .desc => some true
  | .plain | .minus => none

def descends : Marking → Bool
  | .desc | .minus => true
  | .plain | .asc => false

end Marking

/-- A term with an expression that can be read. A minus sign stands only before a sign or a primary
form, which need no parentheses there. -/
structure Written where
  expr : Expr
  marking : Marking
  readable : expr.Readable
  signed : marking = .minus → 6 ≤ expr.tier

namespace Written

def text (w : Written) : String :=
  match w.marking with
  | .plain => w.expr.print
  | .asc => w.expr.print ++ " asc"
  | .desc => w.expr.print ++ " desc"
  | .minus => "-" ++ w.expr.print

def term (w : Written) : OrderTerm :=
  ⟨w.expr, w.marking.descends⟩

/-- The expression in the text, with the minus sign. -/
def whole (w : Written) : Expr :=
  match w.marking with
  | .minus => .unary .neg w.expr
  | _ => w.expr

/-- What the text is read as before the minus sign is taken off. -/
def read (w : Written) : Expr × Option Bool :=
  (w.whole, w.marking.direction?)

theorem toList_text (w : Written) : w.text.toList = w.whole.chars ++ w.marking.word := by
  obtain ⟨e, marking, -, hsigned⟩ := w
  cases marking with
  | plain | asc | desc => simp [text, whole, Marking.word, Expr.print]
  | minus =>
    have htext : Expr.chars (.unary .neg e) = '-' :: Expr.charsAt 6 e := by
      rw [Expr.chars]
      rfl
    rw [Expr.charsAt_of_le (hsigned rfl)] at htext
    simp [text, whole, Marking.word, Expr.print, htext]

theorem readable_whole (w : Written) : w.whole.Readable := by
  obtain ⟨e, marking, hreads, -⟩ := w
  cases marking with
  | plain | asc | desc => exact hreads
  | minus => exact .unary .neg hreads

theorem solid_text (w : Written) : Solid w.text.toList := by
  have hwhole := w.readable_whole.readsBack.1.solid
  rw [toList_text]
  cases w.marking with
  | plain | minus =>
    rw [Marking.word, List.append_nil]
    exact hwhole
  | asc => exact hwhole.concat [' ', 'a', 's'] (by decide)
  | desc => exact hwhole.concat [' ', 'd', 'e', 's'] (by decide)

end Written

/-! ### Reading one term -/

section Reading

variable {t : List Char}

/-- No operator starts with the word for a direction. -/
theorem Marking.after (marking : Marking) (ht : ∀ c ∈ t.head?, c = ',') :
    After 0 (marking.word ++ t) := by
  have hend : After 0 t := by
    cases t with
    | nil => exact Expr.after_nil
    | cons c t => exact Expr.after_closed (.inl (ht c rfl)) t
  cases marking with
  | plain | minus => exact hend
  | asc | desc =>
    exact ⟨Expr.ends_space _, fun _ => rfl, fun _ => rfl, fun _ => rfl, fun _ => rfl, fun _ => rfl⟩

theorem direction_word (marking : Marking) (ht : ∀ c ∈ t.head?, c = ',') :
    direction (marking.word ++ t) = (marking.direction?, t) := by
  have hchar : ∀ c ∈ t.head?, Text.isNameChar c = false := by
    intro c hc
    rw [ht c hc]
    decide
  cases marking with
  | plain | minus =>
    cases t with
    | nil => rfl
    | cons c t =>
      obtain rfl := ht c rfl
      rfl
  | asc =>
    have hgap : Expr.gap? (Marking.asc.word ++ t) = some (['a', 's', 'c'] ++ t) := rfl
    have hother : Expr.keyword? ['d', 'e', 's', 'c'] (['a', 's', 'c'] ++ t) = none := rfl
    have hword : Expr.keyword? ['a', 's', 'c'] (['a', 's', 'c'] ++ t) = some t :=
      Expr.keyword?_append_of_dropWord? (by decide) hchar
    simp only [direction, hgap, hother, hword, Marking.direction?]
  | desc =>
    have hgap : Expr.gap? (Marking.desc.word ++ t) = some (['d', 'e', 's', 'c'] ++ t) := rfl
    have hword : Expr.keyword? ['d', 'e', 's', 'c'] (['d', 'e', 's', 'c'] ++ t) = some t :=
      Expr.keyword?_append_of_dropWord? (by decide) hchar
    simp only [direction, hgap, hword, Marking.direction?]

theorem term_text (w : Written) (ht : ∀ c ∈ t.head?, c = ',') :
    term (w.text.toList ++ t) = .ok (w.read, t) := by
  have hread := w.readable_whole.readsBack.1.exprAt
    (m := (w.whole.chars ++ (w.marking.word ++ t)).length + 1)
    (by simp only [List.length_append]; omega) (w.marking.after ht)
  rw [w.toList_text, List.append_assoc, term, Expr.expression, hread]
  simp only [direction_word w.marking ht]
  rfl

/-! ### Reading a list -/

/-- The terms behind the first one, each after a comma. -/
def tail (ws : List Written) : List Char :=
  ws.flatMap fun w => ',' :: ' ' :: w.text.toList

theorem tail_cons (w : Written) (ws : List Written) :
    tail (w :: ws) = ',' :: ' ' :: (w.text.toList ++ tail ws) :=
  rfl

theorem head_tail (ws : List Written) (ht : ∀ c ∈ t.head?, c = ',') :
    ∀ c ∈ (tail ws ++ t).head?, c = ',' := by
  cases ws with
  | nil => exact ht
  | cons w ws => simp [tail_cons]

theorem length_le_tail (ws : List Written) : ws.length ≤ (tail ws).length := by
  induction ws with
  | nil => exact Nat.le_refl 0
  | cons w ws ih =>
    simp only [tail_cons, List.length_cons, List.length_append]
    omega

/-- Terms are read one after the other, up to where no further term follows. -/
theorem moreTerms_tail (ws : List Written) (ht : ∀ c ∈ t.head?, c = ',')
    (hstop : ∀ n terms, moreTerms n terms t = (terms, t)) {n : Nat} (hn : ws.length ≤ n)
    (terms : List (Expr × Option Bool)) :
    moreTerms n terms (tail ws ++ t) = (terms ++ ws.map Written.read, t) := by
  induction ws generalizing n terms with
  | nil => simpa [tail] using hstop n terms
  | cons w ws ih =>
    obtain ⟨n, rfl⟩ : ∃ k, n = k + 1 := ⟨n - 1, by simp at hn; omega⟩
    have hread := term_text w (head_tail ws ht)
    have hmore := ih (n := n) (by simp at hn; omega) (terms ++ [w.read])
    rw [tail_cons, List.cons_append, List.cons_append, List.append_assoc, moreTerms,
      Expr.skipGap_cons_of_not (by decide)]
    simp only [Expr.skipGap_space, w.solid_text.skipGap, hread, hmore, List.map_cons,
      List.append_assoc, List.singleton_append]

theorem parseList_of_stripOuter {source : String} {w : Written} {ws : List Written}
    (ht : ∀ c ∈ t.head?, c = ',') (hstop : ∀ n terms, moreTerms n terms t = (terms, t))
    (h : Column.stripOuter (Text.trimChars source.toList) =
      .ok (w.text.toList ++ (tail ws ++ t))) :
    parseList source = if (Text.trimChars t).isEmpty then ofAll ((w :: ws).map Written.read)
      else .error (.orderTermNear (.ofList (Text.trimChars t))) := by
  have hfirst := term_text w (head_tail ws ht)
  have hlength : ws.length ≤ (tail ws ++ t).length := by
    have := length_le_tail ws
    rw [List.length_append]
    omega
  have hmore := moreTerms_tail ws ht hstop hlength [w.read]
  obtain ⟨c, cs, hcs, -⟩ := w.solid_text.starts
  rw [hcs, List.cons_append] at h hfirst
  simp only [parseList, h, hfirst, hmore, List.singleton_append, List.map_cons]

end Reading

/-! ### The list of terms -/

/-- Only from a negation something is taken off. -/
theorem ofParsed_eq_self_iff (e : Expr) (direction : Option Bool) :
    ofParsed (e, direction) = .ok ⟨e, direction == some true⟩ ↔ ∀ x, e ≠ .unary .neg x := by
  constructor
  · rintro hok x rfl
    have hx : x ≠ .unary .neg x := by
      intro hx
      have hsize := congrArg sizeOf hx
      simp at hsize
    obtain _ | (_ | _) := direction <;> simp [ofParsed, hx] at hok
  · intro hne
    cases e with
    | unary op x =>
      cases op with
      | neg => exact absurd rfl (hne x)
      | not | pos => rfl
    | _ => rfl

theorem ofParsed_read_iff (w : Written) :
    ofParsed w.read = .ok w.term ↔ ∀ e, w.expr = .unary .neg e → w.marking = .minus := by
  obtain ⟨e, marking, -, -⟩ := w
  cases marking with
  | minus => exact ⟨fun _ _ _ => rfl, fun _ => rfl⟩
  | plain => exact (ofParsed_eq_self_iff e none).trans (by simp)
  | asc => exact (ofParsed_eq_self_iff e (some false)).trans (by simp)
  | desc => exact (ofParsed_eq_self_iff e (some true)).trans (by simp)

/-! ### Joined terms -/

theorem toList_join (w : Written) (ws : List Written) :
    (Text.join ", " ((w :: ws).map Written.text)).toList = w.text.toList ++ tail ws := by
  induction ws generalizing w with
  | nil => simp [Text.join, tail]
  | cons v ws ih =>
    rw [List.map_cons, Text.join_cons w.text (by simp), String.toList_append, String.toList_append,
      ih v, tail_cons, List.append_assoc]
    rfl

theorem solid_join (w : Written) (ws : List Written) : Solid (w.text.toList ++ tail ws) := by
  induction ws generalizing w with
  | nil => simpa [tail] using w.solid_text
  | cons v ws ih =>
    have hbetween := w.solid_text.between [',', ' '] (ih v)
    rw [List.append_assoc] at hbetween
    exact hbetween

theorem Written.eq_tuple_of_whole {w : Written} {items : List Expr} (hword : w.marking.word = [])
    (h : w.whole = .tuple items) : w.marking = .plain ∧ w.expr = .tuple items := by
  obtain ⟨e, marking, _, _⟩ := w
  cases marking with
  | plain => exact ⟨rfl, h⟩
  | asc | desc => cases hword
  | minus => cases h

/-- Parentheses at both ends of a list are those of two terms or of two operands, unless the list
is a tuple without a direction. -/
theorem stripOuter_join {w : Written} {ws : List Written}
    (h : ws = [] → w.marking = .plain → ∀ items, w.expr ≠ .tuple items) :
    Column.stripOuter (w.text.toList ++ tail ws) = .ok (w.text.toList ++ tail ws) := by
  by_cases hopen : (w.text.toList ++ tail ws).head? = some '('
  · rw [w.toList_text, List.append_assoc] at hopen ⊢
    have hwhole : w.whole.chars.head? = some '(' := by
      obtain ⟨c, cs, hcs, -⟩ := w.readable_whole.readsBack.1.solid.starts
      rw [hcs] at hopen ⊢
      exact hopen
    obtain ⟨rest, hcloses, htuple⟩ := w.readable_whole.closes hwhole
    -- nothing follows the first pair only if the list ends with the expression that it encloses
    refine (hcloses.append _).stripOuter_eq fun hnil => ?_
    obtain ⟨hrest, hword, htail⟩ : rest = [] ∧ w.marking.word = [] ∧ tail ws = [] := by
      simpa using hnil
    obtain ⟨items, hitems⟩ := htuple hrest
    obtain ⟨hplain, hexpr⟩ := Written.eq_tuple_of_whole hword hitems
    have hws : ws = [] := by
      cases ws with
      | nil => rfl
      | cons v ws => cases htail
    exact h hws hplain items hexpr
  · exact Column.stripOuter_of_head hopen

theorem moreTerms_nil (n : Nat) (terms : List (Expr × Option Bool)) :
    moreTerms n terms [] = (terms, []) := by
  cases n <;> rfl

theorem parseList_join {w : Written} {ws : List Written}
    (h : ws = [] → w.marking = .plain → ∀ items, w.expr ≠ .tuple items) :
    parseList (Text.join ", " ((w :: ws).map Written.text)) =
      ofAll ((w :: ws).map Written.read) := by
  refine parseList_of_stripOuter (t := []) (by simp) moreTerms_nil ?_
  rw [toList_join, (solid_join w ws).trimChars, stripOuter_join h, List.append_nil]

/-! ### A tuple alone -/

/-- An expression without a direction. -/
def Written.bare {e : Expr} (h : e.Readable) : Written :=
  ⟨e, .plain, h, by simp⟩

theorem Written.toList_bare {e : Expr} (h : e.Readable) : (bare h).text.toList = e.chars :=
  String.toList_ofList

theorem exists_tail_eq {items : List Expr} (h : ∀ e ∈ items, e.Readable) :
    ∃ ws : List Written, tail ws = Expr.tailChars items ∧
      ws.map Written.read = items.map (·, none) := by
  induction items with
  | nil => exact ⟨[], rfl, rfl⟩
  | cons e items ih =>
    rw [List.forall_mem_cons] at h
    obtain ⟨ws, htail, hread⟩ := ih h.2
    refine ⟨.bare h.1 :: ws, ?_, ?_⟩
    · rw [tail_cons, Written.toList_bare, htail]
      rfl
    · rw [List.map_cons, hread]
      rfl

theorem moreTerms_comma (n : Nat) (terms : List (Expr × Option Bool)) :
    moreTerms n terms [','] = (terms, [',']) := by
  cases n <;> rfl

/-- The parentheses of a tuple that stands alone are dropped, and its items are the terms. The comma
of a tuple of one item is left over. -/
theorem parseList_tuple {items : List Expr} (h : ∀ e ∈ items, e.Readable) :
    parseList (Expr.print (.tuple items)) =
      if items.length = 1 then .error (.orderTermNear ",") else ofAll (items.map (·, none)) := by
  have hstrip : Column.stripOuter (Text.trimChars (Expr.print (.tuple items)).toList) =
      .ok (Text.trimChars (Expr.tupleBody items)) := by
    have hsolid := (Readable.tuple h).readsBack.1.solid
    rw [Expr.print, String.toList_ofList, hsolid.trimChars, Expr.chars_tuple]
    exact Column.stripOuter_parenthesized (Expr.passed_tupleBody fun e he => (h e he).passed)
  cases items with
  | nil =>
    simp only [parseList, hstrip]
    rfl
  | cons e items =>
    rw [List.forall_mem_cons] at h
    have htext := Written.toList_bare h.1
    cases items with
    | nil =>
      have hbody : Expr.tupleBody [e] = (Written.bare h.1).text.toList ++ (tail [] ++ [',']) := by
        rw [Expr.tupleBody, Expr.intercalate_eq, htext]
        simp [tail, Expr.tailChars]
      have hsolid := (Written.bare h.1).solid_text.concat (tail []) (c := ',') (by decide)
      rw [hbody, hsolid.trimChars] at hstrip
      rw [parseList_of_stripOuter (by simp) moreTerms_comma hstrip]
      rfl
    | cons f items =>
      obtain ⟨ws, htail, hread⟩ := exists_tail_eq h.2
      have hbody : Expr.tupleBody (e :: f :: items) =
          (Written.bare h.1).text.toList ++ tail ws := by
        rw [Expr.tupleBody, Expr.intercalate_eq, htext, htail]
        simp
      rw [hbody, (solid_join _ ws).trimChars, ← List.append_nil (tail ws)] at hstrip
      rw [parseList_of_stripOuter (by simp) moreTerms_nil hstrip, List.map_cons, hread]
      exact (if_neg (by simp)).symm

theorem parseList_lone_ne {w : Written} {items : List Expr} (hplain : w.marking = .plain)
    (hitems : w.expr = .tuple items) : parseList w.text ≠ .ok [w.term] := by
  have htext : w.text = Expr.print (.tuple items) := by rw [Written.text, hplain, hitems]
  have hreadable : ∀ e ∈ items, e.Readable := by
    have htuple := w.readable
    rw [hitems] at htuple
    cases htuple with
    | tuple h => exact h
  rw [htext, parseList_tuple hreadable]
  -- one item leaves its comma over, and other tuples have another number of terms
  split
  · simp
  · next hone =>
    intro hread
    have hlength := (ofAll_eq_ok_iff.mp hread).length_eq
    exact hone (by simpa using hlength)

/-- A written list is read as its terms unless one of them is a negation without another minus sign
before it, or it is a tuple alone, without a direction. -/
theorem parseList_join_iff (ws : List Written) :
    parseList (Text.join ", " (ws.map Written.text)) = .ok (ws.map Written.term) ↔
      (∀ w ∈ ws, ∀ e, w.expr = .unary .neg e → w.marking = .minus) ∧
        ∀ w, ws = [w] → w.marking = .plain → ∀ items, w.expr ≠ .tuple items := by
  cases ws with
  | nil => exact iff_of_true rfl ⟨by simp, by simp⟩
  | cons w ws =>
    by_cases hlone : ws = [] → w.marking = .plain → ∀ items, w.expr ≠ .tuple items
    · have htuple : ∀ v, w :: ws = [v] → v.marking = .plain → ∀ items, v.expr ≠ .tuple items := by
        intro v hv
        obtain ⟨rfl, rfl⟩ := List.cons.inj hv
        exact hlone rfl
      rw [parseList_join hlone, ofAll_eq_ok_iff, List.forall₂_map_left_iff,
        List.forall₂_map_right_iff, List.forall₂_same]
      simp only [ofParsed_read_iff, and_iff_left htuple]
    · push Not at hlone
      obtain ⟨rfl, hplain, items, hitems⟩ := hlone
      refine iff_of_false (fun hread => ?_) fun h => h.2 w rfl hplain items hitems
      exact parseList_lone_ne hplain hitems hread

/-- Parentheses at both ends, and one in a string. -/
def ranking : List Written :=
  have path {name : String} (h : Expr.IsName name) : Readable (.path name []) := .path h (by simp)
  [⟨.binary .mul (.binary .add (.path "price" []) (.path "tax" [])) (.path "count" []), .desc,
      .binary .mul (.binary .add (path (by decide)) (path (by decide))) (path (by decide)),
      by decide⟩,
    ⟨.str "it's )", .minus, .str (by simp), by decide⟩,
    ⟨.tuple [.path "title" [], .null], .plain,
      .tuple (by simpa using ⟨path (by decide), .null⟩), by decide⟩]

theorem parseList_join_iff_ranking :
    parseList "(price + tax) * count desc, -'it''s )', (title, null)" =
      .ok [⟨.binary .mul (.binary .add (.path "price" []) (.path "tax" [])) (.path "count" []),
        true⟩, ⟨.str "it's )", true⟩, ⟨.tuple [.path "title" [], .null], false⟩] := by
  have htext : Text.join ", " (ranking.map Written.text) =
      "(price + tax) * count desc, -'it''s )', (title, null)" := by
    decide
  rw [← htext]
  exact (parseList_join_iff ranking).mpr ⟨by simp [ranking], by simp [ranking]⟩

end PathQuery.OrderTerm
