import PathQuery.Proofs.Sql.Scan
import PathQuery.Proofs.Placeholder.Filling
import Mathlib.Data.List.Infix
import Mathlib.Data.List.TakeWhile

/-!
Putting SQL together from pieces without leaving anything open. A clean piece is fine at the start
of a text, a neutral one anywhere outside quotes, and after it the scan is as at the start.
Replacing placeholders by inert text changes nothing for the scan.
-/

namespace PathQuery.Sql

variable {s t : String}

/-- Fine at the start of a text. -/
def Clean (s : String) : Prop :=
  (scan .plain s.toList).isOpen

/-- Fine at the start of a text, and all is as at the start after it. -/
def Closed (s : String) : Prop :=
  scan .plain s.toList = .plain

/-- Fine after any clean text. -/
def Follows (s : String) : Prop :=
  ∀ m : Mode, m.isOpen → (scan m s.toList).isOpen

/-- Fine after any clean text, and all is as at the start after it. -/
def Neutral (s : String) : Prop :=
  ∀ m : Mode, m.isOpen → scan m s.toList = .plain

theorem neutral_iff : Neutral s ↔ scan .plain s.toList = .plain ∧ scan .dash s.toList = .plain ∧
    scan .slash s.toList = .plain := by
  constructor
  · intro h
    exact ⟨h _ rfl, h _ rfl, h _ rfl⟩
  · rintro ⟨hplain, hdash, hslash⟩ m hm
    cases m with
    | plain => exact hplain
    | dash => exact hdash
    | slash => exact hslash
    | literal => cases hm
    | ident => cases hm
    | broken => cases hm

instance : Decidable (Neutral s) :=
  decidable_of_iff' _ neutral_iff

instance : Decidable (Clean s) :=
  inferInstanceAs (Decidable (_ = true))

instance : Decidable (Closed s) :=
  inferInstanceAs (Decidable (_ = _))

theorem Closed.clean (h : Closed s) : Clean s := by
  rw [Clean, h]
  rfl

theorem Neutral.closed (h : Neutral s) : Closed s :=
  h .plain rfl

theorem Neutral.clean (h : Neutral s) : Clean s :=
  h.closed.clean

theorem Neutral.follows (h : Neutral s) : Follows s := by
  intro m hm
  rw [h m hm]
  rfl

theorem clean_empty : Clean "" := by
  decide

theorem follows_empty : Follows "" := by
  intro m hm
  simpa [scan] using hm

theorem Closed.append (hs : Closed s) (ht : Clean t) : Clean (s ++ t) := by
  unfold Clean
  rw [String.toList_append, scan_append, hs]
  exact ht

theorem Clean.close (hs : Clean s) (ht : Neutral t) : Closed (s ++ t) := by
  unfold Closed
  rw [String.toList_append, scan_append]
  exact ht _ hs

theorem Clean.append (hs : Clean s) (ht : Follows t) : Clean (s ++ t) := by
  unfold Clean
  rw [String.toList_append, scan_append]
  exact ht _ hs

theorem Neutral.append (hs : Neutral s) (ht : Closed t) : Neutral (s ++ t) := by
  intro m hm
  rw [String.toList_append, scan_append, hs m hm]
  exact ht

theorem Neutral.append_clean (hs : Neutral s) (ht : Clean t) : Follows (s ++ t) := by
  intro m hm
  rw [String.toList_append, scan_append, hs m hm]
  exact ht

theorem Follows.close (hs : Follows s) (ht : Neutral t) : Neutral (s ++ t) := by
  intro m hm
  rw [String.toList_append, scan_append]
  exact ht _ (hs m hm)

theorem Clean.join {sep : String} {parts : List String} (hsep : Neutral sep)
    (h : ∀ p ∈ parts, Clean p) : Clean (Text.join sep parts) := by
  induction parts with
  | nil => exact clean_empty
  | cons p rest ih =>
    have hp : Clean p := h p (by simp)
    cases rest with
    | nil => exact hp
    | cons q rest =>
      have hrest := ih fun x hx => h x (List.mem_cons_of_mem p hx)
      exact (hp.close hsep).append hrest

theorem neutral_parenthesized (h : Clean s) : Neutral ("(" ++ s ++ ")") := by
  have hopen : Neutral "(" := by decide
  have hclose : Neutral ")" := by decide
  exact (hopen.append_clean h).close hclose

/-- An operator between two texts. -/
theorem Clean.between {op : String} (hs : Clean s) (hop : Clean op) (ht : Clean t) :
    Clean (s ++ " " ++ op ++ " " ++ t) := by
  have hblank : Neutral " " := by decide
  exact (((hs.close hblank).append hop).close hblank).append ht

/-- A text behind words that open a bracket, with the bracket closed after it. -/
theorem Closed.enclose (hs : Closed s) (ht : Clean t) : Clean (s ++ t ++ ")") := by
  have hclose : Neutral ")" := by decide
  exact ((hs.append ht).close hclose).clean

/-- A minus before a text that does not start with one. -/
theorem Clean.negated (h : Clean s) (hs : s.toList.head? ≠ some '-') : Clean ("-" ++ s) := by
  have hdash : scan .plain "-".toList = .dash := by decide
  unfold Clean at h ⊢
  rw [String.toList_append, scan_append, hdash]
  cases hcs : s.toList with
  | nil => rfl
  | cons c cs =>
    rw [hcs] at h hs
    have hc : c ≠ '-' := by simpa using hs
    have hsame : Mode.next .dash c = Mode.next .plain c := by
      simp [Mode.next, Mode.outside, hc]
    rw [scan_cons, hsame]
    exact h

/-! ### Quoted text -/

theorem scan_doubled (q : Char) (hq : q = '\'' ∨ q = '"') (cs : List Char) :
    scan (.within q) (Text.doubled q cs) = .within q := by
  induction cs with
  | nil => rfl
  | cons c cs ih =>
    by_cases hc : c = q
    · subst hc
      have hagain : Mode.next .plain c = .within c := by rcases hq with rfl | rfl <;> rfl
      simp only [Text.doubled, beq_self_eq_true, if_true, scan_cons, next_within hq, hagain]
      exact ih
    · simp only [Text.doubled, beq_iff_eq, if_neg hc, scan_cons, next_within hq]
      exact ih

theorem neutral_quoted {q : Char} (hq : q = '\'' ∨ q = '"') (s : String) :
    Neutral (Text.quoted q s) := by
  intro m hm
  have hstart : m.next q = .within q := by
    rw [next_of_isOpen hm]
    rcases hq with rfl | rfl <;> rfl
  rw [Text.quoted, String.toList_ofList, List.cons_append, scan_cons, hstart, scan_append,
    scan_doubled q hq, scan_cons, next_within hq]
  simp [scan]

theorem neutral_quoteIdent (s : String) : Neutral (Text.quoteIdent s) :=
  neutral_quoted (.inr rfl) s

theorem neutral_quoteLiteral (s : String) : Neutral (Text.quoteLiteral s) :=
  neutral_quoted (.inl rfl) s

/-! ### Inert text -/

/-- A character that means nothing outside quotes. -/
def isInert (c : Char) : Bool :=
  c != '\'' && c != '"' && c != ';' && c != '-' && c != '*' && c != '/'

/-- Some text of inert characters. -/
def Inert (cs : List Char) : Prop :=
  cs ≠ [] ∧ ∀ c ∈ cs, isInert c

instance (cs : List Char) : Decidable (Inert cs) :=
  decidable_of_iff (cs ≠ [] ∧ cs.all isInert) (by simp [Inert])

theorem next_inert {c : Char} (hc : isInert c) (m : Mode) : m.next c = m.settle := by
  simp only [isInert, Bool.and_eq_true, bne_iff_ne, ne_eq] at hc
  obtain ⟨⟨⟨⟨⟨h1, h2⟩, h3⟩, h4⟩, h5⟩, h6⟩ := hc
  cases m <;> simp [Mode.next, Mode.outside, Mode.settle, h1, h2, h3, h4, h5, h6]

theorem scan_inert {cs : List Char} (h : Inert cs) (m : Mode) : scan m cs = m.settle := by
  obtain ⟨hne, hall⟩ := h
  induction cs generalizing m with
  | nil => exact absurd rfl hne
  | cons c cs ih =>
    rw [scan_cons, next_inert (hall c (by simp))]
    cases cs with
    | nil => rfl
    | cons d cs =>
      rw [ih _ (by simp) fun x hx => hall x (List.mem_cons_of_mem c hx)]
      cases m <;> rfl

theorem neutral_inert (h : Inert s.toList) : Neutral s := by
  intro m hm
  rw [scan_inert h]
  cases m <;> first | rfl | cases hm

theorem Inert.append {cs ds : List Char} (hc : Inert cs) (hd : ∀ c ∈ ds, isInert c) :
    Inert (cs ++ ds) := by
  refine ⟨by simp [hc.1], ?_⟩
  intro c hmem
  rcases List.mem_append.mp hmem with hmem | hmem
  · exact hc.2 c hmem
  · exact hd c hmem

/-- A class of characters without those that mean something outside quotes. -/
theorem isInert_of_class {p : Char → Bool}
    (hp : (['\'', '"', ';', '-', '*', '/'].any p) = false) {c : Char} (hc : p c) : isInert c := by
  have hne (d : Char) (hd : d ∈ ['\'', '"', ';', '-', '*', '/']) : c ≠ d := by
    intro heq
    rw [heq] at hc
    exact List.any_eq_false.mp hp d hd hc
  simp only [isInert, Bool.and_eq_true, bne_iff_ne, ne_eq]
  exact ⟨⟨⟨⟨⟨hne _ (by simp), hne _ (by simp)⟩, hne _ (by simp)⟩, hne _ (by simp)⟩,
    hne _ (by simp)⟩, hne _ (by simp)⟩

theorem isInert_of_isWordChar {c : Char} : Text.isWordChar c → isInert c :=
  isInert_of_class (by decide)

theorem isInert_of_isNameChar {c : Char} : Text.isNameChar c → isInert c :=
  isInert_of_class (by decide)

theorem isInert_of_isDigit {c : Char} : c.isDigit → isInert c :=
  isInert_of_class (by decide)

theorem inert_ofNat (n : Nat) : Inert (Text.ofNat n).toList := by
  rw [Text.ofNat, String.toList_ofList]
  refine ⟨Nat.toDigits_ne_nil, ?_⟩
  intro c hc
  exact isInert_of_isDigit (Nat.isDigit_of_mem_toDigits (by decide) (by decide) hc)

theorem inert_token {name : String} (h : ∀ c ∈ name.toList, isInert c) :
    Inert (Placeholder.token name).toList := by
  have hopen : Inert "\x7b".toList := by decide
  have hclose : Inert "\x7d".toList := by decide
  rw [Placeholder.token, String.toList_append, String.toList_append]
  exact (hopen.append h).append hclose.2

/-! ### Replacing placeholders -/

section Substitution

open Placeholder

/-- The text that a piece stands for. -/
def pieceText : Piece → List Char
  | .char c => [c]
  | .token name => '\x7b' :: name ++ ['\x7d']

theorem token?_some {cs name : List Char} (h : token? cs = some name) :
    (∀ c ∈ name, Text.isWordChar c) ∧ ∃ rest, cs = name ++ '\x7d' :: rest := by
  simp only [token?] at h
  split at h
  · cases h
  · split at h
    · next c rest hdrop =>
      split at h
      · next hc =>
        cases h
        rw [beq_iff_eq] at hc
        refine ⟨fun _ => List.mem_takeWhile_imp, rest, ?_⟩
        rw [← hc, ← hdrop]
        exact List.prefix_append_drop (List.takeWhile_prefix _)
      · cases h
    · cases h

/-- The pieces hold the whole text, and their tokens are words. -/
theorem piecesFrom_text (quoted : Bool) (skip : Nat) (cs : List Char) :
    (piecesFrom quoted skip cs).flatMap pieceText = cs.drop skip ∧
      ∀ name, .token name ∈ piecesFrom quoted skip cs → ∀ c ∈ name, Text.isWordChar c := by
  fun_induction piecesFrom quoted skip cs with
  | case1 => simp
  | case2 quoted skip c cs ih => simpa using ih
  | case3 quoted c cs hc ih => simpa [pieceText] using ih
  | case4 quoted c cs hc name hname ih =>
    split at hname
    · next hbrace =>
      rw [Bool.and_eq_true, beq_iff_eq] at hbrace
      obtain ⟨hword, rest, rfl⟩ := token?_some hname
      obtain ⟨htext, htokens⟩ := ih
      refine ⟨?_, ?_⟩
      · rw [List.flatMap_cons, htext, hbrace.1]
        simp [pieceText, List.drop_append]
      · intro other hother
        rcases List.mem_cons.mp hother with hother | hother
        · cases hother
          exact hword
        · exact htokens other hother
    · cases hname
  | case5 quoted c cs hc hname ih => simpa [pieceText] using ih

variable {σ : Type} {replace : String → StateT σ (Except Error) String} {st st' : σ}

/-- Inert text in the place of tokens is not seen by the scan. -/
theorem scan_fill {ps : List Piece} {out : List Char}
    (hps : ∀ name, .token name ∈ ps → ∀ c ∈ name, Text.isWordChar c)
    (hreplace : ∀ (name : List Char) new st st', (∀ c ∈ name, Text.isWordChar c) →
      replace (.ofList name) st = .ok (new, st') → Inert new.toList)
    (h : fill replace ps st = .ok (out, st')) (m : Mode) :
    scan m out = scan m (ps.flatMap pieceText) := by
  induction ps generalizing out m st with
  | nil =>
    rw [(fill_nil.mp h).1]
    rfl
  | cons p ps ih =>
    have hps' : ∀ name, .token name ∈ ps → ∀ c ∈ name, Text.isWordChar c :=
      fun name hname => hps name (List.mem_cons_of_mem p hname)
    cases p with
    | char c =>
      obtain ⟨rest, hrest, rfl⟩ := fill_char.mp h
      rw [List.flatMap_cons, scan_append, scan_cons, ih hps' hrest]
      rfl
    | token name =>
      obtain ⟨new, mid, rest, hnew, hrest, rfl⟩ := fill_token.mp h
      have hword := hps name (by simp)
      have htoken : Inert (pieceText (.token name)) := by
        have heq : pieceText (.token name) = (Placeholder.token (.ofList name)).toList := by
          simp [pieceText, Placeholder.token]
        rw [heq]
        exact inert_token (by simpa using fun c hc => isInert_of_isWordChar (hword c hc))
      rw [List.flatMap_cons, scan_append, scan_append, scan_inert (hreplace _ _ _ _ hword hnew),
        scan_inert htoken, ih hps' hrest]

theorem scan_substitute {text out : String}
    (hreplace : ∀ (name : List Char) new st st', (∀ c ∈ name, Text.isWordChar c) →
      replace (.ofList name) st = .ok (new, st') → Inert new.toList)
    (h : substitute replace text st = .ok (out, st')) (m : Mode) :
    scan m out.toList = scan m text.toList := by
  obtain ⟨htext, htokens⟩ := piecesFrom_text false 0 text.toList
  rw [scan_fill htokens hreplace (substitute_ok_iff.mp h), htext, List.drop_zero]

theorem inert_spliceToken (i : Nat) : Inert (Splice.token i).toList := by
  have hlead : ∀ c ∈ Splice.lead, isInert c := List.all_eq_true.mp (by decide)
  refine inert_token ?_
  rw [String.toList_ofList]
  intro c hc
  rcases List.mem_append.mp hc with hc | hc
  · exact hlead c hc
  · exact isInert_of_isDigit (Nat.isDigit_of_mem_toDigits (by decide) (by decide) hc)

theorem inert_moveToken {name : List Char} {new : String} {offset : Nat} {own : Option Context}
    {st st' : List Value} (hword : ∀ c ∈ name, Text.isWordChar c)
    (h : Splice.moveToken offset own (.ofList name) st = .ok (new, st')) : Inert new.toList := by
  simp only [Splice.moveToken] at h
  split at h
  · cases h
    exact inert_spliceToken _
  · split at h
    · cases h
      exact inert_spliceToken _
    · cases h
  · cases h
    exact inert_token (by simpa using fun c hc => isInert_of_isWordChar (hword c hc))

/-- Moving a text behind others changes nothing for the scan. -/
theorem scan_move {sql out : String} {carried before after : List Value} {own : Option Context}
    (h : Splice.move sql carried own before = .ok (out, after)) (m : Mode) :
    scan m out.toList = scan m sql.toList :=
  scan_substitute (fun _ _ _ _ hword hnew => inert_moveToken hword hnew) h m

theorem inert_marker (d : Dialect) (i : Nat) : Inert (d.marker i).toList := by
  have hdollar : Inert "$".toList := by decide
  have hquestion : Inert "?".toList := by decide
  cases d with
  | postgres =>
    rw [Dialect.marker, String.toList_append]
    exact hdollar.append (inert_ofNat i).2
  | sqlite =>
    rw [Dialect.marker, String.toList_append]
    exact hquestion.append (inert_ofNat i).2
  | generic => exact hquestion

theorem isInert_join {sep : String} {parts : List String} (hsep : ∀ c ∈ sep.toList, isInert c)
    (h : ∀ p ∈ parts, ∀ c ∈ p.toList, isInert c) :
    ∀ c ∈ (Text.join sep parts).toList, isInert c := by
  fun_induction Text.join sep parts with
  | case1 => simp
  | case2 p => exact h p (by simp)
  | case3 p q rest ih =>
    have hrest := ih fun x hx => h x (List.mem_cons_of_mem p hx)
    intro c hc
    simp only [String.toList_append, List.mem_append] at hc
    rcases hc with (hc | hc) | hc
    · exact h p (by simp) c hc
    · exact hsep c hc
    · exact hrest c hc

theorem inert_markers (d : Dialect) (count : Nat) (items : List Value) :
    ∀ p ∈ Template.markers d count items, ∀ c ∈ p.toList, isInert c := by
  induction items generalizing count with
  | nil => simp [Template.markers]
  | cons v rest ih =>
    intro p hp
    rcases List.mem_cons.mp hp with rfl | hp
    · exact (inert_marker d _).2
    · exact ih _ p hp

theorem inert_pushValue (d : Dialect) (v : Value) (parameters : List Value) :
    Inert (Template.pushValue d v parameters).1.toList := by
  have hnull : Inert "(NULL)".toList := by decide
  unfold Template.pushValue
  split
  · exact hnull
  · have hopen : Inert "(".toList := by decide
    have hcomma : Inert ", ".toList := by decide
    have hclose : Inert ")".toList := by decide
    rw [String.toList_append, String.toList_append]
    exact (hopen.append (isInert_join hcomma.2 (inert_markers d _ _))).append hclose.2
  · exact inert_marker d _

/-- Binding changes nothing for the scan. -/
theorem scan_bind {t : Template} {d : Dialect} {context : Context} {c : Compiled}
    (h : t.bind d context = .ok c) (m : Mode) : scan m c.sql.toList = scan m t.sql.toList := by
  unfold Template.bind at h
  split at h
  · next sql parameters hsub =>
    cases h
    refine scan_substitute ?_ hsub m
    intro name new st st' _ hnew
    simp only [Template.bindToken] at hnew
    split at hnew
    · next v _ =>
      have hinert := inert_pushValue d v st
      rw [Except.ok.inj hnew] at hinert
      exact hinert
    · cases hnew
  · cases h

end Substitution

end PathQuery.Sql
