import PathQuery.Proofs.Sql.Fragment
import Mathlib.Data.List.Forall2

/-!
SQL text as it is composed: plain characters, literals, identifiers and placeholders. Such a text
can be told from its parts, wherever it stands: text that is woven from parts has their
placeholders, one after the other. Moving renames them, and binding puts markers in their places.
-/

namespace PathQuery.Sql

open Placeholder

/-! ### Markers -/

/-- The bind markers outside quotes, each with the digits after it, when the text starts inside
`quote` or outside. -/
def markersFrom : Option Char → List Char → List (List Char)
  | _, [] => []
  | some q, c :: cs => markersFrom (if c == q then none else some q) cs
  | none, c :: cs =>
    if c == '\'' || c == '"' then markersFrom (some c) cs
    else if c == '$' || c == '?' then (c :: cs.takeWhile Char.isDigit) :: markersFrom none cs
    else markersFrom none cs

/-- The pieces of a text in which a placeholder is a token outside both kinds of quotes, when the
text starts inside `quote` or outside. The first `skip` characters belong to the token before. -/
def lexedFrom : Option Char → Nat → List Char → List Piece
  | _, _, [] => []
  | quote, skip + 1, _ :: cs => lexedFrom quote skip cs
  | some q, 0, c :: cs => .char c :: lexedFrom (if c == q then none else some q) 0 cs
  | none, 0, c :: cs =>
    if c == '\'' || c == '"' then .char c :: lexedFrom (some c) 0 cs
    else
      match if c == '\x7b' then token? cs else none with
      | some name => .token name :: lexedFrom none (name.length + 1) cs
      | none => .char c :: lexedFrom none 0 cs

/-- The pieces of a statement with single-quoted strings and double-quoted identifiers. -/
def lexed (text : List Char) : List Piece :=
  lexedFrom none 0 text

/-- The bind markers of a statement, from left to right. -/
def bindMarkers (sql : String) : List String :=
  (markersFrom none sql.toList).map String.ofList

/-! ### Still text -/

/-- Text without placeholders and markers, after which the reading goes on outside quotes. -/
structure Still (u : List Char) : Prop where
  pieces : ∀ rest, piecesFrom false 0 (u ++ rest) = u.map .char ++ piecesFrom false 0 rest
  lexed : ∀ rest, lexedFrom none 0 (u ++ rest) = u.map .char ++ lexedFrom none 0 rest
  markers : ∀ rest, markersFrom none (u ++ rest) = markersFrom none rest

variable {u v cs ds : List Char} {names more : List String}

theorem still_nil : Still [] :=
  ⟨fun _ => rfl, fun _ => rfl, fun _ => rfl⟩

theorem Still.append (hu : Still u) (hv : Still v) : Still (u ++ v) where
  pieces rest := by
    rw [List.append_assoc, hu.pieces, hv.pieces, List.map_append, List.append_assoc]
  lexed rest := by
    rw [List.append_assoc, hu.lexed, hv.lexed, List.map_append, List.append_assoc]
  markers rest := by
    rw [List.append_assoc, hu.markers, hv.markers]

theorem piecesFrom_chars (h : ∀ c ∈ u, c ≠ '\'' ∧ c ≠ '\x7b') (rest : List Char) :
    piecesFrom false 0 (u ++ rest) = u.map .char ++ piecesFrom false 0 rest := by
  induction u with
  | nil => rfl
  | cons c u ih =>
    rw [List.forall_mem_cons] at h
    obtain ⟨⟨hquote, hbrace⟩, hu⟩ := h
    rw [List.cons_append, piecesFrom]
    simp [hquote, hbrace, ih hu]

/-- Characters that stand for themselves outside quotes. -/
def isPlain (c : Char) : Bool :=
  c != '\'' && c != '"' && c != '\x7b' && c != '$' && c != '?'

theorem isPlain_of_class {p : Char → Bool}
    (hp : (['\'', '"', '\x7b', '$', '?'].any p) = false) {c : Char} (hc : p c) : isPlain c := by
  have hne (d : Char) (hd : d ∈ ['\'', '"', '\x7b', '$', '?']) : c ≠ d := by
    intro heq
    rw [heq] at hc
    exact List.any_eq_false.mp hp d hd hc
  simp only [isPlain, Bool.and_eq_true, bne_iff_ne, ne_eq]
  exact ⟨⟨⟨⟨hne _ (by simp), hne _ (by simp)⟩, hne _ (by simp)⟩, hne _ (by simp)⟩,
    hne _ (by simp)⟩

theorem still_plain (h : u.all isPlain) : Still u where
  pieces rest := by
    refine piecesFrom_chars (fun c hc => ?_) rest
    have hplain := List.all_eq_true.mp h c hc
    simp only [isPlain, Bool.and_eq_true, bne_iff_ne, ne_eq] at hplain
    exact ⟨hplain.1.1.1.1, hplain.1.1.2⟩
  lexed rest := by
    induction u with
    | nil => rfl
    | cons c u ih =>
      rw [List.all_cons, Bool.and_eq_true] at h
      have hplain := h.1
      simp only [isPlain, Bool.and_eq_true, bne_iff_ne, ne_eq] at hplain
      rw [List.cons_append, lexedFrom]
      simp [hplain, ih h.2]
  markers rest := by
    induction u with
    | nil => rfl
    | cons c u ih =>
      rw [List.all_cons, Bool.and_eq_true] at h
      have hplain := h.1
      simp only [isPlain, Bool.and_eq_true, bne_iff_ne, ne_eq] at hplain
      rw [List.cons_append, markersFrom]
      simp [hplain, ih h.2]

theorem still_ofNat (n : Nat) : Still (Text.ofNat n).toList := by
  rw [Text.ofNat, String.toList_ofList]
  refine still_plain (List.all_eq_true.mpr fun c hc => ?_)
  exact isPlain_of_class (p := Char.isDigit) (by decide)
    (Nat.isDigit_of_mem_toDigits (by decide) (by decide) hc)

/-- Inside a literal nothing is a placeholder. -/
theorem piecesFrom_literal (text rest : List Char) :
    piecesFrom true 0 (Text.doubled '\'' text ++ '\'' :: rest) =
      (Text.doubled '\'' text ++ ['\'']).map .char ++ piecesFrom false 0 rest := by
  induction text with
  | nil => simp [Text.doubled, piecesFrom]
  | cons c text ih =>
    by_cases hc : c = '\''
    · simp only [Text.doubled, hc, beq_self_eq_true, if_true, List.cons_append, piecesFrom,
        Bool.not_true, Bool.not_false, ih]
      rfl
    · simp only [Text.doubled, beq_iff_eq, hc, if_false, List.cons_append, piecesFrom,
        Bool.not_true, Bool.and_false, Bool.false_eq_true, ih]
      rfl

/-- Inside quotes of either kind nothing is a placeholder. -/
theorem lexedFrom_quoted {q : Char} (hq : q = '\'' ∨ q = '"') (text rest : List Char) :
    lexedFrom (some q) 0 (Text.doubled q text ++ q :: rest) =
      (Text.doubled q text ++ [q]).map .char ++ lexedFrom none 0 rest := by
  induction text with
  | nil => simp [Text.doubled, lexedFrom]
  | cons c text ih =>
    by_cases hc : c = q
    · subst hc
      have hquote : (c == '\'' || c == '"') = true := by simpa using hq
      simp only [Text.doubled, beq_self_eq_true, if_true, List.cons_append, lexedFrom, hquote, ih]
      rfl
    · simp only [Text.doubled, beq_iff_eq, hc, if_false, List.cons_append, lexedFrom, ih]
      rfl

/-- Inside quotes nothing is a marker. -/
theorem markersFrom_quoted {q : Char} (hq : q = '\'' ∨ q = '"') (text rest : List Char) :
    markersFrom (some q) (Text.doubled q text ++ q :: rest) = markersFrom none rest := by
  induction text with
  | nil => simp [Text.doubled, markersFrom]
  | cons c text ih =>
    by_cases hc : c = q
    · subst hc
      have hquote : (c == '\'' || c == '"') = true := by simpa using hq
      simp only [Text.doubled, beq_self_eq_true, if_true, List.cons_append, markersFrom, hquote,
        ih]
    · simp only [Text.doubled, beq_iff_eq, hc, if_false, List.cons_append, markersFrom, ih]

theorem toList_quoted (q : Char) (text : String) (rest : List Char) :
    (Text.quoted q text).toList ++ rest = q :: (Text.doubled q text.toList ++ q :: rest) := by
  simp [Text.quoted]

theorem still_literal (text : String) : Still (Text.quoteLiteral text).toList where
  pieces rest := by
    rw [Text.quoteLiteral, toList_quoted, piecesFrom, Text.quoted, String.toList_ofList]
    simp [piecesFrom_literal]
  lexed rest := by
    rw [Text.quoteLiteral, toList_quoted, lexedFrom, Text.quoted, String.toList_ofList]
    simp [lexedFrom_quoted]
  markers rest := by
    rw [Text.quoteLiteral, toList_quoted, markersFrom]
    simp [markersFrom_quoted]

/-- A name that can stand in double quotes without opening a literal or a placeholder. -/
def Tidy (name : String) : Prop :=
  '\'' ∉ name.toList ∧ '\x7b' ∉ name.toList

instance (name : String) : Decidable (Tidy name) :=
  inferInstanceAs (Decidable (_ ∧ _))

theorem tidy_of_class {p : Char → Bool} (hp : (['\'', '\x7b'].any p) = false) {name : String}
    (h : ∀ c ∈ name.toList, p c) : Tidy name := by
  simp only [List.any_cons, List.any_nil, Bool.or_false, Bool.or_eq_false_iff] at hp
  constructor
  · intro hmem
    rw [h _ hmem] at hp
    cases hp.1
  · intro hmem
    rw [h _ hmem] at hp
    cases hp.2

theorem tidy_ofNat (n : Nat) : Tidy (Text.ofNat n) := by
  refine tidy_of_class (p := Char.isDigit) (by decide) ?_
  rw [Text.ofNat, String.toList_ofList]
  intro c hc
  exact Nat.isDigit_of_mem_toDigits (by decide) (by decide) hc

theorem mem_doubled {q c : Char} (h : c ∈ Text.doubled q cs) : c ∈ cs := by
  induction cs with
  | nil => cases h
  | cons d cs ih =>
    rw [Text.doubled] at h
    split at h
    · simp only [List.mem_cons] at h ⊢
      rcases h with h | h | h
      · exact .inl h
      · exact .inl h
      · exact .inr (ih h)
    · simp only [List.mem_cons] at h ⊢
      exact h.imp_right ih

theorem still_ident {name : String} (h : Tidy name) : Still (Text.quoteIdent name).toList where
  pieces rest := by
    refine piecesFrom_chars (fun c hc => ?_) rest
    rw [Text.quoteIdent, Text.quoted, String.toList_ofList, List.mem_append, List.mem_cons,
      List.mem_singleton] at hc
    rcases hc with (rfl | hc) | rfl
    · decide
    · constructor
      · rintro rfl
        exact h.1 (mem_doubled hc)
      · rintro rfl
        exact h.2 (mem_doubled hc)
    · decide
  lexed rest := by
    rw [Text.quoteIdent, toList_quoted, lexedFrom, Text.quoted, String.toList_ofList]
    simp [lexedFrom_quoted]
  markers rest := by
    rw [Text.quoteIdent, toList_quoted, markersFrom]
    simp [markersFrom_quoted]

/-! ### Composed text -/

/-- The name of a placeholder. -/
def IsWord (name : String) : Prop :=
  name.toList ≠ [] ∧ ∀ c ∈ name.toList, Text.isWordChar c

instance (name : String) : Decidable (IsWord name) :=
  decidable_of_iff (name.toList ≠ [] ∧ name.toList.all Text.isWordChar) (by simp [IsWord])

/-- Still text and placeholders of the given names, none with a digit right after it. -/
inductive Composed : List Char → List String → Prop
  | nil : Composed [] []
  | text {u cs : List Char} {names : List String} (hu : Still u) (h : Composed cs names) :
      Composed (u ++ cs) names
  | token {name : String} {cs : List Char} {names : List String} (hname : IsWord name)
      (hnext : ∀ c ∈ cs.head?, c.isDigit = false) (h : Composed cs names) :
      Composed ((Placeholder.token name).toList ++ cs) (name :: names)

theorem Still.composed (h : Still u) : Composed u [] := by
  rw [← List.append_nil u]
  exact .text h .nil

/-- Text can follow a placeholder if it does not start with a digit. -/
theorem Composed.append (h : Composed cs names) (h' : Composed ds more)
    (hd : ∀ c ∈ ds.head?, c.isDigit = false) : Composed (cs ++ ds) (names ++ more) := by
  induction h with
  | nil => exact h'
  | text hu _ ih =>
    rw [List.append_assoc]
    exact .text hu ih
  | @token name cs names hname hnext h ih =>
    rw [List.append_assoc]
    refine .token hname ?_ ih
    cases cs with
    | nil => exact hd
    | cons c cs => exact hnext

theorem Composed.names_of_not_mem (h : Composed cs names) (hbrace : '\x7b' ∉ cs) :
    names = [] := by
  induction h with
  | nil => rfl
  | text _ _ ih => exact ih fun hmem => hbrace (List.mem_append_right _ hmem)
  | token => simp [Placeholder.token] at hbrace

theorem piecesFrom_skip (quoted : Bool) (n : Nat) (cs : List Char) :
    piecesFrom quoted n cs = piecesFrom quoted 0 (cs.drop n) := by
  induction n generalizing cs with
  | zero => rfl
  | succ n ih =>
    cases cs with
    | nil => simp [piecesFrom]
    | cons c cs => rw [piecesFrom, ih, List.drop_succ_cons]

theorem IsWord.token?_eq {name : String} (h : IsWord name) (rest : List Char) :
    token? (name.toList ++ '\x7d' :: rest) = some name.toList := by
  have hword : (name.toList ++ '\x7d' :: rest).takeWhile Text.isWordChar = name.toList := by
    rw [List.takeWhile_append_of_pos h.2, List.takeWhile_cons_of_neg (by decide),
      List.append_nil]
  have hsome : name.toList.isEmpty = false := by simpa using h.1
  simp [token?, hword, hsome]

theorem toList_token (name : String) (rest : List Char) :
    (Placeholder.token name).toList ++ rest = '\x7b' :: (name.toList ++ '\x7d' :: rest) := by
  simp [Placeholder.token]

theorem piecesFrom_token {name : String} (h : IsWord name) (rest : List Char) :
    piecesFrom false 0 ((Placeholder.token name).toList ++ rest) =
      .token name.toList :: piecesFrom false 0 rest := by
  rw [toList_token, piecesFrom]
  simp [h.token?_eq rest, piecesFrom_skip false (name.toList.length + 1)]

def tokenName? : Piece → Option String
  | .token name => some (.ofList name)
  | .char _ => none

/-- The names of the placeholders of a text, outside single quotes. -/
def tokenNames (sql : String) : List String :=
  (pieces sql.toList).filterMap tokenName?

theorem Composed.tokenNames_eq {sql : String} (h : Composed sql.toList names) :
    tokenNames sql = names := by
  unfold tokenNames pieces
  generalize sql.toList = cs at h
  induction h with
  | nil => rfl
  | @text u cs names hu _ ih =>
    have hnone : (u.map Piece.char).filterMap tokenName? = [] := by
      simp [List.filterMap_map, Function.comp_def, tokenName?]
    rw [hu.pieces, List.filterMap_append, hnone, ih, List.nil_append]
  | @token name cs names hname _ _ ih =>
    have hsome : tokenName? (.token name.toList) = some name := by
      rw [tokenName?, String.ofList_toList]
    rw [piecesFrom_token hname, List.filterMap_cons_some hsome, ih]

/-! ### Woven text -/

/-- Still text without braces. -/
structure Seam (u : List Char) : Prop extends Still u where
  unbraced : '\x7b' ∉ u

theorem seam_nil : Seam [] :=
  ⟨still_nil, by simp⟩

theorem Seam.append (hu : Seam u) (hv : Seam v) : Seam (u ++ v) :=
  ⟨hu.toStill.append hv.toStill, by simpa using ⟨hu.unbraced, hv.unbraced⟩⟩

theorem seam_plain (h : u.all isPlain) : Seam u := by
  refine ⟨still_plain h, fun hmem => ?_⟩
  cases List.all_eq_true.mp h _ hmem

theorem seam_ofNat (n : Nat) : Seam (Text.ofNat n).toList :=
  ⟨still_ofNat n, (tidy_ofNat n).2⟩

theorem unbraced_quoted {q : Char} {text : String} (hq : q ≠ '\x7b') (h : '\x7b' ∉ text.toList) :
    '\x7b' ∉ (Text.quoted q text).toList := by
  intro hmem
  rw [Text.quoted, String.toList_ofList, List.mem_append, List.mem_cons,
    List.mem_singleton] at hmem
  rcases hmem with (hmem | hmem) | hmem
  · exact hq hmem.symm
  · exact h (mem_doubled hmem)
  · exact hq hmem.symm

theorem seam_ident {name : String} (h : Tidy name) : Seam (Text.quoteIdent name).toList :=
  ⟨still_ident h, unbraced_quoted (by decide) h.2⟩

theorem seam_literal {text : String} (h : '\x7b' ∉ text.toList) :
    Seam (Text.quoteLiteral text).toList :=
  ⟨still_literal text, unbraced_quoted (by decide) h⟩

/-- A character that can follow a part: no placeholder goes on with it. -/
def isApart (c : Char) : Bool :=
  !Text.isWordChar c && c != '\x7d'

theorem not_isDigit_of_isApart {c : Char} (h : isApart c) : c.isDigit = false := by
  by_contra hdigit
  rw [Bool.not_eq_false] at hdigit
  have hrange : 48 ≤ c.toNat ∧ c.toNat ≤ 57 := by
    simpa [Char.isDigit, UInt32.le_iff_toNat_le] using hdigit
  have hword : Text.isWordChar c := by
    rw [Text.isWordChar, if_pos (by omega), Char.isAlphanum, hdigit, Bool.or_true, Bool.true_or]
  rw [isApart, hword] at h
  cases h

theorem apart_append (hu : ∀ c ∈ u.head?, isApart c) (hv : ∀ c ∈ v.head?, isApart c) :
    ∀ c ∈ (u ++ v).head?, isApart c := by
  cases u with
  | nil => exact hv
  | cons c u => exact hu

/-- Text in which the parts stand in their order, with seams between them and a character that is
apart right after each of them. A part without braces may be left out. -/
inductive Woven : List Char → List String → Prop
  | text {u : List Char} (hu : Seam u) : Woven u []
  | part {u cs : List Char} {p : String} {parts : List String} (hu : Seam u)
      (hnext : ∀ c ∈ cs.head?, isApart c) (h : Woven cs parts) :
      Woven (u ++ (p.toList ++ cs)) (p :: parts)
  | left {cs : List Char} {p : String} {parts : List String} (hp : '\x7b' ∉ p.toList)
      (h : Woven cs parts) : Woven cs (p :: parts)

/-- Each part has the placeholders of the list at its place. -/
abbrev ComposedAll (parts : List String) (names : List (List String)) : Prop :=
  List.Forall₂ (fun part names => Composed part.toList names) parts names

/-- Woven text has the placeholders of its parts. -/
theorem Woven.composed {parts : List String} {names : List (List String)} (h : Woven cs parts)
    (hparts : ComposedAll parts names) : Composed cs names.flatten := by
  induction h generalizing names with
  | text hu =>
    cases hparts
    exact hu.composed
  | part hu hnext _ ih =>
    obtain _ | ⟨hp, hparts⟩ := hparts
    exact .text hu.toStill (hp.append (ih hparts) fun c hc => not_isDigit_of_isApart (hnext c hc))
  | left hp _ ih =>
    obtain _ | ⟨hleft, hparts⟩ := hparts
    rw [hleft.names_of_not_mem hp, List.flatten_cons, List.nil_append]
    exact ih hparts

variable {s t mid : String} {parts others : List String}

theorem woven_single (p : String) : Woven p.toList [p] := by
  have hpart : Woven ([] ++ (p.toList ++ [])) [p] := .part seam_nil (by simp) (.text seam_nil)
  rwa [List.nil_append, List.append_nil] at hpart

theorem Woven.seam (h : Woven u []) : Seam u := by
  cases h with
  | text hu => exact hu

theorem Woven.seam_of_parts (h : Woven cs parts) (hparts : ∀ p ∈ parts, Seam p.toList) :
    Seam cs := by
  induction h with
  | text hu => exact hu
  | part hu _ _ ih =>
    rw [List.forall_mem_cons] at hparts
    exact hu.append (hparts.1.append (ih hparts.2))
  | left _ _ ih =>
    rw [List.forall_mem_cons] at hparts
    exact ih hparts.2

theorem Seam.weave (hu : Seam u) (h : Woven cs parts) : Woven (u ++ cs) parts := by
  induction h with
  | text hv => exact .text (hu.append hv)
  | part hv hnext h _ =>
    rw [← List.append_assoc]
    exact .part (hu.append hv) hnext h
  | left hp _ ih => exact .left hp ih

/-- Text can follow a part if it starts apart. -/
theorem Woven.append (h : Woven cs parts) (h' : Woven ds others)
    (hd : ∀ c ∈ ds.head?, isApart c) : Woven (cs ++ ds) (parts ++ others) := by
  induction h with
  | text hu => exact hu.weave h'
  | part hu hnext _ ih =>
    rw [List.append_assoc, List.append_assoc]
    exact .part hu (apart_append hnext hd) ih
  | left hp _ ih => exact .left hp ih

/-- Text that can follow a part. -/
structure Trails (t : String) (parts : List String) : Prop where
  woven : Woven t.toList parts
  apart : ∀ c ∈ t.toList.head?, isApart c

/-- Words that can follow a part and be followed by anything. -/
structure Glue (mid : String) : Prop where
  seam : Seam mid.toList
  apart : mid.toList.head?.any isApart

def isGlue (mid : String) : Bool :=
  mid.toList.all isPlain && mid.toList.head?.any isApart

theorem glue_of_isGlue (h : isGlue mid) : Glue mid := by
  rw [isGlue, Bool.and_eq_true] at h
  exact ⟨seam_plain h.1, h.2⟩

theorem Seam.then (hs : Seam s.toList) (ht : Seam t.toList) : Seam (s ++ t).toList := by
  rw [String.toList_append]
  exact hs.append ht

theorem Glue.append (h : Glue mid) (ht : Seam t.toList) : Glue (mid ++ t) := by
  have hapart := h.apart
  refine ⟨h.seam.then ht, ?_⟩
  rw [String.toList_append]
  cases hcs : mid.toList with
  | nil => simp [hcs] at hapart
  | cons c cs => simpa [hcs] using hapart

theorem Seam.before (hs : Seam s.toList) (ht : Woven t.toList parts) :
    Woven (s ++ t).toList parts := by
  rw [String.toList_append]
  exact hs.weave ht

theorem Woven.follow (hs : Woven s.toList parts) (ht : Trails t others) :
    Woven (s ++ t).toList (parts ++ others) := by
  rw [String.toList_append]
  exact hs.append ht.woven ht.apart

theorem Glue.before (h : Glue mid) (ht : Woven t.toList parts) : Trails (mid ++ t) parts := by
  refine ⟨h.seam.before ht, ?_⟩
  have hapart := h.apart
  rw [String.toList_append]
  cases hcs : mid.toList with
  | nil => simp [hcs] at hapart
  | cons c cs => simpa [hcs] using hapart

theorem trails_empty : Trails "" [] :=
  ⟨.text seam_nil, by simp⟩

theorem Glue.trails (h : Glue mid) : Trails mid [] := by
  have hbefore := h.before (t := "") (.text seam_nil)
  rwa [String.append_empty] at hbefore

theorem Trails.append (hs : Trails s parts) (ht : Trails t others) :
    Trails (s ++ t) (parts ++ others) := by
  refine ⟨hs.woven.follow ht, ?_⟩
  rw [String.toList_append]
  exact apart_append hs.apart ht.apart

theorem Woven.close (hs : Woven s.toList parts) (h : Glue mid) :
    Woven (s ++ mid).toList parts := by
  have hclose := hs.follow h.trails
  rwa [List.append_nil] at hclose

theorem Woven.glue (hs : Woven s.toList parts) (h : Glue mid) (ht : Woven t.toList others) :
    Woven (s ++ (mid ++ t)).toList (parts ++ others) :=
  hs.follow (h.before ht)

/-- An operator between two texts. -/
theorem woven_operator {op : String} (hop : op.toList.all isPlain) (s t : String) :
    Woven (s ++ " " ++ op ++ " " ++ t).toList [s, t] := by
  have hspace : Glue " " := glue_of_isGlue (by decide)
  simp only [String.append_assoc]
  exact (woven_single s).glue hspace
    ((seam_plain hop).before (hspace.seam.before (woven_single t)))

/-- Texts with one part each, behind each other. -/
theorem woven_join {sep : String} (hsep : Glue sep) {texts : List String}
    (h : List.Forall₂ (fun text part => Woven text.toList [part]) texts parts) :
    Woven (Text.join sep texts).toList parts := by
  induction h with
  | nil => exact .text seam_nil
  | cons hfirst hrest ih =>
    cases hrest with
    | nil => exact hfirst
    | cons =>
      rw [Text.join, String.append_assoc]
      exact hfirst.glue hsep ih

theorem woven_list {sep : String} (hsep : Glue sep) (parts : List String) :
    Woven (Text.join sep parts).toList parts :=
  woven_join hsep (List.forall₂_same.mpr fun part _ => woven_single part)

theorem Woven.parenthesized (h : Woven s.toList parts) : Woven ("(" ++ s ++ ")").toList parts := by
  have hopen : Seam "(".toList := seam_plain (by decide)
  have hclose : Glue ")" := glue_of_isGlue (by decide)
  rw [String.append_assoc]
  exact hopen.before (h.close hclose)

end PathQuery.Sql
