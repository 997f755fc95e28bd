import PathQuery.Proofs.Compile.Texts
import PathQuery.Sample.Small

/-!
Binding and the two kinds of quotes. A statement is read with single-quoted strings and
double-quoted identifiers, but binding heeds the single quotes alone. What it makes of a template is
right for the quotes of both kinds if both readings find the same placeholders, and only then.
Composed text is read the same way, so binding is right wherever names are tidy and no text of the
caller is taken as SQL.
-/

namespace PathQuery

open Sql Template Placeholder

namespace Sql

/-! ### Two readings -/

variable {cs : List Char} {names : List String}

/-- The pieces hold the whole text, and their tokens are words. -/
theorem lexedFrom_text (quote : Option Char) (skip : Nat) (cs : List Char) :
    (lexedFrom quote skip cs).flatMap pieceText = cs.drop skip ∧
      ∀ name, .token name ∈ lexedFrom quote skip cs → ∀ c ∈ name, Text.isWordChar c := by
  fun_induction lexedFrom quote skip cs with
  | case1 => simp
  | case2 quote skip c cs ih => simpa using ih
  | case3 q c cs ih => simpa [pieceText] using ih
  | case4 c cs hc ih => simpa [pieceText] using ih
  | case5 c cs hc name hname ih =>
    split at hname
    · next hbrace =>
      obtain ⟨hword, rest, rfl⟩ := token?_some hname
      obtain ⟨htext, htokens⟩ := ih
      refine ⟨?_, ?_⟩
      · rw [List.flatMap_cons, htext, beq_iff_eq.mp hbrace]
        simp [pieceText, List.drop_append]
      · intro other hother
        rcases List.mem_cons.mp hother with hother | hother
        · cases hother
          exact hword
        · exact htokens other hother
    · cases hname
  | case6 c cs hc hname ih => simpa [pieceText] using ih

theorem lexedFrom_skip (quote : Option Char) (n : Nat) (cs : List Char) :
    lexedFrom quote n cs = lexedFrom quote 0 (cs.drop n) := by
  induction n generalizing cs with
  | zero => rfl
  | succ n ih =>
    cases cs with
    | nil => simp [lexedFrom]
    | cons c cs => rw [lexedFrom, ih, List.drop_succ_cons]

theorem lexedFrom_token {name : String} (h : IsWord name) (rest : List Char) :
    lexedFrom none 0 ((Placeholder.token name).toList ++ rest) =
      .token name.toList :: lexedFrom none 0 rest := by
  rw [toList_token, lexedFrom]
  simp [h.token?_eq rest, lexedFrom_skip none (name.toList.length + 1)]

/-- In composed text, placeholders outside single quotes are outside double quotes. -/
theorem Composed.lexed_eq (h : Composed cs names) : lexed cs = pieces cs := by
  unfold lexed pieces
  induction h with
  | nil => rfl
  | text hu _ ih => rw [hu.lexed, hu.pieces, ih]
  | token hname _ _ ih => rw [lexedFrom_token hname, piecesFrom_token hname, ih]

end Sql

/-! ### Telling the readings apart -/

namespace Template

variable {d : Dialect} {carried : List Value} {context : Context}

theorem pieceText_ne_nil (p : Piece) : pieceText p ≠ [] := by
  cases p <;> simp [pieceText]

/-- Bound text tells which of the names in the text were bound. -/
theorem fill_bindToken_inj {ps qs : List Piece} {st st₁ st₂ : List Value} {out : List Char}
    (hps : ∀ name, .token name ∈ ps → ∀ c ∈ name, Text.isWordChar c)
    (hqs : ∀ name, .token name ∈ qs → ∀ c ∈ name, Text.isWordChar c)
    (htext : ps.flatMap pieceText = qs.flatMap pieceText)
    (hp : fill (bindToken d carried context) ps st = .ok (out, st₁))
    (hq : fill (bindToken d carried context) qs st = .ok (out, st₂)) : ps = qs := by
  induction ps generalizing qs st out with
  | nil =>
    cases qs with
    | nil => rfl
    | cons q qs => simp [pieceText_ne_nil] at htext
  | cons p ps ih =>
    cases qs with
    | nil => simp [pieceText_ne_nil] at htext
    | cons q qs =>
      simp only [List.mem_cons, or_imp, forall_and] at hps hqs
      have hbrace {c : Char} {name new : String} {rest tail : List Char} {st st' : List Value}
          (hnew : bindToken d carried context name st = .ok (new, st')) (hc : c = '\x7b') :
          c :: rest ≠ new.toList ++ tail := by
        obtain ⟨first, more, hfirst, hne⟩ := bindToken_head hnew
        rw [hfirst, hc]
        intro heq
        exact hne (List.cons.inj heq).1.symm
      cases p with
      | char c =>
        obtain ⟨rest, hrest, rfl⟩ := fill_char.mp hp
        cases q with
        | char c' =>
          obtain ⟨rest', hrest', heq⟩ := fill_char.mp hq
          obtain ⟨rfl, rfl⟩ := List.cons.inj heq
          simp only [List.flatMap_cons, pieceText, List.singleton_append, List.cons.injEq,
            true_and] at htext
          rw [ih hps.2 hqs.2 htext hrest hrest']
        | token name =>
          obtain ⟨new, _, rest', hnew, -, heq⟩ := fill_token.mp hq
          simp only [List.flatMap_cons, pieceText, List.cons_append, List.cons.injEq] at htext
          exact absurd heq (hbrace hnew htext.1)
      | token name =>
        obtain ⟨new, mid, rest, hnew, hrest, rfl⟩ := fill_token.mp hp
        cases q with
        | char c =>
          obtain ⟨rest', -, heq⟩ := fill_char.mp hq
          simp only [List.flatMap_cons, pieceText, List.cons_append, List.cons.injEq] at htext
          exact absurd heq.symm (hbrace hnew htext.1.symm)
        | token other =>
          obtain ⟨new', mid', rest', hnew', hrest', heq⟩ := fill_token.mp hq
          simp only [List.flatMap_cons, pieceText, List.cons_append, List.append_assoc,
            List.nil_append, List.cons.injEq, true_and] at htext
          have hname : '\x7d' ∉ name := fun hmem => by cases hps.1 _ rfl _ hmem
          have hother : '\x7d' ∉ other := fun hmem => by cases hqs.1 _ rfl _ hmem
          obtain ⟨rfl, hrests⟩ := Lists.append_cons_inj hname hother htext
          rw [hnew, Except.ok.injEq, Prod.mk.injEq] at hnew'
          obtain ⟨rfl, rfl⟩ := hnew'
          rw [List.append_cancel_left_eq] at heq
          rw [← heq] at hrest'
          rw [ih hps.2 hqs.2 hrests hrest hrest']

/-- Binding is right for both kinds of quotes: the markers of its value stand in the place of every
name in braces outside of them, and all else is unchanged, in quotes of either kind and outside. -/
def Respects (d : Dialect) (t : Template) (context : Context) (c : Compiled) : Prop :=
  fill (bindToken d t.carried context) (lexed t.sql.toList) [] = .ok (c.sql.toList, c.parameters)

theorem respects_iff {t : Template} {c : Compiled} (h : t.bind d context = .ok c) :
    t.Respects d context c ↔ lexed t.sql.toList = pieces t.sql.toList := by
  have hfill := bind_fill h
  constructor
  · intro hrespects
    obtain ⟨htext, htokens⟩ := lexedFrom_text none 0 t.sql.toList
    obtain ⟨htext', htokens'⟩ := piecesFrom_text false 0 t.sql.toList
    exact fill_bindToken_inj htokens htokens' (htext.trans htext'.symm) hrespects hfill
  · intro hsame
    rw [Respects, hsame]
    exact hfill

end Template

open Compile

/-- Binding is right for both kinds of quotes if and only if both readings of the template find the
same placeholders. They do if names are tidy and no text of the caller is taken as SQL. -/
theorem compile_respects_iff {registry : Registry} {scope : Scope} {context : Context}
    {s : Statement} {t : Template} {c : Compiled} (ht : template registry scope s = .ok t)
    (hc : compile registry scope context s = .ok c) :
    (t.Respects scope.options.dialect context c ↔ lexed t.sql.toList = pieces t.sql.toList) ∧
      (Calm registry scope → t.Respects scope.options.dialect context c) := by
  have hiff := respects_iff ((compile_eq_bind ht context).symm.trans hc)
  refine ⟨hiff, fun hcalm => hiff.mpr ?_⟩
  obtain ⟨⟨names, hnames⟩, -⟩ := template_isComposed hcalm ht
  exact hnames.lexed_eq

def shelfStatement : Statement :=
  { select := "p", filter := some "p == \x7bx\x7d and p != '\x7bx\x7d it''s'" }

def shelfContext : Context :=
  ⟨[("x", .text "x")]⟩

/-- With a table of that name the statement has so many parameters, and it is bound right for both
kinds of quotes if and only if that is one. -/
def ShelfBinds (table : String) (count : Nat) : Prop :=
  ∃ schema model t c, Schema.build [Sample.keyed "B" table "p"] = .ok schema ∧
    schema.resolveModel "B" none = .ok model ∧
    template {} (.top schema {} model {}) shelfStatement = .ok t ∧
    compile {} (.top schema {} model {}) shelfContext shelfStatement = .ok c ∧
    c.parameters.length = count ∧ (count = 1 → Calm {} (.top schema {} model {})) ∧
    (t.Respects .postgres shelfContext c ↔ count = 1)

/-- Braces and quotes in a literal and double quotes in the name of a table are no obstacle. Braces
in the name are bound like the placeholder, and after a single quote in it the placeholder is
not. -/
theorem compile_respects_iff_shelf :
    ShelfBinds "a \"b\"" 1 ∧ ShelfBinds "\x7bx\x7d" 5 ∧ ShelfBinds "a'b" 0 := by
  have hbinds : ∀ p ∈ [("a \"b\"", 1), ("\x7bx\x7d", 5), ("a'b", 0)], ShelfBinds p.1 p.2 := by
    intro p hp
    have h : ((Schema.build [Sample.keyed "B" p.1 "p"]).toOption.bind fun schema =>
        (schema.resolveModel "B" none).toOption.bind fun model =>
        (template {} (.top schema {} model {}) shelfStatement).toOption.bind fun t =>
        (t.bind .postgres shelfContext).toOption.map fun c =>
        decide (c.parameters.length = p.2 ∧ (p.2 = 1 → schema.Tidy) ∧
          (lexed t.sql.toList = pieces t.sql.toList ↔ p.2 = 1))) = some true := by
      revert p
      decide +kernel
    simp only [Option.bind_eq_some_iff, Option.map_eq_some_iff, Steps.toOption_eq_some_iff,
      decide_eq_true_eq] at h
    obtain ⟨schema, hschema, model, hmodel, t, ht, c, hbind, hlength, htidy, hsame⟩ := h
    have hc : compile {} (.top schema {} model {}) shelfContext shelfStatement = .ok c :=
      (compile_eq_bind ht shelfContext).trans hbind
    refine ⟨schema, model, t, c, hschema, hmodel, ht, hc, hlength, fun hone => ⟨?_, rfl, ?_⟩,
      (compile_respects_iff ht hc).1.trans hsame⟩
    · exact Scope.tidy_top (htidy hone) (Schema.resolveModel_mem hmodel).1 _ _
    · intro name text own hget
      cases hget
  simp only [List.forall_mem_cons] at hbinds
  exact ⟨hbinds.1, hbinds.2.1, hbinds.2.2.1⟩

end PathQuery
