import PathQuery.Proofs.Compile.Places
import PathQuery.Proofs.Expr.RoundTrip
import PathQuery.Proofs.Placeholder.Names
import PathQuery.Proofs.Text.Boundaries
import PathQuery.Sample.Small

/-!
Names in braces that are not words. An expression takes letters and numbers of every script in the
name of a placeholder, while the text of a statement is searched for words. A placeholder with a
character that is in names only is read, written into the statement and never bound.
-/

namespace PathQuery

open Sql

/-! ### Braces without a word -/

namespace Sql

open Placeholder

variable {name : String} {u : List Char}

theorem token?_eq_none (hclose : '\x7d' ∉ name.toList) (hname : ¬ IsWord name) (rest : List Char) :
    token? (name.toList ++ '\x7d' :: rest) = none := by
  rw [Option.eq_none_iff_forall_ne_some]
  intro word hword
  obtain ⟨hne, hchars, after, hafter⟩ := token?_eq_some_iff.mp hword
  rw [List.append_assoc, List.singleton_append] at hafter
  have hopen : '\x7d' ∉ word := fun hmem => by cases hchars _ hmem
  obtain ⟨rfl, -⟩ := Lists.append_cons_inj hopen hclose hafter
  exact hname ⟨hne, hchars⟩

/-- A name that is no word stands in the text like any other characters. -/
theorem pieces_at_unnamed (hplain : ∀ c ∈ name.toList, c ≠ '\x7b' ∧ c ≠ '\x7d' ∧ c ≠ '\'')
    (hname : ¬ IsWord name) (h : quotedAfter false u = false) (v : List Char) :
    pieces (u ++ ((Placeholder.token name).toList ++ v)) =
      pieces u ++ ((Placeholder.token name).toList.map .char ++ pieces v) := by
  have hclose : '\x7d' ∉ name.toList := fun hmem => (hplain _ hmem).2.1 rfl
  have hinner : ∀ c ∈ name.toList ++ ['\x7d'], c ≠ '\'' ∧ c ≠ '\x7b' := by
    rw [List.forall_mem_append]
    exact ⟨fun c hc => ⟨(hplain c hc).2.2, (hplain c hc).1⟩, by simp⟩
  have hbody : piecesFrom false 0 (name.toList ++ '\x7d' :: v) =
      (name.toList ++ ['\x7d']).map .char ++ piecesFrom false 0 v := by
    simpa using piecesFrom_chars hinner v
  rw [pieces, toList_token, piecesFrom_append_apart _ _ (isApart_brace _), h, piecesFrom,
    token?_eq_none hclose hname, hbody]
  simp [Placeholder.token, pieces]

end Sql

namespace Template

open Placeholder

variable {d : Dialect} {carried : List Value} {context : Context} {t : Template} {c : Compiled}
  {before name after : String}

/-- A name that is no word is left as it is. -/
theorem bind_at_unnamed (hplain : ∀ c ∈ name.toList, c ≠ '\x7b' ∧ c ≠ '\x7d' ∧ c ≠ '\'')
    (hname : ¬ IsWord name) (hsql : t.sql = before ++ token name ++ after)
    (hquotes : quotedAfter false before.toList = false) (h : t.bind d context = .ok c) :
    LeftAt d t.carried context before (token name) c := by
  have hfill := bind_fill h
  rw [hsql, String.append_assoc, String.toList_append, String.toList_append,
    pieces_at_unnamed hplain hname hquotes, fill_append] at hfill
  obtain ⟨first, mid, last, hfirst, hrest, hout⟩ := hfill
  obtain ⟨rest, -, rfl⟩ := fill_chars.mp hrest
  refine ⟨.ofList first, mid, .ofList rest, ?_, by simp [← String.toList_inj, hout]⟩
  rw [substitute_ok_iff, String.toList_ofList]
  exact hfirst

/-- The markers of a value do not start with a brace. -/
theorem BoundAt.not_leftAt {v : Value} (h : BoundAt d carried context before v c) :
    ¬ LeftAt d carried context before (token name) c := by
  rintro ⟨sql, parameters, rest, hbefore, hleft⟩
  obtain ⟨sql', parameters', rest', hbefore', hbound, -⟩ := h
  rw [hbefore] at hbefore'
  cases hbefore'
  obtain ⟨x, cs, hmarker, hx⟩ := pushValue_head (d := d) v parameters
  rw [hbound, ← String.toList_inj] at hleft
  simp [hmarker, token] at hleft
  exact hx hleft.1

end Template

/-! ### One name in braces -/

namespace Placeholder

theorem fill_map_char {m : Type → Type} [Monad m] [LawfulMonad m] (replace : String → m String)
    (cs : List Char) : fill replace (cs.map .char) = pure cs := by
  induction cs with
  | nil => rfl
  | cons c cs ih => simp [fill, ih]

variable {n : String} (hplain : ∀ c ∈ n.toList, c ≠ '\x7b' ∧ c ≠ '\x7d' ∧ c ≠ '\'')

include hplain

theorem names_token_iff : names (token n) = [n] ↔ IsWord n := by
  have hbrace : '\x7b' ∉ n.toList ++ ['\x7d'] := by
    simpa using fun hmem => (hplain _ hmem).1 rfl
  have htoken : (token n).toList = '\x7b' :: (n.toList ++ ['\x7d']) := by simp [token]
  constructor
  · intro h
    have hmem : n ∈ names (token n) := by simp [h]
    obtain ⟨word, hword, rfl⟩ := List.mem_map.mp hmem
    obtain ⟨hne, hchars, -⟩ := mem_namesIn_iff.mp hword
    simpa [IsWord] using ⟨hne, hchars⟩
  · intro h
    have hfound : token? (n.toList ++ ['\x7d']) = some n.toList := h.token?_eq []
    simp [names, htoken, namesIn, hfound, namesIn_of_not_mem hbrace]

theorem pieces_token : pieces (token n).toList =
    if IsWord n then [.token n.toList] else (token n).toList.map .char := by
  split
  · next h => simpa [pieces, piecesFrom] using piecesFrom_token h []
  · next h => simpa [pieces, piecesFrom] using pieces_at_unnamed (u := []) hplain h rfl []

/-- A word in braces is replaced, and anything else stays. -/
theorem substitute_token {m : Type → Type} [Monad m] [LawfulMonad m] (replace : String → m String) :
    substitute replace (token n) = if IsWord n then replace n else pure (token n) := by
  rw [substitute, pieces_token hplain]
  split
  · simp [fill]
  · simp [fill_map_char]

theorem substitute_error_iff : substitute Except.error (token n) = .error n ↔ IsWord n := by
  rw [substitute_token hplain]
  split
  · next h => exact iff_of_true rfl h
  · next h => exact iff_of_false (by rintro ⟨⟩) h

end Placeholder

namespace Expr

theorem parse_token_iff {n : String} :
    parse (Placeholder.token n) = .ok (.placeholder n) ↔ IsBracedName n.toList := by
  constructor
  · intro h
    cases parse_readable h with
    | placeholder hname => exact hname
  · intro h
    have hreads := readsBack_placeholder h
    have hread := hreads.exprAt (Nat.lt_succ_self _) after_nil
    have htext : (Placeholder.token n).toList = chars (.placeholder n) := by
      simp [Placeholder.token, chars]
    rw [List.append_nil] at hread
    simp [parse, htext, hreads.solid.trimChars, expression, hread, Text.trimStart]

end Expr

/-! ### Written placeholders -/

open Compile Template

theorem isWord_iff {n : String} (hne : n ≠ "") :
    IsWord n ↔ ∀ c ∈ n.toList, Text.isWordChar c := by
  simp [IsWord, hne]

/-- A name is a word if all its characters may be in names and none is in names only. -/
theorem isWord_iff_of_isBracedName {n : String} (h : Expr.IsBracedName n.toList) :
    IsWord n ↔ ∀ c ∈ n.toList, Text.isNameOnly c = false := by
  have hone {c : Char} (hc : c ∈ n.toList) : Text.isWordChar c ↔ Text.isNameOnly c = false := by
    rw [Text.isNameOnly_eq, h.2 c hc]
    simp
  rw [IsWord, and_iff_right h.1]
  exact forall₂_congr fun c hc => hone hc

theorem isBracedName_iff_of_isWord {n : String} (h : IsWord n) :
    Expr.IsBracedName n.toList ↔ ∀ c ∈ n.toList, Text.isWordOnly c = false := by
  have hone {c : Char} (hc : c ∈ n.toList) : Text.isNameChar c ↔ Text.isWordOnly c = false := by
    rw [Text.isWordOnly_eq, h.2 c hc]
    simp
  rw [Expr.IsBracedName, and_iff_right h.1]
  exact forall₂_congr fun c hc => hone hc

/-- An expression takes `n` in braces as a placeholder if all its characters may be in names; the
search for placeholders finds it, and the replacement asks for it, if they may be in words. So a
placeholder that is read is found unless a character of it is in names only, and one that is found
is read unless a character of it is in words only. In a statement that is compiled without text of
the caller, a placeholder that is written is bound to its value, unless a character of it is in
names only: then it is left in the text. -/
theorem placeholder_scanned_iff {n : String} (hne : n ≠ "")
    (hplain : ∀ c ∈ n.toList, c ≠ '\x7b' ∧ c ≠ '\x7d' ∧ c ≠ '\'') :
    (Expr.parse (Placeholder.token n) = .ok (.placeholder n) ↔
      ∀ c ∈ n.toList, Text.isNameChar c) ∧
    (Placeholder.names (Placeholder.token n) = [n] ↔ ∀ c ∈ n.toList, Text.isWordChar c) ∧
    (Placeholder.substitute Except.error (Placeholder.token n) = .error n ↔
      ∀ c ∈ n.toList, Text.isWordChar c) ∧
    (Expr.parse (Placeholder.token n) = .ok (.placeholder n) →
      (Placeholder.names (Placeholder.token n) = [n] ↔
        ∀ c ∈ n.toList, Text.isNameOnly c = false)) ∧
    (Placeholder.names (Placeholder.token n) = [n] →
      (Expr.parse (Placeholder.token n) = .ok (.placeholder n) ↔
        ∀ c ∈ n.toList, Text.isWordOnly c = false)) ∧
    ∀ {registry : Registry} {scope : Scope} {context : Context} {s : Statement} {t : Template}
      {compiled : Compiled} {i : Nat}, Calm registry scope → template registry scope s = .ok t →
      compile registry scope context s = .ok compiled →
      (Expr.allPlaceholders t.select.trees)[i]? = some n →
        ∃ before after, t.sql = before ++ Placeholder.token n ++ after ∧
          ((∀ c ∈ n.toList, Text.isNameOnly c = false) ↔
            ∃ v, valueOf? t.carried context n = some v ∧
              BoundAt scope.options.dialect t.carried context before v compiled) ∧
          ((∃ c ∈ n.toList, Text.isNameOnly c) ↔
            LeftAt scope.options.dialect t.carried context before (Placeholder.token n)
              compiled) := by
  have hbraced : Expr.IsBracedName n.toList ↔ ∀ c ∈ n.toList, Text.isNameChar c := by
    simp [Expr.IsBracedName, hne]
  rw [Expr.parse_token_iff, Placeholder.names_token_iff hplain,
    Placeholder.substitute_error_iff hplain]
  refine ⟨hbraced, isWord_iff hne, isWord_iff hne, isWord_iff_of_isBracedName,
    isBracedName_iff_of_isWord, ?_⟩
  intro registry scope context s t compiled i hcalm ht hcompiled hi
  have hbinds : Binds registry scope context s t := binds_of_template ht
  obtain ⟨before, after, hsql, -, -, hquotes⟩ := place_of_written hcalm ht hbinds.written hi
  have hbind : t.bind scope.options.dialect context = .ok compiled :=
    (compile_eq_bind ht context).symm.trans hcompiled
  have hword := isWord_iff_of_isBracedName
    (hbinds.written.isBracedName n (List.mem_of_getElem? hi))
  refine ⟨before, after, hsql, ?_⟩
  by_cases hname : IsWord n
  · obtain ⟨v, hv, hat⟩ := bind_at_closed hname hsql hquotes hbind
    refine ⟨iff_of_true (hword.mp hname) ⟨v, hv, hat⟩, iff_of_false ?_ hat.not_leftAt⟩
    rintro ⟨c, hc, honly⟩
    rw [hword.mp hname c hc] at honly
    cases honly
  · have hleft := bind_at_unnamed hplain hname hsql hquotes hbind
    refine ⟨iff_of_false (fun h => hname (hword.mpr h)) ?_, iff_of_true ?_ hleft⟩
    · rintro ⟨v, -, hat⟩
      exact hat.not_leftAt hleft
    · rw [hword] at hname
      simpa using hname

def squaredStatement : Statement :=
  { select := "p", filter := some "p == \x7bx²\x7d" }

def squaredContext : Context :=
  ⟨[("x²", .text "given")]⟩

/-- A superscript is a number, but in no word: the placeholder is read, not found, and left in the
statement although the context has a value for it. -/
theorem placeholder_scanned_iff_squared :
    Expr.parse (Placeholder.token "x²") = .ok (.placeholder "x²") ∧
      Placeholder.names (Placeholder.token "x²") ≠ ["x²"] ∧
      (∃ v, squaredContext.get? "x²" = some v) ∧
      ∃ schema model t c, Schema.build Sample.stock = .ok schema ∧
        schema.resolveModel "B" none = .ok model ∧
        template {} (.top schema {} model {}) squaredStatement = .ok t ∧
        compile {} (.top schema {} model {}) squaredContext squaredStatement = .ok c ∧
        Expr.allPlaceholders t.select.trees = ["x²"] ∧
        ∃ before after, t.sql = before ++ Placeholder.token "x²" ++ after ∧
          LeftAt .postgres t.carried squaredContext before (Placeholder.token "x²") c := by
  have hchars : "x²".toList = ['x', '²'] := by decide
  have honly : Text.isNameOnly '²' := by decide +kernel
  obtain ⟨hparse, -, -, hfound, -, hwritten⟩ :=
    placeholder_scanned_iff (n := "x²") (by decide) (by simp [hchars])
  have h : ((Schema.build Sample.stock).toOption.bind fun schema =>
      (schema.resolveModel "B" none).toOption.bind fun model =>
      (template {} (.top schema {} model {}) squaredStatement).toOption.bind fun t =>
      (t.bind .postgres squaredContext).toOption.map fun _ =>
      decide (schema.Tidy ∧ Expr.allPlaceholders t.select.trees = ["x²"])) = some true := by
    decide +kernel
  simp only [Option.bind_eq_some_iff, Option.map_eq_some_iff, Steps.toOption_eq_some_iff,
    decide_eq_true_eq] at h
  obtain ⟨schema, hschema, model, hmodel, t, ht, c, hbind, htidy, hplaceholders⟩ := h
  have hc : compile {} (.top schema {} model {}) squaredContext squaredStatement = .ok c :=
    (compile_eq_bind ht squaredContext).trans hbind
  have hcalm : Calm {} (.top schema {} model {}) :=
    ⟨Scope.tidy_top htidy (Schema.resolveModel_mem hmodel).1 {} {}, rfl, by rintro _ _ _ ⟨⟩⟩
  have hread := hparse.mpr (List.all_eq_true.mp (by decide +kernel))
  obtain ⟨before, after, hsql, -, hleft⟩ :=
    hwritten hcalm ht hc (i := 0) (by rw [hplaceholders]; rfl)
  refine ⟨hread, fun hnames => ?_, ⟨_, rfl⟩, schema, model, t, c, hschema, hmodel, ht, hc,
    hplaceholders, before, after, hsql, hleft.mp ⟨'²', by simp [hchars], honly⟩⟩
  rw [(hfound hread).mp hnames '²' (by simp [hchars])] at honly
  cases honly

end PathQuery
