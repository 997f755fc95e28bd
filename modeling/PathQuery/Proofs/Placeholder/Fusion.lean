import PathQuery.Proofs.Placeholder.Names
import PathQuery.Proofs.Template.InTurn

/-!
Replacing placeholders by placeholders. The text that comes out has the pieces of the text before,
with the tokens renamed: quotes and lone braces stay what they were, since no new name has either of
them. So a second replacement finds the new names in the places of the old ones, and two
replacements one after the other are one.
-/

namespace PathQuery.Placeholder

open Sql

/-- A piece with its placeholder renamed. -/
def Piece.rename (f : String → String) : Piece → Piece
  | .char c => .char c
  | .token name => .token (f (.ofList name)).toList

/-- The text of pieces with their placeholders renamed. -/
def renamed (f : String → String) (ps : List Piece) : List Char :=
  ps.flatMap fun p => pieceText (p.rename f)

section Renamed

variable {f : String → String} {cs u : List Char} {ps : List Piece}

theorem pieceText_rename_token (f : String → String) (name : List Char) :
    pieceText (Piece.rename f (.token name)) = (token (f (.ofList name))).toList := by
  simp [Piece.rename, pieceText, token]

theorem renamed_cons (p : Piece) (ps : List Piece) :
    renamed f (p :: ps) = pieceText (p.rename f) ++ renamed f ps :=
  List.flatMap_cons

theorem renamed_chars (u : List Char) (ps : List Piece) :
    renamed f (u.map .char ++ ps) = u ++ renamed f ps := by
  induction u with
  | nil => rfl
  | cons c u ih =>
    rw [List.map_cons, List.cons_append, renamed_cons, ih]
    rfl

theorem renamed_id (quoted : Bool) (cs : List Char) : renamed id (piecesFrom quoted 0 cs) = cs := by
  have hsame : (fun p : Piece => pieceText (p.rename id)) = pieceText := by
    funext p
    cases p with
    | char c => rfl
    | token name => simp [Piece.rename]
  rw [renamed, hsame, (piecesFrom_text quoted 0 cs).1, List.drop_zero]

/-- What starts with a brace, be it a placeholder or not, starts with one after the renaming. -/
theorem head?_renamed_brace (quoted : Bool) (cs : List Char) :
    (renamed f (piecesFrom quoted 0 ('\x7b' :: cs))).head? = some '\x7b' := by
  rw [piecesFrom]
  simp only [show ('\x7b' == '\'') = false from rfl, Bool.false_eq_true, if_false]
  split
  · rfl
  · rfl

/-- Up to the next brace the text is the same, and no placeholder goes on with one. -/
theorem token?_renamed (quoted : Bool) (cs : List Char) :
    token? (renamed f (piecesFrom quoted 0 cs)) = token? cs := by
  by_cases hmem : '\x7b' ∈ cs
  · obtain ⟨u, v, rfl, hu⟩ := List.eq_append_cons_of_mem hmem
    have hbrace : ∀ c ∈ (renamed f (piecesFrom (quotedAfter quoted u) 0 ('\x7b' :: v))).head?,
        isApart c := by
      rw [head?_renamed_brace]
      exact isApart_brace v
    rw [piecesFrom_append_apart quoted u (isApart_brace v),
      Template.piecesFrom_of_namesIn quoted (namesIn_of_not_mem hu), renamed_chars,
      token?_append_apart hbrace, token?_append_apart (isApart_brace v)]
  · rw [Template.piecesFrom_of_namesIn quoted (namesIn_of_not_mem hmem),
      ← List.append_nil (cs.map _), renamed_chars]
    simp [renamed]

/-- The pieces of the text with renamed placeholders are the pieces before, renamed. -/
theorem piecesFrom_renamed (hf : ∀ name, IsWord name → IsWord (f name)) (quoted : Bool)
    (skip : Nat) (cs : List Char) :
    piecesFrom quoted 0 (renamed f (piecesFrom quoted skip cs)) =
      (piecesFrom quoted skip cs).map (Piece.rename f) := by
  fun_induction piecesFrom quoted skip cs with
  | case1 => rfl
  | case2 quoted skip c cs ih => exact ih
  | case3 quoted c cs hc ih =>
    rw [renamed_cons, List.map_cons, ← ih]
    simp [Piece.rename, pieceText, piecesFrom, hc]
  | case4 quoted c cs hc name hname ih =>
    split at hname
    · next hbrace =>
      rw [Bool.and_eq_true, Bool.not_eq_true'] at hbrace
      obtain ⟨hne, hword, -⟩ := token?_eq_some_iff.mp hname
      have hnew : IsWord (f (.ofList name)) := hf _ (by simpa [IsWord] using ⟨hne, hword⟩)
      rw [hbrace.2] at ih ⊢
      rw [renamed_cons, pieceText_rename_token, piecesFrom_token hnew, ih]
      rfl
    · cases hname
  | case5 quoted c cs hc hnone ih =>
    have hnone' : (if c == '\x7b' && !quoted then
        token? (renamed f (piecesFrom quoted 0 cs)) else none) = none := by
      rwa [token?_renamed]
    rw [renamed_cons, List.map_cons, ← ih]
    simp only [Piece.rename, pieceText, List.singleton_append]
    rw [piecesFrom, if_neg hc, hnone']

end Renamed

/-! ### Replacements -/

variable {m : Type → Type} [Monad m] [LawfulMonad m]

theorem fill_token_pure (f : String → String) (ps : List Piece) :
    fill (fun name => (pure (token (f name)) : m String)) ps = pure (renamed f ps) := by
  induction ps with
  | nil => rfl
  | cons p ps ih =>
    cases p with
    | char c => simp [fill, ih, renamed_cons, Piece.rename, pieceText]
    | token name => simp [fill, ih, renamed_cons, pieceText_rename_token]

theorem fill_rename (f : String → String) (g : String → m String) (ps : List Piece) :
    fill g (ps.map (Piece.rename f)) = fill (fun name => g (f name)) ps := by
  induction ps with
  | nil => rfl
  | cons p ps ih =>
    cases p with
    | char c => simp [fill, ih, Piece.rename]
    | token name => simp [fill, ih, Piece.rename]

theorem substitute_token_pure (f : String → String) (text : String) :
    substitute (fun name => (pure (token (f name)) : m String)) text =
      pure (.ofList (renamed f (pieces text.toList))) := by
  simp [substitute, fill_token_pure]

theorem tokenName?_rename (f : String → String) (p : Piece) :
    tokenName? (p.rename f) = (tokenName? p).map f := by
  cases p with
  | char c => rfl
  | token name => simp [Piece.rename, tokenName?]

/-- Replacing each name by a name gives a text with the new names in the places of the old ones, and
replacing those by what `g` says of them is one replacement of the old ones. It makes the same calls
of `g` in the same order, up to the same error, since the two are equal in every monad. Names that
replace themselves leave the text as it is. -/
theorem substitute_fused (f : String → String) (hf : ∀ name, IsWord name → IsWord (f name))
    (g : String → m String) (text : String) :
    (∃ out, substitute (fun name => pure (token (f name))) text = (pure out : m String) ∧
      tokenNames out = (tokenNames text).map f ∧
      substitute g out = substitute (fun name => g (f name)) text) ∧
    substitute (fun name => pure (token name)) text = (pure text : m String) := by
  constructor
  · have hpieces : pieces (renamed f (pieces text.toList)) =
        (pieces text.toList).map (Piece.rename f) :=
      piecesFrom_renamed hf false 0 text.toList
    refine ⟨_, substitute_token_pure f text, ?_, ?_⟩
    · rw [tokenNames, String.toList_ofList, hpieces, List.filterMap_map, tokenNames,
        List.map_filterMap]
      exact List.filterMap_congr fun p _ => tokenName?_rename f p
    · rw [substitute, String.toList_ofList, hpieces, fill_rename]
      rfl
  · have hsame := substitute_token_pure (m := m) id text
    rwa [pieces, renamed_id, String.ofList_toList] at hsame

/-- Notes each name and fails at one of them. -/
def noting (refused name : String) : ExceptT Error (StateM (List String)) String := do
  modify (· ++ [name])
  if name = refused then throw (.missingParameter name) else pure name

/-- A lone brace, a name in quotes and a brace that is never closed. -/
def tangled : String :=
  "\x7b\x7ba\x7d '\x7bb\x7d' \x7bc\x7bd\x7d \x7be\x7d"

/-- The second of three names fails, and the third is not asked for. -/
theorem substitute_fused_tangled :
    (substitute (fun name => pure (token (name ++ "1"))) tangled >>=
        substitute (noting "d1")).run [] =
      (.error (.missingParameter "d1"), ["a1", "d1"]) := by
  have hword (name : String) (h : IsWord name) : IsWord (name ++ "1") := by
    have hone : Text.isWordChar '1' := by decide
    simpa [IsWord, or_imp, forall_and, hone] using h.2
  have hpieces : pieces tangled.toList =
      .char '\x7b' :: .token ['a'] :: " '\x7bb\x7d' \x7bc".toList.map .char ++
        [.token ['d'], .char ' ', .token ['e']] := by
    decide +kernel
  obtain ⟨⟨out, hout, -, hfused⟩, -⟩ := substitute_fused (· ++ "1") hword (noting "d1") tangled
  rw [hout, pure_bind, hfused, substitute, hpieces]
  rfl

end PathQuery.Placeholder
