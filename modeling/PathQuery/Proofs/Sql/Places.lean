import PathQuery.Proofs.Sql.Composed

/-!
Places in a text. A name in braces is read as a placeholder if the single quotes before it are
closed, whatever else the text is. Text that is put together from expressions is threaded by their
placeholders: these stand in it in their order, with other text between them.
-/

namespace PathQuery.Sql

open Placeholder Steps

variable {u v cs ds rest : List Char} {names more : List String}

/-! ### Quotes -/

/-- Whether single quotes are open after a text, if they are or are not before it. -/
def quotedAfter : Bool → List Char → Bool
  | quoted, [] => quoted
  | quoted, c :: cs => quotedAfter (if c == '\'' then !quoted else quoted) cs

theorem quotedAfter_append (quoted : Bool) (u v : List Char) :
    quotedAfter quoted (u ++ v) = quotedAfter (quotedAfter quoted u) v := by
  induction u generalizing quoted with
  | nil => rfl
  | cons c u ih => exact ih _

theorem quotedAfter_of_not_mem (quoted : Bool) (h : '\'' ∉ u) : quotedAfter quoted u = quoted := by
  induction u generalizing quoted with
  | nil => rfl
  | cons c u ih =>
    rw [List.mem_cons, not_or] at h
    have hc : (c == '\'') = false := by simpa using Ne.symm h.1
    rw [quotedAfter, hc]
    exact ih _ h.2

theorem quotedAfter_not (quoted : Bool) (u : List Char) :
    quotedAfter (!quoted) u = !quotedAfter quoted u := by
  induction u generalizing quoted with
  | nil => rfl
  | cons c u ih =>
    rw [quotedAfter, quotedAfter]
    split
    · exact ih _
    · exact ih _

/-- Quotes that are opened in the text are closed in it. -/
def Balanced (u : List Char) : Prop :=
  ∀ quoted, quotedAfter quoted u = quoted

theorem Balanced.append (hu : Balanced u) (hv : Balanced v) : Balanced (u ++ v) := by
  intro quoted
  rw [quotedAfter_append, hu, hv]

theorem balanced_of_not_mem (h : '\'' ∉ u) : Balanced u :=
  fun quoted => quotedAfter_of_not_mem quoted h

/-! ### Reading up to a cut -/

/-- A placeholder does not go on where text starts apart. -/
theorem token?_append_apart (hrest : ∀ c ∈ rest.head?, isApart c) (cs : List Char) :
    token? (cs ++ rest) = token? cs := by
  have htake : (cs ++ rest).takeWhile Text.isWordChar = cs.takeWhile Text.isWordChar := by
    rw [List.takeWhile_append]
    split
    · next hall =>
      have hnone : rest.takeWhile Text.isWordChar = [] := by
        cases rest with
        | nil => rfl
        | cons c rest =>
          have hc := hrest c rfl
          simp only [isApart, Bool.and_eq_true, Bool.not_eq_true'] at hc
          exact List.takeWhile_cons_of_neg (by simp [hc.1])
      rw [hnone, List.append_nil]
      exact (List.takeWhile_prefix _).eq_of_length hall |>.symm
    · rfl
  have hlength : (cs.takeWhile Text.isWordChar).length ≤ cs.length :=
    (List.takeWhile_prefix _).length_le
  simp only [token?, htake, List.drop_append_of_le_length hlength]
  cases cs.drop (cs.takeWhile Text.isWordChar).length with
  | nil =>
    cases rest with
    | nil => rfl
    | cons c rest =>
      have hc := hrest c rfl
      simp only [isApart, Bool.and_eq_true, bne_iff_ne] at hc
      simp [hc.2]
  | cons c after => rfl

/-- What stands before a cut is read without what comes after it. -/
theorem piecesFrom_append_apart (quoted : Bool) (u : List Char)
    (hrest : ∀ c ∈ rest.head?, isApart c) :
    piecesFrom quoted 0 (u ++ rest) =
      piecesFrom quoted 0 u ++ piecesFrom (quotedAfter quoted u) 0 rest := by
  induction hlength : u.length using Nat.strong_induction_on generalizing u quoted with
  | _ n ih =>
    cases u with
    | nil => rfl
    | cons c u =>
      rw [List.length_cons] at hlength
      have hnext (quoted : Bool) := ih u.length (by omega) quoted u rfl
      rw [List.cons_append, piecesFrom, piecesFrom, quotedAfter]
      by_cases hquote : c = '\''
      · simp [hquote, hnext]
      · simp only [beq_eq_false_iff_ne.mpr hquote, Bool.false_eq_true, if_false,
          token?_append_apart hrest]
        split
        · next name hname =>
          have htoken : token? u = some name := by
            split at hname
            · exact hname
            · cases hname
          obtain ⟨hword, after, rfl⟩ := token?_some htoken
          have hclosed : quotedAfter quoted (name ++ ['\x7d']) = quoted := by
            refine quotedAfter_of_not_mem quoted fun hmem => ?_
            rcases List.mem_append.mp hmem with hmem | hmem
            · cases hword _ hmem
            · simp at hmem
          have hsplit (tail : List Char) :
              (name ++ '\x7d' :: tail).drop (name.length + 1) = tail := by
            simp
          have hstate :
              quotedAfter quoted (name ++ '\x7d' :: after) = quotedAfter quoted after := by
            have happend := quotedAfter_append quoted (name ++ ['\x7d']) after
            rwa [hclosed, List.append_assoc] at happend
          rw [piecesFrom_skip, piecesFrom_skip quoted (name.length + 1), hsplit, hstate,
            List.append_assoc, List.cons_append, hsplit, List.cons_append]
          simp only [List.length_append, List.length_cons] at hlength
          rw [ih after.length (by omega) quoted after rfl]
        · rw [hnext, List.cons_append]

theorem isApart_brace (rest : List Char) : ∀ c ∈ ('\x7b' :: rest).head?, isApart c := by
  intro c hc
  cases hc
  decide

theorem piecesFrom_quoted (h : '\'' ∉ u) (rest : List Char) :
    piecesFrom true 0 (u ++ rest) = u.map .char ++ piecesFrom true 0 rest := by
  induction u with
  | nil => rfl
  | cons c u ih =>
    rw [List.mem_cons, not_or] at h
    have hc : (c == '\'') = false := by simpa using Ne.symm h.1
    rw [List.cons_append, piecesFrom]
    simp [hc, ih h.2]

theorem IsWord.not_mem {name : String} (h : IsWord name) : '\'' ∉ name.toList := by
  intro hmem
  cases h.2 _ hmem

/-- Text after which the reading goes on outside quotes is balanced. -/
theorem Still.balanced (h : Still u) : Balanced u := by
  have hclosed : quotedAfter false u = false := by
    have hself := h.pieces []
    have hnext := h.pieces ['\x7b', 'a', '\x7d']
    rw [List.append_nil, piecesFrom, List.append_nil] at hself
    rw [piecesFrom_append_apart _ _ (isApart_brace _), hself, List.append_cancel_left_eq] at hnext
    cases hquoted : quotedAfter false u with
    | false => rfl
    | true =>
      rw [hquoted] at hnext
      exact absurd hnext (by decide)
  intro quoted
  cases quoted with
  | false => exact hclosed
  | true => exact (quotedAfter_not false u).trans (by rw [hclosed]; rfl)

/-- A name in braces is a placeholder where quotes are closed. -/
theorem pieces_at_closed {name : String} (hname : IsWord name) (h : quotedAfter false u = false)
    (v : List Char) :
    pieces (u ++ ((Placeholder.token name).toList ++ v)) =
      pieces u ++ .token name.toList :: pieces v := by
  rw [pieces, toList_token, piecesFrom_append_apart _ _ (isApart_brace _), h, ← toList_token,
    piecesFrom_token hname]
  rfl

/-- Where quotes are open it is text like all other. -/
theorem pieces_at_open {name : String} (hname : IsWord name) (h : quotedAfter false u = true)
    (v : List Char) :
    pieces (u ++ ((Placeholder.token name).toList ++ v)) =
      pieces u ++ ((Placeholder.token name).toList.map .char ++ piecesFrom true 0 v) := by
  have hquote : '\'' ∉ (Placeholder.token name).toList := by
    simpa [Placeholder.token] using hname.not_mem
  rw [pieces, toList_token, piecesFrom_append_apart _ _ (isApart_brace _), h, ← toList_token,
    piecesFrom_quoted hquote]
  rfl

/-- In filled text every token was replaced. -/
theorem fill_ok_token {σ : Type} {replace : String → StateT σ (Except Error) String} {st st' : σ}
    {out : List Char} {ps : List Piece} (h : fill replace ps st = .ok (out, st')) :
    ∀ name ∈ ps.filterMap tokenName?, ∃ st new st', replace name st = .ok (new, st') := by
  induction ps generalizing st out with
  | nil => simp
  | cons p ps ih =>
    cases p with
    | char c =>
      obtain ⟨_, hrest, -⟩ := fill_char.mp h
      exact ih hrest
    | token name =>
      obtain ⟨new, mid, _, hnew, hrest, -⟩ := fill_token.mp h
      exact List.forall_mem_cons.mpr ⟨⟨st, new, mid, hnew⟩, ih hrest⟩

/-- Filling a text fails where a token fails. -/
theorem fill_error {σ : Type} {replace : String → StateT σ (Except Error) String} {st : σ}
    {ps : List Piece} {e : Error} (h : fill replace ps st = .error e) :
    ∃ name ∈ ps.filterMap tokenName?, ∃ st, replace name st = .error e := by
  induction ps generalizing st with
  | nil => cases h
  | cons p ps ih =>
    cases p with
    | char c =>
      rcases bind_error_iff.mp h with h | ⟨_, _, -, h⟩
      · exact ih h
      · cases h
    | token name =>
      rcases bind_error_iff.mp h with h | ⟨_, _, -, h⟩
      · exact ⟨.ofList name, List.mem_cons_self, st, h⟩
      · rcases bind_error_iff.mp h with h | ⟨_, _, -, h⟩
        · obtain ⟨other, hother, hfails⟩ := ih h
          exact ⟨other, List.mem_cons_of_mem _ hother, hfails⟩
        · cases h

/-- Inert text in the place of tokens leaves the quotes as they are. -/
theorem quotedAfter_fill {σ : Type} {replace : String → StateT σ (Except Error) String} {st st' : σ}
    {ps : List Piece} {out : List Char}
    (hps : ∀ name, .token name ∈ ps → ∀ c ∈ name, Text.isWordChar c)
    (hreplace : ∀ {name : List Char} {new st st'}, (∀ c ∈ name, Text.isWordChar c) →
      replace (.ofList name) st = .ok (new, st') → Inert new.toList)
    (h : fill replace ps st = .ok (out, st')) (quoted : Bool) :
    quotedAfter quoted out = quotedAfter quoted (ps.flatMap pieceText) := by
  induction ps generalizing out quoted st with
  | nil =>
    rw [(fill_nil.mp h).1]
    rfl
  | cons p ps ih =>
    have hrestps : ∀ name, .token name ∈ ps → ∀ c ∈ name, Text.isWordChar c :=
      fun name hname => hps name (List.mem_cons_of_mem p hname)
    cases p with
    | char c =>
      obtain ⟨rest, hrest, rfl⟩ := fill_char.mp h
      rw [List.flatMap_cons, pieceText, List.singleton_append, quotedAfter, quotedAfter,
        ih hrestps hrest]
    | token name =>
      obtain ⟨new, mid, rest, hnew, hrest, rfl⟩ := fill_token.mp h
      have hword := hps name List.mem_cons_self
      have hfirst : '\'' ∉ new.toList := fun hmem => by cases (hreplace hword hnew).2 _ hmem
      have htoken : '\'' ∉ pieceText (.token name) := by
        intro hmem
        simp only [pieceText, List.cons_append, List.mem_cons, List.mem_append] at hmem
        rcases hmem with hmem | hmem | hmem | hmem
        · cases hmem
        · cases hword _ hmem
        · cases hmem
        · cases hmem
      rw [List.flatMap_cons, quotedAfter_append, quotedAfter_append,
        quotedAfter_of_not_mem _ hfirst, quotedAfter_of_not_mem _ htoken, ih hrestps hrest]

/-- Moving a text leaves its quotes as they are. -/
theorem Balanced.move {sql out : String} {carried before after : List Value}
    {own : Option Context} (hsql : Balanced sql.toList)
    (h : Splice.move sql carried own before = .ok (out, after)) : Balanced out.toList := by
  obtain ⟨htext, htokens⟩ := piecesFrom_text false 0 sql.toList
  intro quoted
  rw [quotedAfter_fill htokens inert_moveToken (Splice.move_ok_iff.mp h), htext]
  exact hsql quoted

/-! ### Threaded text -/

/-- Text in which the placeholders of the names stand in their order. If `calm`, the texts between
them are balanced. -/
inductive Threaded (calm : Prop) : List Char → List String → Prop
  | text {u : List Char} (hu : calm → Balanced u) : Threaded calm u []
  | token {u cs : List Char} {name : String} {names : List String} (hu : calm → Balanced u)
      (h : Threaded calm cs names) :
      Threaded calm (u ++ ((Placeholder.token name).toList ++ cs)) (name :: names)

section Threaded

variable {calm : Prop} {s t : String}

theorem Still.threaded (h : Still u) : Threaded calm u [] :=
  .text fun _ => h.balanced

theorem threaded_token (name : String) : Threaded calm (Placeholder.token name).toList [name] := by
  have htoken : Threaded calm ([] ++ ((Placeholder.token name).toList ++ [])) [name] :=
    .token (fun _ => still_nil.balanced) still_nil.threaded
  rwa [List.nil_append, List.append_nil] at htoken

theorem Threaded.append (h : Threaded calm cs names) (h' : Threaded calm ds more) :
    Threaded calm (cs ++ ds) (names ++ more) := by
  induction h with
  | text hu =>
    cases h' with
    | text hv => exact .text fun hcalm => (hu hcalm).append (hv hcalm)
    | token hv h' =>
      rw [← List.append_assoc]
      exact .token (fun hcalm => (hu hcalm).append (hv hcalm)) h'
  | token hu _ ih =>
    rw [List.append_assoc, List.append_assoc]
    exact .token hu ih

theorem Threaded.follow (hs : Threaded calm s.toList names) (ht : Threaded calm t.toList more) :
    Threaded calm (s ++ t).toList (names ++ more) := by
  rw [String.toList_append]
  exact hs.append ht

/-- Each part is threaded by the names at its place. -/
abbrev ThreadedAll (calm : Prop) (parts : List String) (names : List (List String)) : Prop :=
  List.Forall₂ (fun part names => Threaded calm part.toList names) parts names

theorem threadedAll_map {α : Type} {xs : List α} {text : α → String} {names : α → List String}
    (h : ∀ x ∈ xs, Threaded calm (text x).toList (names x)) :
    ThreadedAll calm (xs.map text) (xs.map names) := by
  rw [ThreadedAll, List.forall₂_map_left_iff, List.forall₂_map_right_iff, List.forall₂_same]
  exact h

theorem Threaded.names_of_not_mem (h : Threaded calm cs names) (hbrace : '\x7b' ∉ cs) :
    names = [] := by
  cases h with
  | text => rfl
  | token => simp [Placeholder.token] at hbrace

/-- Woven text is threaded by the placeholders of its parts. -/
theorem Woven.threaded {parts : List String} {names : List (List String)} (h : Woven cs parts)
    (hparts : ThreadedAll calm parts names) : Threaded calm cs names.flatten := by
  induction h generalizing names with
  | text hu =>
    cases hparts
    exact hu.threaded
  | part hu _ _ ih =>
    obtain _ | ⟨hp, hparts⟩ := hparts
    exact hu.threaded.append (hp.append (ih hparts))
  | left hp _ ih =>
    obtain _ | ⟨hleft, hparts⟩ := hparts
    rw [hleft.names_of_not_mem hp, List.flatten_cons, List.nil_append]
    exact ih hparts

/-- The place of a name, with the names before it on one side and those after it on the other. -/
theorem Threaded.split {i : Nat} {name : String} (h : Threaded calm cs names)
    (hi : names[i]? = some name) :
    ∃ u v, cs = u ++ ((Placeholder.token name).toList ++ v) ∧ Threaded calm u (names.take i) ∧
      Threaded calm v (names.drop (i + 1)) := by
  induction h generalizing i with
  | text => cases hi
  | @token u cs first names hu h ih =>
    cases i with
    | zero =>
      cases hi
      exact ⟨u, cs, rfl, .text hu, h⟩
    | succ i =>
      obtain ⟨v, w, rfl, hv, hw⟩ := ih hi
      exact ⟨u ++ ((Placeholder.token first).toList ++ v), w, by simp, .token hu hv, hw⟩

theorem Threaded.balanced (hcalm : calm) (h : Threaded calm cs names)
    (hnames : ∀ name ∈ names, '\'' ∉ name.toList) : Balanced cs := by
  induction h with
  | text hu => exact hu hcalm
  | @token u cs name names hu _ ih =>
    rw [List.forall_mem_cons] at hnames
    have htoken : '\'' ∉ (Placeholder.token name).toList := by
      simpa [Placeholder.token] using hnames.1
    exact (hu hcalm).append ((balanced_of_not_mem htoken).append (ih hnames.2))

end Threaded

end PathQuery.Sql
