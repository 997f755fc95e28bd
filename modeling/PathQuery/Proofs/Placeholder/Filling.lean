import PathQuery.Proofs.Steps
import PathQuery.Template

/-!
Filling the pieces of a text. What filling comes to is said once for each kind of piece. Replacing
the placeholders of a text and moving it to another place both fill its pieces.
-/

namespace PathQuery.Placeholder

open Steps

variable {σ : Type} {replace : String → StateT σ (Except Error) String} {st st' : σ}
  {cs out : List Char} {ps qs : List Piece}

@[simp]
theorem fill_nil : fill replace [] st = .ok (out, st') ↔ out = [] ∧ st' = st :=
  pure_ok_iff

@[simp]
theorem fill_char {c : Char} :
    fill replace (.char c :: ps) st = .ok (out, st') ↔
      ∃ rest, fill replace ps st = .ok (rest, st') ∧ out = c :: rest := by
  simp [fill]

@[simp]
theorem fill_token {name : List Char} :
    fill replace (.token name :: ps) st = .ok (out, st') ↔
      ∃ new mid rest, replace (.ofList name) st = .ok (new, mid) ∧
        fill replace ps mid = .ok (rest, st') ∧ out = new.toList ++ rest := by
  simp [fill]

theorem fill_append :
    fill replace (ps ++ qs) st = .ok (out, st') ↔
      ∃ first mid last, fill replace ps st = .ok (first, mid) ∧
        fill replace qs mid = .ok (last, st') ∧ out = first ++ last := by
  induction ps generalizing st st' out with
  | nil => simp
  | cons p ps ih =>
    cases p with
    | char c =>
      simp only [List.cons_append, fill_char, ih]
      constructor
      · rintro ⟨_, ⟨first, mid, last, hfirst, hlast, rfl⟩, rfl⟩
        exact ⟨_, mid, last, ⟨first, hfirst, rfl⟩, hlast, rfl⟩
      · rintro ⟨_, mid, last, ⟨first, hfirst, rfl⟩, hlast, rfl⟩
        exact ⟨_, ⟨first, mid, last, hfirst, hlast, rfl⟩, rfl⟩
    | token name =>
      simp only [List.cons_append, fill_token, ih]
      constructor
      · rintro ⟨new, mid, _, hnew, ⟨first, next, last, hfirst, hlast, rfl⟩, rfl⟩
        exact ⟨_, next, last, ⟨new, mid, first, hnew, hfirst, rfl⟩, hlast, by simp⟩
      · rintro ⟨_, next, last, ⟨new, mid, first, hnew, hfirst, rfl⟩, hlast, rfl⟩
        exact ⟨new, mid, _, hnew, ⟨first, next, last, hfirst, hlast, rfl⟩, by simp⟩

theorem fill_plain : fill replace (cs.map .char) st = .ok (out, st') ↔ out = cs ∧ st' = st := by
  induction cs generalizing out with
  | nil => simp
  | cons c cs ih =>
    rw [List.map_cons, fill_char]
    simp only [ih]
    constructor
    · rintro ⟨rest, ⟨rfl, rfl⟩, rfl⟩
      exact ⟨rfl, rfl⟩
    · rintro ⟨rfl, rfl⟩
      exact ⟨cs, ⟨rfl, rfl⟩, rfl⟩

theorem fill_chars :
    fill replace (cs.map .char ++ ps) st = .ok (out, st') ↔
      ∃ rest, fill replace ps st = .ok (rest, st') ∧ out = cs ++ rest := by
  simp only [fill_append, fill_plain]
  constructor
  · rintro ⟨_, _, rest, ⟨rfl, rfl⟩, hrest, rfl⟩
    exact ⟨rest, hrest, rfl⟩
  · rintro ⟨rest, hrest, rfl⟩
    exact ⟨cs, st, rest, ⟨rfl, rfl⟩, hrest, rfl⟩

/-- Values that every token leaves at the front are left there by the whole text. -/
theorem fill_prefix {α : Type} {replace : String → StateT (List α) (Except Error) String}
    (hreplace : ∀ {name new st st'}, replace name st = .ok (new, st') → st <+: st')
    {st st' : List α} (h : fill replace ps st = .ok (out, st')) : st <+: st' := by
  induction ps generalizing st out with
  | nil =>
    obtain ⟨-, rfl⟩ := fill_nil.mp h
    exact List.prefix_refl st'
  | cons p ps ih =>
    cases p with
    | char c =>
      obtain ⟨rest, hrest, -⟩ := fill_char.mp h
      exact ih hrest
    | token name =>
      obtain ⟨_, mid, _, hnew, hrest, -⟩ := fill_token.mp h
      exact (hreplace hnew).trans (ih hrest)

theorem substitute_ok_iff {text sql : String} :
    substitute replace text st = .ok (sql, st') ↔
      fill replace (pieces text.toList) st = .ok (sql.toList, st') := by
  simp only [substitute, bind_ok_iff, pure_ok_iff]
  constructor
  · rintro ⟨out, _, hfill, rfl, rfl⟩
    rwa [String.toList_ofList]
  · intro hfill
    exact ⟨sql.toList, st', hfill, String.ofList_toList.symm, rfl⟩

end PathQuery.Placeholder

theorem PathQuery.Splice.move_ok_iff {sql out : String} {carried before after : List Value}
    {own : Option Context} :
    move sql carried own before = .ok (out, after) ↔
      Placeholder.fill (moveToken before.length own) (Placeholder.pieces sql.toList)
        (before ++ carried) = .ok (out.toList, after) :=
  Placeholder.substitute_ok_iff
