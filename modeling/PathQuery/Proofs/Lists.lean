import Mathlib.Data.List.Forall2
import Mathlib.Data.List.Infix
import Mathlib.Data.List.TakeWhile

/-!
Lists: what is related item by item, how a text falls apart at a character or where a class of
characters ends, and what is found by a key that no two items have.
-/

namespace PathQuery.Lists

variable {α β γ : Type}

/-! ### Item by item -/

theorem forall₂_of_mapM {ε : Type} {f : α → Except ε β} {xs : List α} {ys : List β}
    (h : xs.mapM f = .ok ys) : List.Forall₂ (fun x y => f x = .ok y) xs ys := by
  induction xs generalizing ys with
  | nil =>
    cases h
    exact .nil
  | cons x xs ih =>
    simp only [List.mapM_cons, bind, Except.bind] at h
    split at h
    · cases h
    · next y hy =>
      split at h
      · cases h
      · next rest hrest =>
        cases h
        exact .cons hy (ih hrest)

section Related

variable {R : α → β → Prop} {as bs : List α} {cs : List β}

theorem forall₂_comp {S : β → γ → Prop} {T : α → γ → Prop}
    (hcomp : ∀ a b c, R a b → S b c → T a c) {ds : List γ} (h : List.Forall₂ R as cs)
    (h' : List.Forall₂ S cs ds) : List.Forall₂ T as ds := by
  induction h generalizing ds with
  | nil =>
    cases h'
    exact .nil
  | cons hab _ ih =>
    obtain _ | ⟨hbc, hrest⟩ := h'
    exact .cons (hcomp _ _ _ hab hbc) (ih hrest)

theorem exists_of_forall₂ {a : α} (h : List.Forall₂ R as cs) (ha : a ∈ as) : ∃ c ∈ cs, R a c := by
  induction h with
  | nil => cases ha
  | @cons _ c _ _ hac _ ih =>
    rcases List.mem_cons.mp ha with rfl | ha
    · exact ⟨c, List.mem_cons_self, hac⟩
    · obtain ⟨c, hc, hac⟩ := ih ha
      exact ⟨c, List.mem_cons_of_mem _ hc, hac⟩

theorem forall₂_append_left (h : List.Forall₂ R (as ++ bs) cs) :
    ∃ xs ys, cs = xs ++ ys ∧ List.Forall₂ R as xs ∧ List.Forall₂ R bs ys := by
  refine ⟨cs.take as.length, cs.drop as.length, (List.take_append_drop _ _).symm, ?_, ?_⟩
  · exact (List.forall₂_take_append cs as bs h.flip).flip
  · exact (List.forall₂_drop_append cs as bs h.flip).flip

end Related

/-! ### Keys -/

theorem find?_of_nodup [BEq β] [LawfulBEq β] {key : α → β} {xs : List α} {x : α}
    (h : (xs.map key).Nodup) (hx : x ∈ xs) : xs.find? (key · == key x) = some x := by
  induction xs with
  | nil => cases hx
  | cons y rest ih =>
    simp only [List.map_cons, List.nodup_cons] at h
    rcases List.mem_cons.mp hx with rfl | hrest
    · simp
    · have hne : key y ≠ key x := by
        intro he
        exact h.1 (he ▸ List.mem_map_of_mem hrest)
      simpa [List.find?_cons, hne] using ih h.2 hrest

/-! ### Parts of a text -/

section Parts

variable {p : α → Bool} {u v x y : List α}

/-- A run of characters ends where the text does, if what follows is not of its class. -/
theorem takeWhile_append_of_head (hv : ∀ c ∈ v.head?, p c = false) (u : List α) :
    (u ++ v).takeWhile p = u.takeWhile p := by
  induction u with
  | nil =>
    cases v with
    | nil => rfl
    | cons c v => simp [hv c rfl]
  | cons c u ih => simp [List.takeWhile_cons, ih]

/-- A run of a class before a text that starts with another one. -/
theorem span_append (hu : ∀ c ∈ u, p c) (hv : ∀ c ∈ v.head?, p c = false) :
    (u ++ v).takeWhile p = u ∧ (u ++ v).dropWhile p = v := by
  have htake : (u ++ v).takeWhile p = u := by
    rw [takeWhile_append_of_head hv, List.takeWhile_eq_self_iff.mpr hu]
  have hall := List.takeWhile_append_dropWhile (p := p) (l := u ++ v)
  rw [htake] at hall
  exact ⟨htake, List.append_cancel_left hall⟩

theorem drop_length_takeWhile (p : α → Bool) (u : List α) :
    u.drop (u.takeWhile p).length = u.dropWhile p := by
  have hdrop := List.prefix_append_drop (List.takeWhile_prefix p (l := u))
  have hall := List.takeWhile_append_dropWhile (p := p) (l := u)
  exact List.append_cancel_left (hdrop.symm.trans hall.symm)

theorem starts_append (hu : u <+: x) (hv : v <+: x.drop u.length) : u ++ v <+: x := by
  rw [List.prefix_append_drop hu]
  exact (List.prefix_append_right_inj u).mpr (by simpa using hv)

/-- What stands before the first place of a character is told from what stands behind it. -/
theorem append_cons_inj {c : α} (hu : c ∉ u) (hv : c ∉ v) (h : u ++ c :: x = v ++ c :: y) :
    u = v ∧ x = y := by
  induction u generalizing v with
  | nil =>
    cases v with
    | nil => exact ⟨rfl, (List.cons.inj h).2⟩
    | cons d v => exact absurd ((List.cons.inj h).1 ▸ List.mem_cons_self) hv
  | cons d u ih =>
    cases v with
    | nil => exact absurd ((List.cons.inj h).1 ▸ List.mem_cons_self) hu
    | cons e v =>
      simp only [List.cons_append, List.cons.injEq] at h
      obtain ⟨rfl, rfl⟩ := ih (fun hmem => hu (List.mem_cons_of_mem _ hmem))
        (fun hmem => hv (List.mem_cons_of_mem _ hmem)) h.2
      exact ⟨by rw [h.1], rfl⟩

theorem flatMap_of_not_mem [BEq α] [LawfulBEq α] {c : α} {new : List α} (h : c ∉ u) :
    u.flatMap (fun d => if d == c then new else [d]) = u := by
  induction u with
  | nil => rfl
  | cons d u ih =>
    rw [List.mem_cons, not_or] at h
    rw [List.flatMap_cons, ih h.2]
    simp [Ne.symm h.1]

end Parts

end PathQuery.Lists
