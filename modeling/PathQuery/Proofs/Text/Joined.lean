import Mathlib.Data.List.Infix
import PathQuery.Text.Edit

/-!
Joined names. Where a separator can be told from the words around it, the text of a list of words
determines the list, and a text that starts like that of a list continues it.
-/

namespace PathQuery.Text

/-- The separator is found where a word ends, and never inside one. -/
structure Divides (sep : String) (P : String → Prop) : Prop where
  first : ∀ {a b x y : String}, P a → P b → a ++ sep ++ x = b ++ sep ++ y → a = b ∧ x = y
  inside : ∀ {a b x : String}, P a → P b → a ++ sep ++ x ≠ b

variable {sep : String} {P : String → Prop} {words more : List String}

theorem join_cons (w : String) (hne : more ≠ []) :
    join sep (w :: more) = w ++ sep ++ join sep more := by
  cases more with
  | nil => exact absurd rfl hne
  | cons v rest => rfl

theorem join_append (hwords : words ≠ []) (hmore : more ≠ []) :
    join sep (words ++ more) = join sep words ++ sep ++ join sep more := by
  induction words with
  | nil => exact absurd rfl hwords
  | cons w rest ih =>
    cases rest with
    | nil => exact join_cons w hmore
    | cons v rest =>
      rw [List.cons_append, join_cons w (by simp), ih (by simp), join_cons w (by simp)]
      simp only [String.append_assoc]

theorem join_ne_empty (hwords : words ≠ []) (h : ∀ w ∈ words, w ≠ "") : join sep words ≠ "" := by
  cases words with
  | nil => exact absurd rfl hwords
  | cons w rest =>
    have hw := h w (by simp)
    cases rest with
    | nil => exact hw
    | cons v rest =>
      rw [join_cons w (by simp), String.append_assoc]
      intro hempty
      exact hw (String.append_eq_empty_iff.mp hempty).1

/-- A joined text ends as its last word does. -/
theorem getLast?_join {P : Char → Prop} (hne : ∀ w ∈ words, w.toList ≠ [])
    (h : ∀ w ∈ words, ∀ c ∈ w.toList.getLast?, P c) :
    ∀ c ∈ (join sep words).toList.getLast?, P c := by
  induction words with
  | nil => simp [join]
  | cons w rest ih =>
    rw [List.forall_mem_cons] at hne h
    by_cases hrest : rest = []
    · subst hrest
      exact h.1
    · have hend : (join sep rest).toList ≠ [] := by
        have hjoin : join sep rest ≠ "" :=
          join_ne_empty hrest fun w hw hempty => hne.2 w hw (by simp [hempty])
        simpa using hjoin
      rw [join_cons w hrest, String.toList_append, List.getLast?_append_of_ne_nil _ hend]
      exact ih hne.2 h.2

/-- A text that goes on after that of `words` is the text of a longer list. -/
theorem Divides.of_join_append (hd : Divides sep P) (hw : ∀ w ∈ words, P w) (hm : ∀ w ∈ more, P w)
    (hwords : words ≠ []) (hmore : more ≠ []) {x : String}
    (h : join sep words ++ sep ++ x = join sep more) :
    ∃ rest, rest ≠ [] ∧ more = words ++ rest ∧ join sep rest = x := by
  induction words generalizing more with
  | nil => exact absurd rfl hwords
  | cons w words ih =>
    obtain ⟨v, more, rfl⟩ := List.exists_cons_of_ne_nil hmore
    have hpw := hw w (by simp)
    have hpv := hm v (by simp)
    have longer (hnil : words ≠ []) : join sep (w :: words) ++ sep ++ x
        = w ++ sep ++ (join sep words ++ sep ++ x) := by
      rw [join_cons w hnil]
      simp only [String.append_assoc]
    -- the text of one word has no separator, so `more` has to go on as long as `words` do
    by_cases hrest : more = []
    · subst hrest
      refine absurd h ?_
      by_cases hnil : words = []
      · subst hnil
        exact hd.inside hpw hpv
      · rw [longer hnil]
        exact hd.inside hpw hpv
    · rw [join_cons v hrest] at h
      by_cases hnil : words = []
      · subst hnil
        obtain ⟨rfl, rfl⟩ := hd.first hpw hpv h
        exact ⟨more, hrest, rfl, rfl⟩
      · rw [longer hnil] at h
        obtain ⟨rfl, htail⟩ := hd.first hpw hpv h
        obtain ⟨rest, hne, rfl, hx⟩ := ih (fun u hu => hw u (by simp [hu]))
          (fun u hu => hm u (by simp [hu])) hnil hrest htail
        exact ⟨rest, hne, rfl, hx⟩

theorem Divides.join_injective (hd : Divides sep P) (hw : ∀ w ∈ words, P w)
    (hm : ∀ w ∈ more, P w) (hwords : words ≠ []) (hmore : more ≠ [])
    (h : join sep words = join sep more) : words = more := by
  induction words generalizing more with
  | nil => exact absurd rfl hwords
  | cons w words ih =>
    obtain ⟨v, more, rfl⟩ := List.exists_cons_of_ne_nil hmore
    have hpw := hw w (by simp)
    have hpv := hm v (by simp)
    by_cases hnil : words = []
    · by_cases hrest : more = []
      · subst hnil hrest
        rw [show w = v from h]
      · subst hnil
        rw [join_cons v hrest] at h
        exact absurd h.symm (hd.inside hpv hpw)
    · by_cases hrest : more = []
      · subst hrest
        rw [join_cons w hnil] at h
        exact absurd h (hd.inside hpw hpv)
      · rw [join_cons w hnil, join_cons v hrest] at h
        obtain ⟨rfl, htail⟩ := hd.first hpw hpv h
        rw [ih (fun u hu => hw u (by simp [hu])) (fun u hu => hm u (by simp [hu])) hnil hrest htail]

/-- A dot ends a word that has none. -/
theorem divides_dot : Divides "." fun w => '.' ∉ w.toList := by
  have split {a b x y : List Char} (ha : '.' ∉ a) (hb : '.' ∉ b)
      (h : a ++ '.' :: x = b ++ '.' :: y) : a = b ∧ x = y := by
    have hcut := congrArg (List.takeWhile (· != '.')) h
    rw [List.takeWhile_append_of_pos, List.takeWhile_append_of_pos] at hcut
    · simp only [List.takeWhile_cons, bne_self_eq_false, Bool.false_eq_true, if_false,
        List.append_nil] at hcut
      subst hcut
      exact ⟨rfl, List.cons.inj (List.append_cancel_left h) |>.2⟩
    · intro c hc
      exact bne_iff_ne.mpr (fun he => hb (he ▸ hc))
    · intro c hc
      exact bne_iff_ne.mpr (fun he => ha (he ▸ hc))
  constructor
  · intro a b x y ha hb h
    have hchars := congrArg String.toList h
    simp only [String.toList_append, List.append_assoc] at hchars
    obtain ⟨hab, hxy⟩ := split ha hb hchars
    exact ⟨String.toList_injective hab, String.toList_injective hxy⟩
  · intro a b x _ hb h
    refine hb ?_
    rw [← h]
    simp

/-- A word that two underscores can follow: it does not have them itself and does not end with
one. -/
def Settled (w : String) : Prop :=
  ¬ ['_', '_'] <:+: w.toList ∧ w.toList.getLast? ≠ some '_'

instance (w : String) : Decidable (Settled w) :=
  inferInstanceAs (Decidable (_ ∧ _))

/-- Two underscores end a word that is settled. -/
theorem divides_underscores : Divides "__" Settled := by
  -- what is left of a settled word after the shorter one would start with an underscore
  have exhausted {a b c x y : List Char} (hb : ¬ ['_', '_'] <:+: b ∧ b.getLast? ≠ some '_')
      (hsplit : b = a ++ c) (h : '_' :: '_' :: x = c ++ '_' :: '_' :: y) : c = [] := by
    match c, h with
    | [], _ => rfl
    | [d], h =>
      obtain ⟨rfl, -⟩ := List.cons.inj h
      exact absurd (by rw [hsplit]; simp) hb.2
    | d :: e :: c, h =>
      obtain ⟨rfl, htail⟩ := List.cons.inj h
      obtain ⟨rfl, -⟩ := List.cons.inj htail
      exact absurd ⟨a, c, by rw [hsplit]; simp⟩ hb.1
  constructor
  · intro a b x y ha hb h
    have hchars := congrArg String.toList h
    simp only [String.toList_append, List.append_assoc] at hchars
    obtain ⟨c, hsplit, hrest⟩ | ⟨c, hsplit, hrest⟩ := List.append_eq_append_iff.mp hchars
    · obtain rfl := exhausted hb hsplit hrest
      rw [List.append_nil] at hsplit
      exact ⟨String.toList_injective hsplit.symm,
        String.toList_injective (List.append_cancel_left hrest)⟩
    · obtain rfl := exhausted ha hsplit hrest
      rw [List.append_nil] at hsplit
      exact ⟨String.toList_injective hsplit,
        String.toList_injective (List.append_cancel_left hrest).symm⟩
  · intro a b x _ hb h
    refine hb.1 ⟨a.toList, x.toList, ?_⟩
    rw [← h]
    simp

end PathQuery.Text
