import PathQuery.Proofs.Expr.Chain

/-!
Text put together from texts that are read on their own. A text that is read as alternatives is
read as the same ones within a longer text, if soft text follows: with a connective behind it and
another text, the alternatives are spliced, and between parentheses they are one operand. A text
whose edges hold a blank that is no gap blocks every text that it is a part of.
-/

namespace PathQuery

/-- The word of a connective. -/
def Connective.word : Connective → List Char
  | .and => ['a', 'n', 'd']
  | .or => ['o', 'r']

/-- A connective as it stands between two texts. -/
def Connective.separator (op : Connective) : List Char :=
  ' ' :: op.word ++ [' ']

namespace Expr

/-! ### What may follow -/

theorem soft_nil : Soft [] :=
  ⟨by simp, by simp [skipGap]⟩

theorem soft_close (t : List Char) : Soft (')' :: t) := by
  refine ⟨by simp [isStop], ?_⟩
  rw [skipGap_cons_of_not (by decide)]
  simp [startsOperator]

theorem skipGap_separator (op : Connective) (t : List Char) :
    skipGap (op.separator ++ t) = op.word ++ ' ' :: t := by
  cases op <;> simp [Connective.separator, Connective.word, skipGap, isGap]

theorem soft_separator (op : Connective) (t : List Char) : Soft (op.separator ++ t) := by
  constructor
  · simp [Connective.separator, isStop, Text.isBlank]
  · rw [skipGap_separator]
    cases op <;> simp [Connective.word, startsOperator]

theorem skipGap_gaps {post : List Char} (hpost : ∀ c ∈ post, isGap c) (t : List Char) :
    skipGap (post ++ t) = skipGap t :=
  skipGap_append_of_nil (List.dropWhile_eq_nil_iff.mpr hpost) t

theorem Soft.gaps {post t : List Char} (hpost : ∀ c ∈ post, isGap c) (ht : Soft t) :
    Soft (post ++ t) := by
  constructor
  · cases post with
    | nil => exact ht.stop
    | cons c post =>
      intro d hd
      cases hd
      exact isStop_of_isBlank (isBlank_of_isGap (hpost c (by simp)))
  · rw [skipGap_gaps hpost]
    exact ht.next

theorem keyword?_word (op : Connective) (t : List Char) :
    keyword? op.word (op.word ++ ' ' :: t) = some (' ' :: t) := by
  have hblank : Text.isNameChar ' ' = false := by decide
  cases op <;> simp [Connective.word, keyword?, dropWord?, hblank]

/-! ### Texts that are read -/

/-- The text is read as these alternatives, whatever soft text follows. -/
def ReadsAs (w : List Char) (ds : List (List Expr)) : Prop :=
  ∀ m t, w.length ≤ m → Soft t → ∃ rest,
    Alternatives (notLevel (exprAt m)) ds (skipGap (w ++ t)) rest ∧ skipGap rest = skipGap t

/-- The alternatives of two texts with a connective between them. -/
def splice : Connective → List (List Expr) → List (List Expr) → List (List Expr)
  | .and => merge
  | .or => (· ++ ·)

/-- The alternatives of several texts with a connective between neighbours. -/
def spliceAll (op : Connective) : List (List (List Expr)) → List (List Expr)
  | [] => []
  | [ds] => ds
  | ds :: ds' :: dss => splice op ds (spliceAll op (ds' :: dss))

section Texts

variable {w w' : List Char} {ds ds' : List (List Expr)}

theorem ReadsAs.splice (op : Connective) (h : ReadsAs w ds) (h' : ReadsAs w' ds') :
    ReadsAs (w ++ op.separator ++ w') (splice op ds ds') := by
  intro m t hm ht
  simp only [List.length_append] at hm
  obtain ⟨mid, hmid, hgap⟩ := h m (op.separator ++ (w' ++ t)) (by omega) (soft_separator op _)
  obtain ⟨rest, hrest, hend⟩ := h' m t (by omega) ht
  refine ⟨rest, ?_, hend⟩
  have hkey : keyword? op.word (skipGap mid) = some (' ' :: (w' ++ t)) := by
    rw [hgap, skipGap_separator, keyword?_word]
  have hskip : skipGap (' ' :: (w' ++ t)) = skipGap (w' ++ t) := List.dropWhile_cons_of_pos rfl
  rw [← hskip] at hrest
  rw [List.append_assoc, List.append_assoc]
  cases op with
  | and => exact hmid.merge hkey hrest
  | or => exact hmid.append hkey hrest

/-- An operand that is a primary form is all that its level reads, if soft text follows. -/
theorem notLevel_of_primary {inner : Parser Expr} {c : Char} {cs t : List Char} {e : Expr}
    (hsign : sign? (c :: cs) = none) (hnot : keyword? ['n', 'o', 't'] (c :: cs) = none)
    (ht : Soft t) (h : primary inner (c :: cs) = .ok (e, t)) :
    notLevel inner (c :: cs) = .ok (e, t) := by
  have leftward_stop {op? : List Char → Option (BinaryOp × List Char)} {operand : Parser Expr}
      (hop : op? (skipGap t) = none) (hread : operand (c :: cs) = .ok (e, t)) :
      leftward op? operand (c :: cs) = .ok (e, t) := by
    simp only [leftward, hread]
    cases t with
    | nil => rfl
    | cons d t => simp only [List.length_cons, chainLoop, hop]
  have hsigned : signedLevel inner (c :: cs) = .ok (e, t) := by
    unfold signedLevel
    rw [signs_of_none hsign, h]
  have hsum : sumLevel inner (c :: cs) = .ok (e, t) :=
    leftward_stop ht.sumOp?_eq_none (leftward_stop ht.productOp?_eq_none hsigned)
  unfold notLevel comparisonLevel
  rw [negated_of_none hnot]
  simp only [comparison, hsum, ht.compareOp?_eq_none]

theorem ReadsAs.parenthesized (h : ReadsAs w ds) :
    ReadsAs ('(' :: w ++ [')']) [[disjunction ds]] := by
  intro m t hm ht
  simp only [List.length_append, List.length_cons, List.length_nil] at hm
  obtain ⟨k, rfl⟩ : ∃ k, m = k + 1 := ⟨m - 1, by omega⟩
  obtain ⟨rest, hrest, hgap⟩ := h k (')' :: t) (by omega) (soft_close t)
  rw [skipGap_cons_of_not (by decide) t] at hgap
  have hinner : exprAt (k + 1) (skipGap (w ++ ')' :: t)) = .ok (disjunction ds, rest) :=
    orLevel_of_alternatives (exprAt_sound k) hrest (by rw [hgap]; rfl) (by rw [hgap]; rfl)
  have hsequence := sequence_one hinner (by simp [hgap])
  have hprimary : primary (exprAt (k + 1)) ('(' :: (w ++ ')' :: t)) = .ok (disjunction ds, t) := by
    refine orStuck_ok_iff.mpr ?_
    rw [grouped?_eq, hsequence, closing?_some_iff.mpr hgap]
    rfl
  have hread := notLevel_of_primary (by rfl) (by rfl) ht hprimary
  refine ⟨t, ?_, rfl⟩
  have htext : '(' :: w ++ [')'] ++ t = '(' :: (w ++ ')' :: t) := by simp
  rw [htext, skipGap_cons_of_not (by decide)]
  exact .one (.one hread)

/-! ### Texts that block -/

/-- The text blocks what is read, whatever soft text follows. -/
def Blocks (w : List Char) : Prop :=
  ∀ m t, w.length ≤ m → Soft t → Blocked connectives (notLevel (exprAt m)) (skipGap (w ++ t))

/-- The text starts as the first item between parentheses may. -/
def Opens (w : List Char) : Prop :=
  ∃ c rest, skipGap w = c :: rest ∧ c ≠ ',' ∧ c ≠ ')'

theorem Opens.append (h : Opens w) (t : List Char) : Opens (w ++ t) := by
  obtain ⟨c, rest, hw, hc⟩ := h
  refine ⟨c, rest ++ t, ?_, hc⟩
  rw [skipGap_append (by simp [hw]), hw, List.cons_append]

theorem opens_parenthesized (w : List Char) : Opens ('(' :: w) :=
  ⟨'(', w, skipGap_cons_of_not (by decide) w, by decide, by decide⟩

theorem Blocks.before (op : Connective) (h : Blocks w) (w' : List Char) :
    Blocks (w ++ op.separator ++ w') := by
  intro m t hm _
  simp only [List.length_append] at hm
  rw [List.append_assoc, List.append_assoc]
  exact h m (op.separator ++ (w' ++ t)) (by omega) (soft_separator op _)

theorem ReadsAs.blocks (op : Connective) (h : ReadsAs w ds) (h' : Blocks w') :
    Blocks (w ++ op.separator ++ w') := by
  intro m t hm ht
  simp only [List.length_append] at hm
  obtain ⟨mid, hmid, hgap⟩ := h m (op.separator ++ (w' ++ t)) (by omega) (soft_separator op _)
  have hblocked := h' m t (by omega) ht
  have hkey : keyword? op.word (skipGap mid) = some (' ' :: (w' ++ t)) := by
    rw [hgap, skipGap_separator, keyword?_word]
  have hskip : skipGap (' ' :: (w' ++ t)) = skipGap (w' ++ t) := List.dropWhile_cons_of_pos rfl
  rw [← hskip] at hblocked
  rw [List.append_assoc, List.append_assoc]
  refine .of_alternatives hmid fun e cs hread => .more hread ?_ hkey hblocked
  cases op <;> simp [connectives, Connective.word]

/-- Between parentheses, blocked text is no operand. -/
theorem Blocks.fails (h : Blocks w) (hopens : Opens w) {m : Nat} (hm : w.length + 1 ≤ m)
    (t : List Char) : Fails (notLevel (exprAt m)) ('(' :: (w ++ ')' :: t)) := by
  obtain ⟨k, rfl⟩ : ∃ k, m = k + 1 := ⟨m - 1, by omega⟩
  have hblocked := h k (')' :: t) (by omega) (soft_close t)
  have hclosing : closing? ')'
      (sequence (exprAt (k + 1)) (skipGap (w ++ ')' :: t))).2 = none := by
    obtain hfails | ⟨e, rest, hread, hjammed⟩ := hblocked.orLevel (exprAt_sound k)
    · obtain ⟨c, rest, hrest, hcomma, hclose⟩ := hopens.append (')' :: t)
      have hskip : skipGap (skipGap (w ++ ')' :: t)) = c :: rest :=
        (List.dropWhile_idempotent isGap _).trans hrest
      have hinner : Fails (exprAt (k + 1)) (skipGap (w ++ ')' :: t)) := hfails
      rw [sequence_empty hinner (by simp [hskip, hcomma])]
      simp [closing?, hskip, hclose]
    · obtain ⟨c, hc, hblank⟩ := hjammed
      obtain ⟨after, hafter⟩ := List.head?_eq_some_iff.mp hc
      have hne (d : Char) (hd : Text.isBlank d = false) : c ≠ d := by
        intro heq
        rw [heq, hd] at hblank
        cases hblank
      have hinner : exprAt (k + 1) (skipGap (w ++ ')' :: t)) = .ok (e, rest) := hread
      rw [sequence_one hinner (by simp [hafter, hne ',' (by decide)])]
      simp [closing?, hafter, hne ')' (by decide)]
  have hprimary : Fails (primary (exprAt (k + 1))) ('(' :: (w ++ ')' :: t)) := by
    refine ⟨'(' :: (w ++ ')' :: t), ?_⟩
    simp only [primary, grouped?_eq, hclosing]
    rfl
  have hcomparison := hprimary.comparisonLevel (by rfl)
  unfold Fails notLevel
  rwa [negated_of_none (by rfl)]

theorem Blocks.parenthesized (h : Blocks w) (hopens : Opens w) : Blocks ('(' :: w ++ [')']) := by
  intro m t hm _
  simp only [List.length_append, List.length_cons, List.length_nil] at hm
  have htext : '(' :: w ++ [')'] ++ t = '(' :: (w ++ ')' :: t) := by simp
  rw [htext, skipGap_cons_of_not (by decide)]
  exact .fails (h.fails hopens (by omega) t)

end Texts

/-! ### Joined texts -/

section Joined

variable {ι : Type} {op : Connective} {sep : String} {text : ι → String}
  {alternatives : ι → List (List Expr)} {items : List ι}

theorem readsAs_join (hsep : sep.toList = op.separator) (hne : items ≠ [])
    (h : ∀ i ∈ items, ReadsAs (text i).toList (alternatives i)) :
    ReadsAs (Text.join sep (items.map text)).toList (spliceAll op (items.map alternatives)) := by
  induction items with
  | nil => exact absurd rfl hne
  | cons i items ih =>
    cases items with
    | nil => exact h i (by simp)
    | cons j items =>
      have hrest := ih (by simp) fun k hk => h k (List.mem_cons_of_mem i hk)
      have htext : (Text.join sep ((i :: j :: items).map text)).toList =
          (text i).toList ++ op.separator ++ (Text.join sep ((j :: items).map text)).toList := by
        simp [Text.join, hsep]
      rw [htext]
      exact (h i (by simp)).splice op hrest

/-- One text that blocks is enough. -/
theorem blocks_join (hsep : sep.toList = op.separator)
    (h : ∀ i ∈ items, ReadsAs (text i).toList (alternatives i) ∨ Blocks (text i).toList)
    (hblocks : ∃ i ∈ items, Blocks (text i).toList) :
    Blocks (Text.join sep (items.map text)).toList := by
  induction items with
  | nil => simp at hblocks
  | cons i items ih =>
    cases items with
    | nil => simpa [Text.join] using hblocks
    | cons j items =>
      have htext : (Text.join sep ((i :: j :: items).map text)).toList =
          (text i).toList ++ op.separator ++ (Text.join sep ((j :: items).map text)).toList := by
        simp [Text.join, hsep]
      rw [htext]
      by_cases hi : Blocks (text i).toList
      · exact hi.before op _
      · have hreads := (h i (by simp)).resolve_right hi
        have hrest : ∃ k ∈ j :: items, Blocks (text k).toList := by
          simpa [hi] using hblocks
        exact hreads.blocks op (ih (fun k hk => h k (List.mem_cons_of_mem i hk)) hrest)

theorem opens_join (hne : items ≠ []) (h : ∀ i ∈ items, Opens (text i).toList) :
    Opens (Text.join sep (items.map text)).toList := by
  match items, hne with
  | [i], _ => exact h i (by simp)
  | i :: j :: items, _ =>
    have hfirst := h i (by simp)
    simpa [Text.join] using hfirst.append (sep ++ Text.join sep ((j :: items).map text)).toList

end Joined

/-! ### Sources -/

/-- Whether the blanks at the edges of a source are gaps, which may stand within an expression. -/
def plainEdges (source : String) : Bool :=
  (source.toList.takeWhile Text.isBlank).all isGap &&
    (source.toList.reverse.takeWhile Text.isBlank).all isGap

/-- Whether no `or` stands outside the brackets of a source, so that the level of `and` reads it
whole. -/
def bindsTight (source : String) : Bool :=
  let cs := Text.trimChars source.toList
  match andLevel (exprAt cs.length) cs with
  | .ok (_, []) => true
  | _ => false

theorem not_isBlank_head_dropWhile {cs : List Char} {c : Char}
    (h : c ∈ (cs.dropWhile Text.isBlank).head?) : Text.isBlank c = false := by
  have hhead := List.head?_dropWhile_not Text.isBlank cs
  rw [h] at hhead
  simpa using hhead

theorem reverse_trimChars (cs : List Char) :
    (Text.trimChars cs).reverse = (Text.trimStart cs).reverse.dropWhile Text.isBlank :=
  List.reverse_reverse _

theorem not_isBlank_getLast_trimChars {cs : List Char} {c : Char}
    (hc : c ∈ (Text.trimChars cs).getLast?) : Text.isBlank c = false := by
  rw [← List.head?_reverse, reverse_trimChars] at hc
  exact not_isBlank_head_dropWhile hc

/-- A text is its edges around what is left of it when it is trimmed. -/
theorem trimChars_edges {cs : List Char} (hne : Text.trimChars cs ≠ []) :
    ∃ pre post, cs = pre ++ Text.trimChars cs ++ post ∧ cs.takeWhile Text.isBlank = pre ∧
      cs.reverse.takeWhile Text.isBlank = post.reverse := by
  let body := Text.trimStart cs
  let pre := cs.takeWhile Text.isBlank
  let post := (body.reverse.takeWhile Text.isBlank).reverse
  have hbody : body = Text.trimChars cs ++ post := by
    have h : post.reverse ++ (Text.trimChars cs).reverse = body.reverse := by
      rw [reverse_trimChars, List.reverse_reverse]
      exact List.takeWhile_append_dropWhile
    rw [← List.reverse_inj, ← h, List.reverse_append]
  have hcs : cs = pre ++ Text.trimChars cs ++ post := by
    rw [List.append_assoc, ← hbody]
    exact List.takeWhile_append_dropWhile.symm
  refine ⟨pre, post, hcs, rfl, ?_⟩
  have hhead : ∀ c ∈ ((Text.trimChars cs).reverse ++ pre.reverse).head?,
      Text.isBlank c = false := by
    intro c hc
    rw [List.head?_append_of_ne_nil _ (by simpa using hne), List.head?_reverse] at hc
    exact not_isBlank_getLast_trimChars hc
  have hreverse : cs.reverse = post.reverse ++ ((Text.trimChars cs).reverse ++ pre.reverse) := by
    rw [← List.reverse_append, ← List.reverse_append, ← hcs]
  rw [hreverse, Lists.takeWhile_append_of_head hhead, List.reverse_reverse, List.takeWhile_idem]

/-- A source that is read is read whole, up to its edges. -/
theorem expression_of_parse {source : String} {e : Expr} (h : parse source = .ok e) :
    expression (Text.trimChars source.toList) = .ok (e, []) := by
  have hlast (c : Char) (hc : c ∈ (Text.trimChars source.toList).getLast?) :
      Text.isBlank c = false := not_isBlank_getLast_trimChars hc
  unfold parse at h
  generalize Text.trimChars source.toList = core at h hlast ⊢
  cases hread : expression core with
  | error stuck => simp [hread] at h
  | ok reply =>
    obtain ⟨e', rest⟩ := reply
    simp only [hread] at h
    split at h
    · next hempty =>
      cases h
      have hblank : ∀ c ∈ rest, Text.isBlank c := by
        simpa [Text.trimStart] using hempty
      have hnil : rest = [] := by
        by_contra hne
        obtain ⟨c, hc⟩ := Option.ne_none_iff_exists'.mp (by simpa using hne : rest.getLast? ≠ none)
        have hcore' : core.getLast? = some c := by
          obtain ⟨before, rfl⟩ := (expression_sound.proper hread).1
          rw [List.getLast?_append, hc]
          rfl
        have hmem := hblank c (List.mem_of_getLast? hc)
        rw [hlast c hcore'] at hmem
        cases hmem
      rw [hnil]
    · cases h

/-- A source taken apart into the blanks at its edges and the text between them, which is read as
these alternatives. -/
structure Frame (source : String) (ds : List (List Expr)) where
  pre : List Char
  core : List Char
  post : List Char
  text : source.toList = pre ++ core ++ post
  left : source.toList.takeWhile Text.isBlank = pre
  right : source.toList.reverse.takeWhile Text.isBlank = post.reverse
  trim : Text.trimChars source.toList = core
  starts : ∃ c rest, core = c :: rest ∧ isDead c = false
  reads : Alternatives (notLevel (exprAt core.length)) ds core []

theorem frame_of_parse {source : String} {e : Expr} (h : parse source = .ok e) :
    ∃ ds, Nonempty (Frame source ds) ∧ e = disjunction ds := by
  have hread := expression_of_parse h
  have hne := ne_nil_of_read expression_sound hread
  obtain ⟨pre, post, htext, hleft, hright⟩ := trimChars_edges hne
  generalize hcore : Text.trimChars source.toList = core at hread hne htext
  obtain ⟨ds, hds, he⟩ := alternatives_of_orLevel (exprAt_sound core.length) hread
  have hstarts : ∃ c rest, core = c :: rest ∧ isDead c = false := by
    obtain ⟨c, rest, hcons⟩ := List.exists_cons_of_ne_nil hne
    refine ⟨c, rest, hcons, ?_⟩
    by_contra hdead
    have hfails := exprAt_fails (core.length + 1) (by simpa using hdead : isDead c) rest
    rw [← hcons] at hfails
    exact fails_iff.mp hfails _ hread
  exact ⟨ds, ⟨⟨pre, core, post, htext, hleft, hright, hcore, hstarts, hds⟩⟩, he⟩

namespace Frame

variable {source : String} {ds : List (List Expr)} (f : Frame source ds)

theorem isBlank_of_mem_pre {c : Char} (h : c ∈ f.pre) : Text.isBlank c := by
  rw [← f.left] at h
  exact List.mem_takeWhile_imp h

theorem isBlank_of_mem_post {c : Char} (h : c ∈ f.post) : Text.isBlank c := by
  rw [← List.mem_reverse, ← f.right] at h
  exact List.mem_takeWhile_imp h

theorem plainEdges_iff :
    plainEdges source ↔ (∀ c ∈ f.pre, isGap c) ∧ ∀ c ∈ f.post, isGap c := by
  simp [plainEdges, f.left, f.right]

theorem skipGap_core (t : List Char) : skipGap (f.core ++ t) = f.core ++ t := by
  obtain ⟨c, rest, hcore, hdead⟩ := f.starts
  have hgap : isGap c = false := by
    by_contra hgap
    have hstop := isStop_of_isBlank (isBlank_of_isGap (by simpa using hgap : isGap c))
    simp [isDead, hstop] at hdead
  rw [hcore, List.cons_append, skipGap_cons_of_not hgap]

/-- What follows the text between the edges may start with any blank. -/
theorem alternatives {m : Nat} (hm : source.toList.length ≤ m) {t : List Char}
    (ht : Soft (f.post ++ t)) :
    Alternatives (notLevel (exprAt m)) ds (f.core ++ (f.post ++ t)) (f.post ++ t) := by
  have hlength : f.core.length ≤ m := by
    rw [f.text] at hm
    simp only [List.length_append] at hm
    omega
  exact f.reads.alternatives_extend ht.stop (notLevel_sound (exprAt_sound f.core.length))
    (operand_extends ht hlength) (by simp)

theorem readsAs (f : Frame source ds) (h : plainEdges source) : ReadsAs source.toList ds := by
  obtain ⟨hpre, hpost⟩ := f.plainEdges_iff.mp h
  intro m t hm ht
  refine ⟨f.post ++ t, ?_, skipGap_gaps hpost t⟩
  rw [f.text, List.append_assoc, List.append_assoc, skipGap_gaps hpre, f.skipGap_core]
  exact f.alternatives hm (ht.gaps hpost)

/-- Some blank is left where gaps are left out of an edge that holds other blanks. -/
theorem skipGap_edge {edge : List Char} (hblank : ∀ c ∈ edge, Text.isBlank c)
    (hedge : ¬ ∀ c ∈ edge, isGap c) (t : List Char) :
    ∃ c rest, skipGap (edge ++ t) = c :: rest ∧ Text.isBlank c := by
  have hne : skipGap edge ≠ [] := fun hnil => hedge (List.dropWhile_eq_nil_iff.mp hnil)
  obtain ⟨c, rest, hrest⟩ := List.exists_cons_of_ne_nil hne
  have hmem : c ∈ edge := (skipGap_suffix edge).subset (by simp [hrest])
  refine ⟨c, rest ++ t, ?_, hblank c hmem⟩
  rw [skipGap_append hne, hrest, List.cons_append]

theorem blocks (f : Frame source ds) (h : plainEdges source = false) : Blocks source.toList := by
  intro m t hm ht
  by_cases hpre : ∀ c ∈ f.pre, isGap c
  · have hpost : ¬ ∀ c ∈ f.post, isGap c := by
      intro hpost
      rw [f.plainEdges_iff.mpr ⟨hpre, hpost⟩] at h
      cases h
    obtain ⟨c, rest, hrest, hblank⟩ := skipGap_edge (fun _ => f.isBlank_of_mem_post) hpost t
    have hsoft : Soft (f.post ++ t) := by
      constructor
      · obtain ⟨d, hd, _⟩ : ∃ d ∈ f.post, isGap d = false := by simpa using hpost
        intro b hb
        rw [List.head?_append_of_ne_nil _ (List.ne_nil_of_mem hd)] at hb
        exact isStop_of_isBlank (f.isBlank_of_mem_post (List.mem_of_mem_head? hb))
      · intro b hb
        rw [hrest] at hb
        cases hb
        exact not_class_of_isStop (by decide) (isStop_of_isBlank hblank)
    rw [f.text, List.append_assoc, List.append_assoc, skipGap_gaps hpre, f.skipGap_core]
    exact .of_alternatives (f.alternatives hm hsoft) fun e cs hread =>
      .stops hread ⟨c, by simp [hrest], hblank⟩
  · obtain ⟨c, rest, hrest, hblank⟩ := skipGap_edge (fun _ => f.isBlank_of_mem_pre) hpre
      (f.core ++ (f.post ++ t))
    rw [f.text, List.append_assoc, List.append_assoc, hrest]
    exact .fails (notLevel_fails _ (by simp [isDead, isStop, hblank]) rest)

theorem opens (f : Frame source ds) : Opens source.toList := by
  rw [f.text, List.append_assoc]
  by_cases hpre : ∀ c ∈ f.pre, isGap c
  · obtain ⟨c, rest, hcore, hdead⟩ := f.starts
    refine ⟨c, rest ++ f.post, ?_, ?_, ?_⟩
    · rw [skipGap_gaps hpre, f.skipGap_core, hcore, List.cons_append]
    · intro hc
      rw [hc] at hdead
      cases hdead
    · intro hc
      rw [hc] at hdead
      cases hdead
  · obtain ⟨c, rest, hrest, hblank⟩ := skipGap_edge (fun _ => f.isBlank_of_mem_pre) hpre
      (f.core ++ f.post)
    refine ⟨c, rest, hrest, ?_, ?_⟩
    · intro hc
      rw [hc] at hblank
      cases hblank
    · intro hc
      rw [hc] at hblank
      cases hblank

/-- Sources that bind tight are those with one alternative. -/
theorem bindsTight_iff (f : Frame source ds) : bindsTight source ↔ ds.length = 1 := by
  have hnot := notLevel_sound (exprAt_sound f.core.length)
  have hreads := f.reads
  unfold bindsTight
  rw [f.trim]
  generalize hend : ([] : List Char) = last at hreads
  cases hreads with
  | one hes =>
    subst hend
    have hread := (connected_ok_iff .and (by simp) hnot).mpr ⟨_, hes, rfl, rfl⟩
    simp [andLevel, hread]
  | @more _ _ _ mid _ _ hes hkey hmore =>
    have hread := (connected_ok_iff .and (by simp) hnot).mpr
      ⟨_, hes, keyword?_and_eq_none hkey, rfl⟩
    have hmid : mid ≠ [] := by
      intro hnil
      rw [hnil] at hkey
      cases hkey
    obtain ⟨c, mid, rfl⟩ := List.exists_cons_of_ne_nil hmid
    have hlength := List.length_pos_iff.mpr hmore.ne_nil
    simp only [andLevel, hread, List.length_cons, Bool.false_eq_true, false_iff]
    omega

end Frame

/-! ### Whole texts -/

section Whole

variable {w : List Char} {text : String} {ds : List (List Expr)}

theorem trimChars_parenthesized (w : List Char) :
    Text.trimChars ('(' :: w ++ [')']) = '(' :: w ++ [')'] := by
  have hopen : Text.isBlank '(' = false := by decide
  have hclose : Text.isBlank ')' = false := by decide
  simp [Text.trimChars, Text.trimStart, Text.trimEnd, hopen, hclose]

theorem skipGap_parenthesized (w : List Char) :
    skipGap ('(' :: w ++ [')'] ++ []) = '(' :: w ++ [')'] := by
  rw [List.append_nil, List.cons_append, skipGap_cons_of_not (by decide)]

theorem parse_of_readsAs (htext : text.toList = '(' :: w ++ [')']) (h : ReadsAs text.toList ds) :
    parse text = .ok (disjunction ds) := by
  obtain ⟨rest, hrest, hgap⟩ := h text.toList.length [] (le_refl _) soft_nil
  have hskip : skipGap (text.toList ++ []) = text.toList := by
    rw [htext, skipGap_parenthesized]
  rw [hskip] at hrest
  have hread : expression text.toList = .ok (disjunction ds, rest) :=
    orLevel_of_alternatives (exprAt_sound _) hrest (by rw [hgap]; rfl) (by rw [hgap]; rfl)
  have hempty : Text.trimStart rest = [] := by
    refine List.dropWhile_eq_nil_iff.mpr fun c hc => ?_
    exact isBlank_of_isGap (List.dropWhile_eq_nil_iff.mp hgap c hc)
  have htrim : Text.trimChars text.toList = text.toList := by
    rw [htext, trimChars_parenthesized]
  simp [parse, htrim, hread, hempty]

theorem parse_ne_of_blocks (htext : text.toList = '(' :: w ++ [')']) (h : Blocks text.toList)
    (e : Expr) : parse text ≠ .ok e := by
  intro hparse
  have hread := expression_of_parse hparse
  have htrim : Text.trimChars text.toList = text.toList := by
    rw [htext, trimChars_parenthesized]
  have hskip : skipGap (text.toList ++ []) = text.toList := by
    rw [htext, skipGap_parenthesized]
  have hblocked := h text.toList.length [] (le_refl _) soft_nil
  rw [hskip] at hblocked
  rw [htrim] at hread
  obtain hfails | ⟨e', rest, hread', hjammed⟩ := hblocked.orLevel (exprAt_sound _)
  · exact fails_iff.mp hfails _ hread
  · cases hread'.symm.trans hread
    obtain ⟨c, hc, _⟩ := hjammed
    cases hc

end Whole

end Expr

end PathQuery
