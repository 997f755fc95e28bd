import PathQuery.Proofs.Column.Splitting
import PathQuery.Proofs.Sql.Places

/-!
The names of the placeholders in a text. A name is found wherever a word stands in braces, whatever
is around it. So what is cut out of a text has no other names, what is put together with something
apart in between has the names of its parts, and the texts of an expression have no other names than
the source that it is read from: escapes stand for quotes and backslashes only.
-/

namespace PathQuery.Placeholder

open Sql

variable {u v cs ds name : List Char}

/-! ### Words in braces -/

theorem token?_eq_some_iff :
    token? cs = some name ↔
      name ≠ [] ∧ (∀ c ∈ name, Text.isWordChar c) ∧ name ++ ['\x7d'] <+: cs := by
  constructor
  · intro h
    obtain ⟨hword, rest, rfl⟩ := token?_some h
    refine ⟨?_, hword, rest, by simp⟩
    rintro rfl
    have hclose : Text.isWordChar '\x7d' = false := by decide
    simp [token?, hclose] at h
  · rintro ⟨hne, hword, rest, rfl⟩
    have hname : IsWord (.ofList name) := by simpa [IsWord] using ⟨hne, hword⟩
    simpa using hname.token?_eq rest

/-- Names are found where a word stands in braces. -/
theorem mem_namesIn_iff :
    name ∈ namesIn cs ↔ name ≠ [] ∧ (∀ c ∈ name, Text.isWordChar c) ∧
      '\x7b' :: name ++ ['\x7d'] <:+: cs := by
  induction cs with
  | nil => simp [namesIn]
  | cons c cs ih =>
    have hstep : name ∈ namesIn (c :: cs) ↔
        (c = '\x7b' ∧ token? cs = some name) ∨ name ∈ namesIn cs := by
      rw [namesIn]
      by_cases hc : c = '\x7b'
      · subst hc
        cases htoken : token? cs with
        | none => simp
        | some word => simp [eq_comm]
      · simp [hc]
    rw [hstep, ih, token?_eq_some_iff, List.infix_cons_iff, List.cons_append, List.cons_prefix_cons]
    constructor
    · rintro (⟨rfl, hne, hword, hstart⟩ | ⟨hne, hword, hwithin⟩)
      · exact ⟨hne, hword, .inl ⟨rfl, hstart⟩⟩
      · exact ⟨hne, hword, .inr hwithin⟩
    · rintro ⟨hne, hword, ⟨rfl, hstart⟩ | hwithin⟩
      · exact .inl ⟨rfl, hne, hword, hstart⟩
      · exact .inr ⟨hne, hword, hwithin⟩

theorem namesIn_subset (h : cs <:+: ds) : namesIn cs ⊆ namesIn ds := by
  intro name hname
  obtain ⟨hne, hword, hwithin⟩ := mem_namesIn_iff.mp hname
  exact mem_namesIn_iff.mpr ⟨hne, hword, hwithin.trans h⟩

theorem namesIn_subset_trans (h : namesIn u ⊆ namesIn v) (hwithin : v <:+: cs) :
    namesIn u ⊆ namesIn cs :=
  List.Subset.trans h (namesIn_subset hwithin)

theorem namesIn_of_not_mem (h : '\x7b' ∉ cs) : namesIn cs = [] := by
  rw [List.eq_nil_iff_forall_not_mem]
  intro name hname
  obtain ⟨-, -, hwithin⟩ := mem_namesIn_iff.mp hname
  exact h (hwithin.mem (by simp))

/-- Text that starts apart goes on with no name. -/
theorem namesIn_append_apart (hv : ∀ c ∈ v.head?, isApart c) :
    namesIn (u ++ v) = namesIn u ++ namesIn v := by
  induction u with
  | nil => rfl
  | cons c u ih =>
    rw [List.cons_append, namesIn, namesIn, token?_append_apart hv, ih]
    split <;> rfl

theorem namesIn_append_unbraced (hu : '\x7b' ∉ u) : namesIn (u ++ v) = namesIn v := by
  induction u with
  | nil => rfl
  | cons c u ih =>
    rw [List.mem_cons, not_or] at hu
    rw [List.cons_append, namesIn, ih hu.2]
    simp [Ne.symm hu.1]

theorem mem_namesIn_of_piece {quoted : Bool} {skip : Nat}
    (h : .token name ∈ piecesFrom quoted skip cs) : name ∈ namesIn (cs.drop skip) := by
  fun_induction piecesFrom quoted skip cs with
  | case1 => cases h
  | case2 quoted skip c cs ih => exact ih h
  | case3 quoted c cs hc ih =>
    rcases List.mem_cons.mp h with h | h
    · cases h
    · exact namesIn_subset (List.suffix_cons c cs).isInfix (ih h)
  | case4 quoted c cs hc found hfound ih =>
    rcases List.mem_cons.mp h with h | h
    · cases h
      split at hfound
      · next hbrace =>
        rw [Bool.and_eq_true] at hbrace
        rw [List.drop_zero, namesIn, if_pos hbrace.1, hfound]
        exact List.mem_cons_self
      · cases hfound
    · exact namesIn_subset ((List.drop_suffix _ cs).trans (List.suffix_cons c cs)).isInfix (ih h)
  | case5 quoted c cs hc hnone ih =>
    rcases List.mem_cons.mp h with h | h
    · cases h
    · exact namesIn_subset (List.suffix_cons c cs).isInfix (ih h)

/-- The names outside quotes are among those in the text. -/
theorem mem_names_of_mem_tokenNames {sql name : String} (h : name ∈ tokenNames sql) :
    name ∈ names sql := by
  obtain ⟨piece, hpiece, hname⟩ := List.mem_filterMap.mp h
  cases piece with
  | char => cases hname
  | token word =>
    cases hname
    exact List.mem_map_of_mem (mem_namesIn_of_piece hpiece)

/-! ### Respelled text -/

section Respelled

variable {q : Char} {new : List Char}

/-- A character that is in no name may be replaced by others of that kind. -/
theorem namesIn_respelled (hq : isApart q ∧ q ≠ '\x7b') (hne : new ≠ [])
    (hnew : new.all fun c => isApart c && c != '\x7b') (cs : List Char) :
    namesIn (cs.flatMap fun c => if c == q then new else [c]) = namesIn cs := by
  simp only [List.all_eq_true, Bool.and_eq_true, bne_iff_ne] at hnew
  have htoken (cs : List Char) :
      token? (cs.flatMap fun c => if c == q then new else [c]) = token? cs := by
    by_cases hmem : q ∈ cs
    · obtain ⟨w, rest, rfl, hw⟩ := List.eq_append_cons_of_mem hmem
      have hhead : ∀ c ∈ (new ++ rest.flatMap fun c => if c == q then new else [c]).head?,
          isApart c := by
        cases new with
        | nil => exact absurd rfl hne
        | cons d new => simpa using (hnew d List.mem_cons_self).1
      rw [List.flatMap_append, Lists.flatMap_of_not_mem hw, List.flatMap_cons, if_pos (by simp),
        token?_append_apart hhead, token?_append_apart (by simpa using hq.1)]
    · rw [Lists.flatMap_of_not_mem hmem]
  induction cs with
  | nil => rfl
  | cons c cs ih =>
    rw [List.flatMap_cons]
    by_cases hc : c = q
    · have hbrace : '\x7b' ∉ new := fun hmem => (hnew _ hmem).2 rfl
      rw [if_pos (by simpa using hc), namesIn_append_unbraced hbrace, ih, namesIn, hc]
      simp [hq.2]
    · rw [if_neg (by simpa using hc), List.singleton_append, namesIn, namesIn, htoken, ih]

end Respelled

theorem doubled_eq_flatMap (q : Char) (cs : List Char) :
    Text.doubled q cs = cs.flatMap fun c => if c == q then [q, q] else [c] := by
  induction cs with
  | nil => rfl
  | cons c cs ih =>
    rw [Text.doubled, List.flatMap_cons, ih]
    split
    · next hc => rw [beq_iff_eq.mp hc]; rfl
    · rfl

/-- A literal has the names of its text. -/
theorem namesIn_quoteLiteral (text : String) :
    namesIn (Text.quoteLiteral text).toList = namesIn text.toList := by
  have happart : ∀ c ∈ ['\''].head?, isApart c := by
    intro c hc
    cases hc
    decide
  rw [Text.quoteLiteral, Text.quoted, String.toList_ofList, namesIn_append_apart happart,
    ← List.singleton_append, namesIn_append_unbraced (by decide), doubled_eq_flatMap,
    namesIn_respelled (by decide) (by decide) (by decide)]
  simp [namesIn]

theorem namesIn_pattern (text : String) :
    namesIn (Text.replaceChar '*' "%" text).toList = namesIn text.toList := by
  rw [Text.replaceChar, String.toList_ofList]
  exact namesIn_respelled (by decide) (by decide) (by decide) _

end PathQuery.Placeholder

namespace PathQuery.Expr

open Placeholder

/-! ### Expressions -/

variable {q : Char} {cs rest text w : List Char}

/-- The first character of a string is that of its source, or it is escaped or written twice. -/
theorem quotedText?_cons {c : Char} (h : quotedText? q cs = some (c :: text, rest)) :
    ∃ after, quotedText? q after = some (text, rest) ∧ after <:+ cs ∧
      (cs = c :: after ∨ c = q ∨ c = '\\') := by
  cases cs with
  | nil => cases h
  | cons x cs =>
    rw [quotedText?.eq_def] at h
    dsimp only at h
    split at h
    · next hx =>
      split at h
      · next d after =>
        split at h
        · obtain ⟨reply, hreply, heq⟩ := Option.map_eq_some_iff.mp h
          cases heq
          exact ⟨after, hreply, (List.suffix_cons d after).trans (List.suffix_cons x _),
            .inr (.inl rfl)⟩
        · cases h
      · cases h
    · split at h
      · next hescape =>
        split at h
        · next d after =>
          obtain ⟨reply, hreply, heq⟩ := Option.map_eq_some_iff.mp h
          cases heq
          rw [Bool.and_eq_true] at hescape
          have hd : c = q ∨ c = '\\' := by simpa [escapes] using hescape.2
          exact ⟨after, hreply, (List.suffix_cons c after).trans (List.suffix_cons x _), .inr hd⟩
        · cases h
      · obtain ⟨reply, hreply, heq⟩ := Option.map_eq_some_iff.mp h
        cases heq
        exact ⟨cs, hreply, List.suffix_cons c cs, .inl rfl⟩

/-- Characters that need no escape are found in the source as they are in the text. -/
theorem prefix_of_quotedText? (hw : ∀ c ∈ w, c ≠ q ∧ c ≠ '\\')
    (h : quotedText? q cs = some (text, rest)) (hstart : w <+: text) : w <+: cs := by
  induction w generalizing cs text with
  | nil => exact List.nil_prefix
  | cons c w ih =>
    rw [List.forall_mem_cons] at hw
    obtain ⟨more, rfl⟩ := hstart
    obtain ⟨after, hafter, -, rfl | hc⟩ := quotedText?_cons h
    · exact List.cons_prefix_cons.mpr ⟨rfl, ih hw.2 hafter (List.prefix_append w more)⟩
    · exact absurd hc (not_or.mpr hw.1)

theorem infix_of_quotedText? (hw : ∀ c ∈ w, c ≠ q ∧ c ≠ '\\')
    (h : quotedText? q cs = some (text, rest)) (hwithin : w <:+: text) : w <:+: cs := by
  induction text generalizing cs with
  | nil => exact (prefix_of_quotedText? hw h (List.infix_nil.mp hwithin ▸ List.nil_prefix)).isInfix
  | cons c text ih =>
    rcases List.infix_cons_iff.mp hwithin with hstart | hwithin
    · exact (prefix_of_quotedText? hw h hstart).isInfix
    · obtain ⟨after, hafter, hsuffix, -⟩ := quotedText?_cons h
      exact (ih hafter hwithin).trans hsuffix.isInfix

/-- A string has no other names than its source. -/
theorem namesIn_quotedText? (hq : q = '\'' ∨ q = '"') (h : quotedText? q cs = some (text, rest)) :
    namesIn text ⊆ namesIn cs := by
  intro name hname
  obtain ⟨hne, hword, hwithin⟩ := mem_namesIn_iff.mp hname
  refine mem_namesIn_iff.mpr ⟨hne, hword, infix_of_quotedText? ?_ h hwithin⟩
  have hplain : ∀ d ∈ ['\'', '"', '\\'], d ∉ '\x7b' :: name ++ ['\x7d'] := by
    intro d hd hmem
    simp only [List.mem_cons, List.mem_append, List.cons_append, List.not_mem_nil,
      or_false] at hd hmem
    rcases hmem with rfl | hmem | rfl
    · revert hd
      decide
    · have hd' := hword d hmem
      rcases hd with rfl | rfl | rfl <;> cases hd'
    · revert hd
      decide
  intro c hc
  refine ⟨?_, fun heq => hplain '\\' (by simp) (heq ▸ hc)⟩
  rintro rfl
  rcases hq with rfl | rfl
  · exact hplain _ (by simp) hc
  · exact hplain _ (by simp) hc

/-- The texts that are met in a source have no other names than the source. -/
theorem Spans.namesIn_subset {inside : Bool} {ts : List String} (h : Spans inside cs rest ts) :
    ∀ t ∈ ts, namesIn t.toList ⊆ namesIn cs := by
  induction h with
  | done => simp
  | char _ _ ih | comma _ ih =>
    exact fun t ht => namesIn_subset_trans (ih t ht) (List.suffix_cons _ _).isInfix
  | @bracket _ left _ cs _ _ _ _ _ hbody _ ihbody ih =>
    rw [List.forall_mem_append]
    refine ⟨fun t ht => namesIn_subset_trans (ihbody t ht) (List.suffix_cons _ _).isInfix,
      fun t ht => ?_⟩
    have hsuffix := (List.suffix_cons _ _).trans (hbody.suffix.trans (List.suffix_cons left cs))
    exact namesIn_subset_trans (ih t ht) hsuffix.isInfix
  | @braced _ name cs _ _ _ _ ih =>
    rw [List.forall_mem_cons]
    refine ⟨Placeholder.namesIn_subset ⟨[], cs, by simp [Placeholder.token]⟩, fun t ht => ?_⟩
    have hsuffix := (List.suffix_cons '\x7d' cs).trans (List.suffix_append ('\x7b' :: name) _)
    exact namesIn_subset_trans (ih t ht) hsuffix.isInfix
  | @quoted _ q cs _ _ _ _ hq htext _ ih =>
    rw [List.forall_mem_cons, String.toList_ofList]
    have hquote := (List.suffix_cons q cs).isInfix
    refine ⟨namesIn_subset_trans (namesIn_quotedText? hq htext) hquote, fun t ht => ?_⟩
    exact namesIn_subset_trans (ih t ht) ((quotedText?_suffix htext).isInfix.trans hquote)

end PathQuery.Expr

namespace PathQuery

open Placeholder

theorem Text.trimChars_isInfix (cs : List Char) : trimChars cs <:+: cs := by
  have hend : trimEnd (trimStart cs) <+: trimStart cs := by
    rw [trimEnd, ← List.reverse_suffix, List.reverse_reverse]
    exact List.dropWhile_suffix _
  exact hend.isInfix.trans (List.dropWhile_suffix _).isInfix

/-- The texts of an expression have no other names than its source. -/
theorem Expr.parse_names {source : String} {e : Expr} (h : parse source = .ok e) :
    ∀ text ∈ e.texts, namesIn text.toList ⊆ namesIn source.toList :=
  fun text htext => namesIn_subset_trans ((parse_spans h).namesIn_subset text htext)
    (Text.trimChars_isInfix _)

/-! ### Column lists -/

namespace Column

theorem splitFrom_isInfix {depth : Nat} {quote : Quote} {part cs : List Char}
    {parts : List (List Char)} (h : splitFrom depth quote part cs = some parts) :
    ∀ p ∈ parts, p <:+: part.reverse ++ cs := by
  induction cs generalizing depth quote part parts with
  | nil =>
    rw [splitFrom] at h
    split at h
    · cases h
      simp
    · cases h
  | cons c cs ih =>
    have hnext {depth : Nat} {quote : Quote}
        (h : splitFrom depth quote (c :: part) cs = some parts) :
        ∀ p ∈ parts, p <:+: part.reverse ++ c :: cs := by
      simpa using ih h
    rw [splitFrom] at h
    split at h
    · exact hnext h
    · split at h
      · split at h
        · cases h
        · exact hnext h
      · split at h
        · obtain ⟨rest, hrest, rfl⟩ := Option.map_eq_some_iff.mp h
          rw [List.forall_mem_cons]
          refine ⟨(List.prefix_append _ _).isInfix, fun p hp => (ih hrest p hp).trans ?_⟩
          exact ((List.suffix_cons c cs).trans (List.suffix_append _ _)).isInfix
        · exact hnext h

theorem stripOuter_isInfix {cs ds : List Char} (h : stripOuter cs = .ok ds) : ds <:+: cs := by
  unfold stripOuter at h
  split at h
  · split at h
    · cases h
    · cases h
      refine (Text.trimChars_isInfix _).trans ?_
      exact (List.dropLast_prefix _).isInfix.trans (List.drop_suffix 1 cs).isInfix
    · cases h
      exact List.infix_refl _
  · cases h
    exact List.infix_refl _

theorem ofPart_isInfix (count : Nat) (cs : List Char) :
    (ofPart count cs).expression.toList <:+: cs := by
  unfold ofPart
  split
  · next x name halias =>
    obtain ⟨expression, ⟨⟨g, a, s, g', rfl, -⟩, -, -⟩, rfl⟩ := aliased?_eq_some_iff.mp halias
    rw [String.toList_ofList]
    exact (Text.trimChars_isInfix _).trans (List.prefix_append _ _).isInfix
  · rw [String.toList_ofList]

theorem ofParts_isInfix {source : List Char} {parts : List (List Char)} {before cs : List Column}
    (hparts : ∀ p ∈ parts, p <:+: source) (hbefore : ∀ c ∈ before, c.expression.toList <:+: source)
    (h : ofParts before parts = .ok cs) : ∀ c ∈ cs, c.expression.toList <:+: source := by
  induction parts generalizing before with
  | nil =>
    cases h
    exact hbefore
  | cons part parts ih =>
    rw [List.forall_mem_cons] at hparts
    simp only [ofParts] at h
    split at h
    · exact ih hparts.2 hbefore h
    · split at h
      · cases h
      · refine ih hparts.2 (List.forall_mem_append.mpr ⟨hbefore, ?_⟩) h
        rw [List.forall_mem_singleton]
        exact ((ofPart_isInfix _ _).trans (Text.trimChars_isInfix part)).trans hparts.1

/-- The expressions of a column list are cut out of its source. -/
theorem parseList_isInfix {source : String} {cs : List Column} (h : parseList source = .ok cs) :
    ∀ c ∈ cs, c.expression.toList <:+: source.toList := by
  unfold parseList at h
  split at h
  · cases h
  · next body hbody =>
    have hsource := (stripOuter_isInfix hbody).trans (Text.trimChars_isInfix _)
    split at h
    · cases h
    · next parts hparts =>
      exact ofParts_isInfix (fun p hp => (splitFrom_isInfix hparts p hp).trans hsource) (by simp) h

end Column

/-! ### Order lists -/

namespace OrderTerm

open PathQuery.Expr (Spans)

/-- The texts of the expressions of terms have no other names than the source. -/
def NamedIn (source : List Char) (terms : List (Expr × Option Bool)) : Prop :=
  ∀ t ∈ terms, ∀ text ∈ t.1.texts, namesIn text.toList ⊆ namesIn source

theorem direction_spans (cs : List Char) : Spans false cs (direction cs).2 [] := by
  unfold direction
  split
  · exact .done
  · next after hgap =>
    split
    · next rest hkey =>
      exact (Expr.gap?_spans hgap).trans (Expr.keyword?_spans (by decide) hkey)
    · split
      · next rest hkey =>
        exact (Expr.gap?_spans hgap).trans (Expr.keyword?_spans (by decide) hkey)
      · exact .done

theorem term_spans {cs rest : List Char} {t : Expr × Option Bool} (h : term cs = .ok (t, rest)) :
    Spans false cs rest t.1.texts := by
  unfold term at h
  split at h
  · cases h
  · next e after hread =>
    cases h
    have hspans := (Expr.expression_spells hread).trans (direction_spans after)
    rwa [List.append_nil] at hspans

theorem moreTerms_named {source : List Char} (n : Nat) {terms : List (Expr × Option Bool)}
    {cs : List Char} (hcs : cs <:+ source) (hterms : NamedIn source terms) :
    NamedIn source (moreTerms n terms cs).1 := by
  induction n generalizing terms cs with
  | zero => exact hterms
  | succ n ih =>
    unfold moreTerms
    split
    · next rest hcomma =>
      have hrest : Expr.skipGap rest <:+ source := by
        have hgap : Expr.skipGap cs <:+ cs := List.dropWhile_suffix _
        rw [hcomma] at hgap
        exact (List.dropWhile_suffix _).trans
          ((List.suffix_cons ',' rest).trans (hgap.trans hcs))
      split
      · next t after hterm =>
        have hspans := term_spans hterm
        refine ih (hspans.suffix.trans hrest) (List.forall_mem_append.mpr ⟨hterms, ?_⟩)
        rw [List.forall_mem_singleton]
        exact fun text htext =>
          namesIn_subset_trans (hspans.namesIn_subset text htext) hrest.isInfix
      · exact hterms
    · exact hterms

theorem ofParsed_texts {t : Expr × Option Bool} {o : OrderTerm} (h : ofParsed t = .ok o) :
    o.expr.texts = t.1.texts := by
  unfold ofParsed at h
  split at h
  · cases h
  · cases h
    rw [Expr.texts]
  · cases h
    rfl

theorem ofAll_named {source : List Char} {terms : List (Expr × Option Bool)} {os : List OrderTerm}
    (hterms : NamedIn source terms) (h : ofAll terms = .ok os) :
    ∀ o ∈ os, ∀ text ∈ o.expr.texts, namesIn text.toList ⊆ namesIn source := by
  intro o ho
  obtain ⟨t, ht, hparsed⟩ := exists_ofParsed h o ho
  rw [ofParsed_texts hparsed]
  exact hterms t ht

/-- The expressions of an order list have no other names than its source. -/
theorem parseList_names {source : String} {terms : List OrderTerm}
    (h : parseList source = .ok terms) :
    ∀ t ∈ terms, ∀ text ∈ t.expr.texts, namesIn text.toList ⊆ namesIn source.toList := by
  unfold parseList at h
  split at h
  · cases h
  · cases h
    simp
  · next cs _ hbody =>
    have hsource := (Column.stripOuter_isInfix hbody).trans (Text.trimChars_isInfix source.toList)
    split at h
    · cases h
    · next first rest hfirst =>
      dsimp only at h
      split at h
      · have hspans := term_spans hfirst
        have hterms : NamedIn cs [first] := by
          rw [NamedIn, List.forall_mem_singleton]
          exact hspans.namesIn_subset
        have hnamed := ofAll_named (moreTerms_named _ hspans.suffix hterms) h
        exact fun t ht text htext => namesIn_subset_trans (hnamed t ht text htext) hsource
      · cases h

end OrderTerm

end PathQuery
