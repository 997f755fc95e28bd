import PathQuery.Proofs.Condition.Meaning

/-!
A leaf that is joined to a condition by `and`. It is put behind the members of the condition and
read with the last alternative of what stands there, so it restricts the whole of it only if there
is just one alternative. Otherwise what is read can hold where the leaf does not.
-/

namespace PathQuery

namespace Expr

section Merge

variable {ds ds' ds'' : List (List Expr)} {dss : List (List (List Expr))}

theorem merge_assoc (ds ds' ds'' : List (List Expr)) :
    merge (merge ds ds') ds'' = merge ds (merge ds' ds'') := by
  fun_induction merge ds ds' with
  | case1 ds => simp [merge]
  | case2 es => simp [merge]
  | case3 es es' ds =>
    cases ds with
    | nil =>
      cases ds'' with
      | nil => simp [merge]
      | cons => simp [merge]
    | cons => simp [merge]
  | case4 es es' ds ds' ih =>
    have hcons {x : List (List Expr)} (hx : x ≠ []) (y : List (List Expr)) :
        merge (es :: x) y = es :: merge x y := by
      cases x with
      | nil => exact absurd rfl hx
      | cons => rfl
    rw [hcons (merge_ne_nil (by simp)), ih, hcons (by simp)]

theorem spliceAll_and_concat (hne : dss ≠ []) :
    spliceAll .and (dss ++ [ds]) = merge (spliceAll .and dss) ds := by
  fun_induction spliceAll .and dss with
  | case1 => exact absurd rfl hne
  | case2 d => rfl
  | case3 d d' dss ih =>
    show merge d (spliceAll .and ((d' :: dss) ++ [ds])) = _
    rw [ih (by simp)]
    exact (merge_assoc d _ ds).symm

theorem length_merge (hne : ds ≠ []) (hne' : ds' ≠ []) :
    (merge ds ds').length + 1 = ds.length + ds'.length := by
  fun_induction merge ds ds' with
  | case1 ds => exact absurd rfl hne
  | case2 es => exact absurd rfl hne'
  | case3 es es' ds => simp; omega
  | case4 es es' ds ds' ih =>
    have := ih (by simp) hne'
    simp only [List.length_cons] at this ⊢
    omega

/-- A conjunction of texts has one alternative if each of them has. -/
theorem length_spliceAll_and (hne : dss ≠ []) (h : ∀ ds ∈ dss, ds ≠ []) :
    (spliceAll .and dss).length = 1 ↔ ∀ ds ∈ dss, ds.length = 1 := by
  fun_induction spliceAll .and dss with
  | case1 => exact absurd rfl hne
  | case2 d => simp
  | case3 d d' dss ih =>
    rw [List.forall_mem_cons] at h ⊢
    have hrest : spliceAll .and (d' :: dss) ≠ [] := spliceAll_ne_nil .and (by simp) h.2
    have hlength := length_merge h.1 hrest
    have hd := List.length_pos_iff.mpr h.1
    have hpos := List.length_pos_iff.mpr hrest
    rw [← ih (by simp) h.2]
    simp only [splice]
    omega

end Merge

/-! ### A test behind a filter -/

/-- How the test `k`, put behind a filter, restricts it: what is read then has the atoms of both and
follows from both. It is the conjunction of both if the filter is tight. If it is not and the atoms
are distinct, then what is read can hold where the test does not. -/
structure Restricts (k : Expr) (own : Option Expr) (e : Expr) (tight : Bool) : Prop where
  atoms : e.atoms = own.toList.flatMap Expr.atoms ++ [k]
  implied : ∀ v, own.all (holds v) → v k → holds v e
  exact : tight → ∀ v, holds v e = (own.all (holds v) && v k)
  loose : tight = false → e.atoms.Nodup → ∃ v, holds v e = true ∧ v k = false

theorem restricts_none {k : Expr} (hk : isAtom k) : Restricts k none k true :=
  ⟨by simp [atoms_atom hk], by simp [holds_atom hk], by simp [holds_atom hk], nofun⟩

theorem alternatives_of_atom {k : Expr} (hk : isAtom k) {ds : List (List Expr)}
    (h : disjunction ds = k) : ds = [[k]] := by
  subst h
  match ds with
  | [] => cases hk
  | [[]] => cases hk
  | [[e]] => rfl
  | [_ :: _ :: _] => cases hk
  | _ :: _ :: _ => cases hk

theorem stands_atom {k : Expr} (hk : isAtom k) : Stands k [[k]] true := by
  have h : Proper (disjunction [[k]]) := .atom hk
  exact stands_disjunction (by simp) h

theorem restricts_merge {k : Expr} (hk : isAtom k) {ds : List (List Expr)} (hne : ds ≠ [])
    (h : Proper (disjunction ds)) :
    Restricts k (some (disjunction ds)) (disjunction (merge ds [[k]])) (ds.length == 1) := by
  let filter : Part := ⟨disjunction ds, ds, true, stands_disjunction hne h⟩
  let test : Part := ⟨k, [[k]], true, stands_atom hk⟩
  have hstands := Part.stands_node .and [filter, test] (by simp)
  have hds : spliceAll .and ([filter, test].map (·.alternatives)) = merge ds [[k]] := rfl
  have htruth (v : Expr → Bool) :
      holds v (.logical .and ([filter, test].map (·.meant))) =
        (holds v (disjunction ds) && v k) := by
    simp [filter, test, holds_atom hk]
  have hatoms : (disjunction (merge ds [[k]])).atoms = (disjunction ds).atoms ++ [k] := by
    rw [atoms_disjunction, ← hds, hstands.atoms]
    simp [filter, test, atoms_atom hk]
  refine ⟨by simp [hatoms], ?_, ?_, ?_⟩
  · intro v hown hv
    rw [holds_disjunction]
    refine hstands.implied v ?_
    rw [htruth]
    simpa [hv] using hown
  · intro hlength v
    have htight : Part.tightNode .and [filter, test] := by
      simpa [Part.tightNode, filter, test] using hlength
    rw [holds_disjunction, Option.all_some, ← htruth, Bool.eq_iff_iff]
    exact ⟨hstands.exact htight v, hstands.implied v⟩
  · intro hlength hnodup
    have hpos := List.length_pos_iff.mpr hne
    have htwo : 2 ≤ ds.length := by
      have : ds.length ≠ 1 := by simpa using hlength
      omega
    rw [hatoms] at hnodup
    -- all operands of the filter hold, so its first alternative does, and the test fails
    obtain ⟨v, hv⟩ := Demand.together [filter.full, .truth false k]
      (by simpa [Part.full, Demand.truth, filter, atoms_atom hk] using hnodup) (by
        simp only [List.mem_cons, List.not_mem_nil, or_false, forall_eq_or_imp, forall_eq]
        exact ⟨filter.stands.operands (List.nodup_append.mp hnodup).1,
          (Proper.atom hk).exists_holds (by simp [atoms_atom hk]) false⟩)
    have hfull : ∀ x ∈ ds.flatten, holds v x := hv filter.full (by simp)
    have hfalse : holds v k = false := hv (.truth false k) (by simp)
    refine ⟨v, ?_, by rwa [holds_atom hk] at hfalse⟩
    have hfirst : someHolds v (spliceAll .and ([] ++ ds :: [[[k]]])) :=
      someHolds_of_loose (by simp) htwo (by simp) hfull
    rwa [holds_disjunction]

end Expr

namespace Condition

variable {context : Context} {c : Condition} {children children' : List Condition}
  {left left' : List (Survivor context)}

/-- The conditions that a condition is the conjunction of. -/
def conjuncts : Condition → List Condition
  | .and children => children
  | c => [c]

theorem both_leaf (c : Condition) (source : String) :
    c.both (.leaf source) = node .and (c.conjuncts ++ [.leaf source]) := by
  cases c <;> rfl

theorem leavesAll_conjuncts (c : Condition) : leavesAll context c.conjuncts = c.leaves context := by
  cases c <;> simp [conjuncts, leavesAll, leaves]

theorem survivors_append : survivors context (children ++ children') =
    survivors context children ++ survivors context children' := by
  induction children with
  | nil => simp [survivors]
  | cons c rest ih =>
    simp only [List.cons_append, survivors, ih]
    split <;> rfl

theorem meantAll_append : meantAll context (children ++ children') =
    meantAll context children ++ meantAll context children' := by
  induction children with
  | nil => simp [meantAll]
  | cons c rest ih => simp [meantAll, ih]

theorem leavesAll_append : leavesAll context (children ++ children') =
    leavesAll context children ++ leavesAll context children' := by
  induction children with
  | nil => simp [leavesAll]
  | cons c rest ih => simp [leavesAll, ih]

theorem tightAll_append : tightAll context (children ++ children') =
    (tightAll context children && tightAll context children') := by
  induction children with
  | nil => simp [tightAll]
  | cons c rest ih => simp [tightAll, ih, Bool.and_assoc]

theorem Remain.append (h : Remain context children left) (h' : Remain context children' left') :
    Remain context (children ++ children') (left ++ left') where
  survivors_eq := by rw [survivors_append, h.survivors_eq, h'.survivors_eq, List.map_append]
  meantAll_eq := by rw [meantAll_append, h.meantAll_eq, h'.meantAll_eq, List.map_append]
  leavesAll_eq := by rw [leavesAll_append, h.leavesAll_eq, h'.leavesAll_eq, List.flatMap_append]
  tightAll_eq := by rw [tightAll_append, h.tightAll_eq, h'.tightAll_eq, List.all_append]
  bindsTight_eq := by
    rw [List.all_append, h.bindsTight_eq, h'.bindsTight_eq, List.all_append]

theorem remain_nil : Remain context [] [] :=
  ⟨rfl, rfl, rfl, rfl, rfl⟩

/-- The alternatives of texts with `and` between them. -/
def spliced (left : List (Survivor context)) : List (List Expr) :=
  Expr.spliceAll .and (left.map (·.part.alternatives))

theorem alternatives_ne_nil : ∀ ds ∈ left.map (·.part.alternatives), ds ≠ [] := by
  intro ds hds
  obtain ⟨s, _, rfl⟩ := List.mem_map.mp hds
  exact s.part.stands.nonempty

/-- A condition of which something is left is read as the alternatives of its conjuncts. -/
structure Conjoined (context : Context) (c : Condition) (left : List (Survivor context)) :
    Prop where
  remain : Remain context c.conjuncts left
  gone : left = [] → c.render context = ""
  nonempty : left ≠ [] → c.render context ≠ ""
  parse : left ≠ [] → (∀ source ∈ c.leaves context, Expr.plainEdges source) →
    Expr.parse (c.render context) = .ok (Expr.disjunction (spliced left))

theorem conjoined_and (h : Remain context children left) :
    Conjoined context (.and children) left := by
  refine ⟨h, ?_, ?_, ?_⟩
  · rintro rfl
    have hgone : Gone context (node .and children) := h.gone_node
    exact hgone.render_eq
  · intro hne
    obtain ⟨n, hn⟩ : ∃ n : Survivor context, n.condition = node .and children := h.survivor_node hne
    have hnonempty := n.nonempty
    rwa [hn] at hnonempty
  · intro hne hplain
    have hplain : ∀ source ∈ (node .and children).leaves context, Expr.plainEdges source := hplain
    rw [h.plain_node] at hplain
    show Expr.parse ((node .and children).render context) = _
    by_cases hsingle : ∀ s, left = [s] → s.condition.isLeaf = true
    · have htext := h.render_parenthesized .and hne hsingle
      have hreads : Expr.ReadsAs ('(' :: joined .and left ++ [')']) _ := readsAs_joined hne hplain
      rw [← htext, List.map_map] at hreads
      have hparse := Expr.parse_of_readsAs htext hreads
      exact hparse
    · obtain ⟨s, rfl, hleaf⟩ : ∃ s, left = [s] ∧ s.condition.isLeaf = false := by
        simpa using hsingle
      rw [h.render_single .and hleaf, s.parse_iff]
      exact ⟨.inr (hplain s (by simp)), rfl⟩

theorem conjoined_single (hc : c.conjuncts = [c])
    (haccepted : ∀ source ∈ c.leaves context, ∃ e, Expr.parse source = .ok e) :
    ∃ left, Conjoined context c left := by
  obtain hgone | ⟨s, rfl⟩ := gone_or_survivor c haccepted
  · refine ⟨[], ?_, fun _ => hgone.render_eq, by simp, by simp⟩
    rw [hc]
    exact remain_nil.cons_gone hgone
  · refine ⟨[s], ?_, by simp, fun _ => s.nonempty, fun _ hplain => ?_⟩
    · rw [hc]
      exact remain_nil.cons_survivor s
    · exact (s.parse_iff _).mpr ⟨.inr hplain, rfl⟩

theorem exists_conjoined (c : Condition)
    (haccepted : ∀ source ∈ c.leaves context, ∃ e, Expr.parse source = .ok e) :
    ∃ left, Conjoined context c left := by
  cases c with
  | leaf source => exact conjoined_single rfl haccepted
  | or children => exact conjoined_single rfl haccepted
  | and children =>
    obtain ⟨left, hleft⟩ := remain children (by simpa [leaves] using haccepted)
    exact ⟨left, conjoined_and hleft⟩

/-! ### What a condition is read as -/

/-- What is left of a condition and what it is read as. -/
def Reads (context : Context) (c : Condition) : Option Expr → Prop
  | none => c.render context = ""
  | some e => c.render context ≠ "" ∧ Expr.parse (c.render context) = .ok e

theorem Conjoined.reads (h : Conjoined context c left) {own : Option Expr}
    (hplain : ∀ source ∈ c.leaves context, Expr.plainEdges source) :
    Reads context c own ↔
      own = if left = [] then none else some (Expr.disjunction (spliced left)) := by
  by_cases hne : left = []
  · rw [if_pos hne]
    cases own with
    | none => simpa [Reads] using h.gone hne
    | some e => simp [Reads, h.gone hne]
  · rw [if_neg hne]
    cases own with
    | none => simpa [Reads] using h.nonempty hne
    | some e => simp [Reads, h.nonempty hne, h.parse hne hplain, eq_comm]

/-- A conjunction that can be read has leaves with plain edges. -/
theorem plain_of_reads {own : Option Expr} (h : Remain context children left)
    (hread : Reads context (node .and children) own) :
    ∀ source ∈ (node .and children).leaves context, Expr.plainEdges source := by
  by_cases hne : left = []
  · subst hne
    have hgone : Gone context (node .and children) := h.gone_node
    simp [hgone.leaves_eq]
  · obtain ⟨n, hn⟩ : ∃ n : Survivor context, n.condition = node .and children := h.survivor_node hne
    cases own with
    | none => exact absurd hread (hn ▸ n.nonempty)
    | some e =>
      have hparse := hread.2
      rw [← hn, n.parse_iff] at hparse
      rw [← hn]
      refine hparse.1.resolve_left ?_
      rw [hn, isLeaf_node]
      exact Bool.false_ne_true

/-- A condition with a leaf beside it is read as what is left of both, spliced. -/
theorem reads_both {source : String} {own : Option Expr} (hleft : Conjoined context c left)
    (hrest : Remain context [.leaf source] left')
    (h : Reads context (c.both (.leaf source)) own) :
    (∀ source ∈ c.leaves context, Expr.plainEdges source) ∧
      own = if left ++ left' = [] then none
        else some (Expr.disjunction (spliced (left ++ left'))) := by
  rw [both_leaf] at h
  have hboth := hleft.remain.append hrest
  have hplain := plain_of_reads hboth h
  refine ⟨?_, ((conjoined_and hboth).reads hplain).mp h⟩
  intro source hsource
  rw [leaves_node, leavesAll_append, leavesAll_conjuncts] at hplain
  exact hplain source (List.mem_append_left _ hsource)

/-- A leaf that is left out changes nothing. -/
theorem reads_both_of_gone {source : String} {own : Option Expr}
    (haccepted : ∀ source ∈ c.leaves context, ∃ e, Expr.parse source = .ok e)
    (hsupplied : isSupplied context source = false)
    (h : Reads context (c.both (.leaf source)) own) : Reads context c own := by
  obtain ⟨left, hleft⟩ := exists_conjoined c haccepted
  have hgone : Gone context (leaf source) := by
    constructor <;> simp [render, meant, leaves, tight, bindsTight, hsupplied]
  obtain ⟨hplain, hown⟩ := reads_both hleft (remain_nil.cons_gone hgone) h
  rw [List.append_nil] at hown
  exact (hleft.reads hplain).mpr hown

theorem survivor_atom {source : String} {k : Expr} (hsupplied : isSupplied context source)
    (h : Expr.parse source = .ok k) (hk : k.isAtom) :
    ∃ s : Survivor context, s.condition = .leaf source ∧ s.part.alternatives = [[k]] := by
  obtain ⟨s, hs⟩ := survivor_leaf hsupplied h
  have hleaf := s.leaf (by rw [hs]; rfl)
  have hrender : s.condition.render context = source := by simp [hs, render, hsupplied]
  rw [hrender, h, Except.ok.injEq] at hleaf
  exact ⟨s, hs, Expr.alternatives_of_atom hk hleaf.symm⟩

/-- The conjuncts bind tight if there is one alternative for all of them. -/
theorem Conjoined.bindsTight (h : Conjoined context c left) (hne : left ≠ []) :
    c.conjuncts.all (bindsTight context) = ((spliced left).length == 1) := by
  rw [h.remain.bindsTight_eq, Bool.eq_iff_iff, beq_iff_eq, spliced,
    Expr.length_spliceAll_and (by simpa using hne) alternatives_ne_nil]
  simp

/-- A test that is left restricts the condition if its conjuncts bind tight. -/
theorem reads_both_of_atom {source : String} {k : Expr} {read : Option Expr}
    (haccepted : ∀ source ∈ c.leaves context, ∃ e, Expr.parse source = .ok e)
    (hsupplied : isSupplied context source) (hsource : Expr.parse source = .ok k) (hk : k.isAtom)
    (h : Reads context (c.both (.leaf source)) read) :
    ∃ own e, Reads context c own ∧ read = some e ∧
      Expr.Restricts k own e (c.conjuncts.all (bindsTight context)) := by
  obtain ⟨left, hleft⟩ := exists_conjoined c haccepted
  obtain ⟨s, hs, halternatives⟩ := survivor_atom hsupplied hsource hk
  obtain ⟨hplain, hread⟩ := reads_both hleft (hs ▸ remain_nil.cons_survivor s) h
  rw [if_neg (by simp)] at hread
  by_cases hne : left = []
  · subst hne
    have hspliced : spliced ([] ++ [s]) = [[k]] := halternatives
    rw [hspliced] at hread
    refine ⟨none, k, (hleft.reads hplain).mpr rfl, hread, ?_⟩
    rw [hleft.remain.bindsTight_eq]
    exact Expr.restricts_none hk
  · have hspliced : spliced (left ++ [s]) = Expr.merge (spliced left) [[k]] := by
      rw [spliced, List.map_append, List.map_singleton, halternatives]
      exact Expr.spliceAll_and_concat (by simpa using hne)
    rw [hspliced] at hread
    refine ⟨some (Expr.disjunction (spliced left)), _,
      (hleft.reads hplain).mpr (by rw [if_neg hne]), hread, ?_⟩
    rw [hleft.bindsTight hne]
    exact Expr.restricts_merge hk
      (Expr.spliceAll_ne_nil .and (by simpa using hne) alternatives_ne_nil)
      (Expr.parse_readable (hleft.parse hne hplain)).proper

end Condition
end PathQuery
