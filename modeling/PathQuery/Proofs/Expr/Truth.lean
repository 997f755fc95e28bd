import PathQuery.Proofs.Expr.Splice
import Mathlib.Data.List.Nodup

/-!
The truth of expressions under a valuation of their atoms, which are the expressions in them that
are no connective. Splicing alternatives at `and` can only make them weaker, and it keeps their
truth if each text has just one alternative. Where the atoms are distinct, these are the only
cases: a valuation can be put together from what is asked of each part.
-/

namespace PathQuery.Expr

/-! ### Truth -/

mutual

/-- The truth of an expression whose atoms have the truth that `v` tells. -/
def holds (v : Expr → Bool) : Expr → Bool
  | .logical .and operands => holdsAll v operands
  | .logical .or operands => holdsAny v operands
  | .unary .not e => !holds v e
  | e => v e

def holdsAll (v : Expr → Bool) : List Expr → Bool
  | [] => true
  | e :: es => holds v e && holdsAll v es

def holdsAny (v : Expr → Bool) : List Expr → Bool
  | [] => false
  | e :: es => holds v e || holdsAny v es

end

mutual

/-- The expressions that the truth of an expression depends on, from left to right. -/
def atoms : Expr → List Expr
  | .logical _ operands => atomsAll operands
  | .unary .not e => atoms e
  | e => [e]

def atomsAll : List Expr → List Expr
  | [] => []
  | e :: es => atoms e ++ atomsAll es

end

section Truth

variable {v w : Expr → Bool} {e : Expr} {es : List Expr} {ds ds' : List (List Expr)}

@[simp] theorem holds_and : holds v (.logical .and es) = es.all (holds v) := by
  rw [holds]
  induction es with
  | nil => rfl
  | cons e es ih => rw [holdsAll, ih, List.all_cons]

@[simp] theorem holds_or : holds v (.logical .or es) = es.any (holds v) := by
  rw [holds]
  induction es with
  | nil => rfl
  | cons e es ih => rw [holdsAny, ih, List.any_cons]

@[simp] theorem atoms_logical (op : Connective) : atoms (.logical op es) = es.flatMap atoms := by
  rw [atoms]
  induction es with
  | nil => rfl
  | cons e es ih => rw [atomsAll, ih, List.flatMap_cons]

/-- The truth of alternatives: all operands of one of them hold. -/
def someHolds (v : Expr → Bool) (ds : List (List Expr)) : Bool :=
  ds.any fun es => es.all (holds v)

theorem holds_group_and : holds v (group .and es) = es.all (holds v) := by
  match es with
  | [] => simp [group]
  | [e] => simp [group]
  | _ :: _ :: _ => simp [group]

theorem holds_disjunction : holds v (disjunction ds) = someHolds v ds := by
  have hgroup (es : List Expr) : holds v (group .or es) = es.any (holds v) := by
    match es with
    | [] => simp [group]
    | [e] => simp [group]
    | _ :: _ :: _ => simp [group]
  rw [disjunction, hgroup, List.any_map]
  simp [someHolds, Function.comp_def, holds_group_and]

theorem atoms_group (op : Connective) : atoms (group op es) = es.flatMap atoms := by
  match es with
  | [] => simp [group]
  | [e] => simp [group]
  | _ :: _ :: _ => simp [group]

theorem atoms_disjunction : atoms (disjunction ds) = ds.flatten.flatMap atoms := by
  rw [disjunction, atoms_group, List.flatMap_map]
  induction ds with
  | nil => rfl
  | cons es ds ih => rw [List.flatMap_cons, ih, atoms_group, List.flatten_cons, List.flatMap_append]

end Truth

/-- What is no connective. -/
def isAtom : Expr → Bool
  | .logical _ _ => false
  | .unary .not _ => false
  | _ => true

/-- Expressions whose connectives have operands. -/
inductive Proper : Expr → Prop
  | logical (op : Connective) {operands : List Expr} (hne : operands ≠ [])
      (h : ∀ e ∈ operands, Proper e) : Proper (.logical op operands)
  | not {e : Expr} (h : Proper e) : Proper (.unary .not e)
  | atom {e : Expr} (h : isAtom e) : Proper e

section Proper

variable {v w : Expr → Bool} {e : Expr} {es : List Expr} {ds : List (List Expr)}

theorem holds_atom (h : isAtom e) : holds v e = v e := by
  unfold isAtom at h
  split at h <;> simp_all [holds]

theorem atoms_atom (h : isAtom e) : atoms e = [e] := by
  unfold isAtom at h
  split at h <;> simp_all [atoms]

theorem Readable.proper (h : Readable e) : Proper e := by
  induction h with
  | logical op hlength _ ih => exact .logical op (List.ne_nil_of_length_pos (by omega)) ih
  | unary op _ ih =>
    cases op with
    | not => exact .not ih
    | neg => exact .atom rfl
    | pos => exact .atom rfl
  | _ => exact .atom rfl

theorem Proper.of_group {op : Connective} (h : Proper (group op es)) : ∀ e ∈ es, Proper e := by
  match es with
  | [] => simp
  | [e] => simpa [group] using h
  | _ :: _ :: _ =>
    cases h with
    | logical _ _ h => exact h
    | atom h => cases h

theorem Proper.of_disjunction (h : Proper (disjunction ds)) : ∀ e ∈ ds.flatten, Proper e := by
  intro e he
  obtain ⟨es, hes, he⟩ := List.mem_flatten.mp he
  have hgroup := h.of_group (group .and es) (List.mem_map_of_mem hes)
  exact hgroup.of_group e he

end Proper

/-- Truth depends on the atoms only. -/
theorem holds_congr {v w : Expr → Bool} {e : Expr} (h : ∀ a ∈ atoms e, v a = w a) :
    holds v e = holds w e := by
  by_cases hatom : isAtom e
  · rw [holds_atom hatom, holds_atom hatom]
    exact h e (by simp [atoms_atom hatom])
  · match e with
    | .logical op operands =>
      rw [atoms_logical] at h
      have hsame : ∀ e ∈ operands, holds v e = holds w e := fun e he =>
        holds_congr fun a ha => h a (List.mem_flatMap.mpr ⟨e, he, ha⟩)
      cases op with
      | and =>
        rw [holds_and, holds_and, Bool.eq_iff_iff, List.all_eq_true, List.all_eq_true]
        exact forall₂_congr fun e he => by rw [hsame e he]
      | or =>
        rw [holds_or, holds_or, Bool.eq_iff_iff, List.any_eq_true, List.any_eq_true]
        exact exists_congr fun e => and_congr_right fun he => by rw [hsame e he]
    | .unary .not e =>
      have hsame : holds v e = holds w e := holds_congr (by simpa [atoms] using h)
      simp only [holds, hsame]
termination_by sizeOf e
decreasing_by
  · have := List.sizeOf_lt_of_mem he
    simp only [logical.sizeOf_spec]
    omega
  · simp only [unary.sizeOf_spec]
    omega

/-! ### Valuations -/

/-- Something that is asked of a valuation and depends on certain atoms only. -/
structure Demand where
  atoms : List Expr
  Met : (Expr → Bool) → Prop
  congr : ∀ v w, (∀ a ∈ atoms, v a = w a) → Met v → Met w

/-- The expression has the truth `b`. -/
def Demand.truth (b : Bool) (e : Expr) : Demand where
  atoms := e.atoms
  Met v := holds v e = b
  congr v w hvw hv := by rw [← hv, holds_congr hvw]

/-- Demands that can be met and have no atom in common can be met together. -/
theorem Demand.together (demands : List Demand) (hnodup : (demands.flatMap (·.atoms)).Nodup)
    (h : ∀ d ∈ demands, ∃ v, d.Met v) : ∃ v, ∀ d ∈ demands, d.Met v := by
  classical
  induction demands with
  | nil => exact ⟨fun _ => true, by simp⟩
  | cons d demands ih =>
    rw [List.flatMap_cons, List.nodup_append] at hnodup
    obtain ⟨_, hrest, hdisjoint⟩ := hnodup
    obtain ⟨v, hv⟩ := h d (by simp)
    obtain ⟨w, hw⟩ := ih hrest fun d' hd' => h d' (List.mem_cons_of_mem d hd')
    refine ⟨fun a => if a ∈ d.atoms then v a else w a, ?_⟩
    intro d' hd'
    cases hd' with
    | head => exact d.congr v _ (fun a ha => by simp [ha]) hv
    | tail _ hd' =>
      refine d'.congr w _ (fun a ha => ?_) (hw d' hd')
      have hout : a ∉ d.atoms := fun hin =>
        hdisjoint a hin a (List.mem_flatMap.mpr ⟨d', hd', ha⟩) rfl
      simp [hout]

theorem exists_holds_all {es : List Expr} {b : Bool} (hnodup : (es.flatMap atoms).Nodup)
    (h : ∀ e ∈ es, e.atoms.Nodup → ∃ v, holds v e = b) : ∃ v, ∀ e ∈ es, holds v e = b := by
  have hatoms : ((es.map (Demand.truth b)).flatMap (·.atoms)).Nodup := by
    rw [List.flatMap_map]
    exact hnodup
  obtain ⟨v, hv⟩ := Demand.together _ hatoms (by
    intro d hd
    obtain ⟨e, he, rfl⟩ := List.mem_map.mp hd
    exact h e he ((List.nodup_flatMap.mp hnodup).1 e he))
  exact ⟨v, fun e he => hv _ (List.mem_map_of_mem he)⟩

/-- An expression whose atoms are distinct can have either truth. -/
theorem Proper.exists_holds {e : Expr} (h : Proper e) (hnodup : e.atoms.Nodup) (b : Bool) :
    ∃ v, holds v e = b := by
  induction h generalizing b with
  | @logical op operands hne _ ih =>
    rw [atoms_logical] at hnodup
    obtain ⟨v, hall⟩ := exists_holds_all hnodup fun e he hsub => ih e he hsub b
    obtain ⟨first, hfirst⟩ := List.exists_mem_of_ne_nil operands hne
    refine ⟨v, ?_⟩
    cases op with
    | and =>
      cases b with
      | true => simpa using hall
      | false => simpa using ⟨first, hfirst, hall first hfirst⟩
    | or =>
      cases b with
      | true => simpa using ⟨first, hfirst, hall first hfirst⟩
      | false => simpa using hall
  | not _ ih =>
    obtain ⟨v, hv⟩ := ih hnodup !b
    exact ⟨v, by rw [holds, hv, Bool.not_not]⟩
  | atom hatom => exact ⟨fun _ => b, holds_atom hatom⟩

/-! ### Spliced alternatives -/

section Spliced

variable {v : Expr → Bool} {ds ds' : List (List Expr)} {dss : List (List (List Expr))}

theorem flatten_merge (ds ds' : List (List Expr)) :
    (merge ds ds').flatten = ds.flatten ++ ds'.flatten := by
  fun_induction merge ds ds' with
  | case1 ds => rfl
  | case2 es => simp
  | case3 es es' ds => simp
  | case4 es es' ds ds' ih => simp [ih]

/-- Splicing keeps the operands and their order. -/
theorem flatten_spliceAll (op : Connective) (dss : List (List (List Expr))) :
    (spliceAll op dss).flatten = dss.flatten.flatten := by
  have hsplice (ds ds' : List (List Expr)) :
      (splice op ds ds').flatten = ds.flatten ++ ds'.flatten := by
    cases op with
    | and => exact flatten_merge ds ds'
    | or => exact List.flatten_append
  fun_induction spliceAll op dss with
  | case1 => rfl
  | case2 ds => simp
  | case3 ds ds' dss ih => simp [hsplice, ih]

theorem merge_ne_nil (hds : ds ≠ []) : merge ds ds' ≠ [] := by
  match ds, ds' with
  | [es], [] => simp [merge]
  | [es], es' :: ds' => simp [merge]
  | es :: es' :: ds, ds' => simp [merge]

theorem spliceAll_ne_nil (op : Connective) (hne : dss ≠ []) (h : ∀ ds ∈ dss, ds ≠ []) :
    spliceAll op dss ≠ [] := by
  fun_induction spliceAll op dss with
  | case1 => exact absurd rfl hne
  | case2 ds => exact h ds (by simp)
  | case3 ds ds' dss _ =>
    have hds := h ds (by simp)
    cases op with
    | and => exact merge_ne_nil hds
    | or => simp [splice, hds]

theorem someHolds_spliceAll_or : someHolds v (spliceAll .or dss) = dss.any (someHolds v) := by
  fun_induction spliceAll .or dss with
  | case1 => rfl
  | case2 ds => simp
  | case3 ds ds' dss ih =>
    rw [List.any_cons, ← ih]
    exact List.any_append

theorem someHolds_merge (h : someHolds v ds) (h' : someHolds v ds') :
    someHolds v (merge ds ds') := by
  fun_induction merge ds ds' with
  | case1 ds => exact h'
  | case2 es => exact h
  | case3 es es' ds =>
    simp only [someHolds, List.any_cons, List.any_nil, Bool.or_false, Bool.or_eq_true,
      List.all_append, Bool.and_eq_true] at h h' ⊢
    obtain h' | h' := h'
    · exact .inl ⟨h, h'⟩
    · exact .inr h'
  | case4 es es' ds ds' ih =>
    have hcons (ds : List (List Expr)) :
        someHolds v (es :: ds) = (es.all (holds v) || someHolds v ds) := List.any_cons
    rw [hcons, Bool.or_eq_true] at h ⊢
    obtain h | h := h
    · exact .inl h
    · exact .inr (ih h h')

/-- Splicing at `and` makes the alternatives no stronger. -/
theorem someHolds_spliceAll_and (hne : dss ≠ []) (h : ∀ ds ∈ dss, someHolds v ds) :
    someHolds v (spliceAll .and dss) := by
  fun_induction spliceAll .and dss with
  | case1 => exact absurd rfl hne
  | case2 ds => exact h ds (by simp)
  | case3 ds ds' dss ih =>
    exact someHolds_merge (h ds (by simp))
      (ih (by simp) fun d hd => h d (List.mem_cons_of_mem _ hd))

/-- Texts with one alternative each are spliced into one alternative. -/
theorem spliceAll_and_eq (hne : dss ≠ []) (h : ∀ ds ∈ dss, ds.length = 1) :
    spliceAll .and dss = [dss.flatten.flatten] := by
  fun_induction spliceAll .and dss with
  | case1 => exact absurd rfl hne
  | case2 ds =>
    obtain ⟨es, rfl⟩ := List.length_eq_one_iff.mp (h ds (by simp))
    simp
  | case3 ds ds' dss ih =>
    obtain ⟨es, rfl⟩ := List.length_eq_one_iff.mp (h ds (by simp))
    rw [ih (by simp) fun d hd => h d (List.mem_cons_of_mem _ hd)]
    simp [splice, merge]

/-! ### Loose conjunctions -/

/-- The first alternative holds. -/
def firstHolds (v : Expr → Bool) (ds : List (List Expr)) : Prop :=
  ∃ es ∈ ds.head?, es.all (holds v)

theorem someHolds_of_first (h : firstHolds v ds) : someHolds v ds := by
  obtain ⟨es, hes, h⟩ := h
  exact List.any_eq_true.mpr ⟨es, List.mem_of_mem_head? hes, h⟩

theorem firstHolds_of_operands (hne : ds ≠ []) (h : ∀ e ∈ ds.flatten, holds v e) :
    firstHolds v ds := by
  obtain ⟨es, ds, rfl⟩ := List.exists_cons_of_ne_nil hne
  refine ⟨es, rfl, ?_⟩
  simp only [List.all_eq_true]
  intro e he
  exact h e (by simp [he])

/-- The first alternative of two or more is not touched by what is spliced on behind. -/
theorem firstHolds_merge_of_two (hlength : 2 ≤ ds.length) (h : firstHolds v ds) :
    firstHolds v (merge ds ds') := by
  match ds with
  | es :: es' :: ds => exact h

theorem firstHolds_merge (hne : ds ≠ []) (h : ∀ e ∈ ds.flatten, holds v e)
    (h' : firstHolds v ds') : firstHolds v (merge ds ds') := by
  obtain ⟨es, hes, hall⟩ := firstHolds_of_operands hne h
  match ds with
  | [es] =>
    obtain ⟨es', hes', hall'⟩ := h'
    obtain ⟨ds', rfl⟩ := List.head?_eq_some_iff.mp hes'
    cases hes
    exact ⟨es ++ es', rfl, by simp only [List.all_append, hall, hall', Bool.and_self]⟩
  | es :: es' :: ds =>
    exact firstHolds_merge_of_two (by simp) ⟨_, hes, hall⟩

/-- A text with several alternatives decides by its first one what a conjunction is, whatever
follows, if all before it holds. -/
theorem someHolds_of_loose {before after : List (List (List Expr))}
    (hne : ∀ ds ∈ before, ds ≠ []) (hlength : 2 ≤ ds.length)
    (hbefore : ∀ e ∈ before.flatten.flatten, holds v e) (h : ∀ e ∈ ds.flatten, holds v e) :
    someHolds v (spliceAll .and (before ++ ds :: after)) := by
  refine someHolds_of_first ?_
  induction before with
  | nil =>
    have hfirst := firstHolds_of_operands (List.ne_nil_of_length_pos (by omega)) h
    cases after with
    | nil => exact hfirst
    | cons ds' after => exact firstHolds_merge_of_two hlength hfirst
  | cons d before ih =>
    have hrest := ih (fun d' hd' => hne d' (List.mem_cons_of_mem d hd'))
      fun e he => hbefore e (by simp [he])
    have hd : ∀ e ∈ d.flatten, holds v e := fun e he => hbefore e (by simp [he])
    cases before with
    | nil => exact firstHolds_merge (hne d (by simp)) hd hrest
    | cons d' before => exact firstHolds_merge (hne d (by simp)) hd hrest

theorem someHolds_merge_tail (hne : ds ≠ []) (h : someHolds v ds'.tail) :
    someHolds v (merge ds ds').tail := by
  fun_induction merge ds ds' with
  | case1 ds => exact absurd rfl hne
  | case2 es => exact h
  | case3 es es' ds => exact h
  | case4 es es' ds ds' ih =>
    have htail := ih (by simp) h
    obtain ⟨d, hd, hall⟩ := List.any_eq_true.mp htail
    exact List.any_eq_true.mpr ⟨d, List.mem_of_mem_tail hd, hall⟩

/-- The last text of a conjunction decides by its last alternative what the conjunction is, if it
has several. -/
theorem someHolds_of_loose_last {before : List (List (List Expr))} (hne : ∀ ds ∈ before, ds ≠ [])
    (hlength : 2 ≤ ds.length) (h : ∀ e ∈ ds.flatten, holds v e) :
    someHolds v (spliceAll .and (before ++ [ds])) := by
  suffices htail : someHolds v (spliceAll .and (before ++ [ds])).tail by
    obtain ⟨d, hd, hall⟩ := List.any_eq_true.mp htail
    exact List.any_eq_true.mpr ⟨d, List.mem_of_mem_tail hd, hall⟩
  induction before with
  | nil =>
    match ds with
    | es :: es' :: ds =>
      refine List.any_eq_true.mpr ⟨es', by simp [spliceAll], ?_⟩
      simp only [List.all_eq_true]
      intro e he
      exact h e (by simp [he])
  | cons d before ih =>
    have hrest := ih fun d' hd' => hne d' (List.mem_cons_of_mem d hd')
    cases before with
    | nil => exact someHolds_merge_tail (hne d (by simp)) hrest
    | cons d' before => exact someHolds_merge_tail (hne d (by simp)) hrest

end Spliced

/-! ### What alternatives stand for -/

theorem someHolds_congr {v w : Expr → Bool} {ds : List (List Expr)}
    (h : ∀ a ∈ ds.flatten.flatMap atoms, v a = w a) : someHolds v ds = someHolds w ds := by
  rw [← atoms_disjunction] at h
  rw [← holds_disjunction, ← holds_disjunction, holds_congr h]

/-- The alternatives that a text is read as, and the expression that it is meant to be: they have
the same atoms, the alternatives are no stronger, and they have the same truth if the text is tight.
If it is not and the atoms are distinct, they differ somewhere. -/
structure Stands (e : Expr) (ds : List (List Expr)) (tight : Bool) : Prop where
  proper : Proper e
  nonempty : ds ≠ []
  atoms : ds.flatten.flatMap atoms = e.atoms
  implied : ∀ v, holds v e → someHolds v ds
  exact : tight → ∀ v, someHolds v ds → holds v e
  loose : tight = false → e.atoms.Nodup → ∃ v, someHolds v ds ∧ holds v e = false
  operands : e.atoms.Nodup → ∃ v, ∀ x ∈ ds.flatten, holds v x

theorem stands_disjunction {ds : List (List Expr)} (hne : ds ≠ []) (h : Proper (disjunction ds)) :
    Stands (disjunction ds) ds true := by
  refine ⟨h, hne, atoms_disjunction.symm, ?_, ?_, nofun, ?_⟩
  · intro v hv
    rwa [holds_disjunction] at hv
  · intro _ v hv
    rwa [holds_disjunction]
  · intro hnodup
    rw [atoms_disjunction] at hnodup
    exact exists_holds_all hnodup fun e he hsub => (h.of_disjunction e he).exists_holds hsub true

/-- Between parentheses, the alternatives are one operand. -/
theorem Stands.parenthesized {e : Expr} {ds : List (List Expr)} {tight : Bool}
    (h : Stands e ds tight) : Stands e [[disjunction ds]] tight := by
  have hsame (v : Expr → Bool) : someHolds v [[disjunction ds]] = someHolds v ds := by
    simp [someHolds, holds_disjunction]
  refine ⟨h.proper, by simp, ?_, ?_, ?_, ?_, ?_⟩
  · have hatoms : [[disjunction ds]].flatten.flatMap Expr.atoms = (disjunction ds).atoms := by simp
    rw [hatoms, atoms_disjunction, h.atoms]
  · intro v hv
    rw [hsame]
    exact h.implied v hv
  · intro htight v hv
    rw [hsame] at hv
    exact h.exact htight v hv
  · intro htight hnodup
    obtain ⟨v, hds, he⟩ := h.loose htight hnodup
    exact ⟨v, by rw [hsame]; exact hds, he⟩
  · intro hnodup
    obtain ⟨v, hv⟩ := h.proper.exists_holds hnodup true
    refine ⟨v, ?_⟩
    simp [holds_disjunction, h.implied v hv]

/-- A text of a node with what it is meant to be. -/
structure Part where
  meant : Expr
  alternatives : List (List Expr)
  tight : Bool
  stands : Stands meant alternatives tight

namespace Part

/-- All operands of the text hold. -/
def full (p : Part) : Demand where
  atoms := p.meant.atoms
  Met v := ∀ x ∈ p.alternatives.flatten, holds v x
  congr v w hvw hv x hx := by
    rw [← hv x hx]
    refine (holds_congr fun a ha => hvw a ?_).symm
    rw [← p.stands.atoms]
    exact List.mem_flatMap.mpr ⟨x, hx, ha⟩

/-- The text holds as it is read and not as it is meant. -/
def apart (p : Part) : Demand where
  atoms := p.meant.atoms
  Met v := someHolds v p.alternatives ∧ holds v p.meant = false
  congr v w hvw hv := by
    have hds : someHolds v p.alternatives = someHolds w p.alternatives :=
      someHolds_congr (by rwa [p.stands.atoms])
    rw [← hds, ← holds_congr hvw]
    exact hv

/-- Whether a node with these texts is read as it is meant: in a conjunction of several texts, each
has to have one alternative. -/
def tightNode (op : Connective) (parts : List Part) : Bool :=
  parts.all (·.tight) &&
    match op with
    | .and => parts.length ≤ 1 || parts.all (·.alternatives.length == 1)
    | .or => true

section Node

variable {op : Connective} {parts before after : List Part} {q : Part}

/-- The demands on a text and on those around it can be met together. -/
theorem together {f g h : Part → Demand} (hf : ∀ p, (f p).atoms = p.meant.atoms)
    (hg : ∀ p, (g p).atoms = p.meant.atoms) (hh : ∀ p, (h p).atoms = p.meant.atoms)
    (hnodup : ((before ++ q :: after).flatMap (·.meant.atoms)).Nodup)
    (hbefore : ∀ p ∈ before, ∃ v, (f p).Met v) (hq : ∃ v, (g q).Met v)
    (hafter : ∀ p ∈ after, ∃ v, (h p).Met v) :
    ∃ v, (∀ p ∈ before, (f p).Met v) ∧ (g q).Met v ∧ ∀ p ∈ after, (h p).Met v := by
  obtain ⟨v, hv⟩ := Demand.together (before.map f ++ g q :: after.map h)
    (by simpa [List.flatMap_map, hf, hg, hh] using hnodup) (by
      intro d hd
      simp only [List.mem_append, List.mem_cons, List.mem_map] at hd
      obtain ⟨p, hp, rfl⟩ | rfl | ⟨p, hp, rfl⟩ := hd
      · exact hbefore p hp
      · exact hq
      · exact hafter p hp)
  refine ⟨v, fun p hp => hv _ ?_, hv _ (by simp), fun p hp => hv _ ?_⟩
  · exact List.mem_append_left _ (List.mem_map_of_mem hp)
  · exact List.mem_append_right _ (List.mem_cons_of_mem _ (List.mem_map_of_mem hp))

theorem atoms_node :
    (spliceAll op (parts.map (·.alternatives))).flatten.flatMap atoms =
      atoms (.logical op (parts.map (·.meant))) := by
  rw [flatten_spliceAll, atoms_logical, List.flatMap_map]
  induction parts with
  | nil => rfl
  | cons p parts ih =>
    rw [List.map_cons, List.flatten_cons, List.flatten_append, List.flatMap_append, ih,
      p.stands.atoms, List.flatMap_cons]

theorem mem_operands {x : Expr} :
    x ∈ (parts.map (·.alternatives)).flatten.flatten ↔ ∃ p ∈ parts, x ∈ p.alternatives.flatten := by
  induction parts with
  | nil => simp
  | cons p parts ih =>
    rw [List.map_cons, List.flatten_cons, List.flatten_append, List.mem_append, ih,
      List.exists_mem_cons_iff]

theorem exists_truth (hnodup : (parts.flatMap (·.meant.atoms)).Nodup) (b : Bool) :
    ∀ p ∈ parts, ∃ v, (Demand.truth b p.meant).Met v := by
  intro p hp
  exact p.stands.proper.exists_holds ((List.nodup_flatMap.mp hnodup).1 p hp) b

/-- Where one of the texts differs from what it is meant to be, the node differs too: the others
are made true in a conjunction and false in a disjunction. -/
theorem loose_of_part (hnodup : ((before ++ q :: after).flatMap (·.meant.atoms)).Nodup)
    (hq : q.tight = false) :
    ∃ v, someHolds v (spliceAll op ((before ++ q :: after).map (·.alternatives))) ∧
      holds v (.logical op ((before ++ q :: after).map (·.meant))) = false := by
  have htruth (b : Bool) := exists_truth hnodup b
  have hapart := q.stands.loose hq ((List.nodup_flatMap.mp hnodup).1 q (by simp))
  have others (b : Bool) :=
    together (f := fun p => .truth b p.meant) (g := apart) (h := fun p => .truth b p.meant)
      (fun _ => rfl) (fun _ => rfl) (fun _ => rfl) hnodup (fun p hp => htruth b p (by simp [hp]))
      hapart (fun p hp => htruth b p (by simp [hp]))
  cases op with
  | and =>
    obtain ⟨v, hbefore, ⟨hds, hmeant⟩, hafter⟩ := others true
    refine ⟨v, someHolds_spliceAll_and (by simp) ?_, ?_⟩
    · intro ds hds'
      obtain ⟨p, hp, rfl⟩ := List.mem_map.mp hds'
      simp only [List.mem_append, List.mem_cons] at hp
      obtain hp | rfl | hp := hp
      · exact p.stands.implied v (hbefore p hp)
      · exact hds
      · exact p.stands.implied v (hafter p hp)
    · rw [holds_and, List.all_eq_false]
      exact ⟨q.meant, by simp, by simp [hmeant]⟩
  | or =>
    obtain ⟨v, hbefore, ⟨hds, hmeant⟩, hafter⟩ := others false
    refine ⟨v, ?_, ?_⟩
    · rw [someHolds_spliceAll_or, List.any_eq_true]
      exact ⟨q.alternatives, by simp, hds⟩
    · rw [holds_or, List.any_eq_false]
      intro e he
      obtain ⟨p, hp, rfl⟩ := List.mem_map.mp he
      simp only [List.mem_append, List.mem_cons] at hp
      obtain hp | rfl | hp := hp
      · exact Bool.eq_false_iff.mp (hbefore p hp)
      · exact Bool.eq_false_iff.mp hmeant
      · exact Bool.eq_false_iff.mp (hafter p hp)

/-- A text with several alternatives in a conjunction with others: all up to it can hold and what
follows fail, or if nothing follows, it can hold and what comes before it fail. -/
theorem loose_of_alternatives (hnodup : ((before ++ q :: after).flatMap (·.meant.atoms)).Nodup)
    (hq : 2 ≤ q.alternatives.length) (hothers : before ≠ [] ∨ after ≠ []) :
    ∃ v, someHolds v (spliceAll .and ((before ++ q :: after).map (·.alternatives))) ∧
      holds v (.logical .and ((before ++ q :: after).map (·.meant))) = false := by
  have hfull (p : Part) (hp : p ∈ before ++ q :: after) : ∃ v, p.full.Met v :=
    p.stands.operands ((List.nodup_flatMap.mp hnodup).1 p hp)
  have htruth := exists_truth hnodup false
  have hne : ∀ ds ∈ before.map (·.alternatives), ds ≠ [] := by
    intro ds hds
    obtain ⟨p, _, rfl⟩ := List.mem_map.mp hds
    exact p.stands.nonempty
  by_cases hafter : after = []
  · subst hafter
    obtain ⟨p, hp⟩ := List.exists_mem_of_ne_nil before (by simpa using hothers)
    obtain ⟨v, hbefore, hv, -⟩ :=
      together (f := fun p => .truth false p.meant) (g := full) (h := full) (fun _ => rfl)
        (fun _ => rfl) (fun _ => rfl) hnodup (fun p hp => htruth p (by simp [hp]))
        (hfull q (by simp)) (by simp)
    refine ⟨v, ?_, ?_⟩
    · rw [List.map_append]
      exact someHolds_of_loose_last hne hq hv
    · rw [holds_and, List.all_eq_false]
      exact ⟨p.meant, by simpa using .inl ⟨p, hp, rfl⟩, Bool.eq_false_iff.mp (hbefore p hp)⟩
  · obtain ⟨p, hp⟩ := List.exists_mem_of_ne_nil after hafter
    obtain ⟨v, hbefore, hv, hfalse⟩ :=
      together (f := full) (g := full) (h := fun p => .truth false p.meant) (fun _ => rfl)
        (fun _ => rfl) (fun _ => rfl) hnodup (fun p hp => hfull p (by simp [hp]))
        (hfull q (by simp)) (fun p hp => htruth p (by simp [hp]))
    refine ⟨v, ?_, ?_⟩
    · rw [List.map_append, List.map_cons]
      refine someHolds_of_loose hne hq ?_ hv
      intro e he
      obtain ⟨p, hp, he⟩ := mem_operands.mp he
      exact hbefore p hp e he
    · rw [holds_and, List.all_eq_false]
      exact ⟨p.meant, by simpa using .inr (.inr ⟨p, hp, rfl⟩), Bool.eq_false_iff.mp (hfalse p hp)⟩

theorem holds_of_tight_and (hne : parts ≠ []) (htight : tightNode .and parts) {v : Expr → Bool}
    (hv : someHolds v (spliceAll .and (parts.map (·.alternatives)))) :
    ∀ p ∈ parts, holds v p.meant := by
  simp only [tightNode, Bool.and_eq_true, Bool.or_eq_true, decide_eq_true_eq, List.all_eq_true,
    beq_iff_eq] at htight
  obtain ⟨htight, hsingle | hsingle⟩ := htight
  · intro p hp
    match parts with
    | [q] =>
      obtain rfl := List.mem_singleton.mp hp
      exact p.stands.exact (htight p hp) v hv
  · have hlength : ∀ ds ∈ parts.map (·.alternatives), ds.length = 1 := by
      intro ds hds
      obtain ⟨p, hp, rfl⟩ := List.mem_map.mp hds
      exact hsingle p hp
    rw [spliceAll_and_eq (by simpa using hne) hlength] at hv
    have hall : ∀ e ∈ (parts.map (·.alternatives)).flatten.flatten, holds v e := by
      simpa only [someHolds, List.any_cons, List.any_nil, Bool.or_false, List.all_eq_true] using hv
    intro p hp
    refine p.stands.exact (htight p hp) v (someHolds_of_first ?_)
    exact firstHolds_of_operands p.stands.nonempty fun e he => hall e (mem_operands.mpr ⟨p, hp, he⟩)

theorem someHolds_of_node (hne : parts ≠ []) {v : Expr → Bool}
    (hv : holds v (.logical op (parts.map (·.meant)))) :
    someHolds v (spliceAll op (parts.map (·.alternatives))) := by
  cases op with
  | and =>
    simp only [holds_and, List.all_map, List.all_eq_true, Function.comp_apply] at hv
    refine someHolds_spliceAll_and (by simpa using hne) fun ds hds => ?_
    obtain ⟨p, hp, rfl⟩ := List.mem_map.mp hds
    exact p.stands.implied v (hv p hp)
  | or =>
    simp only [holds_or, List.any_map, List.any_eq_true, Function.comp_apply] at hv
    obtain ⟨p, hp, hv⟩ := hv
    rw [someHolds_spliceAll_or, List.any_eq_true]
    exact ⟨p.alternatives, List.mem_map_of_mem hp, p.stands.implied v hv⟩

theorem node_of_someHolds (hne : parts ≠ []) (htight : tightNode op parts) {v : Expr → Bool}
    (hv : someHolds v (spliceAll op (parts.map (·.alternatives)))) :
    holds v (.logical op (parts.map (·.meant))) := by
  cases op with
  | and => simpa using holds_of_tight_and hne htight hv
  | or =>
    simp only [tightNode, Bool.and_true, List.all_eq_true] at htight
    rw [someHolds_spliceAll_or, List.any_eq_true] at hv
    obtain ⟨ds, hds, hv⟩ := hv
    obtain ⟨p, hp, rfl⟩ := List.mem_map.mp hds
    rw [holds_or, List.any_eq_true]
    exact ⟨p.meant, List.mem_map_of_mem hp, p.stands.exact (htight p hp) v hv⟩

/-- A node that is not tight has a text that is not, or is a conjunction of several texts of which
one has several alternatives. -/
theorem loose_node (hloose : tightNode op parts = false)
    (hnodup : (parts.flatMap (·.meant.atoms)).Nodup) :
    ∃ v, someHolds v (spliceAll op (parts.map (·.alternatives))) ∧
      holds v (.logical op (parts.map (·.meant))) = false := by
  by_cases hall : parts.all (·.tight)
  · cases op with
    | or => simp [tightNode, hall] at hloose
    | and =>
      simp only [tightNode, hall, Bool.true_and, Bool.or_eq_false_iff, decide_eq_false_iff_not,
        List.all_eq_false, beq_iff_eq] at hloose
      obtain ⟨hlength, q, hq, halternatives⟩ := hloose
      have hpos := List.length_pos_iff.mpr q.stands.nonempty
      obtain ⟨before, after, rfl⟩ := List.append_of_mem hq
      refine loose_of_alternatives hnodup (by omega) ?_
      by_contra hnone
      simp only [not_or, not_not] at hnone
      simp [hnone] at hlength
  · obtain ⟨q, hq, hpart⟩ : ∃ q ∈ parts, q.tight = false := by simpa using hall
    obtain ⟨before, after, rfl⟩ := List.append_of_mem hq
    exact loose_of_part hnodup hpart

theorem exists_full (hnodup : (parts.flatMap (·.meant.atoms)).Nodup) :
    ∃ v, ∀ p ∈ parts, p.full.Met v := by
  obtain ⟨v, hv⟩ := Demand.together (parts.map full)
    (by rw [List.flatMap_map]; exact hnodup) (by
      intro d hd
      obtain ⟨p, hp, rfl⟩ := List.mem_map.mp hd
      exact p.stands.operands ((List.nodup_flatMap.mp hnodup).1 p hp))
  exact ⟨v, fun p hp => hv _ (List.mem_map_of_mem hp)⟩

/-- A node stands for its texts if each of them does for what it is meant to be. -/
theorem stands_node (op : Connective) (parts : List Part) (hne : parts ≠ []) :
    Stands (.logical op (parts.map (·.meant))) (spliceAll op (parts.map (·.alternatives)))
      (tightNode op parts) where
  proper := by
    refine .logical op (by simpa using hne) fun e he => ?_
    obtain ⟨p, _, rfl⟩ := List.mem_map.mp he
    exact p.stands.proper
  nonempty := by
    refine spliceAll_ne_nil op (by simpa using hne) fun ds hds => ?_
    obtain ⟨p, _, rfl⟩ := List.mem_map.mp hds
    exact p.stands.nonempty
  atoms := atoms_node
  implied _ hv := someHolds_of_node hne hv
  exact htight _ hv := node_of_someHolds hne htight hv
  loose hloose hnodup := by
    rw [atoms_logical, List.flatMap_map] at hnodup
    exact loose_node hloose hnodup
  operands hnodup := by
    rw [atoms_logical, List.flatMap_map] at hnodup
    obtain ⟨v, hv⟩ := exists_full hnodup
    refine ⟨v, fun x hx => ?_⟩
    rw [flatten_spliceAll] at hx
    obtain ⟨p, hp, hx⟩ := mem_operands.mp hx
    exact hv p hp x hx

end Node

end Part

end PathQuery.Expr
