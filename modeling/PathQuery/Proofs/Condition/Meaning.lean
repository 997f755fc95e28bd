import PathQuery.Condition
import PathQuery.Proofs.Expr.Truth
import PathQuery.Proofs.Steps

/-!
What conditions mean and what their text is read as. A condition is meant to be the combination of
the expressions of its leaves that are left. Its text can be read unless a leaf has a blank at its
edges that is no gap, and what it is read as follows from what is meant. Both have the same truth
if the condition is tight: every leaf of a conjunction with several members binds at least as tight
as `and`. A leaf is not put between parentheses of its own, so this is needed, too, if the atoms
are distinct.
-/

namespace PathQuery.Condition

/-! ### What is meant -/

/-- The combination of what is left, if something is. -/
def gathered (op : Connective) (es : List Expr) : Option Expr :=
  if es.isEmpty then none else some (.logical op es)

mutual

/-- The expression that a condition is meant to be: a leaf is its expression, if all its
placeholders have a present value, and a node combines its children that are left. -/
def meant (context : Context) : Condition → Option Expr
  | .leaf source => if isSupplied context source then (Expr.parse source).toOption else none
  | .and children => gathered .and (meantAll context children)
  | .or children => gathered .or (meantAll context children)

def meantAll (context : Context) : List Condition → List Expr
  | [] => []
  | c :: rest => (meant context c).toList ++ meantAll context rest

end

mutual

/-- The sources of the leaves that are left. -/
def leaves (context : Context) : Condition → List String
  | .leaf source => if isSupplied context source then [source] else []
  | .and children => leavesAll context children
  | .or children => leavesAll context children

def leavesAll (context : Context) : List Condition → List String
  | [] => []
  | c :: rest => leaves context c ++ leavesAll context rest

end

/-- Whether a condition may stand unchanged beside `and`. -/
def bindsTight (context : Context) : Condition → Bool
  | .leaf source => !isSupplied context source || Expr.bindsTight source
  | .and _ => true
  | .or _ => true

mutual

/-- Whether the leaves of every conjunction that keeps several children bind tight. -/
def tight (context : Context) : Condition → Bool
  | .leaf _ => true
  | .and children =>
    tightAll context children &&
      ((meantAll context children).length ≤ 1 || children.all (bindsTight context))
  | .or children => tightAll context children

def tightAll (context : Context) : List Condition → Bool
  | [] => true
  | c :: rest => tight context c && tightAll context rest

end

/-! ### What is left -/

/-- Nothing is left of the condition. -/
structure Gone (context : Context) (c : Condition) : Prop where
  render_eq : c.render context = ""
  meant_eq : c.meant context = none
  leaves_eq : c.leaves context = []
  tight_eq : c.tight context = true
  bindsTight_eq : c.bindsTight context = true

/-- A condition of which something is left, with what its text is read as. -/
structure Survivor (context : Context) where
  condition : Condition
  part : Expr.Part
  meant_eq : condition.meant context = some part.meant
  tight_eq : condition.tight context = part.tight
  bindsTight_eq : condition.bindsTight context = (part.alternatives.length == 1)
  nonempty : condition.render context ≠ ""
  leaf : condition.isLeaf → Expr.parse (condition.render context) =
    .ok (Expr.disjunction part.alternatives)
  brackets : condition.isLeaf = false →
    ∃ w, (condition.render context).toList = '(' :: w ++ [')']
  opens : Expr.Opens (condition.render context).toList
  reads : (∀ source ∈ condition.leaves context, Expr.plainEdges source) →
    Expr.ReadsAs (condition.render context).toList part.alternatives
  blocks : (¬ ∀ source ∈ condition.leaves context, Expr.plainEdges source) →
    Expr.Blocks (condition.render context).toList

/-- The children of which something is left. -/
structure Remain (context : Context) (children : List Condition) (left : List (Survivor context)) :
    Prop where
  survivors_eq : survivors context children =
    left.map fun s => (s.condition.isLeaf, s.condition.render context)
  meantAll_eq : meantAll context children = left.map (·.part.meant)
  leavesAll_eq : leavesAll context children = left.flatMap (·.condition.leaves context)
  tightAll_eq : tightAll context children = left.all (·.part.tight)
  bindsTight_eq : children.all (bindsTight context) =
    left.all (·.part.alternatives.length == 1)

variable {context : Context}

theorem survivor_leaf {source : String} {e : Expr} (hsupplied : isSupplied context source)
    (h : Expr.parse source = .ok e) : ∃ s : Survivor context, s.condition = .leaf source := by
  have hrender : (leaf source).render context = source := by simp [render, hsupplied]
  have hleaves : (leaf source).leaves context = [source] := by simp [leaves, hsupplied]
  obtain ⟨ds, ⟨f⟩, rfl⟩ := Expr.frame_of_parse h
  have hstands := Expr.stands_disjunction f.reads.ne_nil (Expr.parse_readable h).proper
  refine ⟨{
    condition := .leaf source
    part := ⟨Expr.disjunction ds, ds, true, hstands⟩
    meant_eq := by simp [meant, hsupplied, h, Except.toOption]
    tight_eq := by simp [tight]
    bindsTight_eq := ?_
    nonempty := ?_
    leaf := fun _ => by rw [hrender, h]
    brackets := nofun
    opens := by rw [hrender]; exact f.opens
    reads := ?_
    blocks := ?_ }, rfl⟩
  · rw [Bool.eq_iff_iff, beq_iff_eq]
    simpa [bindsTight, hsupplied] using f.bindsTight_iff
  · rw [hrender]
    intro hempty
    obtain ⟨c, rest, hopens, _⟩ := f.opens
    rw [hempty] at hopens
    cases hopens
  · rw [hrender, hleaves]
    intro hplain
    exact f.readsAs (hplain source (by simp))
  · rw [hrender, hleaves]
    intro hplain
    exact f.blocks (by simpa using hplain)

/-! ### Nodes -/

def node : Connective → List Condition → Condition
  | .and => .and
  | .or => .or

/-- What stands between the children of a node. -/
def separator : Connective → String
  | .and => " and "
  | .or => " or "

section Node

variable {op : Connective} {children : List Condition} {left : List (Survivor context)}

theorem separator_toList (op : Connective) : (separator op).toList = op.separator := by
  cases op <;> rfl

theorem render_node : (node op children).render context =
    combine (separator op) (survivors context children) := by
  cases op <;> simp [node, render, separator]

theorem meant_node :
    (node op children).meant context = gathered op (meantAll context children) := by
  cases op <;> simp [node, meant]

theorem leaves_node : (node op children).leaves context = leavesAll context children := by
  cases op <;> simp [node, leaves]

theorem bindsTight_node : (node op children).bindsTight context = true := by
  cases op <;> rfl

theorem isLeaf_node : (node op children).isLeaf = false := by
  cases op <;> rfl

theorem combine_parenthesized {word : String} {parts : List (Bool × String)} (hne : parts ≠ [])
    (h : ∀ s, parts ≠ [(false, s)]) :
    combine word parts = "(" ++ Text.join word (parts.map (·.2)) ++ ")" := by
  fun_cases combine word parts with
  | case1 => exact absurd rfl hne
  | case2 s => exact absurd rfl (h s)
  | case3 => rfl

theorem Remain.tight_node (h : Remain context children left) : (node op children).tight context =
    Expr.Part.tightNode op (left.map (·.part)) := by
  cases op with
  | and => simp [node, tight, Expr.Part.tightNode, h.tightAll_eq, h.meantAll_eq, h.bindsTight_eq,
      List.all_map, Function.comp_def]
  | or => simp [node, tight, Expr.Part.tightNode, h.tightAll_eq, List.all_map, Function.comp_def]

theorem Remain.gone_node (h : Remain context children []) : Gone context (node op children) where
  render_eq := by rw [render_node, h.survivors_eq]; rfl
  meant_eq := by rw [meant_node, h.meantAll_eq]; rfl
  leaves_eq := by rw [leaves_node, h.leavesAll_eq]; rfl
  tight_eq := by rw [h.tight_node]; cases op <;> rfl
  bindsTight_eq := bindsTight_node

theorem Remain.meant_node (h : Remain context children left) (hne : left ≠ []) :
    (node op children).meant context =
      some (.logical op ((left.map (·.part)).map (·.meant))) := by
  rw [Condition.meant_node, h.meantAll_eq, gathered, if_neg (by simpa using hne), List.map_map]
  rfl

/-- A node that keeps one node as its child is written like that one. -/
theorem Remain.render_single (op : Connective) {s : Survivor context}
    (h : Remain context children [s]) (hs : s.condition.isLeaf = false) :
    (node op children).render context = s.condition.render context := by
  rw [render_node, h.survivors_eq, List.map_singleton, hs]
  rfl

theorem Remain.survivor_single {s : Survivor context} (h : Remain context children [s])
    (hs : s.condition.isLeaf = false) :
    ∃ n : Survivor context, n.condition = node op children := by
  have hrender := h.render_single op hs
  have hleaves : (node op children).leaves context = s.condition.leaves context := by
    rw [leaves_node, h.leavesAll_eq, List.flatMap_singleton]
  have hsingle : s.part.alternatives.length = 1 := by
    have hbinds := s.bindsTight_eq
    cases hc : s.condition with
    | leaf source => simp [hc, isLeaf] at hs
    | and cs => simpa [hc, bindsTight] using hbinds.symm
    | or cs => simpa [hc, bindsTight] using hbinds.symm
  exact ⟨{
    condition := node op children
    part := ⟨_, s.part.alternatives, _, Expr.Part.stands_node op [s.part] (by simp)⟩
    meant_eq := h.meant_node (by simp)
    tight_eq := h.tight_node
    bindsTight_eq := by rw [bindsTight_node, hsingle]; rfl
    nonempty := by rw [hrender]; exact s.nonempty
    leaf := by rw [isLeaf_node]; exact nofun
    brackets := fun _ => by rw [hrender]; exact s.brackets hs
    opens := by rw [hrender]; exact s.opens
    reads := by rw [hrender, hleaves]; exact s.reads
    blocks := by rw [hrender, hleaves]; exact s.blocks }, rfl⟩

/-- The texts of what is left of the children, with the connective between them. -/
def joined (op : Connective) (left : List (Survivor context)) : List Char :=
  (Text.join (separator op) (left.map fun s => s.condition.render context)).toList

theorem Remain.render_parenthesized (op : Connective) (h : Remain context children left)
    (hne : left ≠ []) (hsingle : ∀ s, left = [s] → s.condition.isLeaf = true) :
    ((node op children).render context).toList = '(' :: joined op left ++ [')'] := by
  have hrender : (node op children).render context =
      "(" ++ Text.join (separator op) (left.map fun s => s.condition.render context) ++ ")" := by
    rw [render_node, h.survivors_eq, combine_parenthesized (by simpa using hne), List.map_map]
    · rfl
    · intro text htext
      obtain ⟨s, hs, heq⟩ := List.map_eq_singleton_iff.mp htext
      have hleaf := hsingle s hs
      rw [Prod.mk.injEq, hleaf] at heq
      cases heq.1
  rw [hrender, String.toList_append, String.toList_append]
  rfl

theorem Remain.plain_node (h : Remain context children left) :
    (∀ source ∈ (node op children).leaves context, Expr.plainEdges source) ↔
      ∀ s ∈ left, ∀ source ∈ s.condition.leaves context, Expr.plainEdges source := by
  rw [leaves_node, h.leavesAll_eq]
  simp only [List.mem_flatMap, forall_exists_index, and_imp]
  exact ⟨fun h s hs source => h source s hs, fun h source s hs => h s hs source⟩

theorem readsAs_joined (hne : left ≠ [])
    (hplain : ∀ s ∈ left, ∀ source ∈ s.condition.leaves context, Expr.plainEdges source) :
    Expr.ReadsAs ('(' :: joined op left ++ [')'])
      [[Expr.disjunction (Expr.spliceAll op ((left.map (·.part)).map (·.alternatives)))]] := by
  rw [List.map_map]
  exact (Expr.readsAs_join (separator_toList op) hne fun s hs =>
    s.reads (hplain s hs)).parenthesized

theorem blocks_joined (hne : left ≠ [])
    (hplain : ¬ ∀ s ∈ left, ∀ source ∈ s.condition.leaves context, Expr.plainEdges source) :
    Expr.Blocks ('(' :: joined op left ++ [')']) := by
  have hcases (s : Survivor context) (_ : s ∈ left) :
      Expr.ReadsAs (s.condition.render context).toList s.part.alternatives ∨
        Expr.Blocks (s.condition.render context).toList := by
    by_cases hs : ∀ source ∈ s.condition.leaves context, Expr.plainEdges source
    · exact .inl (s.reads hs)
    · exact .inr (s.blocks hs)
  have hsome : ∃ s ∈ left, Expr.Blocks (s.condition.render context).toList := by
    by_contra hnone
    refine hplain fun s hs => ?_
    by_contra hedges
    exact hnone ⟨s, hs, s.blocks hedges⟩
  exact (Expr.blocks_join (separator_toList op) hcases hsome).parenthesized
    (Expr.opens_join hne fun s _ => s.opens)

theorem Remain.survivor_parenthesized (h : Remain context children left) (hne : left ≠ [])
    (hsingle : ∀ s, left = [s] → s.condition.isLeaf = true) :
    ∃ n : Survivor context, n.condition = node op children := by
  have htext := Remain.render_parenthesized op h hne hsingle
  exact ⟨{
    condition := node op children
    part := ⟨_, _, _,
      (Expr.Part.stands_node op (left.map (·.part)) (by simpa using hne)).parenthesized⟩
    meant_eq := h.meant_node hne
    tight_eq := h.tight_node
    bindsTight_eq := bindsTight_node
    nonempty := by
      intro hempty
      rw [hempty] at htext
      cases htext
    leaf := by rw [isLeaf_node]; exact nofun
    brackets := fun _ => ⟨_, htext⟩
    opens := by rw [htext]; exact Expr.opens_parenthesized _
    reads := by rw [htext, h.plain_node]; exact readsAs_joined hne
    blocks := by rw [htext, h.plain_node]; exact blocks_joined hne }, rfl⟩

/-- A node is left if one of its children is. -/
theorem Remain.survivor_node (h : Remain context children left) (hne : left ≠ []) :
    ∃ n : Survivor context, n.condition = node op children := by
  by_cases hsingle : ∀ s, left = [s] → s.condition.isLeaf = true
  · exact h.survivor_parenthesized hne hsingle
  · obtain ⟨s, hs, hleaf⟩ : ∃ s, left = [s] ∧ s.condition.isLeaf = false := by
      simpa using hsingle
    subst hs
    exact h.survivor_single hleaf

end Node

/-! ### All conditions -/

section Children

variable {c : Condition} {children : List Condition} {left : List (Survivor context)}

theorem Remain.cons_gone (hc : Gone context c) (h : Remain context children left) :
    Remain context (c :: children) left where
  survivors_eq := by simp [survivors, hc.render_eq, h.survivors_eq]
  meantAll_eq := by simp [meantAll, hc.meant_eq, h.meantAll_eq]
  leavesAll_eq := by simp [leavesAll, hc.leaves_eq, h.leavesAll_eq]
  tightAll_eq := by simp [tightAll, hc.tight_eq, h.tightAll_eq]
  bindsTight_eq := by simp [hc.bindsTight_eq, h.bindsTight_eq]

theorem Remain.cons_survivor (s : Survivor context) (h : Remain context children left) :
    Remain context (s.condition :: children) (s :: left) where
  survivors_eq := by simp [survivors, s.nonempty, h.survivors_eq]
  meantAll_eq := by simp [meantAll, s.meant_eq, h.meantAll_eq]
  leavesAll_eq := by simp [leavesAll, h.leavesAll_eq]
  tightAll_eq := by simp [tightAll, s.tight_eq, h.tightAll_eq]
  bindsTight_eq := by simp [s.bindsTight_eq, h.bindsTight_eq]

theorem Remain.gone_or_survivor (op : Connective) (h : ∃ left, Remain context children left) :
    Gone context (node op children) ∨ ∃ s : Survivor context, s.condition = node op children := by
  obtain ⟨left, hleft⟩ := h
  by_cases hne : left = []
  · subst hne
    exact .inl hleft.gone_node
  · exact .inr (hleft.survivor_node hne)

end Children

mutual

theorem gone_or_survivor (c : Condition)
    (h : ∀ source ∈ c.leaves context, ∃ e, Expr.parse source = .ok e) :
    Gone context c ∨ ∃ s : Survivor context, s.condition = c := by
  match c with
  | .leaf source =>
    by_cases hsupplied : isSupplied context source
    · obtain ⟨e, he⟩ := h source (by simp [leaves, hsupplied])
      exact .inr (survivor_leaf hsupplied he)
    · refine .inl ⟨?_, ?_, ?_, ?_, ?_⟩ <;>
        simp [render, meant, leaves, tight, bindsTight, hsupplied]
  | .and children =>
    exact Remain.gone_or_survivor .and (remain children (by simpa [leaves] using h))
  | .or children => exact Remain.gone_or_survivor .or (remain children (by simpa [leaves] using h))

theorem remain (children : List Condition)
    (h : ∀ source ∈ leavesAll context children, ∃ e, Expr.parse source = .ok e) :
    ∃ left, Remain context children left := by
  match children with
  | [] => exact ⟨[], ⟨rfl, rfl, rfl, rfl, rfl⟩⟩
  | c :: rest =>
    simp only [leavesAll, List.mem_append] at h
    obtain ⟨left, hleft⟩ := remain rest fun source hsource => h source (.inr hsource)
    obtain hgone | ⟨s, rfl⟩ := gone_or_survivor c fun source hsource => h source (.inl hsource)
    · exact ⟨left, hleft.cons_gone hgone⟩
    · exact ⟨s :: left, hleft.cons_survivor s⟩

end

/-! ### The meaning of the text -/

namespace Survivor

variable (s : Survivor context)

/-- The text of a leaf can be read, and that of a node if all leaves have plain edges. -/
theorem parse_iff (e : Expr) : Expr.parse (s.condition.render context) = .ok e ↔
    (s.condition.isLeaf ∨ ∀ source ∈ s.condition.leaves context, Expr.plainEdges source) ∧
      e = Expr.disjunction s.part.alternatives := by
  have hok {text : String} {e' : Expr} (h : Expr.parse text = .ok e') :
      Expr.parse text = .ok e ↔ e = e' := by
    rw [h, Except.ok.injEq]
    exact eq_comm
  by_cases hleaf : s.condition.isLeaf
  · exact (hok (s.leaf hleaf)).trans ⟨fun h => ⟨.inl hleaf, h⟩, And.right⟩
  · obtain ⟨w, hw⟩ := s.brackets (by simpa using hleaf)
    by_cases hplain : ∀ source ∈ s.condition.leaves context, Expr.plainEdges source
    · have hparse := Expr.parse_of_readsAs hw (s.reads hplain)
      exact (hok hparse).trans ⟨fun h => ⟨.inr hplain, h⟩, And.right⟩
    · constructor
      · intro h
        exact absurd h (Expr.parse_ne_of_blocks hw (s.blocks hplain) e)
      · intro h
        exact absurd h.1 (not_or.mpr ⟨hleaf, hplain⟩)

end Survivor

/-- The text of a condition and its meaning, where every leaf that is left can be read. The text can
be read if the condition is a leaf or all its leaves have plain edges. What it is read as has the
atoms of what is meant and follows from it. Both have the same truth if the condition is tight, and
only then if the atoms are distinct. -/
theorem parse_render_meant (context : Context) (c : Condition)
    (haccepted : ∀ source ∈ c.leaves context, ∃ e, Expr.parse source = .ok e)
    (hleft : c.render context ≠ "") :
    ∃ t, c.meant context = some t ∧
      ((∃ e, Expr.parse (c.render context) = .ok e) ↔
        c.isLeaf ∨ ∀ source ∈ c.leaves context, Expr.plainEdges source) ∧
      ∀ e, Expr.parse (c.render context) = .ok e →
        e.atoms = t.atoms ∧ (∀ v, Expr.holds v t → Expr.holds v e) ∧
          (c.tight context → ∀ v, Expr.holds v e = Expr.holds v t) ∧
          (t.atoms.Nodup → (∀ v, Expr.holds v e = Expr.holds v t) → c.tight context) := by
  obtain hgone | ⟨s, rfl⟩ := gone_or_survivor c haccepted
  · exact absurd hgone.render_eq hleft
  have hstands := s.part.stands
  refine ⟨s.part.meant, s.meant_eq, ?_, ?_⟩
  · simp only [s.parse_iff, exists_and_left, exists_eq, and_true]
  · intro e he
    obtain ⟨-, rfl⟩ := (s.parse_iff e).mp he
    refine ⟨?_, ?_, ?_, ?_⟩
    · rw [Expr.atoms_disjunction, hstands.atoms]
    · intro v hv
      rw [Expr.holds_disjunction]
      exact hstands.implied v hv
    · intro htight v
      rw [s.tight_eq] at htight
      rw [Expr.holds_disjunction, Bool.eq_iff_iff]
      exact ⟨hstands.exact htight v, hstands.implied v⟩
    · intro hnodup hsame
      rw [s.tight_eq]
      by_contra hloose
      obtain ⟨v, hds, hmeant⟩ := hstands.loose (by simpa using hloose) hnodup
      rw [← hsame v, Expr.holds_disjunction, hds] at hmeant
      cases hmeant

/-- Three filters of a query, of which the second is left out for want of a value. -/
def looseFilters : Condition :=
  ((leaf "id == 1 or id == 2").both (leaf "name == \x7bname\x7d")).both (leaf "pages > 100")

/-- The number that an atom compares with. -/
def looseKey : Expr → String
  | .compare _ _ (.number text) => text
  | _ => ""

/-- With the first filter true and the third one false, the query accepts what it should not. -/
theorem parse_render_meant_looseFilters :
    looseFilters.render {} = "(id == 1 or id == 2 and pages > 100)" ∧
      ∃ e t v, Expr.parse (looseFilters.render {}) = .ok e ∧ looseFilters.meant {} = some t ∧
        Expr.holds v e = true ∧ Expr.holds v t = false := by
  have hrender : looseFilters.render {} = "(id == 1 or id == 2 and pages > 100)" := by
    decide +kernel
  have hread : (looseFilters.leaves {}).all fun source => (Expr.parse source).toOption.isSome := by
    decide +kernel
  have hplain : (looseFilters.leaves {}).all Expr.plainEdges := by
    decide +kernel
  have hkeys : (looseFilters.meant {}).map (fun t => t.atoms.map looseKey) =
      some ["1", "2", "100"] := by
    decide +kernel
  have hloose : looseFilters.tight {} = false := by
    decide +kernel
  refine ⟨hrender, ?_⟩
  have haccepted : ∀ source ∈ looseFilters.leaves {}, ∃ e, Expr.parse source = .ok e := by
    intro source hsource
    obtain ⟨e, he⟩ := Option.isSome_iff_exists.mp (List.all_eq_true.mp hread source hsource)
    exact ⟨e, Steps.toOption_eq_some_iff.mp he⟩
  obtain ⟨t, ht, hparse, hmeaning⟩ :=
    parse_render_meant {} looseFilters haccepted (by rw [hrender]; decide)
  obtain ⟨e, he⟩ := hparse.mpr (.inr (List.all_eq_true.mp hplain))
  obtain ⟨-, himplied, -, htight⟩ := hmeaning e he
  have hnodup : t.atoms.Nodup := by
    rw [ht, Option.map_some, Option.some.injEq] at hkeys
    exact .of_map looseKey (by rw [hkeys]; decide)
  obtain ⟨v, hv⟩ : ∃ v, Expr.holds v e ≠ Expr.holds v t := by
    by_contra hsame
    have htrue := htight hnodup (by simpa using hsame)
    rw [hloose] at htrue
    cases htrue
  refine ⟨e, t, v, he, ht, ?_⟩
  cases hmeant : Expr.holds v t with
  | true => exact absurd ((himplied v hmeant).trans hmeant.symm) hv
  | false => exact ⟨by simpa [hmeant] using hv, rfl⟩

end PathQuery.Condition
