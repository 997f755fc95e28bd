import PathQuery.Proofs.Compile.Cases
import PathQuery.Proofs.Join.Growth

/-!
What is gathered while one SELECT is compiled, step by step. A step resolves a path, puts a
sub-query or a registered source in place, or notes an aggregate; compiling any part of a statement
is a run of such steps. What a step keeps is therefore kept by the whole compilation.
-/

namespace PathQuery.Compile

variable {f : Frame} {g g' g'' : Gathered}

/-- The sub-queries that a SELECT with the relations `rs` can have: their scopes, their statements
and the contexts of their own. -/
inductive Subquery (f : Frame) (rs : List Relation) : Scope → Statement → Option Context → Prop
  | correlated {name : String} {m : Model} {s : Statement}
      (hm : Join.resolveModel f.scope name = .ok m) :
      Subquery f rs (f.scope.below rs m (some ⟨f.scope.model, f.scope.master.reference⟩) {}
        f.scope.trail) s none
  | named {name : String} {d : Definition} {m : Model}
      (hd : f.registry.get? name = some (.query d))
      (hm : Join.resolveModel f.scope d.model = .ok m) :
      Subquery f rs (f.scope.below rs m none d.joinTypes (name :: f.scope.trail))
        (d.statement d.context) (some d.context)

inductive Step (f : Frame) : Gathered → Gathered → Prop
  | path {g : Gathered} {head : String} {rest : List String} {t : PathTarget}
      {rs : List Relation}
      (h : Join.resolvePath f.scope head rest g.relations = .ok (t, rs)) :
      Step f g { g with relations := rs, fieldReads := g.fieldReads + 1 }
  | nested {g : Gathered} {scope : Scope} {s : Statement} {own : Option Context} {t : Template}
      {sql : String} {carried : List Value} (hs : Subquery f g.relations scope s own)
      (ht : f.nested scope s = .ok t)
      (hm : Splice.move t.sql t.carried own g.carried = .ok (sql, carried)) :
      Step f g { g with carried, nested := g.nested ++ t.select :: t.nested }
  | values {g : Gathered} {name : String} {items : List Value}
      (h : f.registry.get? name = some (.values items)) :
      Step f g { g with carried := g.carried ++ [.list items] }
  | text {g : Gathered} {name text sql : String} {context : Context} {carried : List Value}
      (h : f.registry.get? name = some (.sql text context))
      (hm : Splice.move text [] (some context) g.carried = .ok (sql, carried)) :
      Step f g { g with carried }
  | call {g : Gathered} (aggregate : Bool) :
      Step f g { g with aggregated := g.aggregated || aggregate }

inductive Run (f : Frame) : Gathered → Gathered → Prop
  | refl (g : Gathered) : Run f g g
  | step {g mid g' : Gathered} (h : Step f g mid) (h' : Run f mid g') : Run f g g'

theorem Run.trans (h : Run f g g') (h' : Run f g' g'') : Run f g g'' := by
  induction h with
  | refl => exact h'
  | step hstep _ ih => exact .step hstep (ih h')

theorem Run.single (h : Step f g g') : Run f g g' :=
  .step h (.refl g')

/-- What every step keeps, a run keeps. -/
theorem Run.invariant {I : Gathered → Prop} (hstep : ∀ g g', Step f g g' → I g → I g')
    (h : Run f g g') (hg : I g) : I g' := by
  induction h with
  | refl => exact hg
  | step hs _ ih => exact ih (hstep _ _ hs hg)

theorem path_run {head sql : String} {rest : List String}
    (h : path f head rest g = .ok (sql, g')) : Run f g g' := by
  obtain ⟨_, _, hpath, -, rfl⟩ := path_ok_iff.mp h
  exact .single (.path hpath)

theorem subqueryCall_run {args : List Expr} {sql : String}
    (h : subqueryCall f args g = .ok (sql, g')) : Run f g g' := by
  obtain ⟨_, _, _, -, h⟩ := subqueryCall_ok h
  obtain ⟨_, _, _, _, hm, ht, hmove, -, rfl⟩ := subquery_ok h
  exact .single (.nested (.correlated hm) ht hmove)

theorem named_run {name sql : String} (h : named f name g = .ok (sql, g')) : Run f g g' := by
  obtain ⟨d, hd, h⟩ | ⟨items, hd, -, rfl⟩ | ⟨text, context, hd, h⟩ := named_cases h
  · obtain ⟨_, _, _, _, hm, ht, hmove, -, rfl⟩ := subquery_ok h
    exact .single (.nested (.named hd hm) ht hmove)
  · exact .single (.values hd)
  · obtain ⟨_, _, hmove, -, rfl⟩ := splice_ok_iff.mp h
    exact .single (.text hd hmove)

theorem string_run {text sql : String} (h : string f text g = .ok (sql, g')) : Run f g g' := by
  obtain ⟨name, -, h⟩ | ⟨-, ⟨-, rfl⟩ | ⟨-, -, -, rfl⟩⟩ := string_cases h
  · exact named_run h
  · exact .refl g'
  · exact .refl g'

theorem run_cases (f : Frame) : Cases f (fun _ => True) (fun _ g _ g' => Run f g g')
    (fun _ g _ g' => Run f g g') where
  operand _ _ := trivial
  path := path_run
  number g _ := .refl g
  str _ := string_run
  bool _ := .refl
  null := .refl
  placeholder g _ := .refl g
  star := .refl
  subquery _ _ := subqueryCall_run
  call _ _ _ hargs h := hargs.trans (by rw [call_state h]; exact .single (.call _))
  binary _ hl hr := hl.trans hr
  short _ _ hl := hl
  compare _ hl hr := hl.trans hr
  logical h := h
  unary h := h
  tuple h := h
  list h := h
  nil := .refl
  cons _ h hrest := h.trans hrest

/-- Compiling an expression is a run. -/
theorem expr_run (e : Expr) {sql : String} (h : expr f e g = .ok (sql, g')) : Run f g g' :=
  (run_cases f).expr e trivial h

/-- Every level of a compilation is one SELECT whose sub-queries are those of the level below, if
there is one. -/
theorem templateWithin_induction {registry : Registry} {P : Scope → Statement → Template → Prop}
    (hselect : ∀ nested : Nested, (∀ scope s t, nested scope s = .ok t → P scope s t) →
      ∀ scope s t, select registry nested scope s = .ok t → P scope s t)
    (n : Nat) {scope : Scope} {s : Statement} {t : Template}
    (h : templateWithin registry n scope s = .ok t) : P scope s t := by
  induction n generalizing scope s t with
  | zero =>
    rw [templateWithin] at h
    refine hselect _ ?_ scope s t h
    intro _ _ _ hnone
    cases hnone
  | succ n ih =>
    rw [templateWithin] at h
    exact hselect _ (fun _ _ _ h => ih h) scope s t h

end PathQuery.Compile
