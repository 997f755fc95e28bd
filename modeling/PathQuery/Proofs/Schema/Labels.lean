import PathQuery.Proofs.Lists
import PathQuery.Schema

/-!
Labels in a schema. The models of a schema that was built have different labels, so a label finds
the one model that has it, and a model that was resolved is found again by its label.
-/

namespace PathQuery.Schema

variable {models placed built : List Model} {m : Model} {s : Schema}

/-- No two models have one label. -/
def Distinct (s : Schema) : Prop :=
  (s.models.map Model.label).Nodup

theorem place_perm (m : Model) (ms : List Model) : (place m ms).Perm (m :: ms) := by
  induction ms with
  | nil => exact List.Perm.refl _
  | cons n rest ih =>
    simp only [place]
    split
    · exact List.Perm.refl _
    · exact (ih.cons n).trans (List.Perm.swap m n rest)

theorem arrange_nodup (hp : (placed.map Model.label).Nodup)
    (h : arrange placed models = .ok built) : (built.map Model.label).Nodup := by
  induction models generalizing placed with
  | nil =>
    cases h
    exact hp
  | cons m rest ih =>
    simp only [arrange] at h
    split at h
    · cases h
    · next hany =>
      refine ih ?_ h
      have hnew : m.label ∉ placed.map Model.label := by
        intro hmem
        obtain ⟨n, hn, he⟩ := List.mem_map.mp hmem
        exact hany (List.any_eq_true.mpr ⟨n, hn, by simp [he]⟩)
      exact ((place_perm m placed).map Model.label).nodup_iff.mpr (List.nodup_cons.mpr ⟨hnew, hp⟩)

theorem completeModel_label {n : Model} (h : completeModel models m = .ok n) :
    n.label = m.label := by
  simp only [completeModel, bind, Except.bind] at h
  split at h
  · cases h
  · cases h
    rfl

theorem complete_labels {ms : List Model}
    (h : models.mapM (completeModel ms) = .ok built) :
    built.map Model.label = models.map Model.label := by
  induction models generalizing built with
  | nil =>
    cases h
    rfl
  | cons m rest ih =>
    simp only [List.mapM_cons, bind, Except.bind] at h
    split at h
    · cases h
    · next n hn =>
      split at h
      · cases h
      · next ns hns =>
        cases h
        simp only [List.map_cons, completeModel_label hn, ih hns]

theorem addField_labels {label : String} {f : Field}
    (h : addField label f models = .ok built) : built.map Model.label = models.map Model.label := by
  induction models generalizing built with
  | nil =>
    cases h
    rfl
  | cons m rest ih =>
    simp only [addField] at h
    split at h
    · split at h
      · cases h
      · cases h
        rfl
    · split at h
      · next ms hms =>
        cases h
        simp only [List.map_cons, ih hms]
      · cases h

theorem addFields_labels {sides : List (String × Field)}
    (h : addFields sides models = .ok built) : built.map Model.label = models.map Model.label := by
  induction sides generalizing models with
  | nil =>
    cases h
    rfl
  | cons side rest ih =>
    obtain ⟨label, f⟩ := side
    simp only [addFields] at h
    split at h
    · next ms hms => rw [ih h, addField_labels hms]
    · cases h

theorem build_distinct (h : build models = .ok s) : s.Distinct := by
  simp only [build, bind, Except.bind] at h
  split at h
  · cases h
  · next arranged harranged =>
    split at h
    · cases h
    · next completed hcompleted =>
      split at h
      · cases h
      · next added hadded =>
        cases h
        have hlabels : added.map Model.label = arranged.map Model.label := by
          rw [addFields_labels hadded, complete_labels hcompleted]
        simp only [Distinct, hlabels]
        exact arrange_nodup (by simp) harranged

theorem get?_label {label : String} (h : s.get? label = some m) : m.label = label := by
  simpa using List.find?_some h

theorem Distinct.get?_eq (hs : s.Distinct) (hm : m ∈ s.models) : s.get? m.label = some m :=
  Lists.find?_of_nodup hs hm

theorem resolveModel_mem {name : String} {w : Option Whitelist}
    (h : s.resolveModel name w = .ok m) : m ∈ s.models ∧ Whitelist.admits w m := by
  simp only [resolveModel] at h
  split at h
  · next n hfound =>
    split at h
    · next hadmits =>
      cases h
      refine ⟨?_, hadmits⟩
      split at hfound
      · exact List.mem_of_find?_eq_some hfound
      · exact List.mem_of_find?_eq_some hfound
    · cases h
  · cases h

end PathQuery.Schema
