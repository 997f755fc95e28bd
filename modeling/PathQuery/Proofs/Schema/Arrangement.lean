import PathQuery.Proofs.Schema.Lookup

/-!
The order in which models are given. They are put in the order of their labels first, so a schema
depends on which models there are and not on how they are listed; only which repeated label is
refused can.
-/

namespace PathQuery.Schema

variable {models others : List Model}

theorem any_label_iff {placed : List Model} {label : String} :
    placed.any (·.label == label) ↔ label ∈ placed.map Model.label := by
  simp only [List.any_eq_true, beq_iff_eq, List.mem_map]

theorem labels_place (m : Model) (placed rest : List Model) :
    ((place m placed ++ rest).map Model.label).Perm ((placed ++ m :: rest).map Model.label) :=
  (((place_perm m placed).append_right rest).trans List.perm_middle.symm).map Model.label

/-- Models are arranged if no label is repeated. -/
theorem exists_arrange (placed : List Model)
    (h : ((placed ++ models).map Model.label).Nodup) :
    ∃ built, arrange placed models = .ok built := by
  induction models generalizing placed with
  | nil => exact ⟨placed, rfl⟩
  | cons m rest ih =>
    have hnew : ¬ placed.any (·.label == m.label) := by
      rw [any_label_iff]
      rw [List.map_append, List.nodup_append] at h
      exact fun hm => h.2.2 _ hm _ List.mem_cons_self rfl
    rw [arrange, if_neg hnew]
    exact ih _ ((labels_place m placed rest).nodup_iff.mpr h)

/-- Otherwise a label that is repeated is refused. -/
theorem arrange_repeated (placed : List Model) (hplaced : (placed.map Model.label).Nodup)
    (h : ¬ ((placed ++ models).map Model.label).Nodup) :
    ∃ label, 1 < ((placed ++ models).map Model.label).count label ∧
      arrange placed models = .error (.duplicateModel label) := by
  induction models generalizing placed with
  | nil =>
    rw [List.append_nil] at h
    exact absurd hplaced h
  | cons m rest ih =>
    by_cases hold : placed.any (·.label == m.label)
    · refine ⟨m.label, ?_, by rw [arrange, if_pos hold]⟩
      have hcount := List.count_pos_iff.mpr (any_label_iff.mp hold)
      simp only [List.map_append, List.map_cons, List.count_append, List.count_cons_self]
      omega
    · have hlabels := labels_place m placed rest
      have hnext : ((place m placed).map Model.label).Nodup := by
        rw [((place_perm m placed).map Model.label).nodup_iff]
        exact List.nodup_cons.mpr ⟨mt any_label_iff.mpr hold, hplaced⟩
      obtain ⟨label, hcount, harrange⟩ := ih _ hnext (mt hlabels.nodup_iff.mp h)
      rw [hlabels.count_eq] at hcount
      exact ⟨label, hcount, by rw [arrange, if_neg hold, harrange]⟩

theorem Sorted.eq_of_perm (h : Sorted models) (h' : Sorted others) (hperm : models.Perm others) :
    models = others :=
  hperm.eq_of_pairwise (fun _ _ _ _ hlt hgt => absurd hgt hlt.asymm) h h'

/-- The arranged models do not tell in which order they were given. -/
theorem arrange_eq_of_perm (hperm : models.Perm others) (h : (models.map Model.label).Nodup) :
    arrange [] others = arrange [] models := by
  obtain ⟨built, hbuilt⟩ := exists_arrange [] h
  obtain ⟨built', hbuilt'⟩ :=
    exists_arrange [] ((hperm.map Model.label).nodup_iff.mp h)
  have hsame : built.Perm built' :=
    (arrange_perm hbuilt).trans (hperm.trans (arrange_perm hbuilt').symm)
  rw [hbuilt, hbuilt', (arrange_sorted .nil hbuilt).eq_of_perm (arrange_sorted .nil hbuilt') hsame]

/-- Models with pairwise different labels are built to the same result in every order: the same
error, or the same schema, which has the labels of the models in their order. If labels are
repeated, one of them is refused in every order. -/
theorem build_perm (hperm : models.Perm others) :
    ((models.map Model.label).Nodup → build others = build models ∧
      ∀ s, build models = .ok s → Sorted s.models ∧
        (s.models.map Model.label).Perm (models.map Model.label)) ∧
    (¬ (models.map Model.label).Nodup →
      ∃ label, 1 < (models.map Model.label).count label ∧
        build others = .error (.duplicateModel label)) := by
  have hlabels := hperm.map Model.label
  constructor
  · intro hnodup
    refine ⟨by rw [build, build, arrange_eq_of_perm hperm hnodup], ?_⟩
    intro s hs
    obtain ⟨arranged, harranged, -, hsame⟩ := build_labels hs
    rw [hsame]
    exact ⟨build_sorted hs, harranged.map Model.label⟩
  · intro hrepeated
    obtain ⟨label, hcount, harrange⟩ := arrange_repeated [] (by simp)
      (mt hlabels.nodup_iff.mpr hrepeated)
    rw [List.nil_append, ← hlabels.count_eq] at hcount
    exact ⟨label, hcount, by rw [build, harrange]; rfl⟩

/-- Ships and buoys link to a port: a target without a namespace is the port of the least label, and
each link leaves an accessor there. -/
def harbour : List Model := [
  ⟨"sea", "Ship", "sea_ship", [.key "id", .foreignKey "home" "Port",
    (Field.foreignKey "berth" "coast.Port").withRelatedName "berthed"]⟩,
  ⟨"river", "Port", "river_port", [.key "id"]⟩,
  ⟨"coast", "Port", "coast_port", [.key "id"]⟩,
  ⟨"coast", "Buoy", "coast_buoy", [.key "id", .foreignKey "port" "Port"]⟩]

/-- Buoys of another namespace, whose accessor at the port has the same name. -/
def crowdedHarbour : List Model :=
  ⟨"lake", "Buoy", "lake_buoy", [.key "id", .foreignKey "port" "coast.Port"]⟩ :: harbour

theorem build_perm_harbour :
    (∃ s, build harbour.reverse = .ok s ∧
      s.models.map Model.label = ["coast.Buoy", "coast.Port", "river.Port", "sea.Ship"] ∧
      ∃ port, s.get? "coast.Port" = some port ∧
        port.fields.map (·.name) = ["id", "buoy", "ship", "berthed"]) ∧
    build crowdedHarbour.reverse = .error (.accessorClash "buoy" "coast.Port") ∧
    ∃ label, build (harbour ++ harbour).reverse = .error (.duplicateModel label) := by
  have hperm (models : List Model) := (List.reverse_perm models).symm
  refine ⟨?_, ?_, ?_⟩
  · have h : ((build harbour).toOption.map fun s =>
        decide (s.models.map Model.label = ["coast.Buoy", "coast.Port", "river.Port", "sea.Ship"] ∧
          (s.get? "coast.Port").map (fun m => m.fields.map (·.name)) =
            some ["id", "buoy", "ship", "berthed"])) = some true := by
      decide +kernel
    simp only [Option.map_eq_some_iff, Steps.toOption_eq_some_iff, decide_eq_true_eq] at h
    obtain ⟨s, hs, h⟩ := h
    exact ⟨s, (((build_perm (hperm harbour)).1 (by decide)).1).trans hs, h⟩
  · have h : (build crowdedHarbour).map (fun _ => ()) =
        .error (.accessorClash "buoy" "coast.Port") := by
      decide +kernel
    rw [((build_perm (hperm crowdedHarbour)).1 (by decide)).1]
    cases hbuild : build crowdedHarbour with
    | ok s =>
      rw [hbuild] at h
      cases h
    | error e =>
      rw [hbuild] at h
      cases h
      rfl
  · obtain ⟨label, -, h⟩ := (build_perm (hperm (harbour ++ harbour))).2 (by decide)
    exact ⟨label, h⟩

end PathQuery.Schema
