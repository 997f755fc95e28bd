import Mathlib.Data.Set.Finite.Lemmas
import PathQuery.Proofs.Schema.OtherSides

/-!
Looking a model up by its name. A name without a point finds the model with the least label among
all models of the name, and the whitelist is asked afterwards. The listing of a schema asks the
whitelist first. So the two agree exactly if the model that the listing puts first has the least
label of all, hidden models included.
-/

namespace PathQuery.Schema

variable {models : List Model} {key : Model → String} {m n : Model} {s : Schema} {w : Whitelist}
  {name : String}

/-- Among the models, one of the name whose `key` is the least. -/
structure IsFirst (key : Model → String) (models : List Model) (name : String) (m : Model) :
    Prop where
  mem : m ∈ models
  name_eq : m.name = name
  least : ∀ n ∈ models, n.name = name → key m ≤ key n

/-- The lookup of a name is one among the visible models: it finds a model if any visible one has
the name, that of the least namespace, and it finds the same with the hidden ones taken out. -/
structure LooksUpVisible (s : Schema) (w : Whitelist) (name : String) : Prop where
  found_iff : (∃ m, s.resolveModel name (some w) = .ok m) ↔
    ∃ m ∈ s.visible (some w), m.name = name
  least : ∀ m, s.resolveModel name (some w) = .ok m →
    IsFirst Model.ns (s.visible (some w)) name m
  unhidden : s.resolveModel name (some w) =
    Schema.resolveModel ⟨s.visible (some w)⟩ name (some w)

/-- If any model of the name is visible, then a visible one comes before every hidden one. -/
def HiddenLater (s : Schema) (w : Whitelist) (name : String) : Prop :=
  (∃ n ∈ s.visible (some w), n.name = name) →
    ∀ m ∈ s.models, m.name = name → w.allows m = false →
      ∃ n ∈ s.visible (some w), n.name = name ∧ n.ns < m.ns

instance (s : Schema) (w : Whitelist) (name : String) : Decidable (s.HiddenLater w name) :=
  inferInstanceAs (Decidable ((∃ n ∈ s.visible (some w), n.name = name) →
    ∀ m ∈ s.models, m.name = name → w.allows m = false →
      ∃ n ∈ s.visible (some w), n.name = name ∧ n.ns < m.ns))

theorem exists_isFirst (key : Model → String) (hm : m ∈ models) (hname : m.name = name) :
    ∃ n, IsFirst key models name n := by
  have hfinite : {n | n ∈ models ∧ n.name = name}.Finite :=
    models.finite_toSet.subset fun _ h => h.1
  obtain ⟨n, ⟨hn, hname⟩, hleast⟩ := Set.exists_min_image _ key hfinite ⟨m, hm, hname⟩
  exact ⟨n, hn, hname, fun x hx hxname => hleast x ⟨hx, hxname⟩⟩

theorem IsFirst.key_eq (hm : IsFirst key models name m) (hn : IsFirst key models name n) :
    key m = key n :=
  le_antisymm (hm.least n hn.mem hn.name_eq) (hn.least m hm.mem hm.name_eq)

theorem IsFirst.subset {few : List Model} (hm : IsFirst key models name m) (hfew : few ⊆ models)
    (hmem : m ∈ few) : IsFirst key few name m :=
  ⟨hmem, hm.name_eq, fun n hn => hm.least n (hfew hn)⟩

/-! ### Models in the order of their labels -/

/-- A schema has the labels of the models that it is built from, in their order. -/
theorem build_labels (h : build models = .ok s) :
    ∃ arranged, arranged.Perm models ∧ Sorted arranged ∧
      s.models.map Model.label = arranged.map Model.label := by
  obtain ⟨arranged, completed, hperm, hsorted, hcompleted, hgains⟩ := build_ok h
  have hlabels : List.Forall₂ (fun a b => a.label = b.label) arranged s.models :=
    Lists.forall₂_comp (fun _ _ _ hc hb => (hb.label_eq.trans (completeModel_label hc)).symm)
      hcompleted hgains
  refine ⟨arranged, hperm, hsorted, Eq.symm ?_⟩
  rw [← List.forall₂_eq_eq_eq, List.forall₂_map_left_iff, List.forall₂_map_right_iff]
  exact hlabels

theorem build_sorted (h : build models = .ok s) : Sorted s.models := by
  obtain ⟨arranged, -, hsorted, hlabels⟩ := build_labels h
  rw [Sorted, ← List.pairwise_map, hlabels]
  exact List.pairwise_map.mpr hsorted

theorem Sorted.eq_of_label (hs : Sorted models) (hm : m ∈ models) (hn : n ∈ models)
    (h : m.label = n.label) : m = n := by
  have hnodup : (models.map Model.label).Nodup := (List.pairwise_map.mpr hs).nodup
  exact List.inj_on_of_nodup_map hnodup hm hn h

theorem find?_eq_some_iff_isFirst (hs : Sorted models) :
    models.find? (·.name == name) = some m ↔ IsFirst Model.label models name m := by
  have first {n : Model} (h : models.find? (·.name == name) = some n) :
      IsFirst Model.label models name n :=
    ⟨List.mem_of_find?_eq_some h, by simpa using List.find?_some h,
      fun x hx hname => not_lt.mp (mem_of_find?_sorted hs h x hx hname)⟩
  constructor
  · exact first
  · intro hm
    cases hfind : models.find? (·.name == name) with
    | none =>
      have hnone := List.find?_eq_none.mp hfind m hm.mem
      simp [hm.name_eq] at hnone
    | some n => rw [hs.eq_of_label (first hfind).mem hm.mem ((first hfind).key_eq hm)]

theorem mem_visible : m ∈ s.visible (some w) ↔ m ∈ s.models ∧ w.allows m := by
  simp [visible, Whitelist.admits]

/-- A name without a point finds the model of the least label, if that one is visible. -/
theorem resolveModel_ok_iff (hs : Sorted s.models) (hdot : '.' ∉ name.toList) :
    s.resolveModel name (some w) = .ok m ↔
      IsFirst Model.label s.models name m ∧ m ∈ s.visible (some w) := by
  have hplain : name.toList.contains '.' = false := by simpa using hdot
  rw [← find?_eq_some_iff_isFirst hs, mem_visible]
  simp only [resolveModel, hplain, Bool.false_eq_true, if_false, Whitelist.admits, Option.all_some]
  cases hfind : s.models.find? (·.name == name) with
  | none => simp
  | some n =>
    have hn := List.mem_of_find?_eq_some hfind
    rw [Option.some.injEq]
    by_cases hallows : w.allows n
    · simp only [hallows, if_true, Except.ok.injEq]
      constructor
      · rintro rfl
        exact ⟨rfl, hn, hallows⟩
      · exact And.left
    · simp only [hallows, Bool.false_eq_true, if_false, reduceCtorEq, false_iff]
      rintro ⟨rfl, -, h⟩
      exact hallows h

theorem resolveModel_error (h : ∀ m, s.resolveModel name (some w) ≠ .ok m) :
    s.resolveModel name (some w) = .error (.modelNotFound name) := by
  simp only [resolveModel] at h ⊢
  generalize (if name.toList.contains '.' then s.get? name
    else s.models.find? (·.name == name)) = found at h ⊢
  cases found with
  | none => rfl
  | some m =>
    by_cases hadmits : Whitelist.admits (some w) m
    · simp [hadmits] at h
    · simp [hadmits]

/-! ### Agreement with the listing -/

/-- The lookup is one among the visible models exactly if the visible model of the least namespace
has the least label of all models of the name. -/
theorem looksUpVisible_iff (hs : Sorted s.models) (hdot : '.' ∉ name.toList) :
    s.LooksUpVisible w name ↔
      ∀ m, IsFirst Model.ns (s.visible (some w)) name m → IsFirst Model.label s.models name m := by
  have hsub : s.visible (some w) ⊆ s.models := fun _ hm => (mem_visible.mp hm).1
  constructor
  · intro h m hm
    obtain ⟨found, hfound⟩ := h.found_iff.mpr ⟨m, hm.mem, hm.name_eq⟩
    have hfirst := h.least found hfound
    have hlabel : found.label = m.label := by
      rw [Model.label, Model.label, hfirst.key_eq hm, hfirst.name_eq, hm.name_eq]
    obtain rfl := hs.eq_of_label (hsub hfirst.mem) (hsub hm.mem) hlabel
    exact ((resolveModel_ok_iff hs hdot).mp hfound).1
  · intro h
    have hvisible : Sorted (Schema.mk (s.visible (some w))).models := List.Pairwise.filter _ hs
    by_cases hnone : ∃ m ∈ s.visible (some w), m.name = name
    · obtain ⟨m, hm⟩ : ∃ m, IsFirst Model.ns (s.visible (some w)) name m := by
        obtain ⟨m, hm, hname⟩ := hnone
        exact exists_isFirst Model.ns hm hname
      have hfound : s.resolveModel name (some w) = .ok m :=
        (resolveModel_ok_iff hs hdot).mpr ⟨h m hm, hm.mem⟩
      refine ⟨⟨fun _ => hnone, fun _ => ⟨m, hfound⟩⟩, ?_, ?_⟩
      · intro n hn
        rw [hfound] at hn
        cases hn
        exact hm
      · have hmem : m ∈ Schema.visible ⟨s.visible (some w)⟩ (some w) :=
          mem_visible.mpr ⟨hm.mem, (mem_visible.mp hm.mem).2⟩
        rw [hfound, (resolveModel_ok_iff hvisible hdot).mpr ⟨(h m hm).subset hsub hm.mem, hmem⟩]
    · have lost {t : Schema} (ht : Sorted t.models)
          (hvis : t.visible (some w) ⊆ s.visible (some w)) :
          ∀ m, t.resolveModel name (some w) ≠ .ok m := by
        intro m hm
        obtain ⟨hfirst, hmem⟩ := (resolveModel_ok_iff ht hdot).mp hm
        exact hnone ⟨m, hvis hmem, hfirst.name_eq⟩
      have hs' := lost hs (List.Subset.refl _)
      refine ⟨⟨fun ⟨m, hm⟩ => absurd hm (hs' m), fun hm => absurd hm hnone⟩,
        fun m hm => absurd hm (hs' m), ?_⟩
      rw [resolveModel_error hs', resolveModel_error (lost hvisible (List.filter_subset_self _))]

/-! ### Namespaces without small characters -/

theorem append_point_lt_iff {u v : List Char} (rest : List Char) (hu : ∀ c ∈ u, '.' < c)
    (hv : ∀ c ∈ v, '.' < c) : u ++ '.' :: rest < v ++ '.' :: rest ↔ u < v := by
  induction u generalizing v with
  | nil =>
    cases v with
    | nil => simp
    | cons d v =>
      have hd := hv d List.mem_cons_self
      simp [List.cons_lt_cons_iff, hd]
  | cons c u ih =>
    cases v with
    | nil =>
      have hc := hu c List.mem_cons_self
      simp [List.cons_lt_cons_iff, hc.not_gt, hc.ne']
    | cons d v =>
      rw [List.forall_mem_cons] at hu hv
      simp only [List.cons_append, List.cons_lt_cons_iff, ih hu.2 hv.2]

/-- The order of labels is that of namespaces if no character of these is as small as a point. -/
theorem label_le_iff (hname : m.name = n.name) (hm : ∀ c ∈ m.ns.toList, '.' < c)
    (hn : ∀ c ∈ n.ns.toList, '.' < c) : m.label ≤ n.label ↔ m.ns ≤ n.ns := by
  have hlabel (m : Model) : m.label.toList = m.ns.toList ++ '.' :: m.name.toList := by
    simp [Model.label]
  rw [← not_lt, ← not_lt, String.lt_iff_toList_lt, String.lt_iff_toList_lt, hlabel, hlabel, hname,
    append_point_lt_iff _ hn hm]

/-- With such namespaces, the lookup goes wrong only where a hidden model comes before all visible
ones of its name. -/
theorem looksUpVisible_iff_hidden (hs : Sorted s.models) (hdot : '.' ∉ name.toList)
    (hns : ∀ m ∈ s.models, m.name = name → ∀ c ∈ m.ns.toList, '.' < c) :
    s.LooksUpVisible w name ↔ s.HiddenLater w name := by
  rw [looksUpVisible_iff hs hdot]
  constructor
  · rintro h ⟨v, hv, hvname⟩ m hm hname hhidden
    obtain ⟨n, hn⟩ := exists_isFirst Model.ns hv hvname
    obtain ⟨hmem, hallows⟩ := mem_visible.mp hn.mem
    refine ⟨n, hn.mem, hn.name_eq, lt_of_le_of_ne ?_ ?_⟩
    · have hle := (h n hn).least m hm hname
      rwa [label_le_iff (hn.name_eq.trans hname.symm) (hns n hmem hn.name_eq) (hns m hm hname)]
        at hle
    · intro heq
      have hsame : n.label = m.label := by
        rw [Model.label, Model.label, heq, hn.name_eq, hname]
      rw [hs.eq_of_label hmem hm hsame, hhidden] at hallows
      cases hallows
  · intro h m hm
    have hmem := (mem_visible.mp hm.mem).1
    refine ⟨hmem, hm.name_eq, ?_⟩
    intro n hn hname
    rw [label_le_iff (hm.name_eq.trans hname.symm) (hns m hmem hm.name_eq) (hns n hn hname)]
    by_cases hallows : w.allows n
    · exact hm.least n (mem_visible.mpr ⟨hn, hallows⟩) hname
    · obtain ⟨v, hv, hvname, hlt⟩ :=
        h ⟨m, hm.mem, hm.name_eq⟩ n hn hname (by simpa using hallows)
      exact (hm.least v hv hvname).trans hlt.le

/-- In every schema that is built, a name without a point finds the model of the least label among
all models of the name, if the whitelist admits that one, and else nothing. So it is looked up among
the visible models, as the listing has them, exactly if the visible model of the least namespace has
the least label of all. If namespaces have no characters as small as a point, this fails only where
a hidden model of the name comes before all the visible ones. -/
theorem resolveModel_visible_iff (h : build models = .ok s) (w : Whitelist) (name : String)
    (hdot : '.' ∉ name.toList) :
    (∀ m, s.resolveModel name (some w) = .ok m ↔
      IsFirst Model.label s.models name m ∧ m ∈ s.visible (some w)) ∧
    (s.LooksUpVisible w name ↔
      ∀ m, IsFirst Model.ns (s.visible (some w)) name m → IsFirst Model.label s.models name m) ∧
    ((∀ m ∈ s.models, m.name = name → ∀ c ∈ m.ns.toList, '.' < c) →
      (s.LooksUpVisible w name ↔ s.HiddenLater w name)) :=
  have hs := build_sorted h
  ⟨fun _ => resolveModel_ok_iff hs hdot, looksUpVisible_iff hs hdot,
    looksUpVisible_iff_hidden hs hdot⟩

/-- Notes with a hidden namesake before them, tags with one after them, and items in two namespaces
that are visible and whose labels are in another order than they. -/
def namesakes : List Model :=
  [⟨"archive", "Note", "archive_note", [.key "id"]⟩, ⟨"shop", "Note", "shop_note", [.key "id"]⟩,
   ⟨"shop", "Tag", "shop_tag", [.key "id"]⟩, ⟨"wiki", "Tag", "wiki_tag", [.key "id"]⟩,
   ⟨"shop", "Item", "shop_item", [.key "id"]⟩, ⟨"shop-old", "Item", "old_item", [.key "id"]⟩]

def namesakesVisible : Whitelist := ⟨⟨[("shop", []), ("shop-old", ["Item"])]⟩⟩

theorem resolveModel_visible_iff_namesakes :
    ∃ s, build namesakes = .ok s ∧
      s.LooksUpVisible namesakesVisible "Tag" ∧ ¬ s.LooksUpVisible namesakesVisible "Note" ∧
      ¬ s.LooksUpVisible namesakesVisible "Item" := by
  have h : ((build namesakes).toOption.map fun s =>
      decide ((∀ m ∈ s.models, m.name ≠ "Item" → m.ns.toList.all ('.' < ·)) ∧
        s.HiddenLater namesakesVisible "Tag" ∧ ¬ s.HiddenLater namesakesVisible "Note" ∧
        ∃ m ∈ s.visible (some namesakesVisible), m.name = "Item" ∧
          (∀ n ∈ s.visible (some namesakesVisible), n.name = "Item" → m.ns ≤ n.ns) ∧
          ∃ n ∈ s.models, n.name = "Item" ∧ n.label < m.label)) = some true := by
    decide +kernel
  simp only [Option.map_eq_some_iff, Steps.toOption_eq_some_iff, decide_eq_true_eq] at h
  obtain ⟨s, hs, hns, htag, hnote, m, hm, hname, hleast, n, hn, hother, hlt⟩ := h
  have plain (name : String) (hne : name ≠ "Item") :
      ∀ m ∈ s.models, m.name = name → ∀ c ∈ m.ns.toList, '.' < c := by
    rintro m hm rfl
    simpa using hns m hm hne
  refine ⟨s, hs, ?_, ?_, ?_⟩
  · exact ((resolveModel_visible_iff hs _ "Tag" (by decide)).2.2 (plain "Tag" (by decide))).mpr htag
  · intro h
    exact hnote (((resolveModel_visible_iff hs _ "Note" (by decide)).2.2
      (plain "Note" (by decide))).mp h)
  · intro h
    have hfirst := (resolveModel_visible_iff hs _ "Item" (by decide)).2.1.mp h m ⟨hm, hname, hleast⟩
    exact hlt.not_ge (hfirst.least n hn hother)

end PathQuery.Schema
