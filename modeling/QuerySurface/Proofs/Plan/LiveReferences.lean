import QuerySurface.Proofs.Plan.Names

/-!
# References that pruning drops

Pruning goes by bare names: it drops every reference to a name that some unwanted abstraction has,
also where a wanted abstraction has the same name and stays. The dropped references are told
here from the plans before and after, and it is said exactly when one of them is live: when the
name is that of two labels that collide, one unwanted and one wanted. In plans whose names are
apart no live reference is dropped.
-/

namespace QuerySurface.Plan

open Schema (Graph GraphId SchemaStep Strictness)

/-! ## References and losses -/

/-- An abstraction refers to a name. -/
inductive Abstraction.RefersTo (abstraction : Abstraction) (name : String) : Prop where
  /-- It has a supertype of the name. -/
  | supertype (mem : name ∈ abstraction.supertypes)
  /-- One of its methods has a parameter that may be left out and configures the name. -/
  | parameter {method : Method} {parameter : Parameter}
      (member : .method method ∈ abstraction.members) (mem : parameter ∈ method.parameters)
      (refers : parameter.RefersTo name)

/-- An abstraction had a reference to a name that is missing in what is left of it. -/
inductive Abstraction.Loses (whole left : Abstraction) (name : String) : Prop where
  /-- A supertype is missing. -/
  | supertype (mem : name ∈ whole.supertypes) (missing : name ∉ left.supertypes)
  /-- A parameter is missing in what is left of its method. -/
  | parameter {method rest : Method} {parameter : Parameter}
      (pair : (.method method, .method rest) ∈ whole.members.zip left.members)
      (mem : parameter ∈ method.parameters) (refers : parameter.RefersTo name)
      (missing : parameter ∉ rest.parameters)

/-- A wanted abstraction of some plans had a reference to a name that is missing in what is left of
it. -/
def Drops (families : Layout.Families) (plans left : List NodePlan) (name : String) : Prop :=
  ∃ plan rest, (plan, rest) ∈ plans.zip left ∧
    ∃ whole kept,
      (whole, kept) ∈ (plan.abstractions.filter (·.family.isEnabled families)).zip
        rest.abstractions ∧ whole.Loses kept name

/-- A wanted abstraction of some plans refers to a name. -/
def Mentions (families : Layout.Families) (plans : List NodePlan) (name : String) : Prop :=
  ∃ plan ∈ plans, ∃ abstraction ∈ plan.abstractions,
    abstraction.family.isEnabled families = true ∧ abstraction.RefersTo name

/-! ## What is dropped -/

/-- Entries that correspond stand in the same place. -/
theorem exists_mem_zip {α β : Type} {related : α → β → Prop} {whole : List α} {left : List β}
    (h : List.Forall₂ related whole left) {entry : α} (hm : entry ∈ whole) :
    ∃ other, (entry, other) ∈ whole.zip left ∧ related entry other := by
  obtain ⟨hlength, hrelated⟩ := List.forall₂_iff_zip.mp h
  rw [← List.map_fst_zip hlength.le] at hm
  obtain ⟨⟨_, other⟩, hp, rfl⟩ := List.mem_map.mp hm
  exact ⟨other, hp, hrelated hp⟩

/-- What is left are the entries that do not go. -/
theorem Remains.mem_iff {α : Type} {goes : α → Prop} {whole left : List α}
    (h : Remains goes whole left) {entry : α} : entry ∈ left ↔ entry ∈ whole ∧ ¬goes entry := by
  induction h with
  | nil => simp
  | stay hstays hrest ih =>
    rw [List.mem_cons, List.mem_cons, ih]
    constructor
    · rintro (rfl | ⟨hm, hn⟩)
      · exact ⟨.inl rfl, hstays⟩
      · exact ⟨.inr hm, hn⟩
    · rintro ⟨rfl | hm, hn⟩
      · exact .inl rfl
      · exact .inr ⟨hm, hn⟩
  | go hgone hrest ih =>
    rw [List.mem_cons, ih]
    constructor
    · rintro ⟨hm, hn⟩
      exact ⟨.inr hm, hn⟩
    · rintro ⟨rfl | hm, hn⟩
      · exact absurd hgone hn
      · exact ⟨hm, hn⟩

/-- A parameter refers to one name only. -/
theorem Parameter.RefersTo.unique {parameter : Parameter} {name other : String}
    (h : parameter.RefersTo name) (ho : parameter.RefersTo other) : name = other :=
  TypeExpr.configurator.inj (h.2.symm.trans ho.2)

/-- An abstraction loses its references to the names that are gone, and no others. -/
theorem Abstraction.LeftOf.loses_iff {gone : String → Prop} {whole left : Abstraction}
    (h : Abstraction.LeftOf gone whole left) {name : String} :
    whole.Loses left name ↔ whole.RefersTo name ∧ gone name := by
  constructor
  · rintro (⟨hm, hn⟩ | ⟨hpair, hm, hr, hn⟩)
    · refine ⟨.supertype hm, ?_⟩
      by_contra hg
      exact hn (h.supertypes.mem_iff.mpr ⟨hm, hg⟩)
    · have hmember := (List.of_mem_zip hpair).1
      refine ⟨.parameter hmember hm hr, ?_⟩
      by_contra hg
      cases (List.forall₂_iff_zip.mp h.members).2 hpair with
      | method hparameters =>
        refine hn (hparameters.mem_iff.mpr ⟨hm, ?_⟩)
        rintro ⟨other, hother, hgone⟩
        exact hg (hr.unique hother ▸ hgone)
  · rintro ⟨hm | ⟨hmember, hm, hr⟩, hg⟩
    · exact .supertype hm fun hl => (h.supertypes.mem_iff.mp hl).2 hg
    · obtain ⟨rest, hpair, hleft⟩ := exists_mem_zip h.members hmember
      cases hleft with
      | method hparameters =>
        exact .parameter hpair hm hr fun hl => (hparameters.mem_iff.mp hl).2 ⟨name, hr, hg⟩

/-- Pruning drops the references to names that an unwanted abstraction has, and no others. -/
theorem drops_prune_iff {families : Layout.Families} {plans : List NodePlan} {name : String} :
    Drops families plans (prune families plans) name ↔
      Mentions families plans name ∧ Unwanted families plans name := by
  have hleft := leftOf_prune families plans
  constructor
  · rintro ⟨plan, rest, hpair, whole, kept, hboth, hl⟩
    have hplan := (List.forall₂_iff_zip.mp hleft).2 hpair
    have hwhole := (List.forall₂_iff_zip.mp hplan.abstractions).2 hboth
    obtain ⟨ha, hw⟩ := List.mem_filter.mp (List.of_mem_zip hboth).1
    obtain ⟨hr, hg⟩ := hwhole.loses_iff.mp hl
    exact ⟨⟨plan, (List.of_mem_zip hpair).1, whole, ha, hw, hr⟩, hg⟩
  · rintro ⟨⟨plan, hp, whole, ha, hw, hr⟩, hg⟩
    obtain ⟨rest, hpair, hplan⟩ := exists_mem_zip hleft hp
    obtain ⟨kept, hboth, hwhole⟩ :=
      exists_mem_zip hplan.abstractions (List.mem_filter.mpr ⟨ha, hw⟩)
    exact ⟨plan, rest, hpair, whole, kept, hboth, hwhole.loses_iff.mpr ⟨hr, hg⟩⟩

/-! ## What is dropped although it is live -/

/-- The families that are wanted have no part in what is derived. -/
theorem derived_families (graph : Graph) (layout : Layout) (families : Layout.Families) :
    (Engine.mk graph { layout with families }).derived = (Engine.mk graph layout).derived :=
  rfl

/-- The names that are left of derived plans are those of the wanted labels. -/
theorem mem_abstractionNames_prune {graph : Graph} {layout : Layout} {families : Layout.Families}
    {name : String} :
    name ∈ abstractionNames (prune families (graph.nodes.map (Engine.mk graph layout).derived)) ↔
      ∃ label ∈ labels graph, label.family.isEnabled families = true ∧
        label.name layout.decorations = name := by
  have hnames := abstractionNames_wantedPlans graph { layout with families }
  rw [wantedPlans, derived_families] at hnames
  rw [hnames, List.mem_map]
  simp only [wantedLabels, List.mem_filter, and_assoc]

/-- What pruning drops from the plans of a graph, for any layout that passes its check and any
families: the references of wanted abstractions to names that an unwanted abstraction has. Such a
name is still there exactly if it is that of an unwanted label which collides with a wanted
one. -/
theorem drops_live_iff {graph : Graph} {layout : Layout} (h : layout.check = .ok ()) :
    ∃ plans, (Engine.mk graph layout).plans = .ok plans ∧
      ∀ (families : Layout.Families) (name : String),
        (Drops families plans (prune families plans) name ↔
            Mentions families plans name ∧ Unwanted families plans name) ∧
          (Drops families plans (prune families plans) name ∧
              name ∈ abstractionNames (prune families plans) ↔
            Mentions families plans name ∧
              ∃ gone ∈ labels graph, ∃ kept ∈ labels graph,
                gone.family.isEnabled families = false ∧ kept.family.isEnabled families = true ∧
                  gone.name layout.decorations = name ∧
                  (Collides layout.decorations gone kept ∨
                    Collides layout.decorations kept gone)) := by
  refine ⟨graph.nodes.map (Engine.mk graph layout).derived, Engine.plansOf_eq _ _, ?_⟩
  intro families name
  refine ⟨drops_prune_iff, ?_⟩
  rw [drops_prune_iff, unwanted_derived_iff, mem_abstractionNames_prune, and_assoc]
  refine and_congr_right fun _ => ?_
  have ha := Layout.check_eq_ok_iff.mp h
  constructor
  · rintro ⟨⟨gone, hg, hgf, hgn⟩, kept, hk, hkf, hkn⟩
    have hne : gone ≠ kept := by
      rintro rfl
      rw [hgf] at hkf
      cases hkf
    exact ⟨gone, hg, kept, hk, hgf, hkf, hgn,
      (name_eq_name_iff ha hg hk hne).mp (hgn.trans hkn.symm)⟩
  · rintro ⟨gone, hg, kept, hk, hgf, hkf, hgn, hcollide⟩
    have hname : gone.name layout.decorations = kept.name layout.decorations := by
      rcases hcollide with hc | hc
      · exact hc.name_eq
      · exact hc.name_eq.symm
    exact ⟨⟨gone, hg, hgf, hgn⟩, kept, hk, hkf, hname.symm.trans hgn⟩

/-- A schema in which a node implements an interface that is named like the projection of
another. -/
def shadowedSteps : List SchemaStep :=
  [ .node "AnimalProjection" .interface [],
    .node "Animal" .object [],
    .node "Dog" .object [.implements "AnimalProjection"] ]

/-- The families without projections. -/
def unprojectedFamilies : Layout.Families :=
  { Layout.Families.all with projection := false }

/-- The law of dropped references holds of the schema with a shadowed name. -/
theorem drops_live_shadowed :
    ∃ graph, Graph.build ⟨0⟩ .strict shadowedSteps = .ok graph ∧
      Layout.usual.check = .ok () ∧
      ∃ plans, (Engine.mk graph .usual).plans = .ok plans ∧
        ∀ (families : Layout.Families) (name : String),
          (Drops families plans (prune families plans) name ↔
              Mentions families plans name ∧ Unwanted families plans name) ∧
            (Drops families plans (prune families plans) name ∧
                name ∈ abstractionNames (prune families plans) ↔
              Mentions families plans name ∧
                ∃ gone ∈ labels graph, ∃ kept ∈ labels graph,
                  gone.family.isEnabled families = false ∧ kept.family.isEnabled families = true ∧
                    gone.name Layout.usual.decorations = name ∧
                    (Collides Layout.usual.decorations gone kept ∨
                      Collides Layout.usual.decorations kept gone)) := by
  obtain ⟨graph, hb⟩ : ∃ graph, Graph.build ⟨0⟩ .strict shadowedSteps = .ok graph := ⟨_, rfl⟩
  have hc : Layout.usual.check = .ok () := rfl
  exact ⟨graph, hb, hc, drops_live_iff hc⟩

/-- Pruning does drop live references: without projections `Dog` no longer extends the entity of
the interface `AnimalProjection`, which stays, because the projection of `Animal`, which goes,
has the same name. -/
theorem not_dead_of_drops :
    ¬∀ (id : GraphId) (strictness : Strictness) (steps : List SchemaStep) (graph : Graph)
      (layout : Layout) (plans : List NodePlan) (families : Layout.Families) (name : String),
      Graph.build id strictness steps = .ok graph → layout.check = .ok () →
        (Engine.mk graph layout).plans = .ok plans →
          Drops families plans (prune families plans) name →
            name ∉ abstractionNames (prune families plans) := by
  intro h
  obtain ⟨graph, plans, hb, hp, hd, hn⟩ : ∃ graph plans,
      Graph.build ⟨0⟩ .strict shadowedSteps = .ok graph ∧
        (Engine.mk graph .usual).plans = .ok plans ∧
        Drops unprojectedFamilies plans (prune unprojectedFamilies plans) "AnimalProjection" ∧
        abstractionNames (prune unprojectedFamilies plans) =
          ["AnimalProjection", "AnimalProjectionQualification",
            "AnimalProjectionQualifiedProjection", "Animal", "Dog"] := by
    refine ⟨_, _, rfl, rfl, drops_prune_iff.mpr ⟨?_, ?_⟩, rfl⟩
    · exact ⟨_, .tail _ (.tail _ (.head _)), _, .head _, rfl, .supertype (.head _)⟩
    · exact ⟨_, .tail _ (.head _), _, .tail _ (.head _), rfl, rfl⟩
  have hdead := h _ _ _ graph .usual plans _ _ hb rfl hp hd
  rw [hn] at hdead
  exact absurd hdead (by decide)

end QuerySurface.Plan
