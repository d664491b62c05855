import QuerySurface.Proofs.Layout.Decorated
import QuerySurface.Proofs.Plan.Derived
import QuerySurface.Proofs.Schema.Hierarchy
import Mathlib.Data.List.Nodup

/-!
# Names of all abstractions

The check of a layout compares decorations with each other and never sees a schema. So two
abstractions of a schema can have one name under a layout that passes: a prefix hides the case
of a first letter, a node and a field join to what another node and field join to, or one name
goes on where the postfix of another begins. Here these are shown to be the only ways, which
makes it exact when the names of a schema are apart. What the check does ensure is that two
families without prefixes never make the same of one name.
-/

namespace QuerySurface.Plan

open Schema (Graph Node Field Kind SchemaStep Strictness)

/-! ## Collisions -/

/-- Whether the abstractions of a family belong to fields. -/
def Family.isOfField : Family → Bool
  | .selection | .query => true
  | _ => false

/-- How two abstractions come to have one name. -/
inductive Collides (decorations : Layout.Decorations) : Label → Label → Prop where
  /-- The family has a prefix, and two nodes are the same behind it. -/
  | capitals {family : Family} {node other : String}
      (prefixed : (family.decoration decorations).front.isSome = true) (differ : node ≠ other)
      (alike : Text.capitalize node = Text.capitalize other) :
      Collides decorations ⟨node, family, none⟩ ⟨other, family, none⟩
  /-- Two fields, joined to their nodes, are the same. -/
  | joints {family : Family} {node field other last : String}
      (differ : (node, field) ≠ (other, last))
      (alike : (family.decoration decorations).shown (Layout.joined node field) =
        (family.decoration decorations).shown (Layout.joined other last)) :
      Collides decorations ⟨node, family, some field⟩ ⟨other, family, some last⟩
  /-- Names of two families overlap. Two families of nodes, or of fields, without prefixes do not
  do so on one name. -/
  | tails {label other : Label} (differ : label.family ≠ other.family)
      (told : (label.family.decoration decorations).front.isSome = true ∨
        (other.family.decoration decorations).front.isSome = true ∨
        label.family.isOfField ≠ other.family.isOfField ∨ label.stem ≠ other.stem)
      (overlap : (label.family.decoration decorations).Overlaps
        (other.family.decoration decorations) label.stem other.stem) :
      Collides decorations label other

/-- What collides are two labels. -/
theorem Collides.ne {decorations : Layout.Decorations} {label other : Label}
    (h : Collides decorations label other) : label ≠ other := by
  cases h with
  | capitals hprefixed hdiffer halike =>
    intro he
    exact hdiffer (congrArg Label.node he)
  | joints hdiffer halike =>
    intro he
    injection he with hn _ hf
    exact hdiffer (by rw [hn, Option.some.inj hf])
  | tails hdiffer htold hoverlap =>
    intro he
    exact hdiffer (congrArg Label.family he)

/-! ## Decorations of an accepted layout -/

section Accepted

variable {layout : Layout} (h : layout.Accepted)
include h

/-- Every family has a well-formed decoration. -/
theorem wellFormed_decoration (family : Family) :
    (family.decoration layout.decorations).WellFormed := by
  have hd := h.decorations
  simp only [Layout.Decorations.named, List.forall_mem_cons] at hd
  obtain ⟨he, hp, hq, hqp, _, hs, hy, _⟩ := hd
  cases family with
  | entity => exact he
  | projection => exact hp
  | qualification => exact hq
  | qualifiedProjection => exact hqp
  | selection => exact hs
  | query => exact hy

/-- Two families of nodes, or of fields, are decorated differently. -/
theorem decoration_ne {family other : Family} (hl : family.isOfField = other.isOfField)
    (hne : family ≠ other) :
    family.decoration layout.decorations ≠ other.decoration layout.decorations := by
  have hn := h.nodeLevel
  have hf := h.fieldLevel
  simp only [Layout.Decorations.nodeLevel, Layout.Decorations.fieldLevel, List.pairwise_cons,
    List.forall_mem_cons] at hn hf
  cases family <;> cases other <;>
    simp_all [Family.decoration, Family.isOfField, ne_comm]

end Accepted

/-! ## Labels of a graph that was built -/

/-- Labels of fields are those of the families of fields. -/
theorem isSome_field_of_mem_labels {graph : Graph} {label : Label} (h : label ∈ labels graph) :
    label.field.isSome = label.family.isOfField := by
  obtain ⟨node, _, hl⟩ := List.mem_flatMap.mp h
  rcases mem_labelsOf_iff.mp hl with ⟨family, hf, rfl⟩ | ⟨field, _, rfl | rfl⟩
  · have hfam : family.isOfField = false := by
      cases hk : node.kind <;> rw [hk] at hf <;> cases family <;>
        simp_all [nodeFamilies, Family.isOfField]
    exact hfam.symm
  · rfl
  · rfl

/-- The labels of a node are made for it. -/
theorem node_of_mem_labelsOf {graph : Graph} {node : Node} {label : Label}
    (h : label ∈ labelsOf graph node) : label.node = node.name := by
  obtain ⟨family, _, rfl⟩ | ⟨field, _, rfl | rfl⟩ := mem_labelsOf_iff.mp h <;> rfl

/-- Things without repeated names have different names two by two. -/
theorem pairwise_name_ne {α : Type} [Named α] {entries : List α}
    (h : (Catalog.names entries).Nodup) :
    entries.Pairwise fun entry other => Named.name entry ≠ Named.name other :=
  List.pairwise_map.mp h

/-- A node without repeated fields has no label twice. -/
theorem nodup_labelsOf (graph : Graph) {node : Node} (h : (Catalog.names node.fields).Nodup) :
    (labelsOf graph node).Nodup := by
  have hfamilies : (nodeFamilies node.kind).Nodup := by
    cases node.kind <;> decide
  have hselected : (selectedFields graph node).Pairwise fun field other =>
      field.name ≠ other.name := by
    unfold selectedFields
    split
    · exact (pairwise_name_ne h).filter _
    · exact List.Pairwise.nil
  refine List.nodup_append.mpr ⟨?_, List.nodup_flatMap.mpr ⟨?_, ?_⟩, ?_⟩
  · apply hfamilies.map
    intro family other he
    exact congrArg Label.family he
  · intro field _
    simp [Label.ofField]
  · refine hselected.imp ?_
    intro field other hne label hl ho
    have hfield : label.field = some field.name := by
      rcases List.mem_pair.mp hl with rfl | rfl <;> rfl
    have hother : label.field = some other.name := by
      rcases List.mem_pair.mp ho with rfl | rfl <;> rfl
    exact hne (Option.some.inj (hfield.symm.trans hother))
  · intro label hl other ho he
    obtain ⟨family, _, rfl⟩ := List.mem_map.mp hl
    obtain ⟨field, _, ho⟩ := List.mem_flatMap.mp ho
    rcases List.mem_pair.mp ho with rfl | rfl
    · cases congrArg Label.field he
    · cases congrArg Label.field he

/-- A graph without repeated nodes and fields has no label twice. -/
theorem nodup_labels {graph : Graph} (hn : (Catalog.names graph.nodes).Nodup)
    (hf : ∀ node ∈ graph.nodes, (Catalog.names node.fields).Nodup) : (labels graph).Nodup := by
  refine List.nodup_flatMap.mpr ⟨fun node hm => nodup_labelsOf graph (hf node hm), ?_⟩
  refine (pairwise_name_ne hn).imp ?_
  intro node other hne label hl ho
  exact hne ((node_of_mem_labelsOf hl).symm.trans (node_of_mem_labelsOf ho))

/-- A graph that was built has no label twice. -/
theorem nodup_labels_of_build {id : Schema.GraphId} {strictness : Strictness}
    {steps : List SchemaStep} {graph : Graph} (h : Graph.build id strictness steps = .ok graph) :
    (labels graph).Nodup := by
  have hp := Graph.placed_of_build h
  exact nodup_labels hp.nodes hp.fields

/-! ## When names are apart -/

/-- Labels that collide have one name. -/
theorem Collides.name_eq {decorations : Layout.Decorations} {label other : Label}
    (h : Collides decorations label other) : label.name decorations = other.name decorations := by
  cases h with
  | capitals hprefixed hdiffer halike =>
    apply (Layout.Decoration.apply_eq_apply_self_iff _ _ _).mpr
    simpa only [Layout.Decoration.shown, hprefixed, if_true, Label.stem] using halike
  | joints hdiffer halike => exact (Layout.Decoration.apply_eq_apply_self_iff _ _ _).mpr halike
  | tails hdiffer htold hoverlap =>
    exact (Layout.Decoration.apply_eq_apply_iff _ _ _ _).mpr (.inl hoverlap)

/-- Labels of one family that have one name collide. -/
theorem collides_of_family_eq {graph : Graph} {decorations : Layout.Decorations}
    {label other : Label} (hl : label ∈ labels graph) (ho : other ∈ labels graph)
    (hne : label ≠ other) (hf : label.family = other.family)
    (he : label.name decorations = other.name decorations) :
    Collides decorations label other := by
  have hlevel : label.field.isSome = other.field.isSome := by
    rw [isSome_field_of_mem_labels hl, isSome_field_of_mem_labels ho, hf]
  obtain ⟨node, family, field⟩ := label
  obtain ⟨last, family', field'⟩ := other
  obtain rfl : family = family' := hf
  have hshown := (Layout.Decoration.apply_eq_apply_self_iff _ _ _).mp he
  cases field with
  | none =>
    obtain rfl : field' = none := by
      simpa using hlevel
    have hnode : node ≠ last := fun hn => hne (hn ▸ rfl)
    cases hp : (family.decoration decorations).front.isSome with
    | true =>
      simp only [Layout.Decoration.shown, hp, if_true, Label.stem] at hshown
      exact .capitals hp hnode hshown
    | false =>
      simp only [Layout.Decoration.shown, hp, Bool.false_eq_true, if_false, Label.stem] at hshown
      exact absurd hshown hnode
  | some field =>
    obtain ⟨field', rfl⟩ : ∃ name, field' = some name :=
      Option.isSome_iff_exists.mp hlevel.symm
    apply Collides.joints _ hshown
    intro hp
    obtain ⟨rfl, rfl⟩ := Prod.mk.inj hp
    exact hne rfl

/-- Labels of two families tell their decorations apart, unless one name is decorated on one level
and without prefixes. -/
theorem told_of_family_ne {layout : Layout} (h : layout.Accepted) {label other : Label}
    (hf : label.family ≠ other.family)
    (he : label.name layout.decorations = other.name layout.decorations) :
    (label.family.decoration layout.decorations).front.isSome = true ∨
      (other.family.decoration layout.decorations).front.isSome = true ∨
      label.family.isOfField ≠ other.family.isOfField ∨ label.stem ≠ other.stem := by
  -- Otherwise both names are the stem with a postfix, and the check told the postfixes apart.
  by_contra hn
  push Not at hn
  obtain ⟨hl, ho, hlevel, hstem⟩ := hn
  have hd := decoration_ne h hlevel hf
  rw [Label.name, Label.name, ← hstem] at he
  exact hd (Layout.Decoration.eq_of_apply_eq_apply (wellFormed_decoration h _)
    (wellFormed_decoration h _) (by simpa using hl) (by simpa using ho) he)

/-- Two labels of a graph have one name under an accepted layout exactly if they collide, one way or
the other. -/
theorem name_eq_name_iff {graph : Graph} {layout : Layout} (h : layout.Accepted)
    {label other : Label} (hl : label ∈ labels graph) (ho : other ∈ labels graph)
    (hne : label ≠ other) :
    label.name layout.decorations = other.name layout.decorations ↔
      Collides layout.decorations label other ∨ Collides layout.decorations other label := by
  constructor
  · intro he
    by_cases hf : label.family = other.family
    · exact .inl (collides_of_family_eq hl ho hne hf he)
    · rcases (Layout.Decoration.apply_eq_apply_iff _ _ _ _).mp he with hover | hover
      · exact .inl (.tails hf (told_of_family_ne h hf he) hover)
      · exact .inr (.tails (Ne.symm hf) (told_of_family_ne h (Ne.symm hf) he.symm) hover)
  · rintro (hcol | hcol)
    · exact hcol.name_eq
    · exact hcol.name_eq.symm

/-- The names of all abstractions that are generated from a graph are different exactly if no two
wanted labels collide. -/
theorem nodup_abstractionNames_iff {id : Schema.GraphId} {strictness : Strictness}
    {steps : List SchemaStep} {graph : Graph} {layout : Layout}
    (hb : Graph.build id strictness steps = .ok graph) (hc : layout.check = .ok ()) :
    ∃ plans, generate graph layout = .ok plans ∧
      ((abstractionNames plans).Nodup ↔
        ∀ label ∈ wantedLabels graph layout, ∀ other ∈ wantedLabels graph layout,
          ¬Collides layout.decorations label other) := by
  refine ⟨wantedPlans graph layout, generate_eq hc, ?_⟩
  have ha := Layout.check_eq_ok_iff.mp hc
  have hd : (wantedLabels graph layout).Nodup := (nodup_labels_of_build hb).filter _
  rw [abstractionNames_wantedPlans, List.nodup_map_iff_inj_on hd]
  constructor
  · intro h label hl other ho hcol
    have he := (name_eq_name_iff ha (List.mem_filter.mp hl).1 (List.mem_filter.mp ho).1
      hcol.ne).mpr (.inl hcol)
    exact hcol.ne (h label hl other ho he)
  · intro h label hl other ho he
    by_contra hne
    rcases (name_eq_name_iff ha (List.mem_filter.mp hl).1 (List.mem_filter.mp ho).1 hne).mp he
      with hcol | hcol
    · exact h label hl other ho hcol
    · exact h other ho label hl hcol

/-- A schema with a node that is named like the projection of another. -/
def collidingSteps : List SchemaStep :=
  [.node "Animal" .object [], .node "AnimalProjection" .object []]

/-- The colliding schema can be built, and the law of names holds of it. -/
theorem nodup_abstractionNames_colliding :
    ∃ graph, Graph.build ⟨0⟩ .strict collidingSteps = .ok graph ∧
      Layout.usual.check = .ok () ∧
      ∃ plans, generate graph .usual = .ok plans ∧
        ((abstractionNames plans).Nodup ↔
          ∀ label ∈ wantedLabels graph .usual, ∀ other ∈ wantedLabels graph .usual,
            ¬Collides Layout.usual.decorations label other) := by
  obtain ⟨graph, h⟩ : ∃ graph, Graph.build ⟨0⟩ .strict collidingSteps = .ok graph := ⟨_, rfl⟩
  have hc : Layout.usual.check = .ok () := rfl
  exact ⟨graph, h, hc, nodup_abstractionNames_iff h hc⟩

/-- Names of abstractions do collide: under the usual layout, which passes its check, the projection
of `Animal` and the entity of `AnimalProjection` have one name. -/
theorem not_nodup_abstractionNames :
    ¬∀ (id : Schema.GraphId) (strictness : Strictness) (steps : List SchemaStep) (graph : Graph)
      (layout : Layout) (plans : List NodePlan),
      Graph.build id strictness steps = .ok graph → layout.check = .ok () →
        generate graph layout = .ok plans → (abstractionNames plans).Nodup := by
  intro h
  obtain ⟨graph, plans, hb, hg, hn⟩ : ∃ graph plans,
      Graph.build ⟨0⟩ .strict collidingSteps = .ok graph ∧
        generate graph .usual = .ok plans ∧
        abstractionNames plans =
          ["Animal", "AnimalProjection", "AnimalProjection", "AnimalProjectionProjection"] :=
    ⟨_, _, rfl, rfl, rfl⟩
  have hd := h _ _ _ graph .usual plans hb rfl hg
  rw [hn] at hd
  exact absurd hd (by decide)

end QuerySurface.Plan
