import QuerySurface.Plan.Prune
import Mathlib.Data.List.Forall2

/-!
# Pruning

What pruning leaves of plans, derived or written by hand, said without pruning them. All plans
are left, in order; of each plan the wanted abstractions, in order; of each abstraction
everything but the references to names that some unwanted abstraction of the plans has. Pruning
for some families and then for others comes to pruning once for those that both want, although
the second time it looks at what the first has left.
-/

namespace QuerySurface.Plan

/-! ## What is left -/

/-- A list without exactly the entries that go. -/
inductive Remains {α : Type} (goes : α → Prop) : List α → List α → Prop where
  /-- Nothing is left of nothing. -/
  | nil : Remains goes [] []
  /-- An entry that does not go is left where it is. -/
  | stay {entry : α} {whole left : List α} (stays : ¬goes entry) (rest : Remains goes whole left) :
      Remains goes (entry :: whole) (entry :: left)
  /-- An entry that goes is not left. -/
  | go {entry : α} {whole left : List α} (gone : goes entry) (rest : Remains goes whole left) :
      Remains goes (entry :: whole) left

/-- Some unwanted abstraction of the plans has a name. -/
def Unwanted (families : Layout.Families) (plans : List NodePlan) (name : String) : Prop :=
  ∃ plan ∈ plans, ∃ abstraction ∈ plan.abstractions,
    abstraction.family.isEnabled families = false ∧ abstraction.name = name

/-- A parameter configures the abstraction of a name and may be left out. -/
def Parameter.RefersTo (parameter : Parameter) (name : String) : Prop :=
  parameter.hasDefault = true ∧ parameter.type = .configurator name

/-- What is left of a member when some names are gone. -/
inductive Member.LeftOf (gone : String → Prop) : Member → Member → Prop where
  /-- A property is left as it is. -/
  | property (property : Property) : LeftOf gone (.property property) (.property property)
  /-- A method is left without the parameters that refer to a name that is gone. -/
  | method {method : Method} {left : List Parameter}
      (parameters : Remains (fun parameter => ∃ name, parameter.RefersTo name ∧ gone name)
        method.parameters left) :
      LeftOf gone (.method method) (.method { method with parameters := left })

/-- What is left of an abstraction when some names are gone: the references to them are missing,
and all else is as it was. -/
structure Abstraction.LeftOf (gone : String → Prop) (whole left : Abstraction) : Prop where
  /-- The family is. -/
  family : left.family = whole.family
  /-- The name is. -/
  name : left.name = whole.name
  /-- The comments are. -/
  comments : left.comments = whole.comments
  /-- The field is. -/
  field : left.field = whole.field
  /-- The supertypes that are gone are missing. -/
  supertypes : Remains gone whole.supertypes left.supertypes
  /-- The members are left, in order. -/
  members : List.Forall₂ (Member.LeftOf gone) whole.members left.members

/-- What is left of a plan: the wanted abstractions, in order, without the references to names
that are gone. -/
structure NodePlan.LeftOf (families : Layout.Families) (gone : String → Prop)
    (whole left : NodePlan) : Prop where
  /-- The node is the same. -/
  node : left.node = whole.node
  /-- The kind is the same. -/
  kind : left.kind = whole.kind
  /-- The wanted abstractions are left. -/
  abstractions :
    List.Forall₂ (Abstraction.LeftOf gone)
      (whole.abstractions.filter (·.family.isEnabled families)) left.abstractions

/-- Taking out what goes leaves the rest. -/
theorem remains_filter {α : Type} {goes : α → Prop} {keep : α → Bool}
    (h : ∀ entry, keep entry = true ↔ ¬goes entry) (entries : List α) :
    Remains goes entries (entries.filter keep) := by
  induction entries with
  | nil => exact .nil
  | cons entry rest ih =>
    cases hk : keep entry with
    | true =>
      rw [List.filter_cons_of_pos hk]
      exact .stay ((h entry).mp hk) ih
    | false =>
      rw [List.filter_cons_of_neg (by simp [hk])]
      refine .go ?_ ih
      by_contra hn
      have ht := (h entry).mpr hn
      rw [hk] at ht
      cases ht

/-- The names that pruning looks for are those of unwanted abstractions. -/
theorem mem_removedNames_iff {families : Layout.Families} {plans : List NodePlan}
    {name : String} : name ∈ removedNames families plans ↔ Unwanted families plans name := by
  have hname : ∀ abstraction : Abstraction,
      (if abstraction.family.isEnabled families then none else some abstraction.name) = some name ↔
        abstraction.family.isEnabled families = false ∧ abstraction.name = name := by
    intro abstraction
    cases abstraction.family.isEnabled families <;> simp
  simp only [removedNames, List.mem_filterMap, List.mem_flatMap, hname]
  constructor
  · rintro ⟨abstraction, ⟨plan, hp, ha⟩, hw⟩
    exact ⟨plan, hp, abstraction, ha, hw⟩
  · rintro ⟨plan, hp, abstraction, ha, hw⟩
    exact ⟨abstraction, ⟨plan, hp, ha⟩, hw⟩

/-- A parameter stays unless it refers to a name that goes. -/
theorem Parameter.stays_iff {removed : List String} {parameter : Parameter} :
    parameter.stays removed = true ↔ ¬∃ name, parameter.RefersTo name ∧ name ∈ removed := by
  obtain ⟨name, type, hasDefault, comments⟩ := parameter
  cases type with
  | value shape name list nullable => simp [stays, RefersTo, TypeExpr.target?]
  | configurator target => cases hasDefault <;> simp [stays, RefersTo, TypeExpr.target?]

/-- A member without some names is what is left of it. -/
theorem Member.leftOf_without (removed : List String) (member : Member) :
    Member.LeftOf (· ∈ removed) member (member.without removed) := by
  cases member with
  | property property => exact .property property
  | method method => exact .method (remains_filter (fun _ => Parameter.stays_iff) _)

/-- An abstraction without some names is what is left of it. -/
theorem Abstraction.leftOf_without (removed : List String) (abstraction : Abstraction) :
    Abstraction.LeftOf (· ∈ removed) abstraction (abstraction.without removed) where
  family := rfl
  name := rfl
  comments := rfl
  field := rfl
  supertypes := remains_filter (fun name => by simp) _
  members := by
    rw [without, List.forall₂_map_right_iff, List.forall₂_same]
    exact fun member _ => member.leftOf_without removed

/-- A pruned plan is what is left of it. -/
theorem NodePlan.leftOf_pruned (families : Layout.Families) (removed : List String)
    (plan : NodePlan) :
    NodePlan.LeftOf families (· ∈ removed) plan (plan.pruned families removed) where
  node := rfl
  kind := rfl
  abstractions := by
    rw [pruned, List.forall₂_map_right_iff, List.forall₂_same]
    exact fun abstraction _ => abstraction.leftOf_without removed

/-- Pruning leaves all plans, each without the unwanted abstractions and the references to their
names. -/
theorem leftOf_prune (families : Layout.Families) (plans : List NodePlan) :
    List.Forall₂ (NodePlan.LeftOf families (Unwanted families plans)) plans
      (prune families plans) := by
  have hgone : (· ∈ removedNames families plans) = Unwanted families plans := by
    funext name
    exact propext mem_removedNames_iff
  rw [← hgone, prune, List.forall₂_map_right_iff, List.forall₂_same]
  exact fun plan _ => plan.leftOf_pruned families _

/-! ## Nothing to take out -/

/-- Where no name goes, a member stays as it is. -/
theorem Member.without_nil (member : Member) : member.without [] = member := by
  cases member with
  | property => rfl
  | method it =>
    have hstays : ∀ parameter ∈ it.parameters, parameter.stays [] = true := by
      intro parameter _
      simp [Parameter.stays_iff]
    rw [without, List.filter_eq_self.mpr hstays]

/-- Where no name goes, an abstraction stays as it is. -/
theorem Abstraction.without_nil (abstraction : Abstraction) :
    abstraction.without [] = abstraction := by
  have hmembers : abstraction.members.map (Member.without []) = abstraction.members :=
    (List.map_congr_left fun member _ => member.without_nil).trans (List.map_id _)
  have hsupertypes : (abstraction.supertypes.filter fun name => !([] : List String).contains name) =
      abstraction.supertypes := List.filter_eq_self.mpr fun _ _ => rfl
  rw [without, hmembers, hsupertypes]

/-- A plan of which everything is wanted stays as it is. -/
theorem NodePlan.pruned_nil {families : Layout.Families} {plan : NodePlan}
    (h : ∀ abstraction ∈ plan.abstractions, abstraction.family.isEnabled families = true) :
    plan.pruned families [] = plan := by
  have hall : (plan.abstractions.filter (·.family.isEnabled families)).map
      (Abstraction.without []) = plan.abstractions := by
    rw [List.filter_eq_self.mpr h]
    exact (List.map_congr_left fun abstraction _ => abstraction.without_nil).trans (List.map_id _)
  rw [pruned, hall]

/-- If there is no name to look for, pruning changes nothing. -/
theorem prune_eq_self {families : Layout.Families} {plans : List NodePlan}
    (h : removedNames families plans = []) : prune families plans = plans := by
  have hwanted : ∀ plan ∈ plans, ∀ abstraction ∈ plan.abstractions,
      abstraction.family.isEnabled families = true := by
    intro plan hp abstraction ha
    cases hf : abstraction.family.isEnabled families with
    | true => rfl
    | false =>
      have hm := mem_removedNames_iff.mpr ⟨plan, hp, abstraction, ha, hf, rfl⟩
      rw [h] at hm
      cases hm
  rw [prune, h]
  exact (List.map_congr_left fun plan hp => NodePlan.pruned_nil (hwanted plan hp)).trans
    (List.map_id _)

/-! ## Pruning twice -/

/-- A family is wanted by both if each wants it. -/
theorem Family.isEnabled_both (family : Family) (s t : Layout.Families) :
    family.isEnabled (s.both t) = (family.isEnabled s && family.isEnabled t) := by
  cases family <;>
    simp [Family.isEnabled, Layout.Families.both, Bool.and_assoc, Bool.and_left_comm]

/-- What both want does not depend on the order. -/
theorem both_comm (s t : Layout.Families) : s.both t = t.both s := by
  simp [Layout.Families.both, Bool.and_comm]

/-- Families and themselves want the same. -/
theorem both_self (s : Layout.Families) : s.both s = s := by
  simp [Layout.Families.both]

section Twice

variable {first second all : List String}
  (h : ∀ name, name ∈ all ↔ name ∈ first ∨ name ∈ second)
include h

/-- A parameter stays if it stays both times. -/
theorem Parameter.stays_and (parameter : Parameter) :
    (parameter.stays second && parameter.stays first) = parameter.stays all := by
  rw [Bool.eq_iff_iff, Bool.and_eq_true, stays_iff, stays_iff, stays_iff, ← not_or]
  refine not_congr ?_
  simp only [h, and_or_left, exists_or]
  exact or_comm

/-- Names are taken out of a member one after the other. -/
theorem Member.without_without (member : Member) :
    (member.without first).without second = member.without all := by
  cases member with
  | property => rfl
  | method it => simp only [without, List.filter_filter, Parameter.stays_and h]

/-- Names are taken out of an abstraction one after the other. -/
theorem Abstraction.without_without (abstraction : Abstraction) :
    (abstraction.without first).without second = abstraction.without all := by
  have hstays : ∀ name, (!second.contains name && !first.contains name) = !all.contains name := by
    intro name
    rw [← Bool.not_or, Bool.or_comm, Bool.not_inj_iff, Bool.eq_iff_iff]
    simp [h]
  simp only [without, List.filter_filter, hstays, List.map_map, Function.comp_def,
    Member.without_without h]

/-- A plan is pruned once for the families that both want, if the names that go are those that go
either time. -/
theorem NodePlan.pruned_pruned (s t : Layout.Families) (plan : NodePlan) :
    (plan.pruned s first).pruned t second = plan.pruned (s.both t) all := by
  have hwanted : ∀ abstraction : Abstraction,
      ((abstraction.without first).family.isEnabled t && abstraction.family.isEnabled s) =
        abstraction.family.isEnabled (s.both t) := by
    intro abstraction
    rw [Family.isEnabled_both, Bool.and_comm]
    rfl
  simp only [pruned, List.filter_map, List.filter_filter, List.map_map, Function.comp_def,
    hwanted, Abstraction.without_without h]

end Twice

/-- What both do not want are the names that one does not want and those that the other does not
want of what is left. An abstraction that the first takes out no longer counts for the second, but
its name is gone by then. -/
theorem unwanted_both_iff {s t : Layout.Families} {plans : List NodePlan} {name : String} :
    Unwanted (s.both t) plans name ↔ Unwanted s plans name ∨ Unwanted t (prune s plans) name := by
  constructor
  · rintro ⟨plan, hp, abstraction, ha, hf, hn⟩
    rw [Family.isEnabled_both] at hf
    cases hs : abstraction.family.isEnabled s with
    | false => exact .inl ⟨plan, hp, abstraction, ha, hs, hn⟩
    | true =>
      rw [hs, Bool.true_and] at hf
      exact .inr ⟨_, List.mem_map_of_mem hp, _,
        List.mem_map_of_mem (List.mem_filter.mpr ⟨ha, hs⟩), hf, hn⟩
  · rintro (⟨plan, hp, abstraction, ha, hf, hn⟩ | ⟨left, hl, rest, hr, hf, hn⟩)
    · exact ⟨plan, hp, abstraction, ha, by rw [Family.isEnabled_both, hf, Bool.false_and], hn⟩
    · obtain ⟨plan, hp, rfl⟩ := List.mem_map.mp hl
      obtain ⟨abstraction, ha, rfl⟩ := List.mem_map.mp hr
      have hf : abstraction.family.isEnabled t = false := hf
      refine ⟨plan, hp, abstraction, (List.mem_filter.mp ha).1, ?_, hn⟩
      rw [Family.isEnabled_both, hf, Bool.and_false]

/-- Pruning twice is pruning once for the families that both want. -/
theorem prune_prune (s t : Layout.Families) (plans : List NodePlan) :
    prune t (prune s plans) = prune (s.both t) plans := by
  have hnames : ∀ name, name ∈ removedNames (s.both t) plans ↔
      name ∈ removedNames s plans ∨ name ∈ removedNames t (prune s plans) := by
    intro name
    simp only [mem_removedNames_iff]
    exact unwanted_both_iff
  calc prune t (prune s plans)
      = plans.map fun plan =>
          (plan.pruned s (removedNames s plans)).pruned t (removedNames t (prune s plans)) :=
        List.map_map
    _ = plans.map (NodePlan.pruned (s.both t) (removedNames (s.both t) plans)) :=
        List.map_congr_left fun plan _ => plan.pruned_pruned hnames s t

/-- The laws of pruning, for any plans and any families. Pruning for some families and then for
others is pruning once for those that both want; so doing it again changes nothing, and the order
does not matter. The nodes are left as they were, the abstractions and members that stay keep
their order, and nothing of them is missing but the references to names that an unwanted
abstraction has. -/
theorem prune_composes (s t : Layout.Families) (plans : List NodePlan) :
    prune t (prune s plans) = prune (s.both t) plans ∧
      prune s (prune s plans) = prune s plans ∧
      prune t (prune s plans) = prune s (prune t plans) ∧
      List.Forall₂ (NodePlan.LeftOf s (Unwanted s plans)) plans (prune s plans) := by
  refine ⟨prune_prune s t plans, ?_, ?_, leftOf_prune s plans⟩
  · rw [prune_prune, both_self]
  · rw [prune_prune, prune_prune, both_comm]

end QuerySurface.Plan
