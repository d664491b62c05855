import QuerySurface.Plan.Basic

/-!
# Pruning

Plans are derived with every family, and the families that are not wanted are taken out
afterwards. What refers to an abstraction that was taken out goes with it: supertypes, and
parameters that configure it and may be left out.
-/

namespace QuerySurface.Plan

/-- Names of the abstractions that are not wanted. -/
def removedNames (families : Layout.Families) (plans : List NodePlan) : List String :=
  (plans.flatMap NodePlan.abstractions).filterMap fun abstraction =>
    if abstraction.family.isEnabled families then none else some abstraction.name

/-- Whether a parameter stays: one that may be left out goes with the abstraction it configures. -/
def Parameter.stays (removed : List String) (parameter : Parameter) : Bool :=
  !(parameter.hasDefault && parameter.type.target?.any removed.contains)

/-- A member without the parameters that go. -/
def Member.without (removed : List String) : Member → Member
  | .property it => .property it
  | .method it => .method { it with parameters := it.parameters.filter (Parameter.stays removed) }

/-- An abstraction without references to what was taken out. -/
def Abstraction.without (removed : List String) (abstraction : Abstraction) : Abstraction :=
  { abstraction with
    supertypes := abstraction.supertypes.filter fun name => !removed.contains name
    members := abstraction.members.map (Member.without removed) }

/-- A plan with the wanted families only. -/
def NodePlan.pruned (families : Layout.Families) (removed : List String) (plan : NodePlan) :
    NodePlan :=
  { plan with
    abstractions :=
      (plan.abstractions.filter (·.family.isEnabled families)).map (Abstraction.without removed) }

/-- Plans with the wanted families only. -/
def prune (families : Layout.Families) (plans : List NodePlan) : List NodePlan :=
  plans.map (NodePlan.pruned families (removedNames families plans))

end QuerySurface.Plan
