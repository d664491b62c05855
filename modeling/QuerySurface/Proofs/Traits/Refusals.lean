import QuerySurface.Proofs.Traits.Emission
import Mathlib.Data.List.Induction

/-!
# Emissions that are refused

An emission works on a state: it looks whether the module of the plan is free, then adds the file,
then the module. A failure gives up in the middle of this and leaves the state as it stands there.
Here the steps are taken one by one and shown to come to what an emission yields: a failure leaves
what it found. So plans can be emitted one after the other without regard to failures. Refused are
those whose module an accepted one has, and in the end there is what the accepted plans alone
yield.
-/

namespace QuerySurface.Traits.Emitted

open Plan (NodePlan)
open Layout (Scalars)

/-! ## One emission -/

/-- An emission, step by step, on what was emitted so far. A failure keeps the state in which it
occurs. -/
def emission (scalars : Scalars) (plan : NodePlan) : ExceptT Failure (StateM Emitted) Unit := do
  if plan.isEmpty then return ()
  if (← get).modules.contains (moduleOf plan) then throw (taken plan)
  modify fun emitted => { emitted with files := emitted.files ++ [fileOf scalars plan] }
  modify fun emitted => { emitted with modules := emitted.modules ++ [moduleOf plan] }

/-- The outcome of an emission, and what is emitted then. -/
def attempt (scalars : Scalars) (emitted : Emitted) (plan : NodePlan) : Outcome Unit × Emitted :=
  (emission scalars plan).run.run emitted

/-- Plans emitted one after the other without regard to failures: the outcomes, and what is emitted
in the end. -/
def attempts (scalars : Scalars) (emitted : Emitted) (plans : List NodePlan) :
    List (Outcome Unit) × Emitted :=
  (plans.mapM fun plan => (emission scalars plan).run).run emitted

/-- The plans with abstractions among those whose outcome is no failure. -/
def accepted (plans : List NodePlan) (outcomes : List (Outcome Unit)) : List NodePlan :=
  ((plans.zip outcomes).filter fun entry => !entry.1.isEmpty && entry.2.isOk).map Prod.fst

variable (scalars : Scalars)

/-- An emission that is attempted comes to what an emission yields, or to what was there before if
that is a failure. -/
theorem attempt_eq (emitted : Emitted) (plan : NodePlan) :
    attempt scalars emitted plan =
      match emit scalars emitted plan with
      | .ok next => (.ok (), next)
      | .error failure => (.error failure, emitted) := by
  rw [attempt, emission, emit]
  cases hempty : plan.isEmpty with
  | true => rfl
  | false =>
    rw [if_neg Bool.false_ne_true, if_neg Bool.false_ne_true]
    -- The state is read first, and what follows depends on what it says about the module.
    change StateT.run (ExceptT.run (if emitted.modules.contains (moduleOf plan) then _ else _))
      emitted = _
    cases htaken : emitted.modules.contains (moduleOf plan) with
    | true => rfl
    | false => rfl

/-- A plan without abstractions leaves what was emitted. -/
theorem attempt_of_isEmpty {plan : NodePlan} (h : plan.isEmpty = true) (emitted : Emitted) :
    attempt scalars emitted plan = (.ok (), emitted) := by
  rw [attempt_eq, emit_of_isEmpty scalars h]

/-- Behind plans that have their files, a plan with abstractions is refused exactly if its module is
taken, and has its file otherwise. -/
theorem attempt_ofPlans {plan : NodePlan} (h : plan.isEmpty = false) (before : List NodePlan) :
    attempt scalars (ofPlans scalars before) plan =
      if moduleOf plan ∈ modulesOf before then (.error (taken plan), ofPlans scalars before)
      else (.ok (), ofPlans scalars (before ++ [plan])) := by
  rw [attempt_eq, emit_ofPlans scalars h]
  by_cases hm : moduleOf plan ∈ modulesOf before
  · rw [if_pos hm, if_pos hm]
  · rw [if_neg hm, if_neg hm]

/-! ## One emission after another -/

/-- What is emitted behind other plans starts with what these have left. -/
theorem attempts_append (emitted : Emitted) (front back : List NodePlan) :
    attempts scalars emitted (front ++ back) =
      ((attempts scalars emitted front).1 ++
          (attempts scalars (attempts scalars emitted front).2 back).1,
        (attempts scalars (attempts scalars emitted front).2 back).2) := by
  rw [attempts, List.mapM_append]
  rfl

/-- The first of some plans is emitted before the others. -/
theorem attempts_cons (emitted : Emitted) (plan : NodePlan) (rest : List NodePlan) :
    attempts scalars emitted (plan :: rest) =
      ((attempt scalars emitted plan).1 ::
          (attempts scalars (attempt scalars emitted plan).2 rest).1,
        (attempts scalars (attempt scalars emitted plan).2 rest).2) := by
  rw [attempts, List.mapM_cons]
  rfl

/-- One more plan is emitted behind the others. -/
theorem attempts_concat (emitted : Emitted) (plans : List NodePlan) (plan : NodePlan) :
    attempts scalars emitted (plans ++ [plan]) =
      ((attempts scalars emitted plans).1 ++
          [(attempt scalars (attempts scalars emitted plans).2 plan).1],
        (attempt scalars (attempts scalars emitted plans).2 plan).2) := by
  rw [attempts_append, attempts_cons]
  rfl

/-- There is one outcome for each plan. -/
theorem length_attempts (emitted : Emitted) (plans : List NodePlan) :
    (attempts scalars emitted plans).1.length = plans.length := by
  induction plans generalizing emitted with
  | nil => rfl
  | cons plan rest ih => rw [attempts_cons, List.length_cons, List.length_cons, ih]

/-- The outcome of a plan is that of its emission behind the plans in front of it, whose outcomes
stand in front of it too. -/
theorem outcome_attempts (emitted : Emitted) {plans : List NodePlan} {i : Nat} {plan : NodePlan}
    (h : plans[i]? = some plan) :
    (attempts scalars emitted plans).1.take i = (attempts scalars emitted (plans.take i)).1 ∧
      (attempts scalars emitted plans).1[i]? =
        some (attempt scalars (attempts scalars emitted (plans.take i)).2 plan).1 := by
  obtain ⟨hi, hplan⟩ := List.getElem?_eq_some_iff.mp h
  have hsplit : plans.take i ++ plan :: plans.drop (i + 1) = plans := by
    rw [← hplan, ← List.drop_eq_getElem_cons hi, List.take_append_drop]
  have hrun := attempts_append scalars emitted (plans.take i) (plan :: plans.drop (i + 1))
  rw [hsplit, attempts_cons] at hrun
  have hlength : (attempts scalars emitted (plans.take i)).1.length = i := by
    rw [length_attempts, List.length_take]
    omega
  rw [hrun]
  constructor
  · exact List.take_left' hlength
  · rw [List.getElem?_append_right (by omega), hlength, Nat.sub_self]
    rfl

/-- One more plan is accepted if it has abstractions and does not fail. -/
theorem accepted_concat {plans : List NodePlan} {outcomes : List (Outcome Unit)}
    (h : outcomes.length = plans.length) (plan : NodePlan) (outcome : Outcome Unit) :
    accepted (plans ++ [plan]) (outcomes ++ [outcome]) =
      accepted plans outcomes ++ if !plan.isEmpty && outcome.isOk then [plan] else [] := by
  rw [accepted, List.zip_append h.symm, List.filter_append, List.map_append, ← accepted]
  cases hkept : !plan.isEmpty && outcome.isOk <;> simp [hkept]

/-- In the end the accepted plans have their files, and different modules. -/
theorem attempts_accepted (plans : List NodePlan) :
    (attempts scalars none plans).2 =
        ofPlans scalars (accepted plans (attempts scalars none plans).1) ∧
      (modulesOf (accepted plans (attempts scalars none plans).1)).Nodup := by
  induction plans using List.reverseRecOn with
  | nil => exact ⟨rfl, List.nodup_nil⟩
  | append_singleton plans plan ih =>
    obtain ⟨hstate, hnodup⟩ := ih
    have hlength := length_attempts scalars none plans
    rw [attempts_concat, accepted_concat hlength, hstate]
    cases hempty : plan.isEmpty with
    | true =>
      rw [attempt_of_isEmpty scalars hempty]
      simpa using hnodup
    | false =>
      rw [attempt_ofPlans scalars hempty]
      by_cases hm : moduleOf plan ∈ modulesOf (accepted plans (attempts scalars none plans).1)
      · rw [if_pos hm]
        simpa [Except.isOk, Except.toBool] using hnodup
      · rw [if_neg hm]
        exact ⟨rfl, nodup_modulesOf_concat hnodup hm⟩

/-- Plans with abstractions and different modules are all accepted. -/
theorem attempts_of_nodup {plans : List NodePlan} (he : ∀ plan ∈ plans, plan.isEmpty = false)
    (hn : (modulesOf plans).Nodup) :
    attempts scalars none plans =
      (List.replicate plans.length (.ok ()), ofPlans scalars plans) := by
  induction plans using List.reverseRecOn with
  | nil => rfl
  | append_singleton plans plan ih =>
    have hm : moduleOf plan ∉ modulesOf plans := by
      intro hm
      have hrepeats : ¬(modulesOf (plans ++ plan :: [])).Nodup := not_nodup_of_mem hm
      exact hrepeats hn
    rw [List.forall_mem_append, List.forall_mem_singleton] at he
    rw [modulesOf, List.map_append] at hn
    rw [attempts_concat, ih he.1 hn.of_append_left, attempt_ofPlans scalars he.2, if_neg hm,
      List.length_append, List.length_singleton, List.replicate_succ']

/-- What is accepted has abstractions. -/
theorem isEmpty_of_mem_accepted {plans : List NodePlan} {outcomes : List (Outcome Unit)}
    {plan : NodePlan} (h : plan ∈ accepted plans outcomes) : plan.isEmpty = false := by
  obtain ⟨⟨_, outcome⟩, hentry, rfl⟩ := List.mem_map.mp h
  have hkept := (List.mem_filter.mp hentry).2
  simpa using (Bool.and_eq_true_iff.mp hkept).1

/-! ## What has become of some plans -/

/-- What has become of plans that were emitted without regard to failures. -/
structure Settled (plans : List NodePlan) (outcomes : List (Outcome Unit)) (emitted : Emitted) :
    Prop where
  /-- Every plan has an outcome. -/
  length : outcomes.length = plans.length
  /-- A plan that fails does so because its module is taken. -/
  failure : ∀ (i : Nat) (plan : NodePlan), plans[i]? = some plan →
    outcomes[i]? = some (Except.ok ()) ∨ outcomes[i]? = some (Except.error (taken plan))
  /-- A plan fails exactly if it has abstractions and an earlier plan of its module was accepted. -/
  refused : ∀ (i : Nat) (plan : NodePlan), plans[i]? = some plan →
    (outcomes[i]? = some (Except.error (taken plan)) ↔
      plan.isEmpty = false ∧ ∃ other ∈ accepted (plans.take i) (outcomes.take i),
        snakeCase other.node = snakeCase plan.node)
  /-- Accepted plans have different modules. -/
  apart : ((accepted plans outcomes).map fun plan => snakeCase plan.node).Nodup
  /-- There is one file for every accepted plan, in order, and then the root. -/
  files : finish emitted =
    (accepted plans outcomes).map (fun plan =>
        ⟨snakeCase plan.node ++ ".rs", render scalars plan⟩) ++
      [rootFile ((accepted plans outcomes).map fun plan => snakeCase plan.node)]
  /-- The root stands at `mod.rs` and is that of the modules of the accepted plans, in order. -/
  root : IsRootFile ((accepted plans outcomes).map fun plan => snakeCase plan.node)
    (rootFile ((accepted plans outcomes).map fun plan => snakeCase plan.node))
  /-- The accepted plans alone yield the same, and none of them fails. -/
  alone : attempts scalars none (accepted plans outcomes) =
    (List.replicate (accepted plans outcomes).length (Except.ok ()), emitted)

/-- A plan is refused behind others exactly if it has abstractions and its module is that of an
accepted one. -/
theorem refused_or_not {plans : List NodePlan} {i : Nat} {plan : NodePlan}
    (h : plans[i]? = some plan) {outcomes : List (Outcome Unit)}
    (ho : outcomes = (attempts scalars none plans).1) :
    let refused := plan.isEmpty = false ∧
      moduleOf plan ∈ modulesOf (accepted (plans.take i) (outcomes.take i))
    (refused ∧ outcomes[i]? = some (.error (taken plan))) ∨
      (¬refused ∧ outcomes[i]? = some (.ok ())) := by
  obtain ⟨htake, houtcome⟩ := outcome_attempts scalars none h
  obtain ⟨hstate, -⟩ := attempts_accepted scalars (plans.take i)
  rw [hstate] at houtcome
  rw [ho, htake, houtcome]
  cases hempty : plan.isEmpty with
  | true =>
    rw [attempt_of_isEmpty scalars hempty]
    exact .inr ⟨fun hrefused => Bool.noConfusion hrefused.1, rfl⟩
  | false =>
    rw [attempt_ofPlans scalars hempty]
    split
    case isTrue hm => exact .inl ⟨⟨rfl, hm⟩, rfl⟩
    case isFalse hm => exact .inr ⟨fun hrefused => hm hrefused.2, rfl⟩

/-- Failed emissions leave what was emitted. An emission, taken step by step, leaves what it found
if the plan has no abstractions or if it fails, and otherwise comes to what an emission yields.
Of plans that are emitted without regard to failures, refused are exactly those with abstractions
whose module an earlier accepted one has, and what is emitted in the end is what the accepted ones
yield alone: a file for each, in order, under different modules, and then the root at `mod.rs`,
which declares and re-exports these modules. -/
theorem settled_attempts (plans : List NodePlan) :
    (∀ emitted plan,
      (plan.isEmpty = true → attempt scalars emitted plan = (.ok (), emitted)) ∧
        (∀ failure, emit scalars emitted plan = .error failure →
          attempt scalars emitted plan = (.error failure, emitted)) ∧
        ∀ next, emit scalars emitted plan = .ok next →
          attempt scalars emitted plan = (.ok (), next)) ∧
      Settled scalars plans (attempts scalars none plans).1 (attempts scalars none plans).2 := by
  constructor
  · intro emitted plan
    refine ⟨fun hempty => attempt_of_isEmpty scalars hempty emitted, ?_, ?_⟩
    · intro failure he
      rw [attempt_eq, he]
    · intro next he
      rw [attempt_eq, he]
  · obtain ⟨hstate, hnodup⟩ := attempts_accepted scalars plans
    have hmodules (plan : NodePlan) (others : List NodePlan) :
        moduleOf plan ∈ modulesOf others ↔
          ∃ other ∈ others, snakeCase other.node = snakeCase plan.node :=
      List.mem_map
    refine
      { length := length_attempts scalars none plans
        failure := ?_
        refused := ?_
        apart := hnodup
        files := by rw [hstate, finish_ofPlans]; rfl
        root := isRootFile_rootFile _
        alone := ?_ }
    · intro i plan h
      rcases refused_or_not scalars h rfl with ⟨-, ho⟩ | ⟨-, ho⟩
      · exact .inr ho
      · exact .inl ho
    · intro i plan h
      rw [← hmodules]
      rcases refused_or_not scalars h rfl with ⟨hrefused, ho⟩ | ⟨hrefused, ho⟩
      · exact iff_of_true ho hrefused
      · refine iff_of_false ?_ hrefused
        rw [ho]
        simp
    · rw [hstate]
      exact attempts_of_nodup scalars (fun plan => isEmpty_of_mem_accepted) hnodup

end QuerySurface.Traits.Emitted
