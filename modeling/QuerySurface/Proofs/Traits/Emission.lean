import QuerySurface.Proofs.Layout.Accepted
import QuerySurface.Proofs.Plan.Derived
import QuerySurface.Traits.Emitter
import Mathlib.Data.List.Forall2
import Mathlib.Data.List.Nodup

/-!
# What an emission yields

Plans are emitted one after the other, and what was emitted so far decides whether the next one
finds its module free. Said without that state: among the plans that have abstractions, either
no two have one module, and then every one of them has its file, in order, before the root; or
there is a first one whose module an earlier one has, and the emission fails with it. From a
graph and a layout the outcome of the whole build follows, since deriving plans never fails.
-/

namespace QuerySurface.Traits

open Plan (NodePlan Engine prune generate)
open Schema (Graph)
open Files (TextFile)
open Layout (Scalars)

/-- The plans that have a file: those with abstractions. -/
def written (plans : List NodePlan) : List NodePlan :=
  plans.filter (!·.isEmpty)

namespace Emitted

/-- The module names of some plans. -/
def modulesOf (plans : List NodePlan) : List String :=
  plans.map moduleOf

/-- Among some plans this one is the first whose module an earlier one has. -/
def FirstTaken (plans : List NodePlan) (plan : NodePlan) : Prop :=
  ∃ front back, plans = front ++ plan :: back ∧ (modulesOf front).Nodup ∧
    moduleOf plan ∈ modulesOf front

/-- The failure of a plan whose module is taken. -/
def taken (plan : NodePlan) : Failure :=
  .generation plan.node ("module name '" ++ moduleOf plan ++ "' is already taken by another node")

/-- The files of some plans, the root last. -/
def filesOf (scalars : Scalars) (plans : List NodePlan) : List TextFile :=
  plans.map (fun plan => ⟨snakeCase plan.node ++ ".rs", render scalars plan⟩) ++
    [rootFile (modulesOf plans)]

/-- What is known when some plans have their files. -/
def ofPlans (scalars : Scalars) (plans : List NodePlan) : Emitted :=
  ⟨plans.map (fileOf scalars), modulesOf plans⟩

/-! ## Modules that are taken -/

/-- A plan whose module an earlier one has repeats it. -/
theorem not_nodup_of_mem {front back : List NodePlan} {plan : NodePlan}
    (h : moduleOf plan ∈ modulesOf front) : ¬(modulesOf (front ++ plan :: back)).Nodup := by
  intro hn
  rw [modulesOf, List.map_append, List.nodup_append] at hn
  exact hn.2.2 _ h (moduleOf plan) (List.mem_map_of_mem (List.mem_cons_self ..)) rfl

/-- One more plan with a module of its own keeps modules different. -/
theorem nodup_modulesOf_concat {plans : List NodePlan} {plan : NodePlan}
    (h : (modulesOf plans).Nodup) (hm : moduleOf plan ∉ modulesOf plans) :
    (modulesOf (plans ++ [plan])).Nodup := by
  rw [modulesOf, List.map_append]
  exact h.append (List.nodup_singleton _) (by simpa using hm)

/-- Where modules are different none is taken. -/
theorem not_nodup_of_firstTaken {plans : List NodePlan} {plan : NodePlan}
    (h : FirstTaken plans plan) : ¬(modulesOf plans).Nodup := by
  obtain ⟨front, back, rfl, -, hm⟩ := h
  exact not_nodup_of_mem hm

/-- Only one plan is the first. -/
theorem FirstTaken.unique {plans : List NodePlan} {plan other : NodePlan}
    (h : FirstTaken plans plan) (ho : FirstTaken plans other) : plan = other := by
  obtain ⟨front, back, rfl, hn, hm⟩ := h
  obtain ⟨front', back', he, hn', hm'⟩ := ho
  -- Were one of them in front of the other, the plans before the latter would repeat a module.
  rcases List.append_eq_append_iff.mp he with ⟨between, hf, hb⟩ | ⟨between, hf, hb⟩
  · cases between with
    | nil => exact (List.cons.inj hb).1
    | cons head more =>
      obtain ⟨rfl, -⟩ := List.cons.inj hb
      rw [hf] at hn'
      exact absurd hn' (not_nodup_of_mem hm)
  · cases between with
    | nil => exact (List.cons.inj hb).1.symm
    | cons head more =>
      obtain ⟨rfl, -⟩ := List.cons.inj hb
      rw [hf] at hn
      exact absurd hn (not_nodup_of_mem hm')

/-! ## One plan, and all plans -/

variable (scalars : Scalars)

/-- A plan without abstractions changes nothing. -/
theorem emit_of_isEmpty {plan : NodePlan} (h : plan.isEmpty = true) (emitted : Emitted) :
    emit scalars emitted plan = .ok emitted := by
  rw [emit, if_pos h]

/-- A plan with abstractions gets its file unless its module is taken. -/
theorem emit_ofPlans {plan : NodePlan} (h : plan.isEmpty = false) (before : List NodePlan) :
    emit scalars (ofPlans scalars before) plan =
      if moduleOf plan ∈ modulesOf before then .error (taken plan)
      else .ok (ofPlans scalars (before ++ [plan])) := by
  simp [emit, h, ofPlans, modulesOf, taken]

/-- What remains to be written behind an empty plan. -/
theorem written_cons_of_isEmpty {plan : NodePlan} (h : plan.isEmpty = true)
    (rest : List NodePlan) : written (plan :: rest) = written rest := by
  simp [written, h]

/-- What remains to be written behind a plan with abstractions. -/
theorem written_cons_of_not_isEmpty {plan : NodePlan} (h : plan.isEmpty = false)
    (rest : List NodePlan) : written (plan :: rest) = plan :: written rest := by
  simp [written, h]

/-- Emitting plans behind some that have their files: the first one whose module is taken ends it,
and if there is none all of them get their files. -/
theorem emitAll_ofPlans (plans before : List NodePlan) (hb : (modulesOf before).Nodup) :
    (∃ plan, FirstTaken (before ++ written plans) plan ∧
        (backend scalars).emitAll (ofPlans scalars before) plans = .error (taken plan)) ∨
      ((modulesOf (before ++ written plans)).Nodup ∧
        (backend scalars).emitAll (ofPlans scalars before) plans =
          .ok (ofPlans scalars (before ++ written plans))) := by
  induction plans generalizing before with
  | nil =>
    right
    rw [written, List.filter_nil, List.append_nil]
    exact ⟨hb, rfl⟩
  | cons plan rest ih =>
    have hrun : (backend scalars).emitAll (ofPlans scalars before) (plan :: rest) =
        emit scalars (ofPlans scalars before) plan >>= fun emitted =>
          (backend scalars).emitAll emitted rest := rfl
    rw [hrun]
    cases he : plan.isEmpty with
    | true =>
      rw [emit_of_isEmpty scalars he, written_cons_of_isEmpty he]
      exact ih before hb
    | false =>
      rw [emit_ofPlans scalars he, written_cons_of_not_isEmpty he]
      by_cases hm : moduleOf plan ∈ modulesOf before
      · rw [if_pos hm]
        exact .inl ⟨plan, ⟨before, written rest, rfl, hb, hm⟩, rfl⟩
      · rw [if_neg hm]
        have hrest := ih (before ++ [plan]) (nodup_modulesOf_concat hb hm)
        rwa [List.append_assoc, List.singleton_append] at hrest

/-- All plans are emitted exactly if those with abstractions have different modules. -/
theorem emitAll_eq_ok_iff {plans : List NodePlan} {emitted : Emitted} :
    (backend scalars).emitAll (backend scalars).initial plans = .ok emitted ↔
      (modulesOf (written plans)).Nodup ∧ emitted = ofPlans scalars (written plans) := by
  have hrun := emitAll_ofPlans scalars plans [] List.nodup_nil
  rw [List.nil_append] at hrun
  have hinitial : (backend scalars).initial = ofPlans scalars [] := rfl
  rw [hinitial]
  rcases hrun with ⟨plan, hf, he⟩ | ⟨hn, he⟩
  · rw [he]
    constructor
    · intro h
      cases h
    · rintro ⟨hn, -⟩
      exact absurd hn (not_nodup_of_firstTaken hf)
  · rw [he]
    constructor
    · intro h
      exact ⟨hn, (Except.ok.inj h).symm⟩
    · rintro ⟨-, rfl⟩
      rfl

/-- The files of plans that have been emitted. -/
theorem finish_ofPlans (plans : List NodePlan) :
    finish (ofPlans scalars plans) = filesOf scalars plans :=
  rfl

/-! ## The root -/

/-- The text of the line that declares a module. -/
def declaration (name : String) : String :=
  "mod " ++ escapeKeyword name ++ ";"

/-- The text of the line that re-exports what a module holds. -/
def reexport (name : String) : String :=
  "pub use " ++ escapeKeyword name ++ "::*;"

/-- The text of a line that declares and re-exports nothing: it is empty, or starts as a comment, as
an attribute or as an import, and it is one line. -/
def IsAside (text : String) : Prop :=
  (text = "" ∨ ∃ start ∈ ["//", "#", "use "], start.toList <+: text.toList) ∧ '\n' ∉ text.toList

/-- A file is the root of some modules: it stands at `mod.rs`, and holds lines that declare these
modules and then re-export them, both in order, and that declare and re-export nothing else. -/
structure IsRootFile (modules : List String) (file : TextFile) : Prop where
  /-- It stands where the compiler looks for the root of a directory. -/
  path : file.path = "mod.rs"
  /-- Its text is these lines, each of them ended. -/
  contents : ∃ opening gap : List String,
    file.contents =
        String.join ((opening ++ modules.map declaration ++ gap ++ modules.map reexport).map
          (· ++ "\n")) ∧
      ∀ text ∈ opening ++ gap, IsAside text

/-- The lines of a root, with what stands around the lines about its modules. -/
theorem rootLines_eq (modules : List String) :
    rootLines modules = rootLines [] ++ modules.map (fun name => Line.code (declaration name)) ++
      (if modules.isEmpty then [] else [.code ""]) ++
        modules.map fun name => Line.code (reexport name) :=
  rfl

/-- The root of some modules is their root. -/
theorem isRootFile_rootFile (modules : List String) : IsRootFile modules (rootFile modules) where
  path := rfl
  contents := by
    have hopening : ∀ text ∈ (rootLines []).map Line.text, IsAside text := by
      unfold IsAside
      decide
    have hempty : IsAside "" := ⟨.inl rfl, by decide⟩
    let gap : List Line := if modules.isEmpty then [] else [.code ""]
    refine ⟨(rootLines []).map Line.text, gap.map Line.text, ?_, ?_⟩
    · rw [rootFile, sourceText, rootLines_eq]
      simp only [List.map_append, List.map_map]
      rfl
    · intro text ht
      rcases List.mem_append.mp ht with ho | hg
      · exact hopening text ho
      · cases modules with
        | nil => cases hg
        | cons => exact List.mem_singleton.mp hg ▸ hempty

end Emitted

/-! ## The outcome of a build -/

open Emitted

/-- What a build yields from the plans that the layout wants. -/
inductive Built (layout : Layout) (plans : List NodePlan) : Outcome (List TextFile) → Prop where
  /-- A layout that does not pass its check is refused with the message of the check. -/
  | refused {message : String} (refused : layout.check = .error (.configuration message)) :
      Built layout plans (.error (.configuration message))
  /-- The first plan whose module an earlier one has is a failure. -/
  | taken {plan : NodePlan} (accepted : layout.check = .ok ())
      (first : FirstTaken (written plans) plan) : Built layout plans (.error (taken plan))
  /-- If there is none, every plan with abstractions has its file, in order, and the root of their
  modules follows. -/
  | complete (accepted : layout.check = .ok ()) (apart : (modulesOf (written plans)).Nodup) :
      Built layout plans (.ok (filesOf layout.scalars (written plans)))

/-- A build has one outcome. -/
theorem Built.unique {layout : Layout} {plans : List NodePlan}
    {outcome other : Outcome (List TextFile)} (h : Built layout plans outcome)
    (ho : Built layout plans other) : outcome = other := by
  cases h with
  | refused hr =>
    cases ho with
    | refused hr' => rw [← Except.error.inj (hr.symm.trans hr')]
    | taken ha _ => simp [ha] at hr
    | complete ha _ => simp [ha] at hr
  | taken ha hf =>
    cases ho with
    | refused hr => simp [ha] at hr
    | taken _ hf' => rw [hf.unique hf']
    | complete _ hn => exact absurd hn (not_nodup_of_firstTaken hf)
  | complete ha hn =>
    cases ho with
    | refused hr => simp [ha] at hr
    | taken _ hf => exact absurd hn (not_nodup_of_firstTaken hf)
    | complete _ _ => rfl

/-- A build has an outcome that its layout and its plans decide. -/
theorem built_build (graph : Graph) (layout : Layout) :
    Built layout (Plan.wantedPlans graph layout) ((backend layout.scalars).build graph layout) := by
  have hbuild : (backend layout.scalars).build graph layout =
      generate graph layout >>= fun plans =>
        (backend layout.scalars).emitAll (ofPlans layout.scalars []) plans >>= fun emitted =>
          .ok (finish emitted) := rfl
  rw [hbuild]
  cases hc : layout.check with
  | error failure =>
    obtain ⟨message, rfl⟩ := Layout.refuses_check layout failure hc
    have hg : generate graph layout = .error (.configuration message) := by
      rw [generate, hc]
      rfl
    rw [hg]
    exact .refused hc
  | ok _ =>
    rw [Plan.generate_eq hc]
    have hrun := emitAll_ofPlans layout.scalars (Plan.wantedPlans graph layout) [] List.nodup_nil
    rw [List.nil_append] at hrun
    rcases hrun with ⟨plan, hf, he⟩ | ⟨hn, he⟩
    · have hfail := Built.taken hc hf
      change Built _ _ ((backend layout.scalars).emitAll (ofPlans layout.scalars []) _ >>= _)
      rw [he]
      exact hfail
    · have hdone := Built.complete hc hn
      change Built _ _ ((backend layout.scalars).emitAll (ofPlans layout.scalars []) _ >>= _)
      rw [he]
      exact hdone

/-- The outcome of a build, for any graph and any layout. Deriving never fails and yields a plan for
every node, in order. With the families of the layout pruned, a refused layout is the message of
its check; else the first plan with abstractions whose module an earlier one has is a failure,
and nothing is written; else there is one file for every plan with abstractions, in order, and
then the root at `mod.rs`, whose lines declare and then re-export exactly the modules of these
files, in order. -/
theorem build_eq_iff_built (graph : Graph) (layout : Layout) :
    ∃ derived, (Engine.mk graph layout).plans = .ok derived ∧
      List.Forall₂ (fun node (plan : NodePlan) => plan.node = node.name ∧ plan.kind = node.kind)
        graph.nodes derived ∧
      (∀ outcome, (backend layout.scalars).build graph layout = outcome ↔
        Built layout (prune layout.families derived) outcome) ∧
      ∀ modules, IsRootFile modules (rootFile modules) := by
  refine ⟨graph.nodes.map (Engine.mk graph layout).derived, Engine.plansOf_eq _ _, ?_, ?_,
    isRootFile_rootFile⟩
  · rw [List.forall₂_map_right_iff, List.forall₂_same]
    exact fun node _ => ⟨rfl, rfl⟩
  · intro outcome
    have hb := built_build graph layout
    constructor
    · rintro rfl
      exact hb
    · intro ho
      exact hb.unique ho

end QuerySurface.Traits
