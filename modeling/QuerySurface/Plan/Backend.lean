import QuerySurface.Plan.Derive

/-!
# Handing plans on

A backend takes plans in one by one and yields its output at the end. All plans are derived
before the first is handed on, and the first failure ends the run, so a failure never
leaves a part of the output.
-/

namespace QuerySurface.Plan

/-- Something that takes plans in. -/
structure Backend (σ β : Type) where
  /-- What it knows before the first plan. -/
  initial : σ
  /-- Takes a plan in. -/
  emit : σ → NodePlan → Outcome σ
  /-- The output. -/
  finish : σ → β

namespace Backend

variable {σ β : Type}

/-- Takes plans in, in order. -/
def emitAll (backend : Backend σ β) (state : σ) : List NodePlan → Outcome σ
  | [] => .ok state
  | plan :: rest => do
    let state ← backend.emit state plan
    backend.emitAll state rest

/-- Generates the plans of a graph and hands all of them on. -/
def build (backend : Backend σ β) (graph : Schema.Graph) (layout : Layout) : Outcome β := do
  let plans ← generate graph layout
  let state ← backend.emitAll backend.initial plans
  return backend.finish state

end Backend

end QuerySurface.Plan
