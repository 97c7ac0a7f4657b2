import DynamicObjects.Script.Evaluation

/-!
# Sessions

The interpreter comes back to itself a bounded number of times in one another; a session runs steps one after the other
on one world and reports on each.
-/
namespace DynamicObjects.Script

/-- The host in which expressions nest `depth` deep at most. -/
def hostOfDepth : Nat → Host
  | 0 => ⟨fun _ _ => Action.exhausted, fun _ _ _ _ => Action.exhausted, fun _ _ _ => Action.exhausted⟩
  | depth + 1 => {
      eval := fun surroundings e => evaluate (hostOfDepth depth) surroundings e
      call := fun h name args mods => Invocation.call (hostOfDepth depth) h name args mods
      run := fun frame method mods => Invocation.run (hostOfDepth depth) frame method mods }

/-- What a step led to, and what it logged. -/
structure Report where
  outcome : Except Failure Observation
  journal : List Observation

/-- How deep the expressions of a session may nest. -/
def sessionDepth : Nat := 1000000

/-- Runs one step. No report if it needs more depth than there is. -/
def runStep (w : World) (step : Expr) : Option (Report × World) := do
  let (outcome, w) ← (evaluate (hostOfDepth sessionDepth) .none step).run { w with journal := [] }
  return (⟨outcome.map (observe w), w.journal.reverse⟩, w)

/-- Runs steps from a world, up to the first that needs too much depth. -/
def runFrom (w : World) : List Expr → List Report
  | [] => []
  | step :: rest =>
    match runStep w step with
    | some (report, w) => report :: runFrom w rest
    | none => []

/-- Runs steps in a new world. -/
def run (settings : Settings) (steps : List Expr) : List Report :=
  runFrom { settings } steps

end DynamicObjects.Script
