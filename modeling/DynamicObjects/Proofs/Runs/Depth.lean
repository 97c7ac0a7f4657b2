import DynamicObjects.Proofs.Runs.Asking

/-!
# How many calls are open

A call is refused where as many frames are open as the limit says. Next calls and ensembles that keep the caller's self
open frames without looking at the limit, and guards do; apart from these, no more frames are open than the limit says.
-/
namespace DynamicObjects

open Invocation

variable {good : Objects → Prop} {limit extra : Nat} {task sub : Task} {v w : World}

/-! ## Frames that no call opened -/

/-- Whether a task opens a frame for another task than a call: for a next call, or for an ensemble on behalf of its
caller. -/
def Task.passesOn : Task → Task → Bool
  | .call .., _ => false
  | .eval .., .run .. | .run .., .run .. => true
  | .eval .., _ | .run .., _ => false

/-- The tasks that sessions come to while the limit stays as it is, with the number of frames around them that were
opened otherwise than by calls. -/
inductive EnteredUnder (good : Objects → Prop) (limit : Nat) : Nat → Task → World → Prop
  /-- A step of a session. -/
  | step {w : World} (session : Session good w) (stands : w.settings.maxDepth = limit) (e : Expr) :
    EnteredUnder good limit 0 (.eval .none e) w
  /-- A task that another task comes to. -/
  | sub {depth extra : Nat} {task sub : Task} {w v : World} (entered : EnteredUnder good limit extra task w)
      (begins : good w.objects) (asks : AsksFor (hostWithin good depth).failing task w sub v)
      (stands : v.settings.maxDepth = limit) : EnteredUnder good limit (extra + (task.passesOn sub).toNat) sub v

namespace EnteredUnder

theorem entered (entered : EnteredUnder good limit extra task w) : Entered good task w := by
  induction entered with
  | step session _ e => exact .step session e
  | sub _ begins asks _ ih => exact .sub ih begins asks

theorem stands (entered : EnteredUnder good limit extra task w) : w.settings.maxDepth = limit := by
  cases entered with
  | step _ stands => exact stands
  | sub _ _ _ stands => exact stands

end EnteredUnder

/-! ## Calls at the limit -/

/-- At the limit a call fails at once. -/
theorem exec_call_of_limit (full : w.settings.maxDepth ≤ w.stack.depth) (host : Host) (h : Handle) (name : String)
    (args : List Value) (mods : CallModifiers) :
    (call host h name args mods).exec w = some (.error (.recursion w.settings.maxDepth), w) := by
  unfold call
  rw [Action.exec_bind_of_ok (Action.exec_get w), if_pos full]
  rfl

/-- What a call asks for, it asks for below the limit. -/
theorem AsksFor.below {host : Host} {h : Handle} {name : String} {args : List Value} {mods : CallModifiers}
    (asks : AsksFor host (.call h name args mods) w sub v) : w.stack.depth < w.settings.maxDepth := by
  by_contra full
  obtain ⟨other, -, differs⟩ := asks
  have refused := exec_call_of_limit (Nat.not_lt.1 full)
  exact differs ((refused other ..).trans (refused host ..).symm)

/-! ## Open frames -/

/-- A frame is opened for a call below the limit, or is one more that no call opened. -/
theorem EnteredUnder.calls_le (remain : ∀ a, good a → a.HandlesRemain) (entered : EnteredUnder good limit extra task w) :
    (task.opened w).stack.calls ≤ limit + extra := by
  induction entered with
  | @step w session =>
    have frames : w.stack.frames = [] := List.map_eq_nil_iff.1 (session.balanced remain).frames
    have none : w.stack.calls = 0 := by rw [FrameStack.calls, frames, List.countP_nil]
    exact none.le.trans (Nat.zero_le _)
  | @sub depth extra task sub w v entered begins asks _ ih =>
    obtain ⟨-, inside, -⟩ := asks.inside remain (entered.entered.proper_tallied remain).1 begins
    have fewer : v.stack.calls ≤ limit + extra := inside.calls.trans ih
    cases sub with
    | eval | call => exact fewer.trans (Nat.add_le_add_left (Nat.le_add_right _ _) _)
    | run frame method mods =>
      have one : (v.opened frame).stack.calls ≤ v.stack.calls + 1 := by
        rw [World.opened, FrameStack.calls_push]
        split <;> omega
      cases task with
      | call =>
        have below := asks.below
        rw [entered.stands] at below
        have calls : v.stack.calls < limit := inside.calls.trans_lt (w.stack.calls_le_depth.trans_lt below)
        exact one.trans ((Nat.succ_le_of_lt calls).trans (Nat.le_add_right _ _))
      | eval | run => exact one.trans (Nat.succ_le_succ fewer)

/-! ## Below and beyond the limit -/

/-- An object whose method passes its call on to another one, with room for one frame. -/
def passingSession : List Expr :=
  [foundation, Trial.createClass "Base", Trial.createSubclass "Derived" ["Base"],
    Trial.define .instances "Base" (Trial.method "work" (.ofWorld .callDepth)),
    Trial.define .instances "Derived" (Trial.method "work" (.next none)), Trial.createObject "o" "Derived",
    .change (.configure [(.maxDepth, .literal (.word 1))])]

def passingWorld : World :=
  (sessionWithin Heap.HandlesRemain 5 passingSession).get (by decide +kernel)

theorem session_passingWorld : Session Heap.HandlesRemain passingWorld :=
  of_sessionWithin (.start {}) (fun _ _ _ _ session done => .ended session done) (Option.some_get _).symm

/-- The frame of a call of `work` on the object. -/
def workFrame (resolved : Resolved) : Frame :=
  frameFor ⟨4, 0⟩ "work" resolved resolved.method [] {}

/-- What the parameters of a method are bound to that does nothing but to pass its call on. -/
def passingOn? (v : World) (resolved : Resolved) : Option Arguments :=
  match scriptedBody? v (workFrame resolved) resolved.method with
  | some (arguments, .next none) => some arguments
  | _ => none

theorem scriptedBody?_of_passingOn? {resolved : Resolved} {arguments : Arguments}
    (passes : passingOn? v resolved = some arguments) :
    scriptedBody? v (workFrame resolved) resolved.method = some (arguments, .next none) := by
  unfold passingOn? at passes
  split at passes
  · next reads =>
    cases passes
    exact reads
  · cases passes

/-- What the call of `work` comes to: the method of the object runs, and from its body the call is passed on. -/
theorem asksFor_passingWorld : ∃ resolved v arguments next u,
    AsksFor (hostWithin Heap.HandlesRemain 1).failing (.call ⟨4, 0⟩ "work" [] {}) passingWorld
      (.run (workFrame resolved) resolved.method {}) v ∧
    AsksFor (hostWithin Heap.HandlesRemain 1).failing (.run (workFrame resolved) resolved.method {}) v
      (.eval (.scripted arguments) (.next none)) (v.opened (workFrame resolved)) ∧
    AsksFor (hostWithin Heap.HandlesRemain 1).failing (.eval (.scripted arguments) (.next none))
      (v.opened (workFrame resolved)) (.run (frameFor ⟨4, 0⟩ "work" next next.method [] {}) next.method {})
        (offTo v.stack.depth (workFrame resolved).kind u) ∧
    ((workFrame resolved).kind = .plain ∧ (workFrame resolved).visible = true ∧ next.method.isLeaf = false) ∧
    (v.objects.HandlesRemain ∧ (v.opened (workFrame resolved)).objects.HandlesRemain) ∧
    v.settings.maxDepth = 1 ∧ u.settings.maxDepth = 1 ∧ u.stack.depth = 1 := by
  have callable : Callable passingWorld ⟨4, 0⟩ "work" {} := by decide +kernel
  have first : ((findBare passingWorld ⟨4, 0⟩ "work").any fun found => found.1.kind == .plain &&
      (passingOn? found.2 found.1).isSome && (found.2.live? ⟨4, 0⟩).any (·.checks == {}) &&
      decide found.2.objects.HandlesRemain && decide (found.2.opened (workFrame found.1)).objects.HandlesRemain &&
      found.2.settings.maxDepth == 1) = true := by
    decide +kernel
  have second : ((findBare passingWorld ⟨4, 0⟩ "work").any fun found =>
      (nextBare? (found.2.opened (workFrame found.1)) (workFrame found.1)).any fun behind =>
        behind.1.method.kind != .aliased && behind.2.settings.maxDepth == 1 && behind.2.stack.depth == 1 && !behind.1.method.isLeaf) = true := by
    decide +kernel
  obtain ⟨⟨resolved, v⟩, bare, holds⟩ := Option.any_eq_true .. |>.1 first
  simp only [Bool.and_eq_true, beq_iff_eq, decide_eq_true_eq] at holds
  obtain ⟨⟨⟨⟨⟨kind, passes⟩, unchecked⟩, good⟩, good'⟩, stands⟩ := holds
  obtain ⟨arguments, passes⟩ := Option.isSome_iff_exists.1 passes
  have reads := scriptedBody?_of_passingOn? passes
  obtain ⟨parameters, scripted, -⟩ := scripted_of_scriptedBody? reads
  obtain ⟨o, live, unchecked⟩ := Option.any_eq_true .. |>.1 unchecked
  rw [bare, Option.any_some] at second
  obtain ⟨⟨next, u⟩, behind, holds⟩ := Option.any_eq_true .. |>.1 second
  simp only [Bool.and_eq_true, beq_iff_eq, bne_iff_ne, Bool.not_eq_true'] at holds
  obtain ⟨⟨⟨direct, stands'⟩, one⟩, noLeaf⟩ := holds
  have visible : (workFrame resolved).visible = true := by
    rw [workFrame, frameFor, MethodOf.isLeaf, scripted]
    rfl
  obtain ⟨runs, evaluates⟩ : AsksFor (hostWithin Heap.HandlesRemain 1).failing (.call ⟨4, 0⟩ "work" [] {}) passingWorld
      (.run (workFrame resolved) resolved.method {}) v ∧
    AsksFor (hostWithin Heap.HandlesRemain 1).failing (.run (workFrame resolved) resolved.method {}) v
      (.eval (.scripted arguments) (.next none)) (v.opened (workFrame resolved)) :=
    asksFor_run_body callable bare live (beq_iff_eq.1 unchecked) reads
  have single : resolved.kind ≠ .ensemble := by
    rw [kind]
    decide
  have goesOn : AsksFor (hostWithin Heap.HandlesRemain 1).failing (.eval (.scripted arguments) (.next none))
      (v.opened (workFrame resolved)) _ _ :=
    asksFor_next (FrameStack.activeIndex?_push v.stack visible) (FrameStack.get?_push v.stack (workFrame resolved))
      single (exec_continuation_of_nextBare? kind behind _) direct
  exact ⟨resolved, v, arguments, next, u, runs, evaluates, goesOn, ⟨kind, visible, noLeaf⟩, ⟨good, good'⟩, stands, stands',
    one⟩

/-- The method of the object runs, and passes its call on. -/
theorem enteredUnder_passingWorld : ∃ task w,
    EnteredUnder Heap.HandlesRemain 1 1 task w ∧ (task.opened w).stack.depth = 2 := by
  have stands : passingWorld.settings.maxDepth = 1 := by decide +kernel
  have begins : passingWorld.objects.HandlesRemain := by decide +kernel
  have named : Lifecycle.objectNamed? passingWorld "o" = some ⟨4, 0⟩ := by decide +kernel
  have calls : AsksFor (hostWithin Heap.HandlesRemain 1).failing
    (.eval .none (.dispatch (.name "o") (.list []) (.literal (.text "work")) {})) passingWorld
      (.call ⟨4, 0⟩ "work" [] {}) passingWorld := asksFor_call_of_name named begins
  obtain ⟨resolved, v, arguments, next, u, runs, evaluates, goesOn, -, ⟨good, good'⟩, stands', stands'', one⟩ :=
    asksFor_passingWorld
  have called := (EnteredUnder.step session_passingWorld stands _).sub begins calls stands
  have running := (called.sub begins runs stands').sub good evaluates stands'
  refine ⟨_, _, running.sub good' goesOn stands'', ?_⟩
  change ((u.stack.modify _ _).push _).frames.length = 2
  rw [FrameStack.push, List.length_append, FrameStack.modify, List.length_modify]
  exact congrArg (· + 1) one

/-- Where the limit stays as it is, there are no more open frames, apart from those of guards, than the limit and those
that next calls and ensembles opened, and a call at the limit fails and does nothing. -/
theorem EnteredUnder.depthLimited (entered : EnteredUnder Heap.HandlesRemain limit extra task w) :
    (task.opened w).stack.calls ≤ limit + extra ∧ (limit ≤ w.stack.depth → ∀ host h name args mods,
      (call host h name args mods).exec w = some (.error (.recursion limit), w)) := by
  have remain : ∀ a : Objects, a.HandlesRemain → a.HandlesRemain := fun _ remain => remain
  refine ⟨entered.calls_le remain, fun full host h name args mods => ?_⟩
  rw [← entered.stands] at full ⊢
  exact exec_call_of_limit full host h name args mods

/-- One frame beyond a limit of one, opened by the next call. -/
theorem depthLimited_passing : ∃ task w, EnteredUnder Heap.HandlesRemain 1 1 task w ∧
    (task.opened w).stack.depth = 2 ∧ (task.opened w).stack.calls ≤ 1 + 1 := by
  obtain ⟨task, w, entered, depth⟩ := enteredUnder_passingWorld
  exact ⟨task, w, entered, depth, (EnteredUnder.depthLimited entered).1⟩

/-- Under a limit of one, two frames are open, and the method that is reached answers so. -/
theorem not_depth_le_limit :
    (¬∀ extra task w, EnteredUnder Heap.HandlesRemain 1 extra task w → (task.opened w).stack.depth ≤ 1) ∧
      (((hostWithin Heap.HandlesRemain 5).call ⟨4, 0⟩ "work" [] {}).exec passingWorld).map
        (fun result => result.1.toOption.map Value.toText) = some (some "2") := by
  rw [hostWithin_eq_hostChecking]
  refine ⟨fun limited => ?_, by decide +kernel⟩
  obtain ⟨task, w, entered, depth⟩ := enteredUnder_passingWorld
  have most := limited 1 task w entered
  rw [depth] at most
  exact absurd most (by decide)

end DynamicObjects
