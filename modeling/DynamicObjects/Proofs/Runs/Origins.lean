import DynamicObjects.Proofs.Runs.Callers
import DynamicObjects.Proofs.Runs.Guards

/-!
# Where frames come from

Every frame that is no guard's was opened by a run that the session came to. The frames below it are those on which the run
was begun, whatever they are doing by now.
-/
namespace DynamicObjects

/-- A frame apart from what it is doing, and from whether next calls are on their way behind it. -/
def Frame.inert (f : Frame) : Frame :=
  { f.settled with kind := f.kind.deactivated }

namespace FrameStack

variable {good : Objects → Prop} {s t : FrameStack} {f frame : Frame} {method : Method} {mods : CallModifiers}
  {v w : World} {i : Nat}

/-- A run opened the frame `i`: the frames up to there are those on which the run was begun, with its own on top. -/
structure OpenedBy (good : Objects → Prop) (s : FrameStack) (i : Nat) (frame : Frame) (method : Method)
    (mods : CallModifiers) (v : World) : Prop where
  entered : Entered good (.run frame method mods) v
  frames : (s.below (i + 1)).map Frame.inert = (v.stack.push frame).frames.map Frame.inert

/-- Every frame that is no guard's was opened by a run. -/
def Traced (good : Objects → Prop) (s : FrameStack) : Prop :=
  ∀ i f, s.get? i = some f → f.isGuard = false → ∃ frame method mods v, s.OpenedBy good i frame method mods v

namespace OpenedBy

variable (opened : s.OpenedBy good i frame method mods v)

include opened

theorem congr (same : (t.below (i + 1)).map Frame.inert = (s.below (i + 1)).map Frame.inert) :
    t.OpenedBy good i frame method mods v :=
  ⟨opened.entered, same.trans opened.frames⟩

theorem depth (here : s.get? i = some f) : v.stack.depth = i := by
  have within : i < s.frames.length := get?_lt here
  have length := congrArg List.length opened.frames
  simp only [below, push, List.length_map, List.length_take, List.length_append, List.length_singleton,
    Nat.min_eq_left (Nat.succ_le_of_lt within)] at length
  exact (Nat.succ.inj length).symm

/-- Those below the frame are those on which the run was begun. -/
theorem below (here : s.get? i = some f) : (s.below i).map Frame.inert = v.stack.frames.map Frame.inert := by
  have before := congrArg (List.take i) opened.frames
  rwa [← List.map_take, FrameStack.below, List.take_take, Nat.min_eq_left (Nat.le_succ i), ← List.map_take, push,
    List.take_left' (opened.depth here)] at before

theorem inert_eq (here : s.get? i = some f) : f.inert = frame.inert := by
  have top := congrArg (·[i]?) opened.frames
  have own : (v.stack.push frame).frames[i]? = some frame := opened.depth here ▸ get?_push v.stack frame
  have there : (s.below (i + 1))[i]? = some f := (List.getElem?_take_of_lt (Nat.lt_succ_self i)).trans here
  simp only [List.getElem?_map, own, there, Option.map_some] at top
  exact Option.some.inj top

end OpenedBy

theorem inert_distributing (s : FrameStack) (f : Frame) :
    (s.push { f with runsEnsemble := true }).frames.map Frame.inert = (s.push f).frames.map Frame.inert := by
  rw [push, push, List.map_append, List.map_append]
  rfl

namespace Traced

theorem of_empty (empty : s.frames = []) : s.Traced good := by
  intro i f here
  rw [get?, empty] at here
  cases here

theorem of_inert (traced : s.Traced good) (same : t.frames.map Frame.inert = s.frames.map Frame.inert) : t.Traced good := by
  intro i f here noGuard
  obtain ⟨g, there, inert⟩ := exists_of_map same.symm here
  have isGuard : g.isGuard = f.isGuard := (congrArg Frame.isGuard inert :)
  obtain ⟨frame, method, mods, v, opened⟩ := traced i g there (isGuard.trans noGuard)
  refine ⟨frame, method, mods, v, opened.congr ?_⟩
  rw [below, below, List.map_take, List.map_take, same]

/-- A frame is opened, by a run unless it is that of a guard. -/
theorem push (traced : s.Traced good)
    (own : f.isGuard = false → ∃ method mods v, Entered good (.run f method mods) v ∧ v.stack = s) :
    (s.push f).Traced good := by
  intro i g here noGuard
  rcases get?_push_eq_some here with here | ⟨rfl, rfl⟩
  · obtain ⟨frame, method, mods, v, opened⟩ := traced i g here noGuard
    refine ⟨frame, method, mods, v, opened.congr ?_⟩
    rw [below_push s f (Nat.succ_le_of_lt (get?_lt here))]
  · obtain ⟨method, mods, v, entered, rfl⟩ := own noGuard
    have within : v.stack.depth + 1 = (v.stack.push g).depth := by simp [depth, FrameStack.push]
    exact ⟨g, method, mods, v, entered, by rw [within, below_depth]⟩

theorem marked (traced : s.Traced good) (marking : Marking s t) : t.Traced good := by
  have same := congrArg (List.map Frame.inert) marking.atRest
  rw [List.map_map, List.map_map] at same
  exact traced.of_inert same

end Traced

/-- Tasks open no frames for others, and nothing inside of them hides where frames come from. -/
theorem asks_traced : World.Asks (fun w => w.stack.Traced good) fun _ w => w.stack.Traced good where
  marked marked traced := traced.marked marked.stack
  passing {w i above} here traced := by
    refine traced.of_inert (w.stack.frames_modify_map i fun f found => ?_)
    cases here.symm.trans found
    exact congrArg (fun kind => { above.settled with kind }) above.kind.deactivated_deactivated
  distributing {w f} traced := traced.of_inert (inert_distributing w.stack f)
  guarded _ traced := traced.push nofun
  plainly _ := id
  opened _ _ _ _ := id
  subOpened _ _ _ := id

end FrameStack

/-! ## Wherever code runs -/

section running

variable {good : Objects → Prop} {task : Task} {v w : World}

/-- Between the steps of a session no frame is open. -/
theorem Session.frames_eq_nil (session : Session good w) : w.stack.frames = [] := by
  induction session with
  | start => rfl
  | next _ ih => exact ih
  | ended _ done ih =>
    have marked := (Host.Marks.hostWithin good _).eval _ _ _ _ _ done
    have same := marked.stack.atRest
    rw [ih] at same
    exact List.map_eq_nil_iff.1 same

theorem Entered.seated (entered : Entered good task w) : task.Seated w.stack :=
  (entered.begins FrameStack.kept_subsSeated.ofWorld).seated

/-- A task that is begun opens its own frame. -/
theorem Entered.traced_opened (entered : Entered good task w) (traced : w.stack.Traced good) :
    (task.opened w).stack.Traced good := by
  cases task with
  | eval => exact traced
  | call => exact traced
  | run frame method mods => exact traced.push fun _ => ⟨method, mods, w, entered, rfl⟩

/-- Where tasks begin, all frames were opened by runs. -/
theorem Entered.traced (entered : Entered good task w) : w.stack.Traced good := by
  induction entered with
  | step session => exact .of_empty session.frames_eq_nil
  | sub entered _ asks ih =>
    exact asks.shows FrameStack.asks_traced (Host.Marks.hostWithin good _).failing
      ⟨entered.seated, ih, entered.traced_opened ih⟩

/-- Throughout a run, every frame that is no guard's was opened by a run that the session came to, and the frames below it
are those on which that run was begun. -/
theorem Passed.traced (passed : Passed good w) : w.stack.Traced good := by
  cases passed with
  | running running =>
    cases running with
    | idle session => exact .of_empty session.frames_eq_nil
    | begun entered => exact entered.traced_opened entered.traced
    | ended entered done => exact entered.traced.marked ((Host.Marks.hostWithin good _).eval _ _ _ _ _ done).stack
  | begins entered => exact entered.traced
  | ends entered done =>
    exact entered.traced.marked ((Host.Marks.hostWithin good _).perform entered.seated done).stack

end running

end DynamicObjects
