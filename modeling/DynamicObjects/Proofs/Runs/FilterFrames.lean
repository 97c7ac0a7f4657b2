import DynamicObjects.Proofs.Runs.Positions
import DynamicObjects.Proofs.Runs.Unanswered

/-!
# Filters know their call

However many calls come and go in a filter, the innermost position in the filter order of its receiver is at the filter,
under the name the caller asked for: so it learns what was called, and passes the call on to the filter behind its own.
The exception is unknown handling that is left to the closing of a frame. If a next call opened the frame, the handling is
done before the call sets the position back: the filter that made the call is innermost again, but the position is still
at the filter that the call came to.
-/
namespace DynamicObjects

open Invocation

variable {good : Objects → Prop}

/-! ## How far ahead positions are -/

/-- The tasks that sessions come to, with the filter at which the position is ahead of the filter on the ground, if it
is. -/
inductive EnteredAhead (good : Objects → Prop) : Option FilterKey → Task → World → Prop where
  /-- A step of a session. -/
  | step {w : World} (session : Session good w) (e : Expr) : EnteredAhead good none (.eval .none e) w
  /-- A task that another task comes to, in its frame or once that is closed. -/
  | sub {ahead : Option FilterKey} {depth : Nat} {task sub : Task} {w v : World} (entered : EnteredAhead good ahead task w)
      (begins : good w.objects) (asks : AsksFor (hostWithin good depth).failing task w sub v) :
    EnteredAhead good (task.aheadAt ahead w v) sub v

/-- The worlds in which code runs, with the filter at which the position is ahead of the filter on the ground, if it is. -/
inductive RunningAhead (good : Objects → Prop) : Option FilterKey → World → Prop where
  | idle {w : World} (session : Session good w) : RunningAhead good none w
  | begun {ahead : Option FilterKey} {task : Task} {w : World} (entered : EnteredAhead good ahead task w) :
    RunningAhead good (task.aheadInside ahead) (task.opened w)
  | ended {ahead : Option FilterKey} {surroundings : Surroundings} {e : Expr} {depth : Nat} {w v : World}
      {r : Except Failure Value} (entered : EnteredAhead good ahead (.eval surroundings e) w)
      (done : ((hostWithin good depth).eval surroundings e).exec w = some (r, v)) : RunningAhead good ahead v

theorem EnteredAhead.entered {ahead : Option FilterKey} {task : Task} {w : World}
    (entered : EnteredAhead good ahead task w) : Entered good task w := by
  induction entered with
  | step session e => exact .step session e
  | sub _ begins asks ih => exact .sub ih begins asks

/-- What evaluations and calls come to is no further ahead. -/
theorem EnteredAhead.onward {ahead : Option FilterKey} {depth : Nat} {task sub : Task} {w v : World}
    (entered : EnteredAhead good ahead task w) (noRun : task.isRun = false) (begins : good w.objects)
    (asks : AsksFor (hostWithin good depth).failing task w sub v) : EnteredAhead good ahead sub v := by
  have next := entered.sub begins asks
  rwa [Task.aheadAt_of_world noRun] at next

/-- What a method comes to in its frame. -/
theorem EnteredAhead.inside {ahead : Option FilterKey} {depth : Nat} {frame : Frame} {method : Method}
    {mods : CallModifiers} {sub : Task} {w v : World} (entered : EnteredAhead good ahead (.run frame method mods) w)
    (begins : good w.objects) (asks : AsksFor (hostWithin good depth).failing (.run frame method mods) w sub v)
    (deeper : w.stack.depth < v.stack.depth) : EnteredAhead good (frame.aheadInside ahead) sub v := by
  have next := entered.sub begins asks
  rwa [Task.aheadAt, if_pos deeper] at next

/-- What it comes to once its frame is closed. -/
theorem EnteredAhead.outside {ahead : Option FilterKey} {depth : Nat} {frame : Frame} {method : Method}
    {mods : CallModifiers} {sub : Task} {w v : World} (entered : EnteredAhead good ahead (.run frame method mods) w)
    (begins : good w.objects) (asks : AsksFor (hostWithin good depth).failing (.run frame method mods) w sub v)
    (closed : v.stack.depth ≤ w.stack.depth) : EnteredAhead good (frame.aheadClosed ahead) sub v := by
  have next := entered.sub begins asks
  rwa [Task.aheadAt, if_neg (Nat.not_lt.2 closed)] at next

theorem Entered.exists_ahead {task : Task} {w : World} (entered : Entered good task w) :
    ∃ ahead, EnteredAhead good ahead task w := by
  induction entered with
  | step session e => exact ⟨none, .step session e⟩
  | sub _ begins asks ih =>
    obtain ⟨ahead, entered⟩ := ih
    exact ⟨_, .sub entered begins asks⟩

/-- Wherever code runs, it is known how far ahead positions are. -/
theorem running_iff_ahead {w : World} : Running good w ↔ ∃ ahead, RunningAhead good ahead w := by
  constructor
  · rintro (session | entered | ⟨entered, done⟩)
    · exact ⟨none, .idle session⟩
    · obtain ⟨ahead, entered⟩ := entered.exists_ahead
      exact ⟨_, .begun entered⟩
    · obtain ⟨ahead, entered⟩ := entered.exists_ahead
      exact ⟨ahead, .ended entered done⟩
  · rintro ⟨ahead, session | entered | ⟨entered, done⟩⟩
    · exact .idle session
    · exact .begun entered.entered
    · exact .ended entered.entered done

section stands

variable (remain : ∀ a, good a → a.HandlesRemain) {ahead : Option FilterKey} {task : Task} {w : World}

include remain

/-- Between the steps of a session no filter runs. -/
theorem Session.stands (session : Session good w) : w.Stands ahead :=
  .of_empty (List.map_eq_nil_iff.1 (session.balanced remain).frames)

/-- Filters stand in every task that sessions come to. -/
theorem EnteredAhead.stands (entered : EnteredAhead good ahead task w) : task.Stands ahead w := by
  induction entered with
  | step session e => exact .of_world rfl (session.stands remain)
  | sub entered begins asks ih =>
    have before := entered.entered
    exact asks.stands remain (before.proper_tallied remain).1 begins (before.begins FrameStack.kept_subsSeated.ofWorld)
      (before.begins FrameStack.kept_filtersLed.ofWorld) ih

/-- Filters stand wherever code runs. -/
theorem RunningAhead.stands (running : RunningAhead good ahead w) : w.Stands ahead := by
  cases running with
  | idle session => exact session.stands remain
  | begun entered => exact (entered.stands remain).inside
  | @ended _ surroundings e depth v _ r entered done =>
    have proper := (entered.entered.proper_tallied remain).1
    have balanced : Balanced v w :=
      ((faithful_hostWithin remain depth).task (.eval surroundings e) v r w proper done).2.1
    exact (entered.stands remain).inside.filtersStand balanced.filtersStand

end stands

/-! ## What filters know -/

namespace Invocation

/-- The first filter of an order behind one of it, to which the position moves. -/
def filterBehind (host : Host) (h : Handle) (key : FilterKey) : Action (Option Resolved) := do
  let order ← Interception.filterOrder h
  match ← searchFilters host h ((← get).isClass h) (order.drop (indexAfter order (some key) (·.key == ·))) with
  | some entry =>
    setFilterPosition h (some entry.key)
    return some { method := entry.method, definer := entry.definer, kind := .filter true, name := entry.name }
  | none => return none

/-- What comes behind a filter in the chain of a call: the next filter, or what is found under the name the caller asked
for. -/
def chainBehind (host : Host) (frame : Frame) (key : FilterKey) : Action Continuation := do
  match ← filterBehind host frame.object key with
  | some resolved => return ⟨some resolved, false⟩
  | none => return ⟨← continueUnfiltered host frame ⟨frame.called, none, true⟩, true⟩

variable {host : Host} {h : Handle} {key : FilterKey} {called : String} {frame : Frame} {w : World}

/-- From a position in a filter order, the search goes on behind the filter there. -/
theorem exec_nextFilter_of_head (proper : Proper w) (head : HeadAt h ⟨some key, called⟩ w) :
    (nextFilter host h).exec w = (filterBehind host h key).exec w := by
  unfold nextFilter filterBehind
  rw [Action.exec_bind, Action.exec_bind, Action.exec_liftM]
  cases asked : (Interception.filterOrder h).exec w with
  | mk r v =>
    cases r with
    | error e => rfl
    | ok order =>
      obtain ⟨-, alike, p, live, -⟩ := kept_of_filterOrder proper asked
      have there := (World.live?_eq_some_iff.1 live).1
      have position : filterPosition? v h = some ⟨some key, called⟩ := by
        obtain ⟨o, before, same⟩ := alike.symm.exists_of_get? there
        have positions : o.filterPositions = p.filterPositions := (congrArg Object.filterPositions same :)
        rw [filterPosition?, there, Option.bind_some, ← positions]
        exact head o before
      rw [Option.bind_some, Option.bind_some]
      dsimp only
      rw [Action.exec_bind_of_ok (Action.exec_get v), Action.exec_bind_of_ok (Action.exec_get v), position]
      rfl

theorem called_of_head (head : HeadAt h ⟨some key, called⟩ w) :
    ((filterPosition? w h).map (·.called)).getD called = called := by
  unfold filterPosition?
  cases found : w.objects.get? h with
  | none => rfl
  | some o => rw [Option.bind_some, head o found]; rfl

/-- So does the search for the rest of the chain. -/
theorem exec_continuation_of_head (proper : Proper w) (filter : frame.kind.isFilter = true)
    (head : HeadAt frame.object ⟨some key, frame.called⟩ w) :
    (continuation host frame).exec w = (chainBehind host frame key).exec w := by
  unfold continuation chainBehind
  rewrite [if_pos filter, Action.exec_bind_of_ok (Action.exec_get w), Action.exec_bind, Action.exec_bind,
    exec_nextFilter_of_head proper head, called_of_head head]
  rfl

end Invocation

/-- The filter in a frame knows its call: the innermost position of its receiver is at `key` in the filter order, under the
name that the frame was called for. There the chain goes on. The name was that of the call which came to the first filter. -/
structure World.FilterKnows (w : World) (f : Frame) (key : FilterKey) : Prop where
  position : ∀ o, w.objects.get? f.object = some o → o.filterPositions.head? = some ⟨some key, f.called⟩
  continues : ∀ host, (continuation host f).exec w = (chainBehind host f key).exec w
  first : ∃ i first, w.stack.get? i = some first ∧ first.Leads f

section knows

variable {ahead : Option FilterKey} {f : Frame} {w : World}

/-- A filter that is the ground knows its call, if filters stand. -/
theorem World.Stands.filterKnows (stands : w.Stands ahead) (proper : Proper w) (led : w.stack.FiltersLed)
    (ground : w.stack.ground? = some f) (filter : f.kind.isFilter = true) : w.FilterKnows f (ahead.getD f.key) := by
  obtain ⟨-, head⟩ := stands f ground filter
  obtain ⟨i, -, here⟩ := Option.bind_eq_some_iff.1 ground
  obtain ⟨-, j, first, -, below, leads⟩ := led i f here filter
  exact ⟨head, fun host => exec_continuation_of_head proper filter head, j, first, below, leads⟩

theorem World.FilterKnows.exec_calledMethod {key : FilterKey} (knows : w.FilterKnows f key)
    (active : w.stack.active? = some f) : calledMethod.exec w = (.ok f.called, w) := by
  have running : activeFrame.exec w = (.ok f, w) := by
    unfold activeFrame
    rw [Update.exec_bind_of_ok (Update.exec_get w), active]
    rfl
  unfold calledMethod
  rw [Update.exec_bind_of_ok running, Update.exec_bind_of_ok (Update.exec_get w)]
  cases f.kind.isFilter with
  | false => rfl
  | true =>
    have called := called_of_head knows.position
    exact (congrArg (fun name => ((.ok name, w) : Except Failure String × World)) called :)

end knows

/-! ## Two filters, and nothing behind them -/

section asks

variable {host : Host} {frame : Frame} {method : Method} {arguments : Arguments} {body : Expr} {value : Value}
  {u w : World} {o p : Object} {g : Frame}

/-- A scripted method ends with its body if its receiver asks for no checks. -/
theorem exec_implement_of_body {i : Nat} {mods : CallModifiers} (live : w.live? frame.object = some o)
    (unchecked : o.checks = {}) (reads : scriptedBody? w frame method = some (arguments, body))
    (ran : (host.eval (.scripted arguments) body).exec (w.opened frame) = some (.ok value, u))
    (live' : u.live? frame.object = some p) (unchecked' : p.checks = {}) :
    (implement host i frame.object method frame.arguments mods).exec (w.opened frame) = some (.ok value, u) := by
  obtain ⟨parameters, scripted, parsed⟩ := scripted_of_scriptedBody? reads
  have before := exec_checkAssertions_of_unchecked (World.live?_opened live) unchecked host method .before
  have after := exec_checkAssertions_of_unchecked live' unchecked' host method .after
  rw [implement, scripted]
  unfold runScript
  rw [Action.exec_bind_of_ok (Action.exec_get _)]
  simp only [parsed]
  rw [Action.exec_bind_of_ok before, Action.exec_bind_of_ok ran, Action.exec_bind_of_ok after]
  rfl

/-- A frame in which a method has ended well while unknown handling is due asks for the installed handler once it is
closed. -/
theorem asksFor_handler {handler : Expr} {mods : CallModifiers} (live : w.live? frame.object = some o)
    (unchecked : o.checks = {}) (reads : scriptedBody? w frame method = some (arguments, body))
    (ran : (host.eval (.scripted arguments) body).exec (w.opened frame) = some (.ok value, u))
    (live' : u.live? frame.object = some p) (unchecked' : p.checks = {}) (top : u.stack.top? = some g)
    (due : g.unknownDue = true) (passes : checkResult (u.unstacked g) g value = .ok value)
    (installed : (u.unstacked g).unknownHandler = some handler) : AsksFor host (.run frame method mods) w
      (.eval (.native g.object (.text g.called :: g.arguments)) handler) (u.unstacked g) := by
  refine .of_stops fun other agrees e stops => ?_
  have ran' : (other.eval (.scripted arguments) body).exec (w.opened frame) = some (.ok value, u) :=
    (agrees (.eval (.scripted arguments) body) (w.opened frame) (.inl nofun)).trans ran
  have asks : (askHandler other g.object g.called g.arguments).Stops (u.unstacked g) e := by
    refine .after (Action.exec_get _) ?_
    rw [installed]
    exact stops.bind _
  have answers : (answerUnknown other g.object g.called g.arguments).Stops (u.unstacked g) e := asks.bind _
  change (run other frame method mods).Stops w e
  refine .of_exec (fun x => ((letGo g.object).exec x).2) answers ?_
  rw [exec_run, exec_implement_of_body live unchecked reads ran' live' unchecked', Option.bind_some]
  exact exec_close_of_due top due passes

end asks

section trial

variable {host : Host} {w v : World} {frame : Frame} {found : Resolved × World}

/-- What a call finds, and the world after the search. -/
def foundFor? (host : Host) (w : World) (h : Handle) (name : String) : Option (Resolved × World) :=
  match (resolve host h name {}).exec w with
  | some (.ok (some resolved), v) => some (resolved, v)
  | _ => none

theorem exec_resolve_of_foundFor? {h : Handle} {name : String} (is : foundFor? host w h name = some found) :
    (resolve host h name {}).exec w = some (.ok (some found.1), found.2) := by
  unfold foundFor? at is
  split at is
  · next searched =>
    cases is
    exact searched
  · cases is

/-- The filter that is found behind a frame, and the world after the search. -/
def filterBehind? (host : Host) (w : World) (frame : Frame) : Option (Resolved × World) :=
  match (continuation host frame).exec w with
  | some (.ok ⟨some resolved, false⟩, v) => some (resolved, v)
  | _ => none

theorem exec_continuation_of_filterBehind? (is : filterBehind? host w frame = some found) :
    (continuation host frame).exec w = some (.ok ⟨some found.1, false⟩, found.2) := by
  unfold filterBehind? at is
  split at is
  · next searched =>
    cases is
    exact searched
  · cases is

/-- What the parameters of a method are bound to that does nothing but to pass its call on, on a receiver that asks for no
checks. -/
def passingArguments? (w : World) (frame : Frame) (method : Method) : Option Arguments :=
  match scriptedBody? w frame method with
  | some (arguments, .next none) => if (w.live? frame.object).any (·.checks == {}) then some arguments else none
  | _ => none

theorem scriptedBody?_of_passingArguments? {method : Method} {arguments : Arguments}
    (passes : passingArguments? w frame method = some arguments) :
    scriptedBody? w frame method = some (arguments, .next none) ∧ ∃ o, w.live? frame.object = some o ∧ o.checks = {} := by
  unfold passingArguments? at passes
  split at passes
  · next reads =>
    split at passes
    · next unchecked =>
      cases passes
      obtain ⟨o, live, unchecked⟩ := Option.any_eq_true .. |>.1 unchecked
      exact ⟨reads, o, live, beq_iff_eq.1 unchecked⟩
    · cases passes
  · cases passes

/-- The value of an evaluation that ends well, the innermost frame at its end, and the world. -/
def endsIn? (host : Host) (w : World) (s : Surroundings) (e : Expr) : Option (Value × Frame × World) :=
  match (host.eval s e).exec w with
  | some (.ok value, v) => v.stack.top?.map (value, ·, v)
  | _ => none

theorem exec_of_endsIn? {s : Surroundings} {e : Expr} {ended : Value × Frame × World}
    (is : endsIn? host w s e = some ended) :
    (host.eval s e).exec w = some (.ok ended.1, ended.2.2) ∧ ended.2.2.stack.top? = some ended.2.1 := by
  unfold endsIn? at is
  split at is
  · next done =>
    obtain ⟨g, top, same⟩ := Option.map_eq_some_iff.1 is
    cases same
    exact ⟨done, top⟩
  · cases is

end trial

/-! ### An object with two filters, and a handler for calls that find no method -/

namespace TwoFilters

def session : List Expr :=
  [foundation, Trial.createClass "C", Trial.define .instances "C" (Trial.method "f" (.next none)),
    Trial.define .instances "C" (Trial.method "g" (.next none)), Trial.createObject "o" "C",
    Trial.addFilter .object "o" "f", Trial.addFilter .object "o" "g",
    .change (.setUnknownHandler (some (Trial.text "answered")))]

@[irreducible] def start : World :=
  (sessionWithin Heap.HandlesRemain 5 session).get (by decide +kernel)

/-- A host of sessions. -/
@[irreducible] def host : Host :=
  (hostChecking Heap.HandlesRemain 1).failing

/-- The filter that a call of a missing method comes to. -/
@[irreducible] def outer : Resolved × World :=
  (foundFor? host start ⟨3, 0⟩ "missing").get (by decide +kernel)

def outerFrame : Frame :=
  frameFor ⟨3, 0⟩ "missing" outer.1 outer.1.method [] {}

@[irreducible] def outerArguments : Arguments :=
  (passingArguments? outer.2 outerFrame outer.1.method).get (by decide +kernel)

/-- The filter that its next call comes to. -/
@[irreducible] def inner : Resolved × World :=
  (filterBehind? host (outer.2.opened outerFrame) outerFrame).get (by decide +kernel)

def innerFrame : Frame :=
  frameFor ⟨3, 0⟩ "missing" inner.1 inner.1.method [] {}

/-- The world in which the frame of that filter is opened. -/
def passed : World :=
  offTo outer.2.stack.depth outerFrame.kind inner.2

@[irreducible] def innerArguments : Arguments :=
  (passingArguments? passed innerFrame inner.1.method).get (by decide +kernel)

/-- What its next call comes to: nothing, but with unknown handling due. -/
@[irreducible] def ended : Value × Frame × World :=
  (endsIn? host (passed.opened innerFrame) (.scripted innerArguments) (.next none)).get (by decide +kernel)

/-- The world in which the handler begins. -/
def closed : World :=
  ended.2.2.unstacked ended.2.1

theorem host_eq : (hostWithin Heap.HandlesRemain 1).failing = host := by
  unfold host
  rw [hostWithin_eq_hostChecking]

/-- The first filter runs for a call of a missing method. -/
theorem enteredAhead_outer : EnteredAhead Heap.HandlesRemain none (.run outerFrame outer.1.method {}) outer.2 := by
  have session : Session Heap.HandlesRemain start := by
    unfold start
    exact of_sessionWithin (.start {}) (fun _ _ _ _ session done => .ended session done) (Option.some_get _).symm
  have begins : start.objects.HandlesRemain := by decide +kernel
  have named : Lifecycle.objectNamed? start "o" = some ⟨3, 0⟩ := by decide +kernel
  have found : foundFor? host start ⟨3, 0⟩ "missing" = some outer := by
    unfold outer
    exact (Option.some_get _).symm
  obtain ⟨o, live⟩ := Option.isSome_iff_exists.1 (by decide +kernel : (start.live? ⟨3, 0⟩).isSome = true)
  have calls : AsksFor (hostWithin Heap.HandlesRemain 1).failing
    (.eval .none (.dispatch (.name "o") (.list []) (.literal (.text "missing")) {})) start
      (.call ⟨3, 0⟩ "missing" [] {}) start := asksFor_call_of_name named begins
  have runs : AsksFor (hostWithin Heap.HandlesRemain 1).failing (.call ⟨3, 0⟩ "missing" [] {}) start
      (.run outerFrame outer.1.method {}) outer.2 := by
    rw [host_eq]
    exact asksFor_run_of_resolve live (by decide +kernel) (exec_resolve_of_foundFor? found) (by decide +kernel)
  exact ((EnteredAhead.step session _).onward rfl begins calls).onward rfl begins runs

/-- It passes the call on to the second one. -/
theorem enteredAhead_inner : EnteredAhead Heap.HandlesRemain none (.run innerFrame inner.1.method {}) passed := by
  have passes : passingArguments? outer.2 outerFrame outer.1.method = some outerArguments := by
    unfold outerArguments
    exact (Option.some_get _).symm
  have found : filterBehind? host (outer.2.opened outerFrame) outerFrame = some inner := by
    unfold inner
    exact (Option.some_get _).symm
  obtain ⟨reads, o, live, unchecked⟩ := scriptedBody?_of_passingArguments? passes
  have evaluates : AsksFor (hostWithin Heap.HandlesRemain 1).failing (.run outerFrame outer.1.method {}) outer.2
      (.eval (.scripted outerArguments) (.next none)) (outer.2.opened outerFrame) := asksFor_body live unchecked reads
  have goesOn : AsksFor (hostWithin Heap.HandlesRemain 1).failing (.eval (.scripted outerArguments) (.next none))
      (outer.2.opened outerFrame) (.run innerFrame inner.1.method {}) passed := by
    rw [host_eq]
    exact asksFor_next (FrameStack.activeIndex?_push outer.2.stack (by decide +kernel))
      (FrameStack.get?_push outer.2.stack outerFrame) (by decide +kernel) (exec_continuation_of_filterBehind? found)
      (by decide +kernel)
  have body := enteredAhead_outer.inside (by decide +kernel) evaluates (by decide +kernel)
  rw [Frame.aheadInside, ite_self] at body
  exact body.onward rfl (by decide +kernel) goesOn

/-- When its frame is closed the handler is asked, with the position still at it. -/
theorem exists_enteredAhead_handler : ∃ handler, EnteredAhead Heap.HandlesRemain (some innerFrame.key)
    (.eval (.native ended.2.1.object (.text ended.2.1.called :: ended.2.1.arguments)) handler) closed := by
  have passes : passingArguments? passed innerFrame inner.1.method = some innerArguments := by
    unfold innerArguments
    exact (Option.some_get _).symm
  have ends : endsIn? host (passed.opened innerFrame) (.scripted innerArguments) (.next none) = some ended := by
    unfold ended
    exact (Option.some_get _).symm
  obtain ⟨reads, o, live, unchecked⟩ := scriptedBody?_of_passingArguments? passes
  obtain ⟨ran, top⟩ := exec_of_endsIn? ends
  obtain ⟨p, live', unchecked'⟩ := Option.any_eq_true .. |>.1
    (by decide +kernel : (ended.2.2.live? innerFrame.object).any (·.checks == {}) = true)
  obtain ⟨handler, installed⟩ := Option.isSome_iff_exists.1 (by decide +kernel : closed.unknownHandler.isSome = true)
  have free : ended.2.1.method.bind (·.returns) = none := by decide +kernel
  have accepted : checkResult closed ended.2.1 ended.1 = .ok ended.1 := by
    simp only [checkResult, free]
  refine ⟨handler, ?_⟩
  have asks : AsksFor (hostWithin Heap.HandlesRemain 1).failing (.run innerFrame inner.1.method {}) passed
      (.eval (.native ended.2.1.object (.text ended.2.1.called :: ended.2.1.arguments)) handler) closed := by
    rw [host_eq]
    exact asksFor_handler live unchecked reads ran live' (beq_iff_eq.1 unchecked') top (by decide +kernel) accepted installed
  have next := enteredAhead_inner.outside (by decide +kernel) asks (by decide +kernel)
  rwa [show innerFrame.aheadClosed none = some innerFrame.key from if_pos (by decide +kernel)] at next

/-- Then the first filter is innermost again, but the position is not at it. -/
theorem active_closed : ∃ f o, closed.stack.active? = some f ∧ f.kind.isFilter = true ∧
    f.key = ⟨some ⟨2, 0⟩, "g"⟩ ∧ closed.objects.get? f.object = some o ∧
    o.filterPositions.head? = some ⟨some ⟨some ⟨2, 0⟩, "f"⟩, f.called⟩ ∧ innerFrame.key = ⟨some ⟨2, 0⟩, "f"⟩ := by
  have running : (closed.stack.active?.any fun f => f.kind.isFilter && f.key == ⟨some ⟨2, 0⟩, "g"⟩ &&
      (closed.objects.get? f.object).any fun o =>
        o.filterPositions.head? == some ⟨some ⟨some ⟨2, 0⟩, "f"⟩, f.called⟩) = true := by
    decide +kernel
  obtain ⟨f, active, holds⟩ := Option.any_eq_true .. |>.1 running
  obtain ⟨both, positioned⟩ := Bool.and_eq_true_iff.1 holds
  obtain ⟨filter, key⟩ := Bool.and_eq_true_iff.1 both
  obtain ⟨o, there, head⟩ := Option.any_eq_true .. |>.1 positioned
  exact ⟨f, o, active, filter, beq_iff_eq.1 key, there, beq_iff_eq.1 head, by decide +kernel⟩

end TwoFilters

/-! ## Wherever code runs -/

/-- Wherever code runs, it is known how far ahead positions are: usually not at all. Then a filter knows its call. Where the
position is ahead, the filter that the position is at takes its place. This holds of the filter that runs, and of one behind
which the next call of a sub-method goes on. The first filter of a call runs in a frame that only the call can have asked
for, and the others have the name it was made by. -/
theorem World.filtersKnow (w : World) :
    (Running Heap.HandlesRemain w ↔ ∃ ahead, RunningAhead Heap.HandlesRemain ahead w) ∧
    (∀ ahead f, RunningAhead Heap.HandlesRemain ahead w → w.stack.active? = some f → f.kind.isFilter = true →
      w.FilterKnows f (ahead.getD f.key) ∧ calledMethod.exec w = (.ok f.called, w)) ∧
    (∀ ahead i f, RunningAhead Heap.HandlesRemain ahead w → w.stack.nextIndex? = some i → w.stack.get? i = some f →
      f.kind.isFilter = true → w.FilterKnows f (ahead.getD f.key)) ∧
    ∀ host task frame method asked v, AsksFor host task w (.run frame method asked) v →
      frame.pushedFilterPosition = true → ∃ args mods, task = .call frame.object frame.called args mods := by
  have remain : ∀ a : Objects, a.HandlesRemain → a.HandlesRemain := fun _ remain => remain
  have knows : ∀ ahead f, RunningAhead Heap.HandlesRemain ahead w → w.stack.ground? = some f → f.kind.isFilter = true →
      w.FilterKnows f (ahead.getD f.key) := by
    intro ahead f running ground filter
    have before := running_iff_ahead.2 ⟨ahead, running⟩
    exact (running.stands remain).filterKnows (before.proper_tallied remain).1 (before.kept FrameStack.kept_filtersLed)
      ground filter
  refine ⟨running_iff_ahead, fun ahead f running active filter => ?_, fun ahead i f running stands here filter => ?_,
    fun host task frame method asked v asks pushed => asks.call_of_pushed pushed⟩
  · obtain ⟨i, is, here⟩ := Option.bind_eq_some_iff.1 active
    have single : f.kind ≠ .ensemble := fun sub => by rw [sub] at filter; cases filter
    have knows := knows ahead f running (FrameStack.ground?_of_active is here single) filter
    exact ⟨knows, knows.exec_calledMethod active⟩
  · have before := running_iff_ahead.2 ⟨ahead, running⟩
    exact knows ahead f running (FrameStack.ground?_of_nextIndex? (before.kept FrameStack.kept_subsSeated)
      (before.kept FrameStack.kept_filtersLed) stands here filter) filter

/-- The first filter knows its call when it is run. When the handler is asked, it is mistaken for the second one. -/
theorem filtersKnow_twoFilters : ∃ (v w : World) (f g : Frame), f.key = ⟨some ⟨2, 0⟩, "g"⟩ ∧ v.FilterKnows f f.key ∧
    calledMethod.exec v = (.ok "missing", v) ∧ g.key = f.key ∧ w.FilterKnows g ⟨some ⟨2, 0⟩, "f"⟩ := by
  obtain ⟨handler, entered⟩ := TwoFilters.exists_enteredAhead_handler
  obtain ⟨g, o, active, filter, key, -, -, inner⟩ := TwoFilters.active_closed
  have begun := RunningAhead.begun TwoFilters.enteredAhead_outer
  have running : RunningAhead Heap.HandlesRemain none (TwoFilters.outer.2.opened TwoFilters.outerFrame) := by
    rwa [Task.aheadInside, Frame.aheadInside, ite_self] at begun
  have top : (TwoFilters.outer.2.opened TwoFilters.outerFrame).stack.active? = some TwoFilters.outerFrame := by
    unfold FrameStack.active?
    rw [World.opened, FrameStack.activeIndex?_push _ (by decide +kernel)]
    exact FrameStack.get?_push _ _
  have first := (World.filtersKnow _).2.1 none _ running top (by decide +kernel)
  have again := (World.filtersKnow _).2.1 _ g (.begun entered) active filter
  refine ⟨_, _, TwoFilters.outerFrame, g, by decide +kernel, first.1, first.2, ?_, inner ▸ again.1⟩
  rw [key]
  decide +kernel

/-- The position is not always at the filter that runs. -/
theorem not_positioned_of_handler : ¬∀ w f o, Running Heap.HandlesRemain w → w.stack.active? = some f →
    f.kind.isFilter = true → w.objects.get? f.object = some o →
      o.filterPositions.head? = some ⟨some f.key, f.called⟩ := by
  intro always
  obtain ⟨handler, entered⟩ := TwoFilters.exists_enteredAhead_handler
  obtain ⟨f, o, active, filter, key, there, head, -⟩ := TwoFilters.active_closed
  have position := head.symm.trans (always _ f o (.begun entered.entered) active filter there)
  rw [key] at position
  simp at position

end DynamicObjects
