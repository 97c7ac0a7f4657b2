import DynamicObjects.Proofs.Runs.Screening

/-!
# Filters that only pass calls on

A filter whose body is nothing but a next call ends as what it passes its call on to, and the world after it is the one
in which that ended, with its frame closed. Where nothing is behind it, it ends as the call of an unknown method.
-/
namespace DynamicObjects

open Invocation

/-- A method that takes any arguments and only passes its call on. -/
structure Invocation.PassesOn (m : Method) : Prop where
  unchecked : m.returns = none
  body : ∃ p : Parameter, p.kind = .rest ∧ p.check = none ∧ m.implementation = .scripted [p] (.next none)

namespace Invocation

/-- Whether a method only passes its call on. -/
def passesOn (m : Method) : Bool :=
  m.returns.isNone && match m.implementation with
    | .scripted [p] (.next none) => p.kind == .rest && p.check.isNone
    | _ => false

theorem passesOn_iff {m : Method} : passesOn m = true ↔ PassesOn m := by
  constructor
  · intro passes
    obtain ⟨unchecked, body⟩ := Bool.and_eq_true_iff.1 passes
    refine ⟨Option.isNone_iff_eq_none.1 unchecked, ?_⟩
    split at body
    · next p is =>
      simp only [Bool.and_eq_true, beq_iff_eq, Option.isNone_iff_eq_none] at body
      exact ⟨p, body.1, body.2, is⟩
    · cases body
  · rintro ⟨unchecked, p, rest, noCheck, body⟩
    simp [passesOn, unchecked, body, rest, noCheck]

instance : DecidablePred PassesOn :=
  fun _ => decidable_of_iff _ passesOn_iff

variable {host : Host} {h : Handle} {called : String} {resolved : Resolved} {args : List Value} {frame : Frame}
  {v w x : World} {depth : Nat}

/-- A rest parameter takes whatever comes. -/
theorem parse_rest (accepts : Check → Value → Bool) {p : Parameter} (rest : p.kind = .rest) (unchecked : p.check = none)
    (args : List Value) : Parsing.parse accepts [p] args = .ok ⟨[(p.name, .list args)]⟩ := by
  have noFlag : [p].any (·.isFlag) = false := by simp [ParameterOf.isFlag, rest]
  have given : Parsing.readPositions [p] [none] args = ([some (.list args)], []) := by
    simp [Parsing.readPositions, rest]
  unfold Parsing.parse
  simp only [noFlag, Bool.false_eq_true, if_false, List.map_cons, List.map_nil, bind, Except.bind, given]
  simp [Parsing.bindAll, Parsing.bind, Parsing.validate, unchecked]
  rfl

theorem PassesOn.direct {m : Method} (passes : PassesOn m) : m.kind ≠ .aliased := by
  obtain ⟨p, -, -, body⟩ := passes.body
  intro aliased
  rw [MethodOf.kind, body] at aliased
  cases aliased

/-- A receiver that asks for no checks, or is gone, is not checked. -/
theorem exec_checkAssertions_of_forall (unchecked : ∀ o, w.live? h = some o → o.checks = {}) (method : Method)
    (phase : Phase) : (checkAssertions host h method phase).exec w = some (.ok ⟨⟩, w) := by
  cases live : w.live? h with
  | some o => exact exec_checkAssertions_of_unchecked live (unchecked o live) host method phase
  | none =>
    unfold checkAssertions
    rw [Action.exec_bind_of_ok (Action.exec_get w)]
    split
    · rfl
    · rw [live]
      rfl

/-- What is left of a scripted method once its body has come to an outcome. -/
def finishScript (host : Host) (h : Handle) (method : Method) (outcome : Except Failure Value) : Action Value := do
  let value ← Action.resume outcome
  checkAssertions host h method .after
  return value

theorem exec_finishScript (unchecked : ∀ o, w.live? h = some o → o.checks = {}) (method : Method)
    (outcome : Except Failure Value) : (finishScript host h method outcome).exec w = some (outcome, w) := by
  unfold finishScript
  cases outcome with
  | error e => rfl
  | ok value =>
    rw [Action.exec_bind_of_ok (Action.exec_resume _ w),
      Action.exec_bind_of_ok (exec_checkAssertions_of_forall unchecked _ _)]
    rfl

/-- In its frame, such a method runs the next one. -/
theorem PassesOn.exec_implement {method : Method} (passes : PassesOn method)
    (unchecked : ∀ o, w.live? h = some o → o.checks = {}) (i : Nat) (args : List Value) (mods : CallModifiers) :
    (implement (Script.hostOfDepth (depth + 1)) i h method args mods).exec w =
      ((next (Script.hostOfDepth depth) none).exec w).bind fun (r, x) =>
        (finishScript (Script.hostOfDepth (depth + 1)) h method r).exec x := by
  obtain ⟨p, rest, noCheck, body⟩ := passes.body
  have checked : (checkAssertions (Script.hostOfDepth (depth + 1)) h method .before).exec w = some (.ok ⟨⟩, w) :=
    exec_checkAssertions_of_forall unchecked _ _
  unfold implement
  simp only [body]
  unfold runScript
  rw [Action.exec_bind_of_ok (Action.exec_get w), parse_rest _ rest noCheck]
  dsimp only
  rw [Action.exec_bind_of_ok checked, Action.exec_bind]
  change ((next (Script.hostOfDepth depth) none).exec w).bind _ = _
  congr 1
  funext ⟨r, x⟩
  cases r <;> rfl

theorem unchecked_modify {f : Object → Object} (blind : ∀ o, (f o).deleted = o.deleted ∧ (f o).checks = o.checks)
    (unchecked : ∀ o, w.live? h = some o → o.checks = {}) :
    ∀ o, World.live? { w with objects := w.objects.modify h f } h = some o → o.checks = {} := by
  intro o live
  obtain ⟨found, alive⟩ := World.live?_eq_some_iff.1 live
  rw [Heap.get?_modify, if_pos rfl] at found
  obtain ⟨p, there, rfl⟩ := Option.map_eq_some_iff.1 found
  rw [(blind p).2]
  exact unchecked p (World.live?_eq_some_iff.2 ⟨there, (blind p).1.symm.trans alive⟩)

/-- A frame of a method whose result is not checked concludes with what it has come to. -/
theorem exec_conclude_of_unchecked {method : Method} (runs : frame.method = some method)
    (unchecked : method.returns = none) (notDue : frame.unknownDue = false) (outcome : Except Failure Value) (w : World) :
    (conclude host frame outcome).exec w = some (outcome, w) := by
  unfold conclude
  cases outcome with
  | error e => rfl
  | ok value =>
    rw [Action.exec_bind_of_ok (Action.exec_resume _ _), Action.exec_bind_of_ok (Action.exec_get _)]
    have passed : checkResult w frame value = .ok value := by rw [checkResult, runs, Option.bind_some, unchecked]
    rw [passed, Action.exec_bind_of_ok (Action.exec_resume _ _), notDue, if_neg Bool.false_ne_true]
    rfl

/-- Such a filter looks for the next method, which it runs two levels deeper, and closes its frame. -/
theorem PassesOn.exec_enter (passes : PassesOn resolved.method) (filter : resolved.kind = .filter true)
    (unchecked : ∀ o, v.live? h = some o → o.checks = {})
    (is : frame = frameFor h called resolved resolved.method args {}) :
    (enter (Script.hostOfDepth (depth + 2)) h called resolved args {}).exec v =
      ((passOn (Script.hostOfDepth depth) v.stack.depth frame none false).exec (v.opened frame)).bind fun (r, x) =>
        ((finishScript (Script.hostOfDepth (depth + 1)) h resolved.method r).exec (x.restored h
          ((filterPosition? (v.opened frame) h).bind (·.current)) (mixinPosition (v.opened frame) h))).bind
            fun (r, y) => (close (Script.hostOfDepth (depth + 1)) r).exec y := by
  have object : frame.object = h := by rw [is, frameFor]
  have arguments : frame.arguments = args := by rw [is, frameFor]
  have kind : frame.kind = .filter true := by rw [is, frameFor, filter]
  have visible : frame.visible = true := by
    rw [is, frameFor, filter]
    simp
  have here : (v.opened frame).stack.get? v.stack.depth = some frame := FrameStack.get?_push _ _
  have index : (v.opened frame).stack.activeIndex? = some v.stack.depth := FrameStack.activeIndex?_push _ visible
  have goesOn : (next (Script.hostOfDepth depth) none).exec (v.opened frame) =
      (nextFrom (Script.hostOfDepth depth) v.stack.depth none false).exec (v.opened frame) := by
    have single : ((v.opened frame).stack.get? v.stack.depth).any (·.kind == .ensemble) = false := by
      rw [here, Option.any_some, kind]
      rfl
    unfold next
    rw [Action.exec_bind_of_ok (Action.exec_get _)]
    dsimp only
    rw [index]
    dsimp only
    rw [single, if_neg Bool.false_ne_true]
  have alone : ∀ o, (v.opened frame).live? h = some o → o.checks = {} := by
    unfold World.opened
    rw [object]
    exact unchecked_modify (fun _ => ⟨rfl, rfl⟩) unchecked
  have runs : (enter (Script.hostOfDepth (depth + 2)) h called resolved args {}).exec v =
      (run (Script.hostOfDepth (depth + 1)) frame resolved.method {}).exec v := by
    rw [Invocation.exec_enter h called args {} passes.direct, ← is]
    rfl
  rw [runs, exec_run, object, arguments, passes.exec_implement alone, goesOn, exec_nextFrom here, object,
    Option.bind_assoc, Option.bind_map]
  rfl

end Invocation

/-! ## Coming back -/

namespace Lineup.Screened

variable {line : Lineup} {host : Host} {u v w : World} {frames : List Frame} {frame : Frame} {held i : Nat}
  {method : Method} {filter : Option FilterKey} {mixin : Option Handle}

/-- Once the next call of a filter that only passes its call on has come to an outcome, its frame closes with the same
outcome. -/
theorem closes
    (screened : line.Screened w true (frames ++ [{ frame with runsNext := true, kind := frame.kind.deactivated }])
      (held + 1) u v)
    (index : i = w.stack.depth + frames.length) (passes : PassesOn method) (runs : frame.method = some method)
    (object : frame.object = line.receiver) (idle : frame.runsNext = false) (notDue : frame.unknownDue = false)
    (filterPushed : frame.pushedFilterPosition = frames.isEmpty)
    (mixinPushed : frame.pushedMixinPosition = (frames.isEmpty && !line.mixins.isEmpty))
    (before : line.mixins = [] → mixin = mixinPosition w line.receiver) (outcome : Except Failure Value) :
    ∃ x, ((finishScript host line.receiver method outcome).exec
        ((backFrom i frame.kind v).restored line.receiver filter mixin)).bind (fun (r, y) => (close host r).exec y) =
      some (outcome, x) ∧ line.Screened w (!frames.isEmpty) frames held u x := by
  have back : line.Screened w true (frames ++ [frame]) (held + 1) u (backFrom i frame.kind v) := by
    have marked := screened.marked index fun f => { f with runsNext := false, kind := frame.kind }
    -- The frame was not running a next call when it was entered, so that setting it back leaves no mark.
    have same : ({ frame with runsNext := false, kind := frame.kind } : Frame) = frame := by
      cases frame
      cases idle
      rfl
    rw [same] at marked
    exact marked
  have unchecked : ∀ o, World.live? ((backFrom i frame.kind v).restored line.receiver filter mixin) line.receiver =
      some o → o.checks = {} := unchecked_modify (fun _ => ⟨rfl, rfl⟩) fun o live => back.unchecked_live live
  have top : ((backFrom i frame.kind v).restored line.receiver filter mixin).stack.top? = some frame := by
    change (backFrom i frame.kind v).stack.top? = _
    rw [back.stack_eq, FrameStack.top?, ← List.append_assoc, List.getLast?_concat]
  refine ⟨_, ?_, (back.unstacked object filterPushed mixinPushed filter before).letGo⟩
  rw [exec_finishScript unchecked, Option.bind_some]
  dsimp only
  rw [exec_close_of_top top, object, exec_conclude_of_unchecked runs passes.unchecked notDue]
  rfl

/-- Where nothing is behind the filter, its frame closes as the call of an unknown method. -/
theorem closes_due (screened : line.Screened w true (frames ++ [frame]) held u v) (passes : PassesOn method)
    (runs : frame.method = some method) (object : frame.object = line.receiver) (due : frame.unknownDue = true)
    (filterPushed : frame.pushedFilterPosition = frames.isEmpty)
    (mixinPushed : frame.pushedMixinPosition = (frames.isEmpty && !line.mixins.isEmpty)) (filter : Option FilterKey)
    {mixin : Option Handle} (before : line.mixins = [] → mixin = mixinPosition w line.receiver) (value : Value) :
    line.Screened w (!frames.isEmpty) frames held u ((v.restored line.receiver filter mixin).unstacked frame) ∧
      ((finishScript host line.receiver method (.ok value)).exec (v.restored line.receiver filter mixin)).bind
          (fun (r, y) => (close host r).exec y) =
        lettingGo line.receiver ((answerUnknown host line.receiver frame.called frame.arguments).exec
          ((v.restored line.receiver filter mixin).unstacked frame)) := by
  have unchecked : ∀ o, World.live? (v.restored line.receiver filter mixin) line.receiver = some o → o.checks = {} :=
    unchecked_modify (fun _ => ⟨rfl, rfl⟩) fun o live => screened.unchecked_live live
  have top : (v.restored line.receiver filter mixin).stack.top? = some frame := by
    change v.stack.top? = _
    rw [screened.stack_eq, FrameStack.top?, ← List.append_assoc, List.getLast?_concat]
  refine ⟨screened.unstacked object filterPushed mixinPushed filter before, ?_⟩
  rw [exec_finishScript unchecked, Option.bind_some]
  dsimp only
  rw [exec_close_of_due top due, object]
  rw [checkResult, runs, Option.bind_some, passes.unchecked]

end Lineup.Screened

/-! ## Entering a filter -/

namespace Lineup

variable {line : Lineup} {host : Host} {s u v w : World} {frames : List Frame} {e t : Resolved} {args : List Value}
  {rest : List Resolved} {enough : Nat} {straight : Host → Action Value}

/-- A filter as it is entered: positions are pushed for the first one that is open. -/
def entered (line : Lineup) (frames : List Frame) (e : Resolved) : Resolved :=
  { e with
    pushedFilterPosition := frames.isEmpty
    pushedMixinPosition := frames.isEmpty && !line.mixins.isEmpty }

/-- The frame of a filter while it is open. -/
def passing (line : Lineup) (frames : List Frame) (e : Resolved) (args : List Value) : Frame :=
  { frameFor line.receiver line.name (line.entered frames e) e.method args {} with
    kind := .filter false
    runsNext := true }

/-- The frame in which a filter is entered. -/
def filterFrame (line : Lineup) (frames : List Frame) (e : Resolved) (args : List Value) : Frame :=
  frameFor line.receiver line.name (line.entered frames e) e.method args {}

theorem deepens_enter (h : Handle) (called : String) (resolved : Resolved) (args : List Value) (mods : CallModifiers) :
    Deepens fun k => enter k h called resolved args mods :=
  fun _ _ covered => covered_enter covered h called resolved args mods

theorem deepens_answerUnknown (h : Handle) (name : String) (args : List Value) :
    Deepens fun k => answerUnknown k h name args :=
  fun _ _ covered => (@composed_answerUnknown False h name args).covered covered False.elim

theorem Screened.mixinPosition_eq (screened : line.Screened w true frames frames.length u v) (ready : line.Ready v)
    (unmixed : line.mixins = []) : mixinPosition v line.receiver = mixinPosition w line.receiver := by
  obtain ⟨o, found, -⟩ := ready.exists_live
  rw [mixinPosition, mixinPositions, found]
  exact screened.position unmixed o found

/-- What is left of the frame of a filter once its next call has come to an outcome. -/
def comeBack (line : Lineup) (frame : Frame) (method : Method) (v : World) (host : Host) :
    Except Failure Value × World → Option (Except Failure Value × World)
  | (r, x) => ((finishScript host line.receiver method r).exec ((backFrom v.stack.depth frame.kind x).restored
      line.receiver ((filterPosition? v line.receiver).bind (·.current)) (mixinPosition v line.receiver))).bind
        fun (r, y) => (close host r).exec y

/-- Opening a frame does not move positions. -/
theorem positions_opened {frame : Frame} (object : frame.object = line.receiver) :
    filterPosition? (v.opened frame) line.receiver = filterPosition? v line.receiver ∧
      mixinPosition (v.opened frame) line.receiver = mixinPosition v line.receiver := by
  have there : (v.opened frame).objects.get? line.receiver =
      (v.objects.get? line.receiver).map fun o => { o with holders := o.holders + 1 } := by
    unfold World.opened
    rw [object, Heap.get?_modify, if_pos rfl]
  unfold filterPosition? mixinPosition mixinPositions
  rw [there]
  cases v.objects.get? line.receiver <;> exact ⟨rfl, rfl⟩

/-- The world in which nothing is found behind a filter and its frame is closed: it is entered in `v`, and the search has
come to `x`. -/
def fallenThrough (line : Lineup) (frame : Frame) (v x : World) : World :=
  World.unstacked (World.restored
      { x with stack := x.stack.modify v.stack.depth fun f => { f with unknownDue := true } } line.receiver
      ((filterPosition? v line.receiver).bind (·.current)) (mixinPosition v line.receiver))
    { frame with unknownDue := true }

theorem Ready.fallenThrough {frame : Frame} {x : World} (ready : line.Ready x) (object : frame.object = line.receiver)
    (v : World) : Proper (line.fallenThrough frame v x) ∧
      ∃ o, (line.fallenThrough frame v x).live? line.receiver = some o := by
  obtain ⟨filter, position⟩ : ∃ filter, filter = (filterPosition? v line.receiver).bind (·.current) := ⟨_, rfl⟩
  have objects : (line.fallenThrough frame v x).objects =
      (x.objects.modify line.receiver (Object.restored filter (mixinPosition v line.receiver))).modify line.receiver
        (Object.lowered frame.pushedFilterPosition frame.pushedMixinPosition) := by
    rw [position]
    unfold Lineup.fallenThrough World.unstacked World.lowered World.restored
    rw [object]
  have alike : Heap.Alike Object.core x.objects (line.fallenThrough frame v x).objects := by
    rw [objects]
    refine Heap.Alike.trans ?_ (Heap.Alike.modify _ _ fun _ => rfl)
    exact Heap.Alike.modify _ _ fun _ => rfl
  obtain ⟨o, -, live, -⟩ := ready.exists_live
  obtain ⟨found, alive⟩ := World.live?_eq_some_iff.1 live
  have beside : Beside x (line.fallenThrough frame v x) := by
    refine ⟨alike, ?_, ?_, ?_, le_of_eq ?_⟩ <;>
      unfold Lineup.fallenThrough World.unstacked World.lowered World.restored <;> rfl
  have there : (line.fallenThrough frame v x).objects.get? line.receiver = some
      ((o.restored filter (mixinPosition v line.receiver)).lowered frame.pushedFilterPosition
        frame.pushedMixinPosition) := by
    rw [objects, Heap.get?_modify, if_pos rfl, Heap.get?_modify, if_pos rfl, found]
    rfl
  exact ⟨ready.proper.beside beside, _, World.live?_eq_some_iff.2 ⟨there, alive⟩⟩

section enter

variable {frame : Frame} {found : Option Resolved} {done : Bool} {x : World} {depth : Nat}
  (is : frame = line.filterFrame frames e args) (screened : line.Screened w true frames frames.length u v)
  (passes : PassesOn e.method) (filter : e.kind = .filter true)
  (behind : (continuation (Script.hostOfDepth enough) frame).exec (v.opened frame) = some (.ok ⟨found, done⟩, x))
  (searched : line.Searched (v.opened frame) x)

include is screened passes filter behind

omit screened passes filter is in
/-- What is found on some host is found on those of more depth. -/
theorem continuation_of_le (within : enough ≤ depth) :
    (continuation (Script.hostOfDepth depth) frame).exec (v.opened frame) = some (.ok ⟨found, done⟩, x) :=
  (composed_continuation frame).covered (coveredBy_of_le within) False.elim _ _ behind

/-- A filter that only passes its call on enters the element behind it, two levels deeper. -/
theorem exec_enter_of_found (is' : found = some t) (within : enough ≤ depth) :
    (enter (Script.hostOfDepth (depth + 2)) line.receiver line.name (line.entered frames e) args {}).exec v =
      ((enter (Script.hostOfDepth depth) line.receiver line.name t args {}).exec
        (offTo v.stack.depth frame.kind x)).bind
          (line.comeBack frame e.method v (Script.hostOfDepth (depth + 1))) := by
  have passed : (passOn (Script.hostOfDepth depth) v.stack.depth frame none false).exec (v.opened frame) =
      ((enter (Script.hostOfDepth depth) line.receiver line.name t args {}).exec (offTo v.stack.depth frame.kind x)).map
        fun (r, y) => (r, backFrom v.stack.depth frame.kind y) := by
    unfold passOn
    rw [Action.exec_bind_of_ok (continuation_of_le behind within), is']
    dsimp only
    rw [exec_duringNext, is]
    rfl
  have positions := @positions_opened line v frame (by rw [is]; rfl)
  have unchecked : ∀ o, v.live? line.receiver = some o → o.checks = {} := fun o live => screened.unchecked_live live
  rw [@PassesOn.exec_enter line.receiver line.name (line.entered frames e) args frame v depth passes filter unchecked is,
    passed, positions.1, positions.2, Option.bind_map]
  rfl

include searched in
/-- Where nothing is behind it, the call has come to an unknown method, one level deeper. -/
theorem exec_enter_of_nothing (is' : found = none) (done' : done = true) (within : enough ≤ depth)
    (ready : line.Ready v) :
    line.Screened w (!frames.isEmpty) frames (frames.length + 1) u (line.fallenThrough frame v x) ∧
      (enter (Script.hostOfDepth (depth + 2)) line.receiver line.name (line.entered frames e) args {}).exec v =
        lettingGo line.receiver
          ((answerUnknown (Script.hostOfDepth (depth + 1)) line.receiver line.name args).exec
            (line.fallenThrough frame v x)) := by
  have passed : (passOn (Script.hostOfDepth depth) v.stack.depth frame none false).exec (v.opened frame) =
      some (.ok .nil, { x with stack := x.stack.modify v.stack.depth fun f => { f with unknownDue := true } }) := by
    unfold passOn
    rw [Action.exec_bind_of_ok (continuation_of_le behind within), is', done']
    rfl
  have positions := @positions_opened line v frame (by rw [is]; rfl)
  have unchecked : ∀ o, v.live? line.receiver = some o → o.checks = {} := fun o live => screened.unchecked_live live
  obtain ⟨o, -, live, -⟩ := ready.exists_live
  have opened : line.Screened w true (frames ++ [frame]) (frames.length + 1) u (v.opened frame) :=
    screened.opened live (by rw [is]; rfl)
  have due := (opened.searched searched).marked screened.depth_eq fun f => { f with unknownDue := true }
  obtain ⟨after, ends⟩ := @Screened.closes_due _ (Script.hostOfDepth (depth + 1)) _ _ _ _ _ _ _ due passes
    (by rw [is]; rfl) (by rw [is]; rfl) rfl (by rw [is]; rfl) (by rw [is]; rfl)
    ((filterPosition? v line.receiver).bind (·.current)) _ (screened.mixinPosition_eq ready) .nil
  refine ⟨after, ?_⟩
  rw [@PassesOn.exec_enter line.receiver line.name (line.entered frames e) args frame v depth passes filter unchecked is,
    passed, positions.1, positions.2, Option.bind_some]
  refine ends.trans ?_
  rw [is]
  rfl

end enter

section agree

variable {frame : Frame} (stands : line.At e v) (screened : line.Screened w true frames frames.length u v)
  (passes : PassesOn e.method) (filter : e.kind = .filter true)
  (continues : line.Continues (Script.hostOfDepth enough) (line.filterFrame frames e args)
    (v.opened (line.filterFrame frames e args)) rest)

include stands screened passes filter continues

/-- Entering a filter that only passes its call on comes to what is come to without it, if entering the element behind
it does. -/
theorem agree_of_found (first : rest.head? = some t)
    (inside : ∀ x, line.At t x →
      line.Screened w true (frames ++ [line.passing frames e args]) (frames.length + 1) u x →
      Agree (line.Screened w true (frames ++ [line.passing frames e args]) (frames.length + 1)) straight s
        (fun k => enter k line.receiver line.name t args {}) x) :
    Agree (line.Screened w (!frames.isEmpty) frames frames.length) straight s
      (fun k => enter k line.receiver line.name (line.entered frames e) args {}) v := by
  obtain ⟨frame, is⟩ : ∃ frame, frame = line.filterFrame frames e args := ⟨_, rfl⟩
  rw [← is] at continues
  obtain ⟨done, x, found, searched, -, there⟩ := continues
  obtain ⟨o, -, live, -⟩ := stands.toReady.exists_live
  have kind : frame.kind = .filter true := by rw [is]; exact filter
  have opened : line.Screened w true (frames ++ [frame]) (frames.length + 1) u (v.opened frame) :=
    screened.opened live (by rw [is]; rfl)
  have marked := (opened.searched searched).marked screened.depth_eq fun f =>
    { f with runsNext := true, kind := frame.kind.deactivated }
  have passing : ({ frame with runsNext := true, kind := frame.kind.deactivated } : Frame) =
      line.passing frames e args := by
    rw [kind, is]
    rfl
  rw [passing] at marked
  have agree := inside _ ((there t first).offTo v.stack.depth frame.kind) marked
  have around := fun depth (within : enough ≤ depth) =>
    exec_enter_of_found is screened passes filter found first within
  refine agree.of_right (deepens_enter _ _ _ _ _) (deepens_enter _ _ _ _ _) around fun depth r y z related => ?_
  rw [← passing] at related
  exact related.closes screened.depth_eq passes (by rw [is]; rfl) (by rw [is]; rfl) (by rw [is]; rfl) (by rw [is]; rfl)
      (by rw [is]; rfl) (by rw [is]; rfl) (screened.mixinPosition_eq stands.toReady) r

/-- Where nothing is behind it, it comes to what is come to without it if that is the call of an unknown method. -/
theorem agree_of_nothing (last : rest.head? = none)
    (answers : ∀ y, Proper y → (∃ o, y.live? line.receiver = some o) →
      line.Screened w (!frames.isEmpty) frames (frames.length + 1) u y →
      Agree (line.Screened w (!frames.isEmpty) frames (frames.length + 1)) straight s
        (fun k => answerUnknown k line.receiver line.name args) y) :
    Agree (line.Screened w (!frames.isEmpty) frames frames.length) straight s
      (fun k => enter k line.receiver line.name (line.entered frames e) args {}) v := by
  obtain ⟨frame, is⟩ : ∃ frame, frame = line.filterFrame frames e args := ⟨_, rfl⟩
  rw [← is] at continues
  obtain ⟨done, x, found, searched, ready, -⟩ := continues
  have isFilter : frame.kind.isFilter = true := by
    have kind : frame.kind = .filter true := by rw [is]; exact filter
    rw [kind]
    rfl
  have done' : done = true := filtersDone_of_continuation isFilter found last
  have entered := fun depth (within : enough ≤ depth) =>
    exec_enter_of_nothing is screened passes filter found searched last done' within stands.toReady
  have object : frame.object = line.receiver := by rw [is]; rfl
  obtain ⟨proper, lives⟩ := ready.fallenThrough object v
  -- The frame is closed before the call of an unknown method is answered: only letting go of the receiver is left.
  have around : ∀ depth, enough + 1 ≤ depth →
      (enter (Script.hostOfDepth (depth + 1)) line.receiver line.name (line.entered frames e) args {}).exec v =
        ((answerUnknown (Script.hostOfDepth depth) line.receiver line.name args).exec (line.fallenThrough frame v x)).bind
          fun result => some (result.1, ((letGo line.receiver).exec result.2).2) := by
    intro depth within
    obtain ⟨depth, rfl⟩ := Nat.exists_eq_add_of_le' (Nat.le_trans (Nat.le_add_left 1 enough) within)
    exact ((entered depth (Nat.le_of_succ_le_succ within)).2).trans (Option.map_eq_bind ..)
  exact (answers _ proper lives (entered enough le_rfl).1).of_right (deepens_enter _ _ _ _ _)
    (deepens_answerUnknown _ _ _) around fun _ _ _ _ related => ⟨_, rfl, related.letGo⟩

end agree

/-! ## Chains of filters -/

theorem entered_of_filterLink {lets : Predicate → Bool} {entry : FilterEntry}
    (link : line.filterLink lets entry = some e) (open' : frames ≠ []) : line.entered frames e = e := by
  have none : frames.isEmpty = false := List.isEmpty_eq_false_iff.2 open'
  rw [eq_of_filterLink link, entered, none]
  rfl

/-- The frames of filters of a lineup that are running next calls. -/
def AllPassing (line : Lineup) (frames : List Frame) : Prop :=
  ∀ f ∈ frames, f.object = line.receiver ∧ f.kind = .filter false ∧ f.runsNext = true

theorem AllPassing.concat (all : line.AllPassing frames) (e : Resolved) (args : List Value) :
    line.AllPassing (frames ++ [line.passing frames e args]) := by
  intro f member
  rcases List.mem_append.1 member with before | last
  · exact all f before
  · rw [List.mem_singleton.1 last]
    exact ⟨rfl, rfl, rfl⟩

section chain

variable {lets : Predicate → Bool} (distinct : line.Distinct)
  (judges : ∀ frames held x o, line.Screened w true frames held u x → x.live? line.receiver = some o →
    line.Judges (Script.hostOfDepth enough) lets x)
  (passes : ∀ entry ∈ line.filters, PassesOn entry.method)
  (target : ∀ t, (line.unfilteredChain lets).head? = some t → ∀ frames x, frames ≠ [] → line.AllPassing frames →
    line.At t x → line.Screened w true frames frames.length u x →
    Agree (line.Screened w true frames frames.length) straight s
      (fun k => enter k line.receiver line.name t args {}) x)
  (answers : (line.unfilteredChain lets).head? = none → ∀ frames y, line.AllPassing frames → Proper y →
    (∃ o, y.live? line.receiver = some o) → line.Screened w (!frames.isEmpty) frames (frames.length + 1) u y →
    Agree (line.Screened w (!frames.isEmpty) frames (frames.length + 1)) straight s
      (fun k => answerUnknown k line.receiver line.name args) y)

include distinct judges passes target answers

/-- Filters that only pass their calls on come to what is come to without them. -/
theorem agree_filters {before after : List FilterEntry} {entry : FilterEntry}
    (split : line.filters = before ++ entry :: after) (link : line.filterLink lets entry = some e)
    (all : line.AllPassing frames) (stands : line.At e v) (screened : line.Screened w true frames frames.length u v) :
    Agree (line.Screened w (!frames.isEmpty) frames frames.length) straight s
      (fun k => enter k line.receiver line.name (line.entered frames e) args {}) v := by
  -- The induction is on how many filters are left behind this one, each of which is entered with one more frame open.
  obtain ⟨n, size⟩ : ∃ n, n = after.length := ⟨_, rfl⟩
  induction n using Nat.strong_induction_on generalizing before after entry e frames v with
  | _ n ih =>
  have member : entry ∈ line.filters := split ▸ List.mem_append_right _ List.mem_cons_self
  have kind : e.kind = .filter true := by rw [eq_of_filterLink link]
  have passesOn : PassesOn e.method := by
    rw [eq_of_filterLink link]
    exact passes entry member
  obtain ⟨o, -, live, -⟩ := stands.toReady.exists_live
  have opened : line.Screened w true (frames ++ [line.filterFrame frames e args]) (frames.length + 1) u
      (v.opened (line.filterFrame frames e args)) := screened.opened live rfl
  have standsOpened := stands.opened (line.filterFrame frames e args)
  obtain ⟨p, -, liveOpened, -⟩ := standsOpened.toReady.exists_live
  have continues := (Place.filter split link).continues (judges _ _ _ p opened liveOpened) distinct standsOpened
    (show line.Runs e (line.filterFrame frames e args) from ⟨rfl, rfl, rfl, rfl, rfl, rfl⟩)
  have goesOn : frames ++ [line.passing frames e args] ≠ [] :=
    List.append_ne_nil_of_right_ne_nil _ (List.cons_ne_nil _ _)
  have shown : (!(frames ++ [line.passing frames e args]).isEmpty) = true := by
    rw [List.isEmpty_eq_false_iff.2 goesOn]
    rfl
  cases next : (after.filterMap (line.filterLink lets)).head? with
  | some e' =>
    have first : (after.filterMap (line.filterLink lets) ++ line.unfilteredChain lets).head? = some e' := by
      rw [List.head?_append, next]
      rfl
    rw [List.head?_eq_getElem?] at next
    obtain ⟨passed, entry', after', split', link', -⟩ := exists_of_getElem?_filterMap next
    refine agree_of_found stands screened passesOn kind continues first fun x there related => ?_
    have shorter : after'.length < n := by
      rw [size, split', List.length_append, List.length_cons]
      omega
    have further : line.filters = (before ++ entry :: passed) ++ entry' :: after' := by
      rw [split, split', List.append_assoc, List.cons_append]
    have inner := ih after'.length shorter further link' (all.concat e args) there
      (by rw [List.length_append]; exact related) rfl
    rw [entered_of_filterLink link' goesOn, shown, List.length_append] at inner
    exact inner
  | none =>
    have same : (after.filterMap (line.filterLink lets) ++ line.unfilteredChain lets).head? =
        (line.unfilteredChain lets).head? := by
      rw [List.head?_append, next, Option.none_or]
    cases first : (line.unfilteredChain lets).head? with
    | some t =>
      refine agree_of_found stands screened passesOn kind continues (same.trans first) fun x there related => ?_
      have inner := target t first _ x goesOn (all.concat e args) there (by rw [List.length_append]; exact related)
      rw [List.length_append] at inner
      exact inner
    | none =>
      exact agree_of_nothing stands screened passesOn kind continues (same.trans first) fun y proper lives related =>
        answers first frames y all proper lives related

end chain

end Lineup

end DynamicObjects
