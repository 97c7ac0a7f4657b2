import DynamicObjects.Proofs.Runs.Callers
import DynamicObjects.Proofs.Runs.Implementing

/-!
# Calls that find no method

A call that finds no method is put to the installed handler. If that declines, the call goes to the method of the system
for unknown calls, where the receiver itself or one of its classes has that. Mixins are not looked at: a method that only
they have is left alone, though calls would find it. Where a filter goes on to nothing, all this is left to the closing of
its frame.
-/
namespace DynamicObjects

open Invocation

variable {host : Host} {v w x : World} {h : Handle} {o : Object} {name : String} {args : List Value}

/-! ## Answers -/

theorem exists_live_of_unknownMethod? {m : String} (known : unknownMethod? w h = some m) : ∃ o, w.live? h = some o := by
  unfold unknownMethod? at known
  cases live : w.live? h with
  | none => rw [live] at known; cases known
  | some o => exact ⟨o, rfl⟩

/-- A call of `name` is handed on to the method `m` for unknown calls. -/
def handOn (host : Host) (h : Handle) (m name : String) (args : List Value) : Action Value :=
  host.call h m (.text name :: args) { ignorePermissions := true, noUnknown := true }

/-- What comes of a call of `name` on `h` that found no method, once the handler has declined in `x`. -/
structure Unanswered (host : Host) (h : Handle) (name : String) (args : List Value) (x : World)
    (result : Option (Except Failure Value × World)) : Prop where
  /-- The method for unknown calls is called where the receiver or one of its classes has it. -/
  handsOn : ∀ m, unknownMethod? x h = some m → m ≠ name → (x.lineup h m).plainChain ≠ [] →
    ∃ y, Consulted x y ∧ result = (handOn host h m name args).exec y
  /-- Otherwise the call fails. -/
  refuses : (∀ m, unknownMethod? x h = some m → m ≠ name → (x.lineup h m).plainChain = []) →
    ∃ y, Consulted x y ∧ result = some (.error (.unknown (x.nameOf h) name), y)

theorem Consulted.nameOf (consulted : Consulted v w) (h : Handle) : w.nameOf h = v.nameOf h := by
  have names : (w.objects.get? h).map (·.name) = (v.objects.get? h).map (·.name) :=
    (consulted.alike.comp (·.name) fun _ => rfl).view h
  unfold World.nameOf Heap.nameOf
  rw [names]

/-- A call that found no method goes to the method for unknown calls, or it fails. -/
theorem exec_answerUnknown (proper : Proper x) (current : MixinOrdersCurrent x)
    (declines : (askHandler host h name args).exec w = some (.ok none, x)) :
    Unanswered host h name args x ((answerUnknown host h name args).exec w) := by
  have fails : ∀ {y}, Consulted x y → (do throw (.unknown (← Update.nameOf h) name) : Action Value).exec y =
      some (.error (.unknown (x.nameOf h) name), y) := fun consulted => consulted.nameOf h ▸ rfl
  have looks : ∀ m, unknownMethod? x h = some m → ∃ found y, (searchObject h m).exec x = (.ok found, y) ∧
      Consulted x y ∧ found.isSome = !(x.lineup h m).plainChain.isEmpty := by
    intro m known
    obtain ⟨o, live⟩ := exists_live_of_unknownMethod? known
    obtain ⟨b, found, filled, searched, same⟩ := (World.located_lineup proper live m).isSome_searchObject proper
    exact ⟨found, _, searched, .filled proper current filled, same⟩
  unfold answerUnknown
  rw [Action.exec_bind_of_ok declines]
  dsimp only
  rw [Action.exec_bind_of_ok (Action.exec_get x)]
  constructor
  case handsOn =>
    intro m known other present
    obtain ⟨found, y, searched, consulted, same⟩ := looks m known
    refine ⟨y, consulted, ?_⟩
    have first : (unknownMethod? x h).filter (· ≠ name) = some m := by
      rw [known, Option.filter_some, if_pos (decide_eq_true other)]
    simp only [first]
    rw [Action.exec_liftM_bind_of_ok searched, same, List.isEmpty_eq_false_iff.2 present, Bool.not_false, if_pos rfl]
    rfl
  case refuses =>
    intro absent
    cases first : (unknownMethod? x h).filter (· ≠ name) with
    | none => exact ⟨x, .refl proper current, fails (.refl proper current)⟩
    | some m =>
      obtain ⟨known, other⟩ := Option.filter_eq_some_iff.1 first
      obtain ⟨found, y, searched, consulted, same⟩ := looks m known
      refine ⟨y, consulted, ?_⟩
      dsimp only
      rw [Action.exec_liftM_bind_of_ok searched, same, absent m known (of_decide_eq_true other), List.isEmpty_nil,
        Bool.not_true, if_neg Bool.false_ne_true]
      exact fails consulted

/-! ## Frames that answer when they close -/

/-- Unknown handling is left to the closing of the frame `i`. -/
def FrameStack.DueAt (s : FrameStack) (i : Nat) : Prop :=
  ∃ f, s.get? i = some f ∧ f.unknownDue = true

/-- The world once a frame has been taken from the stack, and the positions that were pushed for it. -/
def World.unstacked (w : World) (frame : Frame) : World :=
  World.lowered { w with stack := w.stack.pop } frame.object frame.pushedFilterPosition frame.pushedMixinPosition

/-- An action at whose end an object is let go of. -/
def lettingGo (h : Handle) : Option (Except Failure Value × World) → Option (Except Failure Value × World) :=
  Option.map fun (r, v) => (r, ((letGo h).exec v).2)

/-- Closing a frame comes to what it concludes with once its positions are popped, and to letting go of its receiver. -/
theorem exec_close_of_top {g : Frame} (top : w.stack.top? = some g) (outcome : Except Failure Value) :
    (close host outcome).exec w = lettingGo g.object ((conclude host g outcome).exec (w.unstacked g)) := by
  unfold close
  rw [Action.exec_bind_of_ok (Action.exec_get w)]
  simp only [top]
  rw [Action.exec_bind_of_ok (Action.exec_modify _ w), Action.exec_liftM_bind_of_ok (exec_popPositions _ _ _ _),
    Action.exec_settle_bind]
  change ((conclude host g outcome).exec (w.unstacked g)).bind _ = _
  cases (conclude host g outcome).exec (w.unstacked g) with
  | none => rfl
  | some result =>
    obtain ⟨r, v⟩ := result
    obtain ⟨u, lets, -⟩ := exec_letGo ⟨Heap.HandlesRemain, False⟩ g.object v
    rw [Option.bind_some, lettingGo, Option.map_some]
    dsimp only
    rw [lets]
    exact (Action.exec_liftM_bind_of_ok lets _).trans (Action.exec_resume r u)

/-- Where unknown handling is due, a frame that ends well is closed by it. -/
theorem exec_close_of_due {g : Frame} (top : w.stack.top? = some g) (due : g.unknownDue = true) {value : Value}
    (passes : checkResult (w.unstacked g) g value = .ok value) : (close host (.ok value)).exec w =
      lettingGo g.object ((answerUnknown host g.object g.called g.arguments).exec (w.unstacked g)) := by
  rw [exec_close_of_top top]
  congr 1
  unfold conclude
  rw [Action.exec_bind_of_ok (Action.exec_resume _ _), Action.exec_bind_of_ok (Action.exec_get _), passes,
    Action.exec_bind_of_ok (Action.exec_resume _ _), if_pos due]

theorem exec_run (frame : Frame) (method : Method) (mods : CallModifiers) : (run host frame method mods).exec w =
    ((implement host w.stack.depth frame.object method frame.arguments mods).exec (w.opened frame)).bind
      fun (r, v) => (close host r).exec v := by
  unfold run
  rw [Action.exec_bind_of_ok (Action.exec_get w), Action.exec_bind_of_ok (Action.exec_modify _ w),
    Action.exec_liftM_bind_of_ok (rfl : (hold frame.object).exec _ = (.ok ⟨⟩, w.opened frame)), Action.exec_settle_bind]

/-- A method that has run leaves its frame on top of the stack; marks and ensembles apart, it is the one that was opened. -/
theorem exists_top_of_implement (marks : host.Marks) {frame : Frame} {method : Method} {mods : CallModifiers}
    {r : Except Failure Value}
    (ran : (implement host w.stack.depth frame.object method frame.arguments mods).exec (w.opened frame) = some (r, v)) :
    ∃ g, v.stack.get? w.stack.depth = some g ∧ v.stack.top? = some g ∧
      g = { frame with runsEnsemble := g.runsEnsemble, runsNext := g.runsNext, unknownDue := g.unknownDue } := by
  obtain ⟨f, same, -, marking, -⟩ := marks.implement w.stack frame frame.object method frame.arguments mods rfl ran
  have rest := marking.get?_atRest w.stack.depth
  rw [FrameStack.get?_push, Option.map_some] at rest
  obtain ⟨g, there, looks⟩ := Option.map_eq_some_iff.1 rest
  refine ⟨g, there, ?_, ?_⟩
  · have depth : v.stack.frames.length = w.stack.depth + 1 := by
      simpa [FrameStack.depth, FrameStack.push] using marking.depth
    rw [FrameStack.top?, List.getLast?_eq_getElem?, depth]
    exact there
  · rw [same] at looks
    cases g
    cases frame
    cases looks
    rfl

/-- A method that ends well while unknown handling is due for its frame ends with that, as a call of what was called for
with the arguments of the frame. -/
theorem exec_run_of_due (marks : host.Marks) {frame : Frame} {method : Method} {mods : CallModifiers}
    {value : Value} (ran : (implement host w.stack.depth frame.object method frame.arguments mods).exec (w.opened frame) =
      some (.ok value, v)) (due : v.stack.DueAt w.stack.depth)
    (passes : checkResult (v.unstacked frame) frame value = .ok value) : (run host frame method mods).exec w =
      lettingGo frame.object ((answerUnknown host frame.object frame.called frame.arguments).exec (v.unstacked frame)) := by
  obtain ⟨g, there, top, same⟩ := exists_top_of_implement marks ran
  obtain ⟨g', here, due⟩ := due
  cases there.symm.trans here
  have unstacked : v.unstacked g = v.unstacked frame := by
    rw [same]
    rfl
  have checks : checkResult (v.unstacked g) g value = .ok value := by
    rw [unstacked, same]
    exact passes
  rw [exec_run, ran]
  refine (exec_close_of_due top due checks).trans ?_
  rw [unstacked, same]

/-- A filter behind which nothing is found has come to the end of the filters. -/
theorem filtersDone_of_continuation {frame : Frame} {found : Continuation} (filter : frame.kind.isFilter = true)
    (behind : (continuation host frame).exec w = some (.ok found, x)) (nothing : found.resolved = none) :
    found.filtersDone = true := by
  unfold continuation at behind
  rw [if_pos filter, Action.exec_bind_of_ok (Action.exec_get w), Action.exec_bind] at behind
  obtain ⟨⟨_ | entry, u⟩, -, behind⟩ := Option.bind_eq_some_iff.1 behind
  · cases behind
  cases entry with
  | some resolved =>
    cases behind
    cases nothing
  | none =>
    dsimp only at behind
    rw [Action.exec_bind] at behind
    obtain ⟨⟨_ | resolved, v⟩, -, behind⟩ := Option.bind_eq_some_iff.1 behind
    · cases behind
    · cases behind
      rfl

/-- A filter that goes on to nothing gets nil, and unknown handling is left to the closing of its frame. -/
theorem exec_nextFrom_of_nothing (marks : host.Marks) {i : Nat} {frame : Frame} {found : Continuation}
    (here : w.stack.get? i = some frame) (filter : frame.kind.isFilter = true)
    (behind : (continuation host frame).exec w = some (.ok found, x)) (nothing : found.resolved = none)
    (args : Option (List Value)) (fromSub : Bool) : ∃ y, (nextFrom host i args fromSub).exec w = some (.ok .nil, y) ∧
      y.stack = w.stack.modify i fun f => { f with unknownDue := true } := by
  have still := (marks.still (composed_continuation frame) _ _ _ behind).stack
  have passed : (passOn host i frame args fromSub).exec w =
      some (.ok .nil, { x with stack := x.stack.modify i fun f => { f with unknownDue := true } }) := by
    unfold passOn
    rw [Action.exec_bind_of_ok behind, nothing]
    simp only [filtersDone_of_continuation filter behind nothing, Bool.true_or, if_true]
    rfl
  refine ⟨_, by rw [exec_nextFrom here, passed]; rfl, ?_⟩
  change x.stack.modify i _ = _
  rw [still]

/-- Where no handler is installed, nothing is asked. -/
theorem exec_askHandler_of_none (none : w.unknownHandler = none) (h : Handle) (name : String) (args : List Value) :
    (askHandler host h name args).exec w = some (.ok .none, w) := by
  unfold askHandler
  rw [Action.exec_bind_of_ok (Action.exec_get w), none]
  rfl

/-! ## Wherever calls find no method -/

/-- What comes of calls in `w` and after it that find no method, where the host runs what they call. -/
structure World.AnswersUnknown (w : World) (host : Host) : Prop where
  /-- Calls on live objects that find no method. -/
  calls : ∀ {h o name args mods u x}, w.live? h = some o → w.stack.depth < w.settings.maxDepth →
    (resolve host h name mods).exec w = some (.ok none, u) → mods.noUnknown = false →
    (askHandler host h name args).exec u = some (.ok none, x) →
      Unanswered host h name args x ((call host h name args mods).exec w)
  /-- A filter that goes on to nothing gets nil. From then on unknown handling is due, however the filter goes on. -/
  leaves : ∀ {i frame found x}, w.stack.get? i = some frame → frame.kind.isFilter = true →
    (continuation host frame).exec w = some (.ok found, x) → found.resolved = none → ∀ args fromSub,
      ∃ y, (nextFrom host i args fromSub).exec w = some (.ok .nil, y) ∧ y.stack.DueAt i ∧
        (frame.runsEnsemble = false → ∀ z, GoesOn Heap.HandlesRemain y z → z.stack.DueAt i)
  /-- A method that ends well while unknown handling is due, ends as a call that finds no method. -/
  closes : ∀ {frame method mods value v x},
    (implement host w.stack.depth frame.object method frame.arguments mods).exec (w.opened frame) = some (.ok value, v) →
    v.stack.DueAt w.stack.depth → checkResult (v.unstacked frame) frame value = .ok value →
    (askHandler host frame.object frame.called frame.arguments).exec (v.unstacked frame) = some (.ok none, x) →
      ∃ result, Unanswered host frame.object frame.called frame.arguments x result ∧
        (run host frame method mods).exec w = lettingGo frame.object result
  /-- A call without filters that ignores permissions finds more than is looked for here: what the receiver or its classes
  have, and besides what mixins have that take part. -/
  finds : w.objects.HandlesRemain → ∀ {h o m lets}, w.live? h = some o → Definition.isQualified m = false →
    (∀ p ∈ (w.lineup h m).guards, GuardConstant Heap.HandlesRemain host lets p) →
      ∃ found x, (resolve host h m { ignorePermissions := true }).exec w.unfiltered = some (.ok found, x) ∧
        (found.isSome = true ↔ (w.lineup h m).plainChain ≠ [] ∨
          ∃ mixin ∈ (w.lineup h m).mixins, ((w.lineup h m).mixesIn (verdicts w lets) mixin).isSome = true)

/-- The system calls `unknown`, which answers with its arguments. The class `C` has it, and so has the mixin `M`, which an
instance `p` of `D` has. An instance `q` of `C` has a filter that goes on. -/
def answeringSession : List Expr :=
  [.createSystem (Trial.text "Object") (Trial.text "Class") { unknown := some (Trial.text "unknown") },
    Trial.createClass "M", Trial.createClass "C", Trial.createClass "D",
    Trial.define .instances "M" (Trial.method "unknown" (.ofWorld .currentArguments)),
    Trial.define .instances "C" (Trial.method "unknown" (.ofWorld .currentArguments)),
    Trial.define .instances "C" (Trial.method "f" (.next none)), Trial.createObject "o" "C", Trial.createObject "p" "D",
    Trial.createObject "q" "C", Trial.addMixin .object "p" "M", Trial.addFilter .object "q" "f"]

def answeringWorld : World :=
  (sessionWithin Heap.HandlesRemain 5 answeringSession).get (by decide +kernel)

theorem reachable_answeringWorld : Reachable Heap.HandlesRemain answeringWorld :=
  .sessionWithin (Option.some_get _).symm

/-- Wherever a reachable world has come to, calls that find no method go to the handler and then to the method for unknown
calls of the receiver or of its classes, at once or when the frame of a filter closes. -/
theorem Reachable.answersUnknown (reached : Reachable Heap.HandlesRemain v) (path : Evolves Heap.HandlesRemain v w)
    (depth : Nat) : w.AnswersUnknown (hostWithin Heap.HandlesRemain depth) := by
  have remains : ∀ a : Objects, a.HandlesRemain → a.HandlesRemain := fun _ remain => remain
  have faithful : Faithful ⟨Heap.HandlesRemain, False⟩ (hostWithin Heap.HandlesRemain depth) :=
    faithful_hostWithin remains depth
  have marks := Host.Marks.hostWithin Heap.HandlesRemain depth
  have proper := (reached.proper remains).evolves remains path
  have current := reached.mixinOrdersCurrent.evolves remains (reached.proper remains) path
  have answered : ∀ {h name args u x}, Evolves Heap.HandlesRemain w u →
      (askHandler (hostWithin Heap.HandlesRemain depth) h name args).exec u = some (.ok none, x) →
      Unanswered (hostWithin Heap.HandlesRemain depth) h name args x
        ((answerUnknown (hostWithin Heap.HandlesRemain depth) h name args).exec u) := by
    intro h name args u x comes declines
    have proper' := proper.evolves remains comes
    have asked := ((steady_askHandler h name args u trivial faithful u proper' rfl).2 _ x declines).1.evolves
    exact exec_answerUnknown (proper.evolves remains (comes.trans asked))
      (current.evolves remains proper (comes.trans asked)) declines
  constructor
  case calls =>
    intro h o name args mods u x live room resolved answers declines
    have searched := ((brings_resolve False.elim h name mods faithful w proper (.refl w)).2 _ u resolved).1.evolves
    rw [exec_call_of_resolve args live room resolved, Option.elim_none, answerNotFound, answers,
      if_neg Bool.false_ne_true]
    exact answered searched declines
  case leaves =>
    intro i frame found x here filter behind nothing args fromSub
    obtain ⟨y, ended, stack⟩ := exec_nextFrom_of_nothing marks here filter behind nothing args fromSub
    have marked : y.stack.get? i = some { frame with unknownDue := true } := by
      rw [stack, FrameStack.get?_modify, if_pos rfl, here]
      rfl
    refine ⟨y, ended, ⟨_, marked, rfl⟩, fun single z goesOn => ?_⟩
    obtain ⟨g, there, due⟩ := goesOn.marking.due i _ marked (by rw [Frame.isDue, single]; rfl)
    exact ⟨g, there, (Bool.and_eq_true_iff.1 due).1⟩
  case closes =>
    intro frame method mods value v x ran due passes declines
    have proper' := proper.evolves remains (Evolves.opened (.run frame method mods) w)
    have body := ((@brings_implement _ _ (w.opened frame) w False False.elim frame.object False.elim w.stack.depth method
      frame.arguments mods faithful _ proper' (.refl _)).2 _ v ran).1.evolves
    have pops : Evolves Heap.HandlesRemain v { v with stack := v.stack.pop } :=
      .single (.aside (.of_objects rfl rfl rfl rfl le_rfl))
    have lowers : Evolves Heap.HandlesRemain { v with stack := v.stack.pop } (v.unstacked frame) :=
      .single (.aside (.modify _ _ fun _ => rfl))
    have comes := ((Evolves.opened (.run frame method mods) w).trans body).trans (pops.trans lowers)
    exact ⟨_, answered comes declines, exec_run_of_due marks ran due passes⟩
  case finds =>
    intro remain h o m lets live simple constant
    obtain ⟨found, x, resolved, first⟩ := exec_resolve_unfiltered proper current remain live simple constant
    refine ⟨found, x, resolved, ?_⟩
    rw [← Option.isSome_map, first, List.isSome_head?, Lineup.unfilteredChain_ne_nil]

/-- The filter of `q`, to which a call comes that finds no method, ends well with unknown handling due. -/
theorem due_answeringWorld : ∃ u frame method value v, Evolves Heap.HandlesRemain answeringWorld u ∧
    frame.object = ⟨7, 0⟩ ∧ frame.called = "missing" ∧ frame.arguments = [.text "x"] ∧ frame.kind = .filter true ∧
    (implement (hostWithin Heap.HandlesRemain 4) u.stack.depth frame.object method frame.arguments {}).exec
      (u.opened frame) = some (.ok value, v) ∧ v.stack.DueAt u.stack.depth ∧
    checkResult (v.unstacked frame) frame value = .ok value ∧ (v.unstacked frame).unknownHandler = none ∧
    unknownMethod? (v.unstacked frame) ⟨7, 0⟩ = some "unknown" ∧
    ((v.unstacked frame).lineup ⟨7, 0⟩ "unknown").plainChain ≠ [] := by
  have remains : ∀ a : Objects, a.HandlesRemain → a.HandlesRemain := fun _ remain => remain
  have filtered : (((resolve (hostChecking Heap.HandlesRemain 4) ⟨7, 0⟩ "missing" {}).exec answeringWorld).any
      fun (r, u) => (r.toOption.bind id).any fun found => found.kind == .filter true && found.method.returns.isNone &&
        ((implement (hostChecking Heap.HandlesRemain 4) u.stack.depth ⟨7, 0⟩ found.method [.text "x"] {}).exec
          (u.opened (frameFor ⟨7, 0⟩ "missing" found found.method [.text "x"] {}))).any fun (r, v) =>
            r.toBool && (v.stack.get? u.stack.depth).any (·.unknownDue) && v.unknownHandler.isNone &&
            let x := v.unstacked (frameFor ⟨7, 0⟩ "missing" found found.method [.text "x"] {})
            unknownMethod? x ⟨7, 0⟩ == some "unknown" && !(x.lineup ⟨7, 0⟩ "unknown").plainChain.isEmpty) = true := by
    decide +kernel
  rw [← hostWithin_eq_hostChecking] at filtered
  obtain ⟨⟨r, u⟩, resolved, holds⟩ := Option.any_eq_true .. |>.1 filtered
  clear filtered
  obtain ⟨found, -, holds⟩ := Option.any_eq_true .. |>.1 holds
  simp only [Bool.and_eq_true, beq_iff_eq, Option.isNone_iff_eq_none] at holds
  obtain ⟨⟨filter, unchecked⟩, ends⟩ := holds
  obtain ⟨⟨r', v⟩, ran, ends⟩ := Option.any_eq_true .. |>.1 ends
  simp only [Bool.and_eq_true, Option.isNone_iff_eq_none, beq_iff_eq, Bool.not_eq_true',
    List.isEmpty_eq_false_iff] at ends
  obtain ⟨⟨⟨well, due⟩, noHandler⟩, known, there⟩ := ends
  obtain ⟨g, here, due⟩ := Option.any_eq_true .. |>.1 due
  have path : Evolves Heap.HandlesRemain answeringWorld u :=
    ((brings_resolve False.elim ⟨7, 0⟩ "missing" {} (faithful_hostWithin remains 4) answeringWorld
      (reachable_answeringWorld.proper remains) (.refl _)).2 _ u resolved).1.evolves
  rcases r' with _ | value
  · cases well
  refine ⟨u, frameFor ⟨7, 0⟩ "missing" found found.method [.text "x"] {}, found.method, value, v, path, rfl, rfl, rfl,
    filter, ran, ⟨g, here, due⟩, ?_, noHandler, known, there⟩
  rw [checkResult]
  simp only [frameFor, Option.bind_some, unchecked]

/-- The call on `o` is handed on at once, and that on `q` when the filter ends that it starts with. -/
theorem answersUnknown_answering :
    (∃ y, (call (hostWithin Heap.HandlesRemain 4) ⟨5, 0⟩ "missing" [.text "x"] {}).exec answeringWorld =
      (handOn (hostWithin Heap.HandlesRemain 4) ⟨5, 0⟩ "unknown" "missing" [.text "x"]).exec y) ∧
    ∃ u frame method y, frame.kind = .filter true ∧ (run (hostWithin Heap.HandlesRemain 4) frame method {}).exec u =
      lettingGo ⟨7, 0⟩ ((handOn (hostWithin Heap.HandlesRemain 4) ⟨7, 0⟩ "unknown" "missing" [.text "x"]).exec y) := by
  constructor
  · have present : (answeringWorld.live? ⟨5, 0⟩).isSome = true := by decide +kernel
    have missed : (((resolve (hostChecking Heap.HandlesRemain 4) ⟨5, 0⟩ "missing" {}).exec answeringWorld).any
        fun (r, u) => (r.toOption.any (·.isNone)) && u.unknownHandler.isNone &&
          unknownMethod? u ⟨5, 0⟩ == some "unknown" && !(u.lineup ⟨5, 0⟩ "unknown").plainChain.isEmpty) = true := by
      decide +kernel
    rw [← hostWithin_eq_hostChecking] at missed
    obtain ⟨o, live⟩ := Option.isSome_iff_exists.1 present
    obtain ⟨⟨r, u⟩, resolved, holds⟩ := Option.any_eq_true .. |>.1 missed
    simp only [Bool.and_eq_true, Option.isNone_iff_eq_none, beq_iff_eq, Bool.not_eq_true',
      List.isEmpty_eq_false_iff] at holds
    obtain ⟨⟨⟨nothing, noHandler⟩, known⟩, there⟩ := holds
    obtain rfl : r = .ok none := by
      rcases r with _ | _ | _
      · cases nothing
      · rfl
      · cases nothing
    obtain ⟨y, -, ended⟩ := ((Reachable.answersUnknown reachable_answeringWorld .refl 4).calls live (by decide +kernel)
      resolved rfl (exec_askHandler_of_none noHandler _ _ _)).handsOn "unknown" known (by decide) there
    exact ⟨y, ended⟩
  · obtain ⟨u, frame, method, value, v, path, object, called, arguments, kind, ran, due, passes, noHandler, known, there⟩ :=
      due_answeringWorld
    obtain ⟨result, unanswered, ended⟩ := (Reachable.answersUnknown reachable_answeringWorld path 4).closes ran due passes
      (exec_askHandler_of_none noHandler _ _ _)
    rw [object, called, arguments] at unanswered
    rw [object] at ended
    obtain ⟨y, -, same⟩ := unanswered.handsOn "unknown" known (by decide) there
    exact ⟨u, frame, method, y, kind, same ▸ ended⟩

/-- A method that only a mixin of `p` has is found by calls, but no call is handed on to it. -/
theorem not_handsOn_of_mixed : Reachable Heap.HandlesRemain answeringWorld ∧
    ((resolve (hostWithin Heap.HandlesRemain 1) ⟨6, 0⟩ "missing" {}).exec answeringWorld).map
      (fun result => result.1.toOption.map Option.isSome) = some (some false) ∧
    ((resolve (hostWithin Heap.HandlesRemain 1) ⟨6, 0⟩ "unknown" { ignorePermissions := true }).exec answeringWorld).map
      (fun result => result.1.toOption.map Option.isSome) = some (some true) ∧
    ((handOn (hostWithin Heap.HandlesRemain 8) ⟨6, 0⟩ "unknown" "missing" [.text "x"]).exec answeringWorld).map
      (fun result => result.1.toOption.map Value.toText) = some (some "missing x") ∧
    ((call (hostWithin Heap.HandlesRemain 8) ⟨6, 0⟩ "missing" [.text "x"] {}).exec answeringWorld).map
      (fun result => match result.1 with | .error f => some f | .ok _ => none) = some (some (.unknown "::p" "missing")) := by
  simp only [hostWithin_eq_hostChecking]
  refine ⟨reachable_answeringWorld, by decide +kernel, by decide +kernel, by decide +kernel, by decide +kernel⟩

end DynamicObjects
