import DynamicObjects.Proofs.Runs.Chains
import DynamicObjects.Proofs.Runs.Origins

/-!
# Containers of sub-methods

Only the run of an ensemble opens the frame of a sub-method, and it does so while its own frame is the innermost one.
However calls, filters, mixins, next calls and further ensembles are put on top of each other, the frame of a sub-method
has that of its ensemble directly below it, and that is where next calls from the sub-method go on.
-/
namespace DynamicObjects

open Invocation

variable {good : Objects → Prop}

/-! ## How sub-methods are opened -/

section openings

variable {host : Host} {task : Task} {frame : Frame} {method registered : Method} {mods : CallModifiers} {v w : World}

/-- What runs in a frame is noted there. -/
theorem Opening.method_eq (opening : Opening host task w registered (.run frame method mods) v) :
    frame.method = some method := by
  have entered : ∀ {h called resolved args asked w}, Enters h called resolved args asked w (.run frame method mods) v →
      frame.method = some method := by
    rintro h called resolved args asked w ⟨⟩
    rfl
  cases opening with
  | called _ enters => exact entered enters
  | passedOn _ _ follows =>
    obtain ⟨-, -, enters⟩ := follows
    exact entered enters
  | distributed _ distributes =>
    cases distributes with
    | sub => rfl
    | behind _ _ follows =>
      obtain ⟨-, -, enters⟩ := follows
      exact entered enters

theorem Entered.method_eq (entered : Entered good (.run frame method mods) v) : frame.method = some method := by
  cases entered with
  | sub _ _ asks =>
    obtain ⟨_, opening⟩ := asks.opens
    exact opening.method_eq

/-- Only a run of an ensemble opens the frame of a sub-method, on top of its own frame, which is marked by then. -/
theorem Opening.of_sub (marks : host.Marks) (opening : Opening host task w registered (.run frame method mods) v)
    (sub : frame.kind = .ensemble) : mods = {} ∧ ∃ container ensemble asked target name definer rest,
      task = .run container ensemble asked ∧ ensemble.implementation = .ensemble target ∧
      frame = subFrame container.object container.path name method definer rest ∧
      v.stack = w.stack.push { container with runsEnsemble := true } := by
  cases opening with
  | called found enters => exact absurd sub (enters.stack (single_resolve _ _ _ found _ rfl)).1
  | passedOn _ _ follows => exact absurd sub (follows.stack marks).1
  | @distributed container ensemble asked target _ _ _ _ is distributes =>
    have marked : (asEnsemble w.stack.depth (w.opened container)).stack =
        w.stack.push { container with runsEnsemble := true } :=
      w.stack.modify_push container _
    cases distributes with
    | behind _ _ follows => exact absurd sub (follows.stack marks).1
    | @sub name rest _ _ _ _ _ definer means found _ leads =>
      have level := ((Level.of_exec (Deed.along_subMethod _ _ _) means).trans
        (Level.of_exec (Deed.along_searchObject _ _) found)).trans (Level.of_exec (Deed.along_follow _ _) leads)
      refine ⟨rfl, container, ensemble, asked, target, name, definer, rest, rfl, is, ?_, level.stack.trans marked⟩
      rw [marked, FrameStack.get?_push, Option.map_some, Option.getD_some]

end openings

/-! ## Where sub-methods sit -/

/-- The frame `f` of a sub-method sits on the frame `k` of its ensemble. That one is marked as an ensemble's and has the
same receiver. The run that opened it is the one that asked for the run of the sub-method, on top of its own frame. -/
structure FrameStack.SitsOn (good : Objects → Prop) (s : FrameStack) (k : Nat) (container f : Frame) : Prop where
  here : s.get? k = some container
  distributes : container.Distributes f
  path : f.path = container.path ++ " " ++ f.methodName
  ensemble : ∃ method target, container.method = some method ∧ method.implementation = .ensemble target
  opened : ∃ depth opener method asked u frame sub v, s.OpenedBy good k opener method asked u ∧
    AsksFor (hostWithin good depth).failing (.run opener method asked) u (.run frame sub {}) v ∧
    v.stack = u.stack.push { opener with runsEnsemble := true } ∧ s.OpenedBy good (k + 1) frame sub {} v

section sitting

variable {w : World} {i : Nat} {f : Frame}

/-- Throughout a run, sub-methods sit on their ensembles. -/
theorem Passed.exists_sitsOn (passed : Passed good w) (here : w.stack.get? i = some f) (sub : f.kind = .ensemble) :
    ∃ k container, i = k + 1 ∧ w.stack.SitsOn good k container f := by
  obtain ⟨apart, seated⟩ := passed.holds World.kept_guardsApart
  obtain ⟨k, container, rfl, below, distributes⟩ := seated i f here sub
  have noGuard : f.isGuard = false := by
    refine Bool.eq_false_iff.2 fun guard => ?_
    have plain := (apart.plain f (List.mem_of_getElem? here) guard).2
    cases sub.symm.trans plain
  obtain ⟨frame, method, mods, v, opened⟩ := passed.traced (k + 1) f here noGuard
  have inert := opened.inert_eq here
  have kind : frame.kind = .ensemble := (Lineup.isFilter_of_deactivated (congrArg Frame.kind inert :)).2.2.1 sub
  cases opened.entered with
  | @sub depth _ _ u _ entered _ asks =>
    obtain ⟨_, opening⟩ := asks.opens
    obtain ⟨rfl, opener, ensemble, asked, target, name, definer, rest, rfl, is, rfl, stack⟩ :=
      opening.of_sub (Host.Marks.hostWithin good _).failing kind
    -- What is below the sub-method now is what its run was begun on: the frame of the ensemble is on top of that.
    have origin : w.stack.OpenedBy good k opener ensemble asked u :=
      ⟨entered, (opened.below here).trans (stack ▸ FrameStack.inert_distributing u.stack opener)⟩
    have opens := origin.inert_eq below
    refine ⟨k, container, rfl, below, distributes, ?_, ?_, ?_⟩
    · have named : f.methodName = name := (congrArg Frame.methodName inert :)
      have path : f.path = opener.path ++ " " ++ name := (congrArg Frame.path inert :)
      have above : container.path = opener.path := (congrArg Frame.path opens :)
      rw [path, above, named]
    · exact ⟨ensemble, target, (congrArg Frame.method opens :).trans entered.method_eq, is⟩
    · exact ⟨depth, opener, ensemble, asked, u, _, method, v, origin, asks, stack, opened⟩

end sitting

/-! ## Where next calls go on -/

/-- Next calls go on behind the frame `k`, in the chain of its call. -/
structure World.GoesOnBehind (w : World) (k : Nat) (container : Frame) : Prop where
  behind : ∀ host args, (next host args).exec w = (nextFrom host k args true).exec w
  /-- What the search behind the frame finds runs for its receiver, under the name by which it was called, and with its
  arguments if none are given. -/
  found : ∀ {host args resolved done u}, (continuation host container).exec w = some (.ok ⟨some resolved, done⟩, u) →
    (next host args).exec w = ((enter host container.object container.called resolved
        (args.getD container.arguments) {}).exec (offTo k container.kind u)).map fun (r, x) =>
      (r, (backFrom k container.kind x).restored container.object
        ((filterPosition? w container.object).bind (·.current)) (mixinPosition w container.object))
  /-- If it finds nothing, the outcome is nil. -/
  missing : ∀ {host args done u}, (continuation host container).exec w = some (.ok ⟨none, done⟩, u) →
    ∃ x, (next host args).exec w = some (.ok .nil, x)
  /-- If the frame runs an element of the chain of a call, which stands there, the element behind it is started. -/
  chain : ∀ {line : Lineup} {lets host n e args}, line.GuardsConstant host lets → line.Distinct → line.Direct lets →
    (line.chain lets)[n]? = some e → line.Runs e container → line.At e w →
      (∀ e', (line.chain lets)[n + 1]? = some e' →
        line.Starts host e' (args.getD container.arguments) (next host args) w) ∧
      ((line.chain lets)[n + 1]? = none → ∃ x, (next host args).exec w = some (.ok .nil, x))
  /-- A sub-method that is an ensemble itself was found in no chain. It is passed like a plain method of its name. -/
  nested : container.kind = .ensemble → ∀ host, (continuation host container).exec w =
    (do return ⟨← nextPlain container ⟨container.methodName, container.definer, false⟩, false⟩ : Action Continuation).exec w

theorem World.GoesOnBehind.of_exec {w : World} {k : Nat} {container : Frame} (here : w.stack.get? k = some container)
    (behind : ∀ host args, (next host args).exec w = (nextFrom host k args true).exec w) :
    w.GoesOnBehind k container where
  behind := behind
  found {host args resolved done u} found := by
    rw [behind, exec_nextFrom here]
    unfold passOn
    rw [Action.exec_bind_of_ok found]
    dsimp only
    rw [exec_duringNext, Option.map_map]
    rfl
  missing {host args done u} found := by
    rw [behind, exec_nextFrom here]
    unfold passOn
    rw [Action.exec_bind_of_ok found]
    dsimp only
    split
    · exact ⟨_, rfl⟩
    · exact ⟨_, rfl⟩
  chain {line lets host n e args} constant distinct direct found runs stands := by
    obtain ⟨onward, ends⟩ := stands.exec_nextFrom constant distinct here runs (Lineup.place_of_getElem? found)
      (fun e' member => direct e' (List.mem_of_mem_drop member)) args true
    rw [List.head?_drop] at onward ends
    refine ⟨fun e' second => (onward e' second).of_exec (behind host args), fun last => ?_⟩
    obtain ⟨x, -, ran⟩ := ends last
    exact ⟨x, (behind host args).trans ran⟩
  nested sub host := by
    have noFilter : container.kind.isFilter = false := by rw [sub]; rfl
    have noMixin : container.kind.isMixin = false := by rw [sub]; rfl
    unfold continuation continueUnfiltered
    simp only [noFilter, noMixin]
    rfl

/-- On top of its ensemble a sub-method goes on behind it. -/
theorem World.GoesOnBehind.opened {s : FrameStack} {v : World} {container frame : Frame}
    (stack : v.stack = s.push container) (runs : container.runsEnsemble = true) (sub : frame.kind = .ensemble)
    (shows : frame.visible = true) : (v.opened frame).GoesOnBehind s.depth container := by
  have depth : v.stack.depth = s.depth + 1 := by simp [stack, FrameStack.depth, FrameStack.push]
  have below : (v.opened frame).stack.get? s.depth = some container := by
    refine (FrameStack.get?_push_of_lt frame (depth ▸ Nat.lt_succ_self _)).trans ?_
    rw [stack, FrameStack.get?_push]
  have innermost := FrameStack.ensembleIndex?_of_get? below runs
  rw [← depth] at innermost
  exact .of_exec below (exec_next_of_sub (FrameStack.activeIndex?_push v.stack shows) (FrameStack.get?_push v.stack frame)
    sub innermost)

/-! ## Along chains -/

/-- Following aliases changes nothing but where they are remembered to lead. -/
theorem exists_aliasTargets (method : Method) (w : World) :
    ∃ targets, ((Definition.followAliases method).exec w).2 = { w with aliasTargets := targets } := by
  have once : ∀ link path, (Definition.followOnce link path).Along fun v w =>
      ∃ targets, w = { v with aliasTargets := targets } := by
    intro link path w
    cases found : w.registry.get? path with
    | none => rw [Definition.exec_followOnce_of_missing link found]
    | some registered =>
      obtain ⟨_, targets, done, -⟩ := Definition.exec_followOnce link found
      rw [done]
      exact .single ⟨targets, rfl⟩
  have path := Update.Along.follow once Definition.maxHops method w
  unfold Definition.followAliases
  generalize ((Definition.follow Definition.maxHops method).exec w).2 = x at path ⊢
  induction path with
  | refl => exact ⟨w.aliasTargets, rfl⟩
  | tail _ last ih =>
    obtain ⟨_, rfl⟩ := ih
    exact last

namespace Lineup.At

variable {line : Lineup} {lets : Predicate → Bool} {e : Resolved} {v w : World}

theorem filled (stands : line.At e w) {b : Objects} (filled : Filled w.objects b) : line.At e { w with objects := b } := by
  refine ⟨stands.toReady.filled filled, fun p found => ?_⟩
  obtain ⟨o, here, -⟩ := stands.toReady.exists_live
  obtain ⟨q, there, same⟩ := filled.alike.exists_of_get? here
  obtain rfl : p = q := Option.some.inj (found.symm.trans there)
  exact (stands.places o here).of_openCalls (congrArg Object.openCalls same :)

theorem consults (stands : line.At e v) {α : Type} {update : Update α} {r : Except Failure α}
    (along : update.Along Consults) (done : update.exec v = (r, w)) : line.At e w := by
  obtain ⟨_, b, ends, filled⟩ := stands.proper.filled_of_along along
  cases done.symm.trans ends
  exact stands.filled filled

theorem follows (stands : line.At e v) {method : Method} {r : Except Failure Method}
    (done : (Definition.followAliases method).exec v = (r, w)) : line.At e w := by
  obtain ⟨targets, after⟩ := exists_aliasTargets method v
  rw [done] at after
  cases after
  exact ⟨⟨stands.proper.beside ⟨.refl _, rfl, rfl, rfl, le_rfl⟩, stands.keeps, stands.unguarded⟩, stands.places⟩

/-- When an ensemble opens the frame of a sub-method, the call still stands at the ensemble. -/
theorem of_sub {host : Host} {container frame : Frame} {ensemble method registered : Method} {asked mods : CallModifiers}
    (marks : host.Marks) (stands : line.At e w)
    (opening : Opening host (.run container ensemble asked) w registered (.run frame method mods) v)
    (sub : frame.kind = .ensemble) : line.At e (v.opened frame) := by
  cases opening with
  | @distributed _ _ _ target _ _ _ _ is distributes =>
    have opened := stands.opened container
    have marked : line.At e (asEnsemble w.stack.depth (w.opened container)) := ⟨opened.toReady.restack _, opened.places⟩
    cases distributes with
    | behind _ _ follows => exact absurd sub (follows.stack marks).1
    | @sub name rest _ _ _ _ _ definer means found _ leads =>
      have meant := marked.consults (.subMethod _ _ _) means
      have searched := meant.consults (Consults.along_searchObject _ _) found
      exact (searched.follows leads).opened _

/-- Where an element of a chain is an ensemble, a next call from the sub-method that it opens starts the element behind it,
or ends in nil. -/
theorem exec_next_of_sub {host host' : Host} {container frame : Frame} {ensemble method registered : Method}
    {asked mods : CallModifiers} {n : Nat} (marks : host.Marks) (stands : line.At e w) (runs : line.Runs e container)
    (opening : Opening host (.run container ensemble asked) w registered (.run frame method mods) v)
    (sub : frame.kind = .ensemble) (constant : line.GuardsConstant host' lets) (distinct : line.Distinct)
    (direct : line.Direct lets) (found : (line.chain lets)[n]? = some e) (args : Option (List Value)) :
    (∀ e', (line.chain lets)[n + 1]? = some e' →
      line.Starts host' e' (args.getD container.arguments) (next host' args) (v.opened frame)) ∧
    ((line.chain lets)[n + 1]? = none → ∃ x, (next host' args).exec (v.opened frame) = some (.ok .nil, x)) := by
  obtain ⟨-, _, _, _, _, _, _, _, same, -, is, stack⟩ := opening.of_sub marks sub
  cases same
  have shows : frame.visible = true := by rw [is]; rfl
  have goesOn := World.GoesOnBehind.opened stack rfl sub shows
  exact goesOn.chain constant distinct direct found (runs.of_settled rfl) (stands.of_sub marks opening sub)

end Lineup.At

/-! ## Containers throughout a run -/

/-- An ensemble of a class has a sub-method that is an ensemble itself; the sub-method of that one passes its call on. -/
def nestedSession : List Expr :=
  [foundation, Trial.createClass "Box", Trial.createClass "C", Trial.createObject "inner" "C",
    Trial.createObject "box" "Box", Trial.define .object "inner" (Trial.method "leaf" (.next none)),
    .change (.keepCallerSelf (.name "inner") (.literal (.bool true))),
    .change (.keepCallerSelf (.name "box") (.literal (.bool true))),
    .change (.defineEnsemble (.name "Box") (Trial.text "sub") (.name "inner")),
    .change (.defineEnsemble (.name "C") (Trial.text "info") (.name "box")), Trial.createObject "o" "C"]

def nestedWorld : World :=
  (sessionWithin Heap.HandlesRemain 5 nestedSession).get (by decide +kernel)

theorem session_nestedWorld : Session Heap.HandlesRemain nestedWorld :=
  of_sessionWithin (.start {}) (fun _ _ _ _ session done => .ended session done) (Option.some_get _).symm

/-- Whether a method is an ensemble of the object. -/
def isEnsembleOf (method : Method) (container : Handle) : Bool :=
  match method.implementation with
  | .ensemble target => target == container
  | _ => false

theorem implementation_of_isEnsembleOf {method : Method} {container : Handle}
    (is : isEnsembleOf method container = true) : method.implementation = .ensemble container := by
  unfold isEnsembleOf at is
  split at is
  · next ensemble => rw [ensemble, beq_iff_eq.1 is]
  · cases is

/-- The frame of a call of the outer ensemble. -/
def outerFrame (resolved : Resolved) : Frame :=
  frameFor ⟨6, 0⟩ "info" resolved resolved.method [.text "sub", .text "leaf"] {}

/-- The frame of the inner ensemble. -/
def innerFrame (method : Method) (definer : Option Handle) : Frame :=
  subFrame ⟨6, 0⟩ "info" "sub" method definer [.text "leaf"]

/-- The inner ensemble asks for a run of its sub-method, which has two frames of ensembles below it. -/
theorem entered_nested : ∃ method definer v, Entered Heap.HandlesRemain
    (.run (subFrame ⟨6, 0⟩ "info sub" "leaf" method definer []) method {}) v ∧ v.stack.depth = 2 ∧
      (v.stack.get? 1).any (·.kind == .ensemble) = true := by
  have begins : nestedWorld.objects.HandlesRemain := by decide +kernel
  have named : Lifecycle.objectNamed? nestedWorld "o" = some ⟨6, 0⟩ := by decide +kernel
  have callable : Callable nestedWorld ⟨6, 0⟩ "info" {} := by decide +kernel
  have distributes : ((findBare nestedWorld ⟨6, 0⟩ "info").any fun (resolved, v) =>
      isEnsembleOf resolved.method ⟨5, 0⟩ && decide v.objects.HandlesRemain &&
      (ownOrInherited? (asEnsemble v.stack.depth (v.opened (outerFrame resolved))) ⟨5, 0⟩ "sub").any
        fun ((sub, definer), x) =>
      isEnsembleOf sub ⟨4, 0⟩ && decide x.objects.HandlesRemain && (x.live? ⟨5, 0⟩).any (·.keepsCallerSelf) &&
      (ownOrInherited? (asEnsemble x.stack.depth (x.opened (innerFrame sub definer))) ⟨4, 0⟩ "leaf").any
        fun ((leaf, _), y) =>
      leaf.kind == .scripted && (y.live? ⟨4, 0⟩).any (·.keepsCallerSelf) && decide (y.stack.depth = 2) &&
      (y.stack.get? 1).any (·.kind == .ensemble)) = true := by
    decide +kernel
  obtain ⟨⟨resolved, v⟩, bare, holds⟩ := Option.any_eq_true .. |>.1 distributes
  simp only [Bool.and_eq_true, decide_eq_true_eq] at holds
  obtain ⟨⟨isOuter, good⟩, searched⟩ := holds
  obtain ⟨⟨⟨sub, definer⟩, x⟩, foundSub, holds⟩ := Option.any_eq_true .. |>.1 searched
  simp only [Bool.and_eq_true, decide_eq_true_eq] at holds
  obtain ⟨⟨⟨isInner, goodInside⟩, keepsOuter⟩, searched⟩ := holds
  obtain ⟨⟨⟨leaf, owner⟩, y⟩, foundLeaf, holds⟩ := Option.any_eq_true .. |>.1 searched
  simp only [Bool.and_eq_true, decide_eq_true_eq, beq_iff_eq] at holds
  obtain ⟨⟨⟨scripted, keepsInner⟩, depth⟩, nested⟩ := holds
  have outer := implementation_of_isEnsembleOf isOuter
  have inner := implementation_of_isEnsembleOf isInner
  have calls : AsksFor (hostWithin Heap.HandlesRemain 1).failing (.eval .none (.dispatch (.name "o")
    (.literal (.list [.text "sub", .text "leaf"])) (.literal (.text "info")) {})) nestedWorld
      (.call ⟨6, 0⟩ "info" [.text "sub", .text "leaf"] {}) nestedWorld :=
    asksFor_call_of_given named (fun _ => rfl) begins
  have runs : AsksFor (hostWithin Heap.HandlesRemain 1).failing
    (.call ⟨6, 0⟩ "info" [.text "sub", .text "leaf"] {}) nestedWorld (.run (outerFrame resolved) resolved.method {}) v :=
    asksFor_run callable bare (by rw [MethodOf.kind, outer]; decide)
  have distributesOuter : AsksFor (hostWithin Heap.HandlesRemain 1).failing (.run (outerFrame resolved) resolved.method {}) v
      (.run (innerFrame sub definer) sub {}) x :=
    asksFor_sub (outerFrame resolved) outer rfl foundSub keepsOuter (by rw [MethodOf.kind, inner]; decide)
  have distributesInner : AsksFor (hostWithin Heap.HandlesRemain 1).failing (.run (innerFrame sub definer) sub {}) x
      (.run (subFrame ⟨6, 0⟩ "info sub" "leaf" leaf owner []) leaf {}) y :=
    asksFor_sub (innerFrame sub definer) inner rfl foundLeaf keepsInner (by rw [scripted]; decide)
  have entered := ((Entered.step session_nestedWorld _).sub begins calls).sub begins runs
  exact ⟨leaf, owner, y, (entered.sub good distributesOuter).sub goodInside distributesInner, depth, nested⟩

/-- Throughout a run, the frame of a sub-method is not the outermost one. Directly below it is the frame of its ensemble,
which opened it, is marked as an ensemble's and has the same receiver. So the ensemble is found by its mark, and it is
the one behind which next calls go on while the sub-method is the running method. -/
theorem Passed.sitsOnContainer {w : World} {i : Nat} {f : Frame} (passed : Passed good w)
    (here : w.stack.get? i = some f) (sub : f.kind = .ensemble) : ∃ k container, i = k + 1 ∧
      w.stack.SitsOn good k container f ∧ w.stack.ensembleIndex? i = some k ∧
      (w.stack.activeIndex? = some i → w.GoesOnBehind k container) := by
  obtain ⟨k, container, rfl, sits⟩ := passed.exists_sitsOn here sub
  have innermost := FrameStack.ensembleIndex?_of_get? sits.here sits.distributes.runsEnsemble
  exact ⟨k, container, rfl, sits, innermost, fun active =>
    .of_exec sits.here (exec_next_of_sub active here sub innermost)⟩

/-- The sub-method of the inner ensemble sits on that, which sits on the outer one. -/
theorem sitsOnContainer_nested : ∃ w leaf inner outer, Passed Heap.HandlesRemain w ∧ w.stack.get? 2 = some leaf ∧
    leaf.kind = .ensemble ∧ leaf.path = "info sub leaf" ∧ w.stack.SitsOn Heap.HandlesRemain 1 inner leaf ∧
    inner.kind = .ensemble ∧ w.stack.SitsOn Heap.HandlesRemain 0 outer inner ∧ w.GoesOnBehind 1 inner := by
  obtain ⟨method, definer, v, entered, depth, nested⟩ := entered_nested
  obtain ⟨leaf, is⟩ : ∃ leaf, leaf = subFrame ⟨6, 0⟩ "info sub" "leaf" method definer [] := ⟨_, rfl⟩
  rw [← is] at entered
  have passed : Passed Heap.HandlesRemain (v.opened leaf) := .running (.begun entered)
  have here : (v.opened leaf).stack.get? 2 = some leaf := depth ▸ FrameStack.get?_push v.stack leaf
  have active : (v.opened leaf).stack.activeIndex? = some 2 :=
    depth ▸ FrameStack.activeIndex?_push v.stack (by rw [is]; rfl)
  have sub : leaf.kind = .ensemble := by rw [is]; rfl
  obtain ⟨k, inner, above, sits, -, goesOn⟩ := Passed.sitsOnContainer passed here sub
  obtain rfl : k = 1 := (Nat.succ.inj above).symm
  have innerSub : inner.kind = .ensemble := by
    obtain ⟨g, below, kind⟩ := Option.any_eq_true .. |>.1 nested
    have there : (v.opened leaf).stack.get? 1 = some g :=
      (FrameStack.get?_push_of_lt leaf (depth ▸ Nat.one_lt_two)).trans below
    cases sits.here.symm.trans there
    exact beq_iff_eq.1 kind
  obtain ⟨k, outer, above, sitsInner, -, -⟩ := Passed.sitsOnContainer passed sits.here innerSub
  obtain rfl : k = 0 := (Nat.succ.inj above).symm
  exact ⟨_, leaf, inner, outer, passed, here, sub, by rw [is]; rfl, sits, innerSub, sitsInner, goesOn active⟩

end DynamicObjects
