import DynamicObjects.Proofs.Runs.Depth
import DynamicObjects.Proofs.Runs.Stacks

/-!
# Sub-methods and their ensembles

A sub-method that runs on behalf of the caller of its ensemble has the frame of the ensemble directly below its own, with
the arguments of the whole call. A next call from it goes on behind the ensemble, and takes these arguments if none are
given.
-/
namespace DynamicObjects

open Invocation

/-! ## Frames of sub-methods -/

/-- What tells a sub-method from its ensemble, and what they have in common. -/
def Frame.role (f : Frame) : Handle × String × List Value × Bool × Bool :=
  (f.object, f.methodName, f.arguments, f.kind == .ensemble, f.runsEnsemble)

/-- A frame of an ensemble and that of its sub-method: they have the same receiver, and the arguments of the sub-method are
those behind its name, or those of the ensemble where these do not name it. -/
structure Frame.Distributes (container f : Frame) : Prop where
  runsEnsemble : container.runsEnsemble = true
  object : f.object = container.object
  arguments : (∃ first, container.arguments = first :: f.arguments ∧ first.toText = f.methodName) ∨
    container.arguments = f.arguments

namespace FrameStack

variable {s t : FrameStack} {f g container : Frame} {i : Nat}

/-- Every sub-method has its ensemble directly below it. -/
def SubsSeated (s : FrameStack) : Prop :=
  ∀ i f, s.get? i = some f → f.kind = .ensemble → ∃ k container,
    i = k + 1 ∧ s.get? k = some container ∧ container.Distributes f

theorem SubsSeated.of_roles (seated : s.SubsSeated) (same : t.frames.map Frame.role = s.frames.map Frame.role) :
    t.SubsSeated := by
  intro i f found sub
  obtain ⟨f', found', role⟩ := exists_of_map same.symm found
  simp only [Frame.role, Prod.mk.injEq] at role
  obtain ⟨object, name, arguments, kind, -⟩ := role
  obtain ⟨k, container, above, below, distributes⟩ := seated i f' found' (beq_iff_eq.1 (kind.trans (beq_iff_eq.2 sub)))
  obtain ⟨container', below', role⟩ := exists_of_map same below
  simp only [Frame.role, Prod.mk.injEq] at role
  obtain ⟨object', -, arguments', -, runs⟩ := role
  refine ⟨k, container', above, below', runs.trans distributes.runsEnsemble, ?_, ?_⟩
  · exact object.symm.trans (distributes.object.trans object'.symm)
  · rw [arguments', ← arguments, ← name]
    exact distributes.arguments

/-- A frame is opened that is no sub-method's, or that of a sub-method on top of its ensemble. -/
theorem SubsSeated.push (seated : s.SubsSeated)
    (on : f.kind = .ensemble → ∃ container, s.top? = some container ∧ container.Distributes f) : (s.push f).SubsSeated := by
  intro i g found sub
  rcases get?_push_eq_some found with found | ⟨rfl, rfl⟩
  · obtain ⟨k, container, above, below, distributes⟩ := seated i g found sub
    exact ⟨k, container, above, (get?_push_of_lt f (get?_lt below)).trans below, distributes⟩
  · obtain ⟨container, top, distributes⟩ := on sub
    have last : s.get? (s.depth - 1) = some container := List.getLast?_eq_getElem?.symm.trans top
    have nonempty := get?_lt last
    exact ⟨s.depth - 1, container, by omega, (get?_push_of_lt g nonempty).trans last, distributes⟩

/-- Marking the innermost frame as an ensemble. -/
theorem SubsSeated.distributing (seated : (s.push f).SubsSeated) :
    (s.push { f with runsEnsemble := true }).SubsSeated := by
  have before : s.SubsSeated := by
    intro i g found sub
    obtain ⟨k, container, rfl, below, distributes⟩ :=
      seated i g ((get?_push_of_lt f (get?_lt found)).trans found) sub
    have within : k < s.depth := (Nat.lt_succ_self k).trans (get?_lt found)
    exact ⟨k, container, rfl, (get?_push_of_lt f within).symm.trans below, distributes⟩
  refine before.push fun sub => ?_
  obtain ⟨k, container, above, below, distributes⟩ := seated s.depth f (get?_push s f) sub
  have top : s.get? (s.depth - 1) = some container := by
    rw [above, Nat.add_sub_cancel]
    exact (get?_push_of_lt f (above ▸ Nat.lt_succ_self k)).symm.trans below
  exact ⟨container, List.getLast?_eq_getElem?.trans top, distributes.1, distributes.2, distributes.3⟩

end FrameStack

/-- The sub-method that an ensemble means has the arguments behind its name, or all of them. -/
theorem Invocation.subMethod_arguments {h : Handle} {args rest : List Value} {mods : CallModifiers} {name : String}
    {w u : World} (means : (subMethod h args mods).exec w = (.ok (some (name, rest)), u)) :
    (∃ first, args = first :: rest ∧ first.toText = name) ∨ args = rest := by
  unfold subMethod at means
  split at means
  · next first others _ =>
    cases means
    exact .inl ⟨first, rfl, rfl⟩
  · obtain ⟨system, x, -, means⟩ := Update.exec_bind_eq_ok means
    obtain ⟨_, -, pair⟩ := Option.map_eq_some_iff.1 (Except.ok.inj (congrArg Prod.fst means))
    exact .inr (congrArg Prod.snd pair)

/-- Sub-methods stay on their ensembles. -/
theorem FrameStack.kept_subsSeated : FrameStack.Kept FrameStack.SubsSeated where
  start := by
    intro i f found
    cases found
  marked marking seated := by
    refine seated.of_roles ?_
    have same := congrArg (List.map Frame.role) marking.atRest
    rwa [List.map_map, List.map_map] at same
  passing {s i above} here seated := by
    refine seated.of_roles (s.frames_modify_map i fun f found => ?_)
    cases here.symm.trans found
    have kind := above.kind.deactivated_beq_ensemble
    exact congrArg (above.object, above.methodName, above.arguments, ·, above.runsEnsemble) kind
  distributing := FrameStack.SubsSeated.distributing
  opened single _ seated := seated.push fun sub => absurd sub single
  subOpened last container means seated :=
    seated.push fun _ => ⟨_, last, container, rfl, subMethod_arguments means⟩

namespace FrameStack

variable {s : FrameStack} {i k : Nat} {f container : Frame}

/-- The ensemble of a sub-method is found by its mark if it is directly below. -/
theorem ensembleIndex?_of_get? (below : s.get? k = some container) (runs : container.runsEnsemble = true) :
    s.ensembleIndex? (k + 1) = some k := by
  have within : k < s.frames.length := get?_lt below
  have splits : s.below (k + 1) = s.below k ++ [container] := by
    rw [FrameStack.below, FrameStack.below, List.take_add_one]
    exact congrArg (fun o : Option Frame => s.frames.take k ++ o.toList) below
  rw [ensembleIndex?, splits, lastIndex?_concat _ runs, FrameStack.below, List.length_take, Nat.min_eq_left within.le]

theorem nextIndex?_of_sub (active : s.activeIndex? = some i) (here : s.get? i = some f) (sub : f.kind = .ensemble) :
    s.nextIndex? = s.ensembleIndex? i := by
  unfold nextIndex?
  rw [active, Option.bind_some, here, Option.any_some, sub]
  rfl

/-- A next call from a sub-method goes on behind the ensemble directly below it. -/
theorem SubsSeated.exists_container (seated : s.SubsSeated) (active : s.activeIndex? = some i) (here : s.get? i = some f)
    (sub : f.kind = .ensemble) : ∃ k container, i = k + 1 ∧ s.get? k = some container ∧ container.Distributes f ∧
      s.nextIndex? = some k := by
  obtain ⟨k, container, rfl, below, distributes⟩ := seated i f here sub
  exact ⟨k, container, rfl, below, distributes,
    (nextIndex?_of_sub active here sub).trans (ensembleIndex?_of_get? below distributes.runsEnsemble)⟩

end FrameStack

/-! ## Sub-methods that are asked for -/

/-- What an object or its classes have under a name, and the world after the search. -/
def ownOrInherited? (w : World) (container : Handle) (name : String) : Option ((Method × Option Handle) × World) :=
  match (searchObject container name).exec w with
  | (.ok (some found), v) => some (found, v)
  | _ => none

/-- An ensemble that is called with the name of a sub-method asks for a run of it, if it runs on behalf of the caller. -/
theorem asksFor_sub {host : Host} (frame : Frame) {method registered : Method} {container : Handle}
    {first : Value} {rest : List Value} {definer : Option Handle} {w v : World}
    (ensemble : method.implementation = .ensemble container) (named : frame.arguments = first :: rest)
    (found : ownOrInherited? (asEnsemble w.stack.depth (w.opened frame)) container first.toText =
      some ((registered, definer), v))
    (keeps : (v.live? container).any (·.keepsCallerSelf) = true) (direct : registered.kind ≠ .aliased) :
    AsksFor host (.run frame method {}) w
      (.run (subFrame frame.object frame.path first.toText registered definer rest) registered {}) v := by
  have here : (asEnsemble w.stack.depth (w.opened frame)).stack.get? w.stack.depth =
      some { frame with runsEnsemble := true } := by
    change ((w.stack.push frame).modify w.stack.depth _).get? w.stack.depth = _
    rw [FrameStack.modify_push, FrameStack.get?_push]
  obtain ⟨o, live, keeps⟩ := Option.any_eq_true .. |>.1 keeps
  have searched : (searchObject container first.toText).exec (asEnsemble w.stack.depth (w.opened frame)) =
      (.ok (some (registered, definer)), v) := by
    unfold ownOrInherited? at found
    split at found
    · next searched =>
      cases found
      exact searched
    · cases found
  refine .of_implement fun other e stops => ?_
  rw [implement, ensemble, named]
  refine .of_eq (exec_runEnsemble other _ _ _ _ _ _) ?_
  unfold distribute
  refine .after (Action.exec_get _)
    (.after_lift rfl (.after_lift searched (.after_lift (Update.exec_object_of_live live) ?_)))
  rw [keeps, here]
  exact .after_lift (exec_followAliases direct v) stops

/-! ## Passing arguments on -/

/-- Without arguments, a next call takes those of the frame behind which it goes on. -/
theorem Invocation.exec_nextFrom_none {host : Host} {w : World} {i : Nat} {frame : Frame} {fromSub : Bool}
    (here : w.stack.get? i = some frame) :
    (nextFrom host i none fromSub).exec w = (nextFrom host i (some frame.arguments) fromSub).exec w := by
  rw [exec_nextFrom here, exec_nextFrom here]
  rfl

theorem Invocation.exec_next_of_nextIndex? {w : World} {i : Nat} (stands : w.stack.nextIndex? = some i) (host : Host)
    (args : Option (List Value)) :
    (next host args).exec w = (nextFrom host i args w.stack.inSubMethod).exec w := by
  rw [exec_next, stands]

theorem Invocation.exec_next_of_sub {w : World} {i k : Nat} {f : Frame} (active : w.stack.activeIndex? = some i)
    (here : w.stack.get? i = some f) (sub : f.kind = .ensemble) (container : w.stack.ensembleIndex? i = some k)
    (host : Host) (args : Option (List Value)) : (next host args).exec w = (nextFrom host k args true).exec w := by
  have inSub : w.stack.inSubMethod = true := by
    rw [FrameStack.inSubMethod, FrameStack.active?, active, Option.bind_some, here, Option.any_some, sub]
    rfl
  have stands := (FrameStack.nextIndex?_of_sub active here sub).trans container
  exact inSub ▸ exec_next_of_nextIndex? stands host args

/-- Without arguments a method passes those of its own call on, unless it is a sub-method: then the call goes on behind its
ensemble, and with the arguments of that. An ensemble further up the chain takes these to mean the same sub-method with the
same arguments, or they are the arguments of the sub-method, which the ensemble ran as it was given no name. -/
theorem Running.passesArgumentsOn {w : World} {i : Nat} {above : Frame} (running : Running Heap.HandlesRemain w)
    (active : w.stack.activeIndex? = some i) (here : w.stack.get? i = some above) :
    (Script.worldStep .currentArguments).exec w = (.ok (.list above.arguments), w) ∧
    (above.kind ≠ .ensemble → ∀ host, (next host none).exec w = (next host (some above.arguments)).exec w) ∧
    (above.kind = .ensemble → ∃ k container, i = k + 1 ∧ w.stack.get? k = some container ∧ container.Distributes above ∧
      (∀ host args, (next host args).exec w = (nextFrom host k args true).exec w) ∧
      (∀ host, (next host none).exec w = (next host (some container.arguments)).exec w) ∧
      ((∀ h, subMethod h container.arguments {} = pure (some (above.methodName, above.arguments))) ∨
        ∀ host, (next host none).exec w = (next host (some above.arguments)).exec w)) := by
  have isActive : w.stack.active? = some above := by
    rw [FrameStack.active?, active]
    exact here
  refine ⟨?_, fun single host => ?_, fun sub => ?_⟩
  · unfold Script.worldStep activeFrame
    rw [Update.exec_bind_of_ok (a := above) (v := w)]
    · rfl
    · rw [Update.exec_bind_of_ok (Update.exec_get w), isActive]
      rfl
  · have stands : w.stack.nextIndex? = some i := by
      unfold FrameStack.nextIndex?
      rw [active, Option.bind_some, here, Option.any_some, beq_false_of_ne single]
      rfl
    rw [exec_next_of_nextIndex? stands, exec_next_of_nextIndex? stands, exec_nextFrom_none here]
  · have seated := running.kept FrameStack.kept_subsSeated
    obtain ⟨k, container, onTop, below, distributes, stands⟩ := seated.exists_container active here sub
    have inSub : w.stack.inSubMethod = true := by
      rw [FrameStack.inSubMethod, isActive, Option.any_some, sub]
      rfl
    have goesOn : ∀ host args, (next host args).exec w = (nextFrom host k args true).exec w :=
      fun host args => inSub ▸ exec_next_of_nextIndex? stands host args
    have bare : ∀ host, (next host none).exec w = (next host (some container.arguments)).exec w := by
      intro host
      rw [goesOn, goesOn, exec_nextFrom_none below]
    refine ⟨k, container, onTop, below, distributes, goesOn, bare, ?_⟩
    rcases distributes.arguments with ⟨first, named, isName⟩ | same
    · refine .inl fun h => ?_
      rw [named, ← isName]
      rfl
    · exact .inr fun host => same ▸ bare host

/-- Two ensembles of one name along a class order. The sub-method of the first one runs on behalf of the caller, and passes
its call on, once without arguments and once with those of its own call. -/
def distributingSession : List Expr :=
  [foundation, Trial.createClass "Base", Trial.createSubclass "Derived" ["Base"], Trial.createObject "box" "Base",
    Trial.createObject "bag" "Base",
    Trial.define .object "box" (Trial.method "sub" (.list [.next none, .next (some (.ofWorld .currentArguments))])),
    .change (.keepCallerSelf (.name "box") (.literal (.bool true))),
    Trial.define .object "bag" (Trial.method "sub" (Trial.text "sub-method")),
    Trial.define .object "bag" (Trial.method "other" (Trial.text "another one")),
    .change (.defineEnsemble (.name "Base") (Trial.text "info") (.name "bag")),
    .change (.defineEnsemble (.name "Derived") (Trial.text "info") (.name "box")), Trial.createObject "o" "Derived"]

def distributingWorld : World :=
  (sessionWithin Heap.HandlesRemain 5 distributingSession).get (by decide +kernel)

theorem session_distributingWorld : Session Heap.HandlesRemain distributingWorld :=
  of_sessionWithin (.start {}) (fun _ _ _ _ session done => .ended session done) (Option.some_get _).symm

/-- The frame of a call of the ensemble on the object. -/
def infoFrame (resolved : Resolved) : Frame :=
  frameFor ⟨6, 0⟩ "info" resolved resolved.method [.text "sub", .text "other"] {}

/-- What the ensemble in a frame of its own finds in its container under the name of the sub-method. -/
def subIn? (w : World) (frame : Frame) (container : Handle) : Option ((Method × Option Handle) × World) :=
  ownOrInherited? (asEnsemble w.stack.depth (w.opened frame)) container "sub"

/-- The ensemble asks for a run of its sub-method. -/
theorem entered_sub : ∃ method definer v, Entered Heap.HandlesRemain
    (.run (subFrame ⟨6, 0⟩ "info" "sub" method definer [.text "other"]) method {}) v := by
  have begins : distributingWorld.objects.HandlesRemain := by decide +kernel
  have named : Lifecycle.objectNamed? distributingWorld "o" = some ⟨6, 0⟩ := by decide +kernel
  have callable : Callable distributingWorld ⟨6, 0⟩ "info" {} := by decide +kernel
  have distributes : ((findBare distributingWorld ⟨6, 0⟩ "info").any fun (resolved, v) =>
      (match resolved.method.implementation with
        | .ensemble container => container == ⟨4, 0⟩
        | _ => false) && decide v.objects.HandlesRemain &&
      (subIn? v (infoFrame resolved) ⟨4, 0⟩).any fun ((sub, _), x) => sub.kind == .scripted &&
        (x.live? ⟨4, 0⟩).any (·.keepsCallerSelf)) = true := by
    decide +kernel
  obtain ⟨⟨resolved, v⟩, bare, holds⟩ := Option.any_eq_true .. |>.1 distributes
  simp only [Bool.and_eq_true, decide_eq_true_eq] at holds
  obtain ⟨⟨container, good⟩, searched⟩ := holds
  have ensemble : resolved.method.implementation = .ensemble ⟨4, 0⟩ := by
    split at container
    · next is =>
      rw [is, beq_iff_eq.1 container]
    · cases container
  obtain ⟨⟨⟨sub, definer⟩, x⟩, found, holds⟩ := Option.any_eq_true .. |>.1 searched
  simp only [Bool.and_eq_true, beq_iff_eq] at holds
  obtain ⟨scripted, keeps⟩ := holds
  have calls : AsksFor (hostWithin Heap.HandlesRemain 1).failing (.eval .none (.dispatch (.name "o")
    (.literal (.list [.text "sub", .text "other"])) (.literal (.text "info")) {})) distributingWorld
      (.call ⟨6, 0⟩ "info" [.text "sub", .text "other"] {}) distributingWorld :=
    asksFor_call_of_given named (fun _ => rfl) begins
  have runs : AsksFor (hostWithin Heap.HandlesRemain 1).failing
    (.call ⟨6, 0⟩ "info" [.text "sub", .text "other"] {}) distributingWorld
      (.run (infoFrame resolved) resolved.method {}) v :=
    asksFor_run callable bare (by rw [MethodOf.kind, ensemble]; decide)
  have goesOn : AsksFor (hostWithin Heap.HandlesRemain 1).failing (.run (infoFrame resolved) resolved.method {}) v
      (.run (subFrame ⟨6, 0⟩ "info" "sub" sub definer [.text "other"]) sub {}) x :=
    asksFor_sub (infoFrame resolved) ensemble rfl found keeps (by rw [scripted]; decide)
  have called := (Entered.step session_distributingWorld _).sub begins calls
  exact ⟨sub, definer, x, (called.sub begins runs).sub good goesOn⟩

/-- The sub-method would pass on the name by which it was called, and what came with it. -/
theorem passesArgumentsOn_sub : ∃ (w : World) (i : Nat) (above container : Frame), Running Heap.HandlesRemain w ∧
    w.stack.activeIndex? = some i ∧ w.stack.get? i = some above ∧ above.kind = .ensemble ∧ container.Distributes above ∧
      ∀ host, (next host none).exec w = (next host (some container.arguments)).exec w := by
  obtain ⟨method, definer, v, entered⟩ := entered_sub
  obtain ⟨f, is⟩ : ∃ f, f = subFrame ⟨6, 0⟩ "info" "sub" method definer [.text "other"] := ⟨_, rfl⟩
  rw [← is] at entered
  obtain ⟨w, stack, running⟩ : ∃ w, w.stack = v.stack.push f ∧ Running Heap.HandlesRemain w :=
    ⟨v.opened f, rfl, .begun entered⟩
  have active : w.stack.activeIndex? = some v.stack.depth := stack ▸ FrameStack.activeIndex?_push v.stack (by rw [is]; rfl)
  have here : w.stack.get? v.stack.depth = some f := stack ▸ FrameStack.get?_push v.stack f
  have sub : f.kind = .ensemble := by rw [is]; rfl
  obtain ⟨_, container, -, -, distributes, -, bare, -⟩ := (Running.passesArgumentsOn running active here).2.2 sub
  exact ⟨w, _, f, container, running, active, here, sub, distributes, bare⟩

/-- Without arguments the sub-method comes to that of the same name, with the arguments of its own call to another one. -/
theorem not_same_sub_of_currentArguments : Reachable Heap.HandlesRemain distributingWorld ∧
    (((hostWithin Heap.HandlesRemain 10).call ⟨6, 0⟩ "info" [.text "sub", .text "other"] {}).exec distributingWorld).map
      (fun result => result.1.toOption.map Value.toText) = some (some "sub-method another one") := by
  refine ⟨.sessionWithin (Option.some_get _).symm, ?_⟩
  rw [hostWithin_eq_hostChecking]
  decide +kernel

end DynamicObjects
