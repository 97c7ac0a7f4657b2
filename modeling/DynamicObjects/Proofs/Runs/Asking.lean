import DynamicObjects.Proofs.Runs.Chains
import DynamicObjects.Proofs.Runs.Composition
import DynamicObjects.Proofs.Runs.OpenCalls

/-!
# What tasks ask for

A dispatch asks for its call, a call for the guard of the first mixin or for a run of the method that is found, a run
for its body, and a body that passes its call on for a run of the next method. Each is begun where the frames below it
are open.
-/
namespace DynamicObjects

open Invocation

variable {host : Host} {task sub : Task} {v w : World}

/-- A host that answers one task in one world in its own way. -/
noncomputable def Host.answering (host : Host) (task : Task) (w : World)
    (answer : Option (Except Failure Value × World)) : Host :=
  open Classical in
  .ofTasks fun t => ExceptT.mk fun u => if t = task ∧ u = w then answer else (host.perform t).exec u

theorem Host.exec_answering (host : Host) (task : Task) (w : World) (answer : Option (Except Failure Value × World)) :
    ((host.answering task w answer).perform task).exec w = answer := by
  rw [answering, perform_ofTasks]
  exact if_pos ⟨rfl, rfl⟩

theorem Host.exec_answering_of_other (host : Host) {answer : Option (Except Failure Value × World)} {t : Task} {u : World}
    (other : t ≠ task ∨ u ≠ w) : ((host.answering task w answer).perform t).exec u = (host.perform t).exec u := by
  rw [answering, perform_ofTasks]
  exact if_neg fun same => other.elim (absurd same.1) (absurd same.2)

namespace Action

variable {α β : Type} {e : Option Failure}

/-- Without an answer an action has no outcome; where the answer is a failure, it fails. -/
def Stops (a : Action α) (w : World) (e : Option Failure) : Prop :=
  ∃ r : Option (Failure × World), r.isSome = e.isSome ∧ a.exec w = r.map fun (f, v) => (.error f, v)

theorem Stops.of_answer {a : Action α} (answer : a.exec w = e.map fun f => (.error f, w)) : a.Stops w e :=
  ⟨e.map fun f => (f, w), Option.isSome_map, by rw [answer, Option.map_map]; rfl⟩

theorem Stops.of_eq {a b : Action α} (same : a.exec w = b.exec v) (stops : b.Stops v e) : a.Stops w e := by
  obtain ⟨r, answered, done⟩ := stops
  exact ⟨r, answered, same.trans done⟩

theorem Stops.bind {a : Action α} (stops : a.Stops w e) (f : α → Action β) : (a >>= f).Stops w e := by
  obtain ⟨r, same, done⟩ := stops
  refine ⟨r, same, ?_⟩
  rw [exec_bind, done]
  cases r <;> rfl

/-- Whatever the world is changed to afterwards. -/
theorem Stops.of_exec {a b : Action α} (back : World → World) (stops : b.Stops v e)
    (done : a.exec w = (b.exec v).map fun (r, x) => (r, back x)) : a.Stops w e := by
  obtain ⟨r, same, done'⟩ := stops
  refine ⟨r.map fun (f, x) => (f, back x), Option.isSome_map.trans same, ?_⟩
  rw [done, done', Option.map_map, Option.map_map]
  rfl

/-- Behind what ends well before. -/
theorem Stops.after {a : Action α} {x : α} {f : α → Action β} (first : a.exec w = some (.ok x, v))
    (stops : (f x).Stops v e) : (a >>= f).Stops w e :=
  .of_eq (exec_bind_of_ok first f) stops

theorem Stops.after_lift {u : Update α} {x : α} {f : α → Action β} (first : u.exec w = (.ok x, v))
    (stops : (f x).Stops v e) : ((liftM u : Action α) >>= f).Stops w e :=
  .after ((exec_liftM u w).trans (congrArg some first)) stops

/-- An action that is run to its end, if its failure is passed on. -/
theorem Stops.settle_bind {a : Action α} {f : Except Failure α → Action β} (stops : a.Stops w e)
    (fails : ∀ failure u, ∃ failure' u', (f (.error failure)).exec u = some (.error failure', u')) :
    (settle a >>= f).Stops w e := by
  obtain ⟨r, same, done⟩ := stops
  have exec := exec_settle_bind a f w
  rw [done] at exec
  cases r with
  | none => exact ⟨none, same, exec⟩
  | some failed =>
    obtain ⟨failure, u, ended⟩ := fails failed.1 failed.2
    exact ⟨some (failure, u), same, exec.trans ended⟩

end Action

/-- A task asks for another one if it has no outcome where that has none, and fails where that fails at once. -/
theorem AsksFor.of_stops (stops : ∀ other : Host,
    (∀ t u, t ≠ sub ∨ u ≠ v → (other.perform t).exec u = (host.perform t).exec u) →
      ∀ e, (other.perform sub).Stops v e → (interpret other task).Stops w e) : AsksFor host task w sub v := by
  by_contra unasked
  have same : ∀ e : Option Failure, ((interpret host task).exec w).isSome = e.isSome := by
    intro e
    obtain ⟨other, answers⟩ : ∃ other, other = host.answering sub v (e.map fun f => (.error f, v)) := ⟨_, rfl⟩
    have agrees : ∀ t u, t ≠ sub ∨ u ≠ v → (other.perform t).exec u = (host.perform t).exec u :=
      fun t u apart => answers ▸ host.exec_answering_of_other apart
    obtain ⟨r, here, done⟩ := stops other agrees e (.of_answer (answers ▸ host.exec_answering sub v _))
    have unseen : (interpret other task).exec w = (interpret host task).exec w := by
      by_contra differs
      exact unasked ⟨other, agrees, differs⟩
    rw [← unseen, done, Option.isSome_map, here]
  have both := (same none).symm.trans (same (some (.recursion 0)))
  cases both

section agrees

variable {other : Host} {frame : Frame} {method : Method} {mods : CallModifiers}
  (agrees : ∀ t u, t ≠ .run frame method mods ∨ u ≠ v → (other.perform t).exec u = (host.perform t).exec u)

include agrees

/-- Hosts that only run a method differently evaluate and call alike. -/
theorem Host.eval_of_agrees : other.eval = host.eval := by
  funext s e u
  exact agrees (.eval s e) u (.inl nofun)

theorem Host.call_of_agrees : other.call = host.call := by
  funext h name args mods u
  exact agrees (.call h name args mods) u (.inl nofun)

end agrees

/-- What is the same on all hosts is so on hosts of sessions. -/
theorem Host.exec_failing {good : Objects → Prop} {depth : Nat} {r : Except Failure Value}
    (done : ∀ k, (interpret k task).exec w = some (r, v)) (begins : good w.objects) (ends : good v.objects) :
    ((hostWithin good (depth + 1)).failing.perform task).exec w = some (r, v) := by
  have performed : ((hostWithin good (depth + 1)).perform task).exec w = some (r, v) := by
    rw [hostWithin, perform_ofTasks]
    exact Action.exec_within_eq_some.2 ⟨begins, ends, done _⟩
  rw [perform_failing, performed, Option.getD_some]

/-! ## Expressions -/

/-- A dispatch asks for the call, once its receiver, its arguments and the name of its method are known. -/
theorem asksFor_call {surroundings : Surroundings} {on : Reference} {args method : Expr} {mods : CallModifiers}
    {h : Handle} {values : List Value} {name : String} {u x : World}
    (receiver : (Script.lookUp host surroundings on).exec w = some (.ok h, u))
    (arguments : (Script.argumentsOf host surroundings args).exec u = some (.ok values, x))
    (named : (Script.textOf host surroundings method).exec x = some (.ok name, v)) :
    AsksFor host (.eval surroundings (.dispatch on args method mods)) w (.call h name values mods) v := by
  refine .of_stops fun other agrees e stops => ?_
  have evaluates : other.eval = host.eval := by
    funext s e' y
    exact agrees (.eval s e') y (.inl nofun)
  have receiver' : (Script.lookUp other surroundings on).exec w = some (.ok h, u) := by
    rw [← receiver]
    cases on <;> simp only [Script.lookUp, evaluates]
  have arguments' : (Script.argumentsOf other surroundings args).exec u = some (.ok values, x) := by
    rw [← arguments, Script.argumentsOf, evaluates, ← Script.argumentsOf]
  have named' : (Script.textOf other surroundings method).exec x = some (.ok name, v) := by
    rw [← named, Script.textOf, evaluates, ← Script.textOf]
  exact .after receiver' (.after arguments' (.after named' stops))

/-- A dispatch on an object by its name, with arguments that need no host. -/
theorem asksFor_call_of_given {good : Objects → Prop} {depth : Nat} {surroundings : Surroundings} {n name : String}
    {mods : CallModifiers} {h : Handle} {args : Expr} {values : List Value} (named : Lifecycle.objectNamed? w n = some h)
    (given : ∀ k, (Script.evaluate k surroundings args).exec w = some (.ok (.list values), w)) (begins : good w.objects) :
    AsksFor (hostWithin good (depth + 1)).failing
      (.eval surroundings (.dispatch (.name n) args (.literal (.text name)) mods)) w (.call h name values mods) w := by
  obtain ⟨host, is⟩ : ∃ host, host = (hostWithin good (depth + 1)).failing := ⟨_, rfl⟩
  have evaluated : ∀ e r, (∀ k, (Script.evaluate k surroundings e).exec w = some (r, w)) →
      (host.eval surroundings e).exec w = some (r, w) := by
    intro e r done
    have performed : ((hostWithin good (depth + 1)).failing.perform (.eval surroundings e)).exec w = some (r, w) :=
      Host.exec_failing done begins begins
    rw [is]
    exact performed
  have arguments : (Script.argumentsOf host surroundings args).exec w = some (.ok values, w) :=
    Action.exec_bind_of_ok (evaluated args (.ok (.list values)) given) _
  have text : (Script.textOf host surroundings (.literal (.text name))).exec w = some (.ok name, w) :=
    Action.exec_bind_of_ok (evaluated (.literal (.text name)) (.ok (.text name)) fun _ => rfl) _
  rw [← is]
  refine asksFor_call ?_ arguments text
  rw [Script.lookUp, Action.exec_bind_of_ok (Action.exec_get w), named]
  rfl

/-- A dispatch on an object by its name, without arguments. -/
theorem asksFor_call_of_name {good : Objects → Prop} {depth : Nat} {surroundings : Surroundings} {n name : String}
    {mods : CallModifiers} {h : Handle} (named : Lifecycle.objectNamed? w n = some h) (begins : good w.objects) :
    AsksFor (hostWithin good (depth + 1)).failing
      (.eval surroundings (.dispatch (.name n) (.list []) (.literal (.text name)) mods)) w (.call h name [] mods) w :=
  asksFor_call_of_given named (fun _ => rfl) begins

/-- What a next call finds behind a frame that is no filter and no mixin, and the world after the search. -/
def nextBare? (w : World) (frame : Frame) : Option (Resolved × World) :=
  match (nextPlain frame ⟨frame.methodName, frame.definer, false⟩).exec w with
  | (.ok (some resolved), v) => some (resolved, v)
  | _ => none

theorem exec_continuation_of_nextBare? {frame : Frame} (plain : frame.kind = .plain) {resolved : Resolved}
    (behind : nextBare? w frame = some (resolved, v)) (k : Host) :
    (continuation k frame).exec w = some (.ok ⟨some resolved, false⟩, v) := by
  have searched : (nextPlain frame ⟨frame.methodName, frame.definer, false⟩).exec w = (.ok (some resolved), v) := by
    unfold nextBare? at behind
    split at behind
    · next searched =>
      cases behind
      exact searched
    · cases behind
  have unfiltered : (continueUnfiltered k frame ⟨frame.methodName, frame.definer, false⟩).exec w =
      some (.ok (some resolved), v) := by
    unfold continueUnfiltered
    rw [plain, Action.exec_bind_of_ok (Action.exec_get w)]
    exact (Action.exec_liftM _ w).trans (congrArg some searched)
  unfold continuation
  rw [plain]
  exact Action.exec_bind_of_ok unfiltered _

/-- A next call asks for a run of what the search behind the running frame finds, or where that leads. -/
theorem asksFor_next_of_leads {surroundings : Surroundings} {i : Nat} {frame : Frame} {resolved : Resolved} {done : Bool}
    {method : Method} {u : World} (active : w.stack.activeIndex? = some i) (here : w.stack.get? i = some frame)
    (single : frame.kind ≠ .ensemble) (behind : (continuation host frame).exec w = some (.ok ⟨some resolved, done⟩, u))
    (leads : (Definition.followAliases resolved.method).exec (offTo i frame.kind u) = (.ok method, v)) :
    AsksFor host (.eval surroundings (.next none)) w
      (.run (frameFor frame.object frame.called resolved method frame.arguments {}) method {}) v := by
  refine .of_stops fun other agrees e stops => ?_
  have noEnsemble : (w.stack.get? i).any (·.kind == .ensemble) = false := by
    rw [here, Option.any_some, beq_false_of_ne single]
  have behind' : (continuation other frame).exec w = some (.ok ⟨some resolved, done⟩, u) := by
    have same : continuation other frame = continuation host frame :=
      (@composed_continuation False frame).congr not_false (Host.eval_of_agrees agrees) (Host.call_of_agrees agrees)
    rw [same, behind]
  have passes : (passOn other i frame none false).Stops w e := by
    refine .after behind' (.of_exec (backFrom i frame.kind) stops ?_)
    exact (exec_duringNext i frame.kind _).trans (congrArg _ (exec_enter_of_leads _ _ _ _ leads))
  change (next other none).Stops w e
  unfold next
  refine .after (Action.exec_get w) ?_
  dsimp only
  rw [active]
  dsimp only
  rw [noEnsemble, if_neg Bool.false_ne_true]
  exact .of_exec (fun x => x.restored frame.object _ _) passes (exec_nextFrom here none false)

/-- A next call asks for a run of the method that the search behind the running frame finds. -/
theorem asksFor_next {surroundings : Surroundings} {i : Nat} {frame : Frame} {resolved : Resolved} {done : Bool} {u : World}
    (active : w.stack.activeIndex? = some i) (here : w.stack.get? i = some frame) (single : frame.kind ≠ .ensemble)
    (behind : (continuation host frame).exec w = some (.ok ⟨some resolved, done⟩, u))
    (direct : resolved.method.kind ≠ .aliased) :
    AsksFor host (.eval surroundings (.next none)) w
      (.run (frameFor frame.object frame.called resolved resolved.method frame.arguments {}) resolved.method {})
      (offTo i frame.kind u) :=
  asksFor_next_of_leads active here single behind (exec_followAliases direct _)

/-! ## Calls -/

section call

variable {h : Handle} {name : String} {args : List Value} {mods : CallModifiers} {o : Object} {mixins : List Mixin}
  {u : World}

/-- The mixin order of an object that has no filters, and the world once it is known. -/
def mixinsUnfiltered? (w : World) (h : Handle) : Option (List Mixin × World) :=
  match (Interception.filterOrder h).exec w with
  | (.ok [], u) =>
    match (Interception.mixinOrder h).exec u with
    | (.ok mixins, v) => some (mixins, v)
    | _ => none
  | _ => none

/-- What a call finds on an object that has neither filters nor mixins, and the world after the search. -/
def findBare (w : World) (h : Handle) (name : String) : Option (Resolved × World) :=
  match mixinsUnfiltered? w h with
  | some ([], u) =>
    match (resolvePlain h name {}).exec u with
    | (.ok (some resolved), v) => some (resolved, v)
    | _ => none
  | _ => none

/-- The guard of the first mixin of an object that has no filters, if the mixin has a method of this name, and the world in
which the guard begins. -/
def firstGuard? (w : World) (h : Handle) (name : String) : Option (Predicate × World) :=
  match mixinsUnfiltered? w h with
  | some (mixin :: _, v) =>
    if (((v.objects.class? mixin.target).bind (·.methods.get? name)).filter (!·.isPrivate)).isSome ∧ v.guardDepth = 0 then
      mixin.guard.map fun guard => (guard, { v with
        stack := v.stack.push { object := h, methodName := name, isGuard := true }
        guardDepth := v.guardDepth + 1 })
    else none
  | _ => none

/-- A simple name is called on a live object below the limit, and filters take part. -/
structure Callable (w : World) (h : Handle) (name : String) (mods : CallModifiers) : Prop where
  simple : interceptable name mods = true
  filtered : w.settings.filtersEnabled = true
  unguarded : w.guardDepth = 0
  outside : insideFilterOf w h = false
  live : (w.live? h).isSome = true
  room : w.stack.depth < w.settings.maxDepth

instance (w : World) (h : Handle) (name : String) (mods : CallModifiers) : Decidable (Callable w h name mods) :=
  decidable_of_iff (interceptable name mods = true ∧ w.settings.filtersEnabled = true ∧ w.guardDepth = 0 ∧
      insideFilterOf w h = false ∧ (w.live? h).isSome = true ∧ w.stack.depth < w.settings.maxDepth) <| by
    constructor
    · rintro ⟨simple, filtered, unguarded, outside, live, room⟩
      exact ⟨simple, filtered, unguarded, outside, live, room⟩
    · rintro ⟨simple, filtered, unguarded, outside, live, room⟩
      exact ⟨simple, filtered, unguarded, outside, live, room⟩

theorem Callable.exec_resolve (callable : Callable w h name mods) (ordered : mixinsUnfiltered? w h = some (mixins, u))
    (k : Host) : (resolve k h name mods).exec w = (resolveUnfiltered k h name mods mixins).exec u := by
  unfold mixinsUnfiltered? at ordered
  split at ordered
  · next x filters =>
    split at ordered
    · next mixed =>
      cases ordered
      have unfiltered : (firstFilter k h).exec w = some (.ok none, x) := by
        rw [exec_firstFilter_of_filterOrder callable.filtered callable.unguarded callable.outside filters]
        rfl
      unfold resolve
      rw [callable.simple]
      exact (Action.exec_bind_of_ok unfiltered _).trans (Action.exec_liftM_bind_of_ok mixed _)
    · cases ordered
  · cases ordered

/-- A call asks for the guard of the first mixin. -/
theorem asksFor_guard (callable : Callable w h name mods) {guard : Predicate}
    (guarded : firstGuard? w h name = some (guard, v)) :
    AsksFor host (.call h name args mods) w (.eval .none guard.test) v := by
  refine .of_stops fun other _ e stops => ?_
  obtain ⟨o, live⟩ := Option.isSome_iff_exists.1 callable.live
  unfold firstGuard? at guarded
  split at guarded
  · next mixin rest u ordered =>
    split at guarded
    · next holds =>
      obtain ⟨guard, isGuard, same⟩ := Option.map_eq_some_iff.1 guarded
      cases same
      obtain ⟨method, mixes⟩ := Option.isSome_iff_exists.1 holds.1
      have guards : (evalGuard other h name guard).Stops u e := by
        refine .after (Action.exec_modify _ u) (stops.settle_bind fun failure x => ?_)
        rw [Action.exec_bind_of_ok (Action.exec_modify _ x)]
        exact ⟨_, _, rfl⟩
      have searches : (searchMixins other h name (mixin :: rest)).Stops u e := by
        unfold searchMixins
        refine .after (Action.exec_get u) ?_
        rw [mixes, if_pos holds.2, isGuard]
        exact guards.bind _
      have resolves : (resolve other h name mods).Stops w e :=
        .of_eq (callable.exec_resolve ordered other) (searches.bind _)
      change (call other h name args mods).Stops w e
      unfold call
      refine .after (Action.exec_get w) ?_
      rw [if_neg (Nat.not_le.2 callable.room)]
      exact .after_lift (Update.exec_object_of_live live) (resolves.bind _)
    · cases guarded
  · cases guarded

/-- A call asks for a run of what it finds, or where that leads. -/
theorem asksFor_run_of_leads (live : w.live? h = some o) (room : w.stack.depth < w.settings.maxDepth)
    {resolved : Resolved} {method : Method} (found : (resolve host h name mods).exec w = some (.ok (some resolved), u))
    (leads : (Definition.followAliases resolved.method).exec u = (.ok method, v)) :
    AsksFor host (.call h name args mods) w (.run (frameFor h name resolved method args mods) method mods) v := by
  refine .of_stops fun other agrees e stops => ?_
  have found' : (resolve other h name mods).exec w = some (.ok (some resolved), u) := by
    have same : resolve other h name mods = resolve host h name mods :=
      (@composed_resolve False h name mods).congr not_false (Host.eval_of_agrees agrees) (Host.call_of_agrees agrees)
    rw [same, found]
  refine .of_eq ((exec_call_of_resolve args live room found').trans ?_) stops
  exact exec_enter_of_leads h name args mods leads

theorem asksFor_run_of_resolve (live : w.live? h = some o) (room : w.stack.depth < w.settings.maxDepth)
    {resolved : Resolved} (found : (resolve host h name mods).exec w = some (.ok (some resolved), v))
    (direct : resolved.method.kind ≠ .aliased) : AsksFor host (.call h name args mods) w
      (.run (frameFor h name resolved resolved.method args mods) resolved.method mods) v :=
  asksFor_run_of_leads live room found (exec_followAliases direct v)

theorem Callable.exec_resolve_of_bare (callable : Callable w h name {}) {resolved : Resolved}
    (bare : findBare w h name = some (resolved, v)) (k : Host) :
    (resolve k h name {}).exec w = some (.ok (some resolved), v) := by
  unfold findBare at bare
  split at bare
  · next u ordered =>
    split at bare
    · next plain =>
      cases bare
      rw [callable.exec_resolve ordered]
      exact (Action.exec_liftM _ u).trans (congrArg some plain)
    · cases bare
  · cases bare

/-- A call on a bare object asks for a run of the method that is found. -/
theorem asksFor_run (callable : Callable w h name {}) {resolved : Resolved}
    (bare : findBare w h name = some (resolved, v)) (direct : resolved.method.kind ≠ .aliased) :
    AsksFor host (.call h name args {}) w (.run (frameFor h name resolved resolved.method args {}) resolved.method {}) v := by
  obtain ⟨o, live⟩ := Option.isSome_iff_exists.1 callable.live
  exact asksFor_run_of_resolve live callable.room (callable.exec_resolve_of_bare bare host) direct

end call

/-! ## Runs -/

/-- Closing a frame passes a failure on. -/
theorem exec_close_of_error (host : Host) (failure : Failure) (w : World) :
    ∃ u, (close host (.error failure)).exec w = some (.error failure, u) := by
  unfold close
  rw [Action.exec_bind_of_ok (Action.exec_get w)]
  cases w.stack.top? with
  | none => exact ⟨w, rfl⟩
  | some frame =>
    dsimp only
    rw [Action.exec_bind_of_ok (Action.exec_modify _ w), Action.exec_liftM_bind_of_ok (exec_popPositions ..),
      Action.exec_settle_bind]
    obtain ⟨u, lets, -⟩ := exec_letGo ⟨fun _ => True, False⟩ frame.object (World.lowered { w with stack := w.stack.pop }
      frame.object frame.pushedFilterPosition frame.pushedMixinPosition)
    exact ⟨u, (Action.exec_liftM_bind_of_ok lets _).trans (Action.exec_resume _ u)⟩

/-- A receiver that asks for no checks is not checked. -/
theorem exec_checkAssertions_of_unchecked {h : Handle} {o : Object} (live : w.live? h = some o) (unchecked : o.checks = {})
    (host : Host) (method : Method) (phase : Phase) : (checkAssertions host h method phase).exec w = some (.ok ⟨⟩, w) := by
  have none : (assertions o method phase).exec w = (.ok [], w) := by
    unfold assertions conditions
    rw [unchecked]
    cases phase <;> rfl
  unfold checkAssertions
  rw [Action.exec_bind_of_ok (Action.exec_get w)]
  split
  · rfl
  · rw [live]
    exact Action.exec_liftM_bind_of_ok none _

/-- The body of a scripted method, and what its parameters are bound to in a frame. -/
def scriptedBody? (w : World) (frame : Frame) (method : Method) : Option (Arguments × Expr) :=
  match method.implementation with
  | .scripted parameters body =>
    (Parsing.parse (w.opened frame).accepts parameters frame.arguments).toOption.map fun arguments => (arguments, body)
  | _ => none

theorem scripted_of_scriptedBody? {frame : Frame} {method : Method} {arguments : Arguments} {body : Expr}
    (reads : scriptedBody? w frame method = some (arguments, body)) :
    ∃ parameters, method.implementation = .scripted parameters body ∧
      Parsing.parse (w.opened frame).accepts parameters frame.arguments = .ok arguments := by
  unfold scriptedBody? at reads
  split at reads
  · next parameters body scripted =>
    obtain ⟨arguments, parsed, same⟩ := Option.map_eq_some_iff.1 reads
    cases same
    refine ⟨parameters, scripted, ?_⟩
    cases result : Parsing.parse (w.opened frame).accepts parameters frame.arguments with
    | ok _ => rw [result] at parsed; cases parsed; rfl
    | error fault => rw [result] at parsed; cases parsed
  · cases reads

theorem kind_of_scriptedBody? {frame : Frame} {method : Method} {arguments : Arguments} {body : Expr}
    (reads : scriptedBody? w frame method = some (arguments, body)) : method.kind = .scripted := by
  obtain ⟨parameters, scripted, -⟩ := scripted_of_scriptedBody? reads
  rw [MethodOf.kind, scripted]

/-- A run asks for what the method asks for in its frame. -/
theorem AsksFor.of_implement {frame : Frame} {method : Method} {mods : CallModifiers}
    (stops : ∀ (other : Host) e, (other.perform sub).Stops v e →
      (implement other w.stack.depth frame.object method frame.arguments mods).Stops (w.opened frame) e) :
    AsksFor host (.run frame method mods) w sub v := by
  refine .of_stops fun other _ e here => ?_
  have holds : (hold frame.object).exec { w with stack := w.stack.push frame } = (.ok ⟨⟩, w.opened frame) := rfl
  change (run other frame method mods).Stops w e
  unfold run
  refine .after (Action.exec_get w) (.after (Action.exec_modify _ w) (.after_lift holds ?_))
  refine (stops other e here).settle_bind fun failure u => ?_
  obtain ⟨x, closes⟩ := exec_close_of_error other failure u
  exact ⟨failure, x, closes⟩

theorem World.live?_opened {frame : Frame} {o : Object} (live : w.live? frame.object = some o) :
    (w.opened frame).live? frame.object = some { o with holders := o.holders + 1 } := by
  obtain ⟨found, linked⟩ := World.live?_eq_some_iff.1 live
  refine World.live?_eq_some_iff.2 ⟨?_, linked⟩
  rw [World.opened, Heap.get?_modify, if_pos rfl, found]
  rfl

/-- A run of a scripted method asks for its body, with the frame open. -/
theorem asksFor_body {frame : Frame} {method : Method} {mods : CallModifiers} {body : Expr} {arguments : Arguments}
    {o : Object} (live : w.live? frame.object = some o) (unchecked : o.checks = {})
    (reads : scriptedBody? w frame method = some (arguments, body)) :
    AsksFor host (.run frame method mods) w (.eval (.scripted arguments) body) (w.opened frame) := by
  obtain ⟨parameters, scripted, parsed⟩ := scripted_of_scriptedBody? reads
  refine .of_implement fun other e stops => ?_
  rw [implement, scripted]
  unfold runScript
  refine .after (Action.exec_get _) ?_
  rw [parsed]
  have passes := exec_checkAssertions_of_unchecked (World.live?_opened live) unchecked other method .before
  exact .after passes (stops.bind _)

/-- So a call on a bare object leads to the body of the scripted method that is found. -/
theorem asksFor_run_body {h : Handle} {name : String} {args : List Value} (callable : Callable w h name {})
    {resolved : Resolved} (bare : findBare w h name = some (resolved, v)) {o : Object} (live : v.live? h = some o)
    (unchecked : o.checks = {}) {arguments : Arguments} {body : Expr}
    (reads : scriptedBody? v (frameFor h name resolved resolved.method args {}) resolved.method = some (arguments, body)) :
    AsksFor host (.call h name args {}) w (.run (frameFor h name resolved resolved.method args {}) resolved.method {}) v ∧
      AsksFor host (.run (frameFor h name resolved resolved.method args {}) resolved.method {}) v
        (.eval (.scripted arguments) body) (v.opened (frameFor h name resolved resolved.method args {})) := by
  have direct : resolved.method.kind ≠ .aliased := by
    rw [kind_of_scriptedBody? reads]
    decide
  exact ⟨asksFor_run callable bare direct, asksFor_body live unchecked reads⟩

end DynamicObjects
