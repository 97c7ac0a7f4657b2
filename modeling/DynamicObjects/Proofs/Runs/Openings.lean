import DynamicObjects.Proofs.Runs.Asking
import DynamicObjects.Proofs.Runs.Evaluations

/-!
# How frames are opened

A run of a method is asked for by a call, for what its search found; by a next call, for what was found behind a frame;
and by an ensemble, which runs a sub-method or passes its own call on. In each case aliases are followed first.
-/
namespace DynamicObjects

open Invocation

/-! ## Where a next call goes on -/

/-- The frame behind which a next call goes on: the active one, or the ensemble of an active sub-method. -/
def FrameStack.nextIndex? (stack : FrameStack) : Option Nat :=
  stack.activeIndex?.bind fun i =>
    if (stack.get? i).any (·.kind == .ensemble) then stack.ensembleIndex? i else some i

/-- Whether the active frame runs a sub-method. -/
def FrameStack.inSubMethod (stack : FrameStack) : Bool :=
  stack.active?.any (·.kind == .ensemble)

theorem Invocation.exec_next (k : Host) (args : Option (List Value)) (w : World) : (next k args).exec w =
    (match w.stack.nextIndex? with
      | none => throw (.noActiveFrame "next")
      | some i => nextFrom k i args w.stack.inSubMethod : Action Value).exec w := by
  unfold next FrameStack.nextIndex? FrameStack.inSubMethod FrameStack.active?
  rw [Action.exec_bind_of_ok (Action.exec_get w)]
  dsimp only
  cases w.stack.activeIndex? with
  | none => rfl
  | some i =>
    dsimp only [Option.bind_some]
    cases (w.stack.get? i).any (·.kind == .ensemble) with
    | false => rfl
    | true =>
      rw [if_pos rfl, if_pos rfl]
      cases w.stack.ensembleIndex? i <;> rfl

/-- The arguments given to a next call, if any are. -/
def Script.givenTo (host : Host) (s : Surroundings) : Option Expr → Action (Option (List Value))
  | none => return none
  | some e => some <$> argumentsOf host s e

theorem Script.composed_givenTo {passes : Prop} (s : Surroundings) (given : Option Expr) :
    Composed True passes fun k => givenTo k s given := by
  cases given with
  | none => exact .pure none
  | some e => exact (composed_argumentsOf s e).map some

theorem Script.keeps_givenTo {terms : Terms} {host : Host} (s : Surroundings) (given : Option Expr) :
    Keeps terms host fun k => givenTo k s given := by
  cases given with
  | none => exact Keeps.pure none
  | some e => exact keeps_map (keeps_argumentsOf s e) some

/-! ## What actions need of a host -/

/-- For the outcome of an action begun in `w` it matters what the host does with the task `sub` in `v`. -/
def Needs {α : Type} (host : Host) (f : Host → Action α) (w : World) (sub : Task) (v : World) : Prop :=
  ∃ other : Host, (∀ t u, t ≠ sub ∨ u ≠ v → (other.perform t).exec u = (host.perform t).exec u) ∧
    (f other).exec w ≠ (f host).exec w

namespace Needs

variable {α β : Type} {host : Host} {f : Host → Action α} {sub : Task} {u v w : World} {frame : Frame} {method : Method}
  {mods : CallModifiers}

/-- Where the outcome of one action is read off that of another. -/
theorem of_exec {g : Host → Action β} (needs : Needs host f w sub v)
    (φ : Option (Except Failure β × World) → Option (Except Failure α × World))
    (same : ∀ k, (f k).exec w = φ ((g k).exec u)) : Needs host g u sub v := by
  obtain ⟨other, agrees, differs⟩ := needs
  refine ⟨other, agrees, fun alike => differs ?_⟩
  rw [same, same, alike]

theorem of_eq {g : Host → Action α} (needs : Needs host f w sub v) (same : ∀ k, (f k).exec w = (g k).exec u) :
    Needs host g u sub v :=
  needs.of_exec id same

/-- Either the first part needs it, or what follows once that part has ended. -/
theorem of_bind {g : Host → α → Action β} (needs : Needs host (fun k => f k >>= g k) w sub v) :
    Needs host f w sub v ∨ ∃ a u, (f host).exec w = some (.ok a, u) ∧ Needs host (fun k => g k a) u sub v := by
  obtain ⟨other, agrees, differs⟩ := needs
  by_cases same : (f other).exec w = (f host).exec w
  · rw [Action.exec_bind, Action.exec_bind, same] at differs
    cases done : (f host).exec w with
    | none => exact absurd (by rw [done]; rfl) differs
    | some result =>
      obtain ⟨r, u⟩ := result
      cases r with
      | ok a =>
        rw [done] at differs
        exact .inr ⟨a, u, rfl, other, agrees, differs⟩
      | error e => exact absurd (by rw [done]; rfl) differs
  · exact .inl ⟨other, agrees, same⟩

theorem of_settle (needs : Needs host (fun k => Action.settle (f k)) w sub v) : Needs host f w sub v :=
  needs.of_exec _ fun k => Action.exec_settle (f k) w

/-- What follows an action that is run to its end, failed or not. -/
theorem of_settle_bind {g : Host → Except Failure α → Action β}
    (needs : Needs host (fun k => Action.settle (f k) >>= g k) w sub v) :
    Needs host f w sub v ∨ ∃ r u, (f host).exec w = some (r, u) ∧ Needs host (fun k => g k r) u sub v := by
  refine needs.of_bind.imp of_settle fun ⟨r, u, done, rest⟩ => ⟨r, u, ?_, rest⟩
  rw [Action.exec_settle] at done
  obtain ⟨⟨r', u'⟩, done', same⟩ := Option.map_eq_some_iff.1 done
  cases same
  exact done'

theorem of_perform {task : Task} (needs : Needs host (·.perform task) w sub v) : task = sub ∧ w = v := by
  obtain ⟨other, agrees, differs⟩ := needs
  by_contra apart
  rw [not_and_or] at apart
  exact differs (agrees task w apart)

/-- Nothing but a run is missing to an action that only evaluates and calls. -/
theorem not_of_congr (same : ∀ k : Host, k.eval = host.eval → k.call = host.call → f k = f host) :
    ¬Needs host f w (.run frame method mods) v := by
  rintro ⟨other, agrees, differs⟩
  refine differs (congrArg (·.exec w) (same other ?_ ?_))
  · funext s e x
    exact agrees (.eval s e) x (.inl nofun)
  · funext h name args mods x
    exact agrees (.call h name args mods) x (.inl nofun)

theorem not_of_composed {speaks passes : Prop} (composed : Composed speaks passes f) (never : ¬passes) :
    ¬Needs host f w (.run frame method mods) v :=
  not_of_congr fun _ => composed.congr never

/-- Behind a part that only evaluates and calls. -/
theorem of_composed_bind {speaks passes : Prop} (composed : Composed speaks passes f) (never : ¬passes)
    {g : Host → α → Action β} (needs : Needs host (fun k => f k >>= g k) w (.run frame method mods) v) :
    ∃ a u, (f host).exec w = some (.ok a, u) ∧ Needs host (fun k => g k a) u (.run frame method mods) v :=
  needs.of_bind.resolve_left (not_of_composed composed never)

theorem not_const {a : Action α} : ¬Needs host (fun _ => a) w sub v :=
  fun ⟨_, _, differs⟩ => differs rfl

/-- Behind an update. -/
theorem of_lift_bind {u : Update α} {g : Host → α → Action β}
    (needs : Needs host (fun k => (liftM u : Action α) >>= g k) w sub v) :
    ∃ a x, u.exec w = (.ok a, x) ∧ Needs host (fun k => g k a) x sub v := by
  obtain ⟨a, x, done, rest⟩ := needs.of_bind.resolve_left not_const
  exact ⟨a, x, Option.some.inj ((Action.exec_liftM u w).symm.trans done), rest⟩

theorem not_throw_bind {e : Failure} {g : Host → α → Action β} :
    ¬Needs host (fun k => (throw e : Action α) >>= g k) w sub v := by
  intro needs
  obtain ⟨a, x, done, -⟩ := needs.of_bind.resolve_left not_const
  cases done

end Needs

/-! ## Runs that are asked for -/

namespace Invocation

variable {host : Host} {h : Handle} {called : String} {resolved : Resolved} {args : List Value} {mods : CallModifiers}
  {i : Nat} {frame : Frame} {method : Method} {asked : CallModifiers} {v w : World}

/-- A run of what was found, begun once aliases are followed. -/
inductive Enters (h : Handle) (called : String) (resolved : Resolved) (args : List Value) (mods : CallModifiers)
    (w : World) : Task → World → Prop
  | run {method : Method} {v : World} (leads : (Definition.followAliases resolved.method).exec w = (.ok method, v)) :
    Enters h called resolved args mods w (.run (frameFor h called resolved method args mods) method mods) v

theorem enters_of_needs
    (needs : Needs host (fun k => enter k h called resolved args mods) w (.run frame method asked) v) :
    Enters h called resolved args mods w (.run frame method asked) v := by
  obtain ⟨other, -, differs⟩ | ⟨r, u, done, rest⟩ := needs.of_settle_bind
  · exact absurd rfl differs
  rw [Action.exec_liftM] at done
  cases r with
  | ok target =>
    have runs : Needs host (·.perform (.run (frameFor h called resolved target args mods) target mods)) u
      (.run frame method asked) v := rest
    obtain ⟨same, rfl⟩ := runs.of_perform
    rw [← same]
    exact .run (Option.some.inj done)
  | error e => exact absurd rest Needs.not_const

/-- A run of what is found behind the frame `i`, which is marked meanwhile. -/
inductive Continues (host : Host) (i : Nat) (args : Option (List Value)) (w : World) : Method → Task → World → Prop
  | found {frame : Frame} {resolved : Resolved} {done : Bool} {u : World} {sub : Task} {v : World}
      (here : w.stack.get? i = some frame)
      (behind : (continuation host frame).exec w = some (.ok ⟨some resolved, done⟩, u))
      (enters : Enters frame.object frame.called resolved (args.getD frame.arguments) {} (offTo i frame.kind u) sub v) :
    Continues host i args w resolved.method sub v

theorem continues_of_needs {args : Option (List Value)} {fromSub : Bool}
    (needs : Needs host (fun k => nextFrom k i args fromSub) w (.run frame method asked) v) :
    ∃ registered, Continues host i args w registered (.run frame method asked) v := by
  cases here : w.stack.get? i with
  | none =>
    have fails : ∀ k, (nextFrom k i args fromSub).exec w = (throw (.noActiveFrame "next") : Action Value).exec w := by
      intro k
      unfold nextFrom
      rw [Action.exec_bind_of_ok (Action.exec_get w)]
      simp only [here]
    exact absurd (needs.of_eq fails) Needs.not_const
  | some above =>
    obtain ⟨⟨found, done⟩, u, behind, rest⟩ := Needs.of_composed_bind (@composed_continuation False above) not_false
      (needs.of_exec _ fun k => exec_nextFrom here args fromSub)
    cases found with
    | none =>
      exact absurd rest Needs.not_const
    | some resolved =>
      have enters := enters_of_needs (rest.of_exec _ fun k => exec_duringNext i above.kind _)
      exact ⟨resolved.method, .found here behind enters⟩

/-- A frame runs an ensemble. -/
def asEnsemble (i : Nat) (w : World) : World :=
  { w with stack := w.stack.modify i ({ · with runsEnsemble := true }) }

/-- What an ensemble does once its frame is marked. -/
def distribute (host : Host) (i : Nat) (h container : Handle) (args : List Value) (mods : CallModifiers) :
    Action Value := do
  let path := (((← get).stack.get? i).map (·.path)).getD ""
  match ← subMethod h args mods with
  | none => throw (← unknownSubMethod h container path "")
  | some (sub, rest) =>
  match ← searchObject container sub with
  | none =>
    let result ← nextFrom host i (some args) false
    let unknown := ((← get).stack.get? i).any (·.unknownDue)
    changeFrame i ({ · with unknownDue := false })
    if unknown then throw (← unknownSubMethod h container path sub)
    return result
  | some (method, definer) =>
    if !(← Update.object container).keepsCallerSelf then host.call container sub rest {}
    else
      let method ← Definition.followAliases method
      host.run (subFrame h path sub method definer rest) method {}

theorem exec_runEnsemble (host : Host) (i : Nat) (h container : Handle) (args : List Value) (mods : CallModifiers)
    (w : World) : (runEnsemble host i h container args mods).exec w =
      (distribute host i h container args mods).exec (asEnsemble i w) := rfl

/-- What an ensemble in the frame `i` runs, once the frame is marked: a sub-method on behalf of the caller, or what is
found behind the ensemble. -/
inductive Distributes (host : Host) (i : Nat) (h container : Handle) (args : List Value) (mods : CallModifiers)
    (w : World) : Method → Task → World → Prop
  | sub {name : String} {rest : List Value} {u x v : World} {registered method : Method} {definer : Option Handle}
      (means : (subMethod h args mods).exec w = (.ok (some (name, rest)), u))
      (found : (searchObject container name).exec u = (.ok (some (registered, definer)), x))
      (keeps : (x.live? container).any (·.keepsCallerSelf) = true)
      (leads : (Definition.followAliases registered).exec x = (.ok method, v)) :
    Distributes host i h container args mods w registered
      (.run (subFrame h (((w.stack.get? i).map (·.path)).getD "") name method definer rest) method {}) v
  | behind {name : String} {rest : List Value} {u x v : World} {registered : Method} {task : Task}
      (means : (subMethod h args mods).exec w = (.ok (some (name, rest)), u))
      (missing : (searchObject container name).exec u = (.ok none, x))
      (follows : Continues host i (some args) x registered task v) :
    Distributes host i h container args mods w registered task v

theorem distributes_of_needs {container : Handle}
    (needs : Needs host (fun k => runEnsemble k i h container args mods) w (.run frame method asked) v) :
    ∃ registered, Distributes host i h container args mods (asEnsemble i w) registered (.run frame method asked) v := by
  have needs := needs.of_eq fun k => exec_runEnsemble k i h container args mods w
  obtain ⟨_, _, here, needs⟩ := Needs.of_composed_bind (@Composed.get False False) not_false needs
  cases here
  obtain ⟨meant, u, means, needs⟩ := needs.of_lift_bind
  cases meant with
  | none => exact absurd needs Needs.not_const
  | some meant =>
    obtain ⟨found, x, searched, needs⟩ := needs.of_lift_bind
    cases found with
    | none =>
      rcases needs.of_bind with passes | ⟨result, y, -, needs⟩
      · obtain ⟨registered, follows⟩ := continues_of_needs passes
        exact ⟨registered, .behind means searched follows⟩
      · exact absurd needs Needs.not_const
    | some found =>
      obtain ⟨registered, definer⟩ := found
      obtain ⟨o, y, there, onward⟩ := needs.of_lift_bind
      obtain ⟨live, rfl⟩ := Update.exec_object_eq_ok there
      cases keeps : o.keepsCallerSelf with
      | false =>
        simp only [keeps] at onward
        exact absurd onward
          (Needs.not_of_composed (@Composed.call True False trivial container meant.1 meant.2 {}) not_false)
      | true =>
        simp only [keeps] at onward
        obtain ⟨target, z, leads, onward⟩ := onward.of_lift_bind
        have runs : Needs host (·.perform (.run _ target {})) z (.run frame method asked) v := onward
        obtain ⟨same, rfl⟩ := runs.of_perform
        rw [← same]
        exact ⟨registered, .sub means searched (by rw [live]; exact keeps) leads⟩

end Invocation

theorem Invocation.composed_answerNotFound {passes : Prop} (h : Handle) (name : String) (args : List Value)
    (mods : CallModifiers) : Composed True passes fun k => answerNotFound k h name args mods := by
  have answers := @composed_answerUnknown passes h name args
  unfold answerNotFound
  refine .ite (fun _ => ?_) fun _ => answers
  exact (Composed.update (.nameOf h)).bind fun _ => (Composed.throw _).bind fun _ => answers

/-! ## Tasks that open frames -/

/-- How a task comes to a run: the task, the world in which it begins, the method that was found by its name, and the run
with the world in which that begins. -/
inductive Opening (host : Host) : Task → World → Method → Task → World → Prop
  /-- A call runs what its search found. -/
  | called {h : Handle} {name : String} {args : List Value} {mods : CallModifiers} {w u v : World} {resolved : Resolved}
      {sub : Task} (found : (resolve host h name mods).exec w = some (.ok (some resolved), u))
      (enters : Enters h name resolved args mods u sub v) : Opening host (.call h name args mods) w resolved.method sub v
  /-- A next call runs what is found behind a frame, once its arguments are known. -/
  | passedOn {surroundings : Surroundings} {given : Option Expr} {args : Option (List Value)} {i : Nat} {w u v : World}
      {registered : Method} {sub : Task}
      (evaluated : (Script.givenTo host surroundings given).exec w = some (.ok args, u))
      (stands : u.stack.nextIndex? = some i) (follows : Continues host i args u registered sub v) :
      Opening host (.eval surroundings (.next given)) w registered sub v
  /-- An ensemble runs a sub-method or passes its own call on. -/
  | distributed {frame : Frame} {method : Method} {mods : CallModifiers} {container : Handle} {w v : World}
      {registered : Method} {sub : Task} (ensemble : method.implementation = .ensemble container)
      (distributes : Distributes host w.stack.depth frame.object container frame.arguments mods
        (asEnsemble w.stack.depth (w.opened frame)) registered sub v) :
    Opening host (.run frame method mods) w registered sub v

namespace AsksFor

variable {host : Host} {frame : Frame} {method : Method} {asked : CallModifiers} {v w : World}

theorem opens_of_call {h : Handle} {name : String} {args : List Value} {mods : CallModifiers}
    (asks : AsksFor host (.call h name args mods) w (.run frame method asked) v) :
    ∃ registered, Opening host (.call h name args mods) w registered (.run frame method asked) v := by
  have needs : Needs host (fun k => call k h name args mods) w (.run frame method asked) v := asks
  unfold call at needs
  obtain ⟨_, _, here, needs⟩ := Needs.of_composed_bind (@Composed.get False False) not_false needs
  cases here
  by_cases deep : w.settings.maxDepth ≤ w.stack.depth
  · simp only [if_pos deep] at needs
    exact absurd needs Needs.not_throw_bind
  simp only [if_neg deep] at needs
  obtain ⟨o, u, there, onward⟩ := needs.of_lift_bind
  obtain ⟨-, rfl⟩ := Update.exec_object_eq_ok there
  obtain ⟨found, u, searched, ends⟩ := onward.of_composed_bind (@composed_resolve False h name mods) not_false
  cases found with
  | some resolved => exact ⟨resolved.method, .called searched (enters_of_needs ends)⟩
  | none =>
    exact absurd ends (Needs.not_of_composed (composed_answerNotFound h name args mods) not_false)

theorem opens_of_run {above : Frame} {target : Method} {mods : CallModifiers}
    (asks : AsksFor host (.run above target mods) w (.run frame method asked) v) :
    ∃ registered, Opening host (.run above target mods) w registered (.run frame method asked) v := by
  have needs : Needs host (fun k => run k above target mods) w (.run frame method asked) v := asks
  unfold run at needs
  obtain ⟨_, _, here, needs⟩ := Needs.of_composed_bind (@Composed.get False False) not_false needs
  cases here
  obtain ⟨_, x, pushed, needs⟩ := needs.of_bind.resolve_left Needs.not_const
  cases pushed
  obtain ⟨_, x, held, needs⟩ := needs.of_lift_bind
  obtain rfl : w.opened above = x := congrArg Prod.snd held
  rcases needs.of_settle_bind with implements | ⟨outcome, u, -, closes⟩
  · by_cases splits : ∃ container, target.implementation = .ensemble container
    · obtain ⟨container, ensemble⟩ := splits
      simp only [implement, ensemble] at implements
      obtain ⟨registered, distributes⟩ := distributes_of_needs implements
      exact ⟨registered, .distributed ensemble distributes⟩
    · have single := @composed_implement False w.stack.depth above.object target above.arguments mods (not_exists.1 splits)
      exact absurd implements (Needs.not_of_composed single not_false)
  · refine absurd closes (Needs.not_of_congr fun k evaluates calls => ?_)
    simp only [close, (@composed_conclude False _ _).congr not_false evaluates calls]

theorem opens_of_eval {s : Surroundings} {e : Expr} (asks : AsksFor host (.eval s e) w (.run frame method asked) v) :
    ∃ registered, Opening host (.eval s e) w registered (.run frame method asked) v := by
  have needs : Needs host (fun k => Script.evaluate k s e) w (.run frame method asked) v := asks
  by_cases passes : ∃ given, e = .next given
  · obtain ⟨given, rfl⟩ := passes
    have splits : ∀ k, Script.evaluate k s (.next given) = Script.givenTo k s given >>= fun args => next k args := by
      intro k
      cases given with
      | none => rfl
      | some e => simp only [Script.evaluate, Script.givenTo, bind_map_left]
    simp only [splits] at needs
    obtain ⟨args, u, evaluated, needs⟩ := needs.of_composed_bind (Script.composed_givenTo s given) not_false
    have goesOn := needs.of_eq fun k => exec_next k args u
    cases stands : u.stack.nextIndex? with
    | none =>
      simp only [stands] at goesOn
      exact absurd goesOn Needs.not_const
    | some i =>
      simp only [stands] at goesOn
      obtain ⟨registered, continues⟩ := continues_of_needs goesOn
      exact ⟨registered, .passedOn evaluated stands continues⟩
  · exact absurd needs (Needs.not_of_composed (Script.composed_evaluate s e) passes)

/-- A run that is asked for was found in one of these ways. -/
theorem opens {task : Task} (asks : AsksFor host task w (.run frame method asked) v) :
    ∃ registered, Opening host task w registered (.run frame method asked) v := by
  cases task with
  | eval => exact asks.opens_of_eval
  | call => exact asks.opens_of_call
  | run => exact asks.opens_of_run

end AsksFor

end DynamicObjects
