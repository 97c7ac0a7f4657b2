import DynamicObjects.Proofs.Runs.Updates
import DynamicObjects.Script.Session

/-!
# Tasks and reachable worlds

A host is given tasks: to evaluate an expression, to call a method, to run a method in a frame. The interpreter carries
a task out by giving further tasks to the host. A world is reachable if a session comes to it, between its steps or when
a task begins or ends inside of one.
-/
namespace DynamicObjects

/-- What a host can be asked to do. -/
inductive Task where
  | eval (surroundings : Surroundings) (e : Expr)
  | call (h : Handle) (name : String) (args : List Value) (mods : CallModifiers)
  | run (frame : Frame) (method : Method) (mods : CallModifiers)

namespace Host

/-- What a host does with a task. -/
def perform (host : Host) : Task → Action Value
  | .eval surroundings e => host.eval surroundings e
  | .call h name args mods => host.call h name args mods
  | .run frame method mods => host.run frame method mods

def ofTasks (f : Task → Action Value) : Host where
  eval surroundings e := f (.eval surroundings e)
  call h name args mods := f (.call h name args mods)
  run frame method mods := f (.run frame method mods)

@[simp] theorem perform_ofTasks (f : Task → Action Value) (task : Task) : (ofTasks f).perform task = f task := by
  cases task <;> rfl

end Host

/-- How the interpreter carries a task out. -/
def interpret (host : Host) : Task → Action Value
  | .eval surroundings e => Script.evaluate host surroundings e
  | .call h name args mods => Invocation.call host h name args mods
  | .run frame method mods => Invocation.run host frame method mods

theorem hostOfDepth_succ (depth : Nat) :
    Script.hostOfDepth (depth + 1) = Host.ofTasks (interpret (Script.hostOfDepth depth)) := rfl

namespace Action

variable {α β : Type}

/-- The outcome of an action and the world after it, if the action ends. -/
def exec (a : Action α) (w : World) : Option (Except Failure α × World) :=
  a.run w

theorem exec_throw (f : Failure) (w : World) : (throw f : Action α).exec w = some (.error f, w) := rfl

theorem exec_get (w : World) : (get : Action World).exec w = some (.ok w, w) := rfl

theorem exec_modify (f : World → World) (w : World) :
    (modify f : Action PUnit).exec w = some (.ok ⟨⟩, f w) := rfl

theorem exec_liftM (u : Update α) (w : World) : (liftM u : Action α).exec w = some (u.exec w) := rfl

theorem exec_bind (a : Action α) (f : α → Action β) (w : World) :
    (a >>= f).exec w = (a.exec w).bind fun
      | (.ok x, v) => (f x).exec v
      | (.error e, v) => some (.error e, v) := by
  change (a >>= f).run w = (a.run w).bind _
  rw [ExceptT.run_bind]
  change (StateT.bind a.run _ : StateT World Option _) w = _
  unfold StateT.bind
  change (a.run w).bind _ = _
  congr 1
  funext ⟨r, v⟩
  cases r <;> rfl

theorem exec_bind_of_ok {a : Action α} {w v : World} {x : α} (done : a.exec w = some (.ok x, v)) (f : α → Action β) :
    (a >>= f).exec w = (f x).exec v := by
  rw [exec_bind, done]
  rfl

/-- What ends well behind a part comes from where the part has ended well. -/
theorem exec_bind_eq_ok {a : Action α} {f : α → Action β} {w v : World} {y : β}
    (done : (a >>= f).exec w = some (.ok y, v)) :
    ∃ x u, a.exec w = some (.ok x, u) ∧ (f x).exec u = some (.ok y, v) := by
  rw [exec_bind] at done
  obtain ⟨⟨r, u⟩, first, rest⟩ := Option.bind_eq_some_iff.1 done
  cases r with
  | ok x => exact ⟨x, u, first, rest⟩
  | error e => cases rest

/-- After an update that ends well. -/
theorem exec_liftM_bind_of_ok {u : Update α} {w v : World} {x : α} (done : u.exec w = (.ok x, v)) (f : α → Action β) :
    (liftM u >>= f).exec w = (f x).exec v :=
  exec_bind_of_ok ((exec_liftM u w).trans (congrArg some done)) f

theorem exec_settle (a : Action α) (w : World) :
    (settle a).exec w = (a.exec w).map fun (r, v) => (.ok r, v) := by
  unfold settle exec
  change (StateT.map _ a.run : StateT World Option _) w = _
  unfold StateT.map
  cases a.run w <;> rfl

/-- After an action that is run to its end, failed or not. -/
theorem exec_settle_bind (a : Action α) (f : Except Failure α → Action β) (w : World) :
    (settle a >>= f).exec w = (a.exec w).bind fun (r, v) => (f r).exec v := by
  rw [exec_bind, exec_settle]
  cases a.exec w <;> rfl

theorem exec_resume (r : Except Failure α) (w : World) : (resume r).exec w = some (r, w) := by
  cases r <;> rfl

/-- An action that has no result where it begins or ends with a heap that is not good. -/
noncomputable def within (good : Objects → Prop) (a : Action α) : Action α :=
  open Classical in
  ExceptT.mk fun w => if good w.objects then (a.exec w).filter fun result => decide (good result.2.objects) else none

theorem exec_within_eq_some {good : Objects → Prop} {a : Action α} {w v : World} {r : Except Failure α} :
    (a.within good).exec w = some (r, v) ↔ good w.objects ∧ good v.objects ∧ a.exec w = some (r, v) := by
  change (@ite _ (good w.objects) (Classical.propDecidable _) _ none) = some (r, v) ↔ _
  by_cases here : good w.objects <;> simp [here, Option.filter_eq_some_iff, and_comm]

end Action

/-- The host in which tasks nest `depth` deep at most, and only begin and end with good heaps. -/
noncomputable def hostWithin (good : Objects → Prop) : Nat → Host
  | 0 => Script.hostOfDepth 0
  | depth + 1 => .ofTasks fun task => (interpret (hostWithin good depth) task).within good

/-- Where all heaps are good, this is the host of sessions. -/
theorem hostWithin_true (depth : Nat) : hostWithin (fun _ => True) depth = Script.hostOfDepth depth := by
  induction depth with
  | zero => rfl
  | succ depth ih =>
    rw [hostWithin, hostOfDepth_succ, ih]
    congr 1
    funext task w
    refine Option.ext fun ⟨r, v⟩ => ?_
    have holds := @Action.exec_within_eq_some Value (fun _ => True) (interpret (Script.hostOfDepth depth) task) w v r
    exact holds.trans ⟨fun both => both.2.2, fun done => ⟨trivial, trivial, done⟩⟩

/-- For the outcome of a task begun in `w` it matters what the host does with tasks in `v`. -/
def Asks (host : Host) (task : Task) (w v : World) : Prop :=
  ∃ other : Host, (∀ task u, u ≠ v → (other.perform task).exec u = (host.perform task).exec u) ∧
    (interpret other task).exec w ≠ (interpret host task).exec w

/-- The worlds that sessions come to as long as their heaps are good. -/
inductive Reachable (good : Objects → Prop) : World → Prop where
  /-- A session begins. -/
  | start (settings : Settings) : Reachable good { settings }
  /-- The next step of a session begins. -/
  | next {w : World} (reached : Reachable good w) : Reachable good { w with journal := [] }
  /-- A task has ended. -/
  | ended {w v : World} {depth : Nat} {task : Task} {r : Except Failure Value} (reached : Reachable good w)
      (done : ((hostWithin good depth).perform task).exec w = some (r, v)) : Reachable good v
  /-- A task has come to another task. -/
  | begun {w v : World} {depth : Nat} {task : Task} (reached : Reachable good w) (begins : good w.objects)
      (asks : Asks (hostWithin good depth) task w v) : Reachable good v

end DynamicObjects
