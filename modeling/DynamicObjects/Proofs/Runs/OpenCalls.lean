import DynamicObjects.Proofs.Runs.Links

/-!
# Open calls are balanced

Whenever code runs in a session, the marks of open calls at objects are those that the frames left. Calling a method or
the next one, creating and destroying leave the marks as they were, whether they succeed or fail.
-/
namespace DynamicObjects

variable {good : Objects → Prop}

/-! ## Where code runs -/

namespace Task

theorem Tallied.opened {task : Task} {w : World} (tallied : task.Tallied w) : (task.opened w).Tallied := by
  cases task with
  | eval => exact tallied
  | call => exact tallied
  | run => exact tallied.2

end Task

/-- A host on which every task has a result: where there is none, as tasks nest too deep or a heap is not good, the task
fails at once. -/
def Host.failing (host : Host) : Host :=
  .ofTasks fun task => ExceptT.mk fun w => some (((host.perform task).exec w).getD (.error (.recursion 0), task.closed w))

theorem Host.perform_failing (host : Host) (task : Task) (w : World) : (host.failing.perform task).exec w =
    some (((host.perform task).exec w).getD (.error (.recursion 0), task.closed w)) := by
  rw [failing, perform_ofTasks]
  rfl

/-- For the outcome of a task begun in `w` it matters what the host does with the task `sub` in `v`. -/
def AsksFor (host : Host) (task : Task) (w : World) (sub : Task) (v : World) : Prop :=
  ∃ other : Host, (∀ t u, t ≠ sub ∨ u ≠ v → (other.perform t).exec u = (host.perform t).exec u) ∧
    (interpret other task).exec w ≠ (interpret host task).exec w

/-- The worlds between the steps of sessions. -/
inductive Session (good : Objects → Prop) : World → Prop where
  /-- A session begins. -/
  | start (settings : Settings) : Session good { settings }
  /-- The next step of a session begins. -/
  | next {w : World} (session : Session good w) : Session good { w with journal := [] }
  /-- A step of a session has ended. -/
  | ended {w v : World} {depth : Nat} {e : Expr} {r : Except Failure Value} (session : Session good w)
      (done : ((hostWithin good depth).eval .none e).exec w = some (r, v)) : Session good v

/-- The tasks that sessions come to, with the worlds in which they are begun. -/
inductive Entered (good : Objects → Prop) : Task → World → Prop where
  /-- A step of a session. -/
  | step {w : World} (session : Session good w) (e : Expr) : Entered good (.eval .none e) w
  /-- A task that another task comes to. -/
  | sub {depth : Nat} {task sub : Task} {w v : World} (entered : Entered good task w) (begins : good w.objects)
      (asks : AsksFor (hostWithin good depth).failing task w sub v) : Entered good sub v

/-- The worlds in which code runs: between the steps of a session, and where a task begins or an expression has been
evaluated inside of one. -/
inductive Running (good : Objects → Prop) : World → Prop where
  | idle {w : World} (session : Session good w) : Running good w
  | begun {task : Task} {w : World} (entered : Entered good task w) : Running good (task.opened w)
  | ended {surroundings : Surroundings} {e : Expr} {depth : Nat} {w v : World} {r : Except Failure Value}
      (entered : Entered good (.eval surroundings e) w)
      (done : ((hostWithin good depth).eval surroundings e).exec w = some (r, v)) : Running good v

/-! ## What holds there -/

theorem Task.closed_alike (task : Task) (w : World) : Heap.Alike Object.bare w.objects (task.closed w).objects := by
  cases task with
  | eval => exact .refl _
  | call => exact .refl _
  | run frame => exact .modify _ frame.object fun _ => rfl

theorem Proceeds.closed {terms : Terms} (task : Task) (w : World) : Proceeds terms w (task.closed w) := by
  cases task with
  | eval => exact .refl
  | call => exact .refl
  | run frame => exact .single (.aside (.modify w frame.object (fun _ => rfl) fun _ _ => .of_fate rfl))

theorem Evolves.opened (task : Task) (w : World) : Evolves good w (task.opened w) := by
  cases task with
  | eval => exact .refl
  | call => exact .refl
  | run frame =>
    have beside : Beside w (w.opened frame) := ⟨.modify _ _ fun _ => rfl, rfl, rfl, rfl, le_rfl⟩
    exact .single (.aside beside)

/-- A host that fails where it has no result is as faithful as before. -/
theorem Faithful.failing {terms : Terms} {host : Host} (faithful : Faithful terms host) :
    Faithful terms host.failing := by
  refine ⟨faithful.remain, fun task w r v proper done => ?_⟩
  rw [Host.perform_failing] at done
  cases result : (host.perform task).exec w with
  | some result =>
    rw [result] at done
    exact faithful.task task w r v proper (result ▸ done)
  | none =>
    rw [result] at done
    cases done
    exact ⟨.closed task w, .refl _, .inr ⟨⟨_, rfl⟩, task.closed_alike w⟩, .refl _⟩

theorem tallied_start (settings : Settings) : World.Tallied { settings } := by
  refine ⟨fun f member => ?_, fun h o found => ?_⟩
  · cases member
  · cases found

section running

variable (remain : ∀ a, good a → a.HandlesRemain)

include remain

theorem Session.proper_tallied {w : World} (session : Session good w) : Proper w ∧ w.Tallied := by
  induction session with
  | start settings => exact ⟨proper_start settings, tallied_start settings⟩
  | @next w _ ih =>
    have evolves : Evolves good w { w with journal := [] } := .single (.aside (.of_objects rfl rfl rfl rfl le_rfl))
    exact ⟨ih.1.evolves remain evolves, ih.2.spent, ih.2.tally⟩
  | @ended w v depth e r _ done ih =>
    obtain ⟨path, balanced, -⟩ := (faithful_hostWithin remain depth).task (.eval .none e) w r v ih.1 done
    exact ⟨ih.1.evolves remain path.evolves, ih.2.of_balanced balanced⟩

theorem Session.evolves {w : World} (session : Session good w) : ∃ settings : Settings, Evolves good { settings } w := by
  induction session with
  | start settings => exact ⟨settings, .refl⟩
  | next _ ih =>
    obtain ⟨settings, path⟩ := ih
    exact ⟨settings, path.tail (.aside (.of_objects rfl rfl rfl rfl le_rfl))⟩
  | @ended w v depth e r session done ih =>
    obtain ⟨settings, path⟩ := ih
    have proper := (session.proper_tallied remain).1
    exact ⟨settings, path.trans ((faithful_hostWithin remain depth).task (.eval .none e) w r v proper done).1.evolves⟩

/-- Between the steps of a session no call is open. -/
theorem Session.balanced {w : World} (session : Session good w) : Balanced {} w := by
  induction session with
  | start settings => exact ⟨.refl _, rfl, rfl, rfl⟩
  | next _ ih => exact ⟨ih.objects, ih.frames, ih.guardDepth, ih.assertionDepth⟩
  | @ended w v depth e r session done ih =>
    have proper := (session.proper_tallied remain).1
    exact ih.trans ((faithful_hostWithin remain depth).task (.eval .none e) w r v proper done).2.1

/-- What is asked for is asked for in a world that has developed, inside of what goes on. -/
theorem AsksFor.inside {depth : Nat} {task sub : Task} {w v : World} (proper : Proper w) (begins : good w.objects)
    (asks : AsksFor (hostWithin good depth).failing task w sub v) :
    Proceeds ⟨good, False⟩ w v ∧ Within (task.opened w) (task.closed w) sub v ∧ (task.Tallied w → sub.Tallied v) := by
  obtain ⟨other, agrees, differs⟩ := asks
  have faithful := (faithful_hostWithin remain depth).failing
  by_contra apart
  refine differs ((brings_interpret task begins faithful w proper rfl).1 other fun t u path inside seen => agrees t u ?_)
  by_contra same
  rw [not_or, not_ne_iff, not_ne_iff] at same
  obtain ⟨rfl, rfl⟩ := same
  exact apart ⟨path, inside, seen⟩

/-- Tasks are only begun in worlds that are tallied. -/
theorem Entered.proper_tallied {task : Task} {w : World} (entered : Entered good task w) :
    Proper w ∧ task.Tallied w := by
  induction entered with
  | step session e => exact session.proper_tallied remain
  | sub _ begins asks ih =>
    obtain ⟨path, -, tallied⟩ := asks.inside remain ih.1 begins
    exact ⟨ih.1.evolves remain path.evolves, tallied ih.2⟩

theorem Entered.evolves {task : Task} {w : World} (entered : Entered good task w) :
    ∃ settings : Settings, Evolves good { settings } w := by
  induction entered with
  | step session e => exact session.evolves remain
  | sub entered begins asks ih =>
    obtain ⟨settings, path⟩ := ih
    exact ⟨settings, path.trans (asks.inside remain (entered.proper_tallied remain).1 begins).1.evolves⟩

theorem Running.proper_tallied {w : World} (running : Running good w) : Proper w ∧ w.Tallied := by
  cases running with
  | idle session => exact session.proper_tallied remain
  | @begun task w entered =>
    obtain ⟨proper, tallied⟩ := entered.proper_tallied remain
    exact ⟨proper.evolves remain (.opened task w), tallied.opened⟩
  | @ended surroundings e depth v _ r entered done =>
    obtain ⟨proper, tallied⟩ := entered.proper_tallied remain
    obtain ⟨path, balanced, -⟩ := (faithful_hostWithin remain depth).task (.eval surroundings e) v r w proper done
    exact ⟨proper.evolves remain path.evolves, World.Tallied.of_balanced tallied balanced⟩

/-- On a host of sessions, what follows its host leaves proper worlds balanced. -/
theorem Proper.balanced {α : Type} {depth : Nat} {pre : World → Prop} {f : Host → Action α} {post : α → World → Prop}
    {w v : World} {r : Except Failure α} (proper : Proper w)
    (follows : Follows ⟨good, False⟩ (hostWithin good depth) pre f post) (met : pre w)
    (done : (f (hostWithin good depth)).exec w = some (r, v)) : Balanced w v :=
  ((follows w met (faithful_hostWithin remain depth) w proper rfl).2 r v done).2.1.toBalanced

end running

/-! ## Balance -/

/-- A session with a filter and a method that fails. -/
def failingSession : List Expr :=
  [foundation, Trial.createClass "C", Trial.define .instances "C" (Trial.method "work" (.fail (Trial.text "broken"))),
    Trial.define .instances "C" (Trial.method "f" (.next none)), Trial.addFilter .instances "C" "f",
    Trial.createObject "o" "C"]

def failingWorld : World :=
  (sessionWithin Heap.HandlesRemain 3 failingSession).get (by decide +kernel)

theorem running_failingWorld : Running Heap.HandlesRemain failingWorld :=
  .idle (of_sessionWithin (.start {}) (fun _ _ _ _ session done => .ended session done) (Option.some_get _).symm)

/-- Wherever code runs, the marks of open calls at objects are those of the frames. Calling a method or the next one,
creating and destroying leave these marks as they are, whether they succeed or fail. -/
theorem Running.callsBalanced {w : World} (running : Running Heap.HandlesRemain w) :
    w.Tallied ∧ ∀ depth : Nat,
      (∀ h name args mods r v,
        ((hostWithin Heap.HandlesRemain depth).call h name args mods).exec w = some (r, v) → Balanced w v) ∧
      (∀ args r v,
        (Invocation.next (hostWithin Heap.HandlesRemain depth) args).exec w = some (r, v) → Balanced w v) ∧
      (∀ cls name args r v, w.objects.HandlesRemain →
        (Lifecycle.createObject (hostWithin Heap.HandlesRemain depth) cls name args).exec w = some (r, v) →
          Balanced w v) ∧
      (∀ name metaclass supers args r v, w.objects.HandlesRemain →
        (Lifecycle.createClass (hostWithin Heap.HandlesRemain depth) name metaclass supers args).exec w = some (r, v) →
          Balanced w v) ∧
      (∀ h r v,
        (Lifecycle.destroy (hostWithin Heap.HandlesRemain depth) h).exec w = some (r, v) → Balanced w v) := by
  have remain : ∀ a : Objects, a.HandlesRemain → a.HandlesRemain := fun _ remain => remain
  obtain ⟨proper, tallied⟩ := running.proper_tallied remain
  refine ⟨tallied, fun depth => ⟨?_, ?_, ?_, ?_, ?_⟩⟩
  · intro h name args mods r v done
    exact ((faithful_hostWithin remain depth).task (.call h name args mods) w r v proper done).2.1
  · intro args r v done
    exact proper.balanced remain (Invocation.steady_next args) trivial done
  · intro cls name args r v begins done
    exact proper.balanced remain (Lifecycle.follows_createObject cls name args) begins done
  · intro name metaclass supers args r v begins done
    exact proper.balanced remain (Lifecycle.follows_createClass name metaclass supers args) begins done
  · intro h r v done
    exact proper.balanced remain (Lifecycle.steady_destroy h) trivial done

/-- A call that a filter passes on and that fails then. -/
theorem callsBalanced_failing : ∃ r v, ((hostWithin Heap.HandlesRemain 6).call ⟨3, 0⟩ "work" [] {}).exec failingWorld =
    some (r, v) ∧ r.toBool = false ∧ failingWorld.Tallied ∧ Balanced failingWorld v := by
  have fails : ((((hostChecking Heap.HandlesRemain 6).call ⟨3, 0⟩ "work" [] {}).exec failingWorld).map
      fun result => result.1.toBool) = some false := by
    decide +kernel
  rw [← hostWithin_eq_hostChecking] at fails
  obtain ⟨⟨r, v⟩, done, failed⟩ := Option.map_eq_some_iff.1 fails
  have balanced := Running.callsBalanced running_failingWorld
  exact ⟨r, v, done, failed, balanced.1, (balanced.2 6).1 _ _ _ _ r v done⟩

end DynamicObjects
