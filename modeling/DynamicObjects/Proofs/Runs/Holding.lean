import DynamicObjects.Proofs.Runs.Asking

/-!
# What open calls hold

The frame of a method holds its receiver from where it opens to where it closes: an object that is destroyed meanwhile
keeps its slot. The frame of a guard holds nothing.
-/
namespace DynamicObjects

open Invocation

variable {good : Objects → Prop} {task sub : Task} {v w : World} {f : Frame} {o : Object}

/-! ## What goes on inside of a task -/

/-- The tasks that are come to while a task is carried out, and the worlds in which they are begun. -/
inductive Inner (good : Objects → Prop) (task : Task) (w : World) : Task → World → Prop where
  | asked {depth : Nat} {sub : Task} {v : World} (begins : good w.objects)
      (asks : AsksFor (hostWithin good depth).failing task w sub v) : Inner good task w sub v
  | deeper {depth : Nat} {mid sub : Task} {u v : World} (inner : Inner good task w mid u) (begins : good u.objects)
      (asks : AsksFor (hostWithin good depth).failing mid u sub v) : Inner good task w sub v

theorem Inner.entered (inner : Inner good task w sub v) (entered : Entered good task w) : Entered good sub v := by
  induction inner with
  | asked begins asks => exact .sub entered begins asks
  | deeper _ begins asks ih => exact .sub ih begins asks

namespace Task

/-- A frame that opens holds one object more. -/
theorem shelters_opened (task : Task) (w : World) : Shelters w.objects (task.opened w).objects := by
  cases task with
  | eval | call => exact .refl _
  | run frame => exact .held _ frame.object

theorem shelters_closed (task : Task) (w : World) : Shelters w.objects (task.closed w).objects := by
  cases task with
  | eval | call => exact .refl _
  | run frame => exact .of_alike (.modify _ frame.object fun _ => rfl)

end Task

section held

variable (remain : ∀ a, good a → a.HandlesRemain)

include remain

/-- Whatever is held where a task runs is held throughout. -/
theorem Inner.shelters (inner : Inner good task w sub v) (entered : Entered good task w) :
    Shelters (task.opened w).objects v.objects := by
  induction inner with
  | asked begins asks => exact (asks.inside remain (entered.proper_tallied remain).1 begins).2.1.shelters
  | @deeper depth mid sub u v inner begins asks ih =>
    have inside := (asks.inside remain ((inner.entered entered).proper_tallied remain).1 begins).2.1
    exact ih.trans ((mid.shelters_opened u).trans inside.shelters)

end held

/-- What resolves is held by the frames of its methods. -/
theorem World.Tallied.held (tallied : w.Tallied) (member : f ∈ w.stack.frames) (noGuard : f.isGuard = false)
    (found : w.objects.get? f.object = some o) : 0 < o.holders := by
  have counted := (tallied.tally f.object o found).holders
  have one : 0 < w.stack.frames.countP fun g => g.object == f.object && !g.isGuard :=
    List.countP_pos_iff.2 ⟨f, member, by simp [noGuard]⟩
  exact one.trans_le counted

/-! ## A receiver that destroys itself -/

/-- An object that destroys itself in a method. -/
def leavingSession : List Expr :=
  [foundation, Trial.createClass "C",
    Trial.define .instances "C" (Trial.method "work" (.ofObject .destroy (.computed .self))), Trial.createObject "o" "C"]

def leavingWorld : World :=
  (sessionWithin Heap.HandlesRemain 5 leavingSession).get (by decide +kernel)

theorem session_leavingWorld : Session Heap.HandlesRemain leavingWorld :=
  of_sessionWithin (.start {}) (fun _ _ _ _ session done => .ended session done) (Option.some_get _).symm

/-- The frame of a call of `work` on the object. -/
def leavingFrame (resolved : Resolved) : Frame :=
  frameFor ⟨3, 0⟩ "work" resolved resolved.method [] {}

/-- The method of the object runs, and at the end of its body the object is unlinked. -/
theorem inner_leavingWorld : ∃ frame method v sub r u, Entered Heap.HandlesRemain (.run frame method {}) v ∧
    Inner Heap.HandlesRemain (.run frame method {}) v sub (v.opened frame) ∧ frame.isGuard = false ∧
      ((v.opened frame).objects.get? frame.object).isSome = true ∧
        ((hostWithin Heap.HandlesRemain 4).perform sub).exec (v.opened frame) = some (r, u) ∧
          (u.objects.get? frame.object).all (·.deleted) = true := by
  have begins : leavingWorld.objects.HandlesRemain := by decide +kernel
  have named : Lifecycle.objectNamed? leavingWorld "o" = some ⟨3, 0⟩ := by decide +kernel
  have callable : Callable leavingWorld ⟨3, 0⟩ "work" {} := by decide +kernel
  have first : ((findBare leavingWorld ⟨3, 0⟩ "work").any fun found =>
      (scriptedBody? found.2 (leavingFrame found.1) found.1.method).any (fun bound =>
        (((hostChecking Heap.HandlesRemain 4).perform (.eval (.scripted bound.1) bound.2)).exec
          (found.2.opened (leavingFrame found.1))).any fun result => (result.2.objects.get? ⟨3, 0⟩).all (·.deleted)) &&
      (found.2.live? ⟨3, 0⟩).any (·.checks == {}) && decide found.2.objects.HandlesRemain) = true := by
    decide +kernel
  obtain ⟨⟨resolved, v⟩, bare, holds⟩ := Option.any_eq_true .. |>.1 first
  simp only [Bool.and_eq_true, decide_eq_true_eq] at holds
  obtain ⟨⟨ends, unchecked⟩, good⟩ := holds
  obtain ⟨⟨arguments, body⟩, reads, ends⟩ := Option.any_eq_true .. |>.1 ends
  obtain ⟨⟨r, u⟩, done, gone⟩ := Option.any_eq_true .. |>.1 ends
  obtain ⟨p, live, unchecked⟩ := Option.any_eq_true .. |>.1 unchecked
  rw [← hostWithin_eq_hostChecking] at done
  have calls : AsksFor (hostWithin Heap.HandlesRemain 1).failing
    (.eval .none (.dispatch (.name "o") (.list []) (.literal (.text "work")) {})) leavingWorld
      (.call ⟨3, 0⟩ "work" [] {}) leavingWorld := asksFor_call_of_name named begins
  obtain ⟨runs, evaluates⟩ : AsksFor (hostWithin Heap.HandlesRemain 1).failing (.call ⟨3, 0⟩ "work" [] {}) leavingWorld
      (.run (leavingFrame resolved) resolved.method {}) v ∧
    AsksFor (hostWithin Heap.HandlesRemain 1).failing (.run (leavingFrame resolved) resolved.method {}) v
      (.eval (.scripted arguments) body) (v.opened (leavingFrame resolved)) :=
    asksFor_run_body callable bare live (beq_iff_eq.1 unchecked) reads
  have found : ((v.opened (leavingFrame resolved)).objects.get? ⟨3, 0⟩).isSome = true := by
    rw [World.opened, Heap.get?_modify, (World.live?_eq_some_iff.1 live).1]
    rfl
  have called := (Entered.step session_leavingWorld _).sub begins calls
  exact ⟨leavingFrame resolved, resolved.method, v, _, r, u, called.sub begins runs, .asked good evaluates, rfl, found, done,
    gone⟩

/-- The receiver of a method that is running keeps its slot, whatever runs meanwhile and however that ends, if it has one
when the frame of the method opens. -/
theorem Entered.receiverKept (entered : Entered Heap.HandlesRemain task w)
    (inner : Inner Heap.HandlesRemain task w sub v) (member : f ∈ (task.opened w).stack.frames)
    (noGuard : f.isGuard = false) (found : (task.opened w).objects.get? f.object = some o) :
    (∃ p, (sub.opened v).objects.get? f.object = some p) ∧ ∀ depth r u,
      ((hostWithin Heap.HandlesRemain depth).perform sub).exec v = some (r, u) →
        ∃ p, u.objects.get? f.object = some p := by
  have remain : ∀ a : Objects, a.HandlesRemain → a.HandlesRemain := fun _ remain => remain
  have held := (entered.proper_tallied remain).2.opened.held member noGuard found
  obtain ⟨q, there, held'⟩ := inner.shelters remain entered f.object o found held
  obtain ⟨p, opened, -⟩ := sub.shelters_opened v f.object q there held'
  refine ⟨⟨p, opened⟩, fun depth r u done => ?_⟩
  have proper := ((inner.entered entered).proper_tallied remain).1
  have shelters := ((faithful_hostWithin remain depth).task sub v r u proper done).2.2.2
  obtain ⟨q', ended, -⟩ := ((sub.shelters_closed v).trans shelters) f.object q there held'
  exact ⟨q', ended⟩

/-- The object has destroyed itself, and keeps its slot at the end of the body. -/
theorem receiverKept_leaving : ∃ frame method v sub r u p, Entered Heap.HandlesRemain (.run frame method {}) v ∧
    Inner Heap.HandlesRemain (.run frame method {}) v sub (v.opened frame) ∧
      ((hostWithin Heap.HandlesRemain 4).perform sub).exec (v.opened frame) = some (r, u) ∧
        u.objects.get? frame.object = some p ∧ p.deleted = true := by
  obtain ⟨frame, method, v, sub, r, u, entered, inner, noGuard, found, done, gone⟩ := inner_leavingWorld
  obtain ⟨o, found⟩ := Option.isSome_iff_exists.1 found
  have member : frame ∈ ((Task.run frame method {}).opened v).stack.frames :=
    List.mem_append_right _ (List.mem_singleton.2 rfl)
  obtain ⟨p, kept⟩ := (Entered.receiverKept entered inner member noGuard found).2 4 r u done
  rw [kept] at gone
  exact ⟨frame, method, v, sub, r, u, p, entered, inner, done, kept, gone⟩

/-! ## A guard that destroys the receiver -/

/-- A guard that looks at an object, destroys it and looks again. -/
def destroyingGuard : PredicateOf Expr where
  source := "guard"
  test := .sequence [.log (.ofObject .nameOf (.key "o")), .ofObject .destroy (.key "o"),
    .log (.ofObject .nameOf (.key "o")), .literal (.bool false)]

/-- A mixin with that guard. -/
def guardingSession : List Expr :=
  [foundation, Trial.createClass "C", Trial.createClass "M",
    Trial.define .instances "M" (Trial.method "work" (Trial.text "work")),
    .createObject (some (Trial.text "o")) (.name "C") (.list []) (some "o"),
    .change (.addMixin .object (.key "o") ⟨.name "M", some destroyingGuard⟩)]

def guardingWorld : World :=
  (sessionWithin Heap.HandlesRemain 5 guardingSession).get (by decide +kernel)

theorem session_guardingWorld : Session Heap.HandlesRemain guardingWorld :=
  of_sessionWithin (.start {}) (fun _ _ _ _ session done => .ended session done) (Option.some_get _).symm

/-- The frame of a guard is open on an object that has lost its slot. -/
theorem not_receiverKept_guard :
    ¬∀ v, Running Heap.HandlesRemain v → ∀ f ∈ v.stack.frames, (v.objects.get? f.object).isSome = true := by
  intro kept
  have begins : guardingWorld.objects.HandlesRemain := by decide +kernel
  have named : Lifecycle.objectNamed? guardingWorld "o" = some ⟨4, 0⟩ := by decide +kernel
  have callable : Callable guardingWorld ⟨4, 0⟩ "work" {} := by decide +kernel
  have ends : ((firstGuard? guardingWorld ⟨4, 0⟩ "work").any fun begun =>
      (((hostChecking Heap.HandlesRemain 6).eval .none begun.1.test).exec begun.2).any fun result =>
        result.2.stack.frames.any fun f => (result.2.objects.get? f.object).isNone) = true := by
    decide +kernel
  obtain ⟨⟨guard, v⟩, guarded, ends⟩ := Option.any_eq_true .. |>.1 ends
  obtain ⟨⟨r, u⟩, done, ends⟩ := Option.any_eq_true .. |>.1 ends
  obtain ⟨f, member, gone⟩ := List.any_eq_true.1 ends
  rw [← hostWithin_eq_hostChecking] at done
  have calls : AsksFor (hostWithin Heap.HandlesRemain 1).failing
    (.eval .none (.dispatch (.name "o") (.list []) (.literal (.text "work")) {})) guardingWorld
      (.call ⟨4, 0⟩ "work" [] {}) guardingWorld := asksFor_call_of_name named begins
  have guards : AsksFor (hostWithin Heap.HandlesRemain 1).failing (.call ⟨4, 0⟩ "work" [] {}) guardingWorld
      (.eval .none guard.test) v := asksFor_guard callable guarded
  have entered := ((Entered.step session_guardingWorld _).sub begins calls).sub begins guards
  have resolves := kept u (.ended entered done) f member
  rw [Option.isNone_iff_eq_none.1 gone] at resolves
  cases resolves

end DynamicObjects
