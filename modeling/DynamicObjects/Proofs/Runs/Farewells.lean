import DynamicObjects.Proofs.Runs.Refusals

/-!
# Objects are destroyed once

An object that is to be destroyed is marked before the destroy method of its system is called. The mark stays as long as
the object does, so that nothing calls the method by itself again. When a destruction ends, however the method did, the
object is gone for good: it is not live, no name denotes it and no class lists it.
-/
namespace DynamicObjects

variable {loose : Handle → Prop} {terms : Terms} {v w : World} {h : Handle} {o : Object}

/-! ## Looking for the destroy method -/

theorem WellFormed.exec_mixinOrder_of_live (well : WellFormed loose v) (live : v.live? h = some o) :
    ∃ order u, (Interception.mixinOrder h).exec v = (.ok order, u) := by
  cases kept : o.mixinOrder with
  | some order => exact ⟨order, v, exec_mixinOrder_of_kept live kept⟩
  | none =>
    obtain ⟨order, computed, -⟩ := (@Untouched.refl (fun _ => True) _ _ _ live).computeMixinOrder well well
    exact ⟨order, _, Prod.ext ((well.fst_mixinOrder_of_unkept live kept).trans computed) rfl⟩

theorem exec_searchClasses_of_isClass (name : String) {classes : List Handle}
    (are : ∀ c ∈ classes, w.isClass c = true) :
    ∃ found, (Invocation.searchClasses name classes).exec w = (.ok found, w) := by
  induction classes with
  | nil => exact ⟨none, rfl⟩
  | cons c rest ih =>
    obtain ⟨o, part, live, isPart⟩ := World.isClass_iff.1 (are c List.mem_cons_self)
    unfold Invocation.searchClasses
    rw [Update.exec_bind_of_ok (Update.exec_classPart_of_live live isPart)]
    cases (part.methods.get? name).filter (!·.isPrivate) with
    | none => exact ih fun c member => are c (List.mem_cons_of_mem _ member)
    | some method => exact ⟨_, rfl⟩

theorem WellFormed.exec_searchObject_of_live (well : WellFormed loose v) (live : v.live? h = some o) (name : String) :
    ∃ found u, (Invocation.searchObject h name).exec v = (.ok found, u) := by
  unfold Invocation.searchObject
  rw [Update.exec_bind_of_ok (Update.exec_object_of_live live)]
  cases Invocation.ownMethod? o name with
  | some method => exact ⟨_, v, rfl⟩
  | none =>
    obtain ⟨order, b, done, lin, filled⟩ := well.exec_precedenceOrder (well.classed.cls h o live)
    have are : ∀ c ∈ order, World.isClass { v with objects := b } c = true := by
      intro c member
      rw [filled.identity.isClass (v := v)]
      exact well.isClass_of_reaches (well.classed.cls h o live) (lin.mem_iff.1 member)
    unfold Invocation.searchClassOrder
    rw [Update.exec_bind_of_ok done]
    obtain ⟨found, searched⟩ := exec_searchClasses_of_isClass name fun c member => are c (List.mem_of_mem_drop member)
    exact ⟨found, _, searched⟩

theorem WellFormed.exec_implements_of_live (well : WellFormed loose v) (live : v.live? h = some o) (name : String) :
    ∃ b u, (Lifecycle.implements h name).exec v = (.ok b, u) := by
  obtain ⟨mixins, u, mixed⟩ := well.exec_mixinOrder_of_live live
  have wellMid := well.mixinOrder h
  have identity := identity_mixinOrder well h
  rw [mixed] at wellMid identity
  obtain ⟨p, there, -⟩ := identity.exists_live live
  obtain ⟨found, t, searched⟩ := wellMid.exec_searchObject_of_live there name
  unfold Lifecycle.implements
  rw [Update.exec_bind_of_ok mixed, Update.exec_bind_of_ok (Update.exec_get u)]
  dsimp only
  split
  · exact ⟨true, u, rfl⟩
  · exact ⟨found.isSome, t, Update.exec_bind_of_ok searched _⟩

/-! ## Marked objects -/

/-- No destroy method is called any more for `h`: it is gone, or marked as one that is destroyed. -/
def World.Marked (w : World) (h : Handle) : Prop :=
  w.objects.Spent h ∧ ∀ o, w.objects.get? h = some o → o.destroyCalled = true

/-- What resolves, though its handle was given out before, has only aged. -/
theorem Fares.exists_ages {a b : Objects} (fares : Fares a b) (spent : a.Spent h) {p : Object}
    (found : b.get? h = some p) : ∃ o, a.get? h = some o ∧ o.Ages p :=
  (fares.came h p found).resolve_right fun new => new.1 spent

theorem World.Marked.fares (marked : v.Marked h) (fares : Fares v.objects w.objects) : w.Marked h := by
  refine ⟨fares.spent h marked.1, fun p found => ?_⟩
  obtain ⟨o, here, ages⟩ := fares.exists_ages marked.1 found
  exact ages.called (marked.2 o here)

/-! ## Destruction step by step -/

/-- What is left to do of a destruction once the destroy method has ended. -/
def Lifecycle.finishDestroying (h : Handle) (outcome : Except Failure Unit) : Action Unit := do
  unless isGone (← get) h do unlink h
  Action.resume outcome

/-- Calls the destroy method of the system, which is not hindered by permissions. -/
def Lifecycle.runDestroy (host : Host) (h : Handle) (name : String) : Action (Except Failure Unit) := do
  let outcome ← Action.settle (host.call h name [] { ignorePermissions := true, noUnknown := true })
  return outcome.map fun _ => ()

/-- Destroying `h` calls nothing: it comes to the same on all hosts. -/
def World.DestroysSilently (w : World) (h : Handle) : Prop :=
  ∀ host other : Host, (Lifecycle.destroy other h).exec w = (Lifecycle.destroy host h).exec w

/-- Destroying `h` comes to calling its destroy method in `u`, once, and to what is left to do then. -/
def World.DestroysCalling (w u : World) (h : Handle) (name : String) : Prop :=
  ∀ host : Host, (Lifecycle.destroy host h).exec w =
    (Lifecycle.runDestroy host h name >>= Lifecycle.finishDestroying h).exec u

theorem exec_destroy_of_live (live : w.live? h = some o) (root : o.isRoot = false) (present : o.duringDelete = false)
    (host : Host) : (Lifecycle.destroy host h).exec w = ((do
      let outcome ← if o.destroyCalled then pure (.ok ()) else Lifecycle.callDestroy host h
      Lifecycle.finishDestroying h outcome : Action Unit)).exec w := by
  unfold Lifecycle.destroy
  rw [Action.exec_liftM_bind_of_ok (Update.exec_object_of_live live)]
  simp only [root, present, Bool.false_eq_true, if_false]
  rfl

theorem exec_destroy_of_dead (dead : w.live? h = none) (host : Host) :
    (Lifecycle.destroy host h).exec w = some (.error (.destroyed h.text), w) := by
  unfold Lifecycle.destroy
  rw [Action.exec_bind, Action.exec_liftM, Update.exec_object_of_dead dead]
  rfl

/-- Roots and objects that are being destroyed call nothing. -/
theorem destroysSilently_of_live (live : w.live? h = some o)
    (exempt : o.isRoot = true ∨ o.duringDelete = true ∨ o.destroyCalled = true) : w.DestroysSilently h := by
  intro host other
  unfold Lifecycle.destroy
  rw [Action.exec_liftM_bind_of_ok (Update.exec_object_of_live live),
    Action.exec_liftM_bind_of_ok (Update.exec_object_of_live live)]
  rcases exempt with root | during | called
  · simp only [root, if_true, Action.exec_bind, Action.exec_throw, Option.bind_some]
  · simp only [during, if_true]
  · simp only [called, if_true]

theorem World.Marked.destroysSilently (marked : w.Marked h) : w.DestroysSilently h := by
  cases live : w.live? h with
  | none => exact fun host other => by rw [exec_destroy_of_dead live, exec_destroy_of_dead live]
  | some o => exact destroysSilently_of_live live (.inr (.inr (marked.2 o (World.live?_eq_some_iff.1 live).1)))

/-- The object is marked, and then the destroy method of its system is called if the object has one. -/
theorem Lifecycle.exec_callDestroy (remain : ∀ a, terms.good a → a.HandlesRemain) (proper : Proper w)
    (live : w.live? h = some o) : ∃ u, Develops terms w u ∧ u.Marked h ∧
      ((∀ host, (callDestroy host h).exec w = some (.ok (.ok ()), u)) ∨
        ∃ name, ∀ host, (callDestroy host h).exec w = (runDestroy host h name).exec u) := by
  obtain ⟨m, is⟩ : ∃ m, m = { w with objects := w.objects.modify h fun o => { o with destroyCalled := true } } := ⟨_, rfl⟩
  have marks : Deed Sober terms w m := is ▸ .aside (.modify w h (fun _ => rfl) fun o _ => .destroyCalled o)
  have proper' : Proper m := proper.evolves remain (Develops.evolves (.single marks))
  have found : m.objects.get? h = some { o with destroyCalled := true } := by
    rw [is, Heap.get?_modify, if_pos rfl, (World.live?_eq_some_iff.1 live).1]
    rfl
  have marked : m.Marked h := by
    refine ⟨Heap.spent_of_get? found, fun p there => ?_⟩
    cases found.symm.trans there
    rfl
  have live' : m.live? h = some { o with destroyCalled := true } :=
    World.live?_eq_some_iff.2 ⟨found, (World.live?_eq_some_iff.1 live).2⟩
  obtain ⟨system, listed⟩ := proper'.rooted.system h _ live'
  have marking := Update.exec_changeObject_of_live live fun o => { o with destroyCalled := true }
  rw [← is] at marking
  have looking := Update.exec_systemOf_of_live live' listed
  cases method : system.methods.destroy with
  | none =>
    have starts : ∀ host, (callDestroy host h).exec w = some (.ok (.ok ()), m) := by
      intro host
      unfold callDestroy
      rw [Action.exec_liftM_bind_of_ok marking, Action.exec_liftM_bind_of_ok looking, method]
      rfl
    exact ⟨m, .single marks, marked, .inl starts⟩
  | some destroy =>
    have starts : ∀ host, (callDestroy host h).exec w = (do
        if ← implements h destroy then runDestroy host h destroy
        else return .ok () : Action (Except Failure Unit)).exec m := by
      intro host
      unfold callDestroy
      rw [Action.exec_liftM_bind_of_ok marking, Action.exec_liftM_bind_of_ok looking, method]
      rfl
    obtain ⟨b, u, looked⟩ := proper'.exec_implements_of_live live' destroy
    have path : Develops terms m u := by
      have along : Update.Along (Deed Hushed terms) (Lifecycle.implements h destroy) := Deed.along_implements h destroy
      have calmly : Calmly terms m _ := along m
      rw [looked] at calmly
      exact calmly.proceeds.develops
    have fares := proper'.fares_of_develops remain path
    refine ⟨u, path.head marks, marked.fares fares, ?_⟩
    cases b with
    | true => exact .inr ⟨destroy, fun host => (starts host).trans (Action.exec_liftM_bind_of_ok looked _)⟩
    | false => exact .inl fun host => (starts host).trans (Action.exec_liftM_bind_of_ok looked _)

/-- Where a destruction calls the destroy method, the object is marked already. -/
theorem World.destroysSilently_or_calling (remain : ∀ a, terms.good a → a.HandlesRemain) (proper : Proper w)
    (h : Handle) : w.DestroysSilently h ∨
      ∃ u name, Develops terms w u ∧ u.Marked h ∧ w.DestroysCalling u h name := by
  cases live : w.live? h with
  | none => exact .inl fun host other => by rw [exec_destroy_of_dead live, exec_destroy_of_dead live]
  | some o =>
    by_cases exempt : o.isRoot = true ∨ o.duringDelete = true ∨ o.destroyCalled = true
    · exact .inl (destroysSilently_of_live live exempt)
    simp only [not_or, Bool.not_eq_true] at exempt
    obtain ⟨root, present, fresh⟩ := exempt
    have starts := fun host => exec_destroy_of_live live root present host
    simp only [fresh, Bool.false_eq_true, if_false] at starts
    obtain ⟨u, path, marked, silent | ⟨name, calls⟩⟩ := Lifecycle.exec_callDestroy remain proper live
    · refine .inl fun host other => ?_
      rw [starts, starts, Action.exec_bind_of_ok (silent host), Action.exec_bind_of_ok (silent other)]
    · refine .inr ⟨u, name, path, marked, fun host => ?_⟩
      rw [starts, Action.exec_bind, Action.exec_bind, calls]

/-! ## Gone for good -/

/-- The object `h` is gone: it is not live, no name denotes it and no class lists it. -/
structure World.Without (w : World) (h : Handle) : Prop where
  dead : w.live? h = none
  unnamed : ∀ name, w.names.get? name ≠ some h
  unlisted : ∀ c, h ∉ w.instancesOf c

theorem WellFormed.without (well : WellFormed loose w) (dead : w.live? h = none) : w.Without h := by
  refine ⟨dead, fun name listed => ?_, fun c member => ?_⟩
  · obtain ⟨o, live, -⟩ := (well.named.name name h).1 listed
    exact nomatch dead.symm.trans live
  · obtain ⟨o, live, -⟩ := (well.classed.instances c h).1 member
    exact nomatch dead.symm.trans live

/-- No deed brings an object back. -/
theorem Fares.dead (fares : Fares v.objects w.objects) (spent : v.objects.Spent h) (dead : v.live? h = none) :
    w.live? h = none := by
  cases live : w.live? h with
  | none => rfl
  | some p =>
    obtain ⟨found, present⟩ := World.live?_eq_some_iff.1 live
    obtain ⟨o, here, ages⟩ := fares.exists_ages spent found
    cases gone : o.deleted with
    | true => exact nomatch present.symm.trans (ages.deleted gone)
    | false => exact nomatch dead.symm.trans (World.live?_eq_some_iff.2 ⟨here, gone⟩)

/-- What is left of a destruction unlinks the object, unless that has been done in between. -/
theorem Lifecycle.dead_of_finishDestroying {u : World} {r : Except Failure Unit} {outcome : Except Failure Unit}
    (remain : ∀ a, terms.good a → a.HandlesRemain) (proper : Proper w) (orderly : w.objects.Orderly)
    (live : w.live? h = some o) (root : o.isRoot = false) (path : Develops terms w u)
    (done : (finishDestroying h outcome).exec u = some (r, v)) : v.live? h = none := by
  unfold finishDestroying at done
  rw [Action.exec_bind_of_ok (Action.exec_get u)] at done
  cases gone : isGone u h with
  | true =>
    simp only [gone, if_true] at done
    cases (Action.exec_resume outcome u).symm.trans done
    cases found : v.objects.get? h with
    | none => rw [World.live?, found]; rfl
    | some p =>
      have fits := (proper.fares_of_develops remain path).orderly orderly h p found
      rw [isGone, found, Option.all_some, fits.1, Bool.or_self] at gone
      simp [World.live?, found, gone]
  | false =>
    obtain ⟨p, live', root'⟩ := exists_live_of_present remain proper live root path gone
    obtain ⟨_, _, -, -, -, -, left, -⟩ := (proper.evolves remain path.evolves).apart_of_unlink live' root'
    simp only [gone, Bool.false_eq_true, if_false] at done
    rw [Action.exec_bind, Action.exec_liftM, Option.bind_some] at done
    rcases unlinked : (unlink h).exec u with ⟨_ | _, t⟩ <;> rw [unlinked] at done left
    · cases done
      exact left
    · cases (Action.exec_resume outcome t).symm.trans done
      exact left

/-- The call of the destroy method comes to an outcome, whichever that is. -/
theorem Lifecycle.develops_callDestroy {host : Host} {r : Except Failure (Except Failure Unit)}
    (faithful : Faithful terms host) (proper : Proper w) (live : w.live? h = some o)
    (done : (callDestroy host h).exec w = some (r, v)) : ∃ outcome, r = .ok outcome ∧ Develops terms w v := by
  obtain ⟨u, path, -, silent | ⟨name, calls⟩⟩ := exec_callDestroy faithful.remain proper live
  · cases (silent host).symm.trans done
    exact ⟨.ok (), rfl, path⟩
  · rw [calls] at done
    unfold runDestroy at done
    rw [Action.exec_bind, Action.exec_settle] at done
    obtain ⟨_, settled, ended⟩ := Option.bind_eq_some_iff.1 done
    obtain ⟨⟨outcome, x⟩, performed, rfl⟩ := Option.map_eq_some_iff.1 settled
    cases ended
    have proper' := proper.evolves faithful.remain path.evolves
    exact ⟨_, rfl, path.trans (faithful.task (.call h name [] _) u outcome v proper' performed).1.develops⟩

/-- A destruction gets to what is left to do, however the destroy method ended. -/
theorem Lifecycle.exists_finishDestroying {host : Host} {r : Except Failure Unit} (faithful : Faithful terms host)
    (proper : Proper w) (orderly : w.objects.Orderly) (live : w.live? h = some o) (root : o.isRoot = false)
    (done : (destroy host h).exec w = some (r, v)) :
    ∃ u outcome, Develops terms w u ∧ (finishDestroying h outcome).exec u = some (r, v) := by
  obtain ⟨found, present⟩ := World.live?_eq_some_iff.1 live
  rw [exec_destroy_of_live live root ((orderly h o found).1.trans present)] at done
  by_cases called : o.destroyCalled = true
  · simp only [called, if_true] at done
    exact ⟨w, .ok (), .refl, done⟩
  simp only [called, Bool.false_eq_true, if_false] at done
  rw [Action.exec_bind] at done
  obtain ⟨⟨_, u⟩, ran, rest⟩ := Option.bind_eq_some_iff.1 done
  obtain ⟨outcome, rfl, path⟩ := develops_callDestroy faithful proper live ran
  exact ⟨u, outcome, path, rest⟩

/-! ## Destroyed once -/

/-- The system calls `destroy`, which tries to destroy the object again and then fails. -/
def stubbornSession : List Expr :=
  [.createSystem (Trial.text "Object") (Trial.text "Class") { destroy := some (Trial.text "destroy") },
    Trial.createClass "C", Trial.define .instances "C" (Trial.method "destroy"
      (.sequence [.ofObject .destroy (.computed .self), .fail (Trial.text "stay")])), Trial.createObject "o" "C"]

def stubbornWorld : World :=
  (sessionWithin Heap.HandlesRemain 3 stubbornSession).get (by decide +kernel)

theorem reachable_stubbornWorld : Reachable Heap.HandlesRemain stubbornWorld :=
  .sessionWithin (Option.some_get _).symm

end DynamicObjects
