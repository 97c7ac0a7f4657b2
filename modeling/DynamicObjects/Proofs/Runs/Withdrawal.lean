import DynamicObjects.Proofs.Runs.Registry
import DynamicObjects.Proofs.Runs.Traces

/-!
# Failed creation

Creating an object links it to others before it can fail. Where superclasses are refused, the links are taken back, and
the world is as it was. Where the init method fails, the object is destroyed, whatever its destroy method does. Either way
nothing is left that mentions the object.
-/
namespace DynamicObjects

variable {loose : Handle → Prop} {v w : World} {h : Handle}

/-! ## As before -/

/-- All objects, links and names are as before; orders that are kept and numbers for automatic names apart. -/
structure World.AsBefore (w v : World) : Prop where
  objects : ∀ k, (v.objects.get? k).map Object.unordered = (w.objects.get? k).map Object.unordered
  supers : ∀ c, v.objects.supersOf c = w.objects.supersOf c
  subs : ∀ c, v.objects.subsOf c = w.objects.subsOf c
  instances : ∀ c, v.instancesOf c = w.instancesOf c
  names : ∀ name, v.names.get? name = w.names.get? name
  rest : v = { w with objects := v.objects, names := v.names, nameCounters := v.nameCounters }

/-- The links of a class are told without the orders that are kept. -/
private theorem class?_unordered (objects : Objects) (k : Handle) :
    ((objects.get? k).map Object.unordered).bind (·.classPart) =
      (objects.class? k).map fun c => { c with order := none } := by
  unfold Heap.class?
  cases objects.get? k <;> rfl

private theorem classPart?_unordered (w : World) (k : Handle) :
    (((w.objects.get? k).map Object.unordered).filter (!·.deleted)).bind (·.classPart) =
      (w.classPart? k).map fun c => { c with order := none } := by
  unfold World.classPart? World.live?
  cases w.objects.get? k with
  | none => rfl
  | some o =>
    have deleted : o.unordered.deleted = o.deleted := rfl
    cases gone : o.deleted <;> simp [Option.filter, deleted, gone, Object.classPart_unordered]

/-- Links are as before where objects are. -/
theorem World.AsBefore.of_objects
    (objects : ∀ k, (v.objects.get? k).map Object.unordered = (w.objects.get? k).map Object.unordered)
    (names : ∀ name, v.names.get? name = w.names.get? name)
    (rest : v = { w with objects := v.objects, names := v.names, nameCounters := v.nameCounters }) : w.AsBefore v := by
  have parts : ∀ c, (v.objects.class? c).map (fun p => { p with order := none }) =
      (w.objects.class? c).map fun p => { p with order := none } := fun c => by
    rw [← class?_unordered, ← class?_unordered, objects]
  have supers : ∀ a : Objects, ∀ c, a.supersOf c = (((a.class? c).map fun p => { p with order := none }).map
      ClassPart.supers).getD [] := fun a c => by rw [Option.map_map]; rfl
  have subs : ∀ a : Objects, ∀ c, a.subsOf c = (((a.class? c).map fun p => { p with order := none }).map
      ClassPart.subs).getD [] := fun a c => by rw [Option.map_map]; rfl
  have instances : ∀ u : World, ∀ c, u.instancesOf c = (((u.classPart? c).map fun p => { p with order := none }).map
      ClassPart.instances).getD .empty := fun u c => by rw [Option.map_map]; rfl
  refine ⟨objects, fun c => ?_, fun c => ?_, fun c => ?_, names, rest⟩
  · rw [supers, supers, parts]
  · rw [subs, subs, parts]
  · rw [instances, instances, ← classPart?_unordered, ← classPart?_unordered, objects]

theorem World.AsBefore.refl (w : World) : w.AsBefore w :=
  .of_objects (fun _ => rfl) (fun _ => rfl) rfl

/-- Numbers for automatic names make no difference. -/
theorem World.AsBefore.of_counters {counters : NameTable Nat}
    (before : World.AsBefore { w with nameCounters := counters } v) : w.AsBefore v :=
  ⟨before.objects, before.supers, before.subs, before.instances, before.names, before.rest⟩

/-! ## Taken back -/

theorem HandleSet.erase_insert {s : HandleSet} (new : h ∉ s) : (s.insert h).erase h = s := by
  have taken : ∀ xs : List Handle, h ∉ xs → (HandleSet.place h xs).filter (· ≠ h) = xs := by
    intro xs absent
    induction xs with
    | nil => simp [HandleSet.place]
    | cons x xs ih =>
      obtain ⟨other, absent⟩ := List.ne_and_not_mem_of_not_mem_cons absent
      have kept : (x :: xs).filter (· ≠ h) = x :: xs := by
        refine List.filter_eq_self.2 fun y member => decide_eq_true ?_
        rintro rfl
        exact (List.mem_cons.1 member).elim other absent
      unfold HandleSet.place
      split
      · rw [List.filter_cons_of_neg (by simp), kept]
      · rw [List.filter_cons_of_pos (by simpa using Ne.symm other), ih absent]
  cases s with
  | mk xs sorted => simp only [HandleSet.insert, HandleSet.erase, taken xs new]

theorem Object.unordered_mapInstances (f : HandleSet → HandleSet) (o : Object) :
    (o.mapInstances f).unordered = o.unordered.mapInstances f := by
  simp [unordered, withoutPrecedence, mapInstances, mapClass, Function.comp_def]

/-- An instance that is entered at a class and taken off again leaves no difference. -/
theorem Object.mapInstances_erase_insert {o : Object} (new : ∀ part, o.classPart = some part → h ∉ part.instances) :
    (o.mapInstances (·.insert h)).mapInstances (·.erase h) = o := by
  have same : ((o.classPart.map fun c => { c with instances := c.instances.insert h }).map fun c =>
      { c with instances := c.instances.erase h }) = o.classPart := by
    cases isPart : o.classPart with
    | none => rfl
    | some part => simp [HandleSet.erase_insert (new part isPart)]
  unfold mapInstances mapClass
  rw [same]

/-- A class that arrives, is refused its superclasses and is taken back leaves no difference. -/
theorem World.AsBefore.of_refused (well : WellFormed loose w) {metaclass : Handle} {name : String} {m : Object}
    {system : Nat} {a b : Objects} {e : Failure} (live : w.live? metaclass = some m) (free : w.names.get? name = none)
    (arrives : Arrives h (.newClass name metaclass system) w.objects a) (different : h ≠ metaclass)
    (refused : WellFormed.Refused h e (a.join h metaclass) b) :
    w.AsBefore { w with
      objects := (b.leave h metaclass).release h
      names := (w.names.insert name h).erase name } := by
  have unlinked := Object.unlinked_newClass name metaclass system
  have joined : Heap.Alike Object.ancestry a (a.join h metaclass) := .modify _ _ fun o => Object.ancestry_mapInstances _ o
  have top : (a.join h metaclass).supersOf h = [] := by
    rw [Heap.Alike.supersOf_of_ancestry joined, arrives.supersOf unlinked, Heap.supersOf_eq_nil arrives.class?_vacant]
  have alike : Heap.Alike Object.unordered (a.join h metaclass) b :=
    (refused.alike_withoutPrecedence top).comp _ fun o => o.unordered_withoutPrecedence.symm
  have new : ∀ part, m.classPart = some part → h ∉ part.instances := fun part isPart listed => by
    obtain ⟨o, there, -⟩ := (well.classed.instances metaclass h).1 ((World.mem_instancesOf_of_live live isPart).2 listed)
    exact nomatch (World.live?_eq_some_iff.1 there).1.symm.trans arrives.vacant
  refine .of_objects (fun k => ?_) (fun n => ?_) rfl
  · change (((b.leave h metaclass).release h).get? k).map _ = _
    rw [Heap.get?_release]
    by_cases here : k = h
    · rw [if_pos here, here, arrives.vacant]
    have view := alike.view k
    rw [Heap.join, Heap.get?_modify, arrives.get?, if_neg here] at view
    rw [if_neg here, Heap.leave, Heap.get?_modify]
    by_cases there : k = metaclass
    · subst there
      rw [if_pos rfl, (World.live?_eq_some_iff.1 live).1] at view
      rw [if_pos rfl, (World.live?_eq_some_iff.1 live).1]
      obtain ⟨q, found, looks⟩ := Option.map_eq_some_iff.1 view
      rw [found, Option.map_some, Option.map_some, Option.map_some, Object.unordered_mapInstances, looks,
        ← Object.unordered_mapInstances, Object.mapInstances_erase_insert new]
    · rwa [if_neg there] at view ⊢
  · change ((w.names.insert name h).erase name).get? n = _
    rw [NameTable.get?_erase, NameTable.get?_insert]
    split
    · next same => rw [same, free]
    · rfl

/-! ## Enrolment -/

/-- The handle of the next object does not depend on the object. -/
theorem Heap.allocate_fst_eq {α : Type} (heap : Heap α) (a b : α) : (heap.allocate a).1 = (heap.allocate b).1 := by
  unfold allocate
  cases heap.free <;> rfl

/-- An update enrols a new object under the next handle, or it fails and leaves the world as before. -/
structure Enrols (w : World) (enrols : Update Handle) : Prop where
  develops : Develops ⟨Heap.HandlesRemain, False⟩ w (enrols.exec w).2
  refused : ∀ e v, enrols.exec w = (.error e, v) → w.AsBefore v
  newcomer : ∀ h u, enrols.exec w = (.ok h, u) →
    (∀ o, h = (w.objects.allocate o).1) ∧ ∃ o, u.live? h = some o ∧ o.isRoot = false

namespace Enrols

theorem of_error {enrols : Update Handle} {e : Failure} (failed : enrols.exec w = (.error e, w)) : Enrols w enrols := by
  refine ⟨by rw [failed], fun e v done => ?_, fun h u done => ?_⟩ <;> rw [failed] at done <;> cases done
  exact .refl w

/-- At first, at most an automatic name is counted. -/
theorem after {α : Type} {u : Update α} {f : α → Update Handle} {x : α} {counters : NameTable Nat}
    (done : u.exec w = (.ok x, { w with nameCounters := counters }))
    (enrols : Enrols { w with nameCounters := counters } (f x)) : Enrols w (u >>= f) := by
  have counts : Deed Sober ⟨Heap.HandlesRemain, False⟩ w { w with nameCounters := counters } :=
    .aside (.of_objects rfl rfl rfl rfl rfl le_rfl)
  refine ⟨?_, fun e v failed => ?_, fun h t enrolled => ?_⟩
  · rw [Update.exec_bind_of_ok done]
    exact .head counts enrols.develops
  · rw [Update.exec_bind_of_ok done] at failed
    exact (enrols.refused e v failed).of_counters
  · rw [Update.exec_bind_of_ok done] at enrolled
    exact enrols.newcomer h t enrolled

end Enrols

namespace Action

variable {α β : Type}

theorem ext {a b : Action α} (same : ∀ w, a.exec w = b.exec w) : a = b :=
  funext same

/-- An update in two parts is done in two parts. -/
theorem liftM_bind (u : Update α) (f : α → Update β) :
    (liftM (u >>= f) : Action β) = liftM u >>= fun a => liftM (f a) := by
  refine ext fun w => ?_
  rw [exec_liftM, exec_bind, exec_liftM, Update.exec_bind, Option.bind_some]
  rcases u.exec w with ⟨_ | a, v⟩ <;> rfl

end Action

namespace Lifecycle

theorem next_of_enroll {o : Object} {u : World} (done : (enroll o).exec w = (.ok h, u)) (p : Object) :
    h = (w.objects.allocate p).1 := by
  unfold enroll at done
  rw [Update.exec_bind_of_ok (exec_allocate rfl), Update.exec_bind_of_ok (exec_giveName _ _ _)] at done
  obtain ⟨_, t, -, same⟩ := Update.exec_bind_eq_ok done
  cases same
  exact w.objects.allocate_fst_eq o p

variable (proper : Proper w) (room : w.objects.HandlesRemain)

include proper room

theorem enrols_enrollClass (name : String) (metaclass : Handle) (supers : List Handle) :
    Enrols w (enrollClass name metaclass supers) := by
  refine ⟨.single (.enrollClass name metaclass supers room), fun e v failed => ?_, fun h u done => ?_⟩
  · rcases proper.exec_enrolledClass room.hasRoom name metaclass supers with ⟨e', kept⟩ |
      ⟨m, h, a, x, live, free, arrives, different, -, rfl, -, ⟨t, -, done⟩ | ⟨e', t, -, is, refused, done⟩⟩
    · rw [kept] at failed
      cases failed
      exact .refl w
    · rw [done] at failed
      cases failed
    · rw [done] at failed
      cases failed
      rw [is]
      exact .of_refused proper live free arrives different refused
  · refine ⟨fun o => ?_, ?_⟩
    · rcases exec_enrollClass name metaclass supers w with ⟨e, failed⟩ |
        ⟨m, -, -, -, ⟨e, x, -, failed⟩ | ⟨k, x, entered, ⟨t, -, ended⟩ | ⟨e, t, -, failed⟩⟩⟩
      · rw [failed] at done
        cases done
      · rw [failed] at done
        cases done
      · rw [ended] at done
        cases done
        exact next_of_enroll entered o
      · rw [failed] at done
        obtain ⟨_, y, -, thrown⟩ := Update.exec_bind_eq_ok done
        cases thrown
    · rcases proper.exec_enrolledClass room.hasRoom name metaclass supers with ⟨e, failed⟩ |
        ⟨m, k, a, x, -, -, arrives, different, -, rfl, well, ⟨t, placed, ended⟩ | ⟨e, t, -, -, -, failed⟩⟩
      · rw [failed] at done
        cases done
      · rw [ended] at done
        cases done
        have relinks := Relinks.setSuperclasses well h supers
        rw [placed] at relinks
        obtain ⟨p, found, looks⟩ := relinks.objects.exists_of_get? (arrives.get?_join different)
        exact ⟨p, World.live?_eq_some_iff.2 ⟨found, congrArg Object.deleted looks⟩, congrArg Object.isRoot looks⟩
      · rw [failed] at done
        cases done

omit proper room

/-- An instance of a class under a free name, linked but not initialised. -/
def enrollInstance (cls : Handle) (name : String) : Update Handle := do
  if ← Update.isMetaclass cls then enrollClass name cls []
  else enroll (.ofClass name cls (← Update.object cls).system)

/-- What creating an object comes to before it is initialised. -/
def enrollObject (cls : Handle) (name : Option String) : Update Handle := do
  unless (← get).isClass cls do throw (.structural (.notClass (← Update.nameOf cls)))
  match name with
  | some name => claimName name >>= enrollInstance cls
  | none => freshName >>= enrollInstance cls

/-- Initialises a new object. -/
def initialise (host : Host) (args : List Value) (h : Handle) : Action Handle := do
  callInit host h args
  return h

theorem createClass_eq (host : Host) (name : String) (metaclass : Handle) (supers : List Handle) (args : List Value) :
    createClass host name metaclass supers args = liftM (enrollClass name metaclass supers) >>= initialise host args :=
  rfl

theorem createObject_eq (host : Host) (cls : Handle) (name : Option String) (args : List Value) :
    createObject host cls name args = liftM (enrollObject cls name) >>= initialise host args := by
  have instances : ∀ n, (do
      if ← Update.isMetaclass cls then createClass host n cls [] args
      else
        let h ← enroll (.ofClass n cls (← Update.object cls).system)
        callInit host h args
        return h : Action Handle) = liftM (enrollInstance cls n) >>= initialise host args := by
    intro n
    unfold enrollInstance
    rw [Action.liftM_bind, bind_assoc]
    refine bind_congr fun isMeta => ?_
    cases isMeta with
    | true => exact createClass_eq ..
    | false =>
      simp only [Bool.false_eq_true, if_false]
      rw [Action.liftM_bind, bind_assoc]
      rfl
  refine Action.ext fun w => ?_
  unfold createObject enrollObject
  rw [Action.exec_bind_of_ok (Action.exec_get w), Action.liftM_bind, bind_assoc,
    Action.exec_liftM_bind_of_ok (Update.exec_get w)]
  cases w.isClass cls with
  | false => rfl
  | true =>
    cases name with
    | some n =>
      simp only [if_true]
      rw [Action.liftM_bind, bind_assoc]
      exact congrArg (fun f => (liftM (claimName n) >>= f : Action Handle).exec w) (funext instances)
    | none =>
      simp only [if_true]
      rw [Action.liftM_bind, bind_assoc]
      exact congrArg (fun f => (liftM freshName >>= f : Action Handle).exec w) (funext instances)

include proper room

theorem enrols_enrollInstance {cls : Handle} (isClass : w.isClass cls = true) {name : String}
    (free : w.names.get? name = none) : Enrols w (enrollInstance cls name) := by
  have asked := Update.exec_isMetaclass cls w
  cases isMeta : w.isMetaclass cls with
  | true =>
    rw [isMeta] at asked
    exact .after asked (enrols_enrollClass proper room name cls [])
  | false =>
    rw [isMeta] at asked
    obtain ⟨c, part, live, isPart⟩ := World.isClass_iff.1 isClass
    obtain ⟨h, a, arrives, different, entered, -⟩ := proper.exec_enroll room.hasRoom
      (Object.unlinked_ofClass name cls c.system) isClass free (proper.rooted.system cls c live) rfl
    refine .after asked (.after (Update.exec_object_of_live live) ⟨?_, fun e v failed => ?_, fun k u done => ?_⟩)
    · exact .single (.enroll name cls room live (by rw [Object.isClass, isPart]; rfl) free fun _ => isMeta)
    · cases entered.symm.trans failed
    · cases entered.symm.trans done
      exact ⟨next_of_enroll entered, _, World.live?_eq_some_iff.2 ⟨arrives.get?_join different, rfl⟩, rfl⟩

theorem enrols_enrollObject (cls : Handle) (name : Option String) : Enrols w (enrollObject cls name) := by
  refine .after (Update.exec_get w) ?_
  cases isClass : w.isClass cls with
  | false => exact .of_error rfl
  | true =>
    cases name with
    | some name =>
      rcases exec_claimName name w with ⟨e, failed⟩ | ⟨claimed, free⟩
      · exact .of_error (Update.exec_bind_of_error failed _)
      · exact .after claimed (enrols_enrollInstance proper room isClass free)
    | none =>
      obtain ⟨n, counters, fresh, free⟩ := exec_freshName w
      have proper' : Proper { w with nameCounters := counters } :=
        proper.of_alike (.refl _) (.refl _) rfl rfl
      exact .after fresh (enrols_enrollInstance proper' room isClass free)

end Lifecycle

/-! ## Failing init methods -/

/-- The init method of the new object `h` fails with `e`, and destroying the object then, whatever this comes to, ends in
`v`. -/
def World.InitFails (w : World) (host : Host) (h : Handle) (args : List Value) (e : Failure) (v : World) : Prop :=
  ∃ o s init u t r, w.live? h = some o ∧ w.systems[o.system]? = some s ∧ s.methods.init = some init ∧
    (Lifecycle.implements h init).exec w = (.ok true, u) ∧
    (host.call h init args { ignorePermissions := true }).exec u = some (.error e, t) ∧
    (Lifecycle.destroy host h).exec t = some (r, v)

namespace Lifecycle

/-- Where a call fails, what is done about it makes no difference to the failure. -/
private theorem exec_cleanUp_eq_error (call : Action Value) (cleanUp : Action Unit) {u v : World} {e : Failure} :
    (do
      match ← Action.settle call with
      | .ok _ => return ()
      | .error f =>
        let _ ← Action.settle cleanUp
        throw f : Action Unit).exec u = some (.error e, v) ↔
      ∃ t r, call.exec u = some (.error e, t) ∧ cleanUp.exec t = some (r, v) := by
  rw [Action.exec_settle_bind]
  constructor
  · intro failed
    obtain ⟨⟨_ | value, t⟩, called, rest⟩ := Option.bind_eq_some_iff.1 failed
    · dsimp only at rest
      rw [Action.exec_settle_bind] at rest
      obtain ⟨⟨r, x⟩, done, thrown⟩ := Option.bind_eq_some_iff.1 rest
      cases thrown
      exact ⟨t, r, called, done⟩
    · cases rest
  · rintro ⟨t, r, called, done⟩
    rw [called]
    dsimp only [Option.bind_some]
    rw [Action.exec_settle_bind, done]
    rfl

/-- Initialising a live object only fails as its init method does. -/
theorem exec_callInit_eq_error (well : WellFormed loose w) {o : Object} (live : w.live? h = some o) (host : Host)
    (args : List Value) (e : Failure) (v : World) :
    (callInit host h args).exec w = some (.error e, v) ↔ w.InitFails host h args e v := by
  obtain ⟨s, listed⟩ := well.rooted.system h o live
  have looked := Update.exec_systemOf_of_live live listed
  unfold callInit
  rw [Action.exec_liftM_bind_of_ok looked]
  constructor
  · intro failed
    cases method : s.methods.init with
    | none =>
      rw [method] at failed
      cases failed
    | some init =>
      rw [method] at failed
      obtain ⟨b, u, asked⟩ := well.exec_implements_of_live live init
      dsimp only at failed
      rw [Action.exec_liftM_bind_of_ok asked] at failed
      cases b with
      | false => cases failed
      | true =>
        obtain ⟨t, r, called, done⟩ := (exec_cleanUp_eq_error _ _).1 failed
        exact ⟨o, s, init, u, t, r, live, listed, method, asked, called, done⟩
  · rintro ⟨o', s', init, u, t, r, live', listed', method, asked, called, done⟩
    cases live.symm.trans live'
    cases listed.symm.trans listed'
    rw [method]
    dsimp only
    rw [Action.exec_liftM_bind_of_ok asked]
    exact (exec_cleanUp_eq_error _ _).2 ⟨t, r, called, done⟩

/-- A creation fails where the object is not enrolled, or where its init method fails. -/
theorem exec_initialise_eq_error (proper : Proper w) {enrols : Update Handle} (enrolled : Enrols w enrols) (host : Host)
    (args : List Value) (e : Failure) (v : World) :
    (liftM enrols >>= initialise host args : Action Handle).exec w = some (.error e, v) ↔
      enrols.exec w = (.error e, v) ∨ ∃ h u, enrols.exec w = (.ok h, u) ∧ u.InitFails host h args e v := by
  have develops := enrolled.develops
  rw [Action.exec_bind, Action.exec_liftM, Option.bind_some]
  rcases done : enrols.exec w with ⟨e' | h, u⟩
  · simp
  obtain ⟨-, o, live, -⟩ := enrolled.newcomer h u done
  rw [done] at develops
  have proper' : Proper u := proper.evolves (fun _ remain => remain) (Develops.evolves develops)
  have fails := exec_callInit_eq_error proper' live host args e v
  have ended : (initialise host args h).exec u = some (.error e, v) ↔
      (callInit host h args).exec u = some (.error e, v) := by
    unfold initialise
    rw [Action.exec_bind]
    rcases (callInit host h args).exec u with _ | ⟨_ | _, t⟩
    · simp
    · simp
    · exact ⟨nofun, nofun⟩
  simp [ended, fails]

end Lifecycle

/-! ## No trace -/

/-- What is registered is registered under live objects. -/
theorem EntriesSound.owner_ne (sound : EntriesSound w) (dead : w.live? h = none) {path : String} {r : Registration}
    (found : w.registry.get? path = some r) : r.owner ≠ some h := by
  intro owned
  obtain ⟨site, rfl, -, o, -, live, -⟩ := sound.exists_site found owned
  exact nomatch dead.symm.trans live

/-- Nothing mentions what is dead in a world that a reachable one develops into. -/
theorem Reachable.traceless_of_develops {good : Objects → Prop} (remain : ∀ a, good a → a.HandlesRemain)
    {careful : Prop} (reached : Reachable good w) (path : Develops ⟨good, careful⟩ w v) (dead : v.live? h = none) :
    v.Traceless h := by
  obtain ⟨settings, history⟩ := reached.develops remain
  have proper := reached.proper remain
  have upkept : Upkept v := (upkept_start settings).evolves remain (proper_start settings)
    (history.evolves.trans path.evolves)
  have sound : EntriesSound w := (EntriesSound.start settings).develops (proper_start settings) remain history
  have soundAfter : EntriesSound v := sound.develops proper remain path
  exact (proper.evolves remain path.evolves).traceless upkept dead fun _ _ found =>
    soundAfter.owner_ne dead found

/-- Whatever its destroy method does, an object that was enrolled is dead once it is destroyed. -/
theorem Lifecycle.dead_of_destroy {terms : Terms} {host : Host} (faithful : Faithful terms host) (proper : Proper w)
    (orderly : w.objects.Orderly) {o : Object} (live : w.live? h = some o) (root : o.isRoot = false) {u : World}
    (path : Develops terms w u) {r : Except Failure Unit} (done : (destroy host h).exec u = some (r, v)) :
    v.live? h = none := by
  have remain := faithful.remain
  have proper' := proper.evolves remain path.evolves
  have orderly' := (proper.fares_of_develops remain path).orderly orderly
  cases still : u.live? h with
  | none =>
    cases (exec_destroy_of_dead still host).symm.trans done
    exact still
  | some p =>
    obtain ⟨found, alive⟩ := World.live?_eq_some_iff.1 still
    have present : isGone u h = false := by
      rw [isGone, found, Option.all_some, (orderly' h p found).1, alive, Bool.or_self]
    obtain ⟨q, live', root'⟩ := exists_live_of_present remain proper live root path present
    obtain ⟨x, outcome, further, finishes⟩ := exists_finishDestroying faithful proper' orderly' live' root' done
    exact dead_of_finishDestroying remain proper' orderly' live' root' further finishes

/-- How creating an object fails: it is refused, and the world is as before, or its init method fails, and this is what
the creation fails with. Either way nothing mentions the object. -/
structure Withdrawn (host : Host) (args : List Value) (w : World) (enrols : Update Handle) (creates : Action Handle) :
    Prop where
  fails : ∀ e v, creates.exec w = some (.error e, v) ↔
    enrols.exec w = (.error e, v) ∨ ∃ h u, enrols.exec w = (.ok h, u) ∧ u.InitFails host h args e v
  refused : ∀ e v, enrols.exec w = (.error e, v) → w.AsBefore v
  next : ∀ h u, enrols.exec w = (.ok h, u) → ∀ o, h = (w.objects.allocate o).1
  traceless : ∀ e v, creates.exec w = some (.error e, v) → ∀ o, v.Traceless (w.objects.allocate o).1

theorem Reachable.withdrawn_of_enrols (reached : Reachable Heap.HandlesRemain w) (room : w.objects.HandlesRemain)
    (depth : Nat) {enrols : Update Handle} (enrolled : Enrols w enrols) (args : List Value) :
    Withdrawn (hostWithin Heap.HandlesRemain depth) args w enrols
      (liftM enrols >>= Lifecycle.initialise (hostWithin Heap.HandlesRemain depth) args) := by
  have remain : ∀ a : Objects, a.HandlesRemain → a.HandlesRemain := fun _ remain => remain
  have proper := reached.proper remain
  have faithful := faithful_hostWithin remain depth
  have fails := Lifecycle.exec_initialise_eq_error proper enrolled (hostWithin Heap.HandlesRemain depth) args
  have path := enrolled.develops
  refine ⟨fails, enrolled.refused, fun h u done => (enrolled.newcomer h u done).1, fun e v failed o => ?_⟩
  rcases (fails e v).1 failed with refused | ⟨h, u, done, -, -, init, x, t, r, -, -, -, asked, called, destroyed⟩
  · rw [refused] at path
    refine reached.traceless_of_develops remain path ?_
    have same := (enrolled.refused e v refused).objects (w.objects.allocate o).1
    rw [Heap.get?_allocate_fst proper.sound room.hasRoom, Option.map_none, Option.map_eq_none_iff] at same
    rw [World.live?, same]
    rfl
  · obtain ⟨next, p, live, root⟩ := enrolled.newcomer h u done
    rw [done] at path
    have proper' := proper.evolves remain path.evolves
    have orderly := (proper.fares_of_develops remain path).orderly (reached.orderly remain).1
    have looks : Proceeds ⟨Heap.HandlesRemain, False⟩ u x := by
      have along : Update.Along (Deed Hushed ⟨Heap.HandlesRemain, False⟩) (Lifecycle.implements h init) :=
        Deed.along_implements h init
      have calmly : Calmly ⟨Heap.HandlesRemain, False⟩ u _ := along u
      rw [asked] at calmly
      exact calmly.proceeds
    have calls := faithful.task (.call h init args _) x _ t (proper'.evolves remain looks.evolves) called
    have more : Develops ⟨Heap.HandlesRemain, False⟩ u t := Proceeds.develops (looks.trans calls.1)
    have proper'' := proper'.evolves remain more.evolves
    have last := ((Lifecycle.steady_destroy h t trivial faithful t proper'' rfl).2 r v destroyed).1.develops
    rw [← next o]
    exact reached.traceless_of_develops remain ((path.trans more).trans last)
      (Lifecycle.dead_of_destroy faithful proper' orderly live root more destroyed)

/-- Objects of the class `C` enter themselves at a mixin class and then fail to be initialised, and to be destroyed. -/
def faultySession : List Expr :=
  [.createSystem (Trial.text "Object") (Trial.text "Class")
      { init := some (Trial.text "init"), destroy := some (Trial.text "destroy") },
    Trial.createClass "C", Trial.createClass "M", Trial.define .instances "C" (Trial.method "init"
      (.sequence [.change (.addMixin .object (.computed .self) ⟨.name "M", none⟩), .fail (Trial.text "broken")])),
    Trial.define .instances "C" (Trial.method "destroy" (.fail (Trial.text "stay")))]

def faultyWorld : World :=
  (sessionWithin Heap.HandlesRemain 3 faultySession).get (by decide +kernel)

/-- Creating a class or an object in a reachable world leaves no trace of it where it fails. If it fails before the init
method runs, all objects, links and names are as before; else it fails as the init method does, whatever the destroy
method does then. -/
theorem Reachable.withdrawn (reached : Reachable Heap.HandlesRemain w) (room : w.objects.HandlesRemain) (depth : Nat) :
    (∀ name metaclass supers args, Withdrawn (hostWithin Heap.HandlesRemain depth) args w
      (Lifecycle.enrollClass name metaclass supers)
      (Lifecycle.createClass (hostWithin Heap.HandlesRemain depth) name metaclass supers args)) ∧
    ∀ cls name args, Withdrawn (hostWithin Heap.HandlesRemain depth) args w (Lifecycle.enrollObject cls name)
      (Lifecycle.createObject (hostWithin Heap.HandlesRemain depth) cls name args) := by
  have proper := reached.proper fun _ remain => remain
  constructor
  · intro name metaclass supers args
    rw [Lifecycle.createClass_eq]
    exact reached.withdrawn_of_enrols room depth (Lifecycle.enrols_enrollClass proper room name metaclass supers) args
  · intro cls name args
    rw [Lifecycle.createObject_eq]
    exact reached.withdrawn_of_enrols room depth (Lifecycle.enrols_enrollObject proper room cls name) args

/-- An object that fails to be initialised, and a class whose superclasses are in a wrong order. -/
theorem withdrawn_faulty : Reachable Heap.HandlesRemain faultyWorld ∧ faultyWorld.objects.HandlesRemain ∧
    (∃ v, (Lifecycle.createObject (hostWithin Heap.HandlesRemain 6) ⟨2, 0⟩ (some "o") []).exec faultyWorld =
      some (.error (.script "broken"), v) ∧ v.Traceless ⟨4, 0⟩) ∧
    ∃ e v, (Lifecycle.createClass (hostWithin Heap.HandlesRemain 6) "D" ⟨1, 0⟩ [⟨0, 0⟩, ⟨2, 0⟩] []).exec faultyWorld =
      some (.error e, v) ∧ faultyWorld.AsBefore v ∧ v.Traceless ⟨4, 0⟩ := by
  have reached : Reachable Heap.HandlesRemain faultyWorld := .sessionWithin (Option.some_get _).symm
  have room : faultyWorld.objects.HandlesRemain := by decide +kernel
  have fails : ((Lifecycle.createObject (hostChecking Heap.HandlesRemain 6) ⟨2, 0⟩ (some "o") []).exec faultyWorld).map
      (fun result => match result.1 with | .ok _ => none | .error e => some e) = some (some (.script "broken")) := by
    decide +kernel
  have refuses : (((Lifecycle.enrollClass "D" ⟨1, 0⟩ [⟨0, 0⟩, ⟨2, 0⟩]).exec faultyWorld).1).toBool = false := by
    decide +kernel
  have next : (faultyWorld.objects.allocate (.ofClass "o" ⟨2, 0⟩ 0)).1 = ⟨4, 0⟩ := by decide +kernel
  obtain ⟨classes, objects⟩ := Reachable.withdrawn reached room 6
  rw [← hostWithin_eq_hostChecking] at fails
  refine ⟨reached, room, ?_, ?_⟩
  · obtain ⟨⟨r, v⟩, done, failed⟩ := Option.map_eq_some_iff.1 fails
    cases r with
    | ok _ => cases failed
    | error e =>
      cases failed
      exact ⟨v, done, next ▸ (objects _ _ _).traceless _ v done _⟩
  · rcases enrolled : (Lifecycle.enrollClass "D" ⟨1, 0⟩ [⟨0, 0⟩, ⟨2, 0⟩]).exec faultyWorld with ⟨_ | h, v⟩
    · have withdrawn := classes "D" ⟨1, 0⟩ [⟨0, 0⟩, ⟨2, 0⟩] []
      have done := (withdrawn.fails _ v).2 (.inl enrolled)
      exact ⟨_, v, done, withdrawn.refused _ v enrolled, next ▸ withdrawn.traceless _ v done _⟩
    · rw [enrolled] at refuses
      cases refuses

end DynamicObjects
