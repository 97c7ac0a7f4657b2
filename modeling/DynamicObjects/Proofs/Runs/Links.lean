import DynamicObjects.Proofs.Runs.Trials
import DynamicObjects.Proofs.Structure.Roots

/-!
# Precedence orders and links of reachable worlds

The precedence order of a class is found unless a cycle is reached from the class. In reachable worlds there are no
cycles: every class leads up to the root class of its system, and all links are kept at both ends.
-/
namespace DynamicObjects

/-! ## A session to try things on -/

/-- A step that creates an object system. -/
def foundation : Expr :=
  .createSystem (.literal (.text "Object")) (.literal (.text "Class")) {}

/-- The world after a system is created in an empty one. -/
def foundedWorld : World :=
  (stepWithin Heap.HandlesRemain 3 {} foundation).get (by decide +kernel)

theorem reachable_foundedWorld : Reachable Heap.HandlesRemain foundedWorld :=
  (Reachable.start {}).stepWithin (Option.some_get _).symm

/-! ## Precedence orders -/

section blank

variable {objects : Objects} (blank : ∀ k, objects.cachedOrder? k = none)

include blank

theorem Hierarchy.OrdersKept.of_blank : Hierarchy.OrdersKept objects := by
  refine ⟨fun c l found => ?_, fun c l found => ?_⟩ <;>
  · rw [blank] at found
    cases found

theorem exists_precedenceOrder_of_blank {c : Handle} (cls : (objects.class? c).isSome)
    (free : ¬Hierarchy.OnCycle objects.supersOf c) : ∃ order after,
      Hierarchy.precedenceOrder objects c = .ok (order, after) ∧ IsPrecedenceOrder objects.supersOf c order := by
  have ground : Hierarchy.Grounded objects.supersOf c := by
    by_contra endless
    exact free (Hierarchy.onCycle_iff_not_grounded.2 endless)
  obtain ⟨order, after, done, computed⟩ := Hierarchy.computed_precedenceOrder (.of_blank blank) cls ground
  exact ⟨order, after, done, computed.linearizes.isPrecedenceOrder⟩

theorem precedenceOrder_error_iff_of_blank {c : Handle} (cls : (objects.class? c).isSome) :
    (∃ defect, Hierarchy.precedenceOrder objects c = .error defect) ↔ Hierarchy.OnCycle objects.supersOf c := by
  constructor
  · rintro ⟨defect, failed⟩
    by_contra free
    obtain ⟨order, after, done, -⟩ := exists_precedenceOrder_of_blank blank cls free
    rw [failed] at done
    cases done
  · intro cycle
    obtain ⟨closing, failed⟩ := Hierarchy.precedenceOrder_eq_error (.of_blank blank) cls
      (Hierarchy.onCycle_iff_not_grounded.1 cycle)
    exact ⟨_, failed⟩

end blank

/-- The defect of a class is the failure of the update, which then leaves the world alone. -/
theorem Update.exec_precedenceOrder_of_error {w : World} {c : Handle} {defect : Defect} (cls : w.isClass c = true)
    (failed : Hierarchy.precedenceOrder w.objects c = .error defect) :
    (Update.precedenceOrder c).exec w = (.error (.structural defect), w) := by
  obtain ⟨o, part, live, some⟩ := World.isClass_iff.1 cls
  unfold Update.precedenceOrder
  rw [Update.exec_bind_of_ok (Update.exec_classPart_of_live live some),
    Update.exec_bind_of_ok (Update.exec_get w), failed]
  rfl

theorem Reachable.exec_precedenceOrder {w : World} (reached : Reachable Heap.HandlesRemain w) {c : Handle} {o : Object}
    (live : w.live? c = some o) (cls : o.isClass = true) : ∃ order v s,
      (Update.precedenceOrder c).exec w = (.ok order, v) ∧ IsPrecedenceOrder w.objects.supersOf c order ∧
      w.systems[o.system]? = some s ∧ order.getLast? = some s.rootClass := by
  have proper := reached.proper fun _ remain => remain
  obtain ⟨s, system⟩ := proper.rooted.system c o live
  have listed : w.isClass c = true := by rwa [World.isClass, live]
  obtain ⟨order, b, done, lin, -⟩ := proper.exec_precedenceOrder listed
  exact ⟨order, _, s, done, lin.isPrecedenceOrder, system, proper.getLast?_of_linearizes live cls system lin⟩

/-- Where no order is kept, a class from which a cycle is reached has no order, and none is kept afterwards; any other
class has its order. In reachable worlds every live class has one, up to the root class of its system. -/
theorem precedenceOrder_spec :
    (∀ (objects : Objects) (c : Handle), (objects.class? c).isSome → (∀ k, objects.cachedOrder? k = none) →
      ((∃ defect, Hierarchy.precedenceOrder objects c = .error defect) ↔ Hierarchy.OnCycle objects.supersOf c) ∧
      (¬Hierarchy.OnCycle objects.supersOf c → ∃ order after,
        Hierarchy.precedenceOrder objects c = .ok (order, after) ∧ IsPrecedenceOrder objects.supersOf c order)) ∧
    (∀ (w : World) (c : Handle), w.isClass c = true → (∀ k, w.objects.cachedOrder? k = none) →
      Hierarchy.OnCycle w.objects.supersOf c → ∃ defect v,
        (Update.precedenceOrder c).exec w = (.error (.structural defect), v) ∧
        ∀ k, v.objects.cachedOrder? k = none) ∧
    (∀ (w : World), Reachable Heap.HandlesRemain w → ∀ c o, w.live? c = some o → o.isClass = true →
      ∃ order v s, (Update.precedenceOrder c).exec w = (.ok order, v) ∧
        IsPrecedenceOrder w.objects.supersOf c order ∧ w.systems[o.system]? = some s ∧
        order.getLast? = some s.rootClass) := by
  refine ⟨fun objects c cls blank => ?_, fun w c cls blank cycle => ?_, fun w reached c o live cls => ?_⟩
  · exact ⟨precedenceOrder_error_iff_of_blank blank cls, exists_precedenceOrder_of_blank blank cls⟩
  · obtain ⟨defect, failed⟩ := (precedenceOrder_error_iff_of_blank blank (World.isSome_class? cls)).2 cycle
    exact ⟨defect, w, Update.exec_precedenceOrder_of_error cls failed, blank⟩
  · exact reached.exec_precedenceOrder live cls

/-- An object system whose root class is made a subclass of its root metaclass as well. -/
def knottedWorld : World :=
  { foundedWorld with objects := Hierarchy.link foundedWorld.objects ⟨0, 0⟩ ⟨1, 0⟩ }

theorem precedenceOrder_spec_founded :
    (∃ defect, Hierarchy.precedenceOrder knottedWorld.objects ⟨1, 0⟩ = .error defect) ∧
    ∃ order v s, (Update.precedenceOrder ⟨1, 0⟩).exec foundedWorld = (.ok order, v) ∧
      IsPrecedenceOrder foundedWorld.objects.supersOf ⟨1, 0⟩ order ∧ foundedWorld.systems[0]? = some s ∧
      order.getLast? = some s.rootClass := by
  have blank : ∀ k, knottedWorld.objects.cachedOrder? k = none := by
    intro k
    by_contra some
    have member : k ∈ knottedWorld.objects.handles := by
      unfold Heap.cachedOrder? Heap.class? at some
      cases found : knottedWorld.objects.get? k with
      | none => exact absurd (by rw [found]; rfl) some
      | some o => exact Heap.mem_handles found
    exact some ((by decide +kernel : ∀ h ∈ knottedWorld.objects.handles,
      knottedWorld.objects.cachedOrder? h = none) k member)
  have cycle : Hierarchy.OnCycle knottedWorld.objects.supersOf ⟨1, 0⟩ := by
    refine ⟨⟨1, 0⟩, .refl, .head (b := ⟨0, 0⟩) ?_ (.single ?_)⟩ <;> decide +kernel
  have looks : (foundedWorld.live? ⟨1, 0⟩).map (fun o => (o.isClass, o.system)) = some (true, 0) := by decide +kernel
  obtain ⟨o, live, same⟩ := Option.map_eq_some_iff.1 looks
  obtain ⟨cls, system⟩ := Prod.mk.inj same
  have found := precedenceOrder_spec.2.2 foundedWorld reachable_foundedWorld ⟨1, 0⟩ o live cls
  rw [system] at found
  exact ⟨((precedenceOrder_spec.1 knottedWorld.objects ⟨1, 0⟩ (by decide +kernel) blank).1).2 cycle, found⟩

/-! ## Links -/

/-- All that two places in a world tell about one link agrees. -/
structure LinksAgree (w : World) : Prop where
  names : ∀ n h, w.names.get? n = some h ↔ ∃ o, w.live? h = some o ∧ o.name = n
  instances : ∀ c h, h ∈ w.instancesOf c ↔ ∃ o, w.live? h = some o ∧ o.cls = c
  cls : ∀ h o, w.live? h = some o → w.isClass o.cls = true
  supers : ∀ c s, s ∈ w.objects.supersOf c ↔ c ∈ w.objects.subsOf s
  nodupSupers : ∀ c, (w.objects.supersOf c).Nodup
  nodupSubs : ∀ c, (w.objects.subsOf c).Nodup
  acyclic : ∀ c, ¬Hierarchy.Strictly w.objects.supersOf c c
  system : ∀ h o, w.live? h = some o → ∃ s, w.systems[o.system]? = some s
  /-- The root class of a system is its one class without superclasses. -/
  rootClass : ∀ (i : Nat) (s : ObjectSystem), w.systems[i]? = some s → ∀ c,
    c = s.rootClass ↔ ∃ o, w.live? c = some o ∧ o.isClass = true ∧ o.system = i ∧ w.objects.supersOf c = []
  rootMetaclass : ∀ (i : Nat) (s : ObjectSystem), w.systems[i]? = some s →
    w.isClass s.rootMetaclass = true ∧ w.objects.supersOf s.rootMetaclass = [s.rootClass]
  upward : ∀ c o s, w.live? c = some o → o.isClass = true → w.systems[o.system]? = some s →
    Hierarchy.Reaches w.objects.supersOf c s.rootClass
  users : ∀ reach m u, u ∈ w.usersOf reach m ↔ m ∈ w.targetsOf reach u
  nodupUsers : ∀ reach m, (w.usersOf reach m).Nodup

theorem WellFormed.links {w : World} (well : WellFormed (fun _ => False) w) : LinksAgree w where
  names := well.named.name
  instances := well.classed.instances
  cls := well.classed.cls
  supers c s := (well.linked.mirrored.subs c s).symm
  nodupSupers := well.linked.mirrored.nodupSupers
  nodupSubs := well.linked.mirrored.nodupSubs
  acyclic c := (well.linked.grounded c).not_strictly
  system := well.rooted.system
  rootClass i s system c := by
    constructor
    · rintro rfl
      obtain ⟨o, live, cls, -, same, top⟩ := well.rooted.root i s system
      exact ⟨o, live, cls, same, top⟩
    · rintro ⟨o, live, cls, rfl, top⟩
      exact well.eq_rootClass live cls system top
  rootMetaclass i s system := by
    obtain ⟨o, live, cls, -, -, up⟩ := well.rooted.metaclass i s system
    exact ⟨by rwa [World.isClass, live], up⟩
  upward c o s live cls system := well.reaches_rootClass live cls system
  users reach m u := (well.mixed reach).users m u
  nodupUsers reach := (well.mixed reach).nodup

/-- In every reachable world all links agree. -/
theorem Reachable.linksAgree {w : World} (reached : Reachable Heap.HandlesRemain w) : LinksAgree w :=
  (reached.proper fun _ remain => remain).links

theorem linksAgree_founded : LinksAgree foundedWorld :=
  Reachable.linksAgree reachable_foundedWorld

end DynamicObjects
