import DynamicObjects.Lifecycle.Reclassing
import DynamicObjects.Proofs.Structure.Registration

/-!
# Instance links

Moving an object from one class to another keeps both ends of the instance links in step.
-/
namespace DynamicObjects

namespace Object

def mapInstances (f : HandleSet → HandleSet) (o : Object) : Object :=
  o.mapClass fun c => { c with instances := f c.instances }

@[simp] theorem identity_mapInstances (f : HandleSet → HandleSet) (o : Object) :
    (o.mapInstances f).identity = o.identity :=
  identity_mapClass _ o

@[simp] theorem ancestry_mapInstances (f : HandleSet → HandleSet) (o : Object) :
    (o.mapInstances f).ancestry = o.ancestry := by
  simp [ancestry, mapInstances, mapClass, identity, isClass, Function.comp_def]

@[simp] theorem mixing_mapInstances (reach : Reach) (f : HandleSet → HandleSet) (o : Object) :
    (o.mapInstances f).mixing reach = o.mixing reach := by
  cases reach <;> simp [mixing, mapInstances, registrations?, mapClass, ClassPart.users, identity, isClass,
    Function.comp_def]

@[simp] theorem precedence_mapInstances (f : HandleSet → HandleSet) (o : Object) :
    (o.mapInstances f).precedence = o.precedence := by
  simp [precedence, mapInstances, mapClass, Function.comp_def]

end Object

namespace Heap

/-- Takes an instance off a class. -/
def leave (objects : Objects) (h c : Handle) : Objects :=
  objects.modify c (Object.mapInstances (·.erase h))

/-- Enters an instance at a class. -/
def join (objects : Objects) (h c : Handle) : Objects :=
  objects.modify c (Object.mapInstances (·.insert h))

end Heap

theorem World.instancesOf_mapInstances {v w : World} {c : Handle} {f : HandleSet → HandleSet}
    (objects : w.objects = v.objects.modify c (Object.mapInstances f)) (cls : v.isClass c = true) (k : Handle) :
    w.instancesOf k = if k = c then f (v.instancesOf k) else v.instancesOf k := by
  have remade := Heap.Remade.modify v.objects c (Object.mapInstances f)
  rw [← objects] at remade
  have lives := remade.live? fun k o => by split <;> rfl
  unfold World.instancesOf World.classPart?
  rw [lives]
  obtain ⟨o, part, live, isPart⟩ := World.isClass_iff.1 cls
  by_cases here : k = c
  · subst here
    simp [live, isPart, Object.mapInstances, Object.mapClass]
  · simp [here]

/-- What moving `h` from one class to another makes of an object. -/
def reclassed (h old new k : Handle) (o : Object) : Object :=
  let left := if k = old then o.mapInstances (·.erase h) else o
  let joined := if k = new then left.mapInstances (·.insert h) else left
  if k = h then { joined with cls := new } else joined

theorem remade_reclassed (h old new : Handle) (a : Objects) :
    Heap.Remade (reclassed h old new) a (((a.leave h old).join h new).modify h ({ · with cls := new })) :=
  ((Heap.Remade.modify a old (Object.mapInstances (·.erase h))).trans
    (.modify (a.leave h old) new (Object.mapInstances (·.insert h)))).trans
      (.modify ((a.leave h old).join h new) h ({ · with cls := new }))

namespace Lifecycle

/-- An object changes its class completely or not at all. -/
theorem exec_changeClass (h cls : Handle) (w : World) :
    (∃ r, (changeClass h cls).exec w = (r, w)) ∨
      ∃ o a b, w.live? h = some o ∧ w.isClass cls = true ∧ w.isMetaclass cls = o.isClass ∧
        (changeClass h cls).exec w = (.ok ⟨⟩, { w with objects := b }) ∧
        Heap.Remade (reclassed h o.cls cls) w.objects a ∧ Forgets (· = h) a b := by
  unfold changeClass
  cases live : w.live? h with
  | none => exact .inl ⟨_, Update.exec_bind_of_error (Update.exec_object_of_dead live) _⟩
  | some o =>
    rw [Update.exec_bind_of_ok (Update.exec_object_of_live live), Update.exec_bind_of_ok (Update.exec_get w)]
    cases isClass : w.isClass cls with
    | false => exact .inl ⟨_, rfl⟩
    | true =>
      simp only [if_true]
      rw [Update.exec_bind_of_ok (Update.exec_isMetaclass cls w)]
      cases toObject : o.isClass && !w.isMetaclass cls with
      | true => exact .inl ⟨_, rfl⟩
      | false =>
        simp only [Bool.false_eq_true, if_false]
        cases toClass : !o.isClass && w.isMetaclass cls with
        | true => exact .inl ⟨_, rfl⟩
        | false =>
          simp only [Bool.false_eq_true, if_false]
          by_cases same : o.cls = cls
          · exact .inl ⟨.ok ⟨⟩, by rw [if_pos same]; rfl⟩
          · rw [if_neg same, Update.exec_bind_of_ok (Update.exec_changeObjects _ _)]
            have left : Heap.Alike Object.identity w.objects (w.objects.leave h o.cls) :=
              .modify _ _ fun _ => Object.identity_mapInstances _ _
            rw [Update.exec_bind_of_ok (Update.exec_changeClass_of_isClass (left.isClass.trans isClass) _)]
            have joined : Heap.Alike Object.identity w.objects ((w.objects.leave h o.cls).join h cls) :=
              left.trans (.modify _ _ fun _ => Object.identity_mapInstances _ _)
            obtain ⟨p, found, -⟩ := joined.exists_live (v := w)
              (w := { w with objects := (w.objects.leave h o.cls).join h cls }) live
            have sorted : w.isMetaclass cls = o.isClass := by
              cases asked : w.isMetaclass cls <;> simp_all
            exact .inr ⟨o, _, _, rfl, trivial, sorted,
              (Update.exec_bind_of_ok (Update.exec_changeObject_of_live found _) _).trans
              (Interception.exec_forgetOrdersOf h _), remade_reclassed h o.cls cls w.objects, .modify _ _⟩

end Lifecycle

section reclassed

variable {h old new : Handle}

theorem identity_reclassed (k : Handle) (o : Object) : (reclassed h old new k o).identity = o.identity := by
  unfold reclassed
  split <;> split <;> split <;> simp [Object.identity, Object.isClass, Object.mapInstances, Object.mapClass]

theorem cls_reclassed (k : Handle) (o : Object) : (reclassed h old new k o).cls = if k = h then new else o.cls := by
  unfold reclassed
  split <;> split <;> split <;> rfl

theorem instances_reclassed (k : Handle) (o : Object) (part : ClassPart) (cls : o.classPart = some part) :
    ∃ part', (reclassed h old new k o).classPart = some part' ∧ ∀ x, x ∈ part'.instances ↔
      (x ∈ part.instances ∧ ¬(k = old ∧ x = h)) ∨ (k = new ∧ x = h) := by
  unfold reclassed
  split <;> split <;> split <;> simp_all [Object.mapInstances, Object.mapClass] <;> grind

theorem view_reclassed {β : Type v} {view : Object → β}
    (instances : ∀ (f : HandleSet → HandleSet) o, view (o.mapInstances f) = view o)
    (cls : ∀ o, view { o with cls := new } = view o) (k : Handle) (o : Object) : view (reclassed h old new k o) = view o := by
  unfold reclassed
  split <;> split <;> split <;> simp only [instances, cls]

end reclassed

theorem Classed.reclassed {h new : Handle} {o : Object} {v w : World} (classed : Classed v)
    (live : v.live? h = some o) (isClass : v.isClass new = true)
    (remade : Heap.Remade (reclassed h o.cls new) v.objects w.objects) : Classed w := by
  have identity : Heap.Alike Object.identity v.objects w.objects := remade.alike fun k o _ => identity_reclassed k o
  have lives := remade.live? fun k o => congrArg Identity.deleted (identity_reclassed k o)
  have moved : ∀ k p, w.live? k = some p ↔ ∃ q, v.live? k = some q ∧ DynamicObjects.reclassed h o.cls new k q = p := by
    intro k p
    rw [lives]
    exact Option.map_eq_some_iff
  refine ⟨fun k p found => ?_, fun c k => ?_⟩
  · obtain ⟨q, before, rfl⟩ := (moved k p).1 found
    rw [identity.isClass, cls_reclassed]
    split
    · exact isClass
    · exact classed.cls k q before
  · have instances : k ∈ w.instancesOf c ↔ (k ∈ v.instancesOf c ∧ ¬(c = o.cls ∧ k = h)) ∨ (c = new ∧ k = h) := by
      cases cls : v.isClass c with
      | true =>
        obtain ⟨q, part, here, some⟩ := World.isClass_iff.1 cls
        obtain ⟨part', after, members⟩ := @instances_reclassed h o.cls new c q part some
        have one := World.mem_instancesOf_of_live (h := k) ((moved c _).2 ⟨q, here, rfl⟩) after
        rw [one, members, World.mem_instancesOf_of_live here some]
      | false =>
        have outside : c ≠ new := fun same => by simp [same, isClass] at cls
        have before : k ∉ v.instancesOf c := World.not_mem_instancesOf cls
        have after : k ∉ w.instancesOf c := World.not_mem_instancesOf (identity.isClass.trans cls)
        simp [before, after, outside]
    rw [instances, classed.instances]
    constructor
    · rintro (⟨⟨q, before, rfl⟩, stays⟩ | ⟨rfl, rfl⟩)
      · have different : k ≠ h := by
          rintro rfl
          rw [live] at before
          cases before
          exact stays ⟨rfl, rfl⟩
        exact ⟨_, (moved k _).2 ⟨q, before, rfl⟩, by rw [cls_reclassed, if_neg different]⟩
      · exact ⟨_, (moved k _).2 ⟨o, live, rfl⟩, by rw [cls_reclassed, if_pos rfl]⟩
    · rintro ⟨p, found, rfl⟩
      obtain ⟨q, before, rfl⟩ := (moved k p).1 found
      rw [cls_reclassed]
      by_cases same : k = h
      · exact .inr ⟨by rw [if_pos same], same⟩
      · rw [if_neg same]
        exact .inl ⟨⟨q, before, rfl⟩, fun no => same no.2⟩

theorem WellFormed.changeClass {loose : Handle → Prop} {w : World} (well : WellFormed loose w) (h cls : Handle) :
    WellFormed loose ((Lifecycle.changeClass h cls).exec w).2 := by
  rcases Lifecycle.exec_changeClass h cls w with ⟨r, kept⟩ | ⟨o, a, b, live, isClass, -, done, remade, forgets⟩
  · rw [kept]
    exact well
  · rw [done]
    have looks : ∀ {β : Type} {view : Object → β}, (∀ (f : HandleSet → HandleSet) o, view (o.mapInstances f) = view o) →
        (∀ o, view { o with cls } = view o) → (∀ o, view (Object.withoutOrders o) = view o) →
        Heap.Alike view w.objects b :=
      fun instances moved blind => (remade.alike fun k o _ =>
        view_reclassed instances moved k o).trans (forgets.alike blind)
    have ancestry : Heap.Alike Object.ancestry w.objects b :=
      looks Object.ancestry_mapInstances (fun _ => rfl) fun _ => rfl
    have classed : Classed { w with objects := a } := well.classed.reclassed live isClass remade
    exact {
      sound := well.sound.of_layout ancestry.layout
      named := well.named.of_alike ancestry.identity_of_ancestry rfl
      classed := classed.of_alike (forgets.alike fun _ => rfl)
      linked := well.linked.of_ancestry ancestry
      rooted := well.rooted.of_ancestry ancestry rfl
      mixed := fun reach => (well.mixed reach).of_alike <| looks (Object.mixing_mapInstances reach)
        (fun _ => by cases reach <;> rfl) fun _ => by cases reach <;> rfl
      kept := well.kept.of_alike (looks Object.precedence_mapInstances (fun _ => rfl) fun _ => rfl) }

end DynamicObjects
