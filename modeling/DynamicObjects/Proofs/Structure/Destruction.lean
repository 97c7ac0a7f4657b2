import DynamicObjects.Proofs.Structure.Detachment
import DynamicObjects.Proofs.Structure.Unmixing

/-!
# Destruction in well-formed worlds

Unlinking takes an object out of every link in turn: its instances move to a root class, its subclasses are put under a
root class where they need it, and all registrations that name it are dropped. Then it is severed and can go.
-/
namespace DynamicObjects

/-! ## The class part -/

/-- The stages through which the class part of `h` is unlinked. -/
structure Dissolution (loose : Handle → Prop) (h : Handle) (part : ClassPart) (w : World) where
  /-- The class that gets the instances. -/
  new : Handle
  system : ObjectSystem
  vacated : Objects
  childless : Objects
  topless : Objects
  unmixed : Objects
  unshared : Objects
  deserted : Objects
  forgotten : Objects
  listed : system ∈ w.systems
  home : ∀ o, w.live? h = some o → w.systems[o.system]? = some system
  fallback : new = if w.isMetaclass h then system.rootMetaclass else system.rootClass
  cls : w.isClass new = true
  other : new ≠ h
  instances : Heap.Remade (evacuated h new (part.instances.erase h).toList) w.objects vacated
  subs : Detached loose h part.subs { w with objects := vacated } { w with objects := childless }
  reattached : Reattached system h part.subs vacated childless
  supers : Detached loose h [h] { w with objects := childless } { w with objects := topless }
  top : topless.supersOf h = []
  upper : ∀ k, k ≠ h → k ∉ part.supers → topless.get? k = childless.get? k
  objectUsers : Reworked (dropped .object h part.objectUsers) (· ∈ part.objectUsers) topless unmixed
  classUsers : Reworked (dropped .instances h part.classUsers)
    (fun k => ∃ u ∈ part.classUsers, Interception.DependsOn unmixed u k) unmixed unshared
  targets : Heap.Remade (DynamicObjects.deserted .instances h (part.registrations.mixins.map (·.target)))
    unshared deserted
  orders : Forgets (· ∈ Interception.affectedBy
      (Hierarchy.forgetOrders deserted (Hierarchy.dependentSubclasses w.objects h))
      (Hierarchy.dependentSubclasses w.objects h))
    (Hierarchy.forgetOrders deserted (Hierarchy.dependentSubclasses w.objects h)) forgotten

section dissolution

variable {loose : Handle → Prop} {h : Handle} {o : Object} {part : ClassPart} {w : World}

theorem WellFormed.supersOf_of_live (live : w.live? h = some o) (isPart : o.classPart = some part) :
    w.objects.supersOf h = part.supers := by
  rw [Heap.supersOf, Heap.class?, (World.live?_eq_some_iff.1 live).1, Option.bind_some, isPart]
  rfl

theorem WellFormed.subsOf_of_live (live : w.live? h = some o) (isPart : o.classPart = some part) :
    w.objects.subsOf h = part.subs := by
  rw [Heap.subsOf, Heap.class?, (World.live?_eq_some_iff.1 live).1, Option.bind_some, isPart]
  rfl

theorem ancestry_settledIn (new : Handle) (o : Object) : (Lifecycle.settledIn new o).ancestry = o.ancestry := rfl

theorem Linked.not_mem_supersOf (linked : Linked w) (c : Handle) : c ∉ w.objects.supersOf c :=
  fun link => (linked.grounded c).not_strictly (.single link)

theorem exec_unlinkClass (well : WellFormed loose w) (live : w.live? h = some o) (isPart : o.classPart = some part)
    (root : o.isRoot = false) (free : loose h) : ∃ d : Dissolution loose h part w,
      (Lifecycle.unlinkClass h).exec w = (.ok ⟨⟩, { w with
        objects := d.forgotten
        filterUsers := Interception.tracked h part.registrations.filters [] w }) := by
  obtain ⟨s, listed⟩ := well.rooted.system h o live
  unfold Lifecycle.unlinkClass
  rw [Update.exec_bind_of_ok (Update.exec_systemOf_of_live live listed),
    Update.exec_bind_of_ok (WellFormed.exec_defaultSuperclass h s w), Update.exec_bind_of_ok (Update.exec_get w),
    Update.exec_bind_of_ok (Update.exec_classPart_of_live live isPart)]
  obtain ⟨new, isNew⟩ : ∃ new, new = if w.isMetaclass h then s.rootMetaclass else s.rootClass := ⟨_, rfl⟩
  rw [← isNew]
  obtain ⟨t, newLive, newClass, -, newRoot⟩ := well.rooted.exists_top listed (ObjectSystem.isTop_of_eq isNew)
  have cls : w.isClass new = true := by rw [World.isClass, newLive]; exact newClass
  have other : new ≠ h := by
    rintro rfl
    rw [newLive] at live
    cases live
    rw [newRoot] at root
    cases root
  obtain ⟨moved, moves, remade⟩ := Lifecycle.exec_moveInstances (part.instances.erase h).toList cls
  rw [Update.exec_bind_of_ok moves, Update.exec_bind_of_ok (Update.exec_changeObjects _ _)]
  have vacates : Heap.Remade (evacuated h new (part.instances.erase h).toList) w.objects
      (moved.modify h (Object.mapInstances fun _ => .empty)) := by
    refine (remade.trans (.modify moved h _)).congr fun k o _ => ?_
    rfl
  have emptied : (Heap.modifyClass moved h fun c => { c with instances := .empty }) =
      moved.modify h (Object.mapInstances fun _ => .empty) := rfl
  simp only [emptied]
  generalize moved.modify h (Object.mapInstances fun _ => .empty) = a at *
  have ancestry : Heap.Alike Object.ancestry w.objects a := vacates.alike fun k o _ =>
    view_evacuated Object.ancestry_mapInstances (ancestry_settledIn new) k o
  have linked : Linked { w with objects := a } := well.linked.of_ancestry ancestry
  have rooted : Rooted loose { w with objects := a } := well.rooted.of_ancestry ancestry rfl
  obtain ⟨o₁, live₁, looks₁⟩ := ancestry.identity_of_ancestry.exists_live (v := w) (w := { w with objects := a }) live
  have root₁ : o₁.isRoot = false := (Object.isRoot_of_identity looks₁).trans root
  have system₁ : o₁.system = o.system := congrArg Identity.system looks₁
  have below : ∀ c ∈ part.subs, h ∈ a.supersOf c := by
    intro c sub
    rw [ancestry.supersOf_of_ancestry, ← well.linked.mirrored.subs, WellFormed.subsOf_of_live live isPart]
    exact sub
  have nodup : part.subs.Nodup := by
    rw [← WellFormed.subsOf_of_live live isPart]
    exact well.linked.mirrored.nodupSubs h
  obtain ⟨b, detaches, subs, reattached⟩ := exec_detachSubclasses part.subs { w with objects := a } linked rooted live₁
    root₁ (by rw [system₁]; exact listed) below nodup
  rw [Update.exec_bind_of_ok detaches]
  obtain ⟨o₂, live₂, looks₂⟩ := (identity_of_withoutAncestry subs.alike).exists_live live₁
  have above : b.supersOf h = part.supers := by
    have outside : h ∉ part.subs := by
      rw [← WellFormed.subsOf_of_live live isPart, well.linked.mirrored.subs]
      exact well.linked.not_mem_supersOf h
    refine (subs.others h outside).trans ?_
    change a.supersOf h = part.supers
    rw [ancestry.supersOf_of_ancestry, WellFormed.supersOf_of_live live isPart]
  obtain ⟨c, ascends, supers, top, upper⟩ := exec_detachSuperclasses subs.linked subs.rooted live₂
    ((Object.isRoot_of_identity looks₂).trans root₁) free above
  rw [Update.exec_bind_of_ok ascends]
  obtain ⟨d, drops, objectUsers⟩ := exec_dropObjectMixins h part.objectUsers { w with objects := c }
  rw [Update.exec_bind_of_ok drops]
  obtain ⟨e, drops', classUsers⟩ := exec_dropClassMixins h part.classUsers { w with objects := d }
  rw [Update.exec_bind_of_ok drops']
  obtain ⟨f, deserts, targets⟩ := exec_forgetUser .instances h part.registrations.mixins { w with objects := e }
  rw [Update.exec_bind_of_ok deserts, Update.exec_bind_of_ok (Interception.exec_trackFilters _ _ _ _),
    Update.exec_bind_of_ok (Update.exec_changeObjects _ _)]
  obtain ⟨g, forgets, orders⟩ := Interception.exec_forgetAffected (Hierarchy.dependentSubclasses w.objects h)
    { w with
      objects := Hierarchy.forgetOrders f (Hierarchy.dependentSubclasses w.objects h)
      filterUsers := Interception.tracked h part.registrations.filters [] w }
  exact ⟨{
    new := new
    system := s
    vacated := a
    childless := b
    topless := c
    unmixed := d
    unshared := e
    deserted := f
    forgotten := g
    listed := List.mem_of_getElem? listed
    home := fun p found => by
      cases live.symm.trans found
      exact listed
    fallback := isNew
    cls := cls
    other := other
    instances := vacates
    subs := subs
    reattached := reattached
    supers := supers
    top := top
    upper := upper
    objectUsers := objectUsers
    classUsers := classUsers
    targets := targets
    orders := orders }, forgets⟩

/-- The class part of `h` is unlinked; `h` may still be an object that mixes in classes. -/
structure Disbanded (loose : Handle → Prop) (h : Handle) (w : World) : Prop where
  sound : w.objects.Sound
  named : Named w
  vacated : Vacated h w
  linked : Linked w
  supers : w.objects.supersOf h = []
  subs : w.objects.subsOf h = []
  rooted : Rooted (fun k => loose k ∨ k = h) w
  object : Untargeted .object h w
  instances : Unmixed .instances h w
  kept : Hierarchy.OrdersKept w.objects

theorem view_deserted {β : Type v} {view : Object → β} {reach : Reach} {targets : List Handle}
    (blind : ∀ (f : List Handle → List Handle) o, view (o.mapClass (·.mapUsers reach f)) = view o) (k : Handle)
    (o : Object) : view (deserted reach h targets k o) = view o := by
  unfold deserted
  split
  · exact blind _ o
  · rfl

namespace Dissolution

variable (d : Dissolution loose h part w)

theorem topless_alike : Heap.Alike Object.withoutAncestry d.vacated d.topless :=
  d.subs.alike.trans d.supers.alike

theorem unshared_alike {β : Type} {view : Object → β}
    (registered : ∀ reach f o, view (Object.mapRegistrations reach f o) = view o)
    (blind : ∀ o, view (Object.withoutOrders o) = view o) : Heap.Alike view d.topless d.unshared :=
  (d.objectUsers.alike blind (view_dropped (registered .object _))).trans
    (d.classUsers.alike blind (view_dropped (registered .instances _)))

theorem forgotten_alike {β : Type} {view : Object → β} (users : ∀ (f : List Handle → List Handle) o,
      view (o.mapClass (·.mapUsers .instances f)) = view o)
    (orders : ∀ (f : Option (List Handle) → Option (List Handle)) o,
      view (o.mapClass fun c => { c with order := f c.order }) = view o)
    (blind : ∀ o, view (Object.withoutOrders o) = view o) : Heap.Alike view d.unshared d.forgotten := by
  have forgets : Heap.Alike view d.deserted
      (Hierarchy.forgetOrders d.deserted (Hierarchy.dependentSubclasses w.objects h)) :=
    .foldl (fun a c => .modify a c fun o => orders (fun _ => none) o) _ d.deserted
  exact ((d.targets.alike fun k o _ => view_deserted users k o).trans forgets).trans (d.orders.alike blind)

/-! What no link shows is blind to kept orders. -/

theorem ancestry_mapOrder (f : Option (List Handle) → Option (List Handle)) (o : Object) :
    (o.mapClass fun c => { c with order := f c.order }).ancestry = o.ancestry := by
  simp [Object.ancestry, Object.mapClass, Object.identity, Object.isClass, Function.comp_def]

theorem membership_mapOrder (f : Option (List Handle) → Option (List Handle)) (o : Object) :
    (o.mapClass fun c => { c with order := f c.order }).membership = o.membership := by
  simp [Object.membership, Object.mapClass, Object.identity, Object.isClass, Function.comp_def]

theorem mixing_mapOrder (reach : Reach) (f : Option (List Handle) → Option (List Handle)) (o : Object) :
    (o.mapClass fun c => { c with order := f c.order }).mixing reach = o.mixing reach := by
  cases reach <;> simp [Object.mixing, Object.registrations?, Object.mapClass, ClassPart.users, Object.identity,
    Object.isClass, Function.comp_def]

theorem late_ancestry : Heap.Alike Object.ancestry d.topless d.forgotten :=
  (d.unshared_alike Object.ancestry_mapRegistrations fun _ => rfl).trans
    (d.forgotten_alike (Object.ancestry_mapUsers .instances) ancestry_mapOrder fun _ => rfl)

theorem late_membership : Heap.Alike Object.membership d.vacated d.forgotten :=
  (d.topless_alike.comp _ fun o => (Object.membership_withoutAncestry o).symm).trans
    ((d.unshared_alike Object.membership_mapRegistrations fun _ => rfl).trans
      (d.forgotten_alike (Object.membership_mapUsers .instances) membership_mapOrder fun _ => rfl))

theorem early_ancestry : Heap.Alike Object.ancestry w.objects d.vacated :=
  d.instances.alike fun k o _ => view_evacuated Object.ancestry_mapInstances (ancestry_settledIn _) k o

theorem identity : Heap.Alike Object.identity w.objects d.forgotten :=
  d.early_ancestry.identity_of_ancestry.trans d.late_membership.identity_of_membership

/-- Superclasses change for `h` and its subclasses only. -/
theorem supersOf_of_not_mem {c : Handle} (apart : c ∉ part.subs) (other : c ≠ h) :
    d.forgotten.supersOf c = w.objects.supersOf c := by
  have upper := d.supers.others c fun same => other (List.mem_singleton.1 same)
  have lower := d.subs.others c apart
  rw [d.late_ancestry.supersOf_of_ancestry, ← d.early_ancestry.supersOf_of_ancestry]
  exact upper.trans lower

theorem not_mem_supersOf (mirrored : Hierarchy.Mirrored w.objects) (subs : w.objects.subsOf h = part.subs)
    (c : Handle) : h ∉ d.topless.supersOf c := by
  by_cases here : c = h
  · rw [here, d.top]
    exact List.not_mem_nil
  · have upper : d.topless.supersOf c = d.childless.supersOf c :=
      d.supers.others c fun same => here (List.mem_singleton.1 same)
    rw [upper]
    by_cases below : c ∈ part.subs
    · exact d.subs.apart c below
    · have lower : d.childless.supersOf c = d.vacated.supersOf c := d.subs.others c below
      rw [lower, d.early_ancestry.supersOf_of_ancestry, ← mirrored.subs, subs]
      exact below

theorem cachedOrder?_eq (k : Handle) : d.forgotten.cachedOrder? k =
    if k ∈ Hierarchy.dependentSubclasses w.objects h then none else w.objects.cachedOrder? k := by
  have early : Heap.Alike Object.precedence w.objects d.vacated := d.instances.alike fun k o _ =>
    view_evacuated Object.precedence_mapInstances (fun _ => rfl) k o
  have middle : d.topless.cachedOrder? k = d.vacated.cachedOrder? k :=
    (d.supers.orders k).trans (d.subs.orders k)
  have late : Heap.Alike Object.precedence d.topless d.deserted :=
    (d.unshared_alike Object.precedence_mapRegistrations fun _ => rfl).trans
      (d.targets.alike fun k o _ => view_deserted (Object.precedence_mapUsers .instances) k o)
  have forgotten : d.forgotten.cachedOrder? k = (Hierarchy.forgetOrders d.deserted
      (Hierarchy.dependentSubclasses w.objects h)).cachedOrder? k := by
    unfold Heap.cachedOrder?
    rw [d.orders.class?]
  rw [forgotten, Hierarchy.cachedOrder?_forgetOrders, late.cachedOrder?, middle, early.cachedOrder?]

theorem disbanded {tight : Handle → Prop} (well : WellFormed tight w) (live : w.live? h = some o)
    (isPart : o.classPart = some part) (d : Dissolution (fun k => tight k ∨ k = h) h part w) {v : World}
    (objects : v.objects = d.forgotten) (names : v.names = w.names) (systems : v.systems = w.systems) :
    Disbanded tight h v := by
  have subs := WellFormed.subsOf_of_live live isPart
  have identity : Heap.Alike Object.identity w.objects v.objects := objects ▸ d.identity
  have ancestry : Heap.Alike Object.ancestry d.topless v.objects := objects ▸ d.late_ancestry
  have linked : Linked { w with objects := d.topless } := d.supers.linked
  have apart := d.not_mem_supersOf well.linked.mirrored subs
  have toTopless : ∀ reach, Heap.Alike (Object.mixing reach) w.objects d.topless := fun reach =>
    (d.instances.alike fun k o _ => view_evacuated (Object.mixing_mapInstances reach)
      (fun o => by cases reach <;> rfl) k o).trans
      (d.topless_alike.comp _ fun o => (Object.mixing_withoutAncestry reach o).symm)
  exact {
    sound := well.sound.of_layout identity.layout
    named := well.named.of_alike identity names
    vacated := (well.classed.evacuated (w := { w with objects := d.vacated }) live isPart d.cls d.other
      d.instances).of_alike (objects ▸ d.late_membership)
    linked := linked.of_ancestry ancestry
    supers := by rw [ancestry.supersOf_of_ancestry, d.top]
    subs := by
      rw [ancestry.subsOf]
      exact List.eq_nil_iff_forall_not_mem.2 fun c sub => apart c ((linked.mirrored.subs c h).1 sub)
    rooted := d.supers.rooted.of_ancestry ancestry systems
    object := by
      have mixed : Mixed .object { w with objects := d.topless } := (well.mixed .object).of_alike (toTopless .object)
      have untargeted : Untargeted .object h { w with objects := d.unmixed } :=
        mixed.untargeted d.objectUsers fun u user => by
          rw [Heap.Alike.usersOf (v := w) (toTopless .object)] at user
          exact (WellFormed.mem_usersOf_of_live live isPart).1 user
      refine untargeted.of_alike (objects ▸ Heap.Alike.trans ?_ (d.forgotten_alike (fun f o =>
        Object.mixing_mapUsers .instances f o nofun) (mixing_mapOrder .object) fun _ => rfl))
      exact d.classUsers.alike (fun _ => rfl) (view_dropped fun o => Object.mixing_mapRegistrations .instances _ o nofun)
    instances := by
      have early := (toTopless .instances).trans (d.objectUsers.alike (fun _ => rfl)
        (view_dropped fun o => Object.mixing_mapRegistrations .object _ o nofun))
      have mixed : Mixed .instances { w with objects := d.unmixed } := (well.mixed .instances).of_alike early
      have complete : ∀ u, u ∈ World.usersOf { w with objects := d.unmixed } .instances h → u ∈ part.classUsers := by
        intro u user
        rw [Heap.Alike.usersOf (v := w) early] at user
        exact (WellFormed.mem_usersOf_of_live live isPart).1 user
      have untargeted : Untargeted .instances h { w with objects := d.unshared } :=
        mixed.untargeted d.classUsers complete
      have unmixed : Unmixed .instances h { w with objects := d.deserted } := by
        refine untargeted.unmixed d.targets fun c target => ?_
        have before := ((targetsOf_dropped (v := { w with objects := d.unmixed }) d.classUsers fun u member =>
          complete u ((mixed.users h u).2 member)).1 target).1
        rw [Heap.Alike.targetsOf (v := w) early] at before
        simpa [World.targetsOf, World.mixinsOf, World.registrations?, live, Object.registrations?, isPart] using before
      refine unmixed.of_alike (objects ▸ Heap.Alike.trans ?_ (d.orders.alike fun _ => rfl))
      exact .foldl (fun a c => .modify a c fun o => mixing_mapOrder .instances (fun _ => none) o) _ d.deserted
    kept := by
      refine well.kept.of_forgotten (· ∈ Hierarchy.dependentSubclasses w.objects h) (fun c s link inside => ?_)
        (fun c inside => ?_) (fun c outside => ?_) (fun c outside => ?_) fun c cls => ?_
      · exact Hierarchy.mem_dependentSubclasses.2 ((Hierarchy.mem_dependentSubclasses.1 inside).tail
          (Hierarchy.mem_dependentsOf_of_mem_subsOf ((well.linked.mirrored.subs c s).2 link)))
      · rw [objects, d.cachedOrder?_eq, if_pos inside]
      · rw [objects]
        refine d.supersOf_of_not_mem (fun below => outside ?_) fun same => outside (same ▸
          Hierarchy.mem_dependentSubclasses.2 .refl)
        exact Hierarchy.mem_dependentSubclasses.2 (.single (Hierarchy.mem_dependentsOf_of_mem_subsOf (subs ▸ below)))
      · rw [objects, d.cachedOrder?_eq, if_neg outside]
      · rwa [identity.isSome_class?_of_identity] at cls }

end Dissolution

end dissolution

/-! ## The object -/

namespace Lifecycle

/-- The last part of unlinking: the object goes with its name, its mixins and its place in its class. -/
def retire (h : Handle) : Update Unit := do
  let o ← Update.object h
  modify fun w => { w with
    names := if w.names.get? o.name = some h then w.names.erase o.name else w.names
    registry := w.registry.filter fun _ r => r.owner ≠ some h }
  forgetUser .object h o.registrations.mixins
  Interception.trackFilters h o.registrations.filters []
  Update.changeObjects (·.modifyClass o.cls fun c => { c with instances := c.instances.erase h })
  Update.changeObject h fun o => { o.withoutOrders with deleted := true }
  if o.holders = 0 then Update.changeObjects (·.release h)

theorem unlink_eq (h : Handle) : unlink h = (do
    Update.changeObject h ({ · with duringDelete := true })
    if (← get).isClass h then unlinkClass h
    retire h) := rfl

/-- An object that is gone but for the frames that hold it. -/
def buried (o : Object) : Object :=
  { o.withoutOrders with deleted := true }

/-- The heap once an object is retired. -/
def retired (objects : Objects) (h : Handle) (o : Object) : Objects :=
  if o.holders = 0 then ((objects.leave h o.cls).modify h buried).release h
  else (objects.leave h o.cls).modify h buried

theorem departs_retired {objects : Objects} {h : Handle} (o : Object) :
    Departs h (objects.leave h o.cls) (retired objects h o) := by
  have buries : ∀ k, k ≠ h → ((objects.leave h o.cls).modify h buried).get? k = (objects.leave h o.cls).get? k :=
    fun k other => by rw [Heap.get?_modify, if_neg other]
  unfold retired
  split
  · refine ⟨fun k other => by rw [Heap.get?_release, if_neg other, buries k other], fun p found => ?_⟩
    rw [Heap.get?_release, if_pos rfl] at found
    cases found
  · refine ⟨buries, fun p found => ?_⟩
    rw [Heap.get?_modify, if_pos rfl] at found
    obtain ⟨q, here, rfl⟩ := Option.map_eq_some_iff.1 found
    refine ⟨rfl, ?_⟩
    rw [Heap.class?, here]
    rfl

theorem sound_retired {objects : Objects} (sound : objects.Sound) (h : Handle) (o : Object) :
    (retired objects h o).Sound := by
  have kept : ((objects.leave h o.cls).modify h buried).Sound :=
    sound.of_layout ((Heap.layout_modify _ _ _).trans (Heap.layout_modify _ _ _))
  unfold retired
  split
  · exact kept.release h
  · exact kept

theorem exec_retire {h : Handle} {o : Object} {w : World} (live : w.live? h = some o)
    (named : w.names.get? o.name = some h) :
    ∃ b, Heap.Remade (deserted .object h (o.registrations.mixins.map (·.target))) w.objects b ∧
      (retire h).exec w = (.ok ⟨⟩, { w with
        objects := retired b h o
        names := w.names.erase o.name
        registry := w.registry.filter fun _ r => r.owner ≠ some h
        filterUsers := Interception.tracked h o.registrations.filters [] w }) := by
  obtain ⟨b, deserts, remade⟩ := exec_forgetUser .object h o.registrations.mixins { w with
    names := w.names.erase o.name
    registry := w.registry.filter fun _ r => r.owner ≠ some h }
  refine ⟨b, remade, ?_⟩
  have identity : Heap.Alike Object.identity w.objects (b.leave h o.cls) :=
    (remade.alike fun k o _ => identity_deserted k o).trans (.modify _ _ fun o => Object.identity_mapInstances _ o)
  let v : World := { w with
    objects := b.leave h o.cls
    names := w.names.erase o.name
    registry := w.registry.filter fun _ r => r.owner ≠ some h
    filterUsers := Interception.tracked h o.registrations.filters [] w }
  obtain ⟨p, there, -⟩ := identity.exists_live (v := w) (w := v) live
  have burial : (Update.changeObject h buried).exec v =
      (.ok ⟨⟩, { v with objects := (b.leave h o.cls).modify h buried }) :=
    Update.exec_changeObject_of_live there buried
  unfold retire
  rw [Update.exec_bind_of_ok (Update.exec_object_of_live live), Update.exec_bind_of_ok (Update.exec_modify _ _),
    if_pos named, Update.exec_bind_of_ok deserts, Update.exec_bind_of_ok (Interception.exec_trackFilters _ _ _ _),
    Update.exec_bind_of_ok (Update.exec_changeObjects _ _)]
  refine (Update.exec_bind_of_ok burial _).trans ?_
  unfold retired
  by_cases free : o.holders = 0
  · rw [if_pos free, if_pos free]
    rfl
  · rw [if_neg free, if_neg free]
    rfl

end Lifecycle

section unlink

variable {loose : Handle → Prop} {h : Handle} {o : Object} {w : World}

/-- What is no class takes part in no class links. -/
theorem WellFormed.disbanded (well : WellFormed loose w) (other : w.isClass h = false) (live : w.live? h = some o) :
    Disbanded loose h w := by
  have noPart : o.classPart = none := by
    cases isPart : o.classPart with
    | none => rfl
    | some part => exact absurd (World.isClass_iff.2 ⟨o, part, live, isPart⟩) (by simp [other])
  have none : w.objects.class? h = none := by
    rw [Heap.class?, (World.live?_eq_some_iff.1 live).1, Option.bind_some, noPart]
  have users : ∀ reach, w.usersOf reach h = [] := fun reach => usersOf_of_not_isClass other
  exact {
    sound := well.sound
    named := well.named
    vacated := well.classed.vacated fun k member => absurd member (World.not_mem_instancesOf other)
    linked := well.linked
    supers := Heap.supersOf_eq_nil none
    subs := Heap.subsOf_eq_nil none
    rooted := (well.mono fun k => Or.inl).rooted
    object := by
      refine ⟨fun u c member => ⟨(well.mixed .object).target u c member, fun same => ?_⟩,
        fun c u _ => (well.mixed .object).users c u, (well.mixed .object).nodup⟩
      have cls := (well.mixed .object).target u c member
      rw [same, other] at cls
      cases cls
    instances := (well.mixed .instances).unmixed (users .instances) (by
      simp [World.targetsOf, World.mixinsOf, World.registrations?, live, Object.registrations?, noPart])
    kept := well.kept }

/-- A disbanded object can retire. -/
theorem Disbanded.retire (disbanded : Disbanded loose h w) (live : w.live? h = some o) (root : o.isRoot = false) :
    ∃ v, (Lifecycle.retire h).exec w = (.ok ⟨⟩, v) ∧ WellFormed loose v := by
  obtain ⟨b, remade, done⟩ :=
    Lifecycle.exec_retire live ((disbanded.named.name o.name h).2 ⟨o, live, rfl⟩)
  refine ⟨_, done, ?_⟩
  have looks : ∀ {β : Type} {view : Object → β},
      (∀ (f : List Handle → List Handle) o, view (o.mapClass (·.mapUsers .object f)) = view o) →
      Heap.Alike view w.objects b := fun blind => remade.alike fun k o _ => view_deserted blind k o
  have ancestry := looks (Object.ancestry_mapUsers .object)
  have membership := looks (Object.membership_mapUsers .object)
  let u : World := { w with objects := b }
  obtain ⟨p, there, same⟩ := membership.exists_of_live? (v := w) (w := u)
    (fun _ _ same => congrArg (·.1.deleted) same) live
  have identity : p.identity = o.identity := congrArg Prod.fst same
  have cls : p.cls = o.cls := congrArg (·.2.1) same
  have name : p.name = o.name := congrArg Identity.name identity
  have severed : Severed loose h u := {
    sound := disbanded.sound.of_layout remade.layout
    named := disbanded.named.of_alike ancestry.identity_of_ancestry rfl
    vacated := disbanded.vacated.of_alike membership
    linked := disbanded.linked.of_ancestry ancestry
    supers := by rw [ancestry.supersOf_of_ancestry, disbanded.supers]
    subs := by rw [ancestry.subsOf, disbanded.subs]
    rooted := disbanded.rooted.of_ancestry ancestry rfl
    unmixed := fun reach => by
      cases reach with
      | object =>
        refine disbanded.object.unmixed remade fun c member => ?_
        simpa [World.targetsOf, World.mixinsOf, World.registrations?, live, Object.registrations?] using member
      | instances =>
        exact disbanded.instances.of_alike (looks fun f o => Object.mixing_mapUsers .object f o Reach.noConfusion)
    kept := disbanded.kept.of_alike (looks (Object.precedence_mapUsers .object)) }
  refine severed.depart there ((Object.isRoot_of_identity identity).trans root) ?_
    (Lifecycle.sound_retired severed.sound h o) (by rw [name]) rfl
  rw [cls]
  exact Lifecycle.departs_retired o

/-- The world once the class part of an object, if it has one, is unlinked. -/
def Disbands (loose : Handle → Prop) (h : Handle) (o : Object) (v w : World) : Prop :=
  (o.classPart = none ∧ w = v) ∨
    ∃ part, o.classPart = some part ∧ ∃ d : Dissolution (fun k => loose k ∨ k = h) h part v,
      w = { v with
        objects := d.forgotten
        filterUsers := Interception.tracked h part.registrations.filters [] v }

theorem Disbands.identity {v : World} (disbands : Disbands loose h o v w) :
    Heap.Alike Object.identity v.objects w.objects := by
  rcases disbands with ⟨-, rfl⟩ | ⟨part, -, d, rfl⟩
  · exact .refl _
  · exact d.identity

theorem Disbands.disbanded {v : World} (disbands : Disbands loose h o v w) (well : WellFormed loose v)
    (live : v.live? h = some o) : Disbanded loose h w := by
  rcases disbands with ⟨noPart, rfl⟩ | ⟨part, isPart, d, rfl⟩
  · refine well.disbanded ?_ live
    simp [World.isClass, live, Object.isClass, noPart]
  · exact d.disbanded well live isPart rfl rfl rfl

/-- An object is marked, its class part is unlinked, and it retires. -/
theorem WellFormed.exec_unlink (well : WellFormed loose w) (live : w.live? h = some o) (root : o.isRoot = false) :
    ∃ u t, u = { w with objects := w.objects.modify h fun o => { o with duringDelete := true } } ∧
      WellFormed loose u ∧ u.live? h = some { o with duringDelete := true } ∧
      Disbands loose h { o with duringDelete := true } u t ∧
      (Lifecycle.unlink h).exec w = (Lifecycle.retire h).exec t := by
  obtain ⟨u, change⟩ : ∃ u, u = { w with
    objects := w.objects.modify h fun o => { o with duringDelete := true } } := ⟨_, rfl⟩
  have changed : (Update.changeObject h fun o => { o with duringDelete := true }).exec w = (.ok ⟨⟩, u) :=
    change ▸ Update.exec_changeObject_of_live live _
  have here : u.live? h = some { o with duringDelete := true } := by
    rw [change, World.live?, Heap.get?_modify, if_pos rfl, (World.live?_eq_some_iff.1 live).1]
    exact Option.filter_some_pos (by simpa using (World.live?_eq_some_iff.1 live).2)
  have well' : WellFormed loose u := by
    subst change
    exact well.of_alike (.modify _ _ fun _ => rfl) (.modify _ _ fun _ => rfl) rfl rfl
  obtain ⟨t, disbands, done⟩ : ∃ t, Disbands loose h { o with duringDelete := true } u t ∧
      ∀ rest : Update Unit, (if u.isClass h then do Lifecycle.unlinkClass h; rest else rest).exec u = rest.exec t := by
    rcases Option.eq_none_or_eq_some o.classPart with isPart | ⟨part, isPart⟩
    · have other : u.isClass h = false := by simp [World.isClass, here, Object.isClass, isPart]
      refine ⟨u, .inl ⟨isPart, rfl⟩, fun rest => ?_⟩
      rw [other]
      rfl
    · have cls : u.isClass h = true := World.isClass_iff.2 ⟨_, part, here, isPart⟩
      have wide : WellFormed (fun k => loose k ∨ k = h) u := well'.mono fun k => Or.inl
      obtain ⟨d, unlinks⟩ := exec_unlinkClass wide here isPart root (.inr rfl)
      have step := fun rest : Update Unit => Update.exec_bind_of_ok unlinks fun _ => rest
      exact ⟨_, .inr ⟨part, isPart, d, rfl⟩, fun rest => (congrArg (Update.exec · u) (if_pos cls)).trans (step rest)⟩
  refine ⟨u, t, change, well', here, disbands, ?_⟩
  rw [Lifecycle.unlink_eq, Update.exec_bind_of_ok changed, Update.exec_bind_of_ok (Update.exec_get u)]
  exact done _

theorem Disbands.exists_live {v : World} (disbands : Disbands loose h o v w) (live : v.live? h = some o) :
    ∃ p, w.live? h = some p ∧ p.isRoot = o.isRoot := by
  obtain ⟨p, there, looks⟩ := disbands.identity.exists_live live
  exact ⟨p, there, Object.isRoot_of_identity looks⟩

/-- Unlinking an object that is no root keeps a world well-formed. -/
theorem WellFormed.unlink (well : WellFormed loose w) (live : w.live? h = some o) (root : o.isRoot = false) :
    WellFormed loose ((Lifecycle.unlink h).exec w).2 := by
  obtain ⟨u, t, -, well', here, disbands, done⟩ := well.exec_unlink live root
  obtain ⟨p, there, same⟩ := disbands.exists_live here
  obtain ⟨v, retires, kept⟩ := (disbands.disbanded well' here).retire there (same.trans root)
  rw [done, retires]
  exact kept

end unlink

end DynamicObjects
