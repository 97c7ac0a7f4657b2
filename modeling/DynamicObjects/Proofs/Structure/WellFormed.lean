import DynamicObjects.Proofs.Hierarchy.Links
import DynamicObjects.Proofs.Updates

/-!
# Well-formed worlds

What holds of the objects of a world and of the tables beside them whenever no operation is under way: each kind of
link is kept at both ends, links lead to live classes, and the superclass links lead up to the root classes without
cycles. Every part depends on a view of the objects, and holds as long as that view stays the same.
-/
namespace DynamicObjects

/-- What an object is, its links apart. -/
structure Identity where
  name : String
  system : Nat
  isRootClass : Bool
  isRootMetaclass : Bool
  deleted : Bool
  isClass : Bool

namespace Object

def identity (o : Object) : Identity where
  name := o.name
  system := o.system
  isRootClass := o.isRootClass
  isRootMetaclass := o.isRootMetaclass
  deleted := o.deleted
  isClass := o.isClass

/-- What is registered on an object for itself, or for its instances if it is a class. -/
def registrations? (o : Object) : Reach → Option Registrations
  | .object => some o.registrations
  | .instances => o.classPart.map (·.registrations)

/-- The superclass links at an object. -/
def ancestry (o : Object) : Identity × Option (List Handle × List Handle) :=
  (o.identity, o.classPart.map fun c => (c.supers, c.subs))

/-- The instance links at an object. -/
def membership (o : Object) : Identity × Handle × Option HandleSet :=
  (o.identity, o.cls, o.classPart.map (·.instances))

/-- The mixin links at an object. -/
def mixing (reach : Reach) (o : Object) : Identity × Option (List Handle) × Option (List Handle) :=
  (o.identity, (o.registrations? reach).map (·.mixins.map (·.target)), o.classPart.map (·.users reach))

/-- What the precedence orders depend on, and the order that is kept. -/
def precedence (o : Object) : Option (List Handle × Option (List Handle)) :=
  o.classPart.map fun c => (c.supers, c.order)

/-- All links at an object. -/
def links (o : Object) :=
  (o.ancestry, o.membership, fun reach => o.mixing reach)

/-- Changes the class part of an object, if it has one. -/
def mapClass (f : ClassPart → ClassPart) (o : Object) : Object :=
  { o with classPart := o.classPart.map f }

@[simp] theorem isClass_mapClass (f : ClassPart → ClassPart) (o : Object) : (o.mapClass f).isClass = o.isClass := by
  simp [mapClass, isClass]

@[simp] theorem identity_mapClass (f : ClassPart → ClassPart) (o : Object) : (o.mapClass f).identity = o.identity := by
  simp only [identity, isClass_mapClass]
  rfl

theorem isRoot_of_identity {o p : Object} (looks : p.identity = o.identity) : p.isRoot = o.isRoot := by
  have flag : p.isRootClass = o.isRootClass := congrArg Identity.isRootClass looks
  have flag' : p.isRootMetaclass = o.isRootMetaclass := congrArg Identity.isRootMetaclass looks
  rw [isRoot, isRoot, flag, flag']

end Object

namespace World

/-- The class part of a live class. -/
def classPart? (w : World) (h : Handle) : Option ClassPart :=
  (w.live? h).bind (·.classPart)

def instancesOf (w : World) (c : Handle) : HandleSet :=
  ((w.classPart? c).map (·.instances)).getD .empty

/-- The objects or classes entered as users of a mixin class. -/
def usersOf (w : World) (reach : Reach) (c : Handle) : List Handle :=
  ((w.classPart? c).map (·.users reach)).getD []

/-- What is registered on a live object or class. -/
def registrations? (w : World) (reach : Reach) (h : Handle) : Option Registrations :=
  (w.live? h).bind (·.registrations? reach)

/-- The mixins registered on an object or class. -/
def mixinsOf (w : World) (reach : Reach) (h : Handle) : List Mixin :=
  ((w.registrations? reach h).map (·.mixins)).getD []

/-- The classes an object or class mixes in. -/
def targetsOf (w : World) (reach : Reach) (h : Handle) : List Handle :=
  (w.mixinsOf reach h).map (·.target)

theorem mem_instancesOf {w : World} {c h : Handle} :
    h ∈ w.instancesOf c ↔ ∃ o part, w.live? c = some o ∧ o.classPart = some part ∧ h ∈ part.instances := by
  have empty : h ∉ HandleSet.empty := List.not_mem_nil
  unfold instancesOf classPart?
  cases w.live? c with
  | none => simpa using empty
  | some o => cases cls : o.classPart <;> simp [cls, empty]

theorem mem_instancesOf_of_live {w : World} {c h : Handle} {o : Object} {part : ClassPart} (live : w.live? c = some o)
    (cls : o.classPart = some part) : h ∈ w.instancesOf c ↔ h ∈ part.instances := by
  rw [mem_instancesOf]
  simp [live, cls]

theorem not_mem_instancesOf {w : World} {c h : Handle} (other : w.isClass c = false) : h ∉ w.instancesOf c := by
  intro member
  obtain ⟨o, part, live, cls, -⟩ := mem_instancesOf.1 member
  exact absurd (isClass_iff.2 ⟨o, part, live, cls⟩) (by simp [other])

end World

/-- The table of names lists the live objects. -/
structure Named (w : World) : Prop where
  name : ∀ n h, w.names.get? n = some h ↔ ∃ o, w.live? h = some o ∧ o.name = n

/-- Every live object is entered at its class, which is live. -/
structure Classed (w : World) : Prop where
  cls : ∀ h o, w.live? h = some o → w.isClass o.cls = true
  instances : ∀ c h, h ∈ w.instancesOf c ↔ ∃ o, w.live? h = some o ∧ o.cls = c

/-- Superclass links are kept at both ends, stay inside one system and have no cycles. -/
structure Linked (w : World) : Prop where
  mirrored : Hierarchy.Mirrored w.objects
  live : ∀ c s, s ∈ w.objects.supersOf c →
    ∃ o p, w.live? c = some o ∧ w.live? s = some p ∧ p.system = o.system
  grounded : ∀ c, Hierarchy.Grounded w.objects.supersOf c

/-- The root classes of every system are where they should be. Only they and the classes in `loose` are at the top. -/
structure Rooted (loose : Handle → Prop) (w : World) : Prop where
  system : ∀ h o, w.live? h = some o → ∃ s, w.systems[o.system]? = some s
  root : ∀ i s, w.systems[i]? = some s → ∃ o, w.live? s.rootClass = some o ∧ o.isClass = true ∧
    o.isRootClass = true ∧ o.system = i ∧ w.objects.supersOf s.rootClass = []
  metaclass : ∀ i s, w.systems[i]? = some s → ∃ o, w.live? s.rootMetaclass = some o ∧ o.isClass = true ∧
    o.isRootMetaclass = true ∧ o.system = i ∧ w.objects.supersOf s.rootMetaclass = [s.rootClass]
  rootOnly : ∀ h o s, w.live? h = some o → w.systems[o.system]? = some s → o.isRootClass = true → h = s.rootClass
  metaclassOnly : ∀ h o s, w.live? h = some o → w.systems[o.system]? = some s → o.isRootMetaclass = true →
    h = s.rootMetaclass
  top : ∀ h o, w.live? h = some o → o.isClass = true → w.objects.supersOf h = [] → ¬loose h → o.isRootClass = true

/-- Mixin classes are live and know who mixes them in. -/
structure Mixed (reach : Reach) (w : World) : Prop where
  target : ∀ u c, c ∈ w.targetsOf reach u → w.isClass c = true
  users : ∀ c u, u ∈ w.usersOf reach c ↔ c ∈ w.targetsOf reach u
  nodup : ∀ c, (w.usersOf reach c).Nodup

structure WellFormed (loose : Handle → Prop) (w : World) : Prop where
  sound : w.objects.Sound
  named : Named w
  classed : Classed w
  linked : Linked w
  rooted : Rooted loose w
  mixed : ∀ reach, Mixed reach w
  kept : Hierarchy.OrdersKept w.objects

/-! ## What the parts depend on -/

theorem Heap.Remade.live? {change : Handle → Object → Object} {v w : World}
    (remade : Heap.Remade change v.objects w.objects) (keeps : ∀ h o, (change h o).deleted = o.deleted) (h : Handle) :
    w.live? h = (v.live? h).map (change h) := by
  unfold World.live?
  rw [remade.get?]
  cases v.objects.get? h with
  | none => rfl
  | some o => cases gone : o.deleted <;> simp [Option.filter, keeps, gone]

namespace Heap.Alike

variable {β : Type v} {view : Object → β} {v w : World} {h : Handle}

theorem live? (alike : Alike view v.objects w.objects) (sees : ∀ x y, view x = view y → x.deleted = y.deleted) :
    (w.live? h).map view = (v.live? h).map view := by
  have same := alike.view h
  unfold World.live?
  cases before : v.objects.get? h with
  | none =>
    rw [before] at same
    rw [Option.map_eq_none_iff.1 same]
  | some x =>
    rw [before] at same
    obtain ⟨y, after, looks⟩ := Option.map_eq_some_iff.1 same
    rw [after]
    have deleted := sees y x looks
    cases gone : x.deleted <;> simp [Option.filter, deleted, gone, looks]

theorem exists_of_live? (alike : Alike view v.objects w.objects)
    (sees : ∀ x y, view x = view y → x.deleted = y.deleted) {o : Object} (live : v.live? h = some o) :
    ∃ p, w.live? h = some p ∧ view p = view o := by
  have same := alike.live? (h := h) sees
  rw [live] at same
  exact Option.map_eq_some_iff.1 same

theorem registrations? {reach : Reach}
    (alike : Alike (fun o => (o.deleted, o.registrations? reach)) v.objects w.objects) :
    w.registrations? reach h = v.registrations? reach h := by
  have same := congrArg (·.bind Prod.snd) (alike.live? (h := h) fun _ _ same => congrArg Prod.fst same)
  simpa only [Option.bind_map, Function.comp_def, World.registrations?] using same

theorem modifyClass (a : Objects) (h : Handle) {f : ClassPart → ClassPart}
    (keeps : ∀ o : Object, view (o.mapClass f) = view o) : Alike view a (a.modifyClass h f) :=
  .modify a h keeps

theorem identity_of_ancestry {a b : Objects} (alike : Alike Object.ancestry a b) : Alike Object.identity a b :=
  alike.comp Prod.fst fun _ => rfl

theorem identity_of_membership {a b : Objects} (alike : Alike Object.membership a b) : Alike Object.identity a b :=
  alike.comp Prod.fst fun _ => rfl

theorem identity_of_mixing {reach : Reach} {a b : Objects} (alike : Alike (Object.mixing reach) a b) :
    Alike Object.identity a b :=
  alike.comp Prod.fst fun _ => rfl

theorem live?_identity (alike : Alike Object.identity v.objects w.objects) :
    (w.live? h).map Object.identity = (v.live? h).map Object.identity :=
  alike.live? fun _ _ same => congrArg Identity.deleted same

theorem exists_live (alike : Alike Object.identity v.objects w.objects) {o : Object} (live : v.live? h = some o) :
    ∃ p, w.live? h = some p ∧ p.identity = o.identity :=
  alike.exists_of_live? (fun _ _ same => congrArg Identity.deleted same) live

theorem isClass (alike : Alike Object.identity v.objects w.objects) : w.isClass h = v.isClass h := by
  have same := congrArg (Option.any Identity.isClass) (alike.live?_identity (h := h))
  simpa only [Option.any_map, World.isClass, Function.comp_def, Object.identity] using same

theorem subsOf {a b : Objects} (alike : Alike Object.ancestry a b) : b.subsOf = a.subsOf := by
  funext h
  have same := congrArg (fun o => ((o.bind fun p => p.2).map Prod.snd).getD []) (alike.view h)
  simpa only [Option.bind_map, Object.ancestry, Function.comp_def, Option.map_bind, Option.map_map, Heap.subsOf,
    Heap.class?] using same

theorem supersOf_of_ancestry {a b : Objects} (alike : Alike Object.ancestry a b) : b.supersOf = a.supersOf := by
  funext h
  have same := congrArg (fun o => ((o.bind fun p => p.2).map Prod.fst).getD []) (alike.view h)
  simpa only [Option.bind_map, Object.ancestry, Function.comp_def, Option.map_bind, Option.map_map, Heap.supersOf,
    Heap.class?] using same

theorem instancesOf (alike : Alike Object.membership v.objects w.objects) (c : Handle) :
    w.instancesOf c = v.instancesOf c := by
  have same := congrArg (fun o => (o.bind fun p => p.2.2).getD .empty)
    (alike.live? (h := c) fun _ _ same => congrArg (·.1.deleted) same)
  simpa only [Option.bind_map, Object.membership, Function.comp_def, World.instancesOf, World.classPart?,
    Option.map_bind] using same

theorem usersOf {reach : Reach} (alike : Alike (Object.mixing reach) v.objects w.objects) (c : Handle) :
    w.usersOf reach c = v.usersOf reach c := by
  have same := congrArg (fun o => (o.bind fun p => p.2.2).getD [])
    (alike.live? (h := c) fun _ _ same => congrArg (·.1.deleted) same)
  simpa only [Option.bind_map, Object.mixing, Function.comp_def, World.usersOf, World.classPart?,
    Option.map_bind] using same

theorem targetsOf {reach : Reach} (alike : Alike (Object.mixing reach) v.objects w.objects) (h : Handle) :
    w.targetsOf reach h = v.targetsOf reach h := by
  have same := congrArg (fun o => (o.bind fun p => p.2.1).getD [])
    (alike.live? (h := h) fun _ _ same => congrArg (·.1.deleted) same)
  simp only [Option.bind_map, Object.mixing, Function.comp_def] at same
  have unfolded : ∀ u : World, u.targetsOf reach h =
      ((u.live? h).bind fun o => (o.registrations? reach).map (·.mixins.map (·.target))).getD [] := by
    intro u
    unfold World.targetsOf World.mixinsOf World.registrations?
    cases u.live? h with
    | none => rfl
    | some o => cases found : o.registrations? reach <;> simp [found]
  rw [unfolded, unfolded, same]

theorem class?_precedence {a b : Objects} (alike : Alike Object.precedence a b) (h : Handle) :
    (b.class? h).map (fun c => (c.supers, c.order)) = (a.class? h).map fun c => (c.supers, c.order) := by
  have same := congrArg (·.bind id) (alike.view h)
  simpa only [Option.bind_map, Object.precedence, Function.comp_def, id, Option.map_bind, Heap.class?] using same

theorem cachedOrder? {a b : Objects} (alike : Alike Object.precedence a b) (h : Handle) :
    b.cachedOrder? h = a.cachedOrder? h := by
  have same := congrArg (·.bind Prod.snd) (alike.class?_precedence h)
  simpa only [Option.bind_map, Function.comp_def, Heap.cachedOrder?] using same

theorem isSome_class?_of_identity {a b : Objects} (alike : Alike Object.identity a b) (h : Handle) :
    (b.class? h).isSome = (a.class? h).isSome := by
  have same := congrArg (Option.any Identity.isClass) (alike.view h)
  have unfolded : ∀ objects : Objects, (objects.class? h).isSome = (objects.get? h).any (·.isClass) := by
    intro objects
    unfold Heap.class?
    cases objects.get? h <;> rfl
  rw [unfolded, unfolded]
  simpa only [Option.any_map, Function.comp_def, Object.identity] using same

end Heap.Alike

section transport

variable {v w : World} {loose : Handle → Prop}

theorem Named.of_alike (named : Named v) (alike : Heap.Alike Object.identity v.objects w.objects)
    (names : w.names = v.names) : Named w := by
  refine ⟨fun n h => ?_⟩
  have same := congrArg (Option.map Identity.name) (alike.live?_identity (h := h))
  simp only [Option.map_map, Function.comp_def, Object.identity] at same
  have iff : ∀ u : World, (∃ o, u.live? h = some o ∧ o.name = n) ↔ (u.live? h).map (fun o => o.name) = some n :=
    fun u => Option.map_eq_some_iff.symm
  rw [names, named.name, iff, iff, same]

theorem Classed.of_alike (classed : Classed v) (alike : Heap.Alike Object.membership v.objects w.objects) :
    Classed w := by
  have sees : ∀ x y : Object, x.membership = y.membership → x.deleted = y.deleted :=
    fun _ _ same => congrArg (·.1.deleted) same
  refine ⟨fun h o live => ?_, fun c h => ?_⟩
  · obtain ⟨p, before, looks⟩ := alike.symm.exists_of_live? sees live
    have same : p.cls = o.cls := congrArg (·.2.1) looks
    rw [alike.identity_of_membership.isClass, ← same]
    exact classed.cls h p before
  · rw [alike.instancesOf, classed.instances]
    constructor
    · rintro ⟨o, live, rfl⟩
      obtain ⟨p, after, looks⟩ := alike.exists_of_live? sees live
      exact ⟨p, after, congrArg (·.2.1) looks⟩
    · rintro ⟨o, live, rfl⟩
      obtain ⟨p, before, looks⟩ := alike.symm.exists_of_live? sees live
      exact ⟨p, before, congrArg (·.2.1) looks⟩

theorem Linked.of_alike (linked : Linked v) (alike : Heap.Alike Object.identity v.objects w.objects)
    (supers : w.objects.supersOf = v.objects.supersOf) (mirrored : Hierarchy.Mirrored w.objects) : Linked w := by
  refine ⟨mirrored, fun c s link => ?_, ?_⟩
  · rw [supers] at link
    obtain ⟨o, p, first, second, systems⟩ := linked.live c s link
    obtain ⟨o', after, looks⟩ := alike.exists_live first
    obtain ⟨p', after', looks'⟩ := alike.exists_live second
    refine ⟨o', p', after, after', ?_⟩
    have one : o'.system = o.system := congrArg Identity.system looks
    have other : p'.system = p.system := congrArg Identity.system looks'
    rw [one, other, systems]
  · rw [supers]
    exact linked.grounded

theorem Linked.of_ancestry (linked : Linked v) (alike : Heap.Alike Object.ancestry v.objects w.objects) : Linked w := by
  refine linked.of_alike alike.identity_of_ancestry alike.supersOf_of_ancestry ⟨?_, ?_, ?_⟩
  · rw [alike.supersOf_of_ancestry, alike.subsOf]
    exact linked.mirrored.subs
  · rw [alike.supersOf_of_ancestry]
    exact linked.mirrored.nodupSupers
  · rw [alike.subsOf]
    exact linked.mirrored.nodupSubs

/-- Links of other classes may change as long as no further class gets to the top. -/
theorem Rooted.of_identity {tight : Handle → Prop} (rooted : Rooted loose v)
    (alike : Heap.Alike Object.identity v.objects w.objects) (systems : w.systems = v.systems)
    (roots : ∀ h o, v.live? h = some o → o.isRoot = true → w.objects.supersOf h = v.objects.supersOf h)
    (top : ∀ h o, v.live? h = some o → o.isClass = true → w.objects.supersOf h = [] → ¬tight h →
      o.isRootClass = true) : Rooted tight w := by
  have back : ∀ h o, w.live? h = some o → ∃ p, v.live? h = some p ∧ p.identity = o.identity :=
    fun h o live => alike.symm.exists_live live
  have forth : ∀ h o, v.live? h = some o → ∃ p, w.live? h = some p ∧ p.identity = o.identity :=
    fun h o live => alike.exists_live live
  refine ⟨?_, ?_, ?_, ?_, ?_, ?_⟩
  · intro h o live
    obtain ⟨p, before, same⟩ := back h o live
    have system : p.system = o.system := congrArg Identity.system same
    rw [systems, ← system]
    exact rooted.system h p before
  · intro i s listed
    rw [systems] at listed
    obtain ⟨o, live, cls, flag, system, links⟩ := rooted.root i s listed
    obtain ⟨p, after, same⟩ := forth _ o live
    have root : o.isRoot = true := by simp [Object.isRoot, flag]
    exact ⟨p, after, (congrArg Identity.isClass same).trans cls, (congrArg Identity.isRootClass same).trans flag,
      (congrArg Identity.system same).trans system, (roots _ o live root).trans links⟩
  · intro i s listed
    rw [systems] at listed
    obtain ⟨o, live, cls, flag, system, links⟩ := rooted.metaclass i s listed
    obtain ⟨p, after, same⟩ := forth _ o live
    have root : o.isRoot = true := by simp [Object.isRoot, flag]
    exact ⟨p, after, (congrArg Identity.isClass same).trans cls, (congrArg Identity.isRootMetaclass same).trans flag,
      (congrArg Identity.system same).trans system, (roots _ o live root).trans links⟩
  · intro h o s live listed flag
    obtain ⟨p, before, same⟩ := back h o live
    have system : p.system = o.system := congrArg Identity.system same
    rw [systems, ← system] at listed
    exact rooted.rootOnly h p s before listed ((congrArg Identity.isRootClass same).trans flag)
  · intro h o s live listed flag
    obtain ⟨p, before, same⟩ := back h o live
    have system : p.system = o.system := congrArg Identity.system same
    rw [systems, ← system] at listed
    exact rooted.metaclassOnly h p s before listed ((congrArg Identity.isRootMetaclass same).trans flag)
  · intro h o live cls links apart
    obtain ⟨p, before, same⟩ := back h o live
    exact (congrArg Identity.isRootClass same).symm.trans
      (top h p before ((congrArg Identity.isClass same).trans cls) links apart)

theorem Rooted.of_alike (rooted : Rooted loose v) (alike : Heap.Alike Object.identity v.objects w.objects)
    (supers : w.objects.supersOf = v.objects.supersOf) (systems : w.systems = v.systems) : Rooted loose w :=
  rooted.of_identity alike systems (fun _ _ _ _ => by rw [supers])
    fun h o live cls links apart => rooted.top h o live cls (supers ▸ links) apart

theorem Rooted.of_ancestry (rooted : Rooted loose v) (alike : Heap.Alike Object.ancestry v.objects w.objects)
    (systems : w.systems = v.systems) : Rooted loose w :=
  rooted.of_alike alike.identity_of_ancestry alike.supersOf_of_ancestry systems

theorem Mixed.of_alike {reach : Reach} (mixed : Mixed reach v)
    (alike : Heap.Alike (Object.mixing reach) v.objects w.objects) : Mixed reach w := by
  refine ⟨fun u c member => ?_, fun c u => ?_, fun c => ?_⟩
  · rw [alike.targetsOf] at member
    rw [alike.identity_of_mixing.isClass]
    exact mixed.target u c member
  · rw [alike.usersOf, alike.targetsOf]
    exact mixed.users c u
  · rw [alike.usersOf]
    exact mixed.nodup c

theorem Hierarchy.OrdersKept.of_alike {a b : Objects} (kept : Hierarchy.OrdersKept a)
    (alike : Heap.Alike Object.precedence a b) : Hierarchy.OrdersKept b := by
  have supers : b.supersOf = a.supersOf := by
    funext h
    have same := congrArg (fun p => (p.map Prod.fst).getD []) (alike.class?_precedence h)
    simpa only [Option.map_map, Function.comp_def, Heap.supersOf] using same
  refine ⟨fun c l found => ?_, fun c l found s link cls => ?_⟩
  · rw [supers]
    exact kept.linearizes c l (alike.cachedOrder? c ▸ found)
  · rw [alike.cachedOrder?]
    refine kept.above c l (alike.cachedOrder? c ▸ found) s (supers ▸ link) ?_
    have same := congrArg Option.isSome (alike.class?_precedence s)
    simpa only [Option.isSome_map, cls] using same.symm

/-- A change that leaves all links and kept orders alone. -/
theorem WellFormed.of_alike (well : WellFormed loose v) (links : Heap.Alike Object.links v.objects w.objects)
    (orders : Heap.Alike Object.precedence v.objects w.objects) (names : w.names = v.names)
    (systems : w.systems = v.systems) : WellFormed loose w where
  sound := well.sound.of_layout links.layout
  named := well.named.of_alike (links.comp (·.1.1) fun _ => rfl) names
  classed := well.classed.of_alike (links.comp (·.2.1) fun _ => rfl)
  linked := well.linked.of_ancestry (links.comp (·.1) fun _ => rfl)
  rooted := well.rooted.of_ancestry (links.comp (·.1) fun _ => rfl) systems
  mixed reach := (well.mixed reach).of_alike (links.comp (fun l => l.2.2 reach) fun _ => rfl)
  kept := well.kept.of_alike orders

end transport

end DynamicObjects
