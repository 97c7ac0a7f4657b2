import DynamicObjects.Proofs.Structure.Destruction

/-!
# What unlinking leaves of other objects

Links are kept at both ends, so an object is mentioned by those that it mentions itself. Unlinking it changes these, and
the root classes that take in what it leaves. Of all other objects at most the orders that are kept are forgotten.
-/
namespace DynamicObjects

/-- The links by which an object mentions the object `h`. -/
inductive Object.Mentions (o : Object) (h : Handle) : Prop where
  | cls (is : o.cls = h) : o.Mentions h
  | mixin {reach : Reach} {r : Registrations} (registered : o.registrations? reach = some r)
      (target : h ∈ r.mixins.map (·.target)) : o.Mentions h
  | superclass {part : ClassPart} (isPart : o.classPart = some part) (listed : h ∈ part.supers) : o.Mentions h
  | subclass {part : ClassPart} (isPart : o.classPart = some part) (listed : h ∈ part.subs) : o.Mentions h
  | member {part : ClassPart} (isPart : o.classPart = some part) (listed : h ∈ part.instances) : o.Mentions h
  | user {part : ClassPart} (reach : Reach) (isPart : o.classPart = some part) (listed : h ∈ part.users reach) :
      o.Mentions h

theorem Object.classPart_unordered (o : Object) :
    o.unordered.classPart = o.classPart.map fun c => { c with order := none } := rfl

theorem Object.registrations?_unordered (o : Object) (reach : Reach) :
    o.unordered.registrations? reach = o.registrations? reach := by
  cases reach <;> simp [registrations?, unordered, withoutPrecedence, Function.comp_def]

/-- The orders that are kept for an object are no links. -/
theorem Object.mentions_unordered {o : Object} {h : Handle} : o.unordered.Mentions h ↔ o.Mentions h := by
  have carried : ∀ {part : ClassPart}, o.classPart = some part →
      o.unordered.classPart = some { part with order := none } := fun {part} isPart => by
    rw [classPart_unordered, isPart]
    rfl
  have stripped : ∀ {part : ClassPart}, o.unordered.classPart = some part →
      ∃ own, o.classPart = some own ∧ { own with order := none } = part := fun {part} isPart => by
    rw [classPart_unordered] at isPart
    exact Option.map_eq_some_iff.1 isPart
  constructor <;> intro mentions <;> cases mentions
  case mp.cls is => exact .cls is
  case mp.mixin r registered target => exact .mixin (o.registrations?_unordered _ ▸ registered) target
  case mp.superclass isPart listed =>
    obtain ⟨own, here, rfl⟩ := stripped isPart
    exact .superclass here listed
  case mp.subclass isPart listed =>
    obtain ⟨own, here, rfl⟩ := stripped isPart
    exact .subclass here listed
  case mp.member isPart listed =>
    obtain ⟨own, here, rfl⟩ := stripped isPart
    exact .member here listed
  case mp.user reach isPart listed =>
    obtain ⟨own, here, rfl⟩ := stripped isPart
    exact .user reach here (by cases reach <;> exact listed)
  case mpr.cls is => exact .cls is
  case mpr.mixin r registered target => exact .mixin ((o.registrations?_unordered _).trans registered) target
  case mpr.superclass isPart listed => exact .superclass (carried isPart) listed
  case mpr.subclass isPart listed => exact .subclass (carried isPart) listed
  case mpr.member isPart listed => exact .member (carried isPart) listed
  case mpr.user reach isPart listed => exact .user reach (carried isPart) (by cases reach <;> exact listed)

section mentions

variable {loose : Handle → Prop} {w : World} {h k : Handle} {o p : Object} {reach : Reach}

theorem World.mem_targetsOf_of_live (live : w.live? h = some o) :
    k ∈ w.targetsOf reach h ↔ ∃ r, o.registrations? reach = some r ∧ k ∈ r.mixins.map (·.target) := by
  unfold World.targetsOf World.mixinsOf World.registrations?
  rw [live, Option.bind_some]
  cases o.registrations? reach <;> simp

theorem Object.Mentions.of_supersOf (live : w.live? k = some p) (link : h ∈ w.objects.supersOf k) : p.Mentions h := by
  cases isPart : p.classPart with
  | none =>
    rw [Heap.supersOf, Heap.class?, (World.live?_eq_some_iff.1 live).1, Option.bind_some, isPart] at link
    cases link
  | some part =>
    rw [WellFormed.supersOf_of_live live isPart] at link
    exact .superclass isPart link

theorem Object.Mentions.of_subsOf (live : w.live? k = some p) (link : h ∈ w.objects.subsOf k) : p.Mentions h := by
  cases isPart : p.classPart with
  | none =>
    rw [Heap.subsOf, Heap.class?, (World.live?_eq_some_iff.1 live).1, Option.bind_some, isPart] at link
    cases link
  | some part =>
    rw [WellFormed.subsOf_of_live live isPart] at link
    exact .subclass isPart link

/-- What a live object mentions is live, and mentions the object in turn. -/
theorem WellFormed.mentions_symm (well : WellFormed loose w) (live : w.live? h = some o) (mentions : o.Mentions k) :
    ∃ p, w.live? k = some p ∧ p.Mentions h := by
  cases mentions with
  | cls is =>
    have member : h ∈ w.instancesOf k := (well.classed.instances k h).2 ⟨o, live, is⟩
    obtain ⟨p, part, there, isPart, listed⟩ := World.mem_instancesOf.1 member
    exact ⟨p, there, .member isPart listed⟩
  | @mixin reach r registered target =>
    have targets : k ∈ w.targetsOf reach h := (World.mem_targetsOf_of_live live).2 ⟨r, registered, target⟩
    obtain ⟨p, part, there, isPart⟩ := World.isClass_iff.1 ((well.mixed reach).target h k targets)
    have user : h ∈ w.usersOf reach k := ((well.mixed reach).users k h).2 targets
    exact ⟨p, there, .user reach isPart ((WellFormed.mem_usersOf_of_live there isPart).1 user)⟩
  | superclass isPart listed =>
    have link : k ∈ w.objects.supersOf h := by rwa [WellFormed.supersOf_of_live live isPart]
    obtain ⟨-, p, -, there, -⟩ := well.linked.live h k link
    exact ⟨p, there, .of_subsOf there ((well.linked.mirrored.subs h k).2 link)⟩
  | subclass isPart listed =>
    have link : h ∈ w.objects.supersOf k := by
      rw [← well.linked.mirrored.subs, WellFormed.subsOf_of_live live isPart]
      exact listed
    obtain ⟨p, -, there, -, -⟩ := well.linked.live k h link
    exact ⟨p, there, .of_supersOf there link⟩
  | member isPart listed =>
    obtain ⟨p, there, is⟩ := (well.classed.instances h k).1 ((World.mem_instancesOf_of_live live isPart).2 listed)
    exact ⟨p, there, .cls is⟩
  | user reach isPart listed =>
    have targets : h ∈ w.targetsOf reach k :=
      ((well.mixed reach).users h k).1 ((WellFormed.mem_usersOf_of_live live isPart).2 listed)
    cases there : w.live? k with
    | none => simp [World.targetsOf, World.mixinsOf, World.registrations?, there] at targets
    | some p =>
      obtain ⟨r, registered, target⟩ := (World.mem_targetsOf_of_live there).1 targets
      exact ⟨p, rfl, .mixin registered target⟩

/-- What does not mention a live object is not mentioned by it, either. -/
theorem WellFormed.not_mentions (well : WellFormed loose w) (live : w.live? h = some o)
    (unmentioned : ∀ p, w.objects.get? k = some p → ¬p.Mentions h) : ¬o.Mentions k := by
  intro mentions
  obtain ⟨p, there, back⟩ := well.mentions_symm live mentions
  exact unmentioned p (World.live?_eq_some_iff.1 there).1 back

end mentions

/-! ## The class part -/

theorem evacuated_of_apart {h new k : Handle} {instances : List Handle} (other : k ≠ h) (apart : k ≠ new)
    (unlisted : k ∉ instances) (o : Object) : evacuated h new instances k o = o := by
  unfold evacuated Lifecycle.moved
  rw [if_neg other, if_neg apart, if_neg unlisted]

namespace Dissolution

variable {loose : Handle → Prop} {h k : Handle} {o : Object} {part : ClassPart} {w : World}
  (d : Dissolution loose h part w)

/-- What the class does not mention is left alone, the root classes apart. -/
theorem unordered_eq (isPart : o.classPart = some part) (other : k ≠ h) (noRoot : k ≠ d.system.rootClass)
    (noMetaclass : k ≠ d.system.rootMetaclass) (apart : ¬o.Mentions k) :
    (d.forgotten.get? k).map Object.unordered = (w.objects.get? k).map Object.unordered := by
  have stays : k ≠ d.new := by
    rw [d.fallback]
    split
    · exact noMetaclass
    · exact noRoot
  have noInstance : k ∉ (part.instances.erase h).toList := fun inside =>
    apart (.member isPart (HandleSet.mem_erase.1 inside).1)
  have still : evacuated h d.new (part.instances.erase h).toList k = id :=
    funext (evacuated_of_apart other stays noInstance)
  have vacated : d.vacated.get? k = w.objects.get? k := by rw [d.instances.get?, still, Option.map_id, id]
  have childless : d.childless.get? k = d.vacated.get? k :=
    d.reattached.others k (fun sub => apart (.subclass isPart sub)) other noRoot noMetaclass
  have topless : d.topless.get? k = d.childless.get? k :=
    d.upper k other fun sup => apart (.superclass isPart sup)
  have noUser : ∀ o, dropped .object h part.objectUsers k o = o := fun o =>
    if_neg fun user => apart (.user .object isPart user)
  have noClassUser : ∀ o, dropped .instances h part.classUsers k o = o := fun o =>
    if_neg fun user => apart (.user .instances isPart user)
  have blind : ∀ o : Object, o.withoutOrders.unordered = o.unordered := fun _ => rfl
  have unmixed : (d.unmixed.get? k).map Object.unordered = (d.topless.get? k).map Object.unordered := by
    rw [d.objectUsers.map_view blind]
    simp only [noUser]
  have unshared : (d.unshared.get? k).map Object.unordered = (d.unmixed.get? k).map Object.unordered := by
    rw [d.classUsers.map_view blind]
    simp only [noClassUser]
  have registered : o.registrations? .instances = some part.registrations := by rw [Object.registrations?, isPart]; rfl
  have noTarget : DynamicObjects.deserted .instances h (part.registrations.mixins.map (·.target)) k = id :=
    funext fun o => if_neg fun target => apart (.mixin registered target)
  have deserted : d.deserted.get? k = d.unshared.get? k := by rw [d.targets.get?, noTarget, Option.map_id, id]
  have forgets : Heap.Alike Object.unordered d.deserted d.forgotten :=
    (Heap.Alike.foldl (fun a c => .modify a c fun o => Object.unordered_mapOrder (fun _ => none) o) _ d.deserted).trans
      (d.orders.alike fun _ => rfl)
  rw [forgets.view, deserted, unshared, unmixed, topless, childless, vacated]

/-- Instances of the class other than the class itself get the root class, or the root metaclass if it was one. -/
theorem cls_eq {p : Object} (found : w.objects.get? k = some p) : ∃ q, d.forgotten.get? k = some q ∧
    q.deleted = p.deleted ∧ q.cls = if k ∈ part.instances ∧ k ≠ h then d.new else p.cls := by
  have vacated : d.vacated.get? k = some (evacuated h d.new (part.instances.erase h).toList k p) := by
    rw [d.instances.get?, found]
    rfl
  obtain ⟨q, there, same⟩ := d.late_membership.exists_of_get? vacated
  have cls : q.cls = (evacuated h d.new (part.instances.erase h).toList k p).cls := congrArg (·.2.1) same
  have deleted : q.deleted = (evacuated h d.new (part.instances.erase h).toList k p).deleted :=
    congrArg (·.1.deleted) same
  have erased : k ∈ (part.instances.erase h).toList ↔ k ∈ part.instances ∧ k ≠ h := HandleSet.mem_erase
  refine ⟨q, there, deleted.trans (congrArg Identity.deleted (identity_evacuated k p)), ?_⟩
  rw [cls, cls_evacuated]
  simp only [erased]

/-- The direct subclasses of the class lose it as a superclass. -/
theorem reattaches (linked : Linked w) (live : w.live? h = some o) (isPart : o.classPart = some part)
    (link : h ∈ w.objects.supersOf k) :
    d.system.Reattaches h (w.objects.supersOf k) (d.forgotten.supersOf k) := by
  have sub : k ∈ part.subs := by
    rw [← WellFormed.subsOf_of_live live isPart, linked.mirrored.subs]
    exact link
  have other : k ≠ h := by
    rintro rfl
    exact linked.not_mem_supersOf k link
  have upper : d.topless.supersOf k = d.childless.supersOf k :=
    d.supers.others k fun same => other (List.mem_singleton.1 same)
  rw [d.late_ancestry.supersOf_of_ancestry, upper, ← d.early_ancestry.supersOf_of_ancestry]
  exact d.reattached.supers k sub

end Dissolution

/-! ## The object -/

/-- What holds an object, and the mixins it registers apart from `h`. -/
def Object.footing (h : Handle) (o : Object) : Nat × List Mixin :=
  (o.holders, o.registrations.mixins.filter (·.target ≠ h))

theorem Dissolution.footing {loose : Handle → Prop} {h : Handle} {part : ClassPart} {w : World}
    (d : Dissolution loose h part w) : Heap.Alike (Object.footing h) w.objects d.forgotten := by
  have dropped : ∀ o : Object, (o.dropMixin .object h).footing h = o.footing h := fun o => by
    simp [Object.footing, Object.dropMixin, Object.mapRegistrations, List.filter_filter]
  have vacated : Heap.Alike (Object.footing h) w.objects d.vacated :=
    d.instances.alike fun k o _ => view_evacuated (fun _ _ => rfl) (fun _ => rfl) k o
  have topless : Heap.Alike (Object.footing h) d.vacated d.topless :=
    d.topless_alike.comp (Object.footing h) fun _ => rfl
  have unshared : Heap.Alike (Object.footing h) d.topless d.unshared :=
    (d.objectUsers.alike (fun _ => rfl) (view_dropped dropped)).trans
      (d.classUsers.alike (fun _ => rfl) (view_dropped fun _ => rfl))
  exact ((vacated.trans topless).trans unshared).trans
    (d.forgotten_alike (fun _ _ => rfl) (fun _ _ => rfl) fun _ => rfl)

section cleared

variable {loose : Handle → Prop} {h k : Handle} {o p x : Object} {s : ObjectSystem} {u v w : World}

/-! ### Disbanding -/

namespace Disbands

/-- Once its class part is unlinked, an object is held as before, in the same class, and mixes in no other classes. -/
theorem own (disbands : Disbands loose h o v w) (live : v.live? h = some o) (after : w.live? h = some x) :
    x.holders = o.holders ∧ x.cls = o.cls ∧
      ∀ k, k ≠ h → k ∈ x.registrations.mixins.map (·.target) → k ∈ o.registrations.mixins.map (·.target) := by
  rcases disbands with ⟨-, rfl⟩ | ⟨part, isPart, d, rfl⟩
  · cases live.symm.trans after
    exact ⟨rfl, rfl, fun _ _ => id⟩
  have found := (World.live?_eq_some_iff.1 after).1
  have before := (World.live?_eq_some_iff.1 live).1
  have footing := d.footing.view h
  obtain ⟨q, there, -, cls⟩ := d.cls_eq before
  cases there.symm.trans found
  rw [found, before] at footing
  simp only [Option.map_some, Option.some.injEq, Object.footing, Prod.mk.injEq] at footing
  refine ⟨footing.1, cls.trans (if_neg fun both => both.2 rfl), fun k other member => ?_⟩
  obtain ⟨m, listed, rfl⟩ := List.mem_map.1 member
  have kept : m ∈ o.registrations.mixins.filter (·.target ≠ h) :=
    footing.2 ▸ List.mem_filter.2 ⟨listed, decide_eq_true other⟩
  exact List.mem_map.2 ⟨m, (List.mem_filter.1 kept).1, rfl⟩

section instances

variable (disbands : Disbands loose h o v w) (live : v.live? h = some o) (listed : v.systems[o.system]? = some s)
  (well : WellFormed loose v)

include disbands live listed

/-- What an object does not mention is left alone when the object is disbanded, the root classes apart. -/
theorem unordered_eq (other : k ≠ h) (noRoot : k ≠ s.rootClass) (noMetaclass : k ≠ s.rootMetaclass)
    (apart : ¬o.Mentions k) : (w.objects.get? k).map Object.unordered = (v.objects.get? k).map Object.unordered := by
  rcases disbands with ⟨noPart, rfl⟩ | ⟨part, isPart, d, rfl⟩
  · rfl
  · have home : d.system = s := Option.some.inj ((d.home o live).symm.trans listed)
    exact d.unordered_eq isPart other (home ▸ noRoot) (home ▸ noMetaclass) apart

include well

/-- Other objects stay in their classes, but for instances of the disbanded class. -/
theorem cls_eq (other : k ≠ h) (found : v.live? k = some p) : ∃ q, w.live? k = some q ∧
    q.cls = if p.cls = h then (if v.isMetaclass h then s.rootMetaclass else s.rootClass) else p.cls := by
  have instances : k ∈ v.instancesOf h ↔ p.cls = h := by
    rw [well.classed.instances, found]
    simp
  rcases disbands with ⟨noPart, rfl⟩ | ⟨part, isPart, d, rfl⟩
  · refine ⟨p, found, (if_neg fun same => ?_).symm⟩
    obtain ⟨q, part, again, isPart, -⟩ := World.mem_instancesOf.1 (instances.2 same)
    cases live.symm.trans again
    cases noPart.symm.trans isPart
  have home : d.system = s := Option.some.inj ((d.home o live).symm.trans listed)
  obtain ⟨resolves, alive⟩ := World.live?_eq_some_iff.1 found
  obtain ⟨q, between, deleted, cls⟩ := d.cls_eq resolves
  rw [d.fallback, home] at cls
  simp only [← World.mem_instancesOf_of_live live isPart, instances, other, ne_eq, not_false_eq_true, and_true] at cls
  exact ⟨q, World.live?_eq_some_iff.2 ⟨between, deleted.trans alive⟩, cls⟩

theorem reattaches (link : h ∈ v.objects.supersOf k) :
    s.Reattaches h (v.objects.supersOf k) (w.objects.supersOf k) := by
  rcases disbands with ⟨noPart, rfl⟩ | ⟨part, isPart, d, rfl⟩
  · have sub := (well.linked.mirrored.subs k h).2 link
    rw [Heap.subsOf, Heap.class?, (World.live?_eq_some_iff.1 live).1, Option.bind_some, noPart] at sub
    cases sub
  · have home : d.system = s := Option.some.inj ((d.home o live).symm.trans listed)
    exact home ▸ d.reattaches well.linked live isPart link

end instances

end Disbands

/-! ### Retiring -/

/-- What retiring `h`, which is `x`, makes of the objects. -/
structure Retires (h : Handle) (x : Object) (a b : Objects) : Prop where
  gone : ∀ p, b.get? h = some p → p.deleted = true
  reclaimed : x.holders = 0 → b.get? h = none
  /-- Of other objects the users and the instances may change. -/
  others : ∀ {β : Type} {view : Object → β},
    (∀ (f : List Handle → List Handle) o, view (o.mapClass (·.mapUsers .object f)) = view o) →
    (∀ (g : HandleSet → HandleSet) o, view (o.mapInstances g) = view o) →
    ∀ k, k ≠ h → (b.get? k).map view = (a.get? k).map view
  /-- That is so only of its class and of the classes that it mixes in. -/
  apart : ∀ k, k ≠ h → k ≠ x.cls → k ∉ x.registrations.mixins.map (·.target) → b.get? k = a.get? k
  supers : a.supersOf h = [] → b.supersOf = a.supersOf

theorem Lifecycle.retires_retired {a b : Objects}
    (remade : Heap.Remade (deserted .object h (x.registrations.mixins.map (·.target))) a b) :
    Retires h x a (retired b h x) := by
  have departs : Departs h (b.leave h x.cls) (retired b h x) := departs_retired x
  have late : ∀ {β : Type} {view : Object → β},
      (∀ (f : List Handle → List Handle) o, view (o.mapClass (·.mapUsers .object f)) = view o) →
      (∀ (g : HandleSet → HandleSet) o, view (o.mapInstances g) = view o) →
      Heap.Alike view a (b.leave h x.cls) := fun users instances =>
    (remade.alike fun k o _ => view_deserted users k o).trans (.modify b x.cls fun o => instances _ o)
  refine ⟨fun p found => (departs.gone p found).1, fun free => ?_, fun users instances k other => ?_,
    fun k other elsewhere unlisted => ?_, fun top => ?_⟩
  · rw [retired, if_pos free, Heap.get?_release, if_pos rfl]
  · rw [departs.others k other, (late users instances).view]
  · have still : deserted .object h (x.registrations.mixins.map (·.target)) k = id := funext fun o => if_neg unlisted
    rw [departs.others k other, Heap.leave, Heap.get?_modify, if_neg elsewhere, remade.get?, still, Option.map_id, id]
  · have blind := late (Object.ancestry_mapUsers .object) Object.ancestry_mapInstances
    rw [departs.supersOf (by rw [blind.supersOf_of_ancestry, top]), blind.supersOf_of_ancestry]

/-! ### Unlinking -/

/-- Which classes are metaclasses depends on superclass links only. -/
theorem Heap.Alike.isMetaclass_of_ancestry (alike : Heap.Alike Object.ancestry v.objects w.objects)
    (systems : w.systems = v.systems) : w.isMetaclass h = v.isMetaclass h := by
  have same := congrArg (fun i => (i.bind fun i => w.systems[i.system]? : Option ObjectSystem))
    (alike.identity_of_ancestry.live?_identity (h := h))
  simp only [Option.bind_map, Function.comp_def, Object.identity] at same
  unfold World.isMetaclass Hierarchy.inheritsFrom Hierarchy.walk
  rw [same, systems, alike.identity_of_ancestry.isClass, alike.supersOf_of_ancestry, alike.totalSlots_eq]

/-- What unlinking `h`, which was `o`, an object of the system `s`, makes of the world around it. -/
structure Cleared (h : Handle) (o : Object) (s : ObjectSystem) (v w : World) : Prop where
  gone : w.live? h = none
  /-- The slot is reclaimed unless a frame holds the object. -/
  reclaimed : o.holders = 0 → w.objects.get? h = none
  registry : ∀ path r, w.registry.get? path = some r → r.owner ≠ some h
  /-- Instances, other than a class of itself, get the root class, or the root metaclass if `h` was a metaclass. -/
  instances : ∀ k p, k ≠ h → v.live? k = some p → p.cls = h →
    ∃ q, w.live? k = some q ∧ q.cls = if v.isMetaclass h then s.rootMetaclass else s.rootClass
  /-- Direct subclasses keep their other superclasses, or get a root class where they have none. -/
  subclasses : ∀ c, h ∈ v.objects.supersOf c → s.Reattaches h (v.objects.supersOf c) (w.objects.supersOf c)
  /-- What did not mention `h` is as it was, the root classes and kept orders apart. -/
  others : ∀ k, k ≠ h → k ≠ s.rootClass → k ≠ s.rootMetaclass →
    (∀ p, v.objects.get? k = some p → ¬p.Mentions h) →
    (w.objects.get? k).map Object.unordered = (v.objects.get? k).map Object.unordered

theorem WellFormed.cleared_unlink (well : WellFormed loose v) (live : v.live? h = some o) (root : o.isRoot = false)
    (listed : v.systems[o.system]? = some s) :
    ∃ w, (Lifecycle.unlink h).exec v = (.ok ⟨⟩, w) ∧ Cleared h o s v w := by
  obtain ⟨u, t, is, well', here, disbands, done⟩ := well.exec_unlink live root
  obtain ⟨x, there, -⟩ := disbands.exists_live here
  have disbanded := disbands.disbanded well' here
  obtain ⟨b, remade, retired⟩ :=
    Lifecycle.exec_retire there ((disbanded.named.name x.name h).2 ⟨x, there, rfl⟩)
  have retires := Lifecycle.retires_retired remade
  obtain ⟨holders, cls, targets⟩ := disbands.own here there
  have marked : ∀ k, k ≠ h → u.objects.get? k = v.objects.get? k := fun k other => by
    rw [is, Heap.get?_modify, if_neg other]
  have ancestry : Heap.Alike Object.ancestry v.objects u.objects := is ▸ .modify v.objects h fun _ => rfl
  have systems : u.systems = v.systems := by rw [is]
  have listed' : u.systems[o.system]? = some s := systems ▸ listed
  refine ⟨_, done.trans retired, ?_, fun free => retires.reclaimed (holders.trans free), fun path r found => ?_,
    fun k p other found same => ?_, fun c link => ?_, fun k other noRoot noMetaclass unmentioned => ?_⟩
  · by_contra alive
    obtain ⟨p, found⟩ := Option.ne_none_iff_exists'.1 alive
    obtain ⟨resolves, deleted⟩ := World.live?_eq_some_iff.1 found
    cases (retires.gone p resolves).symm.trans deleted
  · change (t.registry.filter fun _ r => r.owner ≠ some h).get? path = some r at found
    rw [NameTable.get?_filter] at found
    exact of_decide_eq_true (Option.filter_eq_some_iff.1 found).2
  · obtain ⟨resolves, alive⟩ := World.live?_eq_some_iff.1 found
    rw [← marked k other] at resolves
    obtain ⟨q, between, moved⟩ :=
      disbands.cls_eq here listed' well' other (World.live?_eq_some_iff.2 ⟨resolves, alive⟩)
    rw [if_pos same, ancestry.isMetaclass_of_ancestry systems] at moved
    obtain ⟨resolves', alive'⟩ := World.live?_eq_some_iff.1 between
    have seen : ((Lifecycle.retired b h x).get? k).map (fun o : Object => (o.deleted, o.cls)) =
        (t.objects.get? k).map fun o => (o.deleted, o.cls) := retires.others (fun _ _ => rfl) (fun _ _ => rfl) k other
    rw [resolves'] at seen
    obtain ⟨r, after, looks⟩ := Option.map_eq_some_iff.1 seen
    refine ⟨r, World.live?_eq_some_iff.2 ⟨after, ?_⟩, ?_⟩
    · exact (congrArg Prod.fst looks).trans alive'
    · exact (congrArg Prod.snd looks).trans moved
  · have supers := retires.supers disbanded.supers
    change s.Reattaches h _ ((Lifecycle.retired b h x).supersOf c)
    rw [supers, ← ancestry.supersOf_of_ancestry]
    rw [← ancestry.supersOf_of_ancestry] at link
    exact disbands.reattaches here listed' well' link
  · have apart := well'.not_mentions here fun p found => unmentioned p (marked k other ▸ found)
    have registered : ({ o with duringDelete := true } : Object).registrations? .object = some o.registrations := rfl
    have still := retires.apart k other (fun same => apart (.cls (cls.symm.trans same.symm))) fun target =>
      apart (.mixin registered (targets k other target))
    change ((Lifecycle.retired b h x).get? k).map Object.unordered = _
    rw [still, ← marked k other]
    exact disbands.unordered_eq here listed' other noRoot noMetaclass apart

end cleared

end DynamicObjects
