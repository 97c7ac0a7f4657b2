import DynamicObjects.Proofs.Interception.Forgetting
import DynamicObjects.Proofs.Structure.Superclasses

/-!
# What the orders of an object depend on

Mixins are gathered along superclasses and class mixins, from the class of an object and from the mixins registered on
it. The classes met on the way are those the orders of the object draw on. In a well-formed world the links back lead
from each of them to the object, so that forgetting what depends on a class reaches every object that draws on it.
-/
namespace DynamicObjects

/-- What stands in a table under some names. -/
def NameTable.under {α : Type u} (names : String → Prop) (t : NameTable α) (n : Subtype names) : Option α :=
  t.get? n

/-- What the orders of other objects see of a class, of its methods those of some names. -/
def Object.lineage (names : String → Prop) (o : Object) :=
  (o.deleted, o.isRootClass, o.isRootMetaclass, o.classPart.map fun c =>
    (c.supers, c.registrations.mixins, c.registrations.filters, c.methods.under names))

namespace World

/-- The classes whose mixins and filters a class takes over: its superclasses and its class mixins. -/
def sources (w : World) (c : Handle) : List Handle :=
  w.objects.supersOf c ++ w.targetsOf .instances c

/-- The classes from which the orders of an object are gathered. -/
def starts (w : World) (h : Handle) : List Handle :=
  ((w.live? h).map (·.cls)).toList ++ w.targetsOf .object h

/-- The orders of an object draw on a class. -/
def Draws (w : World) (h c : Handle) : Prop :=
  ∃ s ∈ w.starts h, Hierarchy.Reaches w.sources s c

theorem Draws.tail {w : World} {h c d : Handle} (draws : w.Draws h c) (link : d ∈ w.sources c) : w.Draws h d := by
  obtain ⟨s, start, path⟩ := draws
  exact ⟨s, start, path.tail link⟩

end World

section dependence

variable {loose : Handle → Prop} {w : World} (well : WellFormed loose w)

include well

/-- The links along which mixins are gathered are kept at the other end, too. -/
theorem WellFormed.mem_dependentsOf {c d : Handle} (link : d ∈ w.sources c) :
    c ∈ Hierarchy.dependentsOf w.objects d := by
  rcases List.mem_append.1 link with sup | mixin
  · exact Hierarchy.mem_dependentsOf_of_mem_subsOf ((well.linked.mirrored.subs c d).2 sup)
  · have user := ((well.mixed .instances).users d c).2 mixin
    obtain ⟨o, part, live, isPart⟩ := World.isClass_iff.1 ((well.mixed .instances).target c d mixin)
    refine Hierarchy.mem_dependentsOf.2 ⟨part, ?_, .inr ((WellFormed.mem_usersOf_of_live live isPart).1 user)⟩
    rw [Heap.class?, (World.live?_eq_some_iff.1 live).1, Option.bind_some, isPart]

theorem WellFormed.reaches_dependent {c d : Handle} (path : Hierarchy.Reaches w.sources c d) :
    Hierarchy.Reaches (Hierarchy.dependentsOf w.objects) d c := by
  induction path with
  | refl => exact .refl
  | tail _ link ih => exact .head (well.mem_dependentsOf link) ih

/-- A start of an object's orders is a live class that knows the object. -/
theorem WellFormed.exists_start {h s : Handle} (start : s ∈ w.starts h) :
    ∃ o part, w.live? s = some o ∧ o.classPart = some part ∧ (h ∈ part.instances ∨ h ∈ part.objectUsers) := by
  rcases List.mem_append.1 start with cls | mixin
  · obtain ⟨p, live, same⟩ := Option.map_eq_some_iff.1 (Option.mem_toList.1 cls)
    have member : h ∈ w.instancesOf s := (well.classed.instances s h).2 ⟨p, live, same⟩
    obtain ⟨o, part, here, isPart, inside⟩ := World.mem_instancesOf.1 member
    exact ⟨o, part, here, isPart, .inl inside⟩
  · obtain ⟨o, part, here, isPart⟩ := World.isClass_iff.1 ((well.mixed .object).target h s mixin)
    have user := ((well.mixed .object).users s h).2 mixin
    exact ⟨o, part, here, isPart, .inr ((WellFormed.mem_usersOf_of_live here isPart).1 user)⟩

/-- What draws on a class is found when what depends on the class is forgotten. -/
theorem WellFormed.dependsOn {h c : Handle} (draws : w.Draws h c) : Interception.DependsOn w.objects c h := by
  obtain ⟨s, start, path⟩ := draws
  obtain ⟨o, part, live, isPart, known⟩ := well.exists_start start
  refine Interception.mem_affectedBy.2 ⟨s, Hierarchy.mem_dependentSubclasses.2 (well.reaches_dependent path), part, ?_,
    known⟩
  rw [Heap.class?, (World.live?_eq_some_iff.1 live).1, Option.bind_some, isPart]

theorem WellFormed.isClass_of_start {h s : Handle} (start : s ∈ w.starts h) : w.isClass s = true := by
  obtain ⟨o, part, live, isPart, -⟩ := well.exists_start start
  exact World.isClass_iff.2 ⟨o, part, live, isPart⟩

theorem WellFormed.isClass_of_source {c d : Handle} (link : d ∈ w.sources c) : w.isClass d = true := by
  rcases List.mem_append.1 link with sup | mixin
  · obtain ⟨o, p, below, -⟩ := well.linked.live c d sup
    have here : w.isClass c = true := by
      have some := Hierarchy.isSome_class?_of_mem sup
      obtain ⟨part, found⟩ := Option.isSome_iff_exists.1 some
      rw [Heap.class?, (World.live?_eq_some_iff.1 below).1, Option.bind_some] at found
      exact World.isClass_iff.2 ⟨o, part, below, found⟩
    exact well.isClass_of_reaches here (.single sup)
  · exact (well.mixed .instances).target c d mixin

/-- Only live classes are drawn on. -/
theorem WellFormed.isClass_of_draws {h c : Handle} (draws : w.Draws h c) : w.isClass c = true := by
  obtain ⟨s, start, path⟩ := draws
  induction path with
  | refl => exact well.isClass_of_start start
  | tail _ link _ => exact well.isClass_of_source link

end dependence

/-! ## Leaving orders alone -/

/-- What the orders of an object take from the object itself, of its methods those of some names. -/
def Object.station (names : String → Prop) (o : Object) :=
  (o.cls, o.registrations.mixins, o.registrations.filters, o.methods.under names)

/-- The orders an object keeps. -/
def Object.orders (o : Object) :=
  (o.mixinOrder, o.filterOrder)

/-- An object keeps some order. -/
def Object.KeepsOrder (o : Object) : Prop :=
  o.orders ≠ (none, none)

theorem Object.KeepsOrder.cached {o : Object} (keeps : o.KeepsOrder) : o.mixinOrder ≠ none ∨ o.filterOrder ≠ none := by
  by_contra neither
  rw [not_or, not_not, not_not] at neither
  exact keeps (Prod.ext neither.1 neither.2)

/-- The object `h`, which was `o` in `v`, is `p` in `w`; nothing its orders depend on is touched, methods of other
names apart. -/
structure Untouched (names : String → Prop) (v w : World) (h : Handle) (o p : Object) : Prop where
  before : v.live? h = some o
  after : w.live? h = some p
  station : p.station names = o.station names
  lineage : ∀ c, v.Draws h c →
    (w.objects.get? c).map (Object.lineage names) = (v.objects.get? c).map (Object.lineage names)

section lineage

variable {names : String → Prop} {v w : World} {c : Handle}

theorem Heap.supersOf_of_lineage
    (same : (w.objects.get? c).map (Object.lineage names) = (v.objects.get? c).map (Object.lineage names)) :
    w.objects.supersOf c = v.objects.supersOf c := by
  have supers := congrArg (fun x => ((x.bind (·.2.2.2)).map (·.1)).getD []) same
  simpa only [Option.bind_map, Object.lineage, Function.comp_def, Option.map_bind, Option.map_map, Heap.supersOf,
    Heap.class?] using supers

/-- A live class still is one, and its registrations are the same. -/
theorem World.exists_live_of_lineage
    (same : (w.objects.get? c).map (Object.lineage names) = (v.objects.get? c).map (Object.lineage names)) {o : Object}
    {part : ClassPart} (live : v.live? c = some o) (isPart : o.classPart = some part) :
    ∃ p part', w.live? c = some p ∧ p.classPart = some part' ∧ p.isRoot = o.isRoot ∧
      part'.registrations.mixins = part.registrations.mixins ∧
      part'.registrations.filters = part.registrations.filters ∧
      part'.methods.under names = part.methods.under names := by
  obtain ⟨found, deleted⟩ := World.live?_eq_some_iff.1 live
  rw [found, Option.map_some] at same
  obtain ⟨p, there, looks⟩ := Option.map_eq_some_iff.1 same
  simp only [Object.lineage, Prod.mk.injEq, isPart, Option.map_some] at looks
  obtain ⟨gone, rootClass, rootMeta, parts⟩ := looks
  obtain ⟨part', isPart', content⟩ := Option.map_eq_some_iff.1 parts
  simp only [Prod.mk.injEq] at content
  refine ⟨p, part', World.live?_eq_some_iff.2 ⟨there, gone.trans deleted⟩, isPart', ?_, content.2⟩
  rw [Object.isRoot, rootClass, rootMeta, Object.isRoot]

theorem World.targetsOf_of_lineage
    (same : (w.objects.get? c).map (Object.lineage names) = (v.objects.get? c).map (Object.lineage names)) :
    w.targetsOf .instances c = v.targetsOf .instances c := by
  have unfolded : ∀ u : World, u.targetsOf .instances c = ((u.objects.get? c).map (Object.lineage names)).elim [] fun l =>
      if l.1 then [] else (l.2.2.2.map fun part => part.2.1.map (·.target)).getD [] := by
    intro u
    unfold targetsOf mixinsOf registrations? live?
    cases u.objects.get? c with
    | none => rfl
    | some o =>
      cases gone : o.deleted <;> cases isPart : o.classPart <;>
        simp [Option.filter, gone, Object.registrations?, isPart, Object.lineage]
  rw [unfolded, unfolded, same]

theorem World.sources_of_lineage
    (same : (w.objects.get? c).map (Object.lineage names) = (v.objects.get? c).map (Object.lineage names)) :
    w.sources c = v.sources c := by
  unfold sources
  rw [Heap.supersOf_of_lineage same, targetsOf_of_lineage same]

end lineage

namespace Untouched

variable {names : String → Prop} {u v w : World} {h : Handle} {o p q : Object}

theorem cls (untouched : Untouched names v w h o p) : p.cls = o.cls :=
  congrArg (·.1) untouched.station

theorem mixins (untouched : Untouched names v w h o p) : p.registrations.mixins = o.registrations.mixins :=
  congrArg (·.2.1) untouched.station

theorem starts (untouched : Untouched names v w h o p) : w.starts h = v.starts h := by
  simp [World.starts, World.targetsOf, World.mixinsOf, World.registrations?, untouched.before, untouched.after,
    Object.registrations?, untouched.cls, untouched.mixins]

theorem draws (untouched : Untouched names v w h o p) {c : Handle} (draws : v.Draws h c) : w.Draws h c := by
  obtain ⟨s, start, path⟩ := draws
  suffices both : v.Draws h c ∧ w.Draws h c from both.2
  induction path with
  | refl => exact ⟨⟨s, start, .refl⟩, s, untouched.starts ▸ start, .refl⟩
  | tail _ link ih =>
    obtain ⟨before, after⟩ := ih
    refine ⟨before.tail link, after.tail ?_⟩
    rwa [World.sources_of_lineage (untouched.lineage _ before)]

theorem refl (live : v.live? h = some o) : Untouched names v v h o o :=
  ⟨live, live, rfl, fun _ _ => rfl⟩

theorem trans (first : Untouched names u v h o p) (second : Untouched names v w h p q) : Untouched names u w h o q where
  before := first.before
  after := second.after
  station := second.station.trans first.station
  lineage c draws := (second.lineage c (first.draws draws)).trans (first.lineage c draws)

end Untouched

/-- Every object that keeps an order afterwards kept it before, and nothing this order depends on is touched, methods
of other names apart. -/
def Leaves (names : String → Prop) (v w : World) : Prop :=
  ∀ h p, w.live? h = some p → p.KeepsOrder → ∃ o, Untouched names v w h o p ∧ p.orders = o.orders

namespace Leaves

variable {names : String → Prop} {loose : Handle → Prop} {u v w : World}

theorem refl (v : World) : Leaves names v v :=
  fun _ p live _ => ⟨p, .refl live, rfl⟩

theorem trans (first : Leaves names u v) (second : Leaves names v w) : Leaves names u w := by
  intro h q live keeps
  obtain ⟨p, late, same⟩ := second h q live keeps
  have before : p.KeepsOrder := by
    unfold Object.KeepsOrder
    rw [← same]
    exact keeps
  obtain ⟨o, early, same'⟩ := first h p late.before before
  exact ⟨o, early.trans late, same.trans same'⟩

/-- Only objects without orders are new, and what was live looks the same. -/
theorem of_kept (well : WellFormed loose v)
    (kept : ∀ k o, v.live? k = some o → ∃ p, w.objects.get? k = some p ∧ p.station names = o.station names ∧
      p.orders = o.orders ∧ p.lineage names = o.lineage names)
    (new : ∀ k p, v.live? k = none → w.live? k = some p → ¬p.KeepsOrder) : Leaves names v w := by
  intro h p live keeps
  cases before : v.live? h with
  | none => exact absurd keeps (new h p before live)
  | some o =>
    obtain ⟨q, there, station, orders, -⟩ := kept h o before
    rw [(World.live?_eq_some_iff.1 live).1] at there
    cases there
    refine ⟨o, ⟨before, live, station, fun c draws => ?_⟩, orders⟩
    obtain ⟨x, -, liveX, -⟩ := World.isClass_iff.1 (well.isClass_of_draws draws)
    obtain ⟨y, there, -, -, lineage⟩ := kept c x liveX
    rw [(World.live?_eq_some_iff.1 liveX).1, there, Option.map_some, Option.map_some, lineage]

theorem of_alike (alike : Heap.Alike (fun o : Object => (o.station names, o.orders, o.lineage names)) v.objects w.objects) :
    Leaves names v w := by
  intro h p live _
  obtain ⟨o, before, same⟩ := alike.symm.exists_of_live? (v := w) (w := v)
    (fun _ _ same => congrArg (·.2.2.1) same) live
  refine ⟨o, ⟨before, live, (congrArg (·.1) same).symm, fun c _ => ?_⟩, (congrArg (·.2.1) same).symm⟩
  exact (alike.comp (·.2.2) fun _ => rfl).view c

theorem of_forgets {s : Handle → Prop} (forgets : Forgets s v.objects w.objects) : Leaves names v w := by
  intro h p live keeps
  obtain ⟨found, deleted⟩ := World.live?_eq_some_iff.1 live
  have before := World.live?_eq_some_iff.2 ⟨(forgets.of_cached found keeps.cached).1, deleted⟩
  exact ⟨p, ⟨before, live, rfl, fun c _ => (forgets.alike fun _ => rfl).view c⟩, rfl⟩

end Leaves

end DynamicObjects
