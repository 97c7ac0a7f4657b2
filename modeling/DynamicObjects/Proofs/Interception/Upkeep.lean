import DynamicObjects.Proofs.Interception.Dependence
import DynamicObjects.Proofs.Structure.Destruction
import DynamicObjects.Proofs.Structure.Founding
import DynamicObjects.Proofs.Structure.Reclassing

/-!
# Orders that survive a change

An order that is still kept after a change does not depend on anything the change has touched, the methods of its
filters apart: whatever touches a class forgets the orders of the objects that draw on it.
-/
namespace DynamicObjects

namespace NameTable

variable {α : Type u} {names : String → Prop} {n : String} (t : NameTable α) (apart : ¬names n)

include apart

theorem under_insert (a : α) : (t.insert n a).under names = t.under names := by
  funext m
  refine (get?_insert t n m a).trans (if_neg ?_)
  exact fun same => apart (same ▸ m.2)

theorem under_erase : (t.erase n).under names = t.under names := by
  funext m
  refine (get?_erase t n m).trans (if_neg ?_)
  exact fun same => apart (same ▸ m.2)

end NameTable

namespace Object

section views

variable {names : String → Prop} (o : Object) (g : HandleSet → HandleSet) (u : List Handle → List Handle)
  (reach : Reach)

theorem lineage_withoutPrecedence : o.withoutPrecedence.lineage names = o.lineage names := by
  simp [lineage, withoutPrecedence, Function.comp_def]

theorem lineage_mapInstances : (o.mapInstances g).lineage names = o.lineage names := by
  simp [lineage, mapInstances, mapClass, Function.comp_def]

theorem lineage_mapUsers : (o.mapClass (·.mapUsers reach u)).lineage names = o.lineage names := by
  cases reach <;> simp [lineage, mapClass, ClassPart.mapUsers, Function.comp_def]

theorem lineage_mapOrder (f : Option (List Handle) → Option (List Handle)) :
    (o.mapClass fun c => { c with order := f c.order }).lineage names = o.lineage names := by
  simp [lineage, mapClass, Function.comp_def]

theorem lineage_mapMethods {f : NameTable Method → NameTable Method} (same : ∀ t, (f t).under names = t.under names) :
    (o.mapMethods reach f).lineage names = o.lineage names := by
  cases reach <;> simp [lineage, mapMethods, mapClass, Function.comp_def, same]

theorem station_mapMethods {f : NameTable Method → NameTable Method} (same : ∀ t, (f t).under names = t.under names) :
    (o.mapMethods reach f).station names = o.station names := by
  cases reach <;> simp [station, mapMethods, mapClass, same]

theorem orders_mapMethods (f : NameTable Method → NameTable Method) : (o.mapMethods reach f).orders = o.orders := by
  cases reach <;> rfl

theorem orders_mapRegistrations (f : Registrations → Registrations) :
    (o.mapRegistrations reach f).orders = o.orders := by
  cases reach <;> rfl

theorem station_mapRegistrations (f : Registrations → Registrations) :
    (o.mapRegistrations .instances f).station names = o.station names := rfl

theorem lineage_mapRegistrations (f : Registrations → Registrations) :
    (o.mapRegistrations .object f).lineage names = o.lineage names := rfl

/-- Of a class whose superclasses stay, the lineage stays. -/
theorem lineage_of_withoutAncestry {o p : Object} (same : p.withoutAncestry = o.withoutAncestry)
    (supers : p.classPart.map (·.supers) = o.classPart.map (·.supers)) : p.lineage names = o.lineage names := by
  have deleted : p.deleted = o.deleted := (congrArg Object.deleted same :)
  have rootClass : p.isRootClass = o.isRootClass := (congrArg Object.isRootClass same :)
  have rootMetaclass : p.isRootMetaclass = o.isRootMetaclass := (congrArg Object.isRootMetaclass same :)
  have parts := congrArg (fun x : Object => x.classPart.map fun c => (c.registrations, c.methods)) same
  simp only [withoutAncestry, Option.map_map, Function.comp_def] at parts
  unfold lineage
  rw [deleted, rootClass, rootMetaclass]
  cases before : o.classPart <;> cases after : p.classPart <;> simp_all

end views

end Object

/-- What a change may not show at any object, so that orders are left alone. -/
def Object.repose (names : String → Prop) (o : Object) :=
  (o.station names, o.orders, o.lineage names)

theorem Heap.map_lineage_of_withoutAncestry {names : String → Prop} {a b : Objects}
    (alike : Heap.Alike Object.withoutAncestry a b) {k : Handle} (supers : b.supersOf k = a.supersOf k) :
    (b.get? k).map (Object.lineage names) = (a.get? k).map (Object.lineage names) := by
  have same := alike.view k
  unfold Heap.supersOf Heap.class? at supers
  cases before : a.get? k with
  | none =>
    rw [before] at same
    rw [Option.map_eq_none_iff.1 same]
  | some o =>
    rw [before] at same supers
    obtain ⟨p, after, looks⟩ := Option.map_eq_some_iff.1 same
    rw [after] at supers ⊢
    simp only [Option.map_some, Option.some.injEq]
    refine Object.lineage_of_withoutAncestry looks ?_
    have parts := congrArg (fun x : Object => x.classPart.isSome) looks
    simp only [Object.withoutAncestry, Option.isSome_map] at parts
    cases isPart : o.classPart <;> cases isPart' : p.classPart <;> simp_all

namespace Leaves

variable {names : String → Prop} {loose : Handle → Prop} {v w : World}

theorem of_repose (alike : Heap.Alike (Object.repose names) v.objects w.objects) : Leaves names v w :=
  .of_alike alike

/-- Keeping more precedence orders shows in no mixin or filter order. -/
theorem of_filled (filled : Filled v.objects w.objects) : Leaves names v w :=
  .of_repose (filled.alike.comp (Object.repose names) fun o => by
    rw [Object.repose, Object.repose, Object.lineage_withoutPrecedence]
    rfl)

/-- Where only the class `on` has another lineage, what drew on it still does. -/
private theorem draws_of_others {h on : Handle} (starts : w.starts h = v.starts h)
    (others : ∀ c, c ≠ on → (w.objects.get? c).map (Object.lineage names) = (v.objects.get? c).map (Object.lineage names))
    (draws : v.Draws h on) : w.Draws h on := by
  obtain ⟨s, start, path⟩ := draws
  refine ⟨s, starts ▸ start, ?_⟩
  clear start
  induction path using Relation.ReflTransGen.head_induction_on with
  | refl => exact .refl
  | @head a b link _ ih =>
    by_cases here : a = on
    · rw [here]
    · exact .head (by rwa [World.sources_of_lineage (others a here)]) ih

/-- After a change of the registrations on `on` the orders that depend on them are forgotten. -/
theorem of_spoiled (reach : Reach) (on : Handle) {f : Handle → Object → Object} {a : Objects} (well : WellFormed loose w)
    (remade : Heap.Remade f v.objects a) (forgets : Forgets (Interception.Spoiled reach on a) a w.objects)
    (identity : ∀ k o, (f k o).identity = o.identity) (orders : ∀ k o, (f k o).orders = o.orders)
    (station : ∀ k o, (reach = .object → k ≠ on) → (f k o).station names = o.station names)
    (lineage : ∀ k o, (reach = .instances → k ≠ on) → (f k o).lineage names = o.lineage names) : Leaves names v w := by
  intro h p live keeps
  obtain ⟨found, deleted⟩ := World.live?_eq_some_iff.1 live
  obtain ⟨between, unspoiled⟩ := forgets.of_cached found keeps.cached
  rw [remade.get?] at between
  obtain ⟨o, before, rfl⟩ := Option.map_eq_some_iff.1 between
  have gone : o.deleted = false := (congrArg Identity.deleted (identity h o)).symm.trans deleted
  have liveBefore := World.live?_eq_some_iff.2 ⟨before, gone⟩
  have apart : reach = .object → h ≠ on := fun here => by subst here; exact unspoiled
  have sameStation := station h o apart
  have others : ∀ c, (reach = .instances → c ≠ on) →
      (w.objects.get? c).map (Object.lineage names) = (v.objects.get? c).map (Object.lineage names) := by
    intro c other
    have blind : Heap.Alike (Object.lineage names) a w.objects := forgets.alike fun _ => rfl
    rw [blind.view, remade.get?, Option.map_map]
    congr 1
    funext o
    exact lineage c o other
  refine ⟨o, ⟨liveBefore, live, sameStation, fun c draws => others c fun here same => ?_⟩, orders h o⟩
  subst here same
  have starts : w.starts h = v.starts h := by
    have cls : (f h o).cls = o.cls := congrArg (·.1) sameStation
    have mixins : (f h o).registrations.mixins = o.registrations.mixins := congrArg (·.2.1) sameStation
    simp [World.starts, World.targetsOf, World.mixinsOf, World.registrations?, liveBefore, live, Object.registrations?,
      cls, mixins]
  have still := draws_of_others starts (fun k other => others k fun _ => other) draws
  exact unspoiled ((Interception.dependsOn_of_forgets forgets c h).1 (well.dependsOn still))

/-! ## Registrations, classes and methods -/

theorem of_mapRegistrations {reach : Reach} {on : Handle} {f : Registrations → Registrations} (well : WellFormed loose w)
    (forgets : Forgets (Interception.Spoiled reach on (v.objects.modify on (Object.mapRegistrations reach f)))
      (v.objects.modify on (Object.mapRegistrations reach f)) w.objects) : Leaves names v w := by
  refine .of_spoiled reach on well (.modify v.objects on _) forgets (fun k o => ?_) (fun k o => ?_) (fun k o other => ?_)
    fun k o other => ?_
  · split
    · exact Object.identity_mapRegistrations reach f o
    · rfl
  · split
    · exact Object.orders_mapRegistrations o reach f
    · rfl
  · split
    · next here =>
      cases reach with
      | object => exact absurd here (other rfl)
      | instances => exact Object.station_mapRegistrations o f
    · rfl
  · split
    · next here =>
      cases reach with
      | object => exact Object.lineage_mapRegistrations o f
      | instances => exact absurd here (other rfl)
    · rfl

theorem setMixins (well : WellFormed loose v) (reach : Reach) (on : Handle) (mixins : List Mixin) :
    Leaves names v ((Interception.setMixins reach on mixins).exec v).2 := by
  have after := well.setMixins reach on mixins
  rcases Interception.exec_setMixins reach on mixins v with ⟨e, failed⟩ | ⟨r, a, b, -, -, done, remade, forgets⟩
  · rw [failed]
    exact .refl v
  · rw [done] at after ⊢
    refine .of_spoiled reach on after remade forgets (fun k o => Interception.identity_remixed k o) (fun k o => ?_)
      (fun k o other => ?_) fun k o other => ?_
    · exact Interception.view_remixed (fun f o => rfl) (fun o => Object.orders_mapRegistrations o reach _) k o
    · unfold Interception.remixed
      cases reach with
      | object => rw [if_neg (other rfl)]; split <;> split <;> rfl
      | instances => split <;> split <;> split <;> rfl
    · unfold Interception.remixed
      cases reach with
      | object => split <;> split <;> split <;> simp only [Object.lineage_mapUsers, Object.lineage_mapRegistrations]
      | instances => rw [if_neg (other rfl)]; split <;> split <;> simp only [Object.lineage_mapUsers]

theorem setMixinGuard (well : WellFormed loose v) (reach : Reach) (on cls : Handle) (guard : Option Predicate) :
    Leaves names v ((Interception.setMixinGuard reach on cls guard).exec v).2 := by
  have after := well.setMixinGuard reach on cls guard
  rcases Interception.exec_setMixinGuard reach on cls guard v with ⟨e, failed⟩ | ⟨r, b, -, done, forgets⟩
  · rw [failed]
    exact .refl v
  · rw [done] at after ⊢
    exact .of_mapRegistrations after forgets

theorem setFilters (well : WellFormed loose v) (reach : Reach) (on : Handle) (filters : List Filter) :
    Leaves names v ((Interception.setFilters reach on filters).exec v).2 := by
  have after := well.setFilters reach on filters
  rcases Interception.exec_setFilters reach on filters v with ⟨e, failed⟩ | ⟨r, b, -, done, forgets⟩
  · rw [failed]
    exact .refl v
  · rw [done] at after ⊢
    exact .of_mapRegistrations after forgets

theorem setFilterGuard (well : WellFormed loose v) (reach : Reach) (on : Handle) (name : String)
    (guard : Option Predicate) : Leaves names v ((Interception.setFilterGuard reach on name guard).exec v).2 := by
  have after := well.setFilterGuard reach on name guard
  rcases Interception.exec_setFilterGuard reach on name guard v with ⟨e, failed⟩ | ⟨r, b, -, done, forgets⟩
  · rw [failed]
    exact .refl v
  · rw [done] at after ⊢
    exact .of_mapRegistrations after forgets

theorem changeClass (well : WellFormed loose v) (h cls : Handle) :
    Leaves names v ((Lifecycle.changeClass h cls).exec v).2 := by
  have after := well.changeClass h cls
  rcases Lifecycle.exec_changeClass h cls v with ⟨r, kept⟩ | ⟨o, a, b, -, -, -, done, remade, forgets⟩
  · rw [kept]
    exact .refl v
  · rw [done] at after ⊢
    refine .of_spoiled .object h after remade forgets (fun k o => identity_reclassed k o)
      (fun k o => ?_) (fun k o other => ?_) fun k o _ => ?_
    · exact view_reclassed (fun _ _ => rfl) (fun _ => rfl) k o
    · unfold reclassed
      rw [if_neg (other rfl)]
      split <;> split <;> rfl
    · exact view_reclassed (fun f o => Object.lineage_mapInstances o f) (fun _ => rfl) k o

/-- A change of methods forgets orders, and it touches nothing else. -/
theorem of_mapMethods {s : Handle → Prop} {reach : Reach} {on : Handle} {f : NameTable Method → NameTable Method}
    (same : ∀ t, (f t).under names = t.under names)
    (forgets : Forgets s (v.objects.modify on (Object.mapMethods reach f)) w.objects) : Leaves names v w := by
  refine Leaves.trans (v := { v with objects := v.objects.modify on (Object.mapMethods reach f) })
    (.of_repose (.modify v.objects on fun o => ?_)) (.of_forgets forgets)
  unfold Object.repose
  rw [Object.station_mapMethods _ _ same, Object.orders_mapMethods, Object.lineage_mapMethods _ _ same]

theorem defineMethod (reach : Reach) (on : Handle) (method : Method) (apart : ¬names method.name) :
    Leaves names v ((Definition.defineMethod reach on method).exec v).2 := by
  rcases Definition.exec_defineMethod reach on method v with ⟨e, failed⟩ | ⟨o, table, b, -, -, done, forgets⟩
  · rw [failed]
    exact .refl v
  · rw [done]
    exact .of_mapMethods (fun t => t.under_insert apart _) forgets

theorem removeMethod (reach : Reach) (on : Handle) (name : String) (apart : ¬names name) :
    Leaves names v ((Definition.removeMethod reach on name).exec v).2 := by
  rcases Definition.exec_removeMethod reach on name v with ⟨e, failed⟩ | ⟨o, table, b, -, -, -, done, forgets⟩
  · rw [failed]
    exact .refl v
  · rw [done]
    exact .of_mapMethods (fun t => t.under_erase apart) forgets

/-! ## Superclasses -/

/-- Other superclasses of one class, after which the orders that depend on the class are forgotten. -/
theorem of_replaced {c : Handle} {new : List Handle} {a : Objects} (well : WellFormed loose v)
    (replaced : Hierarchy.Replaced v.objects (Function.update v.objects.supersOf c new) a)
    (forgets : Forgets (Interception.DependsOn v.objects c) a w.objects) : Leaves names v w := by
  intro h p live keeps
  obtain ⟨found, deleted⟩ := World.live?_eq_some_iff.1 live
  obtain ⟨between, unspoiled⟩ := forgets.of_cached found keeps.cached
  obtain ⟨o, before, same⟩ := replaced.alike.symm.exists_of_get? between
  have gone : o.deleted = p.deleted := (congrArg Object.deleted same :)
  have station : o.station names = p.station names := (congrArg (Object.station names) same :)
  have orders : o.orders = p.orders := (congrArg Object.orders same :)
  refine ⟨o, ⟨World.live?_eq_some_iff.2 ⟨before, gone.trans deleted⟩, live, station.symm, fun k draws => ?_⟩,
    orders.symm⟩
  have other : k ≠ c := by
    rintro rfl
    exact unspoiled (well.dependsOn draws)
  have blind : Heap.Alike (Object.lineage names) a w.objects := forgets.alike fun _ => rfl
  rw [blind.view]
  refine Heap.map_lineage_of_withoutAncestry replaced.alike ?_
  rw [replaced.supers, Function.update_of_ne other]

/-- Where the superclasses stay, nothing is touched. -/
theorem alike_repose_of_replaced {a b : Objects} (replaced : Hierarchy.Replaced a a.supersOf b) :
    Heap.Alike (Object.repose names) a b := by
  refine ⟨replaced.alike.layout, fun k => ?_⟩
  have lineage := @Heap.map_lineage_of_withoutAncestry names _ _ replaced.alike k (by rw [replaced.supers])
  have same := replaced.alike.view k
  cases before : a.get? k with
  | none =>
    rw [before] at same
    rw [Option.map_eq_none_iff.1 same]
  | some o =>
    rw [before] at same lineage
    obtain ⟨p, after, looks⟩ := Option.map_eq_some_iff.1 same
    rw [after] at lineage ⊢
    have station : p.station names = o.station names := (congrArg (Object.station names) looks :)
    have orders : p.orders = o.orders := (congrArg Object.orders looks :)
    simp only [Option.map_some, Option.some.injEq, Object.repose] at lineage ⊢
    rw [station, orders, lineage]

theorem setSuperclasses (well : WellFormed loose v) (c : Handle) (supers : List Handle) :
    Leaves names v ((Hierarchy.setSuperclasses c supers).exec v).2 := by
  rcases well.exec_setSuperclasses c supers with ⟨e, b, failed, after⟩ |
    ⟨o, new, a, b, -, -, -, -, -, done, after, -, forgets⟩
  · rw [failed]
    exact .of_repose (alike_repose_of_replaced after.toReplaced)
  · rw [done]
    exact .of_replaced well after forgets

/-! ## Arrivals -/

/-- An object without orders that arrives. -/
theorem of_arrives {h : Handle} {o : Object} (well : WellFormed loose v) (arrives : Arrives h o v.objects w.objects)
    (blank : ¬o.KeepsOrder) : Leaves names v w := by
  refine .of_kept well (fun k p live => ?_) fun k p dead live => ?_
  · have found := (World.live?_eq_some_iff.1 live).1
    have other : k ≠ h := by
      rintro rfl
      rw [arrives.vacant] at found
      cases found
    exact ⟨p, by rw [arrives.get?, if_neg other, found], rfl, rfl, rfl⟩
  · obtain ⟨found, deleted⟩ := World.live?_eq_some_iff.1 live
    rw [arrives.get?] at found
    split at found
    · cases found
      exact blank
    · rw [World.live?_eq_some_iff.2 ⟨found, deleted⟩] at dead
      cases dead

theorem of_mapInstances {c : Handle} {g : HandleSet → HandleSet}
    (objects : w.objects = v.objects.modify c (Object.mapInstances g)) : Leaves names v w := by
  refine .of_repose (objects ▸ .modify v.objects c fun o => ?_)
  rw [Object.repose, Object.lineage_mapInstances]
  rfl

/-- One handle resolves to nothing live before and to nothing afterwards; all else looks the same. -/
theorem of_others {h : Handle} (well : WellFormed loose v) (dead : v.live? h = none) (gone : w.objects.get? h = none)
    (others : ∀ k, k ≠ h → (w.objects.get? k).map (Object.repose names) = (v.objects.get? k).map (Object.repose names)) :
    Leaves names v w := by
  refine .of_kept well (fun k o live => ?_) fun k p before live => ?_
  · have other : k ≠ h := by
      rintro rfl
      rw [dead] at live
      cases live
    have same := others k other
    rw [(World.live?_eq_some_iff.1 live).1] at same
    obtain ⟨p, after, looks⟩ := Option.map_eq_some_iff.1 same
    exact ⟨p, after, congrArg (·.1) looks, congrArg (·.2.1) looks, congrArg (·.2.2) looks⟩
  · obtain ⟨found, deleted⟩ := World.live?_eq_some_iff.1 live
    have other : k ≠ h := by
      rintro rfl
      rw [gone] at found
      cases found
    have same := others k other
    rw [found] at same
    obtain ⟨o, here, looks⟩ := Option.map_eq_some_iff.1 same.symm
    have alive : o.deleted = p.deleted := congrArg (·.2.2.1) looks
    rw [World.live?_eq_some_iff.2 ⟨here, alive.trans deleted⟩] at before
    cases before

theorem release {h : Handle} (well : WellFormed loose v) (dead : v.live? h = none)
    (objects : w.objects = v.objects.release h) : Leaves names v w := by
  refine .of_others well dead (by rw [objects, Heap.get?_release, if_pos rfl]) fun k other => ?_
  rw [objects, Heap.get?_release, if_neg other]

theorem enroll (well : WellFormed loose v) (room : v.objects.HasRoom) {o : Object} (unlinked : o.Unlinked)
    (cls : v.isClass o.cls = true) (free : v.names.get? o.name = none) (system : ∃ s, v.systems[o.system]? = some s)
    (root : o.isRoot = false) (blank : ¬o.KeepsOrder) : Leaves names v ((Lifecycle.enroll o).exec v).2 := by
  obtain ⟨h, a, arrives, -, done, -⟩ := well.exec_enroll room unlinked cls free system root
  rw [done]
  exact Leaves.trans (v := { v with objects := a }) (.of_arrives well arrives blank) (.of_mapInstances rfl)

theorem createSystem (well : WellFormed loose v) (remain : v.objects.HandlesRemain) (root metaclass : String)
    (methods : SystemMethods) : Leaves names v ((Lifecycle.createSystem root metaclass methods).exec v).2 := by
  rcases Lifecycle.exec_createSystem well.sound remain root metaclass methods with
    ⟨e, failed⟩ | ⟨r, m, a, b, -, -, -, first, second, -, done⟩
  · rw [failed]
    exact .refl v
  rw [done]
  have others : ∀ k, k ≠ r → k ≠ m → (Lifecycle.founded v (Definition.qualify root) (Definition.qualify metaclass) r m
      methods b).objects.get? k = v.objects.get? k := by
    intro k apart other
    unfold Lifecycle.founded Hierarchy.link Heap.modifyClass
    simp only [Heap.get?_modify, if_neg apart, if_neg other, second.get?, first.get?]
  have blank : ∀ k p, k = r ∨ k = m → (Lifecycle.founded v (Definition.qualify root) (Definition.qualify metaclass) r m
      methods b).objects.get? k = some p → ¬p.KeepsOrder := by
    intro k p either found
    unfold Lifecycle.founded Hierarchy.link Heap.modifyClass at found
    simp only [Heap.get?_modify, second.get?, first.get?] at found
    have bare : ∀ o : Object, o.mixinOrder = none → o.filterOrder = none → ¬o.KeepsOrder := fun o one two keeps =>
      keeps (Prod.ext one two)
    grind [Lifecycle.rootClassObject, Lifecycle.rootMetaclassObject, Object.newClass]
  refine .of_kept well (fun k p live => ?_) fun k p dead live => ?_
  · have found := (World.live?_eq_some_iff.1 live).1
    have apart : k ≠ r := by
      rintro rfl
      rw [first.vacant] at found
      cases found
    have other : k ≠ m := by
      rintro rfl
      have vacant := second.vacant
      rw [first.get?, if_neg apart, found] at vacant
      cases vacant
    exact ⟨p, (others k apart other).trans found, rfl, rfl, rfl⟩
  · obtain ⟨found, deleted⟩ := World.live?_eq_some_iff.1 live
    by_cases either : k = r ∨ k = m
    · exact blank k p either found
    · rw [not_or] at either
      rw [others k either.1 either.2] at found
      rw [World.live?_eq_some_iff.2 ⟨found, deleted⟩] at dead
      cases dead

theorem repose_mapInstances (g : HandleSet → HandleSet) (o : Object) : (o.mapInstances g).repose names = o.repose names := by
  rw [Object.repose, Object.lineage_mapInstances]
  rfl

theorem enrollClass (well : WellFormed loose v) (room : v.objects.HasRoom) (name : String) (metaclass : Handle)
    (supers : List Handle) : Leaves names v ((Lifecycle.enrollClass name metaclass supers).exec v).2 := by
  rcases well.exec_enrolledClass room name metaclass supers with ⟨r, kept⟩ |
    ⟨p, h, a, u, -, -, arrives, different, -, is, wellAfter, outcome⟩
  · rw [kept]
    exact .refl v
  have joined : Leaves names v u := by
    rw [is]
    exact Leaves.trans (v := { v with objects := a }) (.of_arrives well arrives fun keeps => keeps rfl)
      (.of_mapInstances rfl)
  rcases outcome with ⟨t, done, ended⟩ | ⟨e, t, refused, -, replaced, ended⟩
  · have set : Leaves names u _ := .setSuperclasses wellAfter h supers
    rw [ended]
    rw [done] at set
    exact joined.trans set
  · rw [ended]
    have dead : v.live? h = none := by
      rw [World.live?, arrives.vacant]
      rfl
    refine .of_others well dead (by rw [Heap.get?_release, if_pos rfl]) fun k other => ?_
    have left : Heap.Alike (Object.repose names) t.objects (t.objects.leave h metaclass) :=
      .modify _ _ (repose_mapInstances _)
    have entered : Heap.Alike (Object.repose names) a (a.join h metaclass) := .modify _ _ (repose_mapInstances _)
    rw [Heap.get?_release, if_neg other, left.view, (alike_repose_of_replaced replaced.toReplaced).view, is]
    change ((a.join h metaclass).get? k).map (Object.repose names) = _
    rw [entered.view, arrives.get?, if_neg other]

end Leaves

/-! ## Destruction -/

namespace Object

theorem affected_mapUsers (u : List Handle → List Handle) (o : Object) :
    (o.mapClass (·.mapUsers .instances u)).affected = o.affected := by
  simp [affected, mapClass, ClassPart.mapUsers, Function.comp_def]

theorem affected_mapOrder (f : Option (List Handle) → Option (List Handle)) (o : Object) :
    (o.mapClass fun c => { c with order := f c.order }).affected = o.affected := by
  simp [affected, mapClass, Function.comp_def]

end Object

namespace Dissolution

variable {loose tight : Handle → Prop} {h : Handle} {o : Object} {part : ClassPart} {w : World}

/-- The objects that a class counts among its instances or its users keep being known to it, unless it goes itself. -/
theorem mem_affectedBy (well : WellFormed tight w) (d : Dissolution loose h part w) {k s : Handle} (other : s ≠ h)
    (start : s ∈ w.starts k) (below : s ∈ Hierarchy.dependentSubclasses w.objects h) :
    k ∈ Interception.affectedBy (Hierarchy.forgetOrders d.deserted (Hierarchy.dependentSubclasses w.objects h))
      (Hierarchy.dependentSubclasses w.objects h) := by
  obtain ⟨q, partS, live, isPart, known⟩ := well.exists_start start
  have moved : d.vacated.get? s = some (evacuated h d.new (part.instances.erase h).toList s q) := by
    rw [d.instances.get?, (World.live?_eq_some_iff.1 live).1]
    rfl
  have known' : ∃ part', (evacuated h d.new (part.instances.erase h).toList s q).classPart = some part' ∧
      (k ∈ part'.instances ∨ k ∈ part'.objectUsers) := by
    obtain ⟨part', isPart', members⟩ :=
      @instances_evacuated h d.new (part.instances.erase h).toList partS s q isPart
    have users : part'.objectUsers = partS.objectUsers := by
      have same : (evacuated h d.new (part.instances.erase h).toList s q).classPart.map (·.objectUsers) =
          q.classPart.map (·.objectUsers) :=
        @view_evacuated _ _ _ _ (fun o => o.classPart.map (·.objectUsers))
          (fun f o => by simp [Object.mapInstances, Object.mapClass, Function.comp_def]) (fun _ => rfl) s q
      simpa [isPart, isPart'] using same
    refine ⟨part', isPart', known.imp (fun inside => (members k).2 ⟨other, .inl inside⟩) fun user => ?_⟩
    rwa [users]
  obtain ⟨part', isPart', known'⟩ := known'
  have affected : Heap.Alike Object.affected d.vacated
      (Hierarchy.forgetOrders d.deserted (Hierarchy.dependentSubclasses w.objects h)) :=
    (d.topless_alike.comp _ fun o => (Object.affected_withoutAncestry o).symm).trans
      (((d.objectUsers.alike (fun _ => rfl) (view_dropped affected_dropMixin)).trans
        (d.classUsers.alike (fun _ => rfl) (view_dropped affected_dropMixin))).trans
        ((d.targets.alike fun k o _ => view_deserted Object.affected_mapUsers k o).trans
          (.foldl (fun a c => .modify a c fun o => Object.affected_mapOrder (fun _ => none) o) _ _)))
  have view := affected.view s
  rw [moved] at view
  obtain ⟨p, there, looks⟩ := Option.map_eq_some_iff.1 view
  simp only [Object.affected, isPart', Option.map_some] at looks
  obtain ⟨partP, isPartP, same⟩ := Option.map_eq_some_iff.1 looks
  refine Interception.mem_affectedBy.2 ⟨s, below, partP, by rw [Heap.class?, there]; exact isPartP, ?_⟩
  have instances : partP.instances = part'.instances := congrArg Prod.fst same
  have users : partP.objectUsers = part'.objectUsers := congrArg Prod.snd same
  rwa [instances, users]

/-- What keeps an order was not known to the class, and it has stayed as it was. -/
theorem of_keepsOrder (d : Dissolution loose h part w) {k : Handle} {p : Object} (found : d.forgotten.get? k = some p)
    (keeps : p.KeepsOrder) : ∃ o, w.objects.get? k = some o ∧ p.station names = o.station names ∧ p.orders = o.orders ∧
      p.deleted = o.deleted ∧ k ∉ (part.instances.erase h).toList ∧ k ∉ part.objectUsers ∧
      k ∉ Interception.affectedBy (Hierarchy.forgetOrders d.deserted (Hierarchy.dependentSubclasses w.objects h))
        (Hierarchy.dependentSubclasses w.objects h) := by
  let look (o : Object) := (o.station names, o.orders, o.deleted)
  obtain ⟨forgot, unaffected⟩ := d.orders.of_cached found keeps.cached
  have late : Heap.Alike look d.unshared (Hierarchy.forgetOrders d.deserted
      (Hierarchy.dependentSubclasses w.objects h)) :=
    (d.targets.alike fun k o _ => view_deserted (fun _ _ => rfl) k o).trans
      (.foldl (fun a c => .modify a c fun o => (rfl : look (o.mapClass fun c => { c with order := none }) = look o)) _ _)
  obtain ⟨q, unshared, lateLook⟩ := late.symm.exists_of_get? forgot
  have keepsQ : q.KeepsOrder := by
    have same : q.orders = p.orders := congrArg (·.2.1) lateLook
    unfold Object.KeepsOrder
    rwa [same]
  obtain ⟨r, unmixed, rfl, -⟩ := d.classUsers.of_cached unshared keepsQ.cached
  have second : look (dropped .instances h part.classUsers k r) = look r := view_dropped (fun _ => rfl) k r
  have keepsR : r.KeepsOrder := by
    have same : (dropped .instances h part.classUsers k r).orders = r.orders := congrArg (·.2.1) second
    unfold Object.KeepsOrder at keepsQ ⊢
    rwa [same] at keepsQ
  obtain ⟨x, topless, rfl, noUser⟩ := d.objectUsers.of_cached unmixed keepsR.cached
  have stays : dropped .object h part.objectUsers k x = x := if_neg noUser
  rw [stays] at lateLook second keepsR
  obtain ⟨y, vacated, looks⟩ := d.topless_alike.symm.exists_of_get? topless
  have middle : look y = look x := (congrArg look looks :)
  rw [d.instances.get?] at vacated
  obtain ⟨o, before, rfl⟩ := Option.map_eq_some_iff.1 vacated
  have noInstance : k ∉ (part.instances.erase h).toList := by
    intro inside
    have cleared : (evacuated h d.new (part.instances.erase h).toList k o).orders = (none, none) := by
      unfold evacuated Lifecycle.moved
      rw [if_pos inside]
      split <;> split <;> rfl
    have same : (evacuated h d.new (part.instances.erase h).toList k o).orders = x.orders := congrArg (·.2.1) middle
    exact keepsR (same.symm.trans cleared)
  have early : look (evacuated h d.new (part.instances.erase h).toList k o) = look o := by
    unfold evacuated Lifecycle.moved
    rw [if_neg noInstance]
    split <;> split <;> rfl
  have whole : look p = look o := lateLook.symm.trans (second.trans (middle.symm.trans early))
  exact ⟨o, before, congrArg (·.1) whole, congrArg (·.2.1) whole, congrArg (·.2.2) whole, noInstance, noUser, unaffected⟩

/-- Classes that neither inherit from the class nor mix it in keep their lineage. -/
theorem lineage_of_apart (d : Dissolution loose h part w) {c : Handle} (other : c ≠ h) (noSub : c ∉ part.subs)
    (noUser : c ∉ part.classUsers) :
    (d.forgotten.get? c).map (Object.lineage names) = (w.objects.get? c).map (Object.lineage names) := by
  have late : Heap.Alike (Object.lineage names) d.unshared d.forgotten :=
    ((d.targets.alike fun k o _ => view_deserted (fun f o => Object.lineage_mapUsers o f .instances) k o).trans
      (.foldl (fun a c => .modify a c fun o => Object.lineage_mapOrder o fun _ => none) _ _)).trans
        (d.orders.alike fun _ => rfl)
  have stays : ∀ o, dropped .instances h part.classUsers c o = o := fun o => if_neg noUser
  have early : Heap.Alike (Object.lineage names) w.objects d.vacated := d.instances.alike fun k o _ =>
    view_evacuated (fun f o => Object.lineage_mapInstances o f) (fun _ => rfl) k o
  have supers : d.topless.supersOf c = d.vacated.supersOf c := by
    rw [← d.late_ancestry.supersOf_of_ancestry, d.supersOf_of_not_mem noSub other,
      d.early_ancestry.supersOf_of_ancestry]
  have unmixed : Heap.Alike (Object.lineage names) d.topless d.unmixed :=
    d.objectUsers.alike (fun _ => rfl) (view_dropped fun _ => rfl)
  rw [late.view, d.classUsers.map_view fun o => (rfl : o.withoutOrders.lineage names = o.lineage names)]
  simp only [stays]
  rw [unmixed.view, Heap.map_lineage_of_withoutAncestry d.topless_alike supers, early.view]

end Dissolution

namespace Leaves

variable {names : String → Prop} {loose : Handle → Prop} {v w : World} {h : Handle} {o : Object}

/-- What draws on a class that is unlinked is known to it, directly or through a class that depends on it. -/
private theorem not_draws_of_dissolution {tight : Handle → Prop} {part : ClassPart} (well : WellFormed loose v)
    (live : v.live? h = some o) (isPart : o.classPart = some part) (d : Dissolution tight h part v) {k : Handle}
    (other : k ≠ h) (noInstance : k ∉ (part.instances.erase h).toList) (noUser : k ∉ part.objectUsers)
    (unaffected : k ∉ Interception.affectedBy
      (Hierarchy.forgetOrders d.deserted (Hierarchy.dependentSubclasses v.objects h))
      (Hierarchy.dependentSubclasses v.objects h)) : ¬v.Draws k h := by
  rintro ⟨s, start, path⟩
  by_cases here : s = h
  · subst here
    obtain ⟨q, partQ, found, isPartQ, known⟩ := well.exists_start start
    rw [live] at found
    cases found
    rw [isPart] at isPartQ
    cases isPartQ
    rcases known with inside | user
    · exact noInstance (HandleSet.mem_erase.2 ⟨inside, other⟩)
    · exact noUser user
  · exact unaffected (d.mem_affectedBy well here start
      (Hierarchy.mem_dependentSubclasses.2 (well.reaches_dependent path)))

/-- Unlinking the class part of `h`, as other objects see it. -/
private theorem of_disbands (well : WellFormed loose v) (live : v.live? h = some o)
    (disbands : Disbands loose h o v w) {k : Handle} {p : Object} (other : k ≠ h) (after : w.live? k = some p)
    (keeps : p.KeepsOrder) : ∃ q, Untouched names v w k q p ∧ p.orders = q.orders ∧ (¬v.Draws k h ∨ o.classPart = none) := by
  rcases disbands with ⟨noPart, rfl⟩ | ⟨part, isPart, d, rfl⟩
  · exact ⟨p, .refl after, rfl, .inr noPart⟩
  obtain ⟨found, deleted⟩ := World.live?_eq_some_iff.1 after
  obtain ⟨q, before, station, orders, gone, noInstance, noUser, unaffected⟩ := d.of_keepsOrder found keeps
  have apart := not_draws_of_dissolution well live isPart d other noInstance noUser unaffected
  refine ⟨q, ⟨World.live?_eq_some_iff.2 ⟨before, gone.symm.trans deleted⟩, after, station, fun c draws => ?_⟩, orders,
    .inl apart⟩
  refine d.lineage_of_apart (fun same => apart (same ▸ draws)) (fun sub => ?_) fun user => ?_
  · refine apart (draws.tail (List.mem_append_left _ ?_))
    rw [← well.linked.mirrored.subs, WellFormed.subsOf_of_live live isPart]
    exact sub
  · refine apart (draws.tail (List.mem_append_right _ (((well.mixed .instances).users h c).1 ?_)))
    exact (WellFormed.mem_usersOf_of_live live isPart).2 user

theorem unlink (well : WellFormed loose v) (live : v.live? h = some o) (root : o.isRoot = false) :
    Leaves names v ((Lifecycle.unlink h).exec v).2 := by
  obtain ⟨u, t, is, well', here, disbands, done⟩ := well.exec_unlink live root
  obtain ⟨x, there, -⟩ := disbands.exists_live here
  have disbanded := disbands.disbanded well' here
  obtain ⟨b, remade, retires⟩ :=
    Lifecycle.exec_retire there ((disbanded.named.name x.name h).2 ⟨x, there, rfl⟩)
  have marked : Leaves names v u := by
    rw [is]
    exact .of_repose (.modify _ _ fun _ => rfl)
  refine marked.trans ?_
  rw [done, retires]
  have departs : Departs h (b.leave h x.cls) (Lifecycle.retired b h x) := Lifecycle.departs_retired x
  have left : Heap.Alike (Object.repose names) t.objects (b.leave h x.cls) :=
    (remade.alike fun k o _ => view_deserted (fun f o => by
      rw [Object.repose, Object.lineage_mapUsers]; rfl) k o).trans (.modify _ _ (repose_mapInstances _))
  have others : ∀ k, k ≠ h → ((Lifecycle.retired b h x).get? k).map (Object.repose names) =
      (t.objects.get? k).map (Object.repose names) := fun k other => by
    rw [departs.others k other, left.view]
  intro k p after keeps
  obtain ⟨found, deleted⟩ := World.live?_eq_some_iff.1 after
  have other : k ≠ h := by
    rintro rfl
    rw [(departs.gone p found).1] at deleted
    cases deleted
  have same := others k other
  change (Lifecycle.retired b h x).get? k = some p at found
  rw [found] at same
  obtain ⟨q, between, looks⟩ := Option.map_eq_some_iff.1 same.symm
  have station : q.station names = p.station names := congrArg (·.1) looks
  have orders : q.orders = p.orders := congrArg (·.2.1) looks
  have gone : q.deleted = p.deleted := congrArg (·.2.2.1) looks
  have keepsQ : q.KeepsOrder := by
    unfold Object.KeepsOrder
    rwa [orders]
  obtain ⟨y, untouched, same, apart⟩ := of_disbands well' here disbands other
    (World.live?_eq_some_iff.2 ⟨between, gone.trans deleted⟩) keepsQ
  refine ⟨y, ⟨untouched.before, after, station.symm.trans untouched.station, fun c draws => ?_⟩, orders.symm.trans same⟩
  have different : c ≠ h := by
    rintro rfl
    rcases apart with apart | noPart
    · exact apart draws
    · obtain ⟨z, partZ, found, isPart⟩ := World.isClass_iff.1 (well'.isClass_of_draws draws)
      rw [here] at found
      cases found
      rw [noPart] at isPart
      cases isPart
  have last := congrArg (Option.map fun r => r.2.2) (others c different)
  simp only [Option.map_map] at last
  exact last.trans (untouched.lineage c draws)

end Leaves

end DynamicObjects
