import DynamicObjects.Proofs.Runs.Change
import DynamicObjects.Proofs.Structure.Clearance

/-!
# Who lives in a world

Most deeds only link objects anew, register something at them or keep orders, and leave everything else of them as it
is. The others change a class or a method table, bring newcomers, or let an object go.
-/
namespace DynamicObjects

open Object

variable {loose : Handle → Prop} {v w : World}

/-- What is left of an object when its links to others are put aside, but for its class. -/
def Object.apart (o : Object) : Object :=
  { o with
    registrations := {}
    mixinOrder := none
    filterOrder := none
    classPart := o.classPart.map fun c => { methods := c.methods } }

namespace Object

theorem apart_mapInstances (f : HandleSet → HandleSet) (o : Object) : (o.mapInstances f).apart = o.apart := by
  simp [apart, mapInstances, mapClass, Function.comp_def]

theorem apart_mapUsers (reach : Reach) (f : List Handle → List Handle) (o : Object) :
    (o.mapClass (·.mapUsers reach f)).apart = o.apart := by
  cases reach <;> simp [apart, mapClass, ClassPart.mapUsers, Function.comp_def]

theorem apart_mapOrder (f : Option (List Handle) → Option (List Handle)) (o : Object) :
    (o.mapClass fun c => { c with order := f c.order }).apart = o.apart := by
  simp [apart, mapClass, Function.comp_def]

theorem apart_mapRegistrations (reach : Reach) (f : Registrations → Registrations) (o : Object) :
    (o.mapRegistrations reach f).apart = o.apart := by
  cases reach <;> simp [apart, mapRegistrations, mapClass, Function.comp_def]

theorem identity_apart (o : Object) : o.identity = o.apart.identity := by
  simp [identity, apart, isClass]

theorem apart_withoutPrecedence (o : Object) : o.withoutPrecedence.apart = o.apart := by
  simp [apart, withoutPrecedence, Function.comp_def]

theorem apart_withoutAncestry (o : Object) : o.withoutAncestry.apart = o.apart := by
  simp [apart, withoutAncestry, Function.comp_def]

/-- What is left of an object when even its class is put aside. -/
def alone (o : Object) : Object :=
  { o.apart with cls := default }

theorem alone_of_apart {o p : Object} (same : o.apart = p.apart) : o.alone = p.alone :=
  congrArg (fun p : Object => { p with cls := default }) same

theorem map_alone {x y : Option Object} (same : x.map apart = y.map apart) : x.map alone = y.map alone := by
  have both := congrArg (Option.map fun p : Object => { p with cls := default }) same
  rwa [Option.map_map, Option.map_map] at both

end Object

/-! ## Links -/

/-- Objects are linked anew, and users of filters are tracked. -/
structure Relinks (v w : World) : Prop where
  objects : Heap.Alike apart v.objects w.objects
  rest : w = { v with objects := w.objects, filterUsers := w.filterUsers }

namespace Relinks

theorem refl (v : World) : Relinks v v :=
  ⟨.refl _, rfl⟩

theorem systems (relinks : Relinks v w) : w.systems = v.systems :=
  (congrArg World.systems relinks.rest :)

theorem registry (relinks : Relinks v w) : w.registry = v.registry :=
  (congrArg World.registry relinks.rest :)

theorem of_objects {b : Objects} (alike : Heap.Alike apart v.objects b) : Relinks v { v with objects := b } :=
  ⟨alike, rfl⟩

theorem precedenceOrder (well : WellFormed loose v) (c : Handle) : Relinks v ((Update.precedenceOrder c).exec v).2 := by
  obtain ⟨b, done, filled⟩ := well.filled_precedenceOrder c
  rw [done]
  exact .of_objects (filled.alike.comp _ fun o => o.apart_withoutPrecedence.symm)

theorem mixinOrder (well : WellFormed loose v) (h : Handle) : Relinks v ((Interception.mixinOrder h).exec v).2 := by
  obtain ⟨b, done, alike⟩ := alike_mixinOrder apart_withoutPrecedence (fun _ _ => rfl) well h
  rw [done]
  exact .of_objects alike

theorem filterOrder (well : WellFormed loose v) (h : Handle) : Relinks v ((Interception.filterOrder h).exec v).2 := by
  obtain ⟨b, done, alike⟩ := alike_filterOrder apart_withoutPrecedence (fun _ _ => rfl) (fun _ _ => rfl) well h
  rw [done]
  exact .of_objects alike

theorem setSuperclasses (well : WellFormed loose v) (c : Handle) (supers : List Handle) :
    Relinks v ((Hierarchy.setSuperclasses c supers).exec v).2 := by
  have bare : ∀ {a b : Objects}, Heap.Alike withoutAncestry a b → Heap.Alike apart a b :=
    fun alike => alike.comp _ fun o => o.apart_withoutAncestry.symm
  rcases well.exec_setSuperclasses c supers with ⟨e, b, failed, after⟩ |
    ⟨o, new, a, b, -, -, -, -, -, done, after, -, forgets⟩
  · rw [failed]
    exact .of_objects (bare after.alike)
  · rw [done]
    exact .of_objects ((bare after.alike).trans (forgets.alike fun _ => rfl))

theorem setMixins (reach : Reach) (on : Handle) (mixins : List Mixin) (v : World) :
    Relinks v ((Interception.setMixins reach on mixins).exec v).2 := by
  rcases Interception.exec_setMixins reach on mixins v with ⟨e, failed⟩ | ⟨r, a, b, -, -, done, remade, forgets⟩
  · rw [failed]
    exact .refl v
  · rw [done]
    have entered : Heap.Alike apart v.objects a := remade.alike fun k o _ =>
      Interception.view_remixed (apart_mapUsers reach) (apart_mapRegistrations reach _) k o
    exact .of_objects (entered.trans (forgets.alike fun _ => rfl))

/-- Registering something at one object and forgetting orders. -/
private theorem apart_of_forgets {s : Handle → Prop} {reach : Reach} {on : Handle} {f : Registrations → Registrations}
    {a b : Objects} (forgets : Forgets s (a.modify on (mapRegistrations reach f)) b) : Heap.Alike apart a b :=
  (Heap.Alike.modify a on (apart_mapRegistrations reach f)).trans (forgets.alike fun _ => rfl)

theorem setMixinGuard (reach : Reach) (on cls : Handle) (guard : Option Predicate) (v : World) :
    Relinks v ((Interception.setMixinGuard reach on cls guard).exec v).2 := by
  rcases Interception.exec_setMixinGuard reach on cls guard v with ⟨e, failed⟩ | ⟨r, b, -, done, forgets⟩
  · rw [failed]
    exact .refl v
  · rw [done]
    exact .of_objects (apart_of_forgets forgets)

theorem setFilters (reach : Reach) (on : Handle) (filters : List Filter) (v : World) :
    Relinks v ((Interception.setFilters reach on filters).exec v).2 := by
  rcases Interception.exec_setFilters reach on filters v with ⟨e, failed⟩ | ⟨r, b, -, done, forgets⟩
  · rw [failed]
    exact .refl v
  · rw [done]
    exact ⟨apart_of_forgets forgets, rfl⟩

theorem setFilterGuard (reach : Reach) (on : Handle) (name : String) (guard : Option Predicate) (v : World) :
    Relinks v ((Interception.setFilterGuard reach on name guard).exec v).2 := by
  rcases Interception.exec_setFilterGuard reach on name guard v with ⟨e, failed⟩ | ⟨r, b, -, done, forgets⟩
  · rw [failed]
    exact .refl v
  · rw [done]
    exact .of_objects (apart_of_forgets forgets)

end Relinks

/-! ## Changes of class -/

theorem alone_of_changeClass (h cls : Handle) (v : World) : ∃ b,
    ((Lifecycle.changeClass h cls).exec v).2 = { v with objects := b } ∧ Heap.Alike alone v.objects b := by
  rcases Lifecycle.exec_changeClass h cls v with ⟨r, kept⟩ | ⟨o, a, b, -, -, -, done, remade, forgets⟩
  · rw [kept]
    exact ⟨v.objects, rfl, .refl _⟩
  · rw [done]
    have moved : Heap.Alike alone v.objects a := remade.alike fun k o _ =>
      view_reclassed (fun f o => alone_of_apart (o.apart_mapInstances f)) (fun _ => rfl) k o
    exact ⟨b, rfl, moved.trans (forgets.alike fun _ => rfl)⟩

/-- Nothing changes, or one object changes its class and all others keep theirs. -/
theorem cls_of_changeClass (h cls : Handle) (v : World) :
    (∃ r, (Lifecycle.changeClass h cls).exec v = (r, v)) ∨
      ∃ o w, v.live? h = some o ∧ v.isClass cls = true ∧ v.isMetaclass cls = o.isClass ∧
        (Lifecycle.changeClass h cls).exec v = (.ok ⟨⟩, w) ∧ w.systems = v.systems ∧
        ∀ k q, w.live? k = some q →
          ∃ p, v.live? k = some p ∧ q.identity = p.identity ∧ q.cls = if k = h then cls else p.cls := by
  rcases Lifecycle.exec_changeClass h cls v with kept | ⟨o, a, b, live, isClass, suits, done, remade, forgets⟩
  · exact .inl kept
  refine .inr ⟨o, _, live, isClass, suits, done, rfl, fun k q after => ?_⟩
  have forgotten : Heap.Alike (fun o => (o.identity, o.cls)) a b := forgets.alike fun _ => rfl
  obtain ⟨x, between, same⟩ := forgotten.symm.exists_of_live? (v := { v with objects := b })
    (w := { v with objects := a }) (fun _ _ same => congrArg (·.1.deleted) same) after
  rw [remade.live? (v := v) fun k o => congrArg Identity.deleted (identity_reclassed k o)] at between
  obtain ⟨p, before, rfl⟩ := Option.map_eq_some_iff.1 between
  exact ⟨p, before, (congrArg Prod.fst same).symm.trans (identity_reclassed k p),
    (congrArg Prod.snd same).symm.trans (cls_reclassed k p)⟩

/-! ## Newcomers and objects that go -/

/-- The live objects are the former ones, but for those that have gone, and newcomers. -/
structure Turnover {β : Type} (view : Object → β) (new : β → Prop) (gone : Handle → Prop) (v w : World) : Prop where
  left : ∀ h, gone h → w.live? h = none
  stays : ∀ h o, v.live? h = some o → ¬gone h → ∃ p, w.live? h = some p ∧ view p = view o
  came : ∀ h p, w.live? h = some p → (v.live? h = none ∧ new (view p)) ∨ ∃ o, v.live? h = some o ∧ view p = view o

/-- Nobody. -/
abbrev Nobody : Handle → Prop :=
  fun _ => False

namespace Turnover

theorem of_arrives {h : Handle} {o : Object} {a : Objects} (arrives : Arrives h o v.objects a)
    (alike : Heap.Alike apart a w.objects) : Turnover apart (· = o.apart) Nobody v w := by
  have deleted : ∀ {p q : Object}, p.apart = q.apart → p.deleted = q.deleted :=
    fun same => (congrArg Object.deleted same :)
  refine ⟨fun _ no => no.elim, fun k p live _ => ?_, fun k p live => ?_⟩
  · obtain ⟨found, here⟩ := World.live?_eq_some_iff.1 live
    have other : k ≠ h := by
      rintro rfl
      rw [arrives.vacant] at found
      cases found
    obtain ⟨q, after, same⟩ := alike.exists_of_get? (((arrives.get? k).trans (if_neg other)).trans found)
    exact ⟨q, World.live?_eq_some_iff.2 ⟨after, (deleted same).trans here⟩, same⟩
  · obtain ⟨found, here⟩ := World.live?_eq_some_iff.1 live
    obtain ⟨q, before, same⟩ := alike.symm.exists_of_get? found
    rw [arrives.get?] at before
    split at before
    · next new =>
      cases before
      exact .inl ⟨by rw [World.live?, new, arrives.vacant]; rfl, same.symm⟩
    · exact .inr ⟨q, World.live?_eq_some_iff.2 ⟨before, (deleted same).trans here⟩, same.symm⟩

/-- One newcomer after the other. -/
theorem trans {u : World} {new : Object → Prop} (first : Turnover apart new Nobody u v)
    (second : Turnover apart new Nobody v w) : Turnover apart new Nobody u w := by
  refine ⟨fun _ no => no.elim, fun h o live here => ?_, fun h p live => ?_⟩
  · obtain ⟨q, between, same⟩ := first.stays h o live here
    obtain ⟨p, after, further⟩ := second.stays h q between here
    exact ⟨p, after, further.trans same⟩
  · rcases second.came h p live with ⟨vacant, new⟩ | ⟨q, between, same⟩
    · refine .inl ⟨?_, new⟩
      cases before : u.live? h with
      | none => rfl
      | some o =>
        obtain ⟨q, between, -⟩ := first.stays h o before id
        rw [vacant] at between
        cases between
    · rcases first.came h q between with ⟨vacant, new⟩ | ⟨o, before, further⟩
      · exact .inl ⟨vacant, same ▸ new⟩
      · exact .inr ⟨o, before, same.trans further⟩

theorem mono {β : Type} {view : Object → β} {new more : β → Prop} {gone : Handle → Prop}
    (turnover : Turnover view new gone v w) (includes : ∀ x, new x → more x) : Turnover view more gone v w :=
  ⟨turnover.left, turnover.stays, fun h p live => (turnover.came h p live).imp (And.imp_right (includes _)) id⟩

theorem of_alike {β : Type} {view : Object → β} {new : β → Prop} (alike : Heap.Alike view v.objects w.objects)
    (sees : ∀ o p, view o = view p → o.deleted = p.deleted) : Turnover view new Nobody v w :=
  ⟨fun _ no => no.elim, fun _ _ live _ => alike.exists_of_live? sees live, fun _ _ live =>
    .inr ((alike.symm.exists_of_live? sees live).imp fun _ both => both.imp id Eq.symm)⟩

/-- At most one object goes, and the others look as before. -/
theorem of_others {β : Type} {view : Object → β} {new : β → Prop} {h : Handle}
    (sees : ∀ o p, view o = view p → o.deleted = p.deleted)
    (others : ∀ k, k ≠ h → (w.objects.get? k).map view = (v.objects.get? k).map view) (left : w.live? h = none) :
    Turnover view new (· = h) v w := by
  have passes : ∀ {x y : World} {k : Handle} {o : Object},
      (y.objects.get? k).map view = (x.objects.get? k).map view → x.live? k = some o →
      ∃ p, y.live? k = some p ∧ view p = view o := by
    intro x y k o same live
    obtain ⟨found, here⟩ := World.live?_eq_some_iff.1 live
    rw [found] at same
    obtain ⟨p, after, looks⟩ := Option.map_eq_some_iff.1 same
    exact ⟨p, World.live?_eq_some_iff.2 ⟨after, (sees p o looks).trans here⟩, looks⟩
  refine ⟨fun k same => same ▸ left, fun k o live other => passes (others k other) live, fun k p live => ?_⟩
  have other : k ≠ h := by
    rintro rfl
    rw [left] at live
    cases live
  obtain ⟨o, before, same⟩ := passes (others k other).symm live
  exact .inr ⟨o, before, same.symm⟩

/-- Nobody goes who was not there. -/
theorem nobody {β : Type} {view : Object → β} {new : β → Prop} {h : Handle} (turnover : Turnover view new (· = h) v w)
    (vacant : v.live? h = none) : Turnover view new Nobody v w := by
  refine ⟨fun _ no => no.elim, fun k o live _ => turnover.stays k o live ?_, turnover.came⟩
  rintro rfl
  rw [vacant] at live
  cases live

theorem enroll (well : WellFormed loose v) (room : v.objects.HasRoom) {c : Object} {cls : Handle} (name : String)
    (live : v.live? cls = some c) (isClass : c.isClass = true) (free : v.names.get? name = none) :
    let w := ((Lifecycle.enroll (.ofClass name cls c.system)).exec v).2
    Turnover apart (· = (Object.ofClass name cls c.system).apart) Nobody v w ∧ w.systems = v.systems ∧
      w.registry = v.registry := by
  have listed := World.isClass_iff.2 ⟨c, _, live, Option.some_get isClass |>.symm⟩
  obtain ⟨h, a, arrives, -, done, -⟩ := well.exec_enroll room
    (Object.unlinked_ofClass name cls c.system) listed free (well.rooted.system cls c live) rfl
  rw [done]
  exact ⟨.of_arrives arrives (.modify a cls fun o => o.apart_mapInstances _), rfl, rfl⟩

/-- A class that is refused goes as it came. -/
theorem enrollClass (well : WellFormed loose v) (room : v.objects.HasRoom) (name : String) (metaclass : Handle)
    (supers : List Handle) :
    let w := ((Lifecycle.enrollClass name metaclass supers).exec v).2
    Turnover apart (fun p => v.isMetaclass metaclass = true ∧ ∃ m, v.live? metaclass = some m ∧
        p = (Object.newClass (Definition.qualify name) metaclass m.system).apart) Nobody v w ∧
      w.systems = v.systems ∧ w.registry = v.registry := by
  rcases well.exec_enrolledClass room name metaclass supers with ⟨e, failed⟩ |
    ⟨p, h, a, u, found, -, arrives, -, isMetaclass, is, wellAfter, outcome⟩
  · rw [failed]
    exact ⟨.of_alike (.refl _) fun _ _ same => (congrArg Object.deleted same :), rfl, rfl⟩
  have joined : Heap.Alike apart a u.objects := is ▸ .modify a metaclass fun o => o.apart_mapInstances _
  have set := Relinks.setSuperclasses wellAfter h supers
  rcases outcome with ⟨t, done, ended⟩ | ⟨e, t, refused, same, -, ended⟩
  · rw [done] at set
    rw [ended]
    have came := Turnover.of_arrives arrives (joined.trans set.objects)
    exact ⟨came.mono fun x new => ⟨isMetaclass, p, found, new⟩, set.systems.trans (congrArg World.systems is :),
      set.registry.trans (congrArg World.registry is :)⟩
  · rw [refused] at set
    rw [ended]
    have left : Heap.Alike apart t.objects (t.objects.leave h metaclass) := .modify _ _ fun o => o.apart_mapInstances _
    have goes : Turnover apart (fun _ => False) (· = h) v { t with
        objects := (t.objects.leave h metaclass).release h, names := t.names.erase (Definition.qualify name) } := by
      refine .of_others (fun _ _ same => (congrArg Object.deleted same :)) (fun k other => ?_) ?_
      · rw [Heap.get?_release, if_neg other, ((joined.trans set.objects).trans left).view, arrives.get?, if_neg other]
      · rw [World.live?, Heap.get?_release, if_pos rfl]
        rfl
    have vacant : v.live? h = none := by
      rw [World.live?, arrives.vacant]
      rfl
    exact ⟨(goes.nobody vacant).mono fun _ => False.elim, set.systems.trans (congrArg World.systems is :),
      set.registry.trans (congrArg World.registry is :)⟩

theorem createSystem (sound : v.objects.Sound) (remain : v.objects.HandlesRemain) (root metaclass : String)
    (methods : SystemMethods) :
    let w := ((Lifecycle.createSystem root metaclass methods).exec v).2
    (w = v ∨ ∃ h k : Handle, v.objects.get? k = none ∧ w.systems = v.systems ++ [⟨h, k, methods⟩] ∧
      Turnover apart (fun p => p.cls = k ∧ p.system = v.systems.length ∧ p.methods = .empty ∧
        ∃ part, p.classPart = some part ∧ part.methods = .empty) Nobody v w) ∧ w.registry = v.registry := by
  rcases Lifecycle.exec_createSystem sound remain root metaclass methods with
    ⟨e, failed⟩ | ⟨h, k, a, b, -, -, -, first, second, -, done⟩
  · rw [failed]
    exact ⟨.inl rfl, rfl⟩
  rw [done]
  refine ⟨.inr ⟨h, k, ?_, rfl, ?_⟩, rfl⟩
  · cases vacant : v.objects.get? k with
    | none => rfl
    | some o =>
      have other := (first.spent k (Heap.spent_of_get? vacant)).1
      have absent := second.vacant
      rw [first.get?, if_neg other, vacant] at absent
      cases absent
  · have linked : Heap.Alike apart b (Hierarchy.link b k h) :=
      (Hierarchy.alike_withoutAncestry_link b k h).comp _ fun o => o.apart_withoutAncestry.symm
    have one : Turnover apart _ Nobody v { v with objects := a } := .of_arrives first (.refl a)
    have two : Turnover apart _ Nobody { v with objects := a } (Lifecycle.founded v (Definition.qualify root)
        (Definition.qualify metaclass) h k methods b) :=
      .of_arrives second (linked.trans (alike_founded fun f o => o.apart_mapInstances f))
    refine .trans (one.mono ?_) (two.mono ?_)
    · rintro x rfl
      exact ⟨rfl, rfl, rfl, _, rfl, rfl⟩
    · rintro x rfl
      exact ⟨rfl, rfl, rfl, _, rfl, rfl⟩

end Turnover

/-! ## Destruction -/

section unlink

variable {h k : Handle} {o q : Object} {s : ObjectSystem}

theorem Disbands.alone (disbands : Disbands loose h o v w) : Heap.Alike alone v.objects w.objects := by
  rcases disbands with ⟨-, rfl⟩ | ⟨part, -, d, rfl⟩
  · exact .refl _
  have vacated : Heap.Alike Object.alone v.objects d.vacated := d.instances.alike fun k o _ =>
    view_evacuated (fun f o => alone_of_apart (o.apart_mapInstances f)) (fun _ => rfl) k o
  have topless : Heap.Alike Object.alone d.vacated d.topless :=
    d.topless_alike.comp _ fun o => (alone_of_apart o.apart_withoutAncestry).symm
  have unshared : Heap.Alike Object.alone d.topless d.unshared :=
    d.unshared_alike (fun reach f o => alone_of_apart (o.apart_mapRegistrations reach f)) fun _ => rfl
  have forgotten : Heap.Alike Object.alone d.unshared d.forgotten :=
    d.forgotten_alike (fun f o => alone_of_apart (o.apart_mapUsers .instances f))
      (fun f o => alone_of_apart (o.apart_mapOrder f)) fun _ => rfl
  exact ((vacated.trans topless).trans unshared).trans forgotten

theorem Disbands.tables (disbands : Disbands loose h o v w) : w.systems = v.systems ∧ w.registry = v.registry := by
  rcases disbands with ⟨-, rfl⟩ | ⟨part, -, d, rfl⟩
  · exact ⟨rfl, rfl⟩
  · exact ⟨rfl, rfl⟩

/-- What unlinking leaves: the world in which the class part is gone, but for the object and what is registered under
it. -/
theorem WellFormed.apart_of_unlink (well : WellFormed loose v) (live : v.live? h = some o) (root : o.isRoot = false) :
    let w := ((Lifecycle.unlink h).exec v).2
    ∃ u t, u = { v with objects := v.objects.modify h fun o => { o with duringDelete := true } } ∧ WellFormed loose u ∧
      u.live? h = some { o with duringDelete := true } ∧ Disbands loose h { o with duringDelete := true } u t ∧
      w.live? h = none ∧ (∀ k, k ≠ h → (w.objects.get? k).map apart = (t.objects.get? k).map apart) ∧
      w.systems = v.systems ∧ w.registry = v.registry.filter fun _ r => r.owner ≠ some h := by
  obtain ⟨u, t, is, well', here, disbands, done⟩ := well.exec_unlink live root
  obtain ⟨p, there, -⟩ := disbands.exists_live here
  obtain ⟨b, remade, retires⟩ :=
    Lifecycle.exec_retire there (((disbands.disbanded well' here).named.name p.name h).2 ⟨p, there, rfl⟩)
  have deserts : Heap.Alike apart t.objects b :=
    remade.alike fun k o _ => view_deserted (apart_mapUsers .object) k o
  have left : Heap.Alike apart b (b.leave h p.cls) := .modify b p.cls fun o => o.apart_mapInstances _
  have departs : Departs h (b.leave h p.cls) (Lifecycle.retired b h p) := Lifecycle.departs_retired p
  have systems : t.systems = v.systems := disbands.tables.1.trans (is ▸ rfl)
  have registry : t.registry = v.registry := disbands.tables.2.trans (is ▸ rfl)
  rw [done, retires]
  refine ⟨u, t, is, well', here, disbands, ?_, fun k other => ?_, systems, by rw [← registry]⟩
  · exact (Departs.live? (v := { t with objects := b.leave h p.cls }) departs h).trans (if_pos rfl)
  · rw [departs.others k other, (deserts.trans left).view]

/-- An object goes, and with it what is registered under it. -/
theorem Turnover.unlink (well : WellFormed loose v) (live : v.live? h = some o) (root : o.isRoot = false) :
    let w := ((Lifecycle.unlink h).exec v).2
    Turnover Object.alone (fun _ => False) (· = h) v w ∧ w.systems = v.systems ∧
      w.registry = v.registry.filter fun _ r => r.owner ≠ some h := by
  obtain ⟨u, t, is, -, -, disbands, left, others, rest⟩ := well.apart_of_unlink live root
  refine ⟨.of_others (fun _ _ same => (congrArg Object.deleted same :)) (fun k other => ?_) left, rest⟩
  have marked : u.objects.get? k = v.objects.get? k := by rw [is, Heap.get?_modify, if_neg other]
  rw [map_alone (others k other), disbands.alone.view, marked]

/-- When an object is unlinked, others keep their classes, but for its instances. These get the root class of its
system, or the root metaclass if it was a metaclass. -/
theorem WellFormed.cls_of_unlink (well : WellFormed loose v) (live : v.live? h = some o) (root : o.isRoot = false)
    (listed : v.systems[o.system]? = some s) (after : ((Lifecycle.unlink h).exec v).2.live? k = some q) :
    k ≠ h ∧ ∃ p, v.live? k = some p ∧ q.identity = p.identity ∧
      q.cls = if p.cls = h then (if v.isMetaclass h then s.rootMetaclass else s.rootClass) else p.cls := by
  obtain ⟨u, t, is, well', here, disbands, left, others, -⟩ := well.apart_of_unlink live root
  have other : k ≠ h := by
    rintro rfl
    rw [left] at after
    cases after
  obtain ⟨found, alive⟩ := World.live?_eq_some_iff.1 after
  have looks := others k other
  rw [found] at looks
  obtain ⟨x, there, same⟩ := Option.map_eq_some_iff.1 looks.symm
  have deleted : x.deleted = q.deleted := (congrArg Object.deleted same :)
  have live' : t.live? k = some x := World.live?_eq_some_iff.2 ⟨there, deleted.trans alive⟩
  obtain ⟨p, before, identity⟩ :=
    disbands.identity.symm.exists_live live'
  have ancestry : Heap.Alike Object.ancestry v.objects u.objects := is ▸ .modify v.objects h fun _ => rfl
  have systems : u.systems = v.systems := by rw [is]
  obtain ⟨y, again, cls⟩ := disbands.cls_eq here (systems ▸ listed) well' other before
  cases live'.symm.trans again
  rw [ancestry.isMetaclass_of_ancestry systems] at cls
  obtain ⟨resolves, lives⟩ := World.live?_eq_some_iff.1 before
  rw [is, Heap.get?_modify, if_neg other] at resolves
  refine ⟨other, p, World.live?_eq_some_iff.2 ⟨resolves, lives⟩, ?_, (congrArg Object.cls same.symm :).trans cls⟩
  calc q.identity = q.apart.identity := q.identity_apart
    _ = x.identity := same ▸ x.identity_apart.symm
    _ = p.identity := identity.symm

end unlink

end DynamicObjects
