import DynamicObjects.Proofs.Structure.Creation

/-!
# New systems in well-formed worlds

A new system brings two classes of its own, the root class and the root metaclass, and touches nothing else.
-/
namespace DynamicObjects

namespace Lifecycle

def rootClassObject (name : String) (metaclass : Handle) (system : Nat) : Object :=
  { Object.newClass name metaclass system with isRootClass := true }

def rootMetaclassObject (name : String) (metaclass : Handle) (system : Nat) : Object :=
  { Object.newClass name metaclass system with isRootMetaclass := true }

/-- The world with a root class and a root metaclass that are in the heap already, once they are linked and listed. -/
def founded (w : World) (rootName metaName : String) (root metaclass : Handle) (methods : SystemMethods)
    (objects : Objects) : World :=
  { w with
    objects := (Hierarchy.link objects metaclass root).modifyClass metaclass fun c =>
      { c with instances := (c.instances.insert root).insert metaclass }
    names := (w.names.insert rootName root).insert metaName metaclass
    systems := w.systems ++ [⟨root, metaclass, methods⟩] }

/-- The last part of creating a system: its classes get their names, and the system is listed. -/
private theorem exec_listSystem (rootName metaName : String) (root metaclass : Handle) (methods : SystemMethods)
    (w : World) :
    (do
      giveName rootName root
      giveName metaName metaclass
      modify fun w => { w with systems := w.systems ++ [⟨root, metaclass, methods⟩] }
      return (root, metaclass) : Update (Handle × Handle)).exec w =
      (.ok (root, metaclass), { w with
        names := (w.names.insert rootName root).insert metaName metaclass
        systems := w.systems ++ [⟨root, metaclass, methods⟩] }) := by
  rw [Update.exec_bind_of_ok (exec_giveName _ _ _), Update.exec_bind_of_ok (exec_giveName _ _ _),
    Update.exec_bind_of_ok (Update.exec_modify _ _), Update.exec_pure]

/-- A system gets two classes of its own under free names. -/
theorem exec_createSystem {w : World} (sound : w.objects.Sound) (remain : w.objects.HandlesRemain)
    (rootName metaName : String) (methods : SystemMethods) :
    (∃ e, (createSystem rootName metaName methods).exec w = (.error e, w)) ∨
      ∃ root metaclass a b, w.names.get? (Definition.qualify rootName) = none ∧
        w.names.get? (Definition.qualify metaName) = none ∧
        Definition.qualify metaName ≠ Definition.qualify rootName ∧
        Arrives root (rootClassObject (Definition.qualify rootName) metaclass w.systems.length) w.objects a ∧
        Arrives metaclass (rootMetaclassObject (Definition.qualify metaName) metaclass w.systems.length) a b ∧
        b.Sound ∧
        (createSystem rootName metaName methods).exec w = (.ok (root, metaclass),
          founded w (Definition.qualify rootName) (Definition.qualify metaName) root metaclass methods b) := by
  unfold createSystem
  rcases exec_claimName rootName w with ⟨e, failed⟩ | ⟨claimed, freeRoot⟩
  · exact .inl ⟨e, Update.exec_bind_of_error failed _⟩
  rw [Update.exec_bind_of_ok claimed]
  rcases exec_claimName metaName w with ⟨e, failed⟩ | ⟨claimed, freeMeta⟩
  · exact .inl ⟨e, Update.exec_bind_of_error failed _⟩
  rw [Update.exec_bind_of_ok claimed]
  by_cases same : Definition.qualify rootName = Definition.qualify metaName
  · rw [if_pos same]
    exact .inl ⟨_, rfl⟩
  rw [if_neg same, Update.exec_bind_of_ok (Update.exec_get w)]
  have first := Arrives.allocate sound remain.hasRoom
    (.newClass (Definition.qualify rootName) default w.systems.length)
  have sound₁ := Heap.sound_allocate sound (.newClass (Definition.qualify rootName) default w.systems.length)
  have room₁ := remain.hasRoom_allocate (.newClass (Definition.qualify rootName) default w.systems.length)
  rcases allocated : w.objects.allocate (.newClass (Definition.qualify rootName) default w.systems.length) with ⟨root, a⟩
  rw [allocated] at first sound₁ room₁
  rw [Update.exec_bind_of_ok (exec_allocate allocated)]
  have second := Arrives.allocate sound₁ room₁
    (.newClass (Definition.qualify metaName) default w.systems.length)
  have sound₂ := Heap.sound_allocate sound₁ (.newClass (Definition.qualify metaName) default w.systems.length)
  rcases allocated' : a.allocate (.newClass (Definition.qualify metaName) default w.systems.length) with ⟨metaclass, b⟩
  rw [allocated'] at second sound₂
  have next : (allocate (.newClass (Definition.qualify metaName) default w.systems.length)).exec
      { w with objects := a } = (.ok metaclass, { w with objects := b }) := exec_allocate allocated'
  rw [Update.exec_bind_of_ok next]
  have different : root ≠ metaclass := by
    rintro rfl
    have vacant := second.vacant
    rw [first.get?, if_pos rfl] at vacant
    cases vacant
  let rootChange (o : Object) : Object := { o with cls := metaclass, isRootClass := true }
  let metaChange (o : Object) : Object := { o with cls := metaclass, isRootMetaclass := true }
  have asRoot := first.modify rootChange
  have asMeta := (second.modify_other different rootChange).modify metaChange
  have foundRoot : b.get? root = some (.newClass (Definition.qualify rootName) default w.systems.length) := by
    rw [second.get?, if_neg different, first.get?_self]
  have foundMeta := (second.modify_other different rootChange).get?_self
  obtain ⟨placed, places⟩ : ∃ placed, placed = (b.modify root rootChange).modify metaclass metaChange := ⟨_, rfl⟩
  rw [← places] at asMeta
  have linked : Heap.Alike Object.identity placed (Hierarchy.link placed metaclass root) :=
    (Hierarchy.alike_withoutAncestry_link placed metaclass root).comp _ fun o =>
      (Object.identity_withoutAncestry o).symm
  have sound₃ : placed.Sound := by
    rw [places]
    exact sound₂.of_layout ((Heap.layout_modify _ _ _).trans (Heap.layout_modify _ _ _))
  refine .inr ⟨root, metaclass, a.modify root rootChange, placed, freeRoot, freeMeta, Ne.symm same, asRoot, asMeta,
    sound₃, ?_⟩
  have cls : World.isClass { w with objects := placed } metaclass = true :=
    World.isClass_iff.2 ⟨_, {}, World.live?_eq_some_iff.2 ⟨asMeta.get?_self, rfl⟩, rfl⟩
  have still : World.isClass { w with objects := Hierarchy.link placed metaclass root } metaclass = true :=
    (linked.isClass (v := { w with objects := placed })).trans cls
  have flagRoot : (Update.changeObject root rootChange).exec { w with objects := b } =
      (.ok ⟨⟩, { w with objects := b.modify root rootChange }) :=
    Update.exec_changeObject_of_live (World.live?_eq_some_iff.2 ⟨foundRoot, rfl⟩) rootChange
  have flagMeta : (Update.changeObject metaclass metaChange).exec { w with objects := b.modify root rootChange } =
      (.ok ⟨⟩, { w with objects := placed }) := by
    rw [places]
    exact Update.exec_changeObject_of_live (World.live?_eq_some_iff.2 ⟨foundMeta, rfl⟩) metaChange
  have enter := Update.exec_changeClass_of_isClass still fun c =>
    { c with instances := (c.instances.insert root).insert metaclass }
  rw [Update.exec_bind_of_ok flagRoot, Update.exec_bind_of_ok flagMeta,
    Update.exec_bind_of_ok (Update.exec_changeObjects _ _), Update.exec_bind_of_ok enter]
  exact exec_listSystem _ _ root metaclass methods _

theorem unlinked_rootClassObject (name : String) (metaclass : Handle) (system : Nat) :
    (rootClassObject name metaclass system).Unlinked :=
  ⟨rfl, rfl, fun _ same => (Option.some.inj same).symm⟩

theorem unlinked_rootMetaclassObject (name : String) (metaclass : Handle) (system : Nat) :
    (rootMetaclassObject name metaclass system).Unlinked :=
  ⟨rfl, rfl, fun _ same => (Option.some.inj same).symm⟩

end Lifecycle

section founded

variable {loose : Handle → Prop} {w : World} {rootName metaName : String} {root metaclass : Handle}
  {methods : SystemMethods} {a b : Objects}
  (first : Arrives root (Lifecycle.rootClassObject rootName metaclass w.systems.length) w.objects a)
  (second : Arrives metaclass (Lifecycle.rootMetaclassObject metaName metaclass w.systems.length) a b)

omit first second in
theorem alike_founded {β : Type} {view : Object → β}
    (blind : ∀ (f : HandleSet → HandleSet) o, view (o.mapInstances f) = view o) :
    Heap.Alike view (Hierarchy.link b metaclass root)
      (Lifecycle.founded w rootName metaName root metaclass methods b).objects := by
  have objects : (Lifecycle.founded w rootName metaName root metaclass methods b).objects =
      (Hierarchy.link b metaclass root).modify metaclass
        (Object.mapInstances fun i => (i.insert root).insert metaclass) := rfl
  rw [objects]
  exact .modify _ _ fun o => blind _ o

include first second

private theorem root_ne_metaclass : root ≠ metaclass := by
  rintro rfl
  have vacant := second.vacant
  rw [first.get?_self] at vacant
  cases vacant

private theorem supersOf_arrived : b.supersOf = w.objects.supersOf := by
  rw [second.supersOf (Lifecycle.unlinked_rootMetaclassObject _ _ _),
    first.supersOf (Lifecycle.unlinked_rootClassObject _ _ _)]

private theorem vacant_metaclass : w.objects.get? metaclass = none := by
  have vacant := second.vacant
  rwa [first.get?, if_neg (Ne.symm (root_ne_metaclass first second))] at vacant

/-- The root metaclass inherits from the root class; all other links are as before. -/
private theorem supersOf_founded : (Lifecycle.founded w rootName metaName root metaclass methods b).objects.supersOf =
    Function.update w.objects.supersOf metaclass [root] := by
  have none : w.objects.supersOf metaclass = [] :=
    Heap.supersOf_eq_nil (by rw [Heap.class?, vacant_metaclass first second]; rfl)
  have isSome : (b.class? metaclass).isSome := by
    rw [Heap.class?, second.get?_self]
    rfl
  funext k
  rw [(alike_founded Object.ancestry_mapInstances).supersOf_of_ancestry, Hierarchy.supersOf_link isSome,
    supersOf_arrived first second]
  by_cases here : k = metaclass
  · subst here
    rw [if_pos rfl, none, Function.update_self]
  · rw [if_neg here, Function.update_of_ne here]

omit first second in
theorem identity_founded : Heap.Alike Object.identity b
    (Lifecycle.founded w rootName metaName root metaclass methods b).objects :=
  ((Hierarchy.alike_withoutAncestry_link b metaclass root).comp _ fun o =>
    (Object.identity_withoutAncestry o).symm).trans (alike_founded Object.identity_mapInstances)

/-- The live objects of a world with a new system: its two classes and the former ones. -/
private theorem live?_founded {k : Handle} {o : Object}
    (live : (Lifecycle.founded w rootName metaName root metaclass methods b).live? k = some o) :
    (k = metaclass ∧ o.identity = (Lifecycle.rootMetaclassObject metaName metaclass w.systems.length).identity) ∨
      (k = root ∧ o.identity = (Lifecycle.rootClassObject rootName metaclass w.systems.length).identity) ∨
      (k ≠ metaclass ∧ k ≠ root ∧ ∃ p, w.live? k = some p ∧ p.identity = o.identity) := by
  have identity : Heap.Alike Object.identity b
      (Lifecycle.founded w rootName metaName root metaclass methods b).objects := identity_founded
  obtain ⟨p, found, looks⟩ := identity.symm.exists_live (w := { w with objects := b }) live
  obtain ⟨here, alive⟩ := World.live?_eq_some_iff.1 found
  have split := (second.get? k).symm.trans here
  by_cases atMeta : k = metaclass
  · rw [if_pos atMeta] at split
    cases split
    exact .inl ⟨atMeta, looks.symm⟩
  · rw [if_neg atMeta, first.get?] at split
    by_cases atRoot : k = root
    · rw [if_pos atRoot] at split
      cases split
      exact .inr (.inl ⟨atRoot, looks.symm⟩)
    · rw [if_neg atRoot] at split
      exact .inr (.inr ⟨atMeta, atRoot, p, World.live?_eq_some_iff.2 ⟨split, alive⟩, looks⟩)

omit first second in
private theorem exists_live?_founded {k : Handle} {o : Object} (found : b.get? k = some o) (alive : o.deleted = false) :
    ∃ p, (Lifecycle.founded w rootName metaName root metaclass methods b).live? k = some p ∧
      p.identity = o.identity :=
  identity_founded.exists_live (v := { w with objects := b }) (World.live?_eq_some_iff.2 ⟨found, alive⟩)

/-- What was live before still is, and no class of the new system. -/
private theorem stays_founded {k : Handle} {o : Object} (live : w.live? k = some o) : k ≠ metaclass ∧ k ≠ root ∧
    ∃ p, (Lifecycle.founded w rootName metaName root metaclass methods b).live? k = some p ∧
      p.identity = o.identity := by
  obtain ⟨found, alive⟩ := World.live?_eq_some_iff.1 live
  have atMeta : k ≠ metaclass := by
    rintro rfl
    rw [vacant_metaclass first second] at found
    cases found
  have atRoot : k ≠ root := by
    rintro rfl
    rw [first.vacant] at found
    cases found
  exact ⟨atMeta, atRoot, exists_live?_founded (by rw [second.get?, if_neg atMeta, first.get?, if_neg atRoot, found]) alive⟩

omit first second in
private theorem system_founded_of_system {i : Nat} {s : ObjectSystem} (here : w.systems[i]? = some s) :
    (Lifecycle.founded w rootName metaName root metaclass methods b).systems[i]? = some s :=
  (List.getElem?_append_left (List.getElem?_eq_some_iff.1 here).1).trans here

omit first second in
private theorem system_founded_cases {i : Nat} {s : ObjectSystem}
    (here : (Lifecycle.founded w rootName metaName root metaclass methods b).systems[i]? = some s) :
    w.systems[i]? = some s ∨ (i = w.systems.length ∧ s = ⟨root, metaclass, methods⟩) := by
  change (w.systems ++ [_])[i]? = some s at here
  rcases Nat.lt_trichotomy i w.systems.length with before | rfl | beyond
  · rw [List.getElem?_append_left before] at here
    exact .inl here
  · rw [List.getElem?_concat_length] at here
    exact .inr ⟨rfl, (Option.some.inj here).symm⟩
  · rw [List.getElem?_eq_none (by rw [List.length_append]; exact beyond)] at here
    cases here

private theorem Rooted.founded (rooted : Rooted loose w) :
    Rooted loose (Lifecycle.founded w rootName metaName root metaclass methods b) := by
  let v := Lifecycle.founded w rootName metaName root metaclass methods b
  have supers : v.objects.supersOf = Function.update w.objects.supersOf metaclass [root] :=
    supersOf_founded first second
  have different := root_ne_metaclass first second
  have last : v.systems[w.systems.length]? = some ⟨root, metaclass, methods⟩ := List.getElem?_concat_length
  -- An object that was there before belongs to the system it belonged to.
  have former : ∀ {k : Handle} {o p : Object} {s : ObjectSystem}, w.live? k = some p → p.identity = o.identity →
      v.systems[o.system]? = some s → w.systems[p.system]? = some s := by
    intro k o p s before looks here
    have system : p.system = o.system := congrArg Identity.system looks
    obtain ⟨t, found⟩ := rooted.system k p before
    rw [found, ← here, ← system]
    exact (system_founded_of_system found).symm
  refine ⟨fun k o live => ?_, fun i s here => ?_, fun i s here => ?_, fun k o s live here flag => ?_,
    fun k o s live here flag => ?_, fun k o live cls links apart => ?_⟩
  · rcases live?_founded first second live with ⟨-, looks⟩ | ⟨-, looks⟩ | ⟨-, -, p, before, looks⟩
    · have system : o.system = w.systems.length := congrArg Identity.system looks
      exact ⟨_, system ▸ last⟩
    · have system : o.system = w.systems.length := congrArg Identity.system looks
      exact ⟨_, system ▸ last⟩
    · have system : p.system = o.system := congrArg Identity.system looks
      obtain ⟨s, found⟩ := rooted.system k p before
      exact ⟨s, system_founded_of_system (system ▸ found)⟩
  · rcases system_founded_cases here with former | ⟨rfl, rfl⟩
    · obtain ⟨o, live, cls, flag, system, top⟩ := rooted.root i s former
      obtain ⟨apart, -, p, after, looks⟩ := stays_founded first second live
      refine ⟨p, after, (congrArg Identity.isClass looks).trans cls, (congrArg Identity.isRootClass looks).trans flag,
        (congrArg Identity.system looks).trans system, ?_⟩
      change v.objects.supersOf _ = _
      rw [supers, Function.update_of_ne apart, top]
    · obtain ⟨p, after, looks⟩ := exists_live?_founded (k := root)
        (by rw [second.get?, if_neg different, first.get?_self]) rfl
      refine ⟨p, after, congrArg Identity.isClass looks, congrArg Identity.isRootClass looks,
        congrArg Identity.system looks, ?_⟩
      change v.objects.supersOf root = _
      rw [supers, Function.update_of_ne different, Heap.supersOf_eq_nil first.class?_vacant]
  · rcases system_founded_cases here with former | ⟨rfl, rfl⟩
    · obtain ⟨o, live, cls, flag, system, links⟩ := rooted.metaclass i s former
      obtain ⟨apart, -, p, after, looks⟩ := stays_founded first second live
      refine ⟨p, after, (congrArg Identity.isClass looks).trans cls,
        (congrArg Identity.isRootMetaclass looks).trans flag, (congrArg Identity.system looks).trans system, ?_⟩
      change v.objects.supersOf _ = _
      rw [supers, Function.update_of_ne apart, links]
    · obtain ⟨p, after, looks⟩ := exists_live?_founded second.get?_self rfl
      refine ⟨p, after, congrArg Identity.isClass looks, congrArg Identity.isRootMetaclass looks,
        congrArg Identity.system looks, ?_⟩
      change v.objects.supersOf metaclass = _
      rw [supers, Function.update_self]
  · rcases live?_founded first second live with ⟨-, looks⟩ | ⟨rfl, looks⟩ | ⟨-, -, p, before, looks⟩
    · have no : o.isRootClass = false := congrArg Identity.isRootClass looks
      rw [no] at flag
      cases flag
    · have system : o.system = w.systems.length := congrArg Identity.system looks
      rw [system] at here
      exact congrArg ObjectSystem.rootClass (Option.some.inj (last.symm.trans here))
    · exact rooted.rootOnly k p s before (former before looks here) ((congrArg Identity.isRootClass looks).trans flag)
  · rcases live?_founded first second live with ⟨rfl, looks⟩ | ⟨-, looks⟩ | ⟨-, -, p, before, looks⟩
    · have system : o.system = w.systems.length := congrArg Identity.system looks
      rw [system] at here
      exact congrArg ObjectSystem.rootMetaclass (Option.some.inj (last.symm.trans here))
    · have no : o.isRootMetaclass = false := congrArg Identity.isRootMetaclass looks
      rw [no] at flag
      cases flag
    · exact rooted.metaclassOnly k p s before (former before looks here)
        ((congrArg Identity.isRootMetaclass looks).trans flag)
  · change v.objects.supersOf k = [] at links
    rw [supers] at links
    rcases live?_founded first second live with ⟨rfl, -⟩ | ⟨-, looks⟩ | ⟨atMeta, -, p, before, looks⟩
    · rw [Function.update_self] at links
      cases links
    · exact congrArg Identity.isRootClass looks
    · rw [Function.update_of_ne atMeta] at links
      have isRoot := rooted.top k p before ((congrArg Identity.isClass looks).trans cls) links apart
      exact (congrArg Identity.isRootClass looks).symm.trans isRoot

private theorem Classed.founded (classed : Classed w) :
    Classed (Lifecycle.founded w rootName metaName root metaclass methods b) := by
  let v := Lifecycle.founded w rootName metaName root metaclass methods b
  let u : World := { w with objects := a }
  let t : World := { w with objects := b }
  let l : World := { w with objects := Hierarchy.link b metaclass root }
  have blank := Lifecycle.unlinked_rootClassObject rootName metaclass w.systems.length
  have blank' := Lifecycle.unlinked_rootMetaclassObject metaName metaclass w.systems.length
  have one : Arrives root (Lifecycle.rootClassObject rootName metaclass w.systems.length) w.objects u.objects := first
  have two : Arrives metaclass (Lifecycle.rootMetaclassObject metaName metaclass w.systems.length) u.objects
    t.objects := second
  have links : Heap.Alike Object.withoutAncestry t.objects l.objects :=
    Hierarchy.alike_withoutAncestry_link b metaclass root
  have isMeta : t.isClass metaclass = true :=
    World.isClass_iff.2 ⟨_, {}, World.live?_eq_some_iff.2 ⟨second.get?_self, rfl⟩, rfl⟩
  have classes : ∀ k, v.isClass k = t.isClass k := fun k => identity_founded.isClass (v := t)
  have grown : ∀ c, w.isClass c = true → v.isClass c = true := fun c cls => by
    rw [classes]
    exact two.isClass_of_isClass blank' (one.isClass_of_isClass blank cls)
  have former : ∀ c, l.instancesOf c = w.instancesOf c := fun c => by
    rw [Heap.Alike.instancesOf (v := t) (w := l) (links.comp _ fun o => (Object.membership_withoutAncestry o).symm),
      two.instancesOf blank', one.instancesOf blank]
  have instances : ∀ c x, x ∈ v.instancesOf c ↔ (c = metaclass ∧ (x = metaclass ∨ x = root)) ∨ x ∈ w.instancesOf c := by
    intro c x
    have isMeta' : l.isClass metaclass = true :=
      (Heap.Alike.isClass (v := t) (w := l) (links.comp _ fun o => (Object.identity_withoutAncestry o).symm)).trans isMeta
    rw [World.instancesOf_mapInstances (v := l) (w := v) (f := fun i => (i.insert root).insert metaclass) rfl isMeta',
      former]
    by_cases here : c = metaclass
    · subst here
      simp [or_assoc]
    · simp [here]
  have members : ∀ c x, (∃ o, v.live? x = some o ∧ o.cls = c) ↔
      (c = metaclass ∧ (x = metaclass ∨ x = root)) ∨ ∃ o, w.live? x = some o ∧ o.cls = c := by
    intro c x
    have same : Heap.Alike (fun o : Object => (o.deleted, o.cls)) t.objects v.objects :=
      (links.comp (fun o => (o.deleted, o.cls)) fun _ => rfl).trans (alike_founded fun _ _ => rfl)
    have looks := congrArg (Option.map Prod.snd) (same.live? (v := t) (w := v) (h := x) fun _ _ same =>
      congrArg Prod.fst same)
    simp only [Option.map_map, Function.comp_def] at looks
    rw [← Option.map_eq_some_iff, looks, Option.map_eq_some_iff, two.live? blank', one.live? blank]
    have gone : w.live? metaclass = none := by
      rw [World.live?, vacant_metaclass first second]
      rfl
    by_cases atMeta : x = metaclass
    · subst atMeta
      simp [gone, Lifecycle.rootMetaclassObject, Object.newClass, eq_comm]
    · by_cases atRoot : x = root
      · subst atRoot
        simp [one.live?_vacant, atMeta, Lifecycle.rootClassObject, Object.newClass, eq_comm]
      · simp [atMeta, atRoot]
  refine ⟨fun x o live => ?_, fun c x => ?_⟩
  · rcases (members o.cls x).1 ⟨o, live, rfl⟩ with ⟨same, -⟩ | ⟨p, before, same⟩
    · rw [classes, same]
      exact isMeta
    · exact grown o.cls (same ▸ classed.cls x p before)
  · rw [instances, members, classed.instances]

/-- A world with a new system is well-formed. -/
theorem WellFormed.founded (well : WellFormed loose w) (sound : b.Sound) (freeRoot : w.names.get? rootName = none)
    (freeMeta : w.names.get? metaName = none) (different : metaName ≠ rootName) :
    WellFormed loose (Lifecycle.founded w rootName metaName root metaclass methods b) := by
  let u : World := { w with objects := a, names := w.names.insert rootName root }
  let t : World := { w with objects := b, names := (w.names.insert rootName root).insert metaName metaclass }
  have blank := Lifecycle.unlinked_rootClassObject rootName metaclass w.systems.length
  have blank' := Lifecycle.unlinked_rootMetaclassObject metaName metaclass w.systems.length
  have one : Arrives root (Lifecycle.rootClassObject rootName metaclass w.systems.length) w.objects u.objects := first
  have two : Arrives metaclass (Lifecycle.rootMetaclassObject metaName metaclass w.systems.length) u.objects
    t.objects := second
  have links : Heap.Alike Object.withoutAncestry b (Hierarchy.link b metaclass root) :=
    Hierarchy.alike_withoutAncestry_link b metaclass root
  have apart := root_ne_metaclass first second
  have supers : b.supersOf = w.objects.supersOf := supersOf_arrived first second
  have bare : ∀ k, w.objects.get? k = none → b.supersOf k = [] := by
    intro k vacant
    rw [supers]
    exact Heap.supersOf_eq_nil (by rw [Heap.class?, vacant]; rfl)
  have bareRoot := bare root first.vacant
  have bareMeta := bare metaclass (vacant_metaclass first second)
  have linked : Linked t := (well.linked.arrives one blank).arrives two blank'
  have known : ∀ {c : Handle} (s : Handle), s ∈ w.objects.supersOf c → w.objects.get? s ≠ none := by
    intro c s link vacant
    obtain ⟨-, p, -, live, -⟩ := well.linked.live c s link
    rw [World.live?, vacant] at live
    cases live
  exact {
    sound := sound.of_layout identity_founded.layout
    named := by
      have named : Named u := well.named.arrives one blank freeRoot rfl
      refine (named.arrives two blank' ?_ rfl).of_alike identity_founded rfl
      change (w.names.insert rootName root).get? metaName = none
      rw [NameTable.get?_insert, if_neg different, freeMeta]
    classed := well.classed.founded first second
    linked := by
      have below : t.live? metaclass = some (Lifecycle.rootMetaclassObject metaName metaclass w.systems.length) :=
        World.live?_eq_some_iff.2 ⟨second.get?_self, rfl⟩
      have above : t.live? root = some (Lifecycle.rootClassObject rootName metaclass w.systems.length) :=
        World.live?_eq_some_iff.2 ⟨by rw [second.get?, if_neg apart, first.get?_self], rfl⟩
      refine (linked.link (w := { t with objects := Hierarchy.link b metaclass root }) below rfl above rfl rfl
        (fun path => ?_) ?_ rfl).of_ancestry (alike_founded Object.ancestry_mapInstances)
      · rcases Relation.ReflTransGen.cases_head path with same | ⟨s, link, -⟩
        · exact apart same
        · rw [bareRoot] at link
          cases link
      · rw [bareMeta]
        exact List.not_mem_nil
    rooted := well.rooted.founded first second
    mixed := fun reach => (((well.mixed reach).arrives one blank).arrives two blank').of_alike
      ((links.comp _ fun o => (Object.mixing_withoutAncestry reach o).symm).trans
        (alike_founded (Object.mixing_mapInstances reach)))
    kept := by
      have kept : Hierarchy.OrdersKept b :=
        (well.kept.arrives first blank fun c s link same => known s link (same ▸ first.vacant)).arrives second blank'
          fun c s link same => by
            rw [first.supersOf blank] at link
            exact known s link (same ▸ vacant_metaclass first second)
      refine (kept.of_forgotten (b := Hierarchy.link b metaclass root) (· = metaclass)
        (fun c s link same => ?_) (fun c same => ?_) (fun c other => ?_)
        (fun c _ => Hierarchy.cachedOrder?_link) fun s isClass => by
          rwa [Hierarchy.isSome_class?_link] at isClass).of_alike (alike_founded Object.precedence_mapInstances)
      · rw [supers] at link
        exact absurd (same ▸ vacant_metaclass first second) (known s link)
      · rw [same, Hierarchy.cachedOrder?_link, Heap.cachedOrder?, Heap.class?, second.get?_self]
        rfl
      · rw [Hierarchy.supersOf_link (by rw [Heap.class?, second.get?_self]; rfl), if_neg other] }

end founded

/-- Creating a system keeps a world well-formed. -/
theorem WellFormed.createSystem {loose : Handle → Prop} {w : World} (well : WellFormed loose w)
    (remain : w.objects.HandlesRemain) (rootName metaName : String) (methods : SystemMethods) :
    WellFormed loose ((Lifecycle.createSystem rootName metaName methods).exec w).2 := by
  rcases Lifecycle.exec_createSystem well.sound remain rootName metaName methods with
    ⟨e, failed⟩ | ⟨root, metaclass, a, b, freeRoot, freeMeta, different, first, second, sound, done⟩
  · rw [failed]
    exact well
  · rw [done]
    exact well.founded first second sound freeRoot freeMeta different

end DynamicObjects
