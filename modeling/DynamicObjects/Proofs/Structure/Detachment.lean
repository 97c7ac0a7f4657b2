import DynamicObjects.Lifecycle.Destruction
import DynamicObjects.Proofs.Structure.Departure
import DynamicObjects.Proofs.Structure.Superclasses

/-!
# Detachment

Taking a class off its instances, its subclasses and its superclasses. Instances move to a root class, and subclasses
are put under a root class where they need it.
-/
namespace DynamicObjects

namespace Lifecycle

/-! ## Instances -/

/-- An object that was moved to the class `new`. -/
def settledIn (new : Handle) (o : Object) : Object :=
  { o.withoutOrders with cls := new }

/-- What moving `instances` to the class `new` makes of an object. -/
def moved (new : Handle) (instances : List Handle) (k : Handle) (o : Object) : Object :=
  let left := if k ∈ instances then settledIn new o else o
  if k = new then left.mapInstances (·.insertAll instances) else left

theorem mapInstances_mapInstances (f g : HandleSet → HandleSet) (o : Object) :
    (o.mapInstances f).mapInstances g = o.mapInstances (g ∘ f) := by
  simp [Object.mapInstances, Object.mapClass, Function.comp_def]

theorem exec_moveInstance {new i : Handle} {w : World} (cls : w.isClass new = true) :
    ∃ b, (moveInstance new i).exec w = (.ok ⟨⟩, { w with objects := b }) ∧
      Heap.Remade (moved new [i]) w.objects b := by
  have apart : Heap.Alike Object.identity w.objects (w.objects.modify i ({ · with cls := new })) :=
    .modify w.objects i (by intro _; rfl)
  have still : World.isClass { w with objects := w.objects.modify i ({ · with cls := new }) } new = true :=
    (apart.isClass (v := w)).trans cls
  refine ⟨((w.objects.modify i ({ · with cls := new })).join i new).modify i Object.withoutOrders, ?_, ?_⟩
  · unfold moveInstance
    rw [Update.exec_bind_of_ok (Update.exec_changeObjects _ _),
      Update.exec_bind_of_ok (Update.exec_changeClass_of_isClass still _)]
    rfl
  · refine (((Heap.Remade.modify w.objects i ({ · with cls := new })).trans
      (.modify _ new (Object.mapInstances (·.insert i)))).trans (.modify _ i Object.withoutOrders)).congr
      fun k o _ => ?_
    unfold moved
    simp only [List.mem_singleton]
    split <;> split <;> rfl

theorem exec_moveInstances {new : Handle} (instances : List Handle) {w : World} (cls : w.isClass new = true) :
    ∃ b, (instances.forM (moveInstance new)).exec w = (.ok ⟨⟩, { w with objects := b }) ∧
      Heap.Remade (moved new instances) w.objects b := by
  induction instances generalizing w with
  | nil =>
    refine ⟨w.objects, rfl, (Heap.Remade.refl w.objects).congr fun k o _ => ?_⟩
    simp [moved, Object.mapInstances, Object.mapClass, HandleSet.insertAll]
  | cons i instances ih =>
    obtain ⟨a, first, one⟩ := exec_moveInstance (i := i) cls
    have same : Heap.Alike Object.identity w.objects a := one.alike fun k o _ => by
      unfold moved
      split <;> split <;> simp only [Object.identity_mapInstances] <;> rfl
    obtain ⟨b, rest, remade⟩ := ih (w := { w with objects := a }) ((same.isClass (v := w)).trans cls)
    refine ⟨b, (Update.exec_bind_of_ok first _).trans rest, (one.trans remade).congr fun k o _ => ?_⟩
    unfold moved
    have twice : ∀ p : Object, (p.mapInstances (·.insertAll [i])).mapInstances (·.insertAll instances) =
        p.mapInstances (·.insertAll (i :: instances)) := mapInstances_mapInstances _ _
    simp only [List.mem_cons]
    split_ifs <;> first | rfl | exact twice o | exact twice (settledIn new o) | simp_all

end Lifecycle

section evacuated

variable {h new : Handle} {instances : List Handle}

theorem cls_moved (k : Handle) (o : Object) :
    (Lifecycle.moved new instances k o).cls = if k ∈ instances then new else o.cls := by
  unfold Lifecycle.moved
  split_ifs <;> rfl

theorem identity_moved (k : Handle) (o : Object) : (Lifecycle.moved new instances k o).identity = o.identity := by
  unfold Lifecycle.moved
  split_ifs <;> simp only [Object.identity_mapInstances] <;> rfl

/-- What moving away all instances of `h` makes of an object. -/
def evacuated (h new : Handle) (instances : List Handle) (k : Handle) (o : Object) : Object :=
  let p := Lifecycle.moved new instances k o
  if k = h then p.mapInstances fun _ => .empty else p

theorem identity_evacuated (k : Handle) (o : Object) : (evacuated h new instances k o).identity = o.identity := by
  unfold evacuated
  split_ifs <;> simp only [Object.identity_mapInstances, identity_moved]

theorem cls_evacuated (k : Handle) (o : Object) :
    (evacuated h new instances k o).cls = if k ∈ instances then new else o.cls := by
  rw [← cls_moved]
  unfold evacuated
  split_ifs <;> rfl

theorem view_evacuated {β : Type v} {view : Object → β}
    (blind : ∀ (f : HandleSet → HandleSet) o, view (o.mapInstances f) = view o)
    (settled : ∀ o, view (Lifecycle.settledIn new o) = view o) (k : Handle) (o : Object) :
    view (evacuated h new instances k o) = view o := by
  unfold evacuated Lifecycle.moved
  split_ifs <;> simp only [blind, settled]

theorem instances_evacuated {part : ClassPart} (k : Handle) (o : Object) (isPart : o.classPart = some part) :
    ∃ part', (evacuated h new instances k o).classPart = some part' ∧
      ∀ x, x ∈ part'.instances ↔ k ≠ h ∧ (x ∈ part.instances ∨ (k = new ∧ x ∈ instances)) := by
  have empty : ∀ x, x ∉ HandleSet.empty := fun _ => List.not_mem_nil
  unfold evacuated Lifecycle.moved Lifecycle.settledIn
  split_ifs <;> simp_all [Object.mapInstances, Object.mapClass]

/-- Once its instances are moved away, a class has none. -/
theorem Classed.evacuated {o : Object} {part : ClassPart} {v w : World} (classed : Classed v)
    (live : v.live? h = some o) (isPart : o.classPart = some part) (cls : v.isClass new = true) (other : new ≠ h)
    (remade : Heap.Remade (evacuated h new (part.instances.erase h).toList) v.objects w.objects) : Vacated h w := by
  have identity : Heap.Alike Object.identity v.objects w.objects := remade.alike fun k o _ => identity_evacuated k o
  have lives := remade.live? fun k o => congrArg Identity.deleted (identity_evacuated k o)
  have back : ∀ {k p}, w.live? k = some p → ∃ q, v.live? k = some q ∧
      p.cls = if k ∈ (part.instances.erase h).toList then new else q.cls := by
    intro k p found
    rw [lives] at found
    obtain ⟨q, before, rfl⟩ := Option.map_eq_some_iff.1 found
    exact ⟨q, before, cls_evacuated k q⟩
  have forth : ∀ {k q}, v.live? k = some q → ∃ p, w.live? k = some p ∧
      p.cls = if k ∈ (part.instances.erase h).toList then new else q.cls := by
    intro k q before
    exact ⟨_, by rw [lives, before]; rfl, cls_evacuated k q⟩
  have instance_iff : ∀ {k}, k ≠ h → (k ∈ (part.instances.erase h).toList ↔ ∃ q, v.live? k = some q ∧ q.cls = h) := by
    intro k different
    have erased : k ∈ (part.instances.erase h).toList ↔ k ∈ part.instances ∧ k ≠ h := HandleSet.mem_erase
    rw [erased, ← World.mem_instancesOf_of_live live isPart, classed.instances]
    exact and_iff_left different
  have members : ∀ c x, x ∈ w.instancesOf c ↔ c ≠ h ∧
      (x ∈ v.instancesOf c ∨ (c = new ∧ x ∈ (part.instances.erase h).toList)) := by
    intro c x
    cases isClass : v.isClass c with
    | true =>
      obtain ⟨q, part', here, isPart'⟩ := World.isClass_iff.1 isClass
      obtain ⟨part'', after, content⟩ := @instances_evacuated h new (part.instances.erase h).toList part' c q isPart'
      have found : w.live? c = some (DynamicObjects.evacuated h new (part.instances.erase h).toList c q) := by
        rw [lives, here]
        rfl
      rw [World.mem_instancesOf_of_live found after, content, World.mem_instancesOf_of_live here isPart']
    | false =>
      have outside : c ≠ new := fun same => by simp [same, cls] at isClass
      have before : x ∉ v.instancesOf c := World.not_mem_instancesOf isClass
      have after : x ∉ w.instancesOf c := World.not_mem_instancesOf (identity.isClass.trans isClass)
      simp [before, after, outside]
  refine ⟨fun k p different found => ?_, fun c k different => ?_, fun c inside => ?_⟩
  · obtain ⟨q, before, same⟩ := back found
    rw [identity.isClass, same]
    split
    · exact ⟨cls, other⟩
    · next stays => exact ⟨classed.cls k q before, fun at_class => stays ((instance_iff different).2 ⟨q, before, at_class⟩)⟩
  · rw [members, classed.instances]
    constructor
    · rintro ⟨apart, ⟨q, before, rfl⟩ | ⟨rfl, inside⟩⟩
      · obtain ⟨p, after, same⟩ := forth before
        refine ⟨p, after, same.trans (if_neg fun inside => apart ?_)⟩
        obtain ⟨q', again, at_class⟩ := (instance_iff different).1 inside
        rw [before] at again
        cases again
        exact at_class
      · obtain ⟨q, before, -⟩ := (instance_iff different).1 inside
        obtain ⟨p, after, same⟩ := forth before
        exact ⟨p, after, same.trans (if_pos inside)⟩
    · rintro ⟨p, found, rfl⟩
      obtain ⟨q, before, same⟩ := back found
      rw [same]
      split
      · next inside => exact ⟨other, .inr ⟨rfl, inside⟩⟩
      · next stays =>
        exact ⟨fun at_class => stays ((instance_iff different).2 ⟨q, before, at_class⟩), .inl ⟨q, before, rfl⟩⟩
  · obtain ⟨-, before | ⟨-, inside⟩⟩ := (members c h).1 inside
    · obtain ⟨q, here, same⟩ := (classed.instances c h).1 before
      obtain ⟨p, after, moved⟩ := forth here
      refine ⟨p, after, moved.trans ((if_neg fun inside => ?_).trans same)⟩
      exact (HandleSet.mem_erase.1 inside).2 rfl
    · exact absurd rfl (HandleSet.mem_erase.1 inside).2

end evacuated

/-! ## Subclasses and superclasses -/

/-- Links can be taken away. -/
theorem Linked.fewer {v w : World} (linked : Linked v) (identity : Heap.Alike Object.identity v.objects w.objects)
    (mirrored : Hierarchy.Mirrored w.objects) (fewer : ∀ c s, s ∈ w.objects.supersOf c → s ∈ v.objects.supersOf c) :
    Linked w := by
  refine ⟨mirrored, fun c s link => ?_, fun c => Subrelation.accessible (fun link => fewer _ _ link) (linked.grounded c)⟩
  obtain ⟨o, p, first, second, systems⟩ := linked.live c s (fewer c s link)
  obtain ⟨o', after, looks⟩ := identity.exists_live first
  obtain ⟨p', after', looks'⟩ := identity.exists_live second
  refine ⟨o', p', after, after', ?_⟩
  have one : o'.system = o.system := congrArg Identity.system looks
  have other : p'.system = p.system := congrArg Identity.system looks'
  rw [one, other, systems]

/-- What taking some subclasses off the class `h` does to the links. -/
structure Detached (loose : Handle → Prop) (h : Handle) (subs : List Handle) (v w : World) : Prop where
  alike : Heap.Alike Object.withoutAncestry v.objects w.objects
  linked : Linked w
  rooted : Rooted loose w
  others : ∀ k, k ∉ subs → w.objects.supersOf k = v.objects.supersOf k
  orders : ∀ k, w.objects.cachedOrder? k = v.objects.cachedOrder? k
  apart : ∀ k ∈ subs, h ∉ w.objects.supersOf k

/-- Superclasses once the class `h` is taken off: the others in their order, or a root class where there are none. -/
def ObjectSystem.Reattaches (s : ObjectSystem) (h : Handle) (before after : List Handle) : Prop :=
  (before.erase h ≠ [] ∧ after = before.erase h) ∨
    (before.erase h = [] ∧ (after = [s.rootClass] ∨ after = [s.rootMetaclass]))

/-- The class `h` is taken off its subclasses, and nothing else is touched but `h` and the root classes. -/
structure Reattached (s : ObjectSystem) (h : Handle) (subs : List Handle) (a b : Objects) : Prop where
  supers : ∀ k ∈ subs, s.Reattaches h (a.supersOf k) (b.supersOf k)
  others : ∀ k, k ∉ subs → k ≠ h → k ≠ s.rootClass → k ≠ s.rootMetaclass → b.get? k = a.get? k

theorem Hierarchy.get?_unlink {objects : Objects} {c p k : Handle} (below : k ≠ c) (above : k ≠ p) :
    (Hierarchy.unlink objects c p).get? k = objects.get? k := by
  unfold Hierarchy.unlink Heap.modifyClass
  rw [Heap.get?_modify, if_neg above, Heap.get?_modify, if_neg below]

theorem Hierarchy.get?_link {objects : Objects} {c p k : Handle} (below : k ≠ c) (above : k ≠ p) :
    (Hierarchy.link objects c p).get? k = objects.get? k := by
  unfold Hierarchy.link Heap.modifyClass
  rw [Heap.get?_modify, if_neg above, Heap.get?_modify, if_neg below]

section detached

variable {loose : Handle → Prop} {h sub : Handle} {o : Object} {s : ObjectSystem} {w : World}

theorem identity_of_withoutAncestry {a b : Objects} (alike : Heap.Alike Object.withoutAncestry a b) :
    Heap.Alike Object.identity a b :=
  alike.comp Object.identity fun o => (Object.identity_withoutAncestry o).symm

/-- A class below a class that is no root is no root. -/
theorem Rooted.isRoot_eq_false (rooted : Rooted loose w) {c p : Handle} {q : Object} (live : w.live? c = some q)
    (link : p ∈ w.objects.supersOf c) (above : ∀ r, w.live? p = some r → r.isRoot = false) : q.isRoot = false := by
  obtain ⟨s, listed⟩ := rooted.system c q live
  cases isRoot : q.isRoot with
  | false => rfl
  | true =>
    rcases (by simpa [Object.isRoot] using isRoot : q.isRootClass = true ∨ q.isRootMetaclass = true) with flag | flag
    · obtain ⟨r, -, -, -, -, top⟩ := rooted.root _ _ listed
      rw [rooted.rootOnly c q s live listed flag, top] at link
      cases link
    · obtain ⟨r, -, -, -, -, links⟩ := rooted.metaclass _ _ listed
      obtain ⟨t, found, -, isRootClass, -⟩ := rooted.root _ _ listed
      rw [rooted.metaclassOnly c q s live listed flag, links, List.mem_singleton] at link
      have no := above t (link ▸ found)
      simp [Object.isRoot, isRootClass] at no

/-- The superclass of last resort is a root class. -/
theorem ObjectSystem.isTop_of_eq {top : Handle} {metaclass : Bool}
    (is : top = if metaclass then s.rootMetaclass else s.rootClass) : top = s.rootClass ∨ top = s.rootMetaclass := by
  rw [is]
  cases metaclass with
  | false => exact .inl rfl
  | true => exact .inr rfl

/-- The root class and the root metaclass of a system are live classes of it. -/
theorem Rooted.exists_top (rooted : Rooted loose w) {i : Nat} (listed : w.systems[i]? = some s) {top : Handle}
    (isTop : top = s.rootClass ∨ top = s.rootMetaclass) :
    ∃ t, w.live? top = some t ∧ t.isClass = true ∧ t.system = i ∧ t.isRoot = true := by
  rcases isTop with rfl | rfl
  · obtain ⟨t, live, cls, flag, system, -⟩ := rooted.root i s listed
    exact ⟨t, live, cls, system, by simp [Object.isRoot, flag]⟩
  · obtain ⟨t, live, cls, flag, system, -⟩ := rooted.metaclass i s listed
    exact ⟨t, live, cls, system, by simp [Object.isRoot, flag]⟩

/-- A root class reaches no class but root classes. -/
theorem Rooted.not_reaches (rooted : Rooted loose w) {i : Nat} (listed : w.systems[i]? = some s) {c : Handle}
    {q : Object} (live : w.live? c = some q) (root : q.isRoot = false) {top : Handle}
    (isTop : top = s.rootClass ∨ top = s.rootMetaclass) : ¬Hierarchy.Reaches w.objects.supersOf top c := by
  obtain ⟨r, foundRoot, -, flagRoot, -, bare⟩ := rooted.root i s listed
  obtain ⟨m, foundMeta, -, flagMeta, -, links⟩ := rooted.metaclass i s listed
  have ends : ¬Hierarchy.Reaches w.objects.supersOf s.rootClass c := by
    intro path
    rcases Relation.ReflTransGen.cases_head path with rfl | ⟨x, link, -⟩
    · rw [foundRoot] at live
      cases live
      simp [Object.isRoot, flagRoot] at root
    · rw [bare] at link
      cases link
  rcases isTop with rfl | rfl
  · exact ends
  · intro path
    rcases Relation.ReflTransGen.cases_head path with rfl | ⟨x, link, rest⟩
    · rw [foundMeta] at live
      cases live
      simp [Object.isRoot, flagMeta] at root
    · rw [links, List.mem_singleton] at link
      exact ends (link ▸ rest)

theorem Linked.unlink (linked : Linked w) (c p : Handle) :
    Linked { w with objects := Hierarchy.unlink w.objects c p } := by
  refine linked.fewer (identity_of_withoutAncestry (Hierarchy.alike_withoutAncestry_unlink _ _ _))
    (linked.mirrored.unlink c p) fun k t link => ?_
  change t ∈ (Hierarchy.unlink w.objects c p).supersOf k at link
  rw [Hierarchy.supersOf_unlink] at link
  split at link
  · exact List.mem_of_mem_erase link
  · exact link

/-- A class that is no root class may change its superclasses, if some are left or it may be loose. -/
theorem Rooted.of_supers {tight : Handle → Prop} (rooted : Rooted loose w) (looser : ∀ k, loose k → tight k) {b : Objects}
    {c : Handle} {q : Object} (live : w.live? c = some q) (noRoot : q.isRoot = false)
    (alike : Heap.Alike Object.withoutAncestry w.objects b) (others : ∀ k, k ≠ c → b.supersOf k = w.objects.supersOf k)
    (kept : tight c ∨ b.supersOf c ≠ []) : Rooted tight { w with objects := b } := by
  refine rooted.of_identity (identity_of_withoutAncestry alike) rfl (fun k p found isRoot => others k ?_)
    fun k p found cls top apart => ?_
  · rintro rfl
    rw [live] at found
    cases found
    rw [noRoot] at isRoot
    cases isRoot
  · have other : k ≠ c := by
      rintro rfl
      exact kept.elim apart fun some => some top
    exact rooted.top k p found cls ((others k other).symm.trans top) fun free => apart (looser k free)

/-! ### One subclass -/

section subclass

variable (linked : Linked w) (rooted : Rooted loose w) (live : w.live? h = some o) (root : o.isRoot = false)
  (link : h ∈ w.objects.supersOf sub)

include link

theorem supersOf_reattached {top : Handle} (bare : (w.objects.supersOf sub).erase h = []) (k : Handle) :
    (Hierarchy.link (Hierarchy.unlink w.objects sub h) sub top).supersOf k =
      if k = sub then [top] else w.objects.supersOf k := by
  have known : ((Hierarchy.unlink w.objects sub h).class? sub).isSome := by
    rw [Hierarchy.isSome_class?_unlink]
    exact Hierarchy.isSome_class?_of_mem link
  rw [Hierarchy.supersOf_link known, Hierarchy.supersOf_unlink]
  by_cases same : k = sub
  · subst same
    rw [if_pos rfl, if_pos rfl, if_pos rfl, bare]
  · rw [if_neg same, if_neg same, if_neg same]

include linked rooted live root

/-- A subclass of a class that is no root class is none either, and belongs to its system. -/
theorem exists_subclass : ∃ q, w.live? sub = some q ∧ q.isClass = true ∧ q.isRoot = false ∧ q.system = o.system := by
  obtain ⟨q, p, below, above, system⟩ := linked.live sub h link
  obtain rfl : p = o := Option.some.inj (above.symm.trans live)
  have noRoot : q.isRoot = false := rooted.isRoot_eq_false below link fun r found => by
    rw [live] at found
    cases found
    exact root
  obtain ⟨part, isPart⟩ := Option.isSome_iff_exists.1 (Hierarchy.isSome_class?_of_mem link)
  rw [Heap.class?, (World.live?_eq_some_iff.1 below).1, Option.bind_some] at isPart
  exact ⟨q, below, by rw [Object.isClass, isPart]; rfl, noRoot, system.symm⟩

/-- The class is taken off a subclass that has other superclasses, or may be loose. -/
theorem detached_unlink {tight : Handle → Prop} (looser : ∀ k, loose k → tight k)
    (kept : tight sub ∨ (w.objects.supersOf sub).erase h ≠ []) :
    Detached tight h [sub] w { w with objects := Hierarchy.unlink w.objects sub h } := by
  obtain ⟨q, below, -, noRoot, -⟩ := exists_subclass linked rooted live root link
  have alike := Hierarchy.alike_withoutAncestry_unlink w.objects sub h
  have others : ∀ k, k ≠ sub → (Hierarchy.unlink w.objects sub h).supersOf k = w.objects.supersOf k :=
    fun k other => Hierarchy.supersOf_unlink.trans (if_neg other)
  have left : (Hierarchy.unlink w.objects sub h).supersOf sub = (w.objects.supersOf sub).erase h :=
    Hierarchy.supersOf_unlink.trans (if_pos rfl)
  rw [← left] at kept
  refine ⟨alike, linked.unlink sub h, rooted.of_supers looser below noRoot alike others kept,
    fun k other => others k fun same => other (List.mem_singleton.2 same), fun k => Hierarchy.cachedOrder?_unlink,
    fun k member => ?_⟩
  rw [List.mem_singleton.1 member]
  change h ∉ (Hierarchy.unlink w.objects sub h).supersOf sub
  rw [left]
  exact (linked.mirrored.nodupSupers sub).not_mem_erase

/-- It is taken off a subclass that has no other superclass, and comes under a root class. -/
theorem detached_link (listed : w.systems[o.system]? = some s) {top : Handle}
    (isTop : top = s.rootClass ∨ top = s.rootMetaclass) (bare : (w.objects.supersOf sub).erase h = []) :
    Detached loose h [sub] w
      { w with objects := Hierarchy.link (Hierarchy.unlink w.objects sub h) sub top } := by
  obtain ⟨q, below, cls, noRoot, system⟩ := exists_subclass linked rooted live root link
  -- In between the subclass has no superclass.
  have taken : Detached (fun k => loose k ∨ k = sub) h [sub] w
      { w with objects := Hierarchy.unlink w.objects sub h } :=
    detached_unlink linked rooted live root link (fun _ => .inl) (.inl (.inr rfl))
  have none : (Hierarchy.unlink w.objects sub h).supersOf sub = [] :=
    (Hierarchy.supersOf_unlink.trans (if_pos rfl)).trans bare
  obtain ⟨q', below', looks⟩ := (identity_of_withoutAncestry taken.alike).exists_live below
  have system' : q'.system = o.system := (congrArg Identity.system looks).trans system
  obtain ⟨t, above, topClass, topSystem, -⟩ := taken.rooted.exists_top listed isTop
  have apart := taken.rooted.not_reaches (system' ▸ listed) below' ((Object.isRoot_of_identity looks).trans noRoot) isTop
  have relinked := taken.linked.link (w := { w with
      objects := Hierarchy.link (Hierarchy.unlink w.objects sub h) sub top }) below'
    ((congrArg Identity.isClass looks).trans cls) above topClass (topSystem.trans system'.symm) apart
    (none ▸ List.not_mem_nil) rfl
  have supers : ∀ k, (Hierarchy.link (Hierarchy.unlink w.objects sub h) sub top).supersOf k =
      if k = sub then [top] else w.objects.supersOf k := supersOf_reattached link bare
  have alike := taken.alike.trans (Hierarchy.alike_withoutAncestry_link _ sub top)
  have others : ∀ k, k ≠ sub → (Hierarchy.link (Hierarchy.unlink w.objects sub h) sub top).supersOf k =
      w.objects.supersOf k := fun k other => (supers k).trans (if_neg other)
  refine ⟨alike, relinked, rooted.of_supers (fun _ => id) below noRoot alike others (.inr ?_),
    fun k other => others k fun same => other (List.mem_singleton.2 same),
    fun k => Hierarchy.cachedOrder?_link.trans (taken.orders k), fun k member => ?_⟩
  · rw [supers, if_pos rfl]
    exact List.cons_ne_nil _ _
  · rw [List.mem_singleton.1 member]
    change h ∉ (Hierarchy.link (Hierarchy.unlink w.objects sub h) sub top).supersOf sub
    rw [supers, if_pos rfl, List.mem_singleton]
    rintro rfl
    obtain ⟨t, above, -, -, topRoot⟩ := rooted.exists_top listed isTop
    rw [above] at live
    cases live
    rw [topRoot] at root
    cases root

/-- A subclass loses one superclass, and gets a root class if that was the last one. -/
theorem exec_detachSubclass (listed : w.systems[o.system]? = some s) :
    ∃ b, (Lifecycle.detachSubclass h s sub).exec w = (.ok ⟨⟩, { w with objects := b }) ∧
      Detached loose h [sub] w { w with objects := b } ∧ Reattached s h [sub] w.objects b := by
  have elsewhere : ∀ k, k ∉ [sub] → k ≠ h → (Hierarchy.unlink w.objects sub h).get? k = w.objects.get? k :=
    fun k other different => Hierarchy.get?_unlink (fun same => other (List.mem_singleton.2 same)) different
  have left : (Hierarchy.unlink w.objects sub h).supersOf sub = (w.objects.supersOf sub).erase h :=
    Hierarchy.supersOf_unlink.trans (if_pos rfl)
  have known : ((Hierarchy.unlink w.objects sub h).class? sub).isSome := by
    rw [Hierarchy.isSome_class?_unlink]
    exact Hierarchy.isSome_class?_of_mem link
  obtain ⟨part, found⟩ := Option.isSome_iff_exists.1 known
  have supers : part.supers = (w.objects.supersOf sub).erase h := by
    rw [← left, Heap.supersOf, found]
    rfl
  unfold Lifecycle.detachSubclass
  rw [Update.exec_bind_of_ok (WellFormed.exec_defaultSuperclass sub s w),
    Update.exec_bind_of_ok (Update.exec_changeObjects _ _), Update.exec_bind_of_ok (Update.exec_get _)]
  simp only [found, Option.any_some, supers]
  cases bare : ((w.objects.supersOf sub).erase h).isEmpty with
  | false =>
    have kept : (w.objects.supersOf sub).erase h ≠ [] := fun none => by simp [none] at bare
    refine ⟨_, rfl, detached_unlink linked rooted live root link (fun _ => id) (.inr kept), fun k member => .inl ?_,
      fun k other different _ _ => elsewhere k other different⟩
    rw [List.mem_singleton.1 member]
    exact ⟨kept, left⟩
  | true =>
    have none := List.isEmpty_iff.1 bare
    obtain ⟨top, isTop⟩ : ∃ top, top = if w.isMetaclass sub then s.rootMetaclass else s.rootClass := ⟨_, rfl⟩
    have either := ObjectSystem.isTop_of_eq isTop
    rw [← isTop]
    refine ⟨Hierarchy.link (Hierarchy.unlink w.objects sub h) sub top, rfl,
      detached_link linked rooted live root link listed either none, fun k member => .inr ?_,
      fun k other different noRoot noMetaclass => ?_⟩
    · rw [List.mem_singleton.1 member, supersOf_reattached link none, if_pos rfl]
      exact ⟨none, either.imp (congrArg ([·])) (congrArg ([·]))⟩
    · have apart : k ≠ top := by
        rcases either with is | is <;> rw [is] <;> assumption
      exact (Hierarchy.get?_link (fun same => other (List.mem_singleton.2 same)) apart).trans
        (elsewhere k other different)

end subclass

/-! ### All of them -/

theorem exec_detachSubclasses (subs : List Handle) (w : World) (linked : Linked w) (rooted : Rooted loose w)
    (live : w.live? h = some o) (root : o.isRoot = false) (listed : w.systems[o.system]? = some s)
    (below : ∀ c ∈ subs, h ∈ w.objects.supersOf c) (nodup : subs.Nodup) :
    ∃ b, (subs.forM (Lifecycle.detachSubclass h s)).exec w = (.ok ⟨⟩, { w with objects := b }) ∧
      Detached loose h subs w { w with objects := b } ∧ Reattached s h subs w.objects b := by
  induction subs generalizing w o with
  | nil =>
    exact ⟨w.objects, rfl, ⟨.refl _, linked, rooted, fun _ _ => rfl, fun _ => rfl,
      fun _ no => absurd no List.not_mem_nil⟩, fun _ no => absurd no List.not_mem_nil, fun _ _ _ _ _ => rfl⟩
  | cons c subs ih =>
    obtain ⟨outside, rest⟩ := List.nodup_cons.1 nodup
    obtain ⟨a, first, one, left⟩ := exec_detachSubclass linked rooted live root (below c List.mem_cons_self) listed
    obtain ⟨o', live', looks⟩ := (identity_of_withoutAncestry one.alike).exists_live live
    have root' : o'.isRoot = false := (Object.isRoot_of_identity looks).trans root
    have system : o'.system = o.system := congrArg Identity.system looks
    obtain ⟨b, others, two, left'⟩ := ih { w with objects := a } one.linked one.rooted live' root'
      (by rw [system]; exact listed) (fun x member => by
        have other : x ∉ [c] := fun same => outside (List.mem_singleton.1 same ▸ member)
        rw [one.others x other]
        exact below x (List.mem_cons_of_mem c member)) rest
    refine ⟨b, (Update.exec_bind_of_ok first _).trans others, ⟨one.alike.trans two.alike, two.linked, two.rooted,
      fun k other => ?_, fun k => (two.orders k).trans (one.orders k), fun k member => ?_⟩, fun k member => ?_,
      fun k other different noRoot noMetaclass => ?_⟩
    · have different : k ≠ c := fun same => other (List.mem_cons.2 (.inl same))
      have absent : k ∉ subs := fun later => other (List.mem_cons.2 (.inr later))
      exact (two.others k absent).trans (one.others k fun same => different (List.mem_singleton.1 same))
    · rcases List.mem_cons.1 member with rfl | later
      · have kept := two.others k outside
        have gone := one.apart k (List.mem_singleton_self k)
        rw [← kept] at gone
        exact gone
      · exact two.apart k later
    · rcases List.mem_cons.1 member with rfl | later
      · have kept : b.supersOf k = a.supersOf k := two.others k outside
        rw [kept]
        exact left.supers k (List.mem_singleton_self k)
      · have before : a.supersOf k = w.objects.supersOf k :=
          one.others k fun same => outside (List.mem_singleton.1 same ▸ later)
        rw [← before]
        exact left'.supers k later
    · exact (left'.others k (fun later => other (List.mem_cons_of_mem c later)) different noRoot noMetaclass).trans
        (left.others k (fun same => other (List.mem_singleton.1 same ▸ List.mem_cons_self)) different noRoot noMetaclass)

/-- Once all subclasses are taken off a class, its own superclass links can go, too. -/
theorem exec_detachSuperclasses {supers : List Handle} (linked : Linked w) (rooted : Rooted loose w)
    (live : w.live? h = some o) (root : o.isRoot = false) (free : loose h) (above : w.objects.supersOf h = supers) :
    ∃ b, (supers.forM fun sup => Update.changeObjects (Hierarchy.unlink · h sup)).exec w =
        (.ok ⟨⟩, { w with objects := b }) ∧
      Detached loose h [h] w { w with objects := b } ∧ b.supersOf h = [] ∧
      ∀ k, k ≠ h → k ∉ supers → b.get? k = w.objects.get? k := by
  have links : ∀ k, (supers.foldl (Hierarchy.unlink · h ·) w.objects).supersOf k =
      if k = h then [] else w.objects.supersOf k := by
    intro k
    rw [Hierarchy.supersOf_foldl_unlink]
    by_cases here : k = h
    · subst here
      rw [if_pos rfl, if_pos rfl, above, Hierarchy.foldl_erase_self]
    · rw [if_neg here, if_neg here]
  have alike : Heap.Alike Object.withoutAncestry w.objects (supers.foldl (Hierarchy.unlink · h ·) w.objects) :=
    .foldl (fun a s => Hierarchy.alike_withoutAncestry_unlink a h s) supers w.objects
  have orders : ∀ k, (supers.foldl (Hierarchy.unlink · h ·) w.objects).cachedOrder? k = w.objects.cachedOrder? k :=
    fun k => Hierarchy.cachedOrder?_foldl_unlink supers
  have mirrored := linked.mirrored.foldl_unlink h supers
  have others : ∀ k, k ≠ h → ∀ (above : List Handle) (a : Objects), k ∉ above →
      (above.foldl (Hierarchy.unlink · h ·) a).get? k = a.get? k := by
    intro k other above
    induction above with
    | nil => exact fun _ _ => rfl
    | cons s above ih =>
      intro a apart
      exact (ih _ fun later => apart (List.mem_cons_of_mem s later)).trans
        (Hierarchy.get?_unlink other fun same => apart (same ▸ List.mem_cons_self))
  refine ⟨_, Update.exec_forM_changeObjects (fun s objects => Hierarchy.unlink objects h s) supers w, ?_, ?_,
    fun k other => others k other supers w.objects⟩
  · generalize supers.foldl (Hierarchy.unlink · h ·) w.objects = b at *
    refine ⟨alike, linked.fewer (identity_of_withoutAncestry alike) mirrored fun k s link => ?_, ?_, fun k other => ?_,
      orders, fun k member => ?_⟩
    · change s ∈ b.supersOf k at link
      rw [links] at link
      split at link
      · cases link
      · exact link
    · exact rooted.of_supers (fun _ => id) live root alike (fun k other => (links k).trans (if_neg other)) (.inl free)
    · exact (links k).trans (if_neg fun same => other (List.mem_singleton.2 same))
    · rw [List.mem_singleton.1 member]
      change h ∉ b.supersOf h
      rw [links, if_pos rfl]
      exact List.not_mem_nil
  · exact (links h).trans (if_pos rfl)

end detached

end DynamicObjects
