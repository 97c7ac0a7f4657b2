import DynamicObjects.Hierarchy.Superclasses
import DynamicObjects.Proofs.Hierarchy.Linearization

/-!
# Changing superclass links

Making and removing links changes the superclasses of one class and the subclasses of the other, and the two sides
stay mirrors of each other.
-/
namespace DynamicObjects

namespace Heap

variable {objects : Objects}

theorem supersOf_modifyClass (objects : Objects) (h k : Handle) (f : ClassPart → ClassPart) :
    (objects.modifyClass h f).supersOf k =
      if k = h then ((objects.class? k).map fun c => (f c).supers).getD [] else objects.supersOf k := by
  unfold supersOf
  rw [class?_modifyClass]
  split
  · rw [Option.map_map]
    rfl
  · rfl

theorem subsOf_modifyClass (objects : Objects) (h k : Handle) (f : ClassPart → ClassPart) :
    (objects.modifyClass h f).subsOf k =
      if k = h then ((objects.class? k).map fun c => (f c).subs).getD [] else objects.subsOf k := by
  unfold subsOf
  rw [class?_modifyClass]
  split
  · rw [Option.map_map]
    rfl
  · rfl

theorem cachedOrder?_modifyClass (objects : Objects) (h k : Handle) (f : ClassPart → ClassPart) :
    (objects.modifyClass h f).cachedOrder? k =
      if k = h then (objects.class? k).bind fun c => (f c).order else objects.cachedOrder? k := by
  unfold cachedOrder?
  rw [class?_modifyClass]
  split
  · cases objects.class? k <;> rfl
  · rfl

theorem supersOf_modifyClass_of_same (objects : Objects) (h k : Handle) {f : ClassPart → ClassPart}
    (same : ∀ p, (f p).supers = p.supers) : (objects.modifyClass h f).supersOf k = objects.supersOf k := by
  rw [supersOf_modifyClass]
  simp only [same, ite_eq_right_iff]
  exact fun _ => rfl

theorem subsOf_modifyClass_of_same (objects : Objects) (h k : Handle) {f : ClassPart → ClassPart}
    (same : ∀ p, (f p).subs = p.subs) : (objects.modifyClass h f).subsOf k = objects.subsOf k := by
  rw [subsOf_modifyClass]
  simp only [same, ite_eq_right_iff]
  exact fun _ => rfl

theorem cachedOrder?_modifyClass_of_same (objects : Objects) (h k : Handle) {f : ClassPart → ClassPart}
    (same : ∀ p, (f p).order = p.order) : (objects.modifyClass h f).cachedOrder? k = objects.cachedOrder? k := by
  rw [cachedOrder?_modifyClass]
  simp only [same, ite_eq_right_iff]
  exact fun _ => rfl

theorem isSome_class?_modifyClass (objects : Objects) (h k : Handle) (f : ClassPart → ClassPart) :
    ((objects.modifyClass h f).class? k).isSome = (objects.class? k).isSome := by
  rw [class?_modifyClass]
  split <;> simp

theorem supersOf_eq_nil {h : Handle} (missing : objects.class? h = none) : objects.supersOf h = [] := by
  unfold supersOf
  rw [missing]
  rfl

theorem subsOf_eq_nil {h : Handle} (missing : objects.class? h = none) : objects.subsOf h = [] := by
  unfold subsOf
  rw [missing]
  rfl

theorem isSome_class?_of_mem_subsOf {c h : Handle} (sub : c ∈ objects.subsOf h) : (objects.class? h).isSome := by
  cases found : objects.class? h with
  | none => rw [subsOf_eq_nil found] at sub; cases sub
  | some part => rfl

end Heap

namespace Hierarchy

/-- Superclass links and subclass links tell the same, each link once. -/
structure Mirrored (objects : Objects) : Prop where
  subs : ∀ c s, c ∈ objects.subsOf s ↔ s ∈ objects.supersOf c
  nodupSupers : ∀ c, (objects.supersOf c).Nodup
  nodupSubs : ∀ c, (objects.subsOf c).Nodup

section links

variable {objects : Objects} {c s k : Handle}

theorem supersOf_unlink : (unlink objects c s).supersOf k =
    if k = c then (objects.supersOf k).erase s else objects.supersOf k := by
  simp only [unlink, Heap.supersOf_modifyClass_of_same, implies_true]
  rw [Heap.supersOf_modifyClass]
  unfold Heap.supersOf
  cases objects.class? k <;> simp

theorem subsOf_unlink : (unlink objects c s).subsOf k =
    if k = s then (objects.subsOf k).erase c else objects.subsOf k := by
  unfold unlink
  rw [Heap.subsOf_modifyClass, ← Heap.subsOf_modifyClass_of_same objects c k
    (f := fun p => { p with supers := p.supers.erase s }) fun _ => rfl]
  unfold Heap.subsOf
  cases (objects.modifyClass c fun p => { p with supers := p.supers.erase s }).class? k <;> simp

theorem supersOf_link (cls : (objects.class? c).isSome) : (link objects c s).supersOf k =
    if k = c then s :: objects.supersOf k else objects.supersOf k := by
  simp only [link, Heap.supersOf_modifyClass_of_same, implies_true]
  rw [Heap.supersOf_modifyClass]
  by_cases here : k = c
  · subst here
    obtain ⟨part, found⟩ := Option.isSome_iff_exists.1 cls
    simp [Heap.supersOf, found]
  · simp [here]

theorem subsOf_link (cls : (objects.class? s).isSome) : (link objects c s).subsOf k =
    if k = s then objects.subsOf k ++ [c] else objects.subsOf k := by
  unfold link
  rw [Heap.subsOf_modifyClass, ← Heap.subsOf_modifyClass_of_same objects c k
    (f := fun p => { p with supers := s :: p.supers }) fun _ => rfl]
  by_cases there : k = s
  · subst there
    rw [← Heap.isSome_class?_modifyClass objects c k fun p => { p with supers := k :: p.supers }] at cls
    obtain ⟨part, found⟩ := Option.isSome_iff_exists.1 cls
    simp [Heap.subsOf, found]
  · simp [there]

theorem isSome_class?_unlink : ((unlink objects c s).class? k).isSome = (objects.class? k).isSome := by
  unfold unlink
  rw [Heap.isSome_class?_modifyClass, Heap.isSome_class?_modifyClass]

theorem isSome_class?_link : ((link objects c s).class? k).isSome = (objects.class? k).isSome := by
  unfold link
  rw [Heap.isSome_class?_modifyClass, Heap.isSome_class?_modifyClass]

theorem cachedOrder?_unlink : (unlink objects c s).cachedOrder? k = objects.cachedOrder? k := by
  simp only [unlink, Heap.cachedOrder?_modifyClass_of_same, implies_true]

theorem cachedOrder?_link : (link objects c s).cachedOrder? k = objects.cachedOrder? k := by
  simp only [link, Heap.cachedOrder?_modifyClass_of_same, implies_true]

theorem Mirrored.unlink (mirrored : Mirrored objects) (c s : Handle) : Mirrored (unlink objects c s) := by
  refine ⟨fun x y => ?_, fun x => ?_, fun x => ?_⟩
  · rw [supersOf_unlink, subsOf_unlink]
    by_cases here : x = c <;> by_cases there : y = s <;>
      simp [here, there, mirrored.subs, (mirrored.nodupSubs _).mem_erase_iff, (mirrored.nodupSupers _).mem_erase_iff]
  · rw [supersOf_unlink]
    split
    · exact (mirrored.nodupSupers x).erase s
    · exact mirrored.nodupSupers x
  · rw [subsOf_unlink]
    split
    · exact (mirrored.nodupSubs x).erase c
    · exact mirrored.nodupSubs x

/-- A link that is not there yet can be made. -/
theorem Mirrored.link (mirrored : Mirrored objects) (cls : (objects.class? c).isSome)
    (sup : (objects.class? s).isSome) (new : s ∉ objects.supersOf c) : Mirrored (link objects c s) := by
  refine ⟨fun x y => ?_, fun x => ?_, fun x => ?_⟩
  · rw [supersOf_link cls, subsOf_link sup]
    by_cases here : x = c <;> by_cases there : y = s <;> simp [here, there, mirrored.subs]
  · rw [supersOf_link cls]
    split
    · next same => subst same; exact List.nodup_cons.2 ⟨new, mirrored.nodupSupers x⟩
    · exact mirrored.nodupSupers x
  · rw [subsOf_link sup]
    split
    · next same =>
      subst same
      refine (mirrored.nodupSubs x).append (List.nodup_singleton c) fun k member last => new ?_
      rw [← List.mem_singleton.1 last, ← mirrored.subs]
      exact member
    · exact mirrored.nodupSubs x

end links

/-! ## Replacing all links of a class -/

section relink

variable {objects : Objects} {c k : Handle}

theorem supersOf_foldl_unlink (old : List Handle) : (old.foldl (unlink · c ·) objects).supersOf k =
    if k = c then old.foldl List.erase (objects.supersOf k) else objects.supersOf k := by
  induction old generalizing objects with
  | nil => simp
  | cons s old ih =>
    rw [List.foldl_cons, ih, supersOf_unlink]
    split <;> simp

/-- The class leaves the subclasses of each class it is unlinked from. -/
theorem subsOf_foldl_unlink {old : List Handle} (nodup : old.Nodup) :
    (old.foldl (unlink · c ·) objects).subsOf k =
      if k ∈ old then (objects.subsOf k).erase c else objects.subsOf k := by
  induction old generalizing objects with
  | nil => simp
  | cons s old ih =>
    obtain ⟨outside, rest⟩ := List.nodup_cons.1 nodup
    rw [List.foldl_cons, ih rest, subsOf_unlink]
    by_cases here : k = s
    · subst here
      simp [outside]
    · simp [here]

theorem isSome_class?_foldl_unlink (old : List Handle) :
    ((old.foldl (unlink · c ·) objects).class? k).isSome = (objects.class? k).isSome := by
  induction old generalizing objects with
  | nil => rfl
  | cons s old ih => rw [List.foldl_cons, ih, isSome_class?_unlink]

theorem cachedOrder?_foldl_unlink (old : List Handle) :
    (old.foldl (unlink · c ·) objects).cachedOrder? k = objects.cachedOrder? k := by
  induction old generalizing objects with
  | nil => rfl
  | cons s old ih => rw [List.foldl_cons, ih, cachedOrder?_unlink]

theorem Mirrored.foldl_unlink (mirrored : Mirrored objects) (c : Handle) (old : List Handle) :
    Mirrored (old.foldl (Hierarchy.unlink · c ·) objects) := by
  induction old generalizing objects with
  | nil => exact mirrored
  | cons s old ih => exact ih (mirrored.unlink c s)

theorem supersOf_foldl_link (cls : (objects.class? c).isSome) (new : List Handle) :
    (new.foldl (link · c ·) objects).supersOf k =
      if k = c then new.reverse ++ objects.supersOf k else objects.supersOf k := by
  induction new generalizing objects with
  | nil => simp
  | cons s new ih =>
    rw [List.foldl_cons, ih (by rwa [isSome_class?_link]), supersOf_link cls]
    split <;> simp

/-- The class comes last among the subclasses of each class it is linked to. -/
theorem subsOf_foldl_link {new : List Handle} (classes : ∀ s ∈ new, (objects.class? s).isSome) (nodup : new.Nodup) :
    (new.foldl (link · c ·) objects).subsOf k =
      if k ∈ new then objects.subsOf k ++ [c] else objects.subsOf k := by
  induction new generalizing objects with
  | nil => simp
  | cons s new ih =>
    obtain ⟨outside, rest⟩ := List.nodup_cons.1 nodup
    have later : ∀ t ∈ new, ((link objects c s).class? t).isSome := fun t member => by
      rw [isSome_class?_link]
      exact classes t (List.mem_cons_of_mem s member)
    rw [List.foldl_cons, ih later rest, subsOf_link (classes s List.mem_cons_self)]
    by_cases here : k = s
    · subst here
      simp [outside]
    · simp [here]

theorem isSome_class?_foldl_link (new : List Handle) :
    ((new.foldl (link · c ·) objects).class? k).isSome = (objects.class? k).isSome := by
  induction new generalizing objects with
  | nil => rfl
  | cons s new ih => rw [List.foldl_cons, ih, isSome_class?_link]

theorem cachedOrder?_foldl_link (new : List Handle) :
    (new.foldl (link · c ·) objects).cachedOrder? k = objects.cachedOrder? k := by
  induction new generalizing objects with
  | nil => rfl
  | cons s new ih => rw [List.foldl_cons, ih, cachedOrder?_link]

theorem Mirrored.foldl_link (mirrored : Mirrored objects) (cls : (objects.class? c).isSome) {new : List Handle}
    (classes : ∀ s ∈ new, (objects.class? s).isSome) (nodup : new.Nodup)
    (fresh : ∀ s ∈ new, s ∉ objects.supersOf c) : Mirrored (new.foldl (Hierarchy.link · c ·) objects) := by
  induction new generalizing objects with
  | nil => exact mirrored
  | cons s new ih =>
    obtain ⟨outside, rest⟩ := List.nodup_cons.1 nodup
    have linked := mirrored.link cls (classes s List.mem_cons_self) (fresh s List.mem_cons_self)
    refine ih linked (by rwa [isSome_class?_link]) (fun t member => ?_) rest fun t member => ?_
    · rw [isSome_class?_link]
      exact classes t (List.mem_cons_of_mem s member)
    · rw [supersOf_link cls, if_pos rfl]
      refine List.not_mem_cons_of_ne_of_not_mem (fun same => outside (same ▸ member)) ?_
      exact fresh t (List.mem_cons_of_mem s member)

theorem foldl_erase_self (l : List Handle) : l.foldl List.erase l = [] := by
  induction l with
  | nil => rfl
  | cons a l ih => rw [List.foldl_cons, List.erase_cons_head, ih]

/-- Once all links of a class are replaced, its superclasses are the new ones; the others keep theirs. -/
theorem supersOf_relink (cls : (objects.class? c).isSome) (new : List Handle) :
    (relink objects c (objects.supersOf c) new).supersOf = Function.update objects.supersOf c new := by
  funext k
  unfold relink
  rw [supersOf_foldl_link (by rwa [isSome_class?_foldl_unlink]), supersOf_foldl_unlink, List.reverse_reverse]
  by_cases here : k = c
  · subst here
    simp [foldl_erase_self]
  · simp [here]

/-- Of the classes it is linked to anew, the class becomes the last subclass. -/
theorem subsOf_relink {old new : List Handle} (nodupOld : old.Nodup) (nodupNew : new.Nodup)
    (classes : ∀ s ∈ new, (objects.class? s).isSome) : (relink objects c old new).subsOf k =
      (if k ∈ old then (objects.subsOf k).erase c else objects.subsOf k) ++ if k ∈ new then [c] else [] := by
  unfold relink
  rw [subsOf_foldl_link (fun s member => ?_) (List.nodup_reverse.2 nodupNew), subsOf_foldl_unlink nodupOld]
  · simp only [List.mem_reverse]
    split <;> simp
  · rw [isSome_class?_foldl_unlink]
    exact classes s (List.mem_reverse.1 member)

theorem isSome_class?_relink (old new : List Handle) :
    ((relink objects c old new).class? k).isSome = (objects.class? k).isSome := by
  unfold relink
  rw [isSome_class?_foldl_link, isSome_class?_foldl_unlink]

theorem cachedOrder?_relink (old new : List Handle) :
    (relink objects c old new).cachedOrder? k = objects.cachedOrder? k := by
  unfold relink
  rw [cachedOrder?_foldl_link, cachedOrder?_foldl_unlink]

theorem Mirrored.relink (mirrored : Mirrored objects) (cls : (objects.class? c).isSome) {new : List Handle}
    (classes : ∀ s ∈ new, (objects.class? s).isSome) (nodup : new.Nodup) :
    Mirrored (relink objects c (objects.supersOf c) new) := by
  refine (mirrored.foldl_unlink c (objects.supersOf c)).foldl_link (by rwa [isSome_class?_foldl_unlink])
    (fun s member => ?_) (List.nodup_reverse.2 nodup) fun s _ => ?_
  · rw [isSome_class?_foldl_unlink]
    exact classes s (List.mem_reverse.1 member)
  · rw [supersOf_foldl_unlink, if_pos rfl, foldl_erase_self]
    exact List.not_mem_nil

end relink

/-! ## What sees no links -/

section alike

variable {β : Type v} {view : Object → β}
  (supers : ∀ (f : List Handle → List Handle) (o : Object),
    view { o with classPart := o.classPart.map fun p => { p with supers := f p.supers } } = view o)
  (subs : ∀ (f : List Handle → List Handle) (o : Object),
    view { o with classPart := o.classPart.map fun p => { p with subs := f p.subs } } = view o)

include supers subs

/-- A view of objects that sees no superclass links sees no difference. -/
theorem alike_unlink (objects : Objects) (c s : Handle) : Heap.Alike view objects (unlink objects c s) :=
  (Heap.Alike.modify objects c fun o => supers (·.erase s) o).trans (.modify _ s fun o => subs (·.erase c) o)

theorem alike_link (objects : Objects) (c s : Handle) : Heap.Alike view objects (link objects c s) :=
  (Heap.Alike.modify objects c fun o => supers (s :: ·) o).trans (.modify _ s fun o => subs (· ++ [c]) o)

theorem alike_relink (objects : Objects) (c : Handle) (old new : List Handle) :
    Heap.Alike view objects (relink objects c old new) :=
  (Heap.Alike.foldl (fun a s => alike_unlink supers subs a c s) old objects).trans
    (.foldl (fun a s => alike_link supers subs a c s) new.reverse _)

end alike

/-! ## Forgetting and restoring orders -/

section orders

variable {objects : Objects} {k : Handle}

private theorem cachedOrder?_foldl (order : Handle → Option (List Handle)) (classes : List Handle) :
    (classes.foldl (fun a c => a.modifyClass c fun p => { p with order := order c }) objects).cachedOrder? k =
      if k ∈ classes then (objects.class? k).bind fun _ => order k else objects.cachedOrder? k := by
  induction classes generalizing objects with
  | nil => simp
  | cons c classes ih =>
    rw [List.foldl_cons, ih, Heap.cachedOrder?_modifyClass, Heap.class?_modifyClass]
    by_cases here : k = c
    · subst here
      cases objects.class? k <;> simp
    · simp [here]

theorem cachedOrder?_forgetOrders (classes : List Handle) :
    (forgetOrders objects classes).cachedOrder? k = if k ∈ classes then none else objects.cachedOrder? k := by
  unfold forgetOrders
  rw [cachedOrder?_foldl fun _ => none]
  cases objects.class? k <;> rfl

theorem cachedOrder?_restoreOrders (before : Objects) (classes : List Handle) :
    (restoreOrders before objects classes).cachedOrder? k =
      if k ∈ classes then (objects.class? k).bind fun _ => before.cachedOrder? k else objects.cachedOrder? k :=
  cachedOrder?_foldl before.cachedOrder? classes

theorem alike_forgetOrders (objects : Objects) (classes : List Handle) :
    Heap.Alike Object.withoutPrecedence objects (forgetOrders objects classes) :=
  .foldl (fun a c => Heap.alike_keepOrder a c fun _ => none) classes objects

theorem alike_restoreOrders (before objects : Objects) (classes : List Handle) :
    Heap.Alike Object.withoutPrecedence objects (restoreOrders before objects classes) :=
  .foldl (fun a c => Heap.alike_keepOrder a c fun _ => before.cachedOrder? c) classes objects

end orders

end Hierarchy

end DynamicObjects
