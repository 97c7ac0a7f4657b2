import DynamicObjects.Proofs.Hierarchy.Links

/-!
# Replacing superclasses

A replacement is kept exactly if it closes no cycle. In that case every order that is kept afterwards fits the new
links; otherwise the links and the kept orders are as before.
-/
namespace DynamicObjects

/-- An object without its superclass links and what is kept for them. -/
def Object.withoutAncestry (o : Object) : Object :=
  { o with classPart := o.classPart.map fun c => { c with supers := [], subs := [], order := none } }

namespace Hierarchy

/-! ## Dependent classes -/

section dependents

variable {objects : Objects} {c k s : Handle}

theorem mem_dependentsOf : k ∈ dependentsOf objects c ↔
    ∃ part, objects.class? c = some part ∧ (k ∈ part.subs ∨ k ∈ part.classUsers) := by
  unfold dependentsOf
  cases objects.class? c <;> simp

theorem mem_dependentsOf_of_mem_subsOf (sub : k ∈ objects.subsOf c) : k ∈ dependentsOf objects c := by
  unfold Heap.subsOf at sub
  cases found : objects.class? c with
  | none => rw [found] at sub; cases sub
  | some part =>
    rw [found] at sub
    exact mem_dependentsOf.2 ⟨part, found, .inl sub⟩

theorem contains_of_class? {part : ClassPart} (found : objects.class? c = some part) : objects.contains c := by
  obtain ⟨o, here, -⟩ := Option.bind_eq_some_iff.1 found
  unfold Heap.contains
  rw [here]
  rfl

theorem contains_of_dependentsOf_ne_nil (some : dependentsOf objects c ≠ []) : objects.contains c := by
  obtain ⟨k, member⟩ := List.exists_mem_of_ne_nil _ some
  obtain ⟨part, found, -⟩ := mem_dependentsOf.1 member
  exact contains_of_class? found

theorem mem_dependentSubclasses :
    k ∈ dependentSubclasses objects c ↔ Reaches (dependentsOf objects) c k :=
  mem_finished_walk (fun _ => contains_of_dependentsOf_ne_nil) c k

theorem head?_dependentSubclasses : (dependentSubclasses objects c).head? = some c :=
  head?_finished_walk c

end dependents

/-! ## Links of one class replaced -/

section update

variable {supers : Handle → List Handle} {c k : Handle} {new : List Handle}

/-- If a class with new superclasses reaches no cycle, then no class does. -/
theorem grounded_update (before : ∀ k, Grounded supers k) (ground : Grounded (Function.update supers c new) c)
    (k : Handle) : Grounded (Function.update supers c new) k := by
  induction before k with
  | intro k _ ih =>
    by_cases here : k = c
    · exact here ▸ ground
    · refine Acc.intro k fun s link => ih s ?_
      rwa [Function.update_of_ne here] at link

/-- What does not reach a class does not notice its new superclasses. -/
theorem Grounded.update (ground : Grounded supers k) (apart : ¬Reaches supers k c) :
    Grounded (Function.update supers c new) k := by
  induction ground with
  | intro k _ ih =>
    refine Acc.intro k fun s link => ?_
    have here : k ≠ c := fun same => apart (same ▸ .refl)
    rw [Function.update_of_ne here] at link
    exact ih s link fun path => apart (.head link path)

/-- A class gets one more superclass that does not inherit from it. -/
theorem grounded_update_cons (before : ∀ k, Grounded supers k) (apart : ¬Reaches supers k c) (x : Handle) :
    Grounded (Function.update supers c (k :: supers c)) x := by
  refine grounded_update before (Acc.intro c fun s link => ?_) x
  rw [Function.update_self] at link
  rcases List.mem_cons.1 link with rfl | former
  · exact (before s).update apart
  · exact (before s).update fun path => (before c).not_strictly (.head' former path)

end update

section replacement

variable {objects : Objects} {c : Handle} {new : List Handle}

/-- The links of a class replaced, and the orders forgotten that this may spoil. -/
def replaced (objects : Objects) (c : Handle) (new : List Handle) : Objects :=
  forgetOrders (relink objects c (objects.supersOf c) new) (dependentSubclasses objects c)

theorem alike_forgetOrders_replaced (objects : Objects) (c : Handle) (new : List Handle) :
    Heap.Alike Object.withoutPrecedence (relink objects c (objects.supersOf c) new) (replaced objects c new) :=
  alike_forgetOrders _ _

theorem supersOf_replaced (cls : (objects.class? c).isSome) :
    (replaced objects c new).supersOf = Function.update objects.supersOf c new :=
  (alike_forgetOrders_replaced objects c new).supersOf.trans (supersOf_relink cls new)

theorem isSome_class?_replaced (k : Handle) :
    ((replaced objects c new).class? k).isSome = (objects.class? k).isSome :=
  ((alike_forgetOrders_replaced objects c new).isSome_class? k).trans (isSome_class?_relink _ _)

theorem cachedOrder?_replaced (k : Handle) : (replaced objects c new).cachedOrder? k =
    if k ∈ dependentSubclasses objects c then none else objects.cachedOrder? k := by
  unfold replaced
  rw [cachedOrder?_forgetOrders, cachedOrder?_relink]

/-- Orders that are kept fit new links, too, once those of all classes below the changed links are forgotten. -/
theorem OrdersKept.of_forgotten {a b : Objects} (kept : OrdersKept a) (spoiled : Handle → Prop)
    (below : ∀ c s, s ∈ a.supersOf c → spoiled s → spoiled c) (forgotten : ∀ c, spoiled c → b.cachedOrder? c = none)
    (supers : ∀ c, ¬spoiled c → b.supersOf c = a.supersOf c)
    (cached : ∀ c, ¬spoiled c → b.cachedOrder? c = a.cachedOrder? c)
    (classes : ∀ s, (b.class? s).isSome → (a.class? s).isSome) : OrdersKept b := by
  have above : ∀ c k, Reaches a.supersOf c k → ¬spoiled c → ¬spoiled k := by
    intro c k path fine
    induction path with
    | refl => exact fine
    | tail _ link ih => exact fun no => ih (below _ _ link no)
  have fine : ∀ c l, b.cachedOrder? c = some l → ¬spoiled c := by
    intro c l found no
    rw [forgotten c no] at found
    cases found
  refine ⟨fun c l found => ?_, fun c l found s link isClass => ?_⟩
  · have here := fine c l found
    rw [cached c here] at found
    exact (kept.linearizes c l found).congr fun x path => supers x (above c x path here)
  · have here := fine c l found
    rw [cached c here] at found
    rw [supers c here] at link
    rw [cached s (above c s (.single link) here)]
    exact kept.above c l found s link (classes s isClass)

/-- The orders that are still kept after the links of a class were replaced fit the new links. -/
theorem ordersKept_replaced (kept : OrdersKept objects) (mirrored : Mirrored objects)
    (cls : (objects.class? c).isSome) (new : List Handle) : OrdersKept (replaced objects c new) := by
  refine kept.of_forgotten (· ∈ dependentSubclasses objects c) (fun k s link inside => ?_)
    (fun k inside => by rw [cachedOrder?_replaced, if_pos inside]) (fun k outside => ?_)
    (fun k outside => by rw [cachedOrder?_replaced, if_neg outside])
    fun s isClass => by rwa [isSome_class?_replaced] at isClass
  · exact mem_dependentSubclasses.2 ((mem_dependentSubclasses.1 inside).tail
      (mem_dependentsOf_of_mem_subsOf ((mirrored.subs k s).2 link)))
  · rw [supersOf_replaced cls, Function.update_of_ne]
    rintro rfl
    exact outside (mem_dependentSubclasses.2 .refl)

theorem computeOrders_of_grounded {a : Objects} (kept : OrdersKept a) (ground : ∀ k, Grounded a.supersOf k)
    {classes : List Handle} (all : ∀ k ∈ classes, (a.class? k).isSome) :
    ∃ b, computeOrders a classes = (none, b) ∧ Heap.Alike Object.withoutPrecedence a b ∧ OrdersKept b := by
  induction classes generalizing a with
  | nil => exact ⟨a, rfl, .refl a, kept⟩
  | cons k classes ih =>
    obtain ⟨order, next, done, computed⟩ := computed_precedenceOrder kept (all k List.mem_cons_self) (ground k)
    obtain ⟨b, rest, alike, keeps⟩ := ih (a := next) computed.kept
      (by rw [computed.alike.supersOf]; exact ground)
      fun x member => by rw [computed.alike.isSome_class?]; exact all x (List.mem_cons_of_mem k member)
    refine ⟨b, ?_, computed.alike.trans alike, keeps⟩
    unfold computeOrders
    rw [done]
    exact rest

theorem computeOrders_of_not_grounded {a : Objects} (kept : OrdersKept a) {k : Handle} (cls : (a.class? k).isSome)
    (endless : ¬Grounded a.supersOf k) (rest : List Handle) :
    ∃ name closing, computeOrders a (k :: rest) = (some (.cycle name closing), a) := by
  obtain ⟨closing, failed⟩ := precedenceOrder_eq_error kept cls endless
  unfold computeOrders
  rw [failed]
  exact ⟨_, _, rfl⟩

theorem alike_withoutAncestry_relink (objects : Objects) (c : Handle) (old new : List Handle) :
    Heap.Alike Object.withoutAncestry objects (relink objects c old new) :=
  alike_relink (fun f o => by simp [Object.withoutAncestry, Function.comp_def])
    (fun f o => by simp [Object.withoutAncestry, Function.comp_def]) objects c old new

theorem alike_withoutAncestry {a b : Objects} (alike : Heap.Alike Object.withoutPrecedence a b) :
    Heap.Alike Object.withoutAncestry a b :=
  alike.comp Object.withoutAncestry fun o => by
    simp [Object.withoutAncestry, Object.withoutPrecedence, Function.comp_def]

theorem subsOf_of_alike {a b : Objects} (alike : Heap.Alike Object.withoutPrecedence a b) : b.subsOf = a.subsOf := by
  funext h
  have same := congrArg (Option.map (·.subs)) (alike.class? h)
  unfold Heap.subsOf
  simp only [Option.map_map, Function.comp_def] at same
  rw [same]

theorem Mirrored.of_alike {a b : Objects} (mirrored : Mirrored a) (alike : Heap.Alike Object.withoutPrecedence a b) :
    Mirrored b := by
  have subs := subsOf_of_alike alike
  refine ⟨?_, ?_, ?_⟩
  · rw [subs, alike.supersOf]
    exact mirrored.subs
  · rw [alike.supersOf]
    exact mirrored.nodupSupers
  · rw [subs]
    exact mirrored.nodupSubs

/-- What every replacement leads to: a heap whose links are `supers`, with orders that fit them. -/
structure Replaced (before : Objects) (supers : Handle → List Handle) (after : Objects) : Prop where
  supers : after.supersOf = supers
  mirrored : Mirrored after
  kept : OrdersKept after
  alike : Heap.Alike Object.withoutAncestry before after

theorem alike_replaced (objects : Objects) (c : Handle) (new : List Handle) :
    Heap.Alike Object.withoutAncestry objects (replaced objects c new) :=
  (alike_withoutAncestry_relink _ _ _ _).trans (alike_withoutAncestry (alike_forgetOrders_replaced objects c new))

theorem mirrored_replaced (mirrored : Mirrored objects) (cls : (objects.class? c).isSome)
    (classes : ∀ s ∈ new, (objects.class? s).isSome) (nodup : new.Nodup) : Mirrored (replaced objects c new) :=
  (mirrored.relink cls classes nodup).of_alike (alike_forgetOrders_replaced objects c new)

/-- The subclasses of all classes once a class is linked anew to the superclasses it has: it has become the last
subclass of each. -/
def relinkedSubs (objects : Objects) (c k : Handle) : List Handle :=
  if k ∈ objects.supersOf c then (objects.subsOf k).erase c ++ [c] else objects.subsOf k

/-- Putting back the former links puts the class behind the other subclasses of its superclasses. -/
theorem subsOf_restored (mirrored : Mirrored objects) (classes : ∀ s ∈ new, (objects.class? s).isSome)
    (nodup : new.Nodup) (dependents : List Handle) :
    (restoreOrders objects (relink (replaced objects c new) c new (objects.supersOf c)) dependents).subsOf =
      relinkedSubs objects c := by
  funext k
  have former : ∀ s ∈ objects.supersOf c, ((replaced objects c new).class? s).isSome := fun s link => by
    rw [isSome_class?_replaced]
    exact Heap.isSome_class?_of_mem_subsOf ((mirrored.subs c s).2 link)
  have absent : c ∉ if k ∈ objects.supersOf c then (objects.subsOf k).erase c else objects.subsOf k := by
    split
    · exact (mirrored.nodupSubs k).not_mem_erase
    · next apart => rwa [mirrored.subs]
  rw [subsOf_of_alike (alike_restoreOrders _ _ _), subsOf_relink nodup (mirrored.nodupSupers c) former,
    subsOf_of_alike (alike_forgetOrders_replaced objects c new), subsOf_relink (mirrored.nodupSupers c) nodup classes]
  have added : ∀ others : List Handle, c ∉ others → (if k ∈ new then (others ++ if k ∈ new then [c] else []).erase c
      else others ++ if k ∈ new then [c] else []) = others := by
    intro others absent
    split
    · rw [List.erase_append_right _ absent, List.erase_cons_head, List.append_nil]
    · rw [List.append_nil]
  rw [added _ absent]
  unfold relinkedSubs
  split
  · rfl
  · rw [List.append_nil]

/-- Putting back the former links and orders undoes a replacement. -/
theorem replaced_restoreOrders (kept : OrdersKept objects) (mirrored : Mirrored objects)
    (cls : (objects.class? c).isSome) (classes : ∀ s ∈ new, (objects.class? s).isSome) (nodup : new.Nodup)
    (dependents : ∀ k ∈ dependentSubclasses objects c, (objects.class? k).isSome) :
    Replaced objects objects.supersOf (restoreOrders objects
      (relink (replaced objects c new) c new (objects.supersOf c)) (dependentSubclasses objects c)) := by
  have former : (replaced objects c new).supersOf c = new := by rw [supersOf_replaced cls, Function.update_self]
  have isClass : ∀ k, ((relink (replaced objects c new) c new (objects.supersOf c)).class? k).isSome =
      (objects.class? k).isSome := fun k => (isSome_class?_relink _ _).trans (isSome_class?_replaced k)
  have back := alike_restoreOrders objects (relink (replaced objects c new) c new (objects.supersOf c))
    (dependentSubclasses objects c)
  have again : (relink (replaced objects c new) c new (objects.supersOf c)).supersOf = objects.supersOf := by
    have relinked := @supersOf_relink (replaced objects c new) c
      (by rw [isSome_class?_replaced]; exact cls) (objects.supersOf c)
    rw [former, supersOf_replaced cls] at relinked
    rw [relinked, Function.update_idem, Function.update_eq_self]
  have cached : ∀ k, (restoreOrders objects (relink (replaced objects c new) c new (objects.supersOf c))
      (dependentSubclasses objects c)).cachedOrder? k = objects.cachedOrder? k := by
    intro k
    rw [cachedOrder?_restoreOrders, cachedOrder?_relink, cachedOrder?_replaced]
    split
    · next member =>
      have some := isClass k
      rw [dependents k member] at some
      obtain ⟨part, found⟩ := Option.isSome_iff_exists.1 some
      rw [found]
      rfl
    · rfl
  refine ⟨back.supersOf.trans again, ?_, ⟨fun k l found => ?_, fun k l found s link isSome => ?_⟩, ?_⟩
  · have relinked : Mirrored (relink (replaced objects c new) c ((replaced objects c new).supersOf c)
        (objects.supersOf c)) := by
      refine (mirrored_replaced mirrored cls classes nodup).relink (by rw [isSome_class?_replaced]; exact cls)
        (fun s link => ?_) (mirrored.nodupSupers c)
      rw [isSome_class?_replaced]
      exact Heap.isSome_class?_of_mem_subsOf ((mirrored.subs c s).2 link)
    rw [former] at relinked
    exact relinked.of_alike back
  · rw [cached] at found
    rw [back.supersOf, again]
    exact kept.linearizes k l found
  · rw [cached] at found ⊢
    rw [back.supersOf, again] at link
    rw [back.isSome_class?, isClass] at isSome
    exact kept.above k l found s link isSome
  · exact (alike_replaced objects c new).trans
      ((alike_withoutAncestry_relink _ _ _ _).trans (alike_withoutAncestry back))

theorem replaceSuperclasses_eq : replaceSuperclasses objects c (objects.supersOf c) new (dependentSubclasses objects c) =
    match computeOrders (replaced objects c new) (dependentSubclasses objects c) with
    | (none, changed) => (none, changed)
    | (some defect, changed) => (some defect, restoreOrders objects (relink changed c new (objects.supersOf c))
      (dependentSubclasses objects c)) := rfl

/-- Superclasses are replaced if no class then reaches a cycle; otherwise the former ones are put back, and the class
has moved among their subclasses. -/
theorem replaceSuperclasses_cases (kept : OrdersKept objects) (mirrored : Mirrored objects)
    (cls : (objects.class? c).isSome) (classes : ∀ s ∈ new, (objects.class? s).isSome) (nodup : new.Nodup)
    (ground : ∀ k, Grounded objects.supersOf k)
    (dependents : ∀ k ∈ dependentSubclasses objects c, (objects.class? k).isSome) :
    (∃ b, replaceSuperclasses objects c (objects.supersOf c) new (dependentSubclasses objects c) = (none, b) ∧
      Replaced objects (Function.update objects.supersOf c new) b ∧
      ∀ k, Grounded (Function.update objects.supersOf c new) k) ∨
    ∃ name closing b, replaceSuperclasses objects c (objects.supersOf c) new (dependentSubclasses objects c) =
      (some (.cycle name closing), b) ∧ Replaced objects objects.supersOf b ∧ b.subsOf = relinkedSubs objects c := by
  have keeps := ordersKept_replaced kept mirrored cls new
  have links : (replaced objects c new).supersOf = _ := supersOf_replaced cls
  rw [replaceSuperclasses_eq]
  by_cases grounded : Grounded (Function.update objects.supersOf c new) c
  · have all := grounded_update ground grounded
    obtain ⟨b, done, alike, after⟩ := computeOrders_of_grounded keeps (by rw [links]; exact all)
      fun k member => by rw [isSome_class?_replaced]; exact dependents k member
    refine .inl ⟨b, by rw [done], ⟨alike.supersOf.trans links, ?_, after, ?_⟩, all⟩
    · exact (mirrored_replaced mirrored cls classes nodup).of_alike alike
    · exact (alike_replaced objects c new).trans (alike_withoutAncestry alike)
  · -- the first dependent class is the class itself, so nothing has been computed when the replacement fails
    obtain ⟨rest, listed⟩ : ∃ rest, dependentSubclasses objects c = c :: rest :=
      ⟨_, List.eq_cons_of_mem_head? head?_dependentSubclasses⟩
    obtain ⟨name, closing, failed⟩ := computeOrders_of_not_grounded keeps (by rw [isSome_class?_replaced]; exact cls)
      (by rw [links]; exact grounded) rest
    rw [← listed] at failed
    rw [failed]
    exact .inr ⟨name, closing, _, rfl, replaced_restoreOrders kept mirrored cls classes nodup dependents,
      subsOf_restored mirrored classes nodup _⟩

end replacement

end Hierarchy

end DynamicObjects
