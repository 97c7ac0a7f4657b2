import DynamicObjects.Proofs.Runs.Links
import DynamicObjects.Proofs.Runs.Population

/-!
# Objects and classes

An instance of a metaclass is a class, and an instance of any other class is none. Creation and changes of class look at
that. New superclasses do not: a class can become a metaclass, or cease to be one, while it has instances. Where no
class does, objects stay objects and classes stay classes.
-/
namespace DynamicObjects

/-- What kind of object it is, and of which class. -/
def Object.kind (o : Object) : Bool × Handle × Bool :=
  (o.deleted, o.cls, o.isClass)

/-- Instances of metaclasses are classes, and other objects are none. -/
def World.Sorted (w : World) : Prop :=
  ∀ h o, w.live? h = some o → (o.isClass = true ↔ w.isMetaclass o.cls = true)

/-! ## Metaclasses of a heap -/

/-- Whether a root metaclass is reached along superclass links. -/
def Heap.isMetaclass (objects : Objects) (h : Handle) : Bool :=
  (Hierarchy.walk objects objects.supersOf h).finished.any fun k => (objects.get? k).any (·.isRootMetaclass)

/-- The metaclasses among the classes are these. -/
def Heap.MetaclassesAre (metas : Handle → Prop) (objects : Objects) : Prop :=
  ∀ h o, objects.get? h = some o → o.deleted = false → o.isClass = true → (objects.isMetaclass h = true ↔ metas h)

instance (metas : Handle → Prop) [DecidablePred metas] : DecidablePred (Heap.MetaclassesAre metas) := fun objects =>
  decidable_of_iff (∀ h ∈ objects.handles, ∀ o ∈ objects.get? h, o.deleted = false → o.isClass = true →
      (objects.isMetaclass h = true ↔ metas h))
    ⟨fun all h o found => all h (Heap.mem_handles found) o found, fun all h _ o found => all h o found⟩

theorem Heap.isMetaclass_iff {objects : Objects} {h : Handle} : objects.isMetaclass h = true ↔
    ∃ k o, Hierarchy.Reaches objects.supersOf h k ∧ objects.get? k = some o ∧ o.isRootMetaclass = true := by
  simp only [isMetaclass, List.any_eq_true, Option.any_eq_true,
    Hierarchy.mem_finished_walk fun _ => Hierarchy.supersOf_ne_nil, exists_and_left]

theorem Heap.Alike.isMetaclass {a b : Objects} (alike : Heap.Alike Object.bare a b) (h : Handle) :
    b.isMetaclass h = a.isMetaclass h := by
  have supers : b.supersOf = a.supersOf := (alike.comp Object.ancestry fun o => by
    simp [Object.bare, Object.core, Object.withoutPrecedence, Object.withoutOrders, Object.ancestry, Object.identity,
      Object.isClass, Function.comp_def]).supersOf_of_ancestry
  have passes : ∀ {x y : Objects}, Heap.Alike Object.bare x y → y.supersOf = x.supersOf → x.isMetaclass h = true →
      y.isMetaclass h = true := by
    intro x y alike supers isMetaclass
    obtain ⟨k, o, path, found, root⟩ := Heap.isMetaclass_iff.1 isMetaclass
    obtain ⟨p, after, same⟩ := alike.exists_of_get? found
    have flag : p.isRootMetaclass = o.isRootMetaclass := (congrArg Object.isRootMetaclass same :)
    exact Heap.isMetaclass_iff.2 ⟨k, p, supers ▸ path, after, flag.trans root⟩
  exact Bool.eq_iff_iff.2 ⟨passes alike.symm supers.symm, passes alike supers⟩

theorem Object.isClass_bare (o : Object) : o.bare.isClass = o.isClass := by
  simp [bare, core, withoutPrecedence, withoutOrders, isClass]

theorem Heap.MetaclassesAre.of_alike {metas : Handle → Prop} {a b : Objects} (are : a.MetaclassesAre metas)
    (alike : Heap.Alike Object.bare a b) : b.MetaclassesAre metas := by
  intro h p found here cls
  obtain ⟨o, before, same⟩ := alike.symm.exists_of_get? found
  have deleted : o.deleted = p.deleted := (congrArg Object.deleted same :)
  have isClass : o.isClass = p.isClass := by
    rw [← o.isClass_bare, same, p.isClass_bare]
  rw [alike.isMetaclass]
  exact are h o before (deleted.trans here) (isClass.trans cls)

section metaclasses

variable {loose : Handle → Prop} {metas : Handle → Prop} {v w : World} {c : Handle}

/-- It takes no system to tell the metaclasses of a world. -/
theorem WellFormed.isMetaclass_eq (well : WellFormed loose w) (cls : w.isClass c = true) :
    w.isMetaclass c = w.objects.isMetaclass c := by
  obtain ⟨o, part, live, isPart⟩ := World.isClass_iff.1 cls
  obtain ⟨s, system⟩ := well.rooted.system c o live
  have inherits : w.isMetaclass c = true ↔ Hierarchy.Reaches w.objects.supersOf c s.rootMetaclass := by
    rw [World.isMetaclass, live, Option.bind_some, system]
    change (w.isClass c && Hierarchy.inheritsFrom w.objects c s.rootMetaclass) = true ↔ _
    rw [cls, Bool.true_and, Hierarchy.inheritsFrom, List.contains_iff_mem,
      Hierarchy.mem_finished_walk fun _ => Hierarchy.supersOf_ne_nil]
  rw [Bool.eq_iff_iff, inherits, Heap.isMetaclass_iff]
  constructor
  · intro path
    obtain ⟨p, above, -, root, -⟩ := well.rooted.metaclass o.system s system
    exact ⟨s.rootMetaclass, p, path, (World.live?_eq_some_iff.1 above).1, root⟩
  · rintro ⟨k, p, path, found, root⟩
    obtain ⟨q, above, same⟩ := well.live_of_reaches live path
    rw [(World.live?_eq_some_iff.1 above).1] at found
    cases found
    rwa [well.rooted.metaclassOnly k _ s above (same ▸ system) root] at path

/-- A handle counts as a metaclass if it is among them, or if a system has begun with it: nothing is asked of the heap
between the creation of a system and the first instances of its root metaclass. -/
def Counts (metas : Handle → Prop) (systems : List ObjectSystem) (c : Handle) : Prop :=
  metas c ∨ ∃ s ∈ systems, s.rootMetaclass = c

theorem WellFormed.counts_iff (well : WellFormed loose w) (are : w.objects.MetaclassesAre metas)
    (cls : w.isClass c = true) : Counts metas w.systems c ↔ w.isMetaclass c = true := by
  obtain ⟨o, part, live, isPart⟩ := World.isClass_iff.1 cls
  obtain ⟨found, here⟩ := World.live?_eq_some_iff.1 live
  have isClass : o.isClass = true := by
    rw [Object.isClass, isPart]
    rfl
  rw [well.isMetaclass_eq cls, are c o found here isClass]
  refine ⟨fun counts => counts.elim id ?_, .inl⟩
  rintro ⟨s, listed, rfl⟩
  obtain ⟨i, system⟩ := List.getElem?_of_mem listed
  obtain ⟨p, above, -, root, -⟩ := well.rooted.metaclass i s system
  rw [live] at above
  cases above
  exact (are _ o found here isClass).1 (Heap.isMetaclass_iff.2 ⟨_, o, .refl, found, root⟩)

/-- The root class of a system is no metaclass. -/
theorem WellFormed.isMetaclass_rootClass (well : WellFormed loose w) {s : ObjectSystem} (listed : s ∈ w.systems) :
    w.isMetaclass s.rootClass = false := by
  obtain ⟨i, system⟩ := List.getElem?_of_mem listed
  obtain ⟨o, live, cls, -, same, top⟩ := well.rooted.root i s system
  have isClass : w.isClass s.rootClass = true := by rwa [World.isClass, live]
  refine Bool.eq_false_iff.2 fun isMetaclass => ?_
  rw [well.isMetaclass_eq isClass] at isMetaclass
  obtain ⟨k, p, path, found, root⟩ := Heap.isMetaclass_iff.1 isMetaclass
  -- Nothing stands above the root class, so it would have to be the root metaclass, which has a superclass.
  have here : s.rootClass = k := by
    rcases Relation.ReflTransGen.cases_head path with same | ⟨b, link, -⟩
    · exact same
    · rw [top] at link
      cases link
  obtain ⟨q, above, -, -, -, supers⟩ := well.rooted.metaclass i s system
  rw [← here, (World.live?_eq_some_iff.1 live).1] at found
  cases found
  rw [← well.rooted.metaclassOnly _ o s live (same ▸ system) root, top] at supers
  cases supers

end metaclasses

/-! ## One deed -/

/-- Instances of what counts as a metaclass are classes, and other objects are none. -/
def SortedBy (metas : Handle → Prop) (w : World) : Prop :=
  ∀ h o, w.live? h = some o → (o.isClass = true ↔ Counts metas w.systems o.cls)

namespace Object

theorem kind_core (o : Object) : o.kind = o.core.kind := by
  simp [kind, core, isClass]

theorem kind_apart (o : Object) : o.kind = o.apart.kind := by
  simp [kind, apart, isClass]

theorem kind_mapMethods (reach : Reach) (f : NameTable Method → NameTable Method) (o : Object) :
    (o.mapMethods reach f).kind = o.kind := by
  cases reach <;> simp [kind, mapMethods, mapClass, isClass]

end Object

namespace SortedBy

variable {metas : Handle → Prop} {loose : Handle → Prop} {v w : World} (sorted : SortedBy metas v)

include sorted

theorem of_kind (alike : Heap.Alike Object.kind v.objects w.objects) (systems : w.systems = v.systems) :
    SortedBy metas w := by
  intro h p live
  obtain ⟨o, before, same⟩ := alike.symm.exists_of_live? (v := w) (w := v) (fun _ _ same => congrArg Prod.fst same) live
  have cls : o.cls = p.cls := congrArg (·.2.1) same
  have isClass : o.isClass = p.isClass := congrArg (·.2.2) same
  rw [systems, ← cls, ← isClass]
  exact sorted h o before

theorem relinks (relinks : Relinks v w) : SortedBy metas w :=
  sorted.of_kind (relinks.objects.comp _ Object.kind_apart) relinks.systems

/-- Where newcomers are sorted, too. -/
theorem turnover {new : Object → Prop} (turnover : Turnover Object.apart new Nobody v w)
    (counts : ∀ h o, v.live? h = some o → (Counts metas w.systems o.cls ↔ Counts metas v.systems o.cls))
    (fits : ∀ p, new p → (p.isClass = true ↔ Counts metas w.systems p.cls)) : SortedBy metas w := by
  intro h p live
  rcases turnover.came h p live with ⟨-, new⟩ | ⟨o, before, same⟩
  · have isClass : p.apart.isClass = p.isClass := by simp [Object.apart, Object.isClass]
    rw [← isClass]
    exact fits _ new
  · have cls : p.cls = o.cls := (congrArg Object.cls same :)
    have isClass : p.isClass = o.isClass := by
      have kind : p.kind = o.kind := by rw [p.kind_apart, same, ← o.kind_apart]
      exact congrArg (·.2.2) kind
    rw [cls, isClass, counts h o before]
    exact sorted h o before

theorem changeClass (well : WellFormed loose v) (are : v.objects.MetaclassesAre metas) (h cls : Handle) :
    SortedBy metas ((Lifecycle.changeClass h cls).exec v).2 := by
  rcases cls_of_changeClass h cls v with ⟨r, kept⟩ | ⟨o, w, live, isClass, suits, done, systems, stays⟩
  · rw [kept]
    exact sorted
  rw [done]
  intro k p found
  obtain ⟨x, before, same, cls'⟩ := stays k p found
  have sort : p.isClass = x.isClass := congrArg Identity.isClass same
  rw [sort, cls', systems]
  by_cases here : k = h
  · subst here
    rw [live] at before
    cases before
    rw [if_pos rfl, well.counts_iff are isClass, suits]
  · rw [if_neg here]
    exact sorted k x before

private theorem of_mapMethods {s : Handle → Prop} {reach : Reach} {on : Handle}
    {f : NameTable Method → NameTable Method}
    (forgets : Forgets s (v.objects.modify on (Object.mapMethods reach f)) w.objects) (systems : w.systems = v.systems) :
    SortedBy metas w :=
  sorted.of_kind ((Heap.Alike.modify _ _ (Object.kind_mapMethods reach f)).trans (forgets.alike fun _ => rfl)) systems

theorem defineMethod (reach : Reach) (on : Handle) (method : Method) :
    SortedBy metas ((Definition.defineMethod reach on method).exec v).2 := by
  rcases Definition.exec_defineMethod reach on method v with ⟨e, failed⟩ | ⟨o, table, b, -, -, done, forgets⟩
  · rw [failed]
    exact sorted
  · rw [done]
    exact sorted.of_mapMethods forgets rfl

theorem removeMethod (reach : Reach) (on : Handle) (name : String) :
    SortedBy metas ((Definition.removeMethod reach on name).exec v).2 := by
  rcases Definition.exec_removeMethod reach on name v with ⟨e, failed⟩ | ⟨o, table, b, -, -, -, done, forgets⟩
  · rw [failed]
    exact sorted
  · rw [done]
    exact sorted.of_mapMethods forgets rfl

/-- A new system brings its root metaclass, of which no object has been an instance before. -/
theorem createSystem (well : WellFormed loose v) (remain : v.objects.HandlesRemain) (root metaclass : String)
    (methods : SystemMethods) : SortedBy metas ((Lifecycle.createSystem root metaclass methods).exec v).2 := by
  obtain ⟨same | ⟨h, k, vacant, systems, turnover⟩, -⟩ :=
    Turnover.createSystem well.sound remain root metaclass methods
  · rw [same]
    exact sorted
  refine sorted.turnover turnover (fun x o live => ?_) ?_
  · have other : k ≠ o.cls := by
      rintro rfl
      obtain ⟨p, part, above, -⟩ := World.isClass_iff.1 (well.classed.cls x o live)
      rw [(World.live?_eq_some_iff.1 above).1] at vacant
      cases vacant
    simp [Counts, systems, or_and_right, exists_or, other]
  · rintro p ⟨cls, -, -, part, isPart, -⟩
    have isClass : p.isClass = true := by rw [Object.isClass, isPart]; rfl
    exact ⟨fun _ => .inr ⟨⟨h, k, methods⟩, by simp [systems], cls.symm⟩, fun _ => isClass⟩

theorem enroll (well : WellFormed loose v) (room : v.objects.HasRoom) (are : v.objects.MetaclassesAre metas)
    {c : Object} {cls : Handle} (name : String) (live : v.live? cls = some c) (isClass : c.isClass = true)
    (free : v.names.get? name = none) (plain : v.isMetaclass cls = false) :
    SortedBy metas ((Lifecycle.enroll (.ofClass name cls c.system)).exec v).2 := by
  obtain ⟨turnover, systems, -⟩ := Turnover.enroll well room name live isClass free
  refine sorted.turnover turnover (fun _ _ _ => by rw [systems]) ?_
  rintro p rfl
  have listed : v.isClass cls = true := by rwa [World.isClass, live]
  rw [systems]
  change false = true ↔ Counts metas v.systems cls
  rw [well.counts_iff are listed, plain]

theorem enrollClass (well : WellFormed loose v) (room : v.objects.HasRoom) (are : v.objects.MetaclassesAre metas)
    (name : String) (metaclass : Handle) (supers : List Handle) :
    SortedBy metas ((Lifecycle.enrollClass name metaclass supers).exec v).2 := by
  obtain ⟨turnover, systems, -⟩ := Turnover.enrollClass well room name metaclass supers
  refine sorted.turnover turnover (fun _ _ _ => by rw [systems]) ?_
  rintro p ⟨isMetaclass, m, -, rfl⟩
  rw [systems]
  change true = true ↔ Counts metas v.systems metaclass
  rw [well.counts_iff are (WellFormed.isClass_of_isMetaclass isMetaclass), isMetaclass]

omit sorted in
/-- The instances of a class that goes count under its successor as they did under it, where care is taken. -/
theorem counts_successor {good : Objects → Prop} (are : ∀ a, good a → a.MetaclassesAre metas) (well : WellFormed loose v)
    {h k : Handle} {x : Object} {s : ObjectSystem} (leaves : MayLeave good v.objects h) (system : s ∈ v.systems)
    (member : v.live? k = some x) (cls : x.cls = h) :
    Counts metas v.systems (if v.isMetaclass h then s.rootMetaclass else s.rootClass) ↔ Counts metas v.systems h := by
  have listed : v.isClass h = true := cls ▸ well.classed.cls k x member
  cases leaves with
  | blank found blank =>
    obtain ⟨p, part, there, isPart, entered⟩ := World.mem_instancesOf.1 ((well.classed.instances h k).2 ⟨x, member, cls⟩)
    rw [(World.live?_eq_some_iff.1 there).1] at found
    cases found
    rw [(blank.classPart part isPart).2.1] at entered
    exact absurd entered List.not_mem_nil
  | settled here alike =>
    have now := (are _ here).of_alike alike
    rw [well.counts_iff now listed]
    cases isMetaclass : v.isMetaclass h with
    | false =>
      obtain ⟨i, here⟩ := List.getElem?_of_mem system
      obtain ⟨p, above, isClass, -⟩ := well.rooted.root i s here
      have rootClass : v.isClass s.rootClass = true := by rwa [World.isClass, above]
      rw [if_neg Bool.false_ne_true, well.counts_iff now rootClass, well.isMetaclass_rootClass system]
    | true =>
      rw [if_pos rfl]
      exact iff_of_true (.inr ⟨s, system, rfl⟩) rfl

theorem unlink {good : Objects → Prop} (are : ∀ a, good a → a.MetaclassesAre metas) (well : WellFormed loose v)
    {h : Handle} {o : Object} (live : v.live? h = some o) (root : o.isRoot = false)
    (leaves : MayLeave good v.objects h) : SortedBy metas ((Lifecycle.unlink h).exec v).2 := by
  obtain ⟨s, system⟩ := well.rooted.system h o live
  obtain ⟨-, systems, -⟩ := Turnover.unlink well live root
  intro k p after
  obtain ⟨-, x, before, same, cls⟩ := well.cls_of_unlink live root system after
  have isClass : p.isClass = x.isClass := congrArg Identity.isClass same
  rw [isClass, cls, systems]
  split
  · next belongs =>
    rw [counts_successor are well leaves (List.mem_of_getElem? system) before belongs, ← belongs]
    exact sorted k x before
  · exact sorted k x before

/-- Where all that is asked of heaps includes that handles remain and which classes are metaclasses, every deed keeps
objects and classes sorted. -/
theorem deed {good : Objects → Prop} (remain : ∀ a, good a → a.HandlesRemain)
    (are : ∀ a, good a → a.MetaclassesAre metas) (well : WellFormed loose v) (deed : Deed Sober ⟨good, True⟩ v w) :
    SortedBy metas w := by
  cases deed with
  | aside sober => exact sorted.of_kind (sober.core.comp _ Object.kind_core) sober.systems
  | precedenceOrder c => exact sorted.relinks (.precedenceOrder well c)
  | mixinOrder h => exact sorted.relinks (.mixinOrder well h)
  | filterOrder h => exact sorted.relinks (.filterOrder well h)
  | setSuperclasses c supers => exact sorted.relinks (.setSuperclasses well c supers)
  | changeClass h cls permits => exact sorted.changeClass well (are _ (permits trivial)) h cls
  | setMixins reach on mixins => exact sorted.relinks (.setMixins reach on mixins v)
  | setMixinGuard reach on cls guard => exact sorted.relinks (.setMixinGuard reach on cls guard v)
  | setFilters reach on filters => exact sorted.relinks (.setFilters reach on filters v)
  | setFilterGuard reach on name guard => exact sorted.relinks (.setFilterGuard reach on name guard v)
  | defineMethod reach on method => exact sorted.defineMethod reach on method
  | removeMethod reach on name => exact sorted.removeMethod reach on name
  | createSystem root metaclass methods permits =>
    exact sorted.createSystem well (remain _ permits) root metaclass methods
  | enroll name cls permits live isClass free plain =>
    exact sorted.enroll well (remain _ permits).hasRoom (are _ permits) name live isClass free (plain trivial)
  | enrollClass name metaclass supers permits =>
    exact sorted.enrollClass well (remain _ permits).hasRoom (are _ permits) name metaclass supers
  | unlink h live root permits => exact sorted.unlink are well live root (permits trivial)
  | release dead =>
    intro h o live
    rw [live?_release dead] at live
    exact sorted h o live

theorem develops {good : Objects → Prop} (remain : ∀ a, good a → a.HandlesRemain)
    (are : ∀ a, good a → a.MetaclassesAre metas) (well : WellFormed loose v) (path : Develops ⟨good, True⟩ v w) :
    SortedBy metas w := by
  induction path with
  | refl => exact sorted
  | tail path last ih => exact ih.deed remain are (well.evolves remain (Develops.evolves path)) last

end SortedBy

/-! ## Reachable worlds -/

/-- As long as no class becomes a metaclass or ceases to be one, objects stay objects and classes stay classes, whatever
is created, destroyed and moved to another class. -/
theorem Reachable.sorted_of_metaclassesAre {metas : Handle → Prop} {w : World}
    (reached : Reachable (fun a => a.HandlesRemain ∧ a.MetaclassesAre metas) w) (are : w.objects.MetaclassesAre metas) :
    w.Sorted := by
  have remain : ∀ a : Objects, a.HandlesRemain ∧ a.MetaclassesAre metas → a.HandlesRemain := fun _ good => good.1
  obtain ⟨settings, path⟩ := reached.develops remain
  have start : SortedBy metas { settings } := fun h o live => by cases live
  have sorted := start.develops remain (fun _ good => good.2) (proper_start settings) path
  have proper := reached.proper remain
  intro h o live
  rw [sorted h o live, proper.counts_iff are (proper.classed.cls h o live)]

/-- A session in which a metaclass and its instance are created, objects change their classes, and the class of one is
destroyed. -/
def movingSession : List Expr :=
  [foundation, Trial.createSubclass "M" ["Class"], .createClass (Trial.text "X") (.name "M") [] none,
    Trial.createClass "A", Trial.createClass "B", Trial.createObject "o" "A", Trial.createObject "p" "X",
    .ofPair .changeClass (.name "o") (.name "B"), .ofPair .changeClass (.name "A") (.name "M"),
    .change (.setSuperclasses (.name "X") [.name "A"]), .ofObject .destroy (.name "B"),
    .ofObject .destroy (.name "X")]

/-- The root metaclass of the session, and the one that is created. -/
def IsMovingMetaclass (h : Handle) : Prop :=
  h = ⟨1, 0⟩ ∨ h = ⟨2, 0⟩

instance : DecidablePred IsMovingMetaclass := fun _ =>
  inferInstanceAs (Decidable (_ ∨ _))

def movedWorld : World :=
  (sessionWithin (fun a => a.HandlesRemain ∧ a.MetaclassesAre IsMovingMetaclass) 3 movingSession).get
    (by decide +kernel)

theorem sorted_moved : movedWorld.Sorted ∧
    (movedWorld.live? ⟨4, 0⟩).map (fun o => (o.cls, o.isClass)) = some (⟨2, 0⟩, true) ∧
    (movedWorld.live? ⟨6, 0⟩).map (fun o => (o.cls, o.isClass)) = some (⟨0, 0⟩, false) :=
  ⟨Reachable.sorted_of_metaclassesAre (.sessionWithin (Option.some_get _).symm) (by decide +kernel), by decide +kernel,
    by decide +kernel⟩

/-- A session in which a metaclass with an instance is put under the root class, and a class with an instance under the
root metaclass. -/
def reparentingSession : List Expr :=
  [foundation, Trial.createSubclass "M" ["Class"], .createClass (Trial.text "X") (.name "M") [] none,
    Trial.createClass "A", Trial.createObject "o" "A", .change (.setSuperclasses (.name "M") [.name "Object"]),
    .change (.setSuperclasses (.name "A") [.name "Class"])]

def reparentedWorld : World :=
  (sessionWithin Heap.HandlesRemain 3 reparentingSession).get (by decide +kernel)

/-- Nobody looks at the instances: a class is left in a class that is no metaclass, and an object in one that is. -/
theorem not_sorted_reparented : Reachable Heap.HandlesRemain reparentedWorld ∧ ¬reparentedWorld.Sorted ∧
    (reparentedWorld.live? ⟨3, 0⟩).map (fun o => (o.isClass, reparentedWorld.isMetaclass o.cls)) =
      some (true, false) ∧
    (reparentedWorld.live? ⟨5, 0⟩).map (fun o => (o.isClass, reparentedWorld.isMetaclass o.cls)) =
      some (false, true) := by
  have stray : (reparentedWorld.live? ⟨3, 0⟩).map (fun o => (o.isClass, reparentedWorld.isMetaclass o.cls)) =
      some (true, false) := by
    decide +kernel
  refine ⟨.sessionWithin (Option.some_get _).symm, fun sorted => ?_, stray, by decide +kernel⟩
  obtain ⟨o, live, looks⟩ := Option.map_eq_some_iff.1 stray
  obtain ⟨isClass, isMetaclass⟩ := Prod.mk.inj looks
  rw [(sorted ⟨3, 0⟩ o live).1 isClass] at isMetaclass
  cases isMetaclass

end DynamicObjects
