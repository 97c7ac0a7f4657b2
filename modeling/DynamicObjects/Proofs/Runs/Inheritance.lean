import DynamicObjects.Inspection
import DynamicObjects.Proofs.Runs.Links

/-!
# What inherits from what

Inheritance can be told from a search upwards, from the precedence order, which may have been kept, and from a search
downwards along the links at their other ends. In reachable worlds all three find the paths of superclass links, so what
is made of them agrees as well: the listing of instances and the tests for instances and for metaclasses.
-/
namespace DynamicObjects

/-! ## The two searches -/

namespace Hierarchy

variable {objects : Objects} {c d : Handle}

theorem subsOf_ne_nil (some : objects.subsOf c ≠ []) : objects.contains c := by
  obtain ⟨sub, link⟩ := List.exists_mem_of_ne_nil _ some
  obtain ⟨part, found⟩ := Option.isSome_iff_exists.1 (Heap.isSome_class?_of_mem_subsOf link)
  obtain ⟨o, here, -⟩ := Option.bind_eq_some_iff.1 found
  exact Option.isSome_iff_exists.2 ⟨o, here⟩

theorem inheritsFrom_iff : inheritsFrom objects c d = true ↔ Reaches objects.supersOf c d := by
  rw [inheritsFrom, List.contains_iff_mem, mem_finished_walk fun _ => supersOf_ne_nil]

/-- What leads up to a class is found on the way down from it. -/
theorem Mirrored.mem_transitiveSubclasses (mirrored : Mirrored objects) :
    c ∈ transitiveSubclasses objects d ↔ Reaches objects.supersOf c d := by
  have turned : (fun a b => b ∈ objects.subsOf a) = Function.swap fun a b => b ∈ objects.supersOf a := by
    funext a b
    exact propext (mirrored.subs b a)
  rw [transitiveSubclasses, mem_finished_walk fun _ => subsOf_ne_nil, Reaches, turned, Relation.reflTransGen_swap]

end Hierarchy

/-! ## Instances -/

/-- The instances entered at some classes. -/
def Heap.instancesAt (objects : Objects) (classes : List Handle) : HandleSet :=
  classes.foldl (fun found c =>
    match objects.class? c with
    | some part => found.insertAll part.instances.toList
    | none => found) .empty

theorem Heap.mem_instancesAt {objects : Objects} {classes : List Handle} {h : Handle} :
    h ∈ objects.instancesAt classes ↔ ∃ c ∈ classes, ∃ part, objects.class? c = some part ∧ h ∈ part.instances := by
  have empty : h ∉ HandleSet.empty := List.not_mem_nil
  refine (HandleSet.mem_foldl (fun found c => ?_) .empty).trans (or_iff_right empty)
  cases objects.class? c with
  | none => simp
  | some part =>
    have listed : h ∈ part.instances.toList ↔ h ∈ part.instances := Iff.rfl
    simp [HandleSet.mem_insertAll, listed]

section wellFormed

variable {loose : Handle → Prop} {w : World} {c d h : Handle}

theorem World.mem_instancesAt {classes : List Handle} (live : ∀ c ∈ classes, w.isObject c = true) :
    h ∈ w.objects.instancesAt classes ↔ ∃ c ∈ classes, h ∈ w.instancesOf c := by
  rw [Heap.mem_instancesAt]
  refine exists_congr fun c => and_congr_right fun member => ?_
  obtain ⟨o, here⟩ := Option.isSome_iff_exists.1 (live c member)
  simp [World.mem_instancesOf, Heap.class?, here, (World.live?_eq_some_iff.1 here).1]

/-- The instances listed for a class and its subclasses are those that a test for instances accepts. -/
theorem WellFormed.exec_instances (well : WellFormed loose w) (cls : w.isClass d = true) :
    ∃ found, (Inspection.instances d none true).exec w = (.ok found, w) ∧
      ∀ h, h ∈ found ↔ w.isInstanceOf h d = true := by
  obtain ⟨o, part, live, isPart⟩ := World.isClass_iff.1 cls
  have below : ∀ c, c ∈ Hierarchy.transitiveSubclasses w.objects d ↔ Hierarchy.Reaches w.objects.supersOf c d :=
    fun c => well.linked.mirrored.mem_transitiveSubclasses
  refine ⟨(w.objects.instancesAt (Hierarchy.transitiveSubclasses w.objects d)).toList, ?_, fun h => ?_⟩
  · unfold Inspection.instances Inspection.readPattern
    rw [Update.exec_bind_of_ok (Update.exec_pure none w),
      Update.exec_bind_of_ok (Update.exec_classPart_of_live live isPart), Update.exec_bind_of_ok (Update.exec_get w)]
    have all : ∀ found : List Handle,
        found.filter (fun h => Inspection.isListed none [w.nameOf h]) = found := fun found => List.filter_true found
    exact congrArg (fun found => (Except.ok found, w)) (all _)
  · have alive : ∀ c ∈ Hierarchy.transitiveSubclasses w.objects d, w.isObject c = true := by
      intro c member
      rcases Relation.ReflTransGen.cases_head ((below c).1 member) with rfl | ⟨s, link, -⟩
      · rw [World.isObject, live]
        rfl
      · obtain ⟨p, -, here, -⟩ := well.linked.live c s link
        rw [World.isObject, here]
        rfl
    calc h ∈ w.objects.instancesAt (Hierarchy.transitiveSubclasses w.objects d)
        ↔ ∃ c, Hierarchy.Reaches w.objects.supersOf c d ∧ ∃ o, w.live? h = some o ∧ o.cls = c := by
          simp only [World.mem_instancesAt alive, below, well.classed.instances]
      _ ↔ w.isInstanceOf h d = true := by
          simp only [World.isInstanceOf, Option.any_eq_true, Hierarchy.inheritsFrom_iff]
          constructor
          · rintro ⟨_, path, o, here, rfl⟩
            exact ⟨o, here, path⟩
          · rintro ⟨o, here, path⟩
            exact ⟨o.cls, path, o, here, rfl⟩

end wellFormed

/-! ## All views -/

/-- In reachable worlds a class is found above another by the search upwards exactly if it is in the precedence order
of that class, and exactly if that class is found below it. So the instances that are listed for a class and its
subclasses are those of which a test says so, and metaclasses are the classes with a root metaclass in their order. -/
theorem Reachable.views_agree {w : World} (reached : Reachable Heap.HandlesRemain w) {c d : Handle} {o : Object}
    (live : w.live? c = some o) (cls : o.isClass = true) (cls' : w.isClass d = true) : ∃ order v found s,
    (Update.precedenceOrder c).exec w = (.ok order, v) ∧
    (Hierarchy.inheritsFrom w.objects c d = true ↔ d ∈ order) ∧
    (d ∈ order ↔ c ∈ Hierarchy.transitiveSubclasses w.objects d) ∧
    (Inspection.instances d none true).exec w = (.ok found, w) ∧
    (∀ h, h ∈ found ↔ w.isInstanceOf h d = true) ∧
    w.systems[o.system]? = some s ∧
    (Update.isMetaclass c).exec w = (.ok (decide (s.rootMetaclass ∈ order)), w) := by
  have proper := reached.proper fun _ remain => remain
  obtain ⟨order, v, s, done, is, system, -⟩ := reached.exec_precedenceOrder live cls
  obtain ⟨found, listed, instances⟩ := proper.exec_instances cls'
  have below : c ∈ Hierarchy.transitiveSubclasses w.objects d ↔ Hierarchy.Reaches w.objects.supersOf c d :=
    proper.linked.mirrored.mem_transitiveSubclasses
  refine ⟨order, v, found, s, done, ?_, ?_, listed, instances, system, ?_⟩
  · rw [Hierarchy.inheritsFrom_iff, is.mem_iff]
  · rw [is.mem_iff, below]
  · have isMetaclass : w.isMetaclass c = decide (s.rootMetaclass ∈ order) := by
      rw [Bool.eq_iff_iff, decide_eq_true_iff, is.mem_iff, ← Hierarchy.inheritsFrom_iff]
      simp [World.isMetaclass, World.isClass, live, system, cls]
    rw [Update.exec_isMetaclass, isMetaclass]

/-- A class with two superclasses that has lost one of them, an object moved to it, and a class of classes. -/
def rearrangedSession : List Expr :=
  [foundation, Trial.createClass "A", Trial.createClass "B", Trial.createSubclass "C" ["A", "B"],
    Trial.createSubclass "M" ["Class"], Trial.createObject "o" "B", .ofPair .changeClass (.name "o") (.name "C"),
    .ofObject .destroy (.name "A")]

def rearrangedWorld : World :=
  (sessionWithin Heap.HandlesRemain 3 rearrangedSession).get (by decide +kernel)

theorem views_agree_rearranged : ∃ order v found,
    (Update.precedenceOrder ⟨4, 0⟩).exec rearrangedWorld = (.ok order, v) ∧ ⟨3, 0⟩ ∈ order ∧
    (⟨4, 0⟩ : Handle) ∈ Hierarchy.transitiveSubclasses rearrangedWorld.objects ⟨3, 0⟩ ∧
    (Inspection.instances ⟨3, 0⟩ none true).exec rearrangedWorld = (.ok found, rearrangedWorld) ∧ ⟨6, 0⟩ ∈ found := by
  have looks : (rearrangedWorld.live? ⟨4, 0⟩).map (·.isClass) = some true := by decide +kernel
  obtain ⟨o, live, cls⟩ := Option.map_eq_some_iff.1 looks
  obtain ⟨order, v, found, s, done, above, below, listed, instances, -⟩ :=
    Reachable.views_agree (.sessionWithin (Option.some_get _).symm) (d := ⟨3, 0⟩) live cls (by decide +kernel)
  have inherits : ⟨3, 0⟩ ∈ order := above.1 (by decide +kernel)
  exact ⟨order, v, found, done, inherits, below.1 inherits, listed, (instances _).2 (by decide +kernel)⟩

end DynamicObjects
