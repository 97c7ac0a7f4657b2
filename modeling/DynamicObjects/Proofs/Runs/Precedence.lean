import DynamicObjects.Proofs.Hierarchy.Agreement
import DynamicObjects.Proofs.Runs.Links
import DynamicObjects.Proofs.Runs.Trials

/-!
# Precedence orders and declarations

The order of a class holds its superclasses as they are declared, and the orders of its superclasses, where the
superclasses share their ancestors without gaps. Where they do not, either can fail.
-/
namespace DynamicObjects

open Hierarchy (Reaches Grounded DependenceKept SharedThroughout InheritedThroughout SharedFromFront Agrees OrdersKept)

/-! ## Deciding about declarations -/

section decidable

variable (objects : Objects)

instance (a b : Handle) : Decidable (Reaches objects.supersOf a b) :=
  decidable_of_iff _ (Hierarchy.mem_finished_walk (fun _ => Hierarchy.supersOf_ne_nil) a b)

instance (c : Handle) : Decidable (DependenceKept objects.supersOf c) :=
  inferInstanceAs (Decidable ((objects.supersOf c).Pairwise fun a b => ¬Reaches objects.supersOf b a))

instance (c : Handle) : Decidable (SharedThroughout objects.supersOf c) :=
  decidable_of_iff (∀ a ∈ objects.supersOf c, ∀ m ∈ objects.supersOf c, ∀ b ∈ objects.supersOf c,
      [a, m, b].Sublist (objects.supersOf c) →
      ∀ k ∈ (Hierarchy.walk objects objects.supersOf a).finished,
        Reaches objects.supersOf b k → Reaches objects.supersOf m k) <| by
    constructor
    · intro each a m b k listed first last
      have member := fun x inside => listed.subset (a := x) inside
      refine each a (member a (by simp)) m (member m (by simp)) b (member b (by simp)) listed k ?_ last
      exact (Hierarchy.mem_finished_walk (fun _ => Hierarchy.supersOf_ne_nil) a k).2 first
    · intro shared a _ m _ b _ listed k inside last
      exact shared a m b k listed
        ((Hierarchy.mem_finished_walk (fun _ => Hierarchy.supersOf_ne_nil) a k).1 inside) last

instance (c : Handle) : Decidable (InheritedThroughout objects.supersOf c) :=
  decidable_of_iff (∀ a ∈ objects.supersOf c, ∀ m ∈ objects.supersOf c, ∀ b ∈ objects.supersOf c,
      [a, m, b].Sublist (objects.supersOf c) → Reaches objects.supersOf a b → Reaches objects.supersOf m b) <| by
    refine ⟨fun each a m b listed => ?_, fun through a _ m _ b _ => through a m b⟩
    have member := fun x inside => listed.subset (a := x) inside
    exact each a (member a (by simp)) m (member m (by simp)) b (member b (by simp)) listed

variable (order : Handle → List Handle)

instance (c : Handle) : Decidable (SharedFromFront objects.supersOf order c) :=
  decidable_of_iff (∀ s ∈ objects.supersOf c, ∀ t ∈ objects.supersOf c, [s, t].Sublist (objects.supersOf c) →
      ∀ x ∈ order s, ∀ m ∈ order t, [m, x].Sublist (order t) → m ∈ order s ∨ Reaches objects.supersOf m x) <| by
    constructor
    · intro each s t m x listed inside before
      have member := fun y inside => listed.subset (a := y) inside
      exact each s (member s (by simp)) t (member t (by simp)) listed x inside m (before.subset (by simp)) before
    · exact fun front s _ t _ listed x inside m _ => front s t m x listed inside

instance (c : Handle) (total : List Handle) : Decidable (Agrees objects.supersOf order c total) :=
  decidable_of_iff (total.Nodup ∧ (objects.supersOf c).Sublist total ∧
      ∀ s ∈ objects.supersOf c, (order s).Sublist total)
    ⟨fun ⟨nodup, declared, orders⟩ => ⟨nodup, declared, orders⟩, fun agrees =>
      ⟨agrees.nodup, agrees.declared, agrees.orders⟩⟩

end decidable

/-! ## Superclasses in declared order -/

/-- Three superclasses with one class above each of them. -/
def fanSession : List Expr :=
  [foundation, Trial.createClass "A", Trial.createSubclass "S" ["A"], Trial.createSubclass "T" ["A"],
    Trial.createSubclass "U" ["A"], Trial.createSubclass "C" ["S", "T", "U"]]

def fanWorld : World :=
  (sessionWithin Heap.HandlesRemain 3 fanSession).get (by decide +kernel)

/-- The same, except that the class in the middle has no superclass of its own. -/
def gapSession : List Expr :=
  [foundation, Trial.createClass "A", Trial.createSubclass "S" ["A"], Trial.createClass "T",
    Trial.createSubclass "U" ["A"], Trial.createSubclass "C" ["S", "T", "U"]]

def gapWorld : World :=
  (sessionWithin Heap.HandlesRemain 3 gapSession).get (by decide +kernel)

/-- In a reachable world a class has an order, and its superclasses stand there as they are declared, provided that none
is declared before one that inherits from it and that what some of them share is shared throughout. -/
theorem Reachable.declared_sublist_precedenceOrder {w : World} (reached : Reachable Heap.HandlesRemain w) {c : Handle}
    (cls : w.isClass c = true) (dependence : DependenceKept w.objects.supersOf c)
    (shared : SharedThroughout w.objects.supersOf c) : ∃ order v,
      (Update.precedenceOrder c).exec w = (.ok order, v) ∧ (w.objects.supersOf c).Sublist order := by
  have proper := reached.proper fun _ remain => remain
  obtain ⟨order, b, done, lin, -⟩ := proper.exec_precedenceOrder cls
  exact ⟨order, _, done, lin.declared_sublist dependence shared⟩

theorem declared_sublist_precedenceOrder_fan : fanWorld.objects.supersOf ⟨6, 0⟩ = [⟨3, 0⟩, ⟨4, 0⟩, ⟨5, 0⟩] ∧
    ∃ order v, (Update.precedenceOrder ⟨6, 0⟩).exec fanWorld = (.ok order, v) ∧
      (fanWorld.objects.supersOf ⟨6, 0⟩).Sublist order := by
  refine ⟨by decide +kernel, Reachable.declared_sublist_precedenceOrder (.sessionWithin (Option.some_get _).symm)
    (by decide +kernel) (by decide +kernel) (by decide +kernel)⟩

/-- A gap in the middle lets the last superclass in front: it has to precede the class that it shares with the first,
and the one in the middle, which stands behind that class, is not looked at. -/
theorem not_declared_sublist_precedenceOrder : Reachable Heap.HandlesRemain gapWorld ∧
    DependenceKept gapWorld.objects.supersOf ⟨6, 0⟩ ∧
    gapWorld.objects.supersOf ⟨6, 0⟩ = [⟨3, 0⟩, ⟨4, 0⟩, ⟨5, 0⟩] ∧
    ((Update.precedenceOrder ⟨6, 0⟩).exec gapWorld).1.toOption =
      some [⟨6, 0⟩, ⟨3, 0⟩, ⟨5, 0⟩, ⟨2, 0⟩, ⟨4, 0⟩, ⟨0, 0⟩] ∧
    ¬[⟨3, 0⟩, ⟨4, 0⟩, ⟨5, 0⟩].Sublist [(⟨6, 0⟩ : Handle), ⟨3, 0⟩, ⟨5, 0⟩, ⟨2, 0⟩, ⟨4, 0⟩, ⟨0, 0⟩] := by
  refine ⟨.sessionWithin (Option.some_get _).symm, ?_, ?_, ?_, ?_⟩ <;> decide +kernel

/-! ## The orders of the superclasses -/

/-- Two superclasses with the same superclasses. -/
def ladderSession : List Expr :=
  [foundation, Trial.createClass "X", Trial.createClass "Y", Trial.createSubclass "S" ["X", "Y"],
    Trial.createSubclass "T" ["X", "Y"], Trial.createSubclass "C" ["S", "T"]]

def ladderWorld : World :=
  (sessionWithin Heap.HandlesRemain 3 ladderSession).get (by decide +kernel)

/-- Two superclasses that share one superclass, the first of the one and the last of the other. -/
def overlapSession : List Expr :=
  [foundation, Trial.createClass "X", Trial.createClass "Y", Trial.createClass "Z",
    Trial.createSubclass "S" ["X", "Y"], Trial.createSubclass "T" ["Z", "X"], Trial.createSubclass "C" ["S", "T"]]

def overlapWorld : World :=
  (sessionWithin Heap.HandlesRemain 3 overlapSession).get (by decide +kernel)

/-- Where no cycle is reached from a class, the class and all classes above it have orders. Where those of the
superclasses agree with each other and with the declared list, and what is shared is shared from the front, each of them
is kept in the order of the class. -/
theorem precedenceOrder_monotone {objects : Objects} (kept : OrdersKept objects) {c : Handle}
    (ground : Grounded objects.supersOf c)
    (classes : ∀ k, Reaches objects.supersOf c k → (objects.class? k).isSome) :
    (∀ k, Reaches objects.supersOf c k → ∃ after,
      Hierarchy.precedenceOrder objects k = .ok (Hierarchy.givenOrder objects k, after)) ∧
    ∀ total, Agrees objects.supersOf (Hierarchy.givenOrder objects) c total →
      InheritedThroughout objects.supersOf c → SharedFromFront objects.supersOf (Hierarchy.givenOrder objects) c →
      ∀ s ∈ objects.supersOf c, (Hierarchy.givenOrder objects s).Sublist (Hierarchy.givenOrder objects c) := by
  have given : ∀ k, Reaches objects.supersOf c k →
      (∃ after, Hierarchy.precedenceOrder objects k = .ok (Hierarchy.givenOrder objects k, after)) ∧
      Hierarchy.Linearizes objects.supersOf k (Hierarchy.givenOrder objects k) := by
    intro k path
    obtain ⟨order, after, done, computed⟩ :=
      Hierarchy.computed_precedenceOrder kept (classes k path) (ground.of_reaches path)
    have same : Hierarchy.givenOrder objects k = order := by
      unfold Hierarchy.givenOrder
      rw [done]
    rw [same]
    exact ⟨⟨after, done⟩, computed.linearizes⟩
  refine ⟨fun k path => (given k path).1, fun total agrees through front s link => ?_⟩
  exact Hierarchy.sublist_of_agrees (fun a path => (given a path.to_reflTransGen).2) agrees through front
    (given c .refl).2 link

theorem precedenceOrder_monotone_ladder :
    ladderWorld.objects.supersOf ⟨6, 0⟩ = [⟨4, 0⟩, ⟨5, 0⟩] ∧ ∀ s ∈ ladderWorld.objects.supersOf ⟨6, 0⟩,
      (Hierarchy.givenOrder ladderWorld.objects s).Sublist (Hierarchy.givenOrder ladderWorld.objects ⟨6, 0⟩) := by
  have reached : Reachable Heap.HandlesRemain ladderWorld := .sessionWithin (Option.some_get _).symm
  have proper := reached.proper fun _ remain => remain
  have cls : ladderWorld.isClass ⟨6, 0⟩ = true := by decide +kernel
  have monotone := precedenceOrder_monotone proper.kept (proper.linked.grounded ⟨6, 0⟩)
    fun k path => World.isSome_class? (proper.isClass_of_reaches cls path)
  refine ⟨by decide +kernel, monotone.2 [⟨4, 0⟩, ⟨5, 0⟩, ⟨2, 0⟩, ⟨3, 0⟩, ⟨0, 0⟩] ?_ ?_ ?_⟩ <;> decide +kernel

/-- An overlap in the middle reverses two classes: the shared class is placed again behind a class that it preceded. The
orders of the superclasses do agree with each other. -/
theorem not_precedenceOrder_monotone : Reachable Heap.HandlesRemain overlapWorld ∧
    Agrees overlapWorld.objects.supersOf (Hierarchy.givenOrder overlapWorld.objects) ⟨7, 0⟩
      [⟨5, 0⟩, ⟨6, 0⟩, ⟨4, 0⟩, ⟨2, 0⟩, ⟨3, 0⟩, ⟨0, 0⟩] ∧
    overlapWorld.objects.supersOf ⟨7, 0⟩ = [⟨5, 0⟩, ⟨6, 0⟩] ∧
    Hierarchy.givenOrder overlapWorld.objects ⟨5, 0⟩ = [⟨5, 0⟩, ⟨2, 0⟩, ⟨3, 0⟩, ⟨0, 0⟩] ∧
    Hierarchy.givenOrder overlapWorld.objects ⟨7, 0⟩ =
      [⟨7, 0⟩, ⟨5, 0⟩, ⟨6, 0⟩, ⟨3, 0⟩, ⟨4, 0⟩, ⟨2, 0⟩, ⟨0, 0⟩] ∧
    ¬[⟨5, 0⟩, ⟨2, 0⟩, ⟨3, 0⟩, ⟨0, 0⟩].Sublist
      [(⟨7, 0⟩ : Handle), ⟨5, 0⟩, ⟨6, 0⟩, ⟨3, 0⟩, ⟨4, 0⟩, ⟨2, 0⟩, ⟨0, 0⟩] := by
  refine ⟨.sessionWithin (Option.some_get _).symm, ?_, ?_, ?_, ?_, ?_⟩ <;> decide +kernel

end DynamicObjects
