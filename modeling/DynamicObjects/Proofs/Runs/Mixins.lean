import DynamicObjects.Proofs.Interception.Gathering
import DynamicObjects.Proofs.Runs.Refusals
import DynamicObjects.Proofs.Runs.Trials

/-!
# Mixin orders of reachable worlds

In every reachable world, asking for the mixin order of a live object ends well, even where class mixins form cycles.
What is given holds what is mixed in and nothing else, subclasses first.
-/
namespace DynamicObjects

variable {w : World} {h : Handle} {o : Object}

/-- A live object of a well-formed world has its class and mixes in classes. -/
theorem WellFormed.comesTo_computeMixinOrder {loose : Handle → Prop} (well : WellFormed loose w)
    (live : w.live? h = some o) : ComesTo w (w.OrdersMixins o.registrations.mixins o.cls)
      (Interception.computeMixinOrder o.registrations.mixins o.cls) :=
  Interception.comesTo_computeMixinOrder well (well.isClass_of_draws (World.draws_cls live))
    fun _ registered => well.isClass_of_draws (World.draws_mixin live registered)

/-- The session of two classes that mix in each other, one of them below a third class. An object mixes in the other
one. -/
def entwiningSession : List Expr :=
  [foundation, Trial.createClass "P", Trial.createSubclass "N" ["P"], Trial.createClass "M", Trial.createClass "C",
    .change (.addMixin .instances (.name "M") ⟨.name "N", some (.constant true)⟩),
    Trial.addMixin .instances "N" "M", Trial.createObject "o" "C",
    .change (.addMixin .object (.name "o") ⟨.name "M", some (.constant false)⟩)]

def entwinedWorld : World :=
  (sessionWithin Heap.HandlesRemain 3 entwiningSession).get (by decide +kernel)

/-- In a reachable world the mixin order of a live object is given, and it is what it should be. -/
theorem Reachable.ordersMixins (reached : Reachable Heap.HandlesRemain w) (live : w.live? h = some o) :
    ∃ order v, (Interception.mixinOrder h).exec w = (.ok order, v) ∧
      w.OrdersMixins o.registrations.mixins o.cls order := by
  have proper := reached.proper fun _ remain => remain
  obtain ⟨order, b, computed, -, orders⟩ := (proper.comesTo_computeMixinOrder live).exec proper.kept
  have given := reached.mixinOrdersCurrent.fst_mixinOrder proper live
  rw [computed] at given
  exact ⟨order, ((Interception.mixinOrder h).exec w).2, Prod.ext given rfl, orders⟩

/-- The class that is met again inside of its own expansion is found there first, without a guard. -/
theorem ordersMixins_entwined : ∃ o order v, entwinedWorld.live? ⟨6, 0⟩ = some o ∧
    (Interception.mixinOrder ⟨6, 0⟩).exec entwinedWorld = (.ok order, v) ∧
    entwinedWorld.OrdersMixins o.registrations.mixins o.cls order ∧
    order.map (fun m => (m.target, m.guard.map (·.source))) =
      [(⟨3, 0⟩, some "true"), (⟨2, 0⟩, some "true"), (⟨4, 0⟩, none)] := by
  have reached : Reachable Heap.HandlesRemain entwinedWorld := .sessionWithin (Option.some_get _).symm
  have there : (entwinedWorld.live? ⟨6, 0⟩).isSome = true := by decide +kernel
  obtain ⟨o, live⟩ := Option.isSome_iff_exists.1 there
  obtain ⟨order, v, given, orders⟩ := Reachable.ordersMixins reached live
  refine ⟨o, order, v, live, given, orders, ?_⟩
  have found : ((Interception.mixinOrder ⟨6, 0⟩).exec entwinedWorld).1.toOption.map
      (·.map fun m => (m.target, m.guard.map (·.source))) =
      some [(⟨3, 0⟩, some "true"), (⟨2, 0⟩, some "true"), (⟨4, 0⟩, none)] := by decide +kernel
  rw [given] at found
  exact Option.some.inj found

end DynamicObjects
