import DynamicObjects.Proofs.Interception.Expansion
import DynamicObjects.Proofs.Runs.Mixins

/-!
# Filter orders of reachable worlds

In every reachable world a filter order can be computed for every live object, and it holds what the filters registered
for the object stand for and nothing else. An implementation can have a guard that no filter which stands for it has:
where no guarded filter leads to it first of all, it has the guard of the first implementation of its name.
-/
namespace DynamicObjects

variable {w : World} {h : Handle} {o : Object}

/-- The mixins from which a filter order is computed, and what comes of them. -/
theorem WellFormed.exists_freshFilterOrder {loose : Handle → Prop} (well : WellFormed loose w)
    (live : w.live? h = some o) : ∃ mixins order,
      ((Interception.computeMixinOrder o.registrations.mixins o.cls).exec w).1 = .ok mixins ∧
      ((Interception.freshFilterOrder h).exec w).1 = .ok order ∧ w.OrdersFilters o (mixins.map (·.target)) order ∧
      w.GuardsFilters o (w.filterSources o (mixins.map (·.target))) order := by
  have isClass : w.isClass o.cls = true := well.isClass_of_draws (World.draws_cls live)
  have targets : ∀ r ∈ o.registrations.mixins, w.isClass r.target = true :=
    fun r registered => well.isClass_of_draws (World.draws_mixin live registered)
  obtain ⟨mixins, b, mixed, filled, orders⟩ := (well.comesTo_computeMixinOrder live).exec well.kept
  have are : ∀ c ∈ mixins.map (·.target), w.isClass c = true :=
    fun c member => Interception.isClass_of_mixesIn well targets ((orders.mem_iff c).1 member).1
  obtain ⟨order, a, done, -, holds⟩ := Interception.comesTo_computeFilterOrder well live isClass are b filled
  refine ⟨mixins, order, congrArg Prod.fst mixed, ?_, holds⟩
  unfold Interception.freshFilterOrder
  rw [Update.exec_bind_of_ok (Update.exec_object_of_live live), Update.exec_bind_of_ok mixed, done]

/-- A session in which a name is registered as a filter on a mixin class, on an object and along its class order. The
mixin class and the class of the object have a superclass in common, and all of them define the name. -/
def filteringAroundSession : List Expr :=
  [foundation, Trial.createClass "B", Trial.createSubclass "C" ["B"], Trial.createSubclass "M" ["B"],
    Trial.define .instances "B" (Trial.method "f" (.next none)),
    Trial.define .instances "C" (Trial.method "f" (.next none)),
    Trial.define .instances "M" (Trial.method "f" (.next none)), Trial.createObject "o" "C",
    Trial.define .object "o" (Trial.method "f" (.next none)), Trial.addMixin .object "o" "M",
    Trial.addFilter .object "o" "f", Trial.addFilter .instances "M" "f", Trial.addFilter .instances "B" "f"]

def filteredAroundWorld : World :=
  (sessionWithin Heap.HandlesRemain 3 filteringAroundSession).get (by decide +kernel)

/-- In a reachable world, computing a filter order of a live object from its mixin order ends well, and the order is what
it should be. -/
theorem Reachable.ordersFilters (reached : Reachable Heap.HandlesRemain w) (live : w.live? h = some o) :
    ∃ mixins u order v, (Interception.mixinOrder h).exec w = (.ok mixins, u) ∧
      (Interception.computeFilterOrder h (mixins.map (·.target))).exec u = (.ok order, v) ∧
      w.OrdersFilters o (mixins.map (·.target)) order := by
  have proper := reached.proper fun _ remain => remain
  have current := reached.mixinOrdersCurrent
  obtain ⟨mixins, order, mixed, fresh, orders, -⟩ := proper.exists_freshFilterOrder live
  obtain ⟨mixins', u, order', b, z, mixed', done, -, fresh'⟩ := current.exec_computeFilterOrder proper live
  have given := (current.fst_mixinOrder proper live).trans mixed
  rw [mixed'] at given
  cases given
  cases fresh.symm.trans fresh'
  exact ⟨_, u, _, _, mixed', done, orders⟩

theorem ordersFilters_around : ∃ o mixins u order v, filteredAroundWorld.live? ⟨5, 0⟩ = some o ∧
    (Interception.mixinOrder ⟨5, 0⟩).exec filteredAroundWorld = (.ok mixins, u) ∧
    (Interception.computeFilterOrder ⟨5, 0⟩ (mixins.map (·.target))).exec u = (.ok order, v) ∧
    filteredAroundWorld.OrdersFilters o (mixins.map (·.target)) order ∧
    order.map FilterEntry.key = [⟨some ⟨4, 0⟩, "f"⟩, ⟨none, "f"⟩, ⟨some ⟨3, 0⟩, "f"⟩, ⟨some ⟨2, 0⟩, "f"⟩] := by
  have reached : Reachable Heap.HandlesRemain filteredAroundWorld := .sessionWithin (Option.some_get _).symm
  have there : (filteredAroundWorld.live? ⟨5, 0⟩).isSome = true := by decide +kernel
  obtain ⟨o, live⟩ := Option.isSome_iff_exists.1 there
  obtain ⟨mixins, u, order, v, mixed, done, orders⟩ := Reachable.ordersFilters reached live
  refine ⟨o, mixins, u, order, v, live, mixed, done, orders, ?_⟩
  have found : ((do
      let mixins ← Interception.mixinOrder ⟨5, 0⟩
      Interception.computeFilterOrder ⟨5, 0⟩ (mixins.map (·.target)) : Update (List FilterEntry)).exec
        filteredAroundWorld).1.toOption.map (·.map FilterEntry.key) =
      some [⟨some ⟨4, 0⟩, "f"⟩, ⟨none, "f"⟩, ⟨some ⟨3, 0⟩, "f"⟩, ⟨some ⟨2, 0⟩, "f"⟩] := by decide +kernel
  rw [Update.exec_bind_of_ok mixed, done] at found
  exact Option.some.inj found

/-! ## Guards -/

namespace World

variable {sources : List FilterSource} {before order : List FilterEntry} {key : FilterKey} {guard : Predicate}

/-- A registered filter with this guard leads to an implementation first of all. -/
def Grants (w : World) (o : Object) (sources : List FilterSource) (key : FilterKey) (guard : Predicate) : Prop :=
  ∃ source ∈ sources, w.leadsTo o source = some key ∧ source.filter.guard = some guard

/-- Where an entry behind `before` has its guard from. -/
inductive Guarded (w : World) (o : Object) (sources : List FilterSource) (before : List FilterEntry)
    (entry : FilterEntry) (guard : Predicate) : Prop
  /-- A registered filter that leads to the entry first of all grants it. -/
  | granted (grants : w.Grants o sources entry.key guard)
  /-- No filter does; one that leads to the first entry of the name first of all grants it to that one. -/
  | borrowed {first : FilterEntry} (ungranted : ∀ guard, ¬w.Grants o sources entry.key guard)
      (namesake : before.find? (·.name == entry.name) = some first) (grants : w.Grants o sources first.key guard)

theorem grants_of_guardOf (found : w.guardOf o key sources = some guard) : w.Grants o sources key guard := by
  obtain ⟨source, listed, has⟩ := List.exists_of_findSome?_eq_some found
  split at has
  · next leads => exact ⟨source, listed, leads, has⟩
  · cases has

theorem not_grants_of_guardOf (nothing : w.guardOf o key sources = none) : ¬w.Grants o sources key guard := by
  rintro ⟨source, listed, leads, has⟩
  have none := List.findSome?_eq_none_iff.1 nothing source listed
  rw [if_pos leads, has] at none
  cases none

/-- The first entry of its name can only have a guard that is granted to it. -/
theorem GuardsFilters.guarded (guards : w.GuardsFilters o sources order) {entry : FilterEntry}
    {after : List FilterEntry} (split : order = before ++ entry :: after) (has : entry.guard = some guard) :
    w.Guarded o sources before entry guard := by
  rw [guards before entry after split, guardAfter] at has
  cases own : w.guardOf o entry.key sources with
  | some granted =>
    rw [own] at has
    cases has
    exact .granted (grants_of_guardOf own)
  | none =>
    rw [own] at has
    obtain ⟨first, namesake, given⟩ := Option.bind_eq_some_iff.1 has
    refine .borrowed (fun _ => not_grants_of_guardOf own) namesake ?_
    obtain ⟨named, pre, post, rfl, others⟩ := List.find?_eq_some_iff_append.1 namesake
    have earlier := guards pre first (post ++ entry :: after) (by rw [split]; simp)
    have alone : pre.find? (·.name == first.key.name) = none := by
      rw [List.find?_eq_none]
      intro e inside same
      have apart : e.name ≠ entry.key.name := by simpa using others e inside
      exact apart ((beq_iff_eq.1 same).trans (beq_iff_eq.1 named))
    rw [guardAfter, alone, Option.bind_none, Option.or_none] at earlier
    exact grants_of_guardOf (earlier.symm.trans given)

end World

/-- In a reachable world where the filter order of a live object is not kept, or is kept as it would be computed, the
order is given, every entry has the guard that belongs to it, and that comes from a registered filter which leads first
of all to the entry itself or, if none does, to the first entry of the same name. -/
theorem Reachable.guardsFilters (reached : Reachable Heap.HandlesRemain w) (live : w.live? h = some o)
    (current : ∀ kept, o.filterOrder = some kept → ((Interception.freshFilterOrder h).exec w).1 = .ok kept) :
    ∃ mixins order v, ((Interception.mixinOrder h).exec w).1 = .ok mixins ∧
      (Interception.filterOrder h).exec w = (.ok order, v) ∧
      w.GuardsFilters o (w.filterSources o (mixins.map (·.target))) order ∧
      ∀ before entry after guard, order = before ++ entry :: after → entry.guard = some guard →
        w.Guarded o (w.filterSources o (mixins.map (·.target))) before entry guard := by
  have proper := reached.proper fun _ remain => remain
  have mixins := reached.mixinOrdersCurrent
  obtain ⟨mixins', order, mixed, fresh, -, guards⟩ := proper.exists_freshFilterOrder live
  have given : ((Interception.filterOrder h).exec w).1 = .ok order := by
    cases kept : o.filterOrder with
    | none => exact (mixins.fst_filterOrder proper live kept).trans fresh
    | some order' =>
      rw [exec_filterOrder_of_kept live kept]
      exact (current order' kept).symm.trans fresh
  exact ⟨mixins', order, ((Interception.filterOrder h).exec w).2, (mixins.fst_mixinOrder proper live).trans mixed,
    Prod.ext given rfl, guards, fun _ _ _ _ split has => guards.guarded split has⟩

/-- A session in which a mixin class registers a filter with a guard and the class of the object registers one of the
same name without. Each of the two classes defines the name, and neither inherits from the other. -/
def borrowingSession : List Expr :=
  [foundation, Trial.createClass "M", Trial.createClass "C",
    Trial.define .instances "M" (Trial.method "f" (.next none)),
    Trial.define .instances "C" (Trial.method "f" (.next none)), Trial.createObject "o" "C",
    Trial.addMixin .object "o" "M",
    .change (.addFilter .instances (.name "M") ⟨Trial.text "f", some (.constant false)⟩),
    Trial.addFilter .instances "C" "f"]

def borrowingWorld : World :=
  (sessionWithin Heap.HandlesRemain 3 borrowingSession).get (by decide +kernel)

theorem reachable_borrowingWorld : Reachable Heap.HandlesRemain borrowingWorld :=
  .sessionWithin (Option.some_get _).symm

theorem guardsFilters_borrowing : ∃ o mixins order v, borrowingWorld.live? ⟨4, 0⟩ = some o ∧
    ((Interception.mixinOrder ⟨4, 0⟩).exec borrowingWorld).1 = .ok mixins ∧
    (Interception.filterOrder ⟨4, 0⟩).exec borrowingWorld = (.ok order, v) ∧
    borrowingWorld.GuardsFilters o (borrowingWorld.filterSources o (mixins.map (·.target))) order ∧
    order.map (fun entry => (entry.definer, entry.guard.map (·.source))) =
      [(some ⟨2, 0⟩, some "false"), (some ⟨3, 0⟩, some "false")] := by
  have there : (borrowingWorld.live? ⟨4, 0⟩).isSome = true := by decide +kernel
  obtain ⟨o, live⟩ := Option.isSome_iff_exists.1 there
  have unkept : ((borrowingWorld.live? ⟨4, 0⟩).bind (·.filterOrder)).isNone = true := by decide +kernel
  rw [live, Option.bind_some, Option.isNone_iff_eq_none] at unkept
  obtain ⟨mixins, order, v, mixed, given, guards, -⟩ := Reachable.guardsFilters reachable_borrowingWorld live
    fun kept same => nomatch unkept.symm.trans same
  refine ⟨o, mixins, order, v, live, mixed, given, guards, ?_⟩
  have found : ((Interception.filterOrder ⟨4, 0⟩).exec borrowingWorld).1.toOption.map
      (·.map fun entry => (entry.definer, entry.guard.map (·.source))) =
      some [(some ⟨2, 0⟩, some "false"), (some ⟨3, 0⟩, some "false")] := by decide +kernel
  rw [given] at found
  exact Option.some.inj found

/-- The second entry has a guard although the only filter that stands for it has none: it is the guard of a filter on
the mixin class, which stands for the first entry alone. -/
theorem not_guarded_borrowing : Reachable Heap.HandlesRemain borrowingWorld ∧ ∃ o mixins u order v,
    borrowingWorld.live? ⟨4, 0⟩ = some o ∧ (Interception.mixinOrder ⟨4, 0⟩).exec borrowingWorld = (.ok mixins, u) ∧
    (Interception.filterOrder ⟨4, 0⟩).exec borrowingWorld = (.ok order, v) ∧
    ∃ entry ∈ order, entry.guard.isSome ∧
      ∀ source ∈ borrowingWorld.filterSources o (mixins.map (·.target)),
        entry.key ∈ (borrowingWorld.expansion o source).map FilterEntry.key → source.filter.guard = none := by
  have there : (borrowingWorld.live? ⟨4, 0⟩).isSome = true := by decide +kernel
  obtain ⟨o, live⟩ := Option.isSome_iff_exists.1 there
  have mixing : ((Interception.mixinOrder ⟨4, 0⟩).exec borrowingWorld).1.toOption.map (·.map (·.target)) =
      some [⟨2, 0⟩] := by decide +kernel
  have filtering : ((Interception.filterOrder ⟨4, 0⟩).exec borrowingWorld).1.toOption.map
      (·.map fun entry => (entry.key, entry.guard.isSome)) =
      some [(⟨some ⟨2, 0⟩, "f"⟩, true), (⟨some ⟨3, 0⟩, "f"⟩, true)] := by decide +kernel
  have standing : (borrowingWorld.live? ⟨4, 0⟩).all (fun o => (borrowingWorld.filterSources o [⟨2, 0⟩]).all fun source =>
      !((borrowingWorld.expansion o source).map FilterEntry.key).contains ⟨some ⟨3, 0⟩, "f"⟩ ||
        source.filter.guard.isNone) = true := by decide +kernel
  obtain ⟨mixins, u, mixed, targets⟩ := Update.exec_eq_ok_of_toOption mixing
  obtain ⟨order, v, given, entries⟩ := Update.exec_eq_ok_of_toOption filtering
  have second : (⟨some ⟨3, 0⟩, "f"⟩, true) ∈ order.map fun entry => (entry.key, entry.guard.isSome) := by
    rw [entries]
    simp
  obtain ⟨entry, listed, is⟩ := List.mem_map.1 second
  obtain ⟨key, guarded⟩ := Prod.mk.inj is
  refine ⟨reachable_borrowingWorld, o, mixins, u, order, v, live, mixed, given, entry, listed, guarded, ?_⟩
  intro source registered stands
  rw [live, Option.all_some, List.all_eq_true] at standing
  rw [targets] at registered
  rw [key] at stands
  simpa [stands] using standing source registered

end DynamicObjects
