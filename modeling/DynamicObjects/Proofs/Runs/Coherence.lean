import DynamicObjects.Proofs.Interception.Computation
import DynamicObjects.Proofs.Interception.Tracking
import DynamicObjects.Proofs.Interception.Upkeep
import DynamicObjects.Proofs.Runs.Links

/-!
# Kept orders are current

In every reachable world, a mixin order that is kept is the one that would be computed from what is registered now. The
same holds of filter orders as long as no class registers a filter of the same name both for itself and for its
instances.
-/
namespace DynamicObjects

/-- Every mixin order that is kept on a live object is the one that would be computed. -/
def MixinOrdersCurrent (w : World) : Prop :=
  ∀ h o order, w.live? h = some o → o.mixinOrder = some order →
    ((Interception.computeMixinOrder o.registrations.mixins o.cls).exec w).1 = .ok order

/-- Every filter order that is kept on a live object is the one that would be computed. -/
def FilterOrdersCurrent (w : World) : Prop :=
  ∀ h o order, w.live? h = some o → o.filterOrder = some order →
    ((Interception.freshFilterOrder h).exec w).1 = .ok order

variable {names : String → Prop} {loose tight : Handle → Prop} {v w : World} {h : Handle} {o p : Object}

/-! ## Objects that are not touched -/

theorem World.draws_cls (live : v.live? h = some o) : v.Draws h o.cls :=
  ⟨o.cls, List.mem_append_left _ (by simp [live]), .refl⟩

theorem World.draws_mixin (live : v.live? h = some o) {m : Mixin} (registered : m ∈ o.registrations.mixins) :
    v.Draws h m.target := by
  refine ⟨m.target, List.mem_append_right _ ?_, .refl⟩
  simp only [World.targetsOf, World.mixinsOf, World.registrations?, live, Option.bind_some, Object.registrations?,
    Option.map_some, Option.getD_some, List.mem_map]
  exact ⟨m, registered, rfl⟩

/-- The filters that count for an object all have some of these names. -/
structure World.MeetsOnly (names : String → Prop) (w : World) (h : Handle) : Prop where
  own : ∀ name ∈ w.filterNames .object h, names name
  drawn : ∀ c, w.Draws h c → ∀ name ∈ w.filterNames .instances c, names name

theorem World.MeetsOnly.any (w : World) (h : Handle) : w.MeetsOnly (fun _ => True) h :=
  ⟨fun _ _ => trivial, fun _ _ _ _ => trivial⟩

namespace Untouched

theorem likewise (untouched : Untouched names v w h o p) (meets : v.MeetsOnly names h) :
    Likewise names (v.Draws h) v w h := by
  have before := untouched.before
  constructor
  case named =>
    intro c part draws found f registered
    obtain ⟨x, live, isPart⟩ := Option.bind_eq_some_iff.1 found
    apply meets.drawn c draws
    simp only [World.filterNames, live, Option.bind_some, Object.filterNames, Object.registrations?, isPart,
      Option.map_some, Option.getD_some, List.mem_map]
    exact ⟨f, registered, rfl⟩
  case object =>
    refine ⟨o, p, before, untouched.after, untouched.station, World.draws_cls before,
      fun m registered => World.draws_mixin before registered, fun f registered => meets.own f.target ?_⟩
    simp only [World.filterNames, before, Option.bind_some, Object.filterNames, Object.registrations?, Option.map_some,
      Option.getD_some, List.mem_map]
    exact ⟨f, registered, rfl⟩

variable (before : WellFormed loose v) (after : WellFormed tight w) (untouched : Untouched names v w h o p)

include before after untouched

/-- An object that is not touched would be given the same mixin order before and after. -/
theorem computeMixinOrder : ∃ order,
    ((Interception.computeMixinOrder o.registrations.mixins o.cls).exec v).1 = .ok order ∧
    ((Interception.computeMixinOrder p.registrations.mixins p.cls).exec w).1 = .ok order := by
  rw [untouched.mixins, untouched.cls]
  have both := Interception.together_computeMixinOrder (untouched.alongside before) before after _ _
    (fun _ registered => World.draws_mixin untouched.before registered) (World.draws_cls untouched.before)
  exact (both.mono fun _ _ same => same.1).fst_eq before.kept after.kept

/-- If its filters have names under which no methods are touched, it would be given the same filter order, too. -/
theorem freshFilterOrder (meets : v.MeetsOnly names h) : ∃ order,
    ((Interception.freshFilterOrder h).exec v).1 = .ok order ∧
    ((Interception.freshFilterOrder h).exec w).1 = .ok order :=
  (Interception.together_freshFilterOrder (untouched.alongside before) (untouched.likewise meets) before
    after).fst_eq before.kept after.kept

end Untouched

/-- What orders of its own and of other objects see of an object. -/
def Object.setting (o : Object) :=
  (o.station fun _ => True, o.lineage fun _ => True)

theorem Object.setting_withoutPrecedence (o : Object) : o.withoutPrecedence.setting = o.setting := by
  rw [setting, setting, lineage_withoutPrecedence]
  rfl

theorem Filled.setting {a b : Objects} (filled : Filled a b) : Heap.Alike Object.setting a b :=
  filled.alike.comp Object.setting fun o => o.setting_withoutPrecedence.symm

theorem Untouched.of_setting (setting : Heap.Alike Object.setting v.objects w.objects) (after : w.live? h = some p) :
    ∃ o, Untouched (fun _ => True) v w h o p := by
  obtain ⟨o, before, same⟩ := setting.symm.exists_of_live? (v := w) (w := v)
    (fun _ _ same => congrArg (·.2.1) same) after
  exact ⟨o, before, after, (congrArg (·.1) same).symm, fun c _ => (setting.comp (·.2) fun _ => rfl).view c⟩

/-! ## Mixin orders -/

namespace MixinOrdersCurrent

/-- Orders are current where each was computed before, for an object that is not touched since. -/
theorem of_untouched (before : WellFormed loose v) (after : WellFormed tight w)
    (each : ∀ h p order, w.live? h = some p → p.mixinOrder = some order → ∃ names o, Untouched names v w h o p ∧
      ((Interception.computeMixinOrder o.registrations.mixins o.cls).exec v).1 = .ok order) : MixinOrdersCurrent w := by
  intro h p order live kept
  obtain ⟨names, o, untouched, computed⟩ := each h p order live kept
  obtain ⟨order', first, second⟩ := untouched.computeMixinOrder before after
  rw [first] at computed
  cases computed
  exact second

theorem of_leaves (current : MixinOrdersCurrent v) (before : WellFormed loose v) (after : WellFormed tight w)
    (leaves : Leaves names v w) : MixinOrdersCurrent w := by
  apply of_untouched before after
  intro h p order live kept
  obtain ⟨o, untouched, same⟩ := leaves h p live fun blank => by
    have without : p.mixinOrder = none := congrArg Prod.fst blank
    rw [kept] at without
    cases without
  exact ⟨names, o, untouched, current h o order untouched.before ((congrArg Prod.fst same).symm.trans kept)⟩

/-- Nothing has happened but that orders have been computed and kept. -/
theorem of_setting (before : WellFormed loose v) (after : WellFormed tight w)
    (setting : Heap.Alike Object.setting v.objects w.objects)
    (each : ∀ h o p order, v.live? h = some o → w.objects.get? h = some p → p.mixinOrder = some order →
      ((Interception.computeMixinOrder o.registrations.mixins o.cls).exec v).1 = .ok order) : MixinOrdersCurrent w := by
  apply of_untouched before after
  intro h p order live kept
  obtain ⟨o, untouched⟩ := Untouched.of_setting setting live
  exact ⟨_, o, untouched, each h o p order untouched.before (World.live?_eq_some_iff.1 live).1 kept⟩

/-- Asking for a mixin order keeps the one that is computed. -/
theorem mixinOrder (current : MixinOrdersCurrent v) (well : WellFormed loose v) (h : Handle) :
    MixinOrdersCurrent ((Interception.mixinOrder h).exec v).2 := by
  have after := well.mixinOrder h
  rcases exec_mixinOrder well h with ⟨r, kept, -⟩ | ⟨o, r, b, live, -, computed, filled, ⟨e, -, done⟩ | ⟨order, rfl, done⟩⟩
  · rw [kept]
    exact current
  · rw [done] at after ⊢
    exact current.of_leaves well after (@Leaves.of_filled (fun _ => True) _ _ filled)
  rw [done] at after ⊢
  refine .of_setting well after (filled.setting.trans (.modify _ _ fun _ => rfl)) fun k q p order' before found kept => ?_
  rw [Heap.get?_modify] at found
  by_cases here : k = h
  · subst here
    rw [if_pos rfl] at found
    obtain ⟨x, -, rfl⟩ := Option.map_eq_some_iff.1 found
    cases kept
    rw [live] at before
    cases before
    exact congrArg Prod.fst computed
  · rw [if_neg here] at found
    obtain ⟨x, there, looks⟩ := filled.alike.symm.exists_of_get? found
    rw [(World.live?_eq_some_iff.1 before).1] at there
    cases there
    have orders : q.mixinOrder = p.mixinOrder := (congrArg Object.mixinOrder looks :)
    exact current k q order' before (orders.trans kept)

/-- Keeping a filter order changes no mixin order. -/
theorem filterOrder (current : MixinOrdersCurrent v) (well : WellFormed loose v) (h : Handle) :
    MixinOrdersCurrent ((Interception.filterOrder h).exec v).2 := by
  have after := well.filterOrder h
  rcases exec_filterOrder well h with ⟨r, kept, -⟩ | ⟨o, r, u, -, -, mixed, rest⟩
  · rw [kept]
    exact current
  have wellMid := well.mixinOrder h
  have mid := current.mixinOrder well h
  rw [mixed] at wellMid mid
  rcases rest with ⟨e, -, done⟩ | ⟨mixins, s, b, -, -, filled, ⟨e, -, done⟩ | ⟨order, -, done⟩⟩
  · rw [done]
    exact mid
  · rw [done] at after ⊢
    exact mid.of_leaves wellMid after (@Leaves.of_filled (fun _ => True) _ _ filled)
  rw [done] at after ⊢
  refine .of_setting wellMid after (filled.setting.trans (.modify _ _ fun _ => rfl)) fun k q p order' before found kept => ?_
  have stored : Heap.Alike Object.mixinOrder u.objects (b.modify h fun o => { o with filterOrder := some order }) :=
    (filled.alike.comp Object.mixinOrder fun _ => rfl).trans (.modify _ _ fun _ => rfl)
  have same := stored.view k
  rw [found, (World.live?_eq_some_iff.1 before).1] at same
  exact mid k q order' before ((Option.some.inj same).symm.trans kept)

end MixinOrdersCurrent

/-- The mixin order that would be computed for an object lists classes that the object draws on. -/
theorem WellFormed.exec_computeMixinOrder_of_ok (well : WellFormed loose v) (live : v.live? h = some o)
    {mixins : List Mixin}
    (mixed : ((Interception.computeMixinOrder o.registrations.mixins o.cls).exec v).1 = .ok mixins) :
    ∃ a, (Interception.computeMixinOrder o.registrations.mixins o.cls).exec v = (.ok mixins, { v with objects := a }) ∧
      Filled v.objects a ∧ ∀ c ∈ mixins.map (·.target), v.Draws h c := by
  have alongside : Alongside (fun _ => True) (v.Draws h) v v := .refl well h
  obtain ⟨x, y, a, -, done, filled, -, -, -, inside⟩ := Interception.together_computeMixinOrder alongside well well _ _
    (fun _ registered => World.draws_mixin live registered) (World.draws_cls live)
    v.objects v.objects (.refl well.kept) (.refl well.kept)
  change (Interception.computeMixinOrder _ _).exec v = _ at done
  rw [done] at mixed
  cases mixed
  refine ⟨a, done, filled, fun c member => ?_⟩
  obtain ⟨m, listed, rfl⟩ := List.mem_map.1 member
  exact inside m listed

/-! ## Filter orders -/

namespace FilterOrdersCurrent

theorem of_untouched (before : WellFormed loose v) (after : WellFormed tight w)
    (each : ∀ h p order, w.live? h = some p → p.filterOrder = some order → ∃ names o, Untouched names v w h o p ∧
      v.MeetsOnly names h ∧ ((Interception.freshFilterOrder h).exec v).1 = .ok order) : FilterOrdersCurrent w := by
  intro h p order live kept
  obtain ⟨names, o, untouched, meets, computed⟩ := each h p order live kept
  obtain ⟨order', first, second⟩ := untouched.freshFilterOrder before after meets
  rw [first] at computed
  cases computed
  exact second

/-- The names may leave out what no filter that counts is called, for any object whose order is still kept. -/
theorem of_leaves (current : FilterOrdersCurrent v) (before : WellFormed loose v) (after : WellFormed tight w)
    (leaves : Leaves names v w)
    (meets : ∀ h p, w.live? h = some p → p.KeepsOrder → v.MeetsOnly names h) : FilterOrdersCurrent w := by
  apply of_untouched before after
  intro h p order live kept
  have keeps : p.KeepsOrder := fun blank => by
    have without : p.filterOrder = none := congrArg Prod.snd blank
    rw [kept] at without
    cases without
  obtain ⟨o, untouched, same⟩ := leaves h p live keeps
  exact ⟨names, o, untouched, meets h p live keeps,
    current h o order untouched.before ((congrArg Prod.snd same).symm.trans kept)⟩

theorem of_setting (before : WellFormed loose v) (after : WellFormed tight w)
    (setting : Heap.Alike Object.setting v.objects w.objects)
    (each : ∀ h o p order, v.live? h = some o → w.objects.get? h = some p → p.filterOrder = some order →
      ((Interception.freshFilterOrder h).exec v).1 = .ok order) : FilterOrdersCurrent w := by
  apply of_untouched before after
  intro h p order live kept
  obtain ⟨o, untouched⟩ := Untouched.of_setting setting live
  exact ⟨_, o, untouched, .any v h, each h o p order untouched.before (World.live?_eq_some_iff.1 live).1 kept⟩

/-- Keeping a mixin order changes no filter order. -/
theorem mixinOrder (current : FilterOrdersCurrent v) (well : WellFormed loose v) (h : Handle) :
    FilterOrdersCurrent ((Interception.mixinOrder h).exec v).2 := by
  have after := well.mixinOrder h
  obtain ⟨b, done, alike⟩ := @alike_mixinOrder _ _ _ (fun o => (o.setting, o.filterOrder))
    (fun o => by rw [Object.setting_withoutPrecedence]; rfl) (fun _ _ => rfl) well h
  rw [done] at after ⊢
  refine .of_setting well after (alike.comp Prod.fst fun _ => rfl) fun k q p order before found keeps => ?_
  have same := alike.view k
  change b.get? k = some p at found
  rw [found, (World.live?_eq_some_iff.1 before).1] at same
  exact current k q order before ((congrArg Prod.snd (Option.some.inj same)).symm.trans keeps)

/-- The mixin order that is given is kept. -/
theorem kept_of_mixinOrder (well : WellFormed loose v) {u : World} {order : List Mixin}
    (done : (Interception.mixinOrder h).exec v = (.ok order, u)) :
    ∃ o, u.live? h = some o ∧ o.mixinOrder = some order := by
  rcases exec_mixinOrder well h with ⟨r, same, kept⟩ | ⟨o, r, b, live, -, -, filled, ⟨e, -, ended⟩ | ⟨order', -, ended⟩⟩
  · rw [same] at done
    cases done
    exact kept order rfl
  · rw [ended] at done
    cases done
  · rw [ended] at done
    cases done
    obtain ⟨x, there, looks⟩ := filled.exists_live live
    obtain ⟨found, alive⟩ := World.live?_eq_some_iff.1 there
    refine ⟨{ x with mixinOrder := some order }, World.live?_eq_some_iff.2 ⟨?_, alive⟩, rfl⟩
    rw [Heap.get?_modify, if_pos rfl, found, Option.map_some]

/-- From the mixin order that would be computed, the filter order is computed in the same way whichever precedence
orders are kept. -/
theorem exec_freshFilterOrder (well : WellFormed loose v) (live : v.live? h = some o) {mixins : List Mixin}
    (mixed : ((Interception.computeMixinOrder o.registrations.mixins o.cls).exec v).1 = .ok mixins) :
    ((Interception.freshFilterOrder h).exec v).1 =
      ((Interception.computeFilterOrder h (mixins.map (·.target))).exec v).1 := by
  have alongside : Alongside (fun _ => True) (v.Draws h) v v := .refl well h
  have likewise : Likewise (fun _ => True) (v.Draws h) v v h :=
    (Untouched.refl live).likewise (.any v h)
  obtain ⟨a, one, filled, classes⟩ := well.exec_computeMixinOrder_of_ok live mixed
  obtain ⟨s, s', a', b', first, -, second, -, rfl⟩ := Interception.together_computeFilterOrder alongside likewise well
    well _ classes a v.objects filled (.refl well.kept)
  unfold Interception.freshFilterOrder
  rw [Update.exec_bind_of_ok (Update.exec_object_of_live live), Update.exec_bind_of_ok one, first]
  exact (congrArg Prod.fst second).symm

/-- Asking for a filter order keeps the one that is computed. -/
theorem filterOrder (current : FilterOrdersCurrent v) (mixins : MixinOrdersCurrent v) (well : WellFormed loose v)
    (h : Handle) : FilterOrdersCurrent ((Interception.filterOrder h).exec v).2 := by
  have after := well.filterOrder h
  rcases exec_filterOrder well h with ⟨r, kept, -⟩ | ⟨o, r, u, -, -, mixed, rest⟩
  · rw [kept]
    exact current
  have wellMid := well.mixinOrder h
  have mid := current.mixinOrder well h
  have midMixins := mixins.mixinOrder well h
  rw [mixed] at wellMid mid midMixins
  rcases rest with ⟨e, -, done⟩ | ⟨mixins, s, b, rfl, computed, filled, ⟨e, -, done⟩ | ⟨order, rfl, done⟩⟩
  · rw [done]
    exact mid
  · rw [done] at after ⊢
    exact mid.of_leaves wellMid after (@Leaves.of_filled (fun _ => True) _ _ filled) fun k _ _ _ => .any u k
  rw [done] at after ⊢
  refine .of_setting wellMid after (filled.setting.trans (.modify _ _ fun _ => rfl)) fun k q p order' before found kept => ?_
  rw [Heap.get?_modify] at found
  by_cases here : k = h
  · subst here
    rw [if_pos rfl] at found
    obtain ⟨x, -, rfl⟩ := Option.map_eq_some_iff.1 found
    cases kept
    obtain ⟨y, live, keeps⟩ := kept_of_mixinOrder well mixed
    rw [exec_freshFilterOrder wellMid live (midMixins k y mixins live keeps), computed]
  · rw [if_neg here] at found
    obtain ⟨x, there, looks⟩ := filled.alike.symm.exists_of_get? found
    rw [(World.live?_eq_some_iff.1 before).1] at there
    cases there
    have orders : q.filterOrder = p.filterOrder := (congrArg Object.filterOrder looks :)
    exact mid k q order' before (orders.trans kept)

end FilterOrdersCurrent

/-- Where all users of filters are tracked, an object is left out only if the name does not matter to it. -/
theorem FiltersTracked.meetsOnly {name : String} (tracked : FiltersTracked v) (well : WellFormed loose v)
    (unlisted : ¬Interception.Listed v name h) : v.MeetsOnly (· ≠ name) h := by
  constructor
  case own =>
    rintro other registered rfl
    exact unlisted ⟨h, tracked .object h other registered, .inl rfl⟩
  case drawn =>
    rintro c draws other registered rfl
    exact unlisted ⟨c, tracked .instances c other registered, .inr ⟨well.isClass_of_draws draws, well.dependsOn draws⟩⟩

/-- A change of methods does not show in who is listed. -/
theorem Definition.listed_redefined {reach : Reach} {on : Handle} {f : NameTable Method → NameTable Method}
    {registry : NameTable Registration} {name : String} :
    Interception.Listed (Definition.redefined reach on f registry v) name h ↔ Interception.Listed v name h := by
  have alike : ∀ {β : Type} {view : Object → β}, (∀ o, view (o.mapMethods reach f) = view o) →
      Heap.Alike view v.objects (Definition.redefined reach on f registry v).objects :=
    fun keeps => .modify v.objects on keeps
  have dependents : Heap.Alike Object.dependents v.objects (Definition.redefined reach on f registry v).objects :=
    alike fun o => by cases reach <;> simp [Object.dependents, Object.mapMethods, Object.mapClass, Function.comp_def]
  have affected : Heap.Alike Object.affected v.objects (Definition.redefined reach on f registry v).objects :=
    alike fun o => by cases reach <;> simp [Object.affected, Object.mapMethods, Object.mapClass, Function.comp_def]
  have isClass : ∀ c, (Definition.redefined reach on f registry v).isClass c = v.isClass c := fun c =>
    Heap.Alike.isClass (alike fun o => congrArg (·.1.1) (Object.links_mapMethods reach f o))
  unfold Interception.Listed
  simp only [isClass, Interception.dependsOn_of_alike dependents affected]
  rfl

namespace FilterOrdersCurrent

/-- A change of the methods of one name forgets every order in which a filter of this name counts. -/
private theorem of_redefined {name : String} {reach : Reach} {on : Handle} {f : NameTable Method → NameTable Method}
    {registry : NameTable Registration} (current : FilterOrdersCurrent v) (tracked : FiltersTracked v)
    (before : WellFormed loose v) (after : WellFormed tight w) (leaves : Leaves (· ≠ name) v w)
    (forgets : Forgets (Interception.Listed (Definition.redefined reach on f registry v) name)
      (Definition.redefined reach on f registry v).objects w.objects) : FilterOrdersCurrent w := by
  apply current.of_leaves before after leaves
  intro h p live keeps
  obtain ⟨found, -⟩ := World.live?_eq_some_iff.1 live
  have unlisted := (forgets.of_cached found keeps.cached).2
  exact tracked.meetsOnly before fun listed => unlisted (Definition.listed_redefined.2 listed)

theorem defineMethod (current : FilterOrdersCurrent v) (tracked : FiltersTracked v) (well : WellFormed loose v)
    (reach : Reach) (on : Handle) (method : Method) :
    FilterOrdersCurrent ((Definition.defineMethod reach on method).exec v).2 := by
  have after := well.defineMethod reach on method
  have leaves : Leaves (· ≠ method.name) v ((Definition.defineMethod reach on method).exec v).2 :=
    .defineMethod reach on method fun other => other rfl
  rcases Definition.exec_defineMethod reach on method v with ⟨e, failed⟩ | ⟨o, table, b, -, -, done, forgets⟩
  · rw [failed]
    exact current
  · rw [done] at after leaves ⊢
    exact current.of_redefined tracked well after leaves forgets

theorem removeMethod (current : FilterOrdersCurrent v) (tracked : FiltersTracked v) (well : WellFormed loose v)
    (reach : Reach) (on : Handle) (name : String) :
    FilterOrdersCurrent ((Definition.removeMethod reach on name).exec v).2 := by
  have after := well.removeMethod reach on name
  have leaves : Leaves (· ≠ name) v ((Definition.removeMethod reach on name).exec v).2 :=
    .removeMethod reach on name fun other => other rfl
  rcases Definition.exec_removeMethod reach on name v with ⟨e, failed⟩ | ⟨o, table, b, -, -, -, done, forgets⟩
  · rw [failed]
    exact current
  · rw [done] at after leaves ⊢
    exact current.of_redefined tracked well after leaves forgets

end FilterOrdersCurrent

/-! ## Every change -/

section changes

variable {good : Objects → Prop} (remain : ∀ a, good a → a.HandlesRemain)

/-- Orders see nothing that is aside from the core. -/
theorem Object.repose_core (o : Object) : o.repose names = o.core.repose names := by
  simp [repose, station, orders, lineage, core, Function.comp_def]

/-- What a change does to the orders that are kept. -/
inductive OrdersAfter (v : World) : World → Prop where
  | leaves {w : World} (leaves : Leaves (fun _ => True) v w) : OrdersAfter v w
  | mixinOrder (h : Handle) : OrdersAfter v ((Interception.mixinOrder h).exec v).2
  | filterOrder (h : Handle) : OrdersAfter v ((Interception.filterOrder h).exec v).2
  | defineMethod (reach : Reach) (on : Handle) (method : Method) :
      OrdersAfter v ((Definition.defineMethod reach on method).exec v).2
  | removeMethod (reach : Reach) (on : Handle) (name : String) :
      OrdersAfter v ((Definition.removeMethod reach on name).exec v).2

include remain in
theorem WellFormed.ordersAfter (well : WellFormed loose v) (change : Change Beside good v w) : OrdersAfter v w := by
  cases change with
  | mixinOrder h => exact .mixinOrder h
  | filterOrder h => exact .filterOrder h
  | defineMethod reach on method => exact .defineMethod reach on method
  | removeMethod reach on name => exact .removeMethod reach on name
  | aside beside => exact .leaves (.of_repose (beside.core.comp _ Object.repose_core))
  | precedenceOrder c =>
    obtain ⟨b, after, filled⟩ := well.filled_precedenceOrder c
    rw [after]
    exact .leaves (.of_filled filled)
  | setSuperclasses c supers => exact .leaves (.setSuperclasses well c supers)
  | changeClass h cls => exact .leaves (.changeClass well h cls)
  | setMixins reach on mixins => exact .leaves (.setMixins well reach on mixins)
  | setMixinGuard reach on cls guard => exact .leaves (.setMixinGuard well reach on cls guard)
  | setFilters reach on filters => exact .leaves (.setFilters well reach on filters)
  | setFilterGuard reach on name guard => exact .leaves (.setFilterGuard well reach on name guard)
  | createSystem root metaclass methods permits =>
    exact .leaves (.createSystem well (remain _ permits) root metaclass methods)
  | @enroll c name cls permits live isClass free =>
    have listed := World.isClass_iff.2 ⟨c, _, live, Option.some_get isClass |>.symm⟩
    exact .leaves (.enroll well (remain _ permits).hasRoom (Object.unlinked_ofClass name cls c.system) listed free
      (well.rooted.system cls c live) rfl fun keeps => keeps rfl)
  | enrollClass name metaclass supers permits =>
    exact .leaves (.enrollClass well (remain _ permits).hasRoom name metaclass supers)
  | unlink h live root => exact .leaves (.unlink well live root)
  | release dead => exact .leaves (.release well dead rfl)

include remain in
theorem MixinOrdersCurrent.change (current : MixinOrdersCurrent v) (well : WellFormed loose v)
    (change : Change Beside good v w) : MixinOrdersCurrent w := by
  have after := well.change remain change
  cases well.ordersAfter remain change with
  | leaves leaves => exact current.of_leaves well after leaves
  | mixinOrder h => exact current.mixinOrder well h
  | filterOrder h => exact current.filterOrder well h
  | defineMethod reach on method =>
    exact current.of_leaves well after (@Leaves.defineMethod (fun _ => False) _ reach on method id)
  | removeMethod reach on name =>
    exact current.of_leaves well after (@Leaves.removeMethod (fun _ => False) _ reach on name id)

include remain in
theorem MixinOrdersCurrent.evolves (current : MixinOrdersCurrent v) (well : WellFormed loose v)
    (path : Evolves good v w) : MixinOrdersCurrent w := by
  induction path with
  | refl => exact current
  | tail path last ih => exact ih.change remain (well.evolves remain path) last

/-- What a change does to the filters that are registered and to who is tracked. -/
inductive FiltersAfter (good : Objects → Prop) (v : World) : World → Prop where
  | keeps {w : World} (keeps : KeepsFilters v w) : FiltersAfter good v w
  | setFilters (reach : Reach) (on : Handle) (filters : List Filter) (permits : good v.objects) :
      FiltersAfter good v ((Interception.setFilters reach on filters).exec v).2
  | unlink {o : Object} (h : Handle) (live : v.live? h = some o) (root : o.isRoot = false) :
      FiltersAfter good v ((Lifecycle.unlink h).exec v).2

include remain in
theorem WellFormed.filtersAfter (well : WellFormed loose v) (change : Change Beside good v w) : FiltersAfter good v w := by
  cases change with
  | setFilters reach on filters permits => exact .setFilters reach on filters permits
  | unlink h live root => exact .unlink h live root
  | aside beside =>
    refine .keeps (.of_alike (beside.core.comp Object.filing fun o => Prod.ext rfl (funext fun reach => ?_))
      beside.filterUsers)
    cases reach <;> simp [Object.filing, Object.filterNames, Object.registrations?, Object.core, Function.comp_def]
  | precedenceOrder c =>
    obtain ⟨b, after, filled⟩ := well.filled_precedenceOrder c
    rw [after]
    exact .keeps (.of_filled filled rfl)
  | mixinOrder h =>
    obtain ⟨b, done, alike⟩ := alike_mixinOrder Object.filing_withoutPrecedence (fun _ _ => rfl) well h
    rw [done]
    exact .keeps (.of_alike alike rfl)
  | filterOrder h =>
    obtain ⟨b, done, alike⟩ :=
      alike_filterOrder Object.filing_withoutPrecedence (fun _ _ => rfl) (fun _ _ => rfl) well h
    rw [done]
    exact .keeps (.of_alike alike rfl)
  | setSuperclasses c supers => exact .keeps (.setSuperclasses well c supers)
  | changeClass h cls => exact .keeps (.changeClass v h cls)
  | setMixins reach on mixins => exact .keeps (.setMixins v reach on mixins)
  | setMixinGuard reach on cls guard => exact .keeps (.setMixinGuard v reach on cls guard)
  | setFilterGuard reach on name guard => exact .keeps (.setFilterGuard v reach on name guard)
  | defineMethod reach on method => exact .keeps (.defineMethod v reach on method)
  | removeMethod reach on name => exact .keeps (.removeMethod v reach on name)
  | createSystem root metaclass methods permits =>
    exact .keeps (.createSystem well (remain _ permits) root metaclass methods)
  | @enroll c name cls permits live isClass free =>
    have listed := World.isClass_iff.2 ⟨c, _, live, Option.some_get isClass |>.symm⟩
    exact .keeps (.enroll well (remain _ permits).hasRoom (Object.unlinked_ofClass name cls c.system) listed free
      (well.rooted.system cls c live) rfl fun reach => by cases reach <;> rfl)
  | enrollClass name metaclass supers permits =>
    exact .keeps (.enrollClass well (remain _ permits).hasRoom name metaclass supers)
  | @release h dead =>
    refine .keeps (.release fun reach => ?_)
    rw [World.filterNames, dead]
    rfl

include remain in
/-- Where filters are replaced only while they are apart, users stay tracked. -/
theorem FiltersTracked.change (apart : ∀ a, good a → a.FiltersApart) (tracked : FiltersTracked v)
    (well : WellFormed loose v) (change : Change Beside good v w) : FiltersTracked w := by
  cases well.filtersAfter remain change with
  | keeps keeps => exact tracked.of_keeps keeps
  | setFilters reach on filters permits => exact tracked.setFilters (apart _ permits) reach on filters
  | unlink h live root => exact tracked.unlink well live root

include remain in
theorem UsersRegister.change (register : UsersRegister v) (well : WellFormed loose v)
    (change : Change Beside good v w) : UsersRegister w := by
  cases well.filtersAfter remain change with
  | keeps keeps => exact register.of_keeps keeps
  | setFilters reach on filters => exact register.setFilters reach on filters
  | unlink h live root => exact register.unlink well live root

include remain in
theorem UsersRegister.evolves (register : UsersRegister v) (well : WellFormed loose v) (path : Evolves good v w) :
    UsersRegister w := by
  induction path with
  | refl => exact register
  | tail path last ih => exact ih.change remain (well.evolves remain path) last

include remain in
theorem FilterOrdersCurrent.change (current : FilterOrdersCurrent v) (mixins : MixinOrdersCurrent v)
    (tracked : FiltersTracked v) (well : WellFormed loose v) (change : Change Beside good v w) : FilterOrdersCurrent w := by
  have after := well.change remain change
  cases well.ordersAfter remain change with
  | leaves leaves => exact current.of_leaves well after leaves fun h _ _ _ => .any v h
  | mixinOrder h => exact current.mixinOrder well h
  | filterOrder h => exact current.filterOrder mixins well h
  | defineMethod reach on method => exact current.defineMethod tracked well reach on method
  | removeMethod reach on name => exact current.removeMethod tracked well reach on name

include remain in
/-- Filter orders are current because users are tracked, and because the mixin orders they start from are current. -/
theorem FilterOrdersCurrent.evolves (apart : ∀ a, good a → a.FiltersApart) (current : FilterOrdersCurrent v)
    (mixins : MixinOrdersCurrent v) (tracked : FiltersTracked v) (well : WellFormed loose v)
    (path : Evolves good v w) : FilterOrdersCurrent w ∧ FiltersTracked w := by
  induction path with
  | refl => exact ⟨current, tracked⟩
  | tail path last ih =>
    have mid := well.evolves remain path
    exact ⟨ih.1.change remain (mixins.evolves remain well path) ih.2 mid last, ih.2.change remain apart mid last⟩

end changes

/-! ## Reachable worlds -/

/-- Mixin orders are current wherever handles remain on the way, whatever else is asked of heaps. -/
theorem MixinOrdersCurrent.of_reachable {good : Objects → Prop} (remain : ∀ a, good a → a.HandlesRemain)
    (reached : Reachable good w) : MixinOrdersCurrent w := by
  obtain ⟨settings, path⟩ := reached.evolves remain
  have start : MixinOrdersCurrent { settings } := fun h o order live => by cases live
  exact start.evolves remain (proper_start settings) path

/-- A session in which the mixin order of an object is asked for. -/
def mixingSession : List Expr :=
  [foundation, Trial.createClass "M", Trial.createClass "C", Trial.createObject "o" "C",
    Trial.addMixin .object "o" "M", Trial.mixinOrder "o"]

def mixedWorld : World :=
  (sessionWithin Heap.HandlesRemain 3 mixingSession).get (by decide +kernel)

theorem reachable_mixedWorld : Reachable Heap.HandlesRemain mixedWorld :=
  .sessionWithin (Option.some_get _).symm

/-- In every reachable world, a mixin order that is kept is the one that would be computed. -/
theorem Reachable.mixinOrdersCurrent (reached : Reachable Heap.HandlesRemain w) : MixinOrdersCurrent w := by
  obtain ⟨settings, path⟩ := reached.evolves fun _ remain => remain
  have start : MixinOrdersCurrent { settings } := fun h o order live => by cases live
  exact start.evolves (fun _ remain => remain) (proper_start settings) path

theorem mixinOrdersCurrent_mixed : MixinOrdersCurrent mixedWorld ∧
    ((mixedWorld.live? ⟨4, 0⟩).bind (·.mixinOrder)).map (·.map (·.target)) = some [⟨2, 0⟩] :=
  ⟨Reachable.mixinOrdersCurrent reachable_mixedWorld, by decide +kernel⟩

instance (objects : Objects) : Decidable objects.FiltersApart :=
  decidable_of_iff (∀ h ∈ objects.handles, ∀ o ∈ objects.get? h,
      ∀ name ∈ (o.filterNames .object).getD [], name ∉ (o.filterNames .instances).getD [])
    ⟨fun apart h o found => apart h (Heap.mem_handles found) o found, fun apart h _ o found => apart h o found⟩

/-- A session in which a filter is redefined while a filter order is kept. -/
def filteringSession : List Expr :=
  [foundation, Trial.createClass "C", Trial.define .instances "C" (Trial.method "f" (.next none)),
    Trial.addFilter .instances "C" "f", Trial.createObject "o" "C", Trial.filterOrder "o",
    Trial.define .instances "C" (Trial.method "f" (.literal .nil)), Trial.filterOrder "o"]

def filteredWorld : World :=
  (sessionWithin (fun a => a.HandlesRemain ∧ a.FiltersApart) 3 filteringSession).get (by decide +kernel)

theorem reachable_filteredWorld : Reachable (fun a => a.HandlesRemain ∧ a.FiltersApart) filteredWorld :=
  .sessionWithin (Option.some_get _).symm

/-- As long as no class registers a filter of the same name both for itself and for its instances, whoever registers a
filter is tracked, and a filter order that is kept is the one that would be computed. -/
theorem Reachable.filterOrdersCurrent (reached : Reachable (fun a => a.HandlesRemain ∧ a.FiltersApart) w) :
    FilterOrdersCurrent w ∧ FiltersTracked w := by
  obtain ⟨settings, path⟩ := reached.evolves fun _ good => good.1
  have mixins : MixinOrdersCurrent { settings } := fun h o order live => by cases live
  have filters : FilterOrdersCurrent { settings } := fun h o order live => by cases live
  have tracked : FiltersTracked { settings } := fun reach user name registered => by cases registered
  exact filters.evolves (fun _ good => good.1) (fun _ good => good.2) mixins tracked (proper_start settings) path

theorem filterOrdersCurrent_filtered : (FilterOrdersCurrent filteredWorld ∧ FiltersTracked filteredWorld) ∧
    ((filteredWorld.live? ⟨3, 0⟩).bind (·.filterOrder)).map (·.map (·.method.epoch)) = some [2] :=
  ⟨Reachable.filterOrdersCurrent reachable_filteredWorld, by decide +kernel⟩

/-- A session in which a class drops a filter for itself that it keeps registering for its instances. -/
def forgettingSession : List Expr :=
  [foundation, Trial.createClass "C", Trial.define .instances "C" (Trial.method "f" (.next none)),
    Trial.addFilter .instances "C" "f", Trial.addFilter .object "C" "f", Trial.createObject "o" "C",
    Trial.filterOrder "o", Trial.removeFilter .object "C" "f",
    Trial.define .instances "C" (Trial.method "f" (.literal .nil)), Trial.filterOrder "o"]

def forgetfulWorld : World :=
  (sessionWithin Heap.HandlesRemain 3 forgettingSession).get (by decide +kernel)

theorem reachable_forgetfulWorld : Reachable Heap.HandlesRemain forgetfulWorld :=
  .sessionWithin (Option.some_get _).symm

/-- Otherwise the one entry for both registrations is lost with the first of them: the class is not tracked any more,
and its instances keep the filter as it was. -/
theorem not_filterOrdersCurrent_forgetful : Reachable Heap.HandlesRemain forgetfulWorld ∧
    ¬FilterOrdersCurrent forgetfulWorld ∧ ¬FiltersTracked forgetfulWorld := by
  refine ⟨reachable_forgetfulWorld, fun current => ?_, fun tracked => ?_⟩
  · have keeps : ((forgetfulWorld.live? ⟨3, 0⟩).bind (·.filterOrder)).map (·.map (·.method.epoch)) = some [1] := by
      decide +kernel
    obtain ⟨order, kept, epochs⟩ := Option.map_eq_some_iff.1 keeps
    obtain ⟨o, live, here⟩ := Option.bind_eq_some_iff.1 kept
    have fresh : ((Interception.freshFilterOrder ⟨3, 0⟩).exec forgetfulWorld).1.toOption.map (·.map (·.method.epoch)) =
        some [2] := by
      decide +kernel
    rw [current ⟨3, 0⟩ o order live here] at fresh
    have same : order.map (·.method.epoch) = [2] := Option.some.inj fresh
    rw [epochs] at same
    exact absurd same (by decide)
  · have lost : ⟨2, 0⟩ ∉ forgetfulWorld.usersOfFilter "f" := by decide +kernel
    exact lost (tracked .instances ⟨2, 0⟩ "f" (by decide +kernel))

end DynamicObjects
