import DynamicObjects.Proofs.Runs.Balance
import DynamicObjects.Proofs.Runs.Steps
import DynamicObjects.Proofs.Structure.Dating
import DynamicObjects.Proofs.Structure.Destruction
import DynamicObjects.Proofs.Structure.Founding
import DynamicObjects.Proofs.Structure.Orders

/-!
# Changes of a world

Whatever is evaluated, a world only changes in the ways listed here. Each of them keeps a world well-formed.
-/
namespace DynamicObjects

/-- An object without its variables, its checks, its invariants and the state of its calls. -/
def Object.core (o : Object) : Object :=
  { o with
    vars := .empty
    checks := {}
    registrations := { o.registrations with invariants := [] }
    classPart := o.classPart.map fun c => { c with registrations := { c.registrations with invariants := [] } }
    mixinPositions := []
    filterPositions := []
    holders := 0
    keepsCallerSelf := false
    destroyCalled := false
    duringDelete := false }

/-- Worlds that differ in nothing that links, orders and tables depend on. -/
structure Beside (v w : World) : Prop where
  core : Heap.Alike Object.core v.objects w.objects
  names : w.names = v.names
  systems : w.systems = v.systems
  filterUsers : w.filterUsers = v.filterUsers
  epoch : v.epoch ≤ w.epoch

theorem Beside.of_objects {v w : World} (objects : w.objects = v.objects) (names : w.names = v.names)
    (systems : w.systems = v.systems) (filterUsers : w.filterUsers = v.filterUsers) (epoch : v.epoch ≤ w.epoch) :
    Beside v w :=
  ⟨objects ▸ .refl _, names, systems, filterUsers, epoch⟩

theorem Beside.modify (v : World) (h : Handle) {f : Object → Object} (keeps : ∀ o, (f o).core = o.core) :
    Beside v { v with objects := v.objects.modify h f } :=
  ⟨.modify _ _ keeps, rfl, rfl, rfl, le_rfl⟩

/-! ## The fate of an object -/

/-- How far the destruction of an object has come, and what holds it. -/
def Object.fate (o : Object) : Bool × Bool × Bool × Nat :=
  (o.destroyCalled, o.duringDelete, o.deleted, o.holders)

/-- The marks of destruction fit together: what begins to be unlinked is unlinked, and then waits for a frame. -/
def Object.Orderly (o : Object) : Prop :=
  o.duringDelete = o.deleted ∧ (o.deleted = true → 0 < o.holders)

/-- An object goes on: its destroy method stays called, what is unlinked stays so, and the marks go on to fit together. -/
structure Object.Ages (o p : Object) : Prop where
  called : o.destroyCalled = true → p.destroyCalled = true
  deleted : o.deleted = true → p.deleted = true
  orderly : o.Orderly → p.Orderly

namespace Object.Ages

variable {o p q : Object}

theorem refl (o : Object) : o.Ages o :=
  ⟨id, id, id⟩

theorem trans (first : o.Ages p) (second : p.Ages q) : o.Ages q :=
  ⟨second.called ∘ first.called, second.deleted ∘ first.deleted, second.orderly ∘ first.orderly⟩

theorem of_fate (same : p.fate = o.fate) : o.Ages p := by
  simp only [fate, Prod.mk.injEq] at same
  obtain ⟨called, during, deleted, holders⟩ := same
  exact ⟨called.trans, deleted.trans, fun orderly => by rwa [Orderly, during, deleted, holders]⟩

/-- One more frame holds the object. -/
theorem held (o : Object) : o.Ages { o with holders := o.holders + 1 } :=
  ⟨id, id, fun orderly => ⟨orderly.1, fun _ => Nat.succ_pos _⟩⟩

/-- The destroy method is called. -/
theorem destroyCalled (o : Object) : o.Ages { o with destroyCalled := true } :=
  ⟨fun _ => rfl, id, id⟩

end Object.Ages

/-- Besides, nothing is registered but commands, and objects only go on. -/
structure Sober (v w : World) : Prop extends Beside v w where
  registry : ∀ path, w.registry.get? path = v.registry.get? path ∨
    ∃ r, w.registry.get? path = some r ∧ r.owner = none
  ages : ∀ h o p, v.objects.get? h = some o → w.objects.get? h = some p → o.Ages p

theorem Sober.of_objects {v w : World} (objects : w.objects = v.objects) (names : w.names = v.names)
    (systems : w.systems = v.systems) (filterUsers : w.filterUsers = v.filterUsers) (registry : w.registry = v.registry)
    (epoch : v.epoch ≤ w.epoch) : Sober v w := by
  refine ⟨.of_objects objects names systems filterUsers epoch, fun _ => .inl (registry ▸ rfl), fun h o p here there => ?_⟩
  rw [objects, here] at there
  cases there
  exact .refl o

theorem Sober.modify (v : World) (h : Handle) {f : Object → Object} (keeps : ∀ o, (f o).core = o.core)
    (ages : ∀ o, v.objects.get? h = some o → o.Ages (f o)) : Sober v { v with objects := v.objects.modify h f } := by
  refine ⟨.modify v h keeps, fun _ => .inl rfl, fun k o p here there => ?_⟩
  rw [Heap.get?_modify, here] at there
  split at there
  · next same =>
    cases there
    exact ages o (same ▸ here)
  · cases there
    exact .refl o

/-- Besides, what is known of methods stays dated. -/
structure Mindful (v w : World) : Prop extends Sober v w where
  dated : v.Dated → w.Dated

theorem Mindful.of_objects {v w : World} (objects : w.objects = v.objects) (names : w.names = v.names)
    (systems : w.systems = v.systems) (filterUsers : w.filterUsers = v.filterUsers) (registry : w.registry = v.registry)
    (aliasTargets : w.aliasTargets = v.aliasTargets) (epoch : v.epoch ≤ w.epoch) : Mindful v w :=
  ⟨.of_objects objects names systems filterUsers registry epoch,
    fun dated => dated.of_registry (fun _ _ found => registry ▸ found) aliasTargets epoch⟩

theorem Mindful.modify (v : World) (h : Handle) {f : Object → Object} (keeps : ∀ o, (f o).core = o.core)
    (ages : ∀ o, v.objects.get? h = some o → o.Ages (f o)) : Mindful v { v with objects := v.objects.modify h f } :=
  ⟨.modify v h keeps ages, fun dated => dated.of_registry (fun _ _ found => found) rfl le_rfl⟩

/-- Besides, the frames and the marks of open calls are the same. -/
structure Hushed (v w : World) : Prop extends Mindful v w where
  openCalls : Heap.Alike Object.openCalls v.objects w.objects
  stack : w.stack = v.stack
  guardDepth : w.guardDepth = v.guardDepth
  assertionDepth : w.assertionDepth = v.assertionDepth

theorem Hushed.of_objects {v w : World} (objects : w.objects = v.objects) (names : w.names = v.names)
    (systems : w.systems = v.systems) (filterUsers : w.filterUsers = v.filterUsers) (registry : w.registry = v.registry)
    (aliasTargets : w.aliasTargets = v.aliasTargets) (epoch : v.epoch ≤ w.epoch) (stack : w.stack = v.stack)
    (guardDepth : w.guardDepth = v.guardDepth) (assertionDepth : w.assertionDepth = v.assertionDepth) : Hushed v w :=
  ⟨.of_objects objects names systems filterUsers registry aliasTargets epoch, objects ▸ .refl _, stack, guardDepth,
    assertionDepth⟩

theorem Hushed.modify (v : World) (h : Handle) {f : Object → Object} (keeps : ∀ o, (f o).core = o.core)
    (marks : ∀ o, (f o).openCalls = o.openCalls) (ages : ∀ o : Object, o.Ages (f o)) :
    Hushed v { v with objects := v.objects.modify h f } :=
  ⟨.modify v h keeps fun o _ => ages o, .modify _ _ marks, rfl, rfl, rfl⟩

/-- An object without its orders, either. -/
def Object.bare (o : Object) : Object :=
  o.core.withoutPrecedence.withoutOrders

/-- An object that nothing belongs to: no methods, no instances and no subclasses. -/
structure Object.IsBlank (o : Object) : Prop where
  methods : o.methods = .empty
  classPart : ∀ part, o.classPart = some part → part.methods = .empty ∧ part.instances = .empty ∧ part.subs = []

/-- An object may leave where the heap is good but for orders and what is changed aside, or while nothing belongs to the
object. -/
inductive MayLeave (good : Objects → Prop) (objects : Objects) (h : Handle) : Prop where
  | settled {before : Objects} (here : good before) (alike : Heap.Alike Object.bare before objects)
  | blank {o : Object} (found : objects.get? h = some o) (blank : o.IsBlank)

/-- Which heaps are good, and whether care is taken that objects change their classes and go, and methods are removed,
where the heap is good. -/
structure Terms where
  good : Objects → Prop
  careful : Prop

/-- One deed in a world. New objects and filters are entered where the heap is good; which worlds pass for changed aside
is left open. Slots of unlinked objects are only reclaimed where it passes for that to hold an object. -/
inductive Deed (side : World → World → Prop) (terms : Terms) (v : World) : World → Prop where
  | aside {w : World} (beside : side v w) : Deed side terms v w
  | precedenceOrder (c : Handle) : Deed side terms v ((Update.precedenceOrder c).exec v).2
  | mixinOrder (h : Handle) : Deed side terms v ((Interception.mixinOrder h).exec v).2
  | filterOrder (h : Handle) : Deed side terms v ((Interception.filterOrder h).exec v).2
  | setSuperclasses (c : Handle) (supers : List Handle) :
      Deed side terms v ((Hierarchy.setSuperclasses c supers).exec v).2
  | changeClass (h cls : Handle) (permits : terms.careful → terms.good v.objects) :
      Deed side terms v ((Lifecycle.changeClass h cls).exec v).2
  | setMixins (reach : Reach) (on : Handle) (mixins : List Mixin) :
      Deed side terms v ((Interception.setMixins reach on mixins).exec v).2
  | setMixinGuard (reach : Reach) (on cls : Handle) (guard : Option Predicate) :
      Deed side terms v ((Interception.setMixinGuard reach on cls guard).exec v).2
  | setFilters (reach : Reach) (on : Handle) (filters : List Filter) (permits : terms.good v.objects) :
      Deed side terms v ((Interception.setFilters reach on filters).exec v).2
  | setFilterGuard (reach : Reach) (on : Handle) (name : String) (guard : Option Predicate) :
      Deed side terms v ((Interception.setFilterGuard reach on name guard).exec v).2
  | defineMethod (reach : Reach) (on : Handle) (method : Method) :
      Deed side terms v ((Definition.defineMethod reach on method).exec v).2
  | removeMethod (reach : Reach) (on : Handle) (name : String) (permits : terms.careful → terms.good v.objects) :
      Deed side terms v ((Definition.removeMethod reach on name).exec v).2
  | createSystem (root metaclass : String) (methods : SystemMethods) (permits : terms.good v.objects) :
      Deed side terms v ((Lifecycle.createSystem root metaclass methods).exec v).2
  | enroll {c : Object} (name : String) (cls : Handle) (permits : terms.good v.objects) (live : v.live? cls = some c)
      (isClass : c.isClass = true) (free : v.names.get? name = none)
      (plain : terms.careful → v.isMetaclass cls = false) :
      Deed side terms v ((Lifecycle.enroll (.ofClass name cls c.system)).exec v).2
  | enrollClass (name : String) (metaclass : Handle) (supers : List Handle) (permits : terms.good v.objects) :
      Deed side terms v ((Lifecycle.enrollClass name metaclass supers).exec v).2
  | unlink {o : Object} (h : Handle) (live : v.live? h = some o) (root : o.isRoot = false)
      (permits : terms.careful → MayLeave terms.good v.objects h) : Deed side terms v ((Lifecycle.unlink h).exec v).2
  | release {h : Handle} (dead : v.live? h = none)
      (holds : side v { v with objects := v.objects.modify h fun o => { o with holders := o.holders + 1 } }) :
      Deed side terms v { v with objects := v.objects.release h }

/-- One change of a world, without care. -/
abbrev Change (side : World → World → Prop) (good : Objects → Prop) : World → World → Prop :=
  Deed side ⟨good, False⟩

/-- What a world can become. -/
abbrev Evolves (good : Objects → Prop) : World → World → Prop :=
  Relation.ReflTransGen (Change Beside good)

/-- What a world can become on some terms. -/
abbrev Develops (terms : Terms) : World → World → Prop :=
  Relation.ReflTransGen (Deed Sober terms)

/-- What a world can become on some terms with what is known of methods staying dated. -/
abbrev Proceeds (terms : Terms) : World → World → Prop :=
  Relation.ReflTransGen (Deed Mindful terms)

/-- What a world can become on some terms with the marks of open calls left alone. -/
abbrev Calmly (terms : Terms) : World → World → Prop :=
  Relation.ReflTransGen (Deed Hushed terms)

/-- Whoever takes care can do without. -/
theorem Deed.mono {side more : World → World → Prop} {terms : Terms} {v w : World} (deed : Deed side terms v w)
    (includes : ∀ v w, side v w → more v w) {careful : Prop} (relaxes : careful → terms.careful) :
    Deed more ⟨terms.good, careful⟩ v w := by
  cases deed with
  | aside beside => exact .aside (includes v w beside)
  | precedenceOrder c => exact .precedenceOrder c
  | mixinOrder h => exact .mixinOrder h
  | filterOrder h => exact .filterOrder h
  | setSuperclasses c supers => exact .setSuperclasses c supers
  | changeClass h cls permits => exact .changeClass h cls fun care => permits (relaxes care)
  | setMixins reach on mixins => exact .setMixins reach on mixins
  | setMixinGuard reach on cls guard => exact .setMixinGuard reach on cls guard
  | setFilters reach on filters permits => exact .setFilters reach on filters permits
  | setFilterGuard reach on name guard => exact .setFilterGuard reach on name guard
  | defineMethod reach on method => exact .defineMethod reach on method
  | removeMethod reach on name permits => exact .removeMethod reach on name fun care => permits (relaxes care)
  | createSystem root metaclass methods permits => exact .createSystem root metaclass methods permits
  | enroll name cls permits live isClass free plain =>
    exact .enroll name cls permits live isClass free fun care => plain (relaxes care)
  | enrollClass name metaclass supers permits => exact .enrollClass name metaclass supers permits
  | unlink h live root permits => exact .unlink h live root fun care => permits (relaxes care)
  | release dead holds => exact .release dead (includes _ _ holds)

theorem Calmly.proceeds {terms : Terms} {v w : World} (path : Calmly terms v w) : Proceeds terms v w := by
  induction path with
  | refl => exact .refl
  | tail _ last ih => exact ih.tail (last.mono (fun _ _ hushed => hushed.toMindful) id)

theorem Proceeds.develops {terms : Terms} {v w : World} (path : Proceeds terms v w) : Develops terms v w := by
  induction path with
  | refl => exact .refl
  | tail _ last ih => exact ih.tail (last.mono (fun _ _ mindful => mindful.toSober) id)

theorem Develops.evolves {terms : Terms} {v w : World} (path : Develops terms v w) : Evolves terms.good v w := by
  induction path with
  | refl => exact .refl
  | tail _ last ih => exact ih.tail (last.mono (fun _ _ sober => sober.toBeside) False.elim)

theorem Proceeds.evolves {terms : Terms} {v w : World} (path : Proceeds terms v w) : Evolves terms.good v w :=
  Develops.evolves path.develops

/-! ## Asking for orders -/

section orders

variable {loose : Handle → Prop} {v w : World}

/-- Asking for precedence orders keeps more of them and changes nothing else. -/
theorem WellFormed.filled_of_consults (well : WellFormed loose v) (path : Relation.ReflTransGen Consults v w) :
    ∃ b, w = { v with objects := b } ∧ Filled v.objects b := by
  induction path with
  | refl => exact ⟨v.objects, rfl, .refl well.kept⟩
  | tail _ last ih =>
    obtain ⟨b, rfl, filled⟩ := ih
    obtain ⟨c, rfl⟩ := last
    have full : WellFormed loose { v with objects := b } := well.filled filled rfl rfl
    obtain ⟨b', after, more⟩ := full.filled_precedenceOrder c
    exact ⟨b', after, filled.trans more⟩

theorem WellFormed.filled_of_along {α : Type} {u : Update α} (well : WellFormed loose v)
    (along : u.Along Consults) : ∃ r b, u.exec v = (r, { v with objects := b }) ∧ Filled v.objects b := by
  obtain ⟨b, after, filled⟩ := well.filled_of_consults (along v)
  exact ⟨(u.exec v).1, b, Prod.ext rfl after, filled⟩

/-- What is asked for is kept already, or it is computed and kept. -/
theorem exec_mixinOrder (well : WellFormed loose v) (h : Handle) :
    (∃ r, (Interception.mixinOrder h).exec v = (r, v) ∧
        ∀ order, r = .ok order → ∃ o, v.live? h = some o ∧ o.mixinOrder = some order) ∨
      ∃ o r b, v.live? h = some o ∧ o.mixinOrder = none ∧
        (Interception.computeMixinOrder o.registrations.mixins o.cls).exec v = (r, { v with objects := b }) ∧
        Filled v.objects b ∧
        ((∃ e, r = .error e ∧ (Interception.mixinOrder h).exec v = (.error e, { v with objects := b })) ∨
          ∃ order, r = .ok order ∧ (Interception.mixinOrder h).exec v =
            (.ok order, { v with objects := b.modify h fun o => { o with mixinOrder := some order } })) := by
  unfold Interception.mixinOrder
  cases live : v.live? h with
  | none => exact .inl ⟨_, Update.exec_bind_of_error (Update.exec_object_of_dead live) _, nofun⟩
  | some o =>
    rw [Update.exec_bind_of_ok (Update.exec_object_of_live live)]
    cases kept : o.mixinOrder with
    | some order => exact .inl ⟨_, rfl, fun _ same => ⟨o, rfl, kept.trans (congrArg some (Except.ok.inj same))⟩⟩
    | none =>
      obtain ⟨r, b, done, filled⟩ :=
        well.filled_of_along (Consults.along_computeMixinOrder o.registrations.mixins o.cls)
      refine .inr ⟨o, r, b, rfl, kept, done, filled, ?_⟩
      cases r with
      | error e => exact .inl ⟨e, rfl, Update.exec_bind_of_error done _⟩
      | ok order =>
        obtain ⟨o', live', -⟩ := filled.identity.exists_live (w := { v with objects := b }) live
        refine .inr ⟨order, rfl, ?_⟩
        have stored := Update.exec_changeObject_of_live live' fun o => { o with mixinOrder := some order }
        exact (Update.exec_bind_of_ok done _).trans ((Update.exec_bind_of_ok stored _).trans rfl)

/-- Keeping a mixin or filter order shows in no link. -/
theorem WellFormed.modify_orders (well : WellFormed loose v) (h : Handle) (mixins : Object → Option (List Mixin))
    (filters : Object → Option (List FilterEntry)) : WellFormed loose { v with
      objects := v.objects.modify h fun o => { o with mixinOrder := mixins o, filterOrder := filters o } } :=
  well.of_alike (.modify _ _ fun _ => rfl) (.modify _ _ fun _ => rfl) rfl rfl

theorem WellFormed.mixinOrder (well : WellFormed loose v) (h : Handle) :
    WellFormed loose ((Interception.mixinOrder h).exec v).2 := by
  rcases exec_mixinOrder well h with ⟨r, kept, -⟩ | ⟨o, r, b, -, -, -, filled, ⟨e, -, done⟩ | ⟨order, -, done⟩⟩
  · rw [kept]
    exact well
  · rw [done]
    exact well.filled filled rfl rfl
  · have full : WellFormed loose { v with objects := b } := well.filled filled rfl rfl
    rw [done]
    exact full.modify_orders h (fun _ => some order) (·.filterOrder)

section views

variable {β : Type u} {view : Object → β} (precedence : ∀ o, view (Object.withoutPrecedence o) = view o)
  (mixins : ∀ (o : Object) order, view { o with mixinOrder := order } = view o)

include precedence mixins

/-- Asking for a mixin order shows in orders only. -/
theorem alike_mixinOrder (well : WellFormed loose v) (h : Handle) :
    ∃ b, ((Interception.mixinOrder h).exec v).2 = { v with objects := b } ∧ Heap.Alike view v.objects b := by
  rcases exec_mixinOrder well h with ⟨r, kept, -⟩ | ⟨o, r, b, -, -, -, filled, ⟨e, -, done⟩ | ⟨order, -, done⟩⟩
  · rw [kept]
    exact ⟨v.objects, rfl, .refl _⟩
  · rw [done]
    exact ⟨b, rfl, filled.alike.comp view fun o => (precedence o).symm⟩
  · rw [done]
    exact ⟨_, rfl, (filled.alike.comp view fun o => (precedence o).symm).trans (.modify b h fun o => mixins o _)⟩

end views

theorem Object.identity_withoutPrecedence (o : Object) : o.withoutPrecedence.identity = o.identity := by
  simp [identity, withoutPrecedence, isClass]

theorem identity_mixinOrder (well : WellFormed loose v) (h : Handle) :
    Heap.Alike Object.identity v.objects ((Interception.mixinOrder h).exec v).2.objects := by
  obtain ⟨b, done, alike⟩ := alike_mixinOrder Object.identity_withoutPrecedence (fun _ _ => rfl) well h
  rw [done]
  exact alike

theorem exec_filterOrder (well : WellFormed loose v) (h : Handle) :
    (∃ r, (Interception.filterOrder h).exec v = (r, v) ∧
        ∀ order, r = .ok order → ∃ o, v.live? h = some o ∧ o.filterOrder = some order) ∨
      ∃ o r u, v.live? h = some o ∧ o.filterOrder = none ∧ (Interception.mixinOrder h).exec v = (r, u) ∧
        ((∃ e, r = .error e ∧ (Interception.filterOrder h).exec v = (.error e, u)) ∨
          ∃ mixins s b, r = .ok mixins ∧
            (Interception.computeFilterOrder h (mixins.map (·.target))).exec u = (s, { u with objects := b }) ∧
            Filled u.objects b ∧
            ((∃ e, s = .error e ∧ (Interception.filterOrder h).exec v = (.error e, { u with objects := b })) ∨
              ∃ order, s = .ok order ∧ (Interception.filterOrder h).exec v =
                (.ok order, { u with objects := b.modify h fun o => { o with filterOrder := some order } }))) := by
  unfold Interception.filterOrder
  cases live : v.live? h with
  | none => exact .inl ⟨_, Update.exec_bind_of_error (Update.exec_object_of_dead live) _, nofun⟩
  | some o =>
    rw [Update.exec_bind_of_ok (Update.exec_object_of_live live)]
    cases kept : o.filterOrder with
    | some order => exact .inl ⟨_, rfl, fun _ same => ⟨o, rfl, kept.trans (congrArg some (Except.ok.inj same))⟩⟩
    | none =>
      have first := well.mixinOrder h
      rcases mixed : (Interception.mixinOrder h).exec v with ⟨r, u⟩
      rw [mixed] at first
      refine .inr ⟨o, r, u, rfl, kept, rfl, ?_⟩
      cases r with
      | error e => exact .inl ⟨e, rfl, Update.exec_bind_of_error mixed _⟩
      | ok mixins =>
        obtain ⟨s, b, done, filled⟩ :=
          first.filled_of_along (Consults.along_computeFilterOrder h (mixins.map (·.target)))
        refine .inr ⟨mixins, s, b, rfl, done, filled, ?_⟩
        cases s with
        | error e => exact .inl ⟨e, rfl, (Update.exec_bind_of_ok mixed _).trans (Update.exec_bind_of_error done _)⟩
        | ok order =>
          have same := identity_mixinOrder well h
          rw [mixed] at same
          have alike : Heap.Alike Object.identity v.objects b := same.trans filled.identity
          obtain ⟨o', live', -⟩ := alike.exists_live (w := { u with objects := b }) live
          have stored := Update.exec_changeObject_of_live live' fun o => { o with filterOrder := some order }
          refine .inr ⟨order, rfl, ?_⟩
          rw [Update.exec_bind_of_ok mixed]
          exact (Update.exec_bind_of_ok done _).trans ((Update.exec_bind_of_ok stored _).trans rfl)

/-- Asking for a filter order shows in orders only. -/
theorem alike_filterOrder {β : Type u} {view : Object → β}
    (precedence : ∀ o, view (Object.withoutPrecedence o) = view o)
    (mixins : ∀ (o : Object) order, view { o with mixinOrder := order } = view o)
    (filters : ∀ (o : Object) order, view { o with filterOrder := order } = view o) (well : WellFormed loose v)
    (h : Handle) : ∃ b, ((Interception.filterOrder h).exec v).2 = { v with objects := b } ∧
      Heap.Alike view v.objects b := by
  rcases exec_filterOrder well h with ⟨r, kept, -⟩ | ⟨o, r, u, -, -, mixed, rest⟩
  · rw [kept]
    exact ⟨v.objects, rfl, .refl _⟩
  obtain ⟨a, is, first⟩ := alike_mixinOrder precedence mixins well h
  rw [mixed] at is
  cases is
  rcases rest with ⟨e, -, done⟩ | ⟨mixed, s, b, -, -, filled, ⟨e, -, done⟩ | ⟨order, -, done⟩⟩
  · rw [done]
    exact ⟨a, rfl, first⟩
  · rw [done]
    exact ⟨b, rfl, first.trans (filled.alike.comp view fun o => (precedence o).symm)⟩
  · rw [done]
    exact ⟨_, rfl, (first.trans (filled.alike.comp view fun o => (precedence o).symm)).trans
      (.modify b h fun o => filters o _)⟩

theorem WellFormed.filterOrder (well : WellFormed loose v) (h : Handle) :
    WellFormed loose ((Interception.filterOrder h).exec v).2 := by
  rcases exec_filterOrder well h with ⟨r, kept, -⟩ | ⟨o, r, u, -, -, mixed, rest⟩
  · rw [kept]
    exact well
  · have first := well.mixinOrder h
    rw [mixed] at first
    rcases rest with ⟨e, -, done⟩ | ⟨mixins, s, b, -, -, filled, ⟨e, -, done⟩ | ⟨order, -, done⟩⟩
    · rw [done]
      exact first
    · rw [done]
      exact first.filled filled rfl rfl
    · have full : WellFormed loose { u with objects := b } := first.filled filled rfl rfl
      rw [done]
      exact full.modify_orders h (·.mixinOrder) (fun _ => some order)

end orders

/-! ## What every change keeps -/

section changes

variable {loose : Handle → Prop} {v w : World} {good : Objects → Prop}
  (remain : ∀ a, good a → a.HandlesRemain)

theorem Object.links_core (o : Object) : o.links = o.core.links := by
  refine Prod.ext ?_ (Prod.ext ?_ (funext fun reach => ?_))
  · simp [links, ancestry, core, identity, isClass, Function.comp_def]
  · simp [links, membership, core, identity, isClass, Function.comp_def]
  · cases reach <;> simp [links, mixing, registrations?, core, identity, isClass, Function.comp_def, ClassPart.users]

theorem Object.precedence_core (o : Object) : o.precedence = o.core.precedence := by
  simp [precedence, core, Function.comp_def]

/-- What is changed aside shows in no link. -/
theorem WellFormed.beside (well : WellFormed loose v) (beside : Beside v w) : WellFormed loose w :=
  well.of_alike (beside.core.comp _ Object.links_core) (beside.core.comp _ Object.precedence_core) beside.names
    beside.systems

include remain in
/-- Every change keeps a world well-formed. -/
theorem WellFormed.change (well : WellFormed loose v) (change : Change Beside good v w) : WellFormed loose w := by
  cases change with
  | aside beside => exact well.beside beside
  | precedenceOrder c => exact well.precedenceOrder c
  | mixinOrder h => exact well.mixinOrder h
  | filterOrder h => exact well.filterOrder h
  | setSuperclasses c supers => exact (well.setSuperclasses c supers).1
  | changeClass h cls => exact well.changeClass h cls
  | setMixins reach on mixins => exact well.setMixins reach on mixins
  | setMixinGuard reach on cls guard => exact well.setMixinGuard reach on cls guard
  | setFilters reach on filters => exact well.setFilters reach on filters
  | setFilterGuard reach on name guard => exact well.setFilterGuard reach on name guard
  | defineMethod reach on method => exact well.defineMethod reach on method
  | removeMethod reach on name => exact well.removeMethod reach on name
  | createSystem root metaclass methods permits => exact well.createSystem (remain _ permits) root metaclass methods
  | @enroll c name cls permits live isClass free =>
    have listed := World.isClass_iff.2 ⟨c, _, live, Option.some_get isClass |>.symm⟩
    obtain ⟨h, a, -, -, done, kept⟩ := well.exec_enroll (remain _ permits).hasRoom
      (Object.unlinked_ofClass name cls c.system) listed free (well.rooted.system cls c live) rfl
    rw [done]
    exact kept.mono fun k either => either.resolve_right fun new => Bool.false_ne_true new.2
  | enrollClass name metaclass supers permits => exact well.enrollClass (remain _ permits).hasRoom name metaclass supers
  | unlink h live root => exact well.unlink live root
  | release dead => exact well.release dead

include remain in
theorem WellFormed.evolves (well : WellFormed loose v) (path : Evolves good v w) : WellFormed loose w := by
  induction path with
  | refl => exact well
  | tail _ last ih => exact ih.change remain last

end changes

end DynamicObjects
