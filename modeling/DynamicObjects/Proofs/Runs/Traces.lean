import DynamicObjects.Proofs.Interception.Distinctness
import DynamicObjects.Proofs.Runs.Coherence
import DynamicObjects.Proofs.Runs.Farewells
import DynamicObjects.Proofs.Structure.Clearance

/-!
# Destruction leaves no trace

Whatever mentions an object in a reachable world, by its links, in the orders that are kept for it or in a table, only
does so while the object is live. So an object that is destroyed is not mentioned any more, and where its destroy method
does nothing, only those that mentioned it and the root classes have changed.
-/
namespace DynamicObjects

variable {loose tight : Handle → Prop} {names : String → Prop} {v w : World} {h k : Handle} {o p : Object}

/-! ## Definers of kept filter orders -/

/-- Whatever class defines an entry of a filter order that is kept on a live object is drawn on by the object. -/
def DefinersDrawn (w : World) : Prop :=
  ∀ h o order, w.live? h = some o → o.filterOrder = some order →
    ∀ e ∈ order, ∀ c, e.definer = some c → w.Draws h c

theorem World.Draws.of_reaches {s c : Handle} (draws : w.Draws h s)
    (path : Hierarchy.Reaches w.objects.supersOf s c) : w.Draws h c := by
  induction path with
  | refl => exact draws
  | tail _ link ih => exact ih.tail (List.mem_append_left _ link)

namespace DefinersDrawn

theorem of_leaves (drawn : DefinersDrawn v) (leaves : Leaves names v w) : DefinersDrawn w := by
  intro h p order live kept e member c definer
  obtain ⟨o, untouched, same⟩ := leaves h p live fun blank => by
    have without : p.filterOrder = none := congrArg Prod.snd blank
    rw [kept] at without
    cases without
  have before : o.filterOrder = some order := (congrArg Prod.snd same).symm.trans kept
  exact untouched.draws (drawn h o order untouched.before before e member c definer)

/-- Nothing has happened but that orders have been computed and kept. -/
theorem of_setting (setting : Heap.Alike Object.setting v.objects w.objects)
    (each : ∀ h o p order, v.live? h = some o → w.objects.get? h = some p → p.filterOrder = some order →
      ∀ e ∈ order, ∀ c, e.definer = some c → v.Draws h c) : DefinersDrawn w := by
  intro h p order live kept e member c definer
  obtain ⟨o, untouched⟩ := Untouched.of_setting setting live
  exact untouched.draws
    (each h o p order untouched.before (World.live?_eq_some_iff.1 live).1 kept e member c definer)

theorem mixinOrder (drawn : DefinersDrawn v) (well : WellFormed loose v) (h : Handle) :
    DefinersDrawn ((Interception.mixinOrder h).exec v).2 := by
  obtain ⟨b, done, alike⟩ := @alike_mixinOrder _ _ _ (fun o => (o.setting, o.filterOrder))
    (fun o => by rw [Object.setting_withoutPrecedence]; rfl) (fun _ _ => rfl) well h
  rw [done]
  refine .of_setting (alike.comp Prod.fst fun _ => rfl) fun k q p order before found keeps => ?_
  have same := alike.view k
  change b.get? k = some p at found
  rw [found, (World.live?_eq_some_iff.1 before).1] at same
  exact drawn k q order before ((congrArg Prod.snd (Option.some.inj same)).symm.trans keeps)

/-- A filter order is computed from the mixin order and the class of an object, which it draws on. -/
theorem filterOrder (drawn : DefinersDrawn v) (current : MixinOrdersCurrent v) (well : WellFormed loose v)
    (h : Handle) : DefinersDrawn ((Interception.filterOrder h).exec v).2 := by
  rcases exec_filterOrder well h with ⟨r, kept, -⟩ | ⟨o, r, u, -, -, mixed, rest⟩
  · rw [kept]
    exact drawn
  have wellMid := well.mixinOrder h
  have mid := drawn.mixinOrder well h
  have midMixins := current.mixinOrder well h
  rw [mixed] at wellMid mid midMixins
  rcases rest with ⟨e, -, done⟩ | ⟨mixins, s, b, rfl, computed, filled, ⟨e, -, done⟩ | ⟨order, rfl, done⟩⟩
  · rw [done]
    exact mid
  · rw [done]
    exact mid.of_leaves (@Leaves.of_filled (fun _ => True) _ _ filled)
  rw [done]
  refine .of_setting (filled.setting.trans (.modify _ _ fun _ => rfl)) fun k q p order' before found kept => ?_
  rw [Heap.get?_modify] at found
  by_cases here : k = h
  · subst here
    rw [if_pos rfl] at found
    obtain ⟨x, -, rfl⟩ := Option.map_eq_some_iff.1 found
    cases kept
    obtain ⟨y, live, keeps⟩ := FilterOrdersCurrent.kept_of_mixinOrder well mixed
    obtain ⟨a, -, -, mixedIn⟩ := wellMid.exec_computeMixinOrder_of_ok live (midMixins k y mixins live keeps)
    intro e member c definer
    have stems := (Interception.spec_of_computeFilterOrder wellMid live computed).2 e member
    obtain ⟨s, start, path⟩ := stems.above c definer
    exact (start.elim (mixedIn s) fun same => same ▸ World.draws_cls live).of_reaches path
  · rw [if_neg here] at found
    obtain ⟨x, there, looks⟩ := filled.alike.symm.exists_of_get? found
    rw [(World.live?_eq_some_iff.1 before).1] at there
    cases there
    have orders : q.filterOrder = p.filterOrder := (congrArg Object.filterOrder looks :)
    exact mid k q order' before (orders.trans kept)

section changes

variable {good : Objects → Prop} (remain : ∀ a, good a → a.HandlesRemain)

include remain

theorem change (drawn : DefinersDrawn v) (mixins : MixinOrdersCurrent v) (well : WellFormed loose v)
    (change : Change Beside good v w) : DefinersDrawn w := by
  cases well.ordersAfter remain change with
  | leaves leaves => exact drawn.of_leaves leaves
  | mixinOrder h => exact drawn.mixinOrder well h
  | filterOrder h => exact drawn.filterOrder mixins well h
  | defineMethod reach on method =>
    exact drawn.of_leaves (@Leaves.defineMethod (fun _ => False) _ reach on method id)
  | removeMethod reach on name =>
    exact drawn.of_leaves (@Leaves.removeMethod (fun _ => False) _ reach on name id)

theorem evolves (drawn : DefinersDrawn v) (mixins : MixinOrdersCurrent v) (well : WellFormed loose v)
    (path : Evolves good v w) : DefinersDrawn w := by
  induction path with
  | refl => exact drawn
  | tail path last ih => exact ih.change remain (mixins.evolves remain well path) (well.evolves remain path) last

end changes

end DefinersDrawn

/-! ## No trace -/

/-- The orders that are kept for an object, or for the class that it is, mention the object `h`. -/
inductive Object.OrdersMention (o : Object) (h : Handle) : Prop where
  | mixins {order : List Mixin} (kept : o.mixinOrder = some order) (listed : h ∈ order.map (·.target)) :
      o.OrdersMention h
  | filters {order : List FilterEntry} {e : FilterEntry} (kept : o.filterOrder = some order) (listed : e ∈ order)
      (definer : e.definer = some h) : o.OrdersMention h
  | precedence {part : ClassPart} {order : List Handle} (isPart : o.classPart = some part)
      (kept : part.order = some order) (listed : h ∈ order) : o.OrdersMention h

/-- The object `h` is gone, and nothing mentions it. -/
structure World.Traceless (w : World) (h : Handle) : Prop where
  dead : w.live? h = none
  links : ∀ k p, w.live? k = some p → ¬p.Mentions h
  orders : ∀ k p, w.live? k = some p → ¬p.OrdersMention h
  names : ∀ name, w.names.get? name ≠ some h
  filterUsers : ∀ name, h ∉ w.usersOfFilter name
  registry : ∀ path r, w.registry.get? path = some r → r.owner ≠ some h

/-- Orders are kept and users are tracked for what is live only. -/
structure Upkept (w : World) : Prop where
  mixins : MixinOrdersCurrent w
  definers : DefinersDrawn w
  users : UsersRegister w

theorem Upkept.evolves {good : Objects → Prop} (remain : ∀ a, good a → a.HandlesRemain) (upkept : Upkept v)
    (well : WellFormed loose v) (path : Evolves good v w) : Upkept w :=
  ⟨upkept.mixins.evolves remain well path, upkept.definers.evolves remain upkept.mixins well path,
    upkept.users.evolves remain well path⟩

theorem upkept_start (settings : Settings) : Upkept { settings } where
  mixins := fun h o order live => by cases live
  definers := fun h o order live => by cases live
  users := fun user name listed => by cases listed

/-- Classes that the orders of a live object mention are live. -/
theorem WellFormed.isClass_of_ordersMention (well : WellFormed loose w) (upkept : Upkept w) (live : w.live? k = some p)
    (mentions : p.OrdersMention h) : w.isClass h = true := by
  cases mentions with
  | mixins kept listed =>
    obtain ⟨a, -, -, drawn⟩ := well.exec_computeMixinOrder_of_ok live (upkept.mixins k p _ live kept)
    exact well.isClass_of_draws (drawn h listed)
  | filters kept listed definer => exact well.isClass_of_draws (upkept.definers k p _ live kept _ listed h definer)
  | @precedence part order isPart kept listed =>
    have cached : w.objects.cachedOrder? k = some order := by
      rw [Heap.cachedOrder?, Heap.class?, (World.live?_eq_some_iff.1 live).1, Option.bind_some, isPart]
      exact kept
    exact well.isClass_of_reaches (World.isClass_iff.2 ⟨p, part, live, isPart⟩)
      ((well.kept.linearizes k order cached).mem_iff.1 listed)

theorem WellFormed.traceless (well : WellFormed loose w) (upkept : Upkept w) (dead : w.live? h = none)
    (registry : ∀ path r, w.registry.get? path = some r → r.owner ≠ some h) : w.Traceless h where
  dead := dead
  links := fun k p live mentions => by
    obtain ⟨o, there, -⟩ := well.mentions_symm live mentions
    exact nomatch dead.symm.trans there
  orders := fun k p live mentions => by
    obtain ⟨o, -, there, -⟩ := World.isClass_iff.1 (well.isClass_of_ordersMention upkept live mentions)
    exact nomatch dead.symm.trans there
  names := (well.without dead).unnamed
  filterUsers := fun name listed => by
    obtain ⟨reach, registered⟩ := upkept.users h name listed
    rw [World.filterNames, dead] at registered
    cases registered
  registry := registry

/-! ## Destroy methods that do nothing -/

/-- The world once `h` is marked as an object whose destroy method has been called. -/
def World.calling (w : World) (h : Handle) : World :=
  { w with objects := w.objects.modify h fun o => { o with destroyCalled := true } }

theorem World.live?_calling (live : w.live? h = some o) :
    (w.calling h).live? h = some { o with destroyCalled := true } := by
  obtain ⟨found, alive⟩ := World.live?_eq_some_iff.1 live
  refine World.live?_eq_some_iff.2 ⟨?_, alive⟩
  rw [World.calling, Heap.get?_modify, if_pos rfl, found]
  rfl

/-- Calling the destroy method of `h` does nothing: it succeeds, and but for the mark on `h` and for orders that are
kept, all objects and systems are as before. -/
def World.DestroysIdly (w : World) (host : Host) (h : Handle) : Prop :=
  ∃ u, (Lifecycle.callDestroy host h).exec w = some (.ok (.ok ⟨⟩), u) ∧ u.systems = w.systems ∧
    Heap.Alike Object.unordered (w.calling h).objects u.objects

/-- Looking for a method at most keeps orders. -/
theorem alike_implements (well : WellFormed loose w) (h : Handle) (name : String) :
    ((Lifecycle.implements h name).exec w).2.systems = w.systems ∧
      Heap.Alike Object.unordered w.objects ((Lifecycle.implements h name).exec w).2.objects := by
  obtain ⟨b, asked, alike⟩ := alike_mixinOrder Object.unordered_withoutPrecedence (fun _ _ => rfl) well h
  have wellMid := well.mixinOrder h
  unfold Lifecycle.implements
  rw [Update.exec_bind]
  rcases mixed : (Interception.mixinOrder h).exec w with ⟨_ | mixins, u⟩ <;> rw [mixed] at asked wellMid
  · cases asked
    exact ⟨rfl, alike⟩
  · cases asked
    dsimp only
    rw [Update.exec_bind_of_ok (Update.exec_get _), Update.exec_ite]
    split
    · exact ⟨rfl, alike⟩
    · obtain ⟨r, c, searched, filled⟩ := wellMid.filled_of_along (Consults.along_searchObject h name)
      have more : Heap.Alike Object.unordered b c :=
        filled.alike.comp Object.unordered fun o => o.unordered_withoutPrecedence.symm
      rw [Update.exec_bind, searched]
      cases r <;> exact ⟨rfl, alike.trans more⟩

/-- An object without an implementation of the destroy method of its system is destroyed idly. -/
theorem WellFormed.destroysIdly_of_lacks (well : WellFormed loose w) (live : w.live? h = some o) {s : ObjectSystem}
    (listed : w.systems[o.system]? = some s)
    (lacks : ∀ name, s.methods.destroy = some name → ((Lifecycle.implements h name).exec (w.calling h)).1 = .ok false)
    (host : Host) : w.DestroysIdly host h := by
  have well' : WellFormed loose (w.calling h) :=
    well.of_alike (.modify _ _ fun _ => rfl) (.modify _ _ fun _ => rfl) rfl rfl
  have marking := Update.exec_changeObject_of_live live fun o => { o with destroyCalled := true }
  have looking := Update.exec_systemOf_of_live (World.live?_calling live) listed
  unfold World.DestroysIdly Lifecycle.callDestroy
  rw [Action.exec_liftM_bind_of_ok marking]
  change ∃ u, Action.exec _ (w.calling h) = _ ∧ _
  rw [Action.exec_liftM_bind_of_ok looking]
  cases method : s.methods.destroy with
  | none => exact ⟨w.calling h, rfl, rfl, .refl _⟩
  | some name =>
    have looked : (Lifecycle.implements h name).exec (w.calling h) =
      (.ok false, ((Lifecycle.implements h name).exec (w.calling h)).2) := Prod.ext (lacks name method) rfl
    obtain ⟨same, alike⟩ := alike_implements well' h name
    exact ⟨_, Action.exec_liftM_bind_of_ok looked _, same, alike⟩

/-! ## Destruction -/

/-- What is left of an object is told as well from the world in which its destroy method was called. -/
theorem Cleared.of_idle {q : Object} {s : ObjectSystem} {u : World} (cleared : Cleared h q s u v)
    (systems : u.systems = w.systems) (live : w.live? h = some o) (there : u.objects.get? h = some q)
    (alike : Heap.Alike Object.unordered (w.calling h).objects u.objects) : Cleared h o s w v := by
  have marked : Heap.Alike Object.ancestry w.objects (w.calling h).objects := .modify w.objects h fun _ => rfl
  have blind : ∀ o : Object, o.ancestry = o.unordered.ancestry := fun o => by
    simp [Object.ancestry, Object.identity, Object.isClass, Object.unordered, Object.withoutPrecedence,
      Function.comp_def]
  have ancestry : Heap.Alike Object.ancestry w.objects u.objects := marked.trans (alike.comp Object.ancestry blind)
  have elsewhere : ∀ k, k ≠ h → (u.objects.get? k).map Object.unordered = (w.objects.get? k).map Object.unordered := by
    intro k other
    rw [alike.view, World.calling, Heap.get?_modify, if_neg other]
  refine ⟨cleared.gone, fun free => cleared.reclaimed ?_, cleared.registry, fun k p other found same => ?_,
    fun c link => ?_, fun k other noRoot noMetaclass unmentioned => ?_⟩
  · have here := alike.view h
    rw [there, (World.live?_eq_some_iff.1 (World.live?_calling live)).1] at here
    exact (congrArg Object.holders (Option.some.inj here) :).trans free
  · obtain ⟨resolves, alive⟩ := World.live?_eq_some_iff.1 found
    have here := elsewhere k other
    rw [resolves] at here
    obtain ⟨r, after, looks⟩ := Option.map_eq_some_iff.1 here
    have deleted : r.deleted = p.deleted := (congrArg Object.deleted looks :)
    have cls : r.cls = p.cls := (congrArg Object.cls looks :)
    rw [← ancestry.isMetaclass_of_ancestry systems]
    exact cleared.instances k r other (World.live?_eq_some_iff.2 ⟨after, deleted.trans alive⟩) (cls.trans same)
  · rw [← ancestry.supersOf_of_ancestry] at link ⊢
    exact cleared.subclasses c link
  · rw [cleared.others k other noRoot noMetaclass fun r found mentions => ?_, elsewhere k other]
    have here := elsewhere k other
    rw [found] at here
    obtain ⟨p, before, looks⟩ := Option.map_eq_some_iff.1 here.symm
    exact unmentioned p before (Object.mentions_unordered.1 (looks ▸ Object.mentions_unordered.2 mentions))

/-- An object whose destroy method does nothing, or has been called already, is unlinked at once. -/
theorem exec_destroy_of_idle {good : Objects → Prop} {host : Host} (faithful : Faithful ⟨good, False⟩ host)
    (proper : Proper w) (live : w.live? h = some o) (root : o.isRoot = false) (present : o.duringDelete = false)
    (idle : o.destroyCalled = false → w.DestroysIdly host h) :
    ∃ u, (Lifecycle.destroy host h).exec w = (Lifecycle.finishDestroying h (.ok ⟨⟩)).exec u ∧ Proper u ∧
      u.systems = w.systems ∧ Heap.Alike Object.unordered (w.calling h).objects u.objects := by
  have starts := exec_destroy_of_live live root present host
  cases called : o.destroyCalled with
  | true =>
    have same : (w.calling h).objects = w.objects := Heap.modify_eq_self _ _ fun p found => by
      rw [(World.live?_eq_some_iff.1 live).1] at found
      cases found
      rw [← called]
    simp only [called, if_true] at starts
    exact ⟨w, starts, proper, rfl, same ▸ .refl _⟩
  | false =>
    simp only [called, Bool.false_eq_true, if_false] at starts
    obtain ⟨u, done, systems, alike⟩ := idle called
    obtain ⟨-, -, path⟩ := Lifecycle.develops_callDestroy faithful proper live done
    exact ⟨u, starts.trans (Action.exec_bind_of_ok done _), proper.evolves faithful.remain path.evolves, systems, alike⟩

/-- The class `Mid` has a superclass, a subclass, an instance that keeps a filter order, and an object mixes it in. -/
def entangledSession : List Expr :=
  [.createSystem (Trial.text "Object") (Trial.text "Class") { destroy := some (Trial.text "destroy") },
    Trial.createClass "Base", Trial.createSubclass "Mid" ["Base"], Trial.createSubclass "Leaf" ["Mid"],
    Trial.define .instances "Mid" (Trial.method "f" (.next none)), Trial.addFilter .instances "Mid" "f",
    Trial.createObject "o" "Mid", Trial.createObject "p" "Base", Trial.addMixin .object "p" "Mid",
    Trial.filterOrder "o", Trial.mixinOrder "p"]

def entangledWorld : World :=
  (sessionWithin Heap.HandlesRemain 3 entangledSession).get (by decide +kernel)

theorem reachable_entangledWorld : Reachable Heap.HandlesRemain entangledWorld :=
  .sessionWithin (Option.some_get _).symm

/-- A live object that is no root and whose destroy method does nothing can be destroyed. Afterwards nothing mentions
it; its instances and its subclasses are left to the root classes as far as need be; and of all other objects only
those have changed that mentioned it, the root classes and kept orders apart. -/
theorem Reachable.leavesNoTrace (reached : Reachable Heap.HandlesRemain w) (live : w.live? h = some o)
    (root : o.isRoot = false) {s : ObjectSystem} (listed : w.systems[o.system]? = some s) (depth : Nat)
    (idle : o.destroyCalled = false → w.DestroysIdly (hostWithin Heap.HandlesRemain depth) h) :
    ∃ v, (Lifecycle.destroy (hostWithin Heap.HandlesRemain depth) h).exec w = some (.ok ⟨⟩, v) ∧ v.Traceless h ∧
      Cleared h o s w v := by
  have remain : ∀ a : Objects, a.HandlesRemain → a.HandlesRemain := fun _ remain => remain
  have proper := reached.proper remain
  have faithful := faithful_hostWithin remain depth
  obtain ⟨found, alive⟩ := World.live?_eq_some_iff.1 live
  have present := ((reached.orderly remain).1 h o found).1.trans alive
  obtain ⟨u, starts, proper', systems, alike⟩ := exec_destroy_of_idle faithful proper live root present idle
  obtain ⟨q, there, looks⟩ := alike.exists_of_get? (World.live?_eq_some_iff.1 (World.live?_calling live)).1
  have deleted : q.deleted = false := (congrArg Object.deleted looks :).trans alive
  have during : q.duringDelete = false := (congrArg Object.duringDelete looks :).trans present
  have isRoot : q.isRoot = false := (congrArg Object.isRoot looks :).trans root
  have system : q.system = o.system := (congrArg Object.system looks :)
  obtain ⟨v, unlinked, cleared⟩ := WellFormed.cleared_unlink proper' (World.live?_eq_some_iff.2 ⟨there, deleted⟩) isRoot
    (s := s) (by rw [systems, system, listed])
  have gone : Lifecycle.isGone u h = false := by rw [Lifecycle.isGone, there, Option.all_some, during, deleted]; rfl
  have done : (Lifecycle.destroy (hostWithin Heap.HandlesRemain depth) h).exec w = some (.ok ⟨⟩, v) := by
    rw [starts]
    unfold Lifecycle.finishDestroying
    rw [Action.exec_bind_of_ok (Action.exec_get u)]
    simp only [gone, Bool.false_eq_true, if_false]
    rw [Action.exec_liftM_bind_of_ok unlinked]
    rfl
  have path := ((Lifecycle.steady_destroy h w trivial faithful w proper rfl).2 _ v done).1.evolves
  obtain ⟨settings, history⟩ := reached.evolves remain
  have upkept : Upkept v := (upkept_start settings).evolves remain (proper_start settings) (history.trans path)
  exact ⟨v, done, (proper.evolves remain path).traceless upkept cleared.gone cleared.registry,
    cleared.of_idle systems live there alike⟩

/-- The class `Mid`, which does not implement `destroy`, is destroyed without a trace. -/
theorem leavesNoTrace_mid : ⟨5, 0⟩ ∈ entangledWorld.instancesOf ⟨3, 0⟩ ∧ ⟨3, 0⟩ ∈ entangledWorld.usersOfFilter "f" ∧
    ∃ o s v, entangledWorld.live? ⟨3, 0⟩ = some o ∧ entangledWorld.systems[o.system]? = some s ∧
      (Lifecycle.destroy (hostWithin Heap.HandlesRemain 8) ⟨3, 0⟩).exec entangledWorld = some (.ok ⟨⟩, v) ∧
      v.Traceless ⟨3, 0⟩ ∧ Cleared ⟨3, 0⟩ o s entangledWorld v := by
  have present : (entangledWorld.live? ⟨3, 0⟩).isSome = true := by decide +kernel
  have root : entangledWorld.isRoot ⟨3, 0⟩ = false := by decide +kernel
  have known : ((entangledWorld.live? ⟨3, 0⟩).bind fun o => entangledWorld.systems[o.system]?).map (·.methods.destroy) =
      some (some "destroy") := by
    decide +kernel
  have asked : ((Lifecycle.implements ⟨3, 0⟩ "destroy").exec (entangledWorld.calling ⟨3, 0⟩)).1.toOption =
      some false := by
    decide +kernel
  obtain ⟨o, live⟩ := Option.isSome_iff_exists.1 present
  rw [World.isRoot, live] at root
  rw [live] at known
  obtain ⟨s, listed, method⟩ := Option.map_eq_some_iff.1 known
  have lacks : ∀ name, s.methods.destroy = some name →
      ((Lifecycle.implements ⟨3, 0⟩ name).exec (entangledWorld.calling ⟨3, 0⟩)).1 = .ok false := by
    intro name same
    cases method.symm.trans same
    cases answer : ((Lifecycle.implements ⟨3, 0⟩ "destroy").exec (entangledWorld.calling ⟨3, 0⟩)).1 with
    | error e =>
      rw [answer] at asked
      cases asked
    | ok found =>
      rw [answer] at asked
      cases asked
      rfl
  have proper := reachable_entangledWorld.proper fun _ remain => remain
  obtain ⟨v, done, traceless, cleared⟩ := Reachable.leavesNoTrace reachable_entangledWorld live root listed 8
    fun _ => WellFormed.destroysIdly_of_lacks proper live listed lacks (hostWithin Heap.HandlesRemain 8)
  exact ⟨by decide +kernel, by decide +kernel, o, s, v, live, listed, done, traceless, cleared⟩

end DynamicObjects
