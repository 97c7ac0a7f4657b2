import DynamicObjects.Proofs.Runs.Coherence

/-!
# Refused superclasses

Where a list of superclasses is refused, no superclass link changes, and every order that is asked for afterwards is the
one that would have been given before. The order of the subclasses stays, too, unless the list closed a cycle: then the
class has moved behind the other subclasses of its superclasses.
-/
namespace DynamicObjects

variable {loose tight : Handle → Prop} {v w : World} {h : Handle} {o p : Object}

/-! ## Orders that are given -/

/-- What is no class is told to be none, by its name if it is live. -/
theorem exec_precedenceOrder_of_other {c : Handle} (other : w.isClass c = false) : (Update.precedenceOrder c).exec w =
    (.error ((w.live? c).elim (.destroyed c.text) fun o => .structural (.notClass o.name)), w) := by
  unfold Update.precedenceOrder Update.classPart
  cases live : w.live? c with
  | none => exact Update.exec_bind_of_error (Update.exec_bind_of_error (Update.exec_object_of_dead live) _) _
  | some o =>
    have none : o.classPart = none := by
      rw [World.isClass, live] at other
      exact Option.isNone_iff_eq_none.1 (Option.isSome_eq_false_iff.1 other)
    refine Update.exec_bind_of_error ?_ _
    rw [Update.exec_bind_of_ok (Update.exec_object_of_live live), none]
    rfl

/-- The precedence order that is given depends on the superclass links only. -/
theorem fst_precedenceOrder (before : WellFormed loose v) (after : WellFormed tight w)
    (identity : Heap.Alike Object.identity v.objects w.objects) (supers : w.objects.supersOf = v.objects.supersOf)
    (c : Handle) : ((Update.precedenceOrder c).exec w).1 = ((Update.precedenceOrder c).exec v).1 := by
  have isClass : w.isClass c = v.isClass c := identity.isClass
  cases cls : v.isClass c with
  | true =>
    obtain ⟨order, a, one, lin, -⟩ := before.exec_precedenceOrder cls
    obtain ⟨order', b, two, lin', -⟩ := after.exec_precedenceOrder (isClass.trans cls)
    rw [supers] at lin'
    rw [one, two, lin.unique lin']
  | false =>
    have same := congrArg
      (fun found => found.elim (.destroyed c.text) fun i : Identity => Failure.structural (.notClass i.name))
      (identity.live?_identity (h := c))
    simp only [Option.elim_map] at same
    rw [exec_precedenceOrder_of_other cls, exec_precedenceOrder_of_other (isClass.trans cls)]
    exact congrArg Except.error same

theorem exec_mixinOrder_of_kept (live : v.live? h = some o) {order : List Mixin} (kept : o.mixinOrder = some order) :
    (Interception.mixinOrder h).exec v = (.ok order, v) := by
  unfold Interception.mixinOrder
  rw [Update.exec_bind_of_ok (Update.exec_object_of_live live), kept]
  rfl

theorem exec_filterOrder_of_kept (live : v.live? h = some o) {order : List FilterEntry}
    (kept : o.filterOrder = some order) : (Interception.filterOrder h).exec v = (.ok order, v) := by
  unfold Interception.filterOrder
  rw [Update.exec_bind_of_ok (Update.exec_object_of_live live), kept]
  rfl

/-- Where an update ends well, so does keeping what it comes to at a live object. -/
theorem fst_keep {α : Type} {u : Update α} {a : α} {b : Objects} (done : u.exec v = (.ok a, { v with objects := b }))
    (live : World.live? { v with objects := b } h = some o) (keep : α → Object → Object) : ((do
      let a ← u
      Update.changeObject h (keep a)
      return a : Update α).exec v).1 = .ok a := by
  rw [Update.exec_bind_of_ok done, Update.exec_bind_of_ok (Update.exec_changeObject_of_live live _)]
  rfl

/-- A mixin order that is not kept yet is computed. -/
theorem WellFormed.fst_mixinOrder_of_unkept (well : WellFormed loose v) (live : v.live? h = some o)
    (unkept : o.mixinOrder = none) : ((Interception.mixinOrder h).exec v).1 =
      ((Interception.computeMixinOrder o.registrations.mixins o.cls).exec v).1 := by
  obtain ⟨order, computed, -⟩ := (@Untouched.refl (fun _ => True) _ _ _ live).computeMixinOrder well well
  obtain ⟨r, b, done, filled⟩ := well.filled_of_along (Consults.along_computeMixinOrder o.registrations.mixins o.cls)
  obtain ⟨p, there, -⟩ := filled.exists_live live
  rw [done] at computed ⊢
  cases computed
  unfold Interception.mixinOrder
  rw [Update.exec_bind_of_ok (Update.exec_object_of_live live), unkept]
  exact fst_keep done there fun order o => { o with mixinOrder := some order }

/-- The mixin order that is given is the one that would be computed, whether it is kept or not. -/
theorem MixinOrdersCurrent.fst_mixinOrder (current : MixinOrdersCurrent v) (well : WellFormed loose v)
    (live : v.live? h = some o) : ((Interception.mixinOrder h).exec v).1 =
      ((Interception.computeMixinOrder o.registrations.mixins o.cls).exec v).1 := by
  cases kept : o.mixinOrder with
  | some order => rw [exec_mixinOrder_of_kept live kept, current h o order live kept]
  | none => exact well.fst_mixinOrder_of_unkept live kept

/-- Where nothing that orders are computed from looks different, the same mixin order is given to an object. -/
theorem MixinOrdersCurrent.fst_mixinOrder_of_setting (current : MixinOrdersCurrent v) (currentAfter : MixinOrdersCurrent w)
    (before : WellFormed loose v) (after : WellFormed tight w)
    (setting : Heap.Alike Object.setting v.objects w.objects) (there : w.live? h = some o) :
    ((Interception.mixinOrder h).exec w).1 = ((Interception.mixinOrder h).exec v).1 := by
  obtain ⟨x, untouched⟩ := Untouched.of_setting setting there
  obtain ⟨order, one, two⟩ := untouched.computeMixinOrder before after
  rw [currentAfter.fst_mixinOrder after there, current.fst_mixinOrder before untouched.before, one, two]

/-- Once the mixin order is given, what is computed from it is the filter order that would be computed before. -/
theorem MixinOrdersCurrent.exec_computeFilterOrder (current : MixinOrdersCurrent v) (well : WellFormed loose v)
    (live : v.live? h = some o) : ∃ mixins u order b z, (Interception.mixinOrder h).exec v = (.ok mixins, u) ∧
      (Interception.computeFilterOrder h (mixins.map (·.target))).exec u = (.ok order, { u with objects := b }) ∧
      World.live? { u with objects := b } h = some z ∧ ((Interception.freshFilterOrder h).exec v).1 = .ok order := by
  obtain ⟨mixins, computed, -⟩ := (@Untouched.refl (fun _ => True) _ _ _ live).computeMixinOrder well well
  have given := (current.fst_mixinOrder well live).trans computed
  obtain ⟨a, after, setting⟩ := @alike_mixinOrder _ _ _ Object.setting Object.setting_withoutPrecedence
    (fun _ _ => rfl) well h
  have wellMid := well.mixinOrder h
  have currentMid := current.mixinOrder well h
  obtain ⟨u, is⟩ : ∃ u, u = ((Interception.mixinOrder h).exec v).2 := ⟨_, rfl⟩
  have mixed : (Interception.mixinOrder h).exec v = (.ok mixins, u) := is ▸ Prod.ext given rfl
  rw [← is] at wellMid currentMid after
  obtain ⟨y, liveMid, keeps⟩ := FilterOrdersCurrent.kept_of_mixinOrder well mixed
  obtain ⟨x, untouched⟩ := Untouched.of_setting (v := v) (after ▸ setting) liveMid
  obtain ⟨order, fresh, freshMid⟩ := untouched.freshFilterOrder well wellMid (.any v h)
  rw [FilterOrdersCurrent.exec_freshFilterOrder wellMid liveMid (currentMid h y mixins liveMid keeps)] at freshMid
  obtain ⟨r, b, done, filled⟩ := wellMid.filled_of_along (Consults.along_computeFilterOrder h (mixins.map (·.target)))
  obtain ⟨z, there, -⟩ := filled.exists_live liveMid
  rw [done] at freshMid
  cases freshMid
  exact ⟨mixins, u, order, b, z, mixed, done, there, fresh⟩

/-- So is a filter order that is not kept yet. -/
theorem MixinOrdersCurrent.fst_filterOrder (current : MixinOrdersCurrent v) (well : WellFormed loose v)
    (live : v.live? h = some o) (unkept : o.filterOrder = none) : ((Interception.filterOrder h).exec v).1 =
      ((Interception.freshFilterOrder h).exec v).1 := by
  obtain ⟨mixins, u, order, b, z, mixed, done, there, fresh⟩ := current.exec_computeFilterOrder well live
  unfold Interception.filterOrder
  rw [Update.exec_bind_of_ok (Update.exec_object_of_live live), unkept, Update.exec_bind_of_ok mixed, fresh]
  exact fst_keep done there fun order o => { o with filterOrder := some order }

/-- Two worlds give the same orders: the precedence order of every class, the mixin and the filter order of every
object. What fails fails in the same way. -/
structure SameOrders (v w : World) : Prop where
  precedence : ∀ c, ((Update.precedenceOrder c).exec w).1 = ((Update.precedenceOrder c).exec v).1
  mixins : ∀ h, ((Interception.mixinOrder h).exec w).1 = ((Interception.mixinOrder h).exec v).1
  filters : ∀ h, ((Interception.filterOrder h).exec w).1 = ((Interception.filterOrder h).exec v).1

/-- Where no object looks different to the orders that are computed, nor keeps another filter order, the same ones are
given. -/
theorem SameOrders.of_setting (before : WellFormed loose v) (after : WellFormed tight w)
    (current : MixinOrdersCurrent v) (currentAfter : MixinOrdersCurrent w)
    (identity : Heap.Alike Object.identity v.objects w.objects) (supers : w.objects.supersOf = v.objects.supersOf)
    (setting : Heap.Alike Object.setting v.objects w.objects)
    (filters : Heap.Alike (fun o => (o.deleted, o.filterOrder)) v.objects w.objects) : SameOrders v w := by
  have gone : ∀ h, v.live? h = none → w.live? h = none := fun h dead => by
    have same := filters.live? (v := v) (w := w) (fun _ _ same => congrArg (·.1) same) (h := h)
    rw [dead] at same
    exact Option.map_eq_none_iff.1 same
  constructor
  case precedence => exact fst_precedenceOrder before after identity supers
  case mixins =>
    intro h
    cases live : v.live? h with
    | none =>
      unfold Interception.mixinOrder
      rw [Update.exec_bind_of_error (Update.exec_object_of_dead live),
        Update.exec_bind_of_error (Update.exec_object_of_dead (gone h live))]
    | some o =>
      obtain ⟨p, there, -⟩ := filters.exists_of_live? (v := v) (w := w) (fun _ _ same => congrArg (·.1) same) live
      exact current.fst_mixinOrder_of_setting currentAfter before after setting there
  case filters =>
    intro h
    cases live : v.live? h with
    | none =>
      unfold Interception.filterOrder
      rw [Update.exec_bind_of_error (Update.exec_object_of_dead live),
        Update.exec_bind_of_error (Update.exec_object_of_dead (gone h live))]
    | some o =>
      obtain ⟨p, there, looks⟩ := filters.exists_of_live? (v := v) (w := w) (fun _ _ same => congrArg (·.1) same) live
      have same : p.filterOrder = o.filterOrder := congrArg (·.2) looks
      cases kept : o.filterOrder with
      | some order =>
        rw [exec_filterOrder_of_kept live kept, exec_filterOrder_of_kept there (same.trans kept)]
      | none =>
        obtain ⟨x, untouched⟩ := Untouched.of_setting setting there
        obtain ⟨order, one, two⟩ := untouched.freshFilterOrder before after (.any v h)
        rw [current.fst_filterOrder before live kept, currentAfter.fst_filterOrder after there (same.trans kept), one,
          two]

theorem SameOrders.of_repose (before : WellFormed loose v) (after : WellFormed tight w)
    (current : MixinOrdersCurrent v) (currentAfter : MixinOrdersCurrent w)
    (identity : Heap.Alike Object.identity v.objects w.objects) (supers : w.objects.supersOf = v.objects.supersOf)
    (repose : Heap.Alike (Object.repose fun _ => True) v.objects w.objects) : SameOrders v w :=
  .of_setting before after current currentAfter identity supers (repose.comp (fun r => (r.1, r.2.2)) fun _ => rfl)
    (repose.comp (fun r => (r.2.2.1, r.2.1.2)) fun _ => rfl)

/-! ## Refusals -/

/-- A session in which a class has a sibling and a subclass. -/
def kinshipSession : List Expr :=
  [foundation, Trial.createClass "A", Trial.createClass "B", Trial.createSubclass "D" ["A"]]

def kinshipWorld : World :=
  (sessionWithin Heap.HandlesRemain 3 kinshipSession).get (by decide +kernel)

theorem reachable_kinshipWorld : Reachable Heap.HandlesRemain kinshipWorld :=
  .sessionWithin (Option.some_get _).symm

/-- Whatever list of superclasses is refused in a reachable world, every class keeps its superclasses, and all orders
that are asked for are given as before. Each class also keeps its subclasses in their order, unless a cycle was found:
then the class has become the last subclass of each of its superclasses. -/
theorem Reachable.setSuperclasses_refused (reached : Reachable Heap.HandlesRemain w) {c : Handle}
    {supers : List Handle} {e : Failure} (refused : (Hierarchy.setSuperclasses c supers).exec w = (.error e, v)) :
    v.objects.supersOf = w.objects.supersOf ∧ SameOrders w v ∧
      (v.objects.subsOf = w.objects.subsOf ∨
        (∃ name closing, e = .structural (.cycle name closing)) ∧ ∀ k, v.objects.subsOf k =
          if k ∈ w.objects.supersOf c then (w.objects.subsOf k).erase c ++ [c] else w.objects.subsOf k) := by
  have proper := reached.proper fun _ remain => remain
  have current := MixinOrdersCurrent.of_reachable (fun _ remain => remain) reached
  have after := (proper.setSuperclasses c supers).1
  have currentAfter := current.of_leaves proper after (@Leaves.setSuperclasses (fun _ => True) _ _ proper c supers)
  rcases proper.exec_setSuperclasses c supers with ⟨e', b, failed, refusal⟩ | ⟨_, _, _, _, -, -, -, -, -, done, -⟩
  · rw [failed] at refused after currentAfter
    cases refused
    have identity : Heap.Alike Object.identity w.objects b :=
      refusal.alike.comp Object.identity fun o => (Object.identity_withoutAncestry o).symm
    have repose := @Leaves.alike_repose_of_replaced (fun _ => True) _ _ refusal.toReplaced
    exact ⟨refusal.supers, .of_repose proper after current currentAfter identity refusal.supers repose,
      refusal.subs.imp_right fun ⟨cycle, moved⟩ => ⟨cycle, congrFun moved⟩⟩
  · rw [done] at refused
    cases refused

/-- The root class, `A`, `B` and `D` have the handles 0, 2, 3 and 4. -/
theorem setSuperclasses_refused_kinship : ∃ e v,
    (Hierarchy.setSuperclasses ⟨2, 0⟩ [⟨4, 0⟩]).exec kinshipWorld = (.error e, v) ∧
    v.objects.supersOf = kinshipWorld.objects.supersOf ∧ SameOrders kinshipWorld v ∧
      (v.objects.subsOf = kinshipWorld.objects.subsOf ∨
        (∃ name closing, e = .structural (.cycle name closing)) ∧ ∀ k, v.objects.subsOf k =
          if k ∈ kinshipWorld.objects.supersOf ⟨2, 0⟩ then (kinshipWorld.objects.subsOf k).erase ⟨2, 0⟩ ++ [⟨2, 0⟩]
          else kinshipWorld.objects.subsOf k) := by
  have fails : ((Hierarchy.setSuperclasses ⟨2, 0⟩ [⟨4, 0⟩]).exec kinshipWorld).1.isOk = false := by decide +kernel
  rcases result : (Hierarchy.setSuperclasses ⟨2, 0⟩ [⟨4, 0⟩]).exec kinshipWorld with ⟨r, v⟩
  rw [result] at fails
  cases r with
  | ok => cases fails
  | error e => exact ⟨e, v, rfl, Reachable.setSuperclasses_refused reachable_kinshipWorld result⟩

/-- A class that closes a cycle does move: here it stood in front of its sibling, and stands behind it afterwards. -/
theorem not_subsOf_setSuperclasses_refused : Reachable Heap.HandlesRemain kinshipWorld ∧
    ((Hierarchy.setSuperclasses ⟨2, 0⟩ [⟨4, 0⟩]).exec kinshipWorld).1.isOk = false ∧
    kinshipWorld.objects.subsOf ⟨0, 0⟩ = [⟨1, 0⟩, ⟨2, 0⟩, ⟨3, 0⟩] ∧
    ((Hierarchy.setSuperclasses ⟨2, 0⟩ [⟨4, 0⟩]).exec kinshipWorld).2.objects.subsOf ⟨0, 0⟩ =
      [⟨1, 0⟩, ⟨3, 0⟩, ⟨2, 0⟩] := by
  refine ⟨reachable_kinshipWorld, ?_, ?_, ?_⟩ <;> decide +kernel

end DynamicObjects
