import DynamicObjects.Lifecycle.Destruction
import DynamicObjects.Proofs.Interception.Forgetting
import DynamicObjects.Proofs.Structure.Departure

/-!
# Unmixing

Taking a class off the objects and classes that mix it in, and a user off the classes that it mixes in.
-/
namespace DynamicObjects

/-! ## Mixins -/

/-- An object that has lost a mixin. -/
def Object.dropMixin (reach : Reach) (cls : Handle) (o : Object) : Object :=
  o.mapRegistrations reach fun r => { r with mixins := r.mixins.filter (·.target ≠ cls) }

section dropped

variable {reach : Reach} {cls h : Handle}

theorem dropMixin_dropMixin (o : Object) : (o.dropMixin reach cls).dropMixin reach cls = o.dropMixin reach cls := by
  cases reach <;>
    simp [Object.dropMixin, Object.mapRegistrations, Object.mapClass, Function.comp_def, List.filter_filter]

theorem dropMixin_withoutOrders (o : Object) :
    o.withoutOrders.dropMixin reach cls = (o.dropMixin reach cls).withoutOrders := by
  cases reach <;> rfl

/-- What taking the mixin `cls` off some users makes of an object. -/
def dropped (reach : Reach) (cls : Handle) (users : List Handle) (k : Handle) (o : Object) : Object :=
  if k ∈ users then o.dropMixin reach cls else o

theorem dropped_withoutOrders {users : List Handle} (k : Handle) (o : Object) :
    dropped reach cls users k o.withoutOrders = (dropped reach cls users k o).withoutOrders := by
  unfold dropped
  split
  · exact dropMixin_withoutOrders o
  · rfl

theorem view_dropped {β : Type v} {view : Object → β} {users : List Handle}
    (blind : ∀ o, view (Object.dropMixin reach cls o) = view o) (k : Handle) (o : Object) :
    view (dropped reach cls users k o) = view o := by
  unfold dropped
  split
  · exact blind o
  · rfl

theorem remade_dropMixin (reach : Reach) (cls u : Handle) (a : Objects) :
    Heap.Remade (dropped reach cls [u]) a (a.modify u (Object.dropMixin reach cls)) :=
  (Heap.Remade.modify a u (Object.dropMixin reach cls)).congr fun k o _ => by simp [dropped]

private theorem dropped_cons {u : Handle} {users : List Handle} (k : Handle) (o : Object) :
    dropped reach cls users k (dropped reach cls [u] k o) = dropped reach cls (u :: users) k o := by
  unfold dropped
  by_cases here : k = u <;> by_cases later : k ∈ users <;> simp [here, later, dropMixin_dropMixin]

private theorem reworked_nil (w : World) : Reworked (dropped reach cls []) (fun _ => False) w.objects w.objects :=
  (Reworked.of_forgets (.refl w.objects) (.refl _)).congr (fun _ _ _ => rfl) fun _ => id

theorem exec_dropObjectMixin (cls u : Handle) (w : World) :
    ∃ b, (Lifecycle.dropObjectMixin cls u).exec w = (.ok ⟨⟩, { w with objects := b }) ∧
      Reworked (dropped .object cls [u]) (· = u) w.objects b :=
  ⟨_, rfl, .of_forgets (remade_dropMixin .object cls u w.objects) (.modify _ u)⟩

theorem exec_dropObjectMixins (cls : Handle) (users : List Handle) (w : World) :
    ∃ b, (users.forM (Lifecycle.dropObjectMixin cls)).exec w = (.ok ⟨⟩, { w with objects := b }) ∧
      Reworked (dropped .object cls users) (· ∈ users) w.objects b := by
  induction users generalizing w with
  | nil => exact ⟨w.objects, rfl, (reworked_nil w).congr (fun _ _ _ => rfl) fun h no => absurd no List.not_mem_nil⟩
  | cons u users ih =>
    obtain ⟨a, first, one⟩ := exec_dropObjectMixin cls u w
    obtain ⟨b, rest, two⟩ := ih { w with objects := a }
    refine ⟨b, (Update.exec_bind_of_ok first _).trans rest, (one.trans two dropped_withoutOrders).congr
      (fun k o _ => dropped_cons k o) fun k member => ?_⟩
    exact List.mem_cons.1 member

theorem dependents_dropMixin (o : Object) : (o.dropMixin reach cls).dependents = o.dependents := by
  cases reach <;> simp [Object.dropMixin, Object.mapRegistrations, Object.mapClass, Object.dependents, Function.comp_def]

theorem affected_dropMixin (o : Object) : (o.dropMixin reach cls).affected = o.affected := by
  cases reach <;> simp [Object.dropMixin, Object.mapRegistrations, Object.mapClass, Object.affected, Function.comp_def]

theorem exec_dropClassMixin (cls u : Handle) (w : World) :
    ∃ b, (Lifecycle.dropClassMixin cls u).exec w = (.ok ⟨⟩, { w with objects := b }) ∧
      Reworked (dropped .instances cls [u]) (Interception.DependsOn w.objects u) w.objects b := by
  obtain ⟨b, forgot, forgets⟩ := Interception.exec_forgetDependents u
    { w with objects := w.objects.modify u (Object.dropMixin .instances cls) }
  refine ⟨b, ?_, (Reworked.of_forgets (remade_dropMixin .instances cls u w.objects) forgets).congr
    (fun _ _ _ => rfl) fun h depends => ?_⟩
  · unfold Lifecycle.dropClassMixin
    rw [Update.exec_bind_of_ok (Update.exec_changeObjects _ _)]
    exact forgot
  · exact (Interception.dependsOn_of_alike (.modify _ u dependents_dropMixin) (.modify _ u affected_dropMixin) u h).2 depends

theorem exec_dropClassMixins (cls : Handle) (users : List Handle) (w : World) :
    ∃ b, (users.forM (Lifecycle.dropClassMixin cls)).exec w = (.ok ⟨⟩, { w with objects := b }) ∧
      Reworked (dropped .instances cls users) (fun h => ∃ u ∈ users, Interception.DependsOn w.objects u h)
        w.objects b := by
  induction users generalizing w with
  | nil =>
    exact ⟨w.objects, rfl, (reworked_nil w).congr (fun _ _ _ => rfl) fun h ⟨_, no, _⟩ => absurd no List.not_mem_nil⟩
  | cons u users ih =>
    obtain ⟨a, first, one⟩ := exec_dropClassMixin cls u w
    obtain ⟨b, rest, two⟩ := ih { w with objects := a }
    have same : ∀ c h, Interception.DependsOn a c h ↔ Interception.DependsOn w.objects c h :=
      Interception.dependsOn_of_alike (one.alike (fun _ => rfl) (view_dropped dependents_dropMixin))
        (one.alike (fun _ => rfl) (view_dropped affected_dropMixin))
    refine ⟨b, (Update.exec_bind_of_ok first _).trans rest, (one.trans two dropped_withoutOrders).congr
      (fun k o _ => dropped_cons k o) fun k ⟨c, member, depends⟩ => ?_⟩
    rcases List.mem_cons.1 member with rfl | later
    · exact .inl depends
    · exact .inr ⟨c, later, (same c k).2 depends⟩

/-- What taking a user off its mixin classes makes of an object. -/
def deserted (reach : Reach) (user : Handle) (targets : List Handle) (k : Handle) (o : Object) : Object :=
  if k ∈ targets then o.mapClass (·.mapUsers reach (·.filter (· ≠ user))) else o

theorem exec_forgetUser (reach : Reach) (user : Handle) (mixins : List Mixin) (w : World) :
    ∃ b, (Lifecycle.forgetUser reach user mixins).exec w = (.ok ⟨⟩, { w with objects := b }) ∧
      Heap.Remade (deserted reach user (mixins.map (·.target))) w.objects b := by
  refine ⟨_, Update.exec_forM_changeObjects (fun (m : Mixin) objects => objects.modifyClass m.target
    (·.mapUsers reach (·.filter (· ≠ user)))) mixins w, ?_⟩
  exact Heap.Remade.foldl_modify (fun m : Mixin => m.target)
    (fun _ => Object.mapClass (·.mapUsers reach (·.filter (· ≠ user)))) (fun _ o => by
      cases reach <;> simp [Object.mapClass, ClassPart.mapUsers, Function.comp_def, List.filter_filter]) mixins w.objects

end dropped

/-- Nothing mixes in `h`, and all other classes know who mixes them in. -/
structure Untargeted (reach : Reach) (h : Handle) (w : World) : Prop where
  target : ∀ u c, c ∈ w.targetsOf reach u → w.isClass c = true ∧ c ≠ h
  users : ∀ c u, c ≠ h → (u ∈ w.usersOf reach c ↔ c ∈ w.targetsOf reach u)
  nodup : ∀ c, (w.usersOf reach c).Nodup

section mixing

variable {reach : Reach} {h : Handle} {v w : World}

theorem Untargeted.of_alike (untargeted : Untargeted reach h v)
    (alike : Heap.Alike (Object.mixing reach) v.objects w.objects) : Untargeted reach h w := by
  refine ⟨fun u c member => ?_, fun c u => ?_, fun c => ?_⟩
  · rw [alike.targetsOf] at member
    rw [alike.identity_of_mixing.isClass]
    exact untargeted.target u c member
  · rw [alike.usersOf, alike.targetsOf]
    exact untargeted.users c u
  · rw [alike.usersOf]
    exact untargeted.nodup c

/-- The mixins registered on an object that is not deleted. -/
def Object.ownMixins (reach : Reach) (o : Object) : Option (List Mixin) :=
  if o.deleted then none else (o.registrations? reach).map (·.mixins)

theorem ownMixins_withoutOrders (reach : Reach) (o : Object) :
    o.withoutOrders.ownMixins reach = o.ownMixins reach := by
  cases reach <;> rfl

theorem World.mixinsOf_eq (w : World) (reach : Reach) (u : Handle) :
    w.mixinsOf reach u = ((w.objects.get? u).bind (Object.ownMixins reach)).getD [] := by
  unfold mixinsOf registrations? live? Object.ownMixins
  cases w.objects.get? u with
  | none => rfl
  | some o => cases gone : o.deleted <;> simp [Option.filter, gone]

/-- Who mixed in `h` does so no more. -/
theorem mixinsOf_dropped {users : List Handle} {s : Handle → Prop}
    (reworked : Reworked (dropped reach h users) s v.objects w.objects)
    (complete : ∀ u, h ∈ v.targetsOf reach u → u ∈ users) (u : Handle) :
    w.mixinsOf reach u = (v.mixinsOf reach u).filter (·.target ≠ h) := by
  have view := reworked.map_view (fun o => ownMixins_withoutOrders reach o) u
  have after : (w.objects.get? u).bind (Object.ownMixins reach) = (v.objects.get? u).bind fun o =>
      Object.ownMixins reach (dropped reach h users u o) := by
    have joined := congrArg (Option.bind · id) view
    simpa only [Option.bind_map, Function.comp_def, id] using joined
  rw [World.mixinsOf_eq, after, World.mixinsOf_eq]
  unfold dropped
  by_cases user : u ∈ users
  · simp only [if_pos user]
    cases v.objects.get? u with
    | none => rfl
    | some o =>
      cases reach <;> cases gone : o.deleted <;>
        simp [Object.ownMixins, Object.dropMixin, Object.mapRegistrations, Object.registrations?, Object.mapClass, gone]
      cases o.classPart <;> simp
  · simp only [if_neg user]
    have absent : h ∉ v.targetsOf reach u := fun member => user (complete u member)
    unfold World.targetsOf at absent
    rw [World.mixinsOf_eq] at absent
    refine (List.filter_eq_self.2 fun m member => ?_).symm
    exact decide_eq_true fun same => absent (List.mem_map.2 ⟨m, member, same⟩)

theorem targetsOf_dropped {users : List Handle} {s : Handle → Prop}
    (reworked : Reworked (dropped reach h users) s v.objects w.objects)
    (complete : ∀ u, h ∈ v.targetsOf reach u → u ∈ users) {u c : Handle} :
    c ∈ w.targetsOf reach u ↔ c ∈ v.targetsOf reach u ∧ c ≠ h := by
  unfold World.targetsOf
  rw [mixinsOf_dropped reworked complete]
  simp only [List.mem_map, List.mem_filter, decide_eq_true_eq]
  constructor
  · rintro ⟨m, ⟨member, other⟩, rfl⟩
    exact ⟨⟨m, member, rfl⟩, other⟩
  · rintro ⟨⟨m, member, rfl⟩, other⟩
    exact ⟨m, ⟨member, other⟩, rfl⟩

theorem identity_dropMixin (o : Object) : (o.dropMixin reach h).identity = o.identity :=
  Object.identity_mapRegistrations reach _ o

theorem users_dropMixin (o : Object) :
    (o.dropMixin reach h).classPart.map (·.users reach) = o.classPart.map (·.users reach) := by
  cases reach <;>
    simp [Object.dropMixin, Object.mapRegistrations, Object.mapClass, Function.comp_def, ClassPart.users]

theorem Mixed.untargeted {users : List Handle} {s : Handle → Prop} (mixed : Mixed reach v)
    (reworked : Reworked (dropped reach h users) s v.objects w.objects)
    (complete : ∀ u, u ∈ v.usersOf reach h → u ∈ users) : Untargeted reach h w := by
  have identity : Heap.Alike Object.identity v.objects w.objects :=
    reworked.alike (fun _ => rfl) (view_dropped identity_dropMixin)
  have targets : ∀ {u c}, c ∈ w.targetsOf reach u ↔ c ∈ v.targetsOf reach u ∧ c ≠ h :=
    targetsOf_dropped reworked fun u member => complete u ((mixed.users h u).2 member)
  have users : ∀ c, w.usersOf reach c = v.usersOf reach c := by
    intro c
    have alike : Heap.Alike (fun o : Object => (o.deleted, o.classPart.map (·.users reach))) v.objects w.objects :=
      reworked.alike (fun _ => rfl) fun k o => by
        unfold dropped
        split
        · have deleted : (o.dropMixin reach h).deleted = o.deleted := congrArg Identity.deleted (identity_dropMixin o)
          rw [deleted, users_dropMixin]
        · rfl
    have same := congrArg (fun o => (o.bind fun p => p.2).getD [])
      (alike.live? (h := c) fun _ _ same => congrArg Prod.fst same)
    simpa only [Option.bind_map, Function.comp_def, World.usersOf, World.classPart?, Option.map_bind] using same
  refine ⟨fun u c member => ?_, fun c u other => ?_, fun c => ?_⟩
  · obtain ⟨before, other⟩ := targets.1 member
    exact ⟨identity.isClass.trans (mixed.target u c before), other⟩
  · rw [users, targets, mixed.users]
    exact (and_iff_left other).symm
  · rw [users]
    exact mixed.nodup c

theorem identity_deserted {targets : List Handle} (k : Handle) (o : Object) :
    (deserted reach h targets k o).identity = o.identity := by
  unfold deserted
  split
  · exact Object.identity_mapClass _ o
  · rfl

theorem registrations?_deserted {other : Reach} {targets : List Handle} (k : Handle) (o : Object) :
    (deserted reach h targets k o).registrations? other = o.registrations? other := by
  unfold deserted
  split
  · exact Interception.registrations?_mapUsers reach other _ o
  · rfl

theorem Untargeted.unmixed {targets : List Handle} (untargeted : Untargeted reach h v)
    (remade : Heap.Remade (deserted reach h targets) v.objects w.objects)
    (complete : ∀ c, c ∈ v.targetsOf reach h → c ∈ targets) : Unmixed reach h w := by
  have identity : Heap.Alike Object.identity v.objects w.objects :=
    remade.alike fun k o _ => identity_deserted k o
  have lives := remade.live? fun k o => congrArg Identity.deleted (identity_deserted k o)
  have sameTargets : ∀ u, w.targetsOf reach u = v.targetsOf reach u := by
    intro u
    unfold World.targetsOf World.mixinsOf World.registrations?
    rw [lives]
    cases v.live? u with
    | none => rfl
    | some o => simp [registrations?_deserted]
  have users : ∀ c, w.usersOf reach c = if c ∈ targets then (v.usersOf reach c).filter (· ≠ h) else v.usersOf reach c := by
    intro c
    unfold World.usersOf World.classPart?
    rw [lives]
    unfold deserted
    cases v.live? c with
    | none => split <;> rfl
    | some o =>
      by_cases listed : c ∈ targets
      · cases cls : o.classPart <;> cases reach <;>
          simp [listed, Object.mapClass, cls, ClassPart.mapUsers, ClassPart.users]
      · simp [listed]
  refine ⟨fun u c member => ?_, fun c u other => ?_, fun c => ?_⟩
  · rw [sameTargets] at member
    exact ⟨identity.isClass.trans (untargeted.target u c member).1, (untargeted.target u c member).2⟩
  · rw [users, sameTargets, ← untargeted.users c u other]
    by_cases listed : c ∈ targets
    · simp [listed]
    · rw [if_neg listed]
      refine ⟨fun member => ⟨member, fun same => listed (complete c ?_)⟩, And.left⟩
      rw [← same, ← untargeted.users c u other]
      exact member
  · rw [users]
    split
    · exact (untargeted.nodup c).filter _
    · exact untargeted.nodup c

end mixing

end DynamicObjects
