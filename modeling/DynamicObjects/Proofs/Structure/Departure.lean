import DynamicObjects.Proofs.Structure.Reclassing

/-!
# Departures

An object can go once nothing but its name and its class know of it: no instances, no superclass links, no mixin links.
What is left is a well-formed world.
-/
namespace DynamicObjects

/-- `b` is `a` without an object, of which at most a deleted rest is left. -/
structure Departs (h : Handle) (a b : Objects) : Prop where
  others : ∀ k, k ≠ h → b.get? k = a.get? k
  gone : ∀ o, b.get? h = some o → o.deleted = true ∧ a.class? h = o.classPart

namespace Departs

variable {h : Handle} {a b : Objects} (departs : Departs h a b)

include departs

theorem class? {k : Handle} (other : k ≠ h) : b.class? k = a.class? k := by
  unfold Heap.class?
  rw [departs.others k other]

theorem class?_gone : b.class? h = none ∨ b.class? h = a.class? h := by
  cases found : b.get? h with
  | none => exact .inl (by rw [Heap.class?, found]; rfl)
  | some o =>
    obtain ⟨-, same⟩ := departs.gone o found
    exact .inr (by rw [same, Heap.class?, found]; rfl)

theorem supersOf (top : a.supersOf h = []) : b.supersOf = a.supersOf := by
  funext k
  by_cases here : k = h
  · subst here
    rcases departs.class?_gone with gone | same
    · rw [top, Heap.supersOf_eq_nil gone]
    · unfold Heap.supersOf
      rw [same]
  · unfold Heap.supersOf
    rw [departs.class? here]

theorem subsOf (bottom : a.subsOf h = []) : b.subsOf = a.subsOf := by
  funext k
  by_cases here : k = h
  · subst here
    rcases departs.class?_gone with gone | same
    · rw [bottom, Heap.subsOf_eq_nil gone]
    · unfold Heap.subsOf
      rw [same]
  · unfold Heap.subsOf
    rw [departs.class? here]

theorem cachedOrder?_of_some {k : Handle} {l : List Handle} (found : b.cachedOrder? k = some l) :
    a.cachedOrder? k = some l := by
  unfold Heap.cachedOrder? at found ⊢
  by_cases here : k = h
  · subst here
    rcases departs.class?_gone with gone | same
    · rw [gone] at found
      cases found
    · rwa [same] at found
  · rwa [departs.class? here] at found

end Departs

section live

variable {h : Handle} {v w : World}

theorem Departs.live? (departs : Departs h v.objects w.objects) (k : Handle) :
    w.live? k = if k = h then none else v.live? k := by
  unfold World.live?
  split
  · next same =>
    subst same
    cases found : w.objects.get? k with
    | none => rfl
    | some o => simp [Option.filter, (departs.gone o found).1]
  · next other => rw [departs.others k other]

theorem Departs.live?_eq_some_iff (departs : Departs h v.objects w.objects) {k : Handle} {o : Object} :
    w.live? k = some o ↔ v.live? k = some o ∧ k ≠ h := by
  rw [departs.live?]
  by_cases here : k = h <;> simp [here]

theorem Departs.isClass_iff (departs : Departs h v.objects w.objects) {k : Handle} :
    w.isClass k = true ↔ v.isClass k = true ∧ k ≠ h := by
  unfold World.isClass
  rw [departs.live?]
  by_cases here : k = h <;> simp [here]

end live

/-! ## Objects about to go -/

/-- All instance links but those of `h` are in order, and `h` has no other instances. -/
structure Vacated (h : Handle) (w : World) : Prop where
  cls : ∀ k o, k ≠ h → w.live? k = some o → w.isClass o.cls = true ∧ o.cls ≠ h
  instances : ∀ c k, k ≠ h → (k ∈ w.instancesOf c ↔ ∃ o, w.live? k = some o ∧ o.cls = c)
  own : ∀ c, h ∈ w.instancesOf c → ∃ o, w.live? h = some o ∧ o.cls = c

/-- Nothing mixes in `h`, and no other class counts `h` among those that mix it in. -/
structure Unmixed (reach : Reach) (h : Handle) (w : World) : Prop where
  target : ∀ u c, c ∈ w.targetsOf reach u → w.isClass c = true ∧ c ≠ h
  users : ∀ c u, c ≠ h → (u ∈ w.usersOf reach c ↔ c ∈ w.targetsOf reach u ∧ u ≠ h)
  nodup : ∀ c, (w.usersOf reach c).Nodup

/-- Only its name and its class know of `h`. -/
structure Severed (loose : Handle → Prop) (h : Handle) (w : World) : Prop where
  sound : w.objects.Sound
  named : Named w
  vacated : Vacated h w
  linked : Linked w
  supers : w.objects.supersOf h = []
  subs : w.objects.subsOf h = []
  rooted : Rooted (fun k => loose k ∨ k = h) w
  unmixed : ∀ reach, Unmixed reach h w
  kept : Hierarchy.OrdersKept w.objects

section transport

variable {h : Handle} {v w : World}

theorem Vacated.of_alike (vacated : Vacated h v) (alike : Heap.Alike Object.membership v.objects w.objects) :
    Vacated h w := by
  have sees : ∀ x y : Object, x.membership = y.membership → x.deleted = y.deleted :=
    fun _ _ same => congrArg (·.1.deleted) same
  have member : ∀ k c, (∃ o, w.live? k = some o ∧ o.cls = c) ↔ ∃ o, v.live? k = some o ∧ o.cls = c := by
    intro k c
    constructor
    · rintro ⟨o, live, rfl⟩
      obtain ⟨p, before, looks⟩ := alike.symm.exists_of_live? sees live
      exact ⟨p, before, congrArg (·.2.1) looks⟩
    · rintro ⟨o, live, rfl⟩
      obtain ⟨p, after, looks⟩ := alike.exists_of_live? sees live
      exact ⟨p, after, congrArg (·.2.1) looks⟩
  refine ⟨fun k o other live => ?_, fun c k other => ?_, fun c inside => ?_⟩
  · obtain ⟨p, before, same⟩ := (member k o.cls).1 ⟨o, live, rfl⟩
    rw [alike.identity_of_membership.isClass, ← same]
    exact vacated.cls k p other before
  · rw [alike.instancesOf, member]
    exact vacated.instances c k other
  · rw [alike.instancesOf] at inside
    exact (member h c).2 (vacated.own c inside)

theorem Unmixed.of_alike {reach : Reach} (unmixed : Unmixed reach h v)
    (alike : Heap.Alike (Object.mixing reach) v.objects w.objects) : Unmixed reach h w := by
  refine ⟨fun u c member => ?_, fun c u => ?_, fun c => ?_⟩
  · rw [alike.targetsOf] at member
    rw [alike.identity_of_mixing.isClass]
    exact unmixed.target u c member
  · rw [alike.usersOf, alike.targetsOf]
    exact unmixed.users c u
  · rw [alike.usersOf]
    exact unmixed.nodup c

/-- Nothing is left to do for what has no instances. -/
theorem Classed.vacated (classed : Classed w) (bare : ∀ k, k ∈ w.instancesOf h → k = h) : Vacated h w := by
  refine ⟨fun k o other live => ⟨classed.cls k o live, fun same => other ?_⟩, fun c k _ => classed.instances c k,
    fun c => (classed.instances c h).1⟩
  exact bare k ((classed.instances h k).2 ⟨o, live, same⟩)

/-- Nothing is left to do for what takes no part in mixing. -/
theorem Mixed.unmixed {reach : Reach} (mixed : Mixed reach w) (users : w.usersOf reach h = [])
    (targets : w.targetsOf reach h = []) : Unmixed reach h w := by
  refine ⟨fun u c member => ⟨mixed.target u c member, fun same => ?_⟩, fun c u _ => ?_, mixed.nodup⟩
  · have user := (mixed.users c u).2 member
    rw [same, users] at user
    cases user
  · rw [mixed.users]
    refine ⟨fun member => ⟨member, fun same => ?_⟩, And.left⟩
    rw [same, targets] at member
    cases member

end transport

/-! ## What is left -/

section left

variable {loose : Handle → Prop} {h : Handle} {o : Object} {v w : World}

theorem Classed.of_departs (vacated : Vacated h v) (live : v.live? h = some o)
    (departs : Departs h (v.objects.leave h o.cls) w.objects) : Classed w := by
  let u : World := { v with objects := v.objects.leave h o.cls }
  have remade : Heap.Remade _ v.objects u.objects := .modify v.objects o.cls (Object.mapInstances (·.erase h))
  have identity : Heap.Alike Object.identity v.objects u.objects :=
    .modify v.objects o.cls fun _ => Object.identity_mapInstances _ _
  have left : Departs h u.objects w.objects := departs
  have members : ∀ k c, k ≠ h → ((∃ p, w.live? k = some p ∧ p.cls = c) ↔ ∃ p, v.live? k = some p ∧ p.cls = c) := by
    intro k c other
    rw [left.live?, if_neg other, remade.live? fun k o => by split <;> rfl]
    cases v.live? k with
    | none => simp
    | some p => simp only [Option.map_some, Option.some.injEq, exists_eq_left']; split <;> rfl
  have isClass : ∀ c, w.isClass c = true ↔ v.isClass c = true ∧ c ≠ h := by
    intro c
    rw [left.isClass_iff, identity.isClass (v := v) (w := u)]
  refine ⟨fun k p found => ?_, fun c k => ?_⟩
  · obtain ⟨before, other⟩ := left.live?_eq_some_iff.1 found
    obtain ⟨q, here, same⟩ := (members k p.cls other).1 ⟨p, found, rfl⟩
    exact (isClass p.cls).2 (same ▸ vacated.cls k q other here)
  · by_cases here : c = h
    · subst here
      have dead : w.isClass c = false := Bool.eq_false_iff.2 fun cls => ((isClass c).1 cls).2 rfl
      refine iff_of_false (World.not_mem_instancesOf dead) ?_
      rintro ⟨p, found, same⟩
      obtain ⟨-, other⟩ := left.live?_eq_some_iff.1 found
      obtain ⟨q, before, same'⟩ := (members k p.cls other).1 ⟨p, found, rfl⟩
      exact (vacated.cls k q other before).2 (same'.trans same)
    · have kept : w.instancesOf c = u.instancesOf c := by
        unfold World.instancesOf World.classPart?
        rw [left.live?, if_neg here]
      have erased : k ∈ w.instancesOf c ↔ k ∈ v.instancesOf c ∧ k ≠ h := by
        rw [kept]
        by_cases cls : v.isClass o.cls = true
        · rw [World.instancesOf_mapInstances (v := v) (w := u) rfl cls]
          split
          · simp [and_comm]
          · next elsewhere =>
            refine ⟨fun member => ⟨member, fun same => elsewhere ?_⟩, And.left⟩
            obtain ⟨p, found, at_class⟩ := vacated.own c (same ▸ member)
            rw [live] at found
            cases found
            exact at_class.symm
        · have elsewhere : ∀ c, v.isClass c = true → c ≠ o.cls := fun c isClass same => cls (same ▸ isClass)
          cases other : v.isClass c with
          | false =>
            have before : k ∉ v.instancesOf c := World.not_mem_instancesOf other
            have after : k ∉ u.instancesOf c := World.not_mem_instancesOf (identity.isClass.trans other)
            simp [before, after]
          | true =>
            have same : u.instancesOf c = v.instancesOf c := by
              unfold World.instancesOf World.classPart?
              rw [remade.live? fun k o => by split <;> rfl]
              simp [elsewhere c other]
            rw [same]
            refine ⟨fun member => ⟨member, fun itself => ?_⟩, And.left⟩
            obtain ⟨p, found, at_class⟩ := vacated.own c (itself ▸ member)
            rw [live] at found
            cases found
            exact elsewhere c other at_class.symm
      rw [erased]
      by_cases itself : k = h
      · subst itself
        refine iff_of_false (fun no => no.2 rfl) fun ⟨p, found, _⟩ => ?_
        exact (left.live?_eq_some_iff.1 found).2 rfl
      · rw [members k c itself, ← vacated.instances c k itself]
        simp [itself]

theorem Mixed.of_departs {reach : Reach} (unmixed : Unmixed reach h v) (departs : Departs h v.objects w.objects) :
    Mixed reach w := by
  have targets : ∀ u, w.targetsOf reach u = if u = h then [] else v.targetsOf reach u := by
    intro u
    unfold World.targetsOf World.mixinsOf World.registrations?
    rw [departs.live?]
    split <;> rfl
  have users : ∀ c, w.usersOf reach c = if c = h then [] else v.usersOf reach c := by
    intro c
    unfold World.usersOf World.classPart?
    rw [departs.live?]
    split <;> rfl
  refine ⟨fun u c member => ?_, fun c u => ?_, fun c => ?_⟩
  · rw [targets] at member
    split at member
    · cases member
    · exact departs.isClass_iff.2 (unmixed.target u c member)
  · rw [targets, users]
    by_cases here : c = h
    · subst here
      rw [if_pos rfl]
      refine iff_of_false List.not_mem_nil fun member => ?_
      split at member
      · cases member
      · exact (unmixed.target u c member).2 rfl
    · rw [if_neg here, unmixed.users c u here]
      by_cases itself : u = h <;> simp [itself]
  · rw [users]
    split
    · exact List.nodup_nil
    · exact unmixed.nodup c

theorem Linked.of_departs (linked : Linked v) (departs : Departs h v.objects w.objects)
    (top : v.objects.supersOf h = []) (bottom : v.objects.subsOf h = []) : Linked w := by
  have supers := departs.supersOf top
  refine ⟨⟨?_, ?_, ?_⟩, fun c s link => ?_, ?_⟩
  · rw [supers, departs.subsOf bottom]
    exact linked.mirrored.subs
  · rw [supers]
    exact linked.mirrored.nodupSupers
  · rw [departs.subsOf bottom]
    exact linked.mirrored.nodupSubs
  · rw [supers] at link
    have below : c ≠ h := by
      rintro rfl
      rw [top] at link
      cases link
    have above : s ≠ h := by
      rintro rfl
      have sub := (linked.mirrored.subs c s).2 link
      rw [bottom] at sub
      cases sub
    obtain ⟨p, q, first, second, system⟩ := linked.live c s link
    exact ⟨p, q, departs.live?_eq_some_iff.2 ⟨first, below⟩, departs.live?_eq_some_iff.2 ⟨second, above⟩, system⟩
  · rw [supers]
    exact linked.grounded

theorem Rooted.of_departs (rooted : Rooted (fun k => loose k ∨ k = h) v) (departs : Departs h v.objects w.objects)
    (live : v.live? h = some o) (root : o.isRoot = false) (top : v.objects.supersOf h = [])
    (systems : w.systems = v.systems) : Rooted loose w := by
  have supers := departs.supersOf top
  have other : ∀ {k p}, v.live? k = some p → p.isRoot = true → k ≠ h := by
    rintro k p found isRoot rfl
    rw [live] at found
    cases found
    rw [root] at isRoot
    cases isRoot
  refine ⟨fun k p found => ?_, fun i s listed => ?_, fun i s listed => ?_, fun k p s found listed => ?_,
    fun k p s found listed => ?_, fun k p found cls links apart => ?_⟩
  · rw [systems]
    exact rooted.system k p (departs.live?_eq_some_iff.1 found).1
  · rw [systems] at listed
    obtain ⟨p, found, cls, flag, rest⟩ := rooted.root i s listed
    rw [supers]
    exact ⟨p, departs.live?_eq_some_iff.2 ⟨found, other found (by simp [Object.isRoot, flag])⟩, cls, flag, rest⟩
  · rw [systems] at listed
    obtain ⟨p, found, cls, flag, rest⟩ := rooted.metaclass i s listed
    rw [supers]
    exact ⟨p, departs.live?_eq_some_iff.2 ⟨found, other found (by simp [Object.isRoot, flag])⟩, cls, flag, rest⟩
  · rw [systems] at listed
    exact rooted.rootOnly k p s (departs.live?_eq_some_iff.1 found).1 listed
  · rw [systems] at listed
    exact rooted.metaclassOnly k p s (departs.live?_eq_some_iff.1 found).1 listed
  · rw [supers] at links
    obtain ⟨before, different⟩ := departs.live?_eq_some_iff.1 found
    exact rooted.top k p before cls links fun no => no.elim apart different

theorem Hierarchy.OrdersKept.of_departs {a b : Objects} (kept : Hierarchy.OrdersKept a) (departs : Departs h a b)
    (top : a.supersOf h = []) (apart : ∀ c, h ∉ a.supersOf c) : Hierarchy.OrdersKept b := by
  refine ⟨fun c l found => ?_, fun c l found s link cls => ?_⟩
  · rw [departs.supersOf top]
    exact kept.linearizes c l (departs.cachedOrder?_of_some found)
  · rw [departs.supersOf top] at link
    have other : s ≠ h := fun same => apart c (same ▸ link)
    unfold Heap.cachedOrder?
    rw [departs.class? other] at cls ⊢
    exact kept.above c l (departs.cachedOrder?_of_some found) s link cls

theorem Named.of_departs (named : Named v) (departs : Departs h v.objects w.objects) (live : v.live? h = some o)
    (names : w.names = v.names.erase o.name) : Named w := by
  have here := (named.name o.name h).2 ⟨o, live, rfl⟩
  refine ⟨fun n k => ?_⟩
  rw [names, NameTable.get?_erase]
  simp only [departs.live?_eq_some_iff]
  split
  · next same =>
    subst same
    refine iff_of_false nofun fun ⟨p, ⟨found, other⟩, name⟩ => other ?_
    have there := (named.name o.name k).2 ⟨p, found, name⟩
    rw [here] at there
    exact (Option.some.inj there).symm
  · next different =>
    rw [named.name]
    constructor
    · rintro ⟨p, found, name⟩
      refine ⟨p, ⟨found, fun same => different ?_⟩, name⟩
      rw [same, live] at found
      cases found
      exact name.symm
    · rintro ⟨p, ⟨found, -⟩, name⟩
      exact ⟨p, found, name⟩

/-- A severed object can go with its name and its place among the instances of its class. -/
theorem Severed.depart (severed : Severed loose h v) (live : v.live? h = some o) (root : o.isRoot = false)
    (departs : Departs h (v.objects.leave h o.cls) w.objects) (sound : w.objects.Sound)
    (names : w.names = v.names.erase o.name) (systems : w.systems = v.systems) : WellFormed loose w := by
  let u : World := { v with objects := v.objects.leave h o.cls }
  have left : Departs h u.objects w.objects := departs
  have leave : ∀ {β : Type} {view : Object → β},
      (∀ (f : HandleSet → HandleSet) o, view (o.mapInstances f) = view o) → Heap.Alike view v.objects u.objects :=
    fun blind => .modify v.objects o.cls fun o => blind _ o
  have ancestry : Heap.Alike Object.ancestry v.objects u.objects := leave Object.ancestry_mapInstances
  have identity := ancestry.identity_of_ancestry
  have top : u.objects.supersOf h = [] := by rw [ancestry.supersOf_of_ancestry, severed.supers]
  have bottom : u.objects.subsOf h = [] := by rw [ancestry.subsOf, severed.subs]
  obtain ⟨p, found, looks⟩ := identity.exists_live (v := v) (w := u) live
  have linked : Linked u := severed.linked.of_ancestry ancestry
  have apart : ∀ c, h ∉ u.objects.supersOf c := by
    intro c link
    have sub := (linked.mirrored.subs c h).2 link
    rw [bottom] at sub
    cases sub
  have same : p.name = o.name := congrArg Identity.name looks
  exact {
    sound := sound
    named := (severed.named.of_alike identity rfl).of_departs left found (by rw [names, same])
    classed := .of_departs severed.vacated live departs
    linked := linked.of_departs left top bottom
    rooted := (severed.rooted.of_ancestry ancestry rfl).of_departs left found
      ((Object.isRoot_of_identity looks).trans root) top systems
    mixed := fun reach => .of_departs ((severed.unmixed reach).of_alike (leave (Object.mixing_mapInstances reach))) left
    kept := (severed.kept.of_alike (leave Object.precedence_mapInstances)).of_departs left top apart }

end left

/-! ## What is left of deleted objects -/

theorem departs_release (a : Objects) (h : Handle) : Departs h a (a.release h) := by
  refine ⟨fun k other => by rw [Heap.get?_release, if_neg other], fun o found => ?_⟩
  rw [Heap.get?_release, if_pos rfl] at found
  cases found

theorem live?_release {w : World} {h : Handle} (dead : w.live? h = none) :
    World.live? { w with objects := w.objects.release h } = w.live? := by
  funext k
  rw [(departs_release w.objects h).live? (v := w)]
  split
  · next same => rw [same, dead]
  · rfl

/-- Reclaiming the slot of a deleted object keeps a world well-formed. -/
theorem WellFormed.release {loose : Handle → Prop} {w : World} (well : WellFormed loose w) {h : Handle}
    (dead : w.live? h = none) : WellFormed loose { w with objects := w.objects.release h } := by
  have departs := departs_release w.objects h
  let v : World := { w with objects := w.objects.release h }
  have lives : v.live? = w.live? := live?_release dead
  have isClass : v.isClass = w.isClass := by
    funext k
    rw [World.isClass, lives, World.isClass]
  have top : w.objects.supersOf h = [] := by
    refine List.eq_nil_iff_forall_not_mem.2 fun s link => ?_
    obtain ⟨o, -, live, -⟩ := well.linked.live h s link
    rw [dead] at live
    cases live
  have apart : ∀ c, h ∉ w.objects.supersOf c := by
    intro c link
    obtain ⟨-, o, -, live, -⟩ := well.linked.live c h link
    rw [dead] at live
    cases live
  have bottom : w.objects.subsOf h = [] := by
    refine List.eq_nil_iff_forall_not_mem.2 fun c sub => apart c ?_
    exact (well.linked.mirrored.subs c h).1 sub
  have supers : v.objects.supersOf = w.objects.supersOf := departs.supersOf top
  have subs : v.objects.subsOf = w.objects.subsOf := departs.subsOf bottom
  have instances : v.instancesOf = w.instancesOf := by
    funext c
    unfold World.instancesOf World.classPart?
    rw [lives]
  have users : ∀ reach, v.usersOf reach = w.usersOf reach := by
    intro reach
    funext c
    unfold World.usersOf World.classPart?
    rw [lives]
  have targets : ∀ reach, v.targetsOf reach = w.targetsOf reach := by
    intro reach
    funext u
    unfold World.targetsOf World.mixinsOf World.registrations?
    rw [lives]
  exact {
    sound := well.sound.release h
    named := ⟨fun n k => by rw [lives]; exact well.named.name n k⟩
    classed := {
      cls := fun k o => by rw [lives, isClass]; exact well.classed.cls k o
      instances := fun c k => by rw [lives, instances]; exact well.classed.instances c k }
    linked := {
      mirrored := {
        subs := fun c s => by rw [subs, supers]; exact well.linked.mirrored.subs c s
        nodupSupers := fun c => by rw [supers]; exact well.linked.mirrored.nodupSupers c
        nodupSubs := fun c => by rw [subs]; exact well.linked.mirrored.nodupSubs c }
      live := fun c s => by rw [lives, supers]; exact well.linked.live c s
      grounded := by rw [supers]; exact well.linked.grounded }
    rooted := {
      system := fun k o => by rw [lives]; exact well.rooted.system k o
      root := fun i s => by rw [lives, supers]; exact well.rooted.root i s
      metaclass := fun i s => by rw [lives, supers]; exact well.rooted.metaclass i s
      rootOnly := fun k o s => by rw [lives]; exact well.rooted.rootOnly k o s
      metaclassOnly := fun k o s => by rw [lives]; exact well.rooted.metaclassOnly k o s
      top := fun k o => by rw [lives, supers]; exact well.rooted.top k o }
    mixed := fun reach => {
      target := fun u c => by rw [targets, isClass]; exact (well.mixed reach).target u c
      users := fun c u => by rw [targets, users]; exact (well.mixed reach).users c u
      nodup := fun c => by rw [users]; exact (well.mixed reach).nodup c }
    kept := well.kept.of_departs departs top apart }

end DynamicObjects
