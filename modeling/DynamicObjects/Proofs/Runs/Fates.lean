import DynamicObjects.Proofs.Runs.Calm

/-!
# What becomes of objects

No deed takes a mark of destruction off an object or gives the handle of one that is gone to another. An object that is
unlinked has all the marks of it, and keeps its slot only while a frame holds it. Deeds that leave open calls alone reclaim
no slot of an object that is held.
-/
namespace DynamicObjects

variable {loose : Handle → Prop} {v w : World}

/-- Objects go on or leave, newcomers have new handles, and every slot that is left is listed. -/
structure Fares (a b : Objects) : Prop where
  spent : ∀ h, a.Spent h → b.Spent h
  listed : a.Listed → b.Listed
  came : ∀ h p, b.get? h = some p → (∃ o, a.get? h = some o ∧ o.Ages p) ∨ (¬a.Spent h ∧ p.Orderly)

namespace Fares

variable {a b c : Objects}

theorem refl (a : Objects) : Fares a a :=
  ⟨fun _ => id, id, fun _ p found => .inl ⟨p, found, .refl p⟩⟩

theorem trans (first : Fares a b) (second : Fares b c) : Fares a c := by
  refine ⟨fun h spent => second.spent h (first.spent h spent), second.listed ∘ first.listed, fun h r found => ?_⟩
  rcases second.came h r found with ⟨q, between, later⟩ | ⟨unspent, orderly⟩
  · rcases first.came h q between with ⟨o, here, earlier⟩ | ⟨unspent, orderly⟩
    · exact .inl ⟨o, here, earlier.trans later⟩
    · exact .inr ⟨unspent, later.orderly orderly⟩
  · exact .inr ⟨fun spent => unspent (first.spent h spent), orderly⟩

theorem of_ages {β : Type} {view : Object → β} (alike : Heap.Alike view a b)
    (ages : ∀ h o p, a.get? h = some o → b.get? h = some p → o.Ages p) : Fares a b := by
  refine ⟨fun h spent => spent.of_layout alike.layout, fun listed => listed.of_layout alike.layout, fun h p found => ?_⟩
  obtain ⟨o, here, -⟩ := alike.symm.exists_of_get? found
  exact .inl ⟨o, here, ages h o p here found⟩

theorem release (a : Objects) (h : Handle) : Fares a (a.release h) := by
  refine ⟨fun k spent => spent.release h, fun listed => listed.release h, fun k p found => ?_⟩
  rw [Heap.get?_release] at found
  split at found
  · cases found
  · exact .inl ⟨p, found, .refl p⟩

end Fares

/-! ## Deeds -/

/-- Besides, what is held stays. -/
structure Spares (a b : Objects) : Prop extends Fares a b where
  shelters : Shelters a b

namespace Spares

variable {a b c : Objects}

theorem refl (a : Objects) : Spares a a :=
  ⟨.refl a, .refl a⟩

theorem trans (first : Spares a b) (second : Spares b c) : Spares a c :=
  ⟨first.toFares.trans second.toFares, first.shelters.trans second.shelters⟩

theorem of_alike (alike : Heap.Alike Object.fate a b) : Spares a b := by
  refine ⟨.of_ages alike fun h o p here there => .of_fate ?_, .of_alike (alike.comp (·.2.2.2) fun _ => rfl)⟩
  have same := alike.view h
  rw [here, there] at same
  exact Option.some.inj same

theorem of_arrives {h : Handle} {o : Object} (arrives : Arrives h o a b) (orderly : o.Orderly) : Spares a b := by
  refine ⟨⟨fun k spent => (arrives.spent k spent).2, arrives.listed, fun k p found => ?_⟩, .of_arrives arrives⟩
  rw [arrives.get?] at found
  split at found
  · next new =>
    cases found
    exact .inr ⟨fun spent => (arrives.spent k spent).1 new, orderly⟩
  · exact .inl ⟨p, found, .refl p⟩

theorem release {h : Handle} (unheld : ∀ o, a.get? h = some o → o.holders = 0) : Spares a (a.release h) :=
  ⟨.release a h, .release unheld⟩

theorem of_relinks (relinks : Relinks v w) : Spares v.objects w.objects :=
  .of_alike (relinks.objects.comp Object.fate fun _ => rfl)

theorem changeClass (h cls : Handle) (v : World) : Spares v.objects ((Lifecycle.changeClass h cls).exec v).2.objects := by
  obtain ⟨b, done, alike⟩ := alone_of_changeClass h cls v
  rw [done]
  exact .of_alike (alike.comp Object.fate fun _ => rfl)

theorem of_mapMethods {s : Handle → Prop} {reach : Reach} {on : Handle} {f : NameTable Method → NameTable Method}
    (forgets : Forgets s (a.modify on (Object.mapMethods reach f)) b) : Spares a b := by
  have same : ∀ o : Object, (o.mapMethods reach f).fate = o.fate := by
    intro o
    cases reach <;> rfl
  exact .of_alike ((Heap.Alike.modify a on same).trans (forgets.alike fun _ => rfl))

theorem defineMethod (reach : Reach) (on : Handle) (method : Method) (v : World) :
    Spares v.objects ((Definition.defineMethod reach on method).exec v).2.objects := by
  rcases Definition.exec_defineMethod reach on method v with ⟨e, failed⟩ | ⟨o, table, b, -, -, done, forgets⟩
  · rw [failed]
    exact .refl _
  · rw [done]
    exact .of_mapMethods forgets

theorem removeMethod (reach : Reach) (on : Handle) (name : String) (v : World) :
    Spares v.objects ((Definition.removeMethod reach on name).exec v).2.objects := by
  rcases Definition.exec_removeMethod reach on name v with ⟨e, failed⟩ | ⟨o, table, b, -, -, -, done, forgets⟩
  · rw [failed]
    exact .refl _
  · rw [done]
    exact .of_mapMethods forgets

theorem createSystem (sound : v.objects.Sound) (remain : v.objects.HandlesRemain) (root metaclass : String)
    (methods : SystemMethods) :
    Spares v.objects ((Lifecycle.createSystem root metaclass methods).exec v).2.objects := by
  rcases Lifecycle.exec_createSystem sound remain root metaclass methods with
    ⟨e, failed⟩ | ⟨rootClass, rootMetaclass, a, b, -, -, -, first, second, -, done⟩
  · rw [failed]
    exact .refl _
  · rw [done]
    have linked : Heap.Alike Object.fate b (Hierarchy.link b rootMetaclass rootClass) :=
      (Hierarchy.alike_withoutAncestry_link b rootMetaclass rootClass).comp Object.fate fun _ => rfl
    have arrived : Spares v.objects b := (of_arrives first ⟨rfl, nofun⟩).trans (of_arrives second ⟨rfl, nofun⟩)
    exact arrived.trans (.of_alike (linked.trans (alike_founded fun _ _ => rfl)))

theorem enroll (well : WellFormed loose v) (room : v.objects.HasRoom) {c : Object} {cls : Handle} (name : String)
    (live : v.live? cls = some c) (isClass : c.isClass = true) (free : v.names.get? name = none) :
    Spares v.objects ((Lifecycle.enroll (.ofClass name cls c.system)).exec v).2.objects := by
  have listed := World.isClass_iff.2 ⟨c, _, live, Option.some_get isClass |>.symm⟩
  obtain ⟨h, a, arrives, -, done, -⟩ := well.exec_enroll room (Object.unlinked_ofClass name cls c.system) listed free
    (well.rooted.system cls c live) rfl
  have joined : Heap.Alike Object.fate a (a.join h cls) := .modify _ _ fun _ => rfl
  rw [done]
  exact (of_arrives arrives ⟨rfl, nofun⟩).trans (.of_alike joined)

theorem enrollClass (well : WellFormed loose v) (room : v.objects.HasRoom) (name : String) (metaclass : Handle)
    (supers : List Handle) :
    Spares v.objects ((Lifecycle.enrollClass name metaclass supers).exec v).2.objects := by
  rcases well.exec_enrolledClass room name metaclass supers with ⟨e, failed⟩ |
    ⟨p, h, a, u, -, -, arrives, -, -, is, wellAfter, outcome⟩
  · rw [failed]
    exact .refl _
  have joins : Heap.Alike Object.fate a u.objects := by
    rw [is]
    exact .modify _ _ fun _ => rfl
  have relinks : Heap.Alike Object.fate u.objects ((Hierarchy.setSuperclasses h supers).exec u).2.objects :=
    (Relinks.setSuperclasses wellAfter h supers).objects.comp Object.fate fun _ => rfl
  have arrived : Spares v.objects a := of_arrives arrives ⟨rfl, nofun⟩
  rcases outcome with ⟨t, done, ended⟩ | ⟨e, t, refused, -, -, ended⟩
  · rw [done] at relinks
    rw [ended]
    exact arrived.trans (.of_alike (joins.trans relinks))
  · rw [refused] at relinks
    have left : Heap.Alike Object.fate a (t.objects.leave h metaclass) :=
      (joins.trans relinks).trans (.modify _ _ fun _ => rfl)
    rw [ended]
    refine (arrived.trans (.of_alike left)).trans (.release fun q found => ?_)
    obtain ⟨o, new, same⟩ := left.symm.exists_of_get? found
    rw [arrives.get?, if_pos rfl] at new
    cases new
    exact (congrArg (·.2.2.2) same).symm

/-- What is unlinked keeps its slot only where a frame holds it. -/
theorem unlink {h : Handle} {o : Object} (well : WellFormed loose v) (live : v.live? h = some o)
    (root : o.isRoot = false) : Spares v.objects ((Lifecycle.unlink h).exec v).2.objects := by
  obtain ⟨u, t, is, well', here, disbands, done⟩ := well.exec_unlink live root
  obtain ⟨p, there, -⟩ := disbands.exists_live here
  obtain ⟨b, remade, retires⟩ :=
    Lifecycle.exec_retire there (((disbands.disbanded well' here).named.name p.name h).2 ⟨p, there, rfl⟩)
  have alone : Heap.Alike Object.fate u.objects t.objects := disbands.alone.comp Object.fate fun _ => rfl
  have deserted : Heap.Alike Object.fate t.objects b := remade.alike fun k o _ => view_deserted (fun _ _ => rfl) k o
  have left : Heap.Alike Object.fate u.objects (b.leave h p.cls) :=
    (alone.trans deserted).trans (.modify _ _ fun _ => rfl)
  have marked : ∀ {a : Objects} {q : Object}, Heap.Alike Object.fate u.objects a → a.get? h = some q →
      q.fate = Object.fate { o with duringDelete := true } := by
    intro a q alike found
    obtain ⟨q', found', same⟩ := alike.exists_of_get? (World.live?_eq_some_iff.1 here).1
    cases found.symm.trans found'
    exact same
  have holders : p.holders = o.holders := (congrArg (·.2.2.2) (marked alone (World.live?_eq_some_iff.1 there).1) :)
  obtain ⟨m, buries⟩ : ∃ m, m = (b.leave h p.cls).modify h Lifecycle.buried := ⟨_, rfl⟩
  have layout : m.layout = v.objects.layout := by
    rw [buries, Heap.layout_modify, left.layout, is, Heap.layout_modify]
  have ages : ∀ k q, m.get? k = some q → (k = h → p.holders ≠ 0) → ∃ x, v.objects.get? k = some x ∧ x.Ages q := by
    intro k q found held
    rw [buries, Heap.get?_modify] at found
    by_cases same : k = h
    · rw [if_pos same] at found
      obtain ⟨r, before, rfl⟩ := Option.map_eq_some_iff.1 found
      have now := marked left (same ▸ before)
      simp only [Object.fate, Prod.mk.injEq] at now
      obtain ⟨called, during, -, holds⟩ := now
      refine ⟨o, same ▸ (World.live?_eq_some_iff.1 live).1, called.trans, fun _ => rfl, fun _ => ⟨during, fun _ => ?_⟩⟩
      exact Nat.pos_of_ne_zero fun none => held same (holders.trans (holds.symm.trans none))
    · rw [if_neg same] at found
      obtain ⟨x, before, looks⟩ := left.symm.exists_of_get? found
      rw [is, Heap.get?_modify, if_neg same] at before
      exact ⟨x, before, .of_fate looks.symm⟩
  have remains : Heap.Alike Object.holders v.objects m := by
    have marks : Heap.Alike Object.holders v.objects u.objects := is ▸ .modify _ _ fun _ => rfl
    rw [buries]
    exact (marks.trans (left.comp (·.2.2.2) fun _ => rfl)).trans (.modify _ _ fun _ => rfl)
  rw [done, retires]
  change Spares v.objects (Lifecycle.retired b h p)
  unfold Lifecycle.retired
  rw [← buries]
  split
  · next none =>
    refine ⟨⟨fun k spent => (spent.of_layout layout).release h, fun listed => (listed.of_layout layout).release h,
      fun k q found => ?_⟩, (Shelters.of_alike remains).trans (.release fun q found => ?_)⟩
    · rw [Heap.get?_release] at found
      split at found
      · cases found
      · next other => exact .inl (ages k q found fun same => absurd same other)
    · obtain ⟨x, before, same⟩ := remains.symm.exists_of_get? found
      cases before.symm.trans (World.live?_eq_some_iff.1 live).1
      exact same.symm.trans (holders.symm.trans none)
  · next held =>
    exact ⟨⟨fun k spent => spent.of_layout layout, fun listed => listed.of_layout layout,
      fun k q found => .inl (ages k q found fun _ => held)⟩, .of_alike remains⟩

end Spares

section deeds

variable {terms : Terms} (remain : ∀ a, terms.good a → a.HandlesRemain)

include remain

/-- What is neither aside nor the end of an unlinked object spares what is held. -/
theorem WellFormed.spares_or {side : World → World → Prop} (well : WellFormed loose v) (deed : Deed side terms v w) :
    side v w ∨ (∃ h, side v { v with objects := v.objects.modify h fun o => { o with holders := o.holders + 1 } } ∧
      w = { v with objects := v.objects.release h }) ∨ Spares v.objects w.objects := by
  cases deed with
  | aside beside => exact .inl beside
  | precedenceOrder c => exact .inr (.inr (.of_relinks (.precedenceOrder well c)))
  | mixinOrder h => exact .inr (.inr (.of_relinks (.mixinOrder well h)))
  | filterOrder h => exact .inr (.inr (.of_relinks (.filterOrder well h)))
  | setSuperclasses c supers => exact .inr (.inr (.of_relinks (.setSuperclasses well c supers)))
  | changeClass h cls => exact .inr (.inr (.changeClass h cls v))
  | setMixins reach on mixins => exact .inr (.inr (.of_relinks (.setMixins reach on mixins v)))
  | setMixinGuard reach on cls guard => exact .inr (.inr (.of_relinks (.setMixinGuard reach on cls guard v)))
  | setFilters reach on filters => exact .inr (.inr (.of_relinks (.setFilters reach on filters v)))
  | setFilterGuard reach on name guard => exact .inr (.inr (.of_relinks (.setFilterGuard reach on name guard v)))
  | defineMethod reach on method => exact .inr (.inr (.defineMethod reach on method v))
  | removeMethod reach on name => exact .inr (.inr (.removeMethod reach on name v))
  | createSystem root metaclass methods permits =>
    exact .inr (.inr (.createSystem well.sound (remain _ permits) root metaclass methods))
  | enroll name cls permits live isClass free =>
    exact .inr (.inr (.enroll well (remain _ permits).hasRoom name live isClass free))
  | enrollClass name metaclass supers permits =>
    exact .inr (.inr (.enrollClass well (remain _ permits).hasRoom name metaclass supers))
  | unlink h live root => exact .inr (.inr (.unlink well live root))
  | release dead holds => exact .inr (.inl ⟨_, holds, rfl⟩)

theorem WellFormed.fares (well : WellFormed loose v) (deed : Deed Sober terms v w) : Fares v.objects w.objects := by
  rcases well.spares_or remain deed with sober | ⟨h, -, rfl⟩ | spares
  · exact .of_ages sober.core sober.ages
  · exact .release _ h
  · exact spares.toFares

/-- Where open calls are left alone, nothing can be held anew, and so nothing is reclaimed. -/
theorem WellFormed.shelters (well : WellFormed loose v) (deed : Deed Hushed terms v w) :
    Shelters v.objects w.objects := by
  rcases well.spares_or remain deed with hushed | ⟨h, hushed, rfl⟩ | spares
  · exact .of_alike (hushed.openCalls.comp (·.holders) fun _ => rfl)
  · refine .release fun o found => ?_
    obtain ⟨p, there, same⟩ := hushed.openCalls.exists_of_get? found
    rw [Heap.get?_modify, if_pos rfl, found] at there
    cases there
    exact absurd (congrArg OpenCalls.holders same) (Nat.succ_ne_self _)
  · exact spares.shelters

theorem WellFormed.poised_of_calmly (well : WellFormed loose v) (path : Calmly terms v w) : Poised v w := by
  refine ⟨well.balanced_of_calmly remain path, ?_⟩
  induction path with
  | refl => exact .refl _
  | tail path last ih => exact ih.trans ((well.evolves remain (Calmly.proceeds path).evolves).shelters remain last)

theorem WellFormed.fares_of_develops (well : WellFormed loose v) (path : Develops terms v w) :
    Fares v.objects w.objects := by
  induction path with
  | refl => exact .refl _
  | tail path last ih => exact ih.trans ((well.evolves remain (Develops.evolves path)).fares remain last)

end deeds

/-! ## Marks that fit together -/

/-- The marks of destruction of all objects fit together. -/
def Heap.Orderly (objects : Objects) : Prop :=
  ∀ h o, objects.get? h = some o → o.Orderly

theorem Fares.orderly {a b : Objects} (fares : Fares a b) (orderly : a.Orderly) : b.Orderly := by
  intro h p found
  rcases fares.came h p found with ⟨o, here, ages⟩ | ⟨-, fits⟩
  · exact ages.orderly (orderly h o here)
  · exact fits

end DynamicObjects
