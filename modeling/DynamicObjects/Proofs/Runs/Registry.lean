import DynamicObjects.Inspection
import DynamicObjects.Proofs.Runs.Definitions
import DynamicObjects.Proofs.Runs.Links

/-!
# The registry

A method is entered in the registry under its path. Where two methods have the same path, the later definition takes the
entry over, and with either of them the entry goes. Commands take entries over, too. As long as paths are apart, every
entry but those of commands is that of the one method at its path.
-/
namespace DynamicObjects

/-! ## One deed -/

theorem Object.IsBlank.definition? {o : Object} (blank : o.IsBlank) (reach : Reach) (name : String) :
    o.definition? reach name = none := by
  cases reach with
  | object => simp [Object.definition?, Object.methods?, blank.methods]
  | instances =>
    cases isPart : o.classPart with
    | none => simp [Object.definition?, Object.methods?, isPart]
    | some part => simp [Object.definition?, Object.methods?, isPart, (blank.classPart part isPart).1]

/-- What a deed makes of the definitions and of the registry. Methods are removed and objects go on the terms of deeds. -/
inductive Rewrites (terms : Terms) (v w : World) : Prop where
  /-- Nothing is entered but commands. -/
  | kept (definitions : w.objects.definition? = v.objects.definition?)
      (registry : ∀ path, w.registry.get? path = v.registry.get? path ∨
        ∃ r, w.registry.get? path = some r ∧ r.owner = none)
  /-- A method is defined, over the one at its site, if any. -/
  | defined (site : Site) (path : String) (method : Method)
      (places : ∀ q n, v.objects.definition? site = some (q, n) → q = path)
      (definitions : w.objects.definition? = Function.update v.objects.definition? site (some (path, method)))
      (registry : w.registry = v.registry.insert path (site.entry method))
  | removed (site : Site) (path : String) (method : Method)
      (there : v.objects.definition? site = some (path, method))
      (definitions : w.objects.definition? = Function.update v.objects.definition? site none)
      (registry : w.registry = v.registry.erase path) (permits : terms.careful → terms.good v.objects)
  /-- An object goes with all that is registered under it. -/
  | gone {h : Handle} {o : Object} (live : v.live? h = some o)
      (definitions : ∀ s, w.objects.definition? s = if s.on = h then none else v.objects.definition? s)
      (registry : w.registry = v.registry.filter fun _ r => r.owner ≠ some h)
      (permits : terms.careful → MayLeave terms.good v.objects h)

namespace Rewrites

variable {terms : Terms} {v w : World}

theorem refl (v : World) : Rewrites terms v v :=
  .kept rfl fun _ => .inl rfl

theorem of_alike (alike : Heap.Alike Object.equipment v.objects w.objects) (registry : w.registry = v.registry) :
    Rewrites terms v w :=
  .kept alike.definition? fun _ => .inl (by rw [registry])

theorem relinks (relinks : Relinks v w) : Rewrites terms v w :=
  .of_alike (relinks.objects.comp _ Object.equipment_apart) relinks.registry

theorem turnover {new : Object → Prop} (turnover : Turnover Object.apart new Nobody v w)
    (blank : ∀ p, new p → ∀ reach name, p.definition? reach name = none) (registry : w.registry = v.registry) :
    Rewrites terms v w :=
  .kept (turnover.definition? blank) fun _ => .inl (by rw [registry])

theorem defineMethod (reach : Reach) (on : Handle) (method : Method) (v : World) :
    Rewrites terms v ((Definition.defineMethod reach on method).exec v).2 := by
  rcases Definition.exec_defineMethod reach on method v with ⟨e, failed⟩ | ⟨o, table, b, live, found, done, forgets⟩
  · rw [failed]
    exact .refl v
  rw [done]
  have forgotten : Heap.Alike Object.equipment _ b := forgets.alike fun _ => rfl
  have path : v.pathOf ⟨reach, on, method.name⟩ = o.methodPath reach method.name := v.pathOf_eq live
  refine .defined ⟨reach, on, method.name⟩ _ _ (fun q n defined => ?_) ?_ rfl
  · exact (World.definition?_eq_some_iff.1 defined).2.symm
  · refine forgotten.definition?.trans ?_
    rw [World.definition?_update (v := v) live found method.name (fun n other => ?_) rfl, ← path]
    · simp [World.pathOf]
    · simp [other]

theorem removeMethod (reach : Reach) (on : Handle) (name : String)
    (permits : terms.careful → terms.good v.objects) :
    Rewrites terms v ((Definition.removeMethod reach on name).exec v).2 := by
  rcases Definition.exec_removeMethod reach on name v with
    ⟨e, failed⟩ | ⟨o, table, b, live, found, taken, done, forgets⟩
  · rw [failed]
    exact .refl v
  rw [done]
  have forgotten : Heap.Alike Object.equipment _ b := forgets.alike fun _ => rfl
  obtain ⟨method, listed⟩ := Option.isSome_iff_exists.1 taken
  have there : v.objects.definition? ⟨reach, on, name⟩ = some (v.pathOf ⟨reach, on, name⟩, method) :=
    World.definition?_eq_some_iff.2 ⟨⟨o, table, live, found, listed⟩, rfl⟩
  refine .removed _ _ _ there (forgotten.definition?.trans ?_) rfl permits
  rw [World.definition?_update (v := v) live found name (fun n other => ?_) rfl]
  · simp
  · simp [other]

theorem changeClass (h cls : Handle) (v : World) : Rewrites terms v ((Lifecycle.changeClass h cls).exec v).2 := by
  obtain ⟨b, done, alike⟩ := alone_of_changeClass h cls v
  rw [done]
  exact .of_alike (alike.comp _ Object.equipment_alone) rfl

variable {loose : Handle → Prop} (well : WellFormed loose v)

include well

theorem createSystem (remain : v.objects.HandlesRemain) (root metaclass : String) (methods : SystemMethods) :
    Rewrites terms v ((Lifecycle.createSystem root metaclass methods).exec v).2 := by
  obtain ⟨same | ⟨h, k, -, -, turnover⟩, registry⟩ := Turnover.createSystem well.sound remain root metaclass methods
  · rw [same]
    exact .refl v
  refine .turnover turnover ?_ registry
  rintro p ⟨-, -, own, part, isPart, taught⟩ reach name
  cases reach <;> simp [Object.definition?, Object.methods?, own, isPart, taught]

theorem enroll (room : v.objects.HasRoom) {c : Object} {cls : Handle} (name : String) (live : v.live? cls = some c)
    (isClass : c.isClass = true) (free : v.names.get? name = none) :
    Rewrites terms v ((Lifecycle.enroll (.ofClass name cls c.system)).exec v).2 := by
  obtain ⟨turnover, -, registry⟩ := Turnover.enroll well room name live isClass free
  refine .turnover turnover ?_ registry
  rintro p rfl reach n
  cases reach <;> rfl

theorem enrollClass (room : v.objects.HasRoom) (name : String) (metaclass : Handle) (supers : List Handle) :
    Rewrites terms v ((Lifecycle.enrollClass name metaclass supers).exec v).2 := by
  obtain ⟨turnover, -, registry⟩ := Turnover.enrollClass well room name metaclass supers
  refine .turnover turnover ?_ registry
  rintro p ⟨-, m, -, rfl⟩ reach n
  cases reach <;> rfl

theorem unlink {h : Handle} {o : Object} (live : v.live? h = some o) (root : o.isRoot = false)
    (permits : terms.careful → MayLeave terms.good v.objects h) :
    Rewrites terms v ((Lifecycle.unlink h).exec v).2 := by
  obtain ⟨turnover, -, registry⟩ := Turnover.unlink well live root
  exact .gone live turnover.definition?_of_gone registry permits

/-- Every deed is one of these. -/
theorem of_deed (remain : ∀ a, terms.good a → a.HandlesRemain) (deed : Deed Sober terms v w) : Rewrites terms v w := by
  cases deed with
  | aside sober => exact .kept (sober.core.comp _ Object.equipment_core).definition? sober.registry
  | precedenceOrder c => exact .relinks (.precedenceOrder well c)
  | mixinOrder h => exact .relinks (.mixinOrder well h)
  | filterOrder h => exact .relinks (.filterOrder well h)
  | setSuperclasses c supers => exact .relinks (.setSuperclasses well c supers)
  | changeClass h cls => exact .changeClass h cls v
  | setMixins reach on mixins => exact .relinks (.setMixins reach on mixins v)
  | setMixinGuard reach on cls guard => exact .relinks (.setMixinGuard reach on cls guard v)
  | setFilters reach on filters => exact .relinks (.setFilters reach on filters v)
  | setFilterGuard reach on name guard => exact .relinks (.setFilterGuard reach on name guard v)
  | defineMethod reach on method => exact .defineMethod reach on method v
  | removeMethod reach on name permits => exact .removeMethod reach on name permits
  | createSystem root metaclass methods permits => exact .createSystem well (remain _ permits) root metaclass methods
  | enroll name cls permits live isClass free => exact .enroll well (remain _ permits).hasRoom name live isClass free
  | enrollClass name metaclass supers permits => exact .enrollClass well (remain _ permits).hasRoom name metaclass supers
  | unlink h live root permits => exact .unlink well live root permits
  | release dead =>
    refine .kept (funext fun site => ?_) fun _ => .inl rfl
    rw [World.definition?_eq, live?_release dead, ← v.definition?_eq]

end Rewrites

/-- Entries are those of commands or of methods at their paths. -/
def EntriesSound (w : World) : Prop :=
  ∀ path r, w.registry.get? path = some r →
    r.owner = none ∨ ∃ site method, w.objects.definition? site = some (path, method) ∧ r = site.entry method

namespace EntriesSound

variable {terms : Terms} {v w : World} (sound : EntriesSound v)

include sound

theorem rewrites (rewrites : Rewrites terms v w) : EntriesSound w := by
  intro q r found
  cases rewrites with
  | kept definitions registry =>
    rcases registry q with same | ⟨command, here, free⟩
    · rw [definitions]
      exact sound q r (same ▸ found)
    · rw [here] at found
      cases found
      exact .inl free
  | defined site path method places definitions registry =>
    rw [registry, NameTable.get?_insert] at found
    split at found
    · next same =>
      cases found
      exact .inr ⟨site, method, by rw [definitions, Function.update_self, same], rfl⟩
    · next apart =>
      refine (sound q r found).imp_right ?_
      rintro ⟨s, n, defined, fits⟩
      have other : s ≠ site := by
        rintro rfl
        exact apart (places q n defined)
      exact ⟨s, n, by rw [definitions, Function.update_of_ne other, defined], fits⟩
  | removed site path method there definitions registry =>
    rw [registry, NameTable.get?_erase] at found
    split at found
    · cases found
    next elsewhere =>
    refine (sound q r found).imp_right ?_
    rintro ⟨s, n, defined, fits⟩
    have other : s ≠ site := by
      rintro rfl
      rw [there] at defined
      cases defined
      exact elsewhere rfl
    exact ⟨s, n, by rw [definitions, Function.update_of_ne other, defined], fits⟩
  | gone live definitions registry =>
    rw [registry, NameTable.get?_filter] at found
    obtain ⟨found, other⟩ := Option.filter_eq_some_iff.1 found
    refine (sound q r found).imp_right ?_
    rintro ⟨s, n, defined, rfl⟩
    have elsewhere : ¬s.on = _ := fun here => of_decide_eq_true other (congrArg some here)
    exact ⟨s, n, by rw [definitions, if_neg elsewhere, defined], rfl⟩

omit sound in
theorem start (settings : Settings) : EntriesSound { settings } := by
  intro path r found
  cases found

/-- What is registered for an object is the method that the object has at the path. -/
theorem exists_site {path : String} {r : Registration} {d : Handle} (found : v.registry.get? path = some r)
    (owned : r.owner = some d) : ∃ site : Site, site.on = d ∧ v.pathOf site = path ∧ v.Defines site r.method := by
  rcases sound path r found with free | ⟨site, method, defined, rfl⟩
  · cases owned.symm.trans free
  · obtain ⟨defines, leads⟩ := World.definition?_eq_some_iff.1 defined
    exact ⟨site, Option.some.inj owned, leads, defines⟩

/-- Entries stay sound whatever is done. -/
theorem develops {loose : Handle → Prop} (well : WellFormed loose v) (remain : ∀ a, terms.good a → a.HandlesRemain)
    (path : Develops terms v w) : EntriesSound w := by
  induction path with
  | refl => exact sound
  | tail path last ih => exact ih.rewrites (.of_deed (well.evolves remain (Develops.evolves path)) remain last)

end EntriesSound

/-- Entries are those of methods or commands. Every method has its entry, or a command has taken its path, or another
method has the same path. -/
structure Registered (w : World) : Prop where
  sound : ∀ path r, w.registry.get? path = some r →
    r.owner = none ∨ ∃ site method, w.objects.definition? site = some (path, method) ∧ r = site.entry method
  complete : ∀ site path method, w.objects.definition? site = some (path, method) →
    (∃ r, w.registry.get? path = some r ∧ (r.owner = none ∨ r = site.entry method)) ∨
      ∃ other method', other ≠ site ∧ w.objects.definition? other = some (path, method')

namespace Registered

variable {v w : World} (registered : Registered v)

include registered

/-- The entries stay complete if methods are removed and objects with methods go only while no two methods have the same
path. -/
theorem rewrites {good : Objects → Prop} (apart : ∀ a, good a → a.PathsApart)
    (rewrites : Rewrites ⟨good, True⟩ v w) : Registered w := by
  refine ⟨EntriesSound.rewrites registered.sound rewrites, fun s q n defined => ?_⟩
  cases rewrites with
  | kept definitions registry =>
    rw [definitions] at defined ⊢
    refine (registered.complete s q n defined).imp_left ?_
    rintro ⟨r, found, fits⟩
    rcases registry q with same | ⟨command, here, free⟩
    · exact ⟨r, same.trans found, fits⟩
    · exact ⟨command, here, .inl free⟩
  | defined site path method places definitions registry =>
    have here : w.objects.definition? site = some (path, method) := by rw [definitions, Function.update_self]
    have others : ∀ s, s ≠ site → w.objects.definition? s = v.objects.definition? s := fun s other => by
      rw [definitions, Function.update_of_ne other]
    by_cases same : s = site
    · subst same
      rw [here] at defined
      cases defined
      exact .inl ⟨_, by rw [registry, NameTable.get?_insert, if_pos rfl], .inr rfl⟩
    by_cases taken : q = path
    · exact .inr ⟨site, method, fun clash => same clash.symm, taken ▸ here⟩
    rw [others s same] at defined
    refine (registered.complete s q n defined).imp ?_ ?_
    · rintro ⟨r, found, fits⟩
      exact ⟨r, by rw [registry, NameTable.get?_insert, if_neg taken, found], fits⟩
    · rintro ⟨t, n', clash, there⟩
      have other : t ≠ site := by
        rintro rfl
        exact taken (places q n' there)
      exact ⟨t, n', clash, (others t other).trans there⟩
  | removed site path method there definitions registry permits =>
    have apart := apart _ (permits trivial)
    have other : s ≠ site := by
      rintro rfl
      rw [definitions, Function.update_self] at defined
      cases defined
    rw [definitions, Function.update_of_ne other] at defined
    have elsewhere : q ≠ path := by
      rintro rfl
      exact other (apart s site q n method defined there)
    rcases registered.complete s q n defined with ⟨r, found, fits⟩ | ⟨t, n', clash, same⟩
    · exact .inl ⟨r, by rw [registry, NameTable.get?_erase, if_neg elsewhere, found], fits⟩
    · exact absurd (apart t s q n' n same defined) clash
  | @gone h o live definitions registry permits =>
    rw [definitions] at defined
    split at defined
    · cases defined
    next elsewhere =>
    rcases registered.complete s q n defined with ⟨r, found, fits⟩ | ⟨t, n', clash, same⟩
    · refine .inl ⟨r, ?_, fits⟩
      have other : r.owner ≠ some h := by
        rcases fits with free | rfl
        · rw [free]
          exact nofun
        · exact fun here => elsewhere (Option.some.inj here)
      rw [registry, NameTable.get?_filter, found]
      exact Option.filter_some_pos (by simpa using other)
    · cases permits trivial with
      | settled here alike => exact absurd (((apart _ here).of_alike alike) t s q n' n same defined) clash
      | blank found blank =>
        -- Nothing is defined at an object that leaves while it is blank.
        have kept : t.on ≠ h := by
          rintro rfl
          rw [(World.live?_eq_some_iff.1 live).1] at found
          cases found
          rw [v.definition?_eq, live, Option.bind_some, blank.definition?] at same
          cases same
        exact .inr ⟨t, n', clash, by rw [definitions, if_neg kept, same]⟩

theorem develops {loose : Handle → Prop} (well : WellFormed loose v) {good : Objects → Prop}
    (remain : ∀ a, good a → a.HandlesRemain) (apart : ∀ a, good a → a.PathsApart)
    (path : Develops ⟨good, True⟩ v w) : Registered w := by
  induction path with
  | refl => exact registered
  | tail path last ih => exact ih.rewrites apart (.of_deed (well.evolves remain (Develops.evolves path)) remain last)

end Registered

/-! ## Handles of methods -/

/-- The site of what a search without filters and mixins finds. -/
def siteOf (h : Handle) (name : String) : Option Handle → Site
  | none => ⟨.object, h, name⟩
  | some c => ⟨.instances, c, name⟩

namespace Invocation

variable {host : Host} {h : Handle} {name : String} {method : Method} {definer : Option Handle} {v w : World}

theorem defines_of_searchClasses {classes : List Handle}
    (done : (searchClasses name classes).exec w = (.ok (some (method, definer)), v)) :
    v.Defines (siteOf h name definer) method := by
  induction classes with
  | nil => cases done
  | cons c rest ih =>
    obtain ⟨part, t, asked, rest⟩ := Update.exec_bind_eq_ok done
    obtain ⟨⟨o, live, isPart⟩, rfl⟩ := Update.exec_classPart_eq_ok asked
    cases taught : (part.methods.get? name).filter (!·.isPrivate) with
    | none =>
      rw [taught] at rest
      exact ih rest
    | some found =>
      rw [taught] at rest
      cases rest
      obtain ⟨listed, -⟩ := Option.filter_eq_some_iff.1 taught
      exact ⟨o, part.methods, live, by simp [siteOf, Object.methods?, isPart], listed⟩

/-- What is found is defined where it is said to be. -/
theorem defines_of_searchObject (done : (searchObject h name).exec w = (.ok (some (method, definer)), v)) :
    v.Defines (siteOf h name definer) method := by
  obtain ⟨o, t, asked, rest⟩ := Update.exec_bind_eq_ok done
  obtain ⟨live, rfl⟩ := Update.exec_object_eq_ok asked
  cases own : ownMethod? o name with
  | some found =>
    rw [own] at rest
    cases rest
    obtain ⟨listed, -⟩ := Option.filter_eq_some_iff.1 own
    exact ⟨o, o.methods, live, rfl, listed⟩
  | none =>
    rw [own] at rest
    obtain ⟨order, u, -, searched⟩ := Update.exec_bind_eq_ok rest
    exact defines_of_searchClasses searched

/-- A call past all filters, mixins and permissions starts with what the search finds. -/
theorem exec_resolve_intrinsic (simple : Definition.isQualified name = false)
    (searched : (searchObject h name).exec w = (.ok (some (method, definer)), v)) :
    (resolve host h name { intrinsicOnly := true, ignorePermissions := true }).exec w =
      some (.ok (some { method, definer, kind := .plain, name }), v) := by
  have plain : (resolvePlain h name { intrinsicOnly := true, ignorePermissions := true }).exec w =
      (.ok (some { method, definer, kind := .plain, name }), v) := by
    unfold resolvePlain
    simp only [simple, Bool.false_eq_true, if_false]
    exact (Update.exec_bind_of_ok searched _).trans rfl
  unfold resolve interceptable
  simp only [Bool.or_true, Bool.not_true, Bool.and_false, Bool.not_false, if_true]
  exact (Action.exec_liftM _ w).trans (congrArg some plain)

/-- A call by path starts with what is registered there. -/
theorem exec_resolve_registered {path : String} (qualified : Definition.isQualified path = true)
    (found : w.registry.get? path = some ((siteOf h name definer).entry method)) (mods : CallModifiers) :
    (resolve host h path mods).exec w = some (.ok (some { method, definer, kind := .plain, name := path }), w) := by
  have registered : searchRegistry w path = some (method, definer) := by
    rw [searchRegistry, found]
    cases definer <;> rfl
  have plain : (resolvePlain h path mods).exec w =
      (.ok (some { method, definer, kind := .plain, name := path }), w) := by
    unfold resolvePlain
    simp only [qualified, if_true]
    rw [Update.exec_bind_of_ok (Update.exec_get w), Update.exec_bind_of_ok (Update.exec_pure _ w), registered]
    rfl
  unfold resolve interceptable
  simp only [qualified, Bool.not_true, Bool.false_and, Bool.not_false, if_true]
  exact (Action.exec_liftM _ w).trans (congrArg some plain)

end Invocation

namespace Definition

theorem isQualified_append {a : String} (qualified : isQualified a = true) (b : String) :
    isQualified (a ++ b) = true := by
  rw [isQualified, List.isPrefixOf_iff_prefix] at *
  rw [String.toList_append]
  exact qualified.trans (List.prefix_append _ _)

theorem isQualified_qualify (name : String) : isQualified (qualify name) = true := by
  unfold qualify
  split
  · assumption
  · exact isQualified_append (by decide) name

theorem isQualified_methodPath (w : World) (reach : Reach) (on : Handle) (name : String) :
    isQualified (methodPath w reach on name) = true := by
  cases reach with
  | object => exact isQualified_append (isQualified_append (isQualified_qualify _) _) _
  | instances =>
    exact isQualified_append (isQualified_append (isQualified_append (by decide) _) _) _

end Definition

/-- What the registry tells of methods. -/
structure RegistryAgrees (w : World) : Prop where
  /-- Every entry is that of a command or of the method at its path. -/
  sound : ∀ path r, w.registry.get? path = some r →
    r.owner = none ∨ ∃ site method, w.Defines site method ∧ w.pathOf site = path ∧ r = site.entry method
  /-- At the path of every method there is its entry, or that of a command. -/
  complete : ∀ site method, w.Defines site method →
    ∃ r, w.registry.get? (w.pathOf site) = some r ∧ (r.owner = none ∨ r = site.entry method)
  /-- Unless a command has taken its path, a call by the handle of a method starts as a call by name past all filters,
  mixins and permissions does. -/
  leads : ∀ (host : Host) (h : Handle) (name : String) (handle : Inspection.MethodHandle) (v : World),
    Definition.isQualified name = false → (Inspection.methodHandle? h name).exec w = (.ok (some handle), v) →
    ∃ r method definer, v.registry.get? handle.path = some r ∧
      (Invocation.resolve host h name { intrinsicOnly := true, ignorePermissions := true }).exec w =
        some (.ok (some { method, definer, kind := .plain, name }), v) ∧
      (r.owner = none ∨ ∀ mods, (Invocation.resolve host h handle.path mods).exec v =
        some (.ok (some { method, definer, kind := .plain, name := handle.path }), v))

section agreement

variable {w : World}

theorem Registered.exists_entry (registered : Registered w) (apart : w.objects.PathsApart) {site : Site}
    {method : Method} (defines : w.Defines site method) :
    ∃ r, w.registry.get? (w.pathOf site) = some r ∧ (r.owner = none ∨ r = site.entry method) := by
  have here := World.definition?_eq_some_iff.2 ⟨defines, rfl⟩
  rcases registered.complete site _ method here with found | ⟨other, method', different, clash⟩
  · exact found
  · exact absurd (apart other site _ method' method clash here) different

theorem Registered.agrees (registered : Registered w) (proper : Proper w) (apart : w.objects.PathsApart) :
    RegistryAgrees w := by
  refine ⟨fun path r found => ?_, fun site method defines => registered.exists_entry apart defines, ?_⟩
  · refine (registered.sound path r found).imp_right ?_
    rintro ⟨site, method, defined, fits⟩
    obtain ⟨defines, leads⟩ := World.definition?_eq_some_iff.1 defined
    exact ⟨site, method, defines, leads, fits⟩
  intro host h name handle v simple asked
  unfold Inspection.methodHandle? at asked
  rw [Update.exec_bind_of_ok (Update.exec_get w)] at asked
  simp only [simple, Bool.false_eq_true, if_false] at asked
  obtain ⟨found, t, searched, answered⟩ := Update.exec_bind_eq_ok asked
  match found with
  | none => cases answered
  | some (method, definer) =>
    obtain ⟨r, b, done, filled⟩ := proper.filled_of_along (Consults.along_searchObject h name)
    rw [searched] at done
    obtain ⟨-, rfl⟩ := Prod.mk.inj done
    have same : b.definition? = w.objects.definition? :=
      ((filled.alike.comp _ fun o => o.apart_withoutPrecedence.symm).comp _ Object.equipment_apart).definition?
    have defined : w.objects.definition? (siteOf h name definer) = _ :=
      (congrFun same _).symm.trans (World.definition?_eq_some_iff.2 ⟨Invocation.defines_of_searchObject searched, rfl⟩)
    have defines := (World.definition?_eq_some_iff.1 defined).1
    obtain ⟨r, here, fits⟩ := registered.exists_entry apart defines
    have path : handle.path = w.pathOf (siteOf h name definer) ∧ v = { w with objects := b } := by
      cases definer <;> · cases answered; exact ⟨rfl, rfl⟩
    obtain ⟨leads, rfl⟩ := path
    rw [leads]
    refine ⟨r, method, definer, here, Invocation.exec_resolve_intrinsic simple searched, fits.imp_right ?_⟩
    rintro rfl mods
    have there : World.registry { w with objects := b } = w.registry := rfl
    rw [← there] at here
    exact Invocation.exec_resolve_registered (Definition.isQualified_methodPath w _ _ _) here mods

/-- The registry agrees wherever handles remain and paths are apart on the way, whatever else is asked of heaps. -/
theorem RegistryAgrees.of_reachable {good : Objects → Prop} (remain : ∀ a, good a → a.HandlesRemain)
    (keepApart : ∀ a, good a → a.PathsApart) (reached : Reachable good w) (apart : w.objects.PathsApart) :
    RegistryAgrees w := by
  obtain ⟨settings, path⟩ := reached.develops remain
  have start : Registered { settings } := by
    refine ⟨fun _ _ found => ?_, fun site _ _ defined => ?_⟩
    · cases found
    · cases defined
  exact (start.develops (proper_start settings) remain keepApart path).agrees (reached.proper remain) apart

/-- The registry agrees with the method tables as long as names are plain. -/
theorem RegistryAgrees.of_plainlyNamed (reached : Reachable (fun a => a.HandlesRemain ∧ a.PlainlyNamed) w)
    (plain : w.objects.PlainlyNamed) : RegistryAgrees w :=
  .of_reachable (fun _ good => good.1) (fun _ good => good.2.pathsApart) reached plain.pathsApart

/-- As long as no two methods have the same path, the registry agrees with the method tables, whatever is defined,
removed and destroyed. -/
theorem Reachable.registryAgrees (reached : Reachable (fun a => a.HandlesRemain ∧ a.PathsApart) w)
    (apart : w.objects.PathsApart) : RegistryAgrees w :=
  .of_reachable (fun _ good => good.1) (fun _ good => good.2) reached apart

/-- A session in which methods are defined, one of them is removed, and a class goes with another. -/
def describingSession : List Expr :=
  [foundation, Trial.createClass "C", Trial.define .instances "C" (Trial.method "describe" (.literal .nil)),
    Trial.createSubclass "D" ["C"], Trial.define .instances "D" (Trial.method "describe" (.literal .nil)),
    Trial.createObject "o" "D", Trial.define .object "o" (Trial.method "own" (.literal .nil)),
    .ofName (.removeMethod .instances) (.name "D") (Trial.text "describe"), Trial.createClass "E",
    Trial.define .instances "E" (Trial.method "describe" (.literal .nil)), .ofObject .destroy (.name "E")]

def describedWorld : World :=
  (sessionWithin (fun a => a.HandlesRemain ∧ a.PathsApart) 3 describingSession).get (by decide +kernel)

theorem registryAgrees_described : RegistryAgrees describedWorld ∧
    describedWorld.registry.names = ["::classes::C::describe", "::o::own"] ∧
    ((Inspection.methodHandle? ⟨4, 0⟩ "describe").exec describedWorld).1.toOption.map (·.map (·.path)) =
      some (some "::classes::C::describe") :=
  ⟨Reachable.registryAgrees (.sessionWithin (Option.some_get _).symm) (by decide +kernel), by decide +kernel,
    by decide +kernel⟩

/-- A session in which an object is named like the place of the methods of a class. -/
def namesakeSession : List Expr :=
  [foundation, Trial.createClass "C", Trial.define .instances "C" (Trial.method "describe" (.literal .nil)),
    Trial.createObject "o" "C", Trial.createObject "classes::C" "C",
    Trial.define .object "classes::C" (Trial.method "describe" (.literal .nil))]

def namesakeWorld : World :=
  (sessionWithin Heap.HandlesRemain 3 namesakeSession).get (by decide +kernel)

/-- Its own method then takes the place of the method of the class, to which handles still lead by name only. -/
theorem not_registryAgrees_namesake : Reachable Heap.HandlesRemain namesakeWorld ∧ ¬RegistryAgrees namesakeWorld ∧
    ((Inspection.methodHandle? ⟨3, 0⟩ "describe").exec namesakeWorld).1.toOption.map (·.map (·.path)) =
      some (some "::classes::C::describe") ∧
    (namesakeWorld.registry.get? "::classes::C::describe").map (·.owner) = some (some ⟨4, 0⟩) := by
  have owner : (namesakeWorld.registry.get? "::classes::C::describe").map (·.owner) = some (some ⟨4, 0⟩) := by
    decide +kernel
  refine ⟨.sessionWithin (Option.some_get _).symm, fun agrees => ?_, by decide +kernel, owner⟩
  have taught : ((namesakeWorld.live? ⟨2, 0⟩).bind fun o =>
      (o.methods? .instances).bind (·.get? "describe")).isSome := by
    decide +kernel
  obtain ⟨method, found⟩ := Option.isSome_iff_exists.1 taught
  obtain ⟨o, live, found⟩ := Option.bind_eq_some_iff.1 found
  obtain ⟨table, isTable, listed⟩ := Option.bind_eq_some_iff.1 found
  obtain ⟨r, here, fits⟩ := agrees.complete ⟨.instances, ⟨2, 0⟩, "describe"⟩ method ⟨o, table, live, isTable, listed⟩
  have path : namesakeWorld.pathOf ⟨.instances, ⟨2, 0⟩, "describe"⟩ = "::classes::C::describe" := by decide +kernel
  rw [path] at here
  rw [here] at owner
  have taken : r.owner = some ⟨4, 0⟩ := Option.some.inj owner
  rcases fits with free | rfl
  · rw [free] at taken
    cases taken
  · cases taken

end agreement

end DynamicObjects
