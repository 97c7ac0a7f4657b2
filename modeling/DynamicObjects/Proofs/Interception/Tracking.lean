import DynamicObjects.Proofs.Structure.Destruction
import DynamicObjects.Proofs.Structure.Founding
import DynamicObjects.Proofs.Structure.Reclassing

/-!
# Tracking who registers filters

A world keeps, for every name, who registers a filter of this name. There is one entry for the filters a class registers
for itself and those it registers for its instances, so the entries are complete as long as no class registers a name
both ways.
-/
namespace DynamicObjects

/-- The names of the filters registered on an object for itself or, on a class, for its instances. -/
def Object.filterNames (o : Object) (reach : Reach) : Option (List String) :=
  (o.registrations? reach).map fun r => r.filters.map (·.target)

/-- What tells whose filters are to be tracked. -/
def Object.filing (o : Object) : Bool × (Reach → Option (List String)) :=
  (o.deleted, o.filterNames)

namespace World

variable {v w : World}

/-- The names of the filters registered on a live object. -/
def filterNames (w : World) (reach : Reach) (h : Handle) : List String :=
  ((w.live? h).bind (·.filterNames reach)).getD []

/-- Who is tracked as registering a filter of this name. -/
def usersOfFilter (w : World) (name : String) : HandleSet :=
  (w.filterUsers.get? name).getD .empty

theorem filterNames_of_alike {h : Handle}
    (alike : (w.objects.get? h).map Object.filing = (v.objects.get? h).map Object.filing) (reach : Reach) :
    w.filterNames reach h = v.filterNames reach h := by
  have unfolded : ∀ u : World, u.filterNames reach h = ((u.objects.get? h).map Object.filing).elim [] fun l =>
      if l.1 then [] else (l.2 reach).getD [] := by
    intro u
    unfold filterNames live?
    cases u.objects.get? h with
    | none => rfl
    | some o => cases gone : o.deleted <;> simp [Option.filter, Object.filing, gone]
  rw [unfolded, unfolded, alike]

theorem filterNames_of_vacant {h : Handle} (vacant : w.objects.get? h = none) (reach : Reach) :
    w.filterNames reach h = [] := by
  rw [filterNames, live?, vacant]
  rfl

end World

/-- Whoever registers a filter is tracked. -/
def FiltersTracked (w : World) : Prop :=
  ∀ reach user name, name ∈ w.filterNames reach user → user ∈ w.usersOfFilter name

/-- Whoever is tracked registers a filter. -/
def UsersRegister (w : World) : Prop :=
  ∀ user name, user ∈ w.usersOfFilter name → ∃ reach, name ∈ w.filterNames reach user

/-! ## Entering and dropping users -/

namespace Interception

/-- Takes a user off one filter. -/
def dropUser (user : Handle) (users : NameTable HandleSet) (f : Filter) : NameTable HandleSet :=
  match users.get? f.target with
  | some found =>
    let left := found.erase user
    if left.toList.isEmpty then users.erase f.target else users.insert f.target left
  | none => users

/-- Enters a user for one filter. -/
def trackUser (user : Handle) (users : NameTable HandleSet) (f : Filter) : NameTable HandleSet :=
  users.insert f.target (((users.get? f.target).getD .empty).insert user)

theorem tracked_eq (user : Handle) (old new : List Filter) (w : World) :
    tracked user old new w = new.foldl (trackUser user) (old.foldl (dropUser user) w.filterUsers) := rfl

variable {user other : Handle} {name : String}

theorem mem_dropUser (users : NameTable HandleSet) (f : Filter) :
    other ∈ ((dropUser user users f).get? name).getD .empty ↔
      other ∈ (users.get? name).getD .empty ∧ ¬(other = user ∧ name = f.target) := by
  have empty : other ∉ HandleSet.empty := List.not_mem_nil
  unfold dropUser
  by_cases same : name = f.target
  · subst same
    cases found : users.get? f.target with
    | none => simp [found, empty]
    | some known =>
      by_cases last : (known.erase user).toList.isEmpty
      · have gone : other ∉ known.erase user := by
          intro member
          have listed : other ∈ (known.erase user).toList := member
          rw [List.isEmpty_iff.1 last] at listed
          cases listed
        rw [HandleSet.mem_erase] at gone
        simp only [last, if_true, NameTable.get?_erase, Option.getD_none, Option.getD_some, empty, false_iff]
        tauto
      · simp [last, HandleSet.mem_erase]
  · cases found : users.get? f.target with
    | none => simp [same]
    | some known =>
      by_cases last : (known.erase user).toList.isEmpty <;> simp [last, same]

theorem mem_trackUser (users : NameTable HandleSet) (f : Filter) :
    other ∈ ((trackUser user users f).get? name).getD .empty ↔
      other ∈ (users.get? name).getD .empty ∨ (other = user ∧ name = f.target) := by
  unfold trackUser
  by_cases same : name = f.target
  · subst same
    simp [or_comm]
  · simp [same]

/-- A user leaves the names it registered before and enters under those it registers now. -/
theorem mem_tracked {old new : List Filter} {w : World} :
    other ∈ ((tracked user old new w).get? name).getD .empty ↔
      (other ∈ w.usersOfFilter name ∧ ¬(other = user ∧ name ∈ old.map (·.target))) ∨
        (other = user ∧ name ∈ new.map (·.target)) := by
  have dropped : ∀ (fs : List Filter) (users : NameTable HandleSet),
      other ∈ ((fs.foldl (dropUser user) users).get? name).getD .empty ↔
        other ∈ (users.get? name).getD .empty ∧ ¬(other = user ∧ name ∈ fs.map (·.target)) := by
    intro fs
    induction fs with
    | nil => simp
    | cons f fs ih =>
      intro users
      rw [List.foldl_cons, ih, mem_dropUser, List.map_cons, List.mem_cons]
      tauto
  have entered : ∀ (fs : List Filter) (users : NameTable HandleSet),
      other ∈ ((fs.foldl (trackUser user) users).get? name).getD .empty ↔
        other ∈ (users.get? name).getD .empty ∨ (other = user ∧ name ∈ fs.map (·.target)) := by
    intro fs
    induction fs with
    | nil => simp
    | cons f fs ih =>
      intro users
      rw [List.foldl_cons, ih, mem_trackUser, List.map_cons, List.mem_cons]
      tauto
  rw [tracked_eq, entered, dropped]
  rfl

end Interception

/-! ## What keeps users tracked -/

/-- A class registers no filter of the same name both for itself and for its instances. -/
def Object.FiltersApart (o : Object) : Prop :=
  ∀ name ∈ (o.filterNames .object).getD [], name ∉ (o.filterNames .instances).getD []

def Heap.FiltersApart (objects : Objects) : Prop :=
  ∀ h o, objects.get? h = some o → o.FiltersApart

namespace Object

variable (reach : Reach) (o : Object)

theorem filing_mapInstances (f : HandleSet → HandleSet) : (o.mapInstances f).filing = o.filing := by
  refine Prod.ext rfl (funext fun reach => ?_)
  cases reach <;> simp [filing, filterNames, registrations?, mapInstances, mapClass, Function.comp_def]

theorem filing_mapUsers (f : List Handle → List Handle) : (o.mapClass (·.mapUsers reach f)).filing = o.filing := by
  refine Prod.ext rfl (funext fun other => ?_)
  simp only [filing, filterNames, Interception.registrations?_mapUsers]

theorem filing_mapMethods (f : NameTable Method → NameTable Method) : (o.mapMethods reach f).filing = o.filing := by
  refine Prod.ext (by cases reach <;> rfl) (funext fun other => ?_)
  cases reach <;> cases other <;>
    simp [filing, filterNames, registrations?, mapMethods, mapClass, Function.comp_def]

theorem filterNames_mapRegistrations (other : Reach) (f : Registrations → Registrations) :
    (o.mapRegistrations reach f).filterNames other =
      if other = reach then (o.registrations? other).map fun r => (f r).filters.map (·.target)
      else o.filterNames other := by
  unfold filterNames
  rw [registrations?_mapRegistrations]
  split
  · rw [Option.map_map]
    rfl
  · rfl

theorem filing_mapRegistrations {f : Registrations → Registrations}
    (keeps : ∀ r, (f r).filters.map (·.target) = r.filters.map (·.target)) :
    (o.mapRegistrations reach f).filing = o.filing := by
  refine Prod.ext (by cases reach <;> rfl) (funext fun other => ?_)
  change (o.mapRegistrations reach f).filterNames other = o.filterNames other
  rw [filterNames_mapRegistrations]
  simp only [keeps]
  exact ite_self _

theorem filing_withoutPrecedence : o.withoutPrecedence.filing = o.filing := by
  refine Prod.ext rfl (funext fun reach => ?_)
  cases reach <;> simp [filing, filterNames, registrations?, withoutPrecedence, Function.comp_def]

theorem filing_withoutAncestry : o.withoutAncestry.filing = o.filing := by
  refine Prod.ext rfl (funext fun reach => ?_)
  cases reach <;> simp [filing, filterNames, registrations?, withoutAncestry, Function.comp_def]

end Object

/-- After the filters on `on` are replaced. -/
theorem World.filterNames_of_replaced {v w : World} {s : Handle → Prop} {reach : Reach} {on : Handle} {r : Registrations}
    {filters : List Filter} (found : v.registrations? reach on = some r)
    (forgets : Forgets s (v.objects.modify on (Object.mapRegistrations reach ({ · with filters }))) w.objects)
    (other : Reach) (h : Handle) : w.filterNames other h =
      if h = on ∧ other = reach then filters.map (·.target) else v.filterNames other h := by
  have same : w.filterNames other h = World.filterNames
      { v with objects := v.objects.modify on (Object.mapRegistrations reach ({ · with filters })) } other h :=
    World.filterNames_of_alike ((forgets.alike fun _ => rfl).view h) other
  have live := (Heap.Remade.modify v.objects on (Object.mapRegistrations reach ({ · with filters }))).live?
    (v := v) (w := { v with objects := v.objects.modify on _ }) (fun k o => by
      split
      · cases reach <;> rfl
      · rfl) h
  rw [same]
  unfold World.filterNames
  rw [live]
  by_cases here : h = on
  · subst here
    obtain ⟨o, before, registered⟩ := Option.bind_eq_some_iff.1 found
    by_cases which : other = reach
    · subst which
      simp [before, Object.filterNames_mapRegistrations, registered]
    · simp [before, Object.filterNames_mapRegistrations, which]
  · simp [here]

/-- The same filters are registered, and the same users are tracked. -/
structure KeepsFilters (v w : World) : Prop where
  names : ∀ reach h, w.filterNames reach h = v.filterNames reach h
  users : w.filterUsers = v.filterUsers

namespace KeepsFilters

variable {loose : Handle → Prop} {u v w : World}

theorem refl (v : World) : KeepsFilters v v :=
  ⟨fun _ _ => rfl, rfl⟩

theorem trans (first : KeepsFilters u v) (second : KeepsFilters v w) : KeepsFilters u w :=
  ⟨fun reach h => (second.names reach h).trans (first.names reach h), second.users.trans first.users⟩

theorem of_alike (alike : Heap.Alike Object.filing v.objects w.objects) (users : w.filterUsers = v.filterUsers) :
    KeepsFilters v w :=
  ⟨fun reach h => World.filterNames_of_alike (alike.view h) reach, users⟩

/-- Changing one object in place and forgetting orders. -/
theorem of_modify {s : Handle → Prop} {on : Handle} {f : Object → Object}
    (forgets : Forgets s (v.objects.modify on f) w.objects) (keeps : ∀ o, (f o).filing = o.filing)
    (users : w.filterUsers = v.filterUsers) : KeepsFilters v w :=
  .of_alike ((Heap.Alike.modify v.objects on keeps).trans (forgets.alike fun _ => rfl)) users

theorem of_filled (filled : Filled v.objects w.objects) (users : w.filterUsers = v.filterUsers) : KeepsFilters v w :=
  .of_alike (filled.alike.comp Object.filing fun o => o.filing_withoutPrecedence.symm) users

/-- One object, which registers no filters before or afterwards, may come or go. -/
theorem of_others {h : Handle} (before : ∀ reach, v.filterNames reach h = [])
    (after : ∀ reach, w.filterNames reach h = [])
    (others : ∀ k, k ≠ h → (w.objects.get? k).map Object.filing = (v.objects.get? k).map Object.filing)
    (users : w.filterUsers = v.filterUsers) : KeepsFilters v w := by
  refine ⟨fun reach k => ?_, users⟩
  by_cases here : k = h
  · rw [here, before, after]
  · exact World.filterNames_of_alike (others k here) reach

/-- An object that registers no filters arrives. -/
theorem of_arrives {h : Handle} {o : Object} (arrives : Arrives h o v.objects w.objects)
    (blank : ∀ reach, (o.filterNames reach).getD [] = []) (users : w.filterUsers = v.filterUsers) :
    KeepsFilters v w := by
  refine of_others (World.filterNames_of_vacant arrives.vacant) (fun reach => ?_) (fun k other => ?_) users
  · unfold World.filterNames World.live?
    rw [arrives.get?_self]
    cases gone : o.deleted <;> simp [Option.filter, gone, blank]
  · rw [arrives.get?, if_neg other]

theorem of_mapInstances {c : Handle} {g : HandleSet → HandleSet}
    (objects : w.objects = v.objects.modify c (Object.mapInstances g)) (users : w.filterUsers = v.filterUsers) :
    KeepsFilters v w :=
  .of_alike (objects ▸ .modify v.objects c fun o => o.filing_mapInstances g) users

/-! ## Changes of links, mixins and methods -/

theorem setSuperclasses (well : WellFormed loose v) (c : Handle) (supers : List Handle) :
    KeepsFilters v ((Hierarchy.setSuperclasses c supers).exec v).2 := by
  have blind : ∀ {a b : Objects}, Heap.Alike Object.withoutAncestry a b → Heap.Alike Object.filing a b :=
    fun alike => alike.comp Object.filing fun o => o.filing_withoutAncestry.symm
  rcases well.exec_setSuperclasses c supers with ⟨e, b, failed, after⟩ |
    ⟨o, new, a, b, -, -, -, -, -, done, after, -, forgets⟩
  · rw [failed]
    exact .of_alike (blind after.alike) rfl
  · rw [done]
    exact .of_alike ((blind after.alike).trans (forgets.alike fun _ => rfl)) rfl

theorem changeClass (v : World) (h cls : Handle) : KeepsFilters v ((Lifecycle.changeClass h cls).exec v).2 := by
  rcases Lifecycle.exec_changeClass h cls v with ⟨r, kept⟩ | ⟨o, a, b, -, -, -, done, remade, forgets⟩
  · rw [kept]
    exact .refl v
  · rw [done]
    refine .of_alike ((remade.alike fun k o _ => ?_).trans (forgets.alike fun _ => rfl)) rfl
    exact view_reclassed (fun f o => o.filing_mapInstances f) (fun _ => rfl) k o

theorem setMixins (v : World) (reach : Reach) (on : Handle) (mixins : List Mixin) :
    KeepsFilters v ((Interception.setMixins reach on mixins).exec v).2 := by
  rcases Interception.exec_setMixins reach on mixins v with ⟨e, failed⟩ | ⟨r, a, b, -, -, done, remade, forgets⟩
  · rw [failed]
    exact .refl v
  · rw [done]
    refine .of_alike ((remade.alike fun k o _ => ?_).trans (forgets.alike fun _ => rfl)) rfl
    exact Interception.view_remixed (fun f o => o.filing_mapUsers reach f)
      (fun o => o.filing_mapRegistrations reach fun _ => rfl) k o

theorem setMixinGuard (v : World) (reach : Reach) (on cls : Handle) (guard : Option Predicate) :
    KeepsFilters v ((Interception.setMixinGuard reach on cls guard).exec v).2 := by
  rcases Interception.exec_setMixinGuard reach on cls guard v with ⟨e, failed⟩ | ⟨r, b, -, done, forgets⟩
  · rw [failed]
    exact .refl v
  · rw [done]
    exact .of_modify forgets (fun o => o.filing_mapRegistrations reach fun _ => rfl) rfl

theorem setFilterGuard (v : World) (reach : Reach) (on : Handle) (name : String) (guard : Option Predicate) :
    KeepsFilters v ((Interception.setFilterGuard reach on name guard).exec v).2 := by
  rcases Interception.exec_setFilterGuard reach on name guard v with ⟨e, failed⟩ | ⟨r, b, -, done, forgets⟩
  · rw [failed]
    exact .refl v
  · rw [done]
    refine .of_modify forgets (fun o => o.filing_mapRegistrations reach fun r => ?_) rfl
    exact Interception.map_target_modifyFirst (by intro _; rfl) r.filters

theorem defineMethod (v : World) (reach : Reach) (on : Handle) (method : Method) :
    KeepsFilters v ((Definition.defineMethod reach on method).exec v).2 := by
  rcases Definition.exec_defineMethod reach on method v with ⟨e, failed⟩ | ⟨o, table, b, -, -, done, forgets⟩
  · rw [failed]
    exact .refl v
  · rw [done]
    exact .of_modify forgets (fun o => o.filing_mapMethods reach _) rfl

theorem removeMethod (v : World) (reach : Reach) (on : Handle) (name : String) :
    KeepsFilters v ((Definition.removeMethod reach on name).exec v).2 := by
  rcases Definition.exec_removeMethod reach on name v with ⟨e, failed⟩ | ⟨o, table, b, -, -, -, done, forgets⟩
  · rw [failed]
    exact .refl v
  · rw [done]
    exact .of_modify forgets (fun o => o.filing_mapMethods reach _) rfl

/-! ## Arrivals -/

/-- The slot of an object that registers no filters is reclaimed. -/
theorem release {h : Handle} (before : ∀ reach, v.filterNames reach h = []) :
    KeepsFilters v { v with objects := v.objects.release h } := by
  refine of_others before (fun reach => ?_) (fun k other => ?_) rfl
  · rw [World.filterNames, World.live?, Heap.get?_release, if_pos rfl]
    rfl
  · rw [Heap.get?_release, if_neg other]

theorem enroll (well : WellFormed loose v) (room : v.objects.HasRoom) {o : Object} (unlinked : o.Unlinked)
    (cls : v.isClass o.cls = true) (free : v.names.get? o.name = none) (system : ∃ s, v.systems[o.system]? = some s)
    (root : o.isRoot = false) (blank : ∀ reach, (o.filterNames reach).getD [] = []) :
    KeepsFilters v ((Lifecycle.enroll o).exec v).2 := by
  obtain ⟨h, a, arrives, -, done, -⟩ := well.exec_enroll room unlinked cls free system root
  rw [done]
  have entered : KeepsFilters v { v with objects := a } := .of_arrives arrives blank rfl
  exact entered.trans (.of_mapInstances rfl rfl)

theorem enrollClass (well : WellFormed loose v) (room : v.objects.HasRoom) (name : String) (metaclass : Handle)
    (supers : List Handle) : KeepsFilters v ((Lifecycle.enrollClass name metaclass supers).exec v).2 := by
  rcases well.exec_enrolledClass room name metaclass supers with ⟨r, kept⟩ |
    ⟨p, h, a, u, -, -, arrives, -, -, is, wellAfter, outcome⟩
  · rw [kept]
    exact .refl v
  have blank : ∀ reach, ((Object.newClass (Definition.qualify name) metaclass p.system).filterNames reach).getD [] = [] :=
    fun reach => by cases reach <;> rfl
  have joined : KeepsFilters v u := by
    have entered : KeepsFilters v { v with objects := a } := .of_arrives arrives blank rfl
    rw [is]
    exact entered.trans (.of_mapInstances rfl rfl)
  have set := joined.trans (setSuperclasses wellAfter h supers)
  rcases outcome with ⟨t, done, ended⟩ | ⟨e, t, refused, -, -, ended⟩
  · rw [ended]
    rwa [done] at set
  · rw [ended]
    rw [refused] at set
    have left : KeepsFilters v { t with objects := t.objects.leave h metaclass } := set.trans (.of_mapInstances rfl rfl)
    have none : ∀ reach, World.filterNames { t with objects := t.objects.leave h metaclass } reach h = [] :=
      fun reach => (left.names reach h).trans (World.filterNames_of_vacant arrives.vacant reach)
    exact (left.trans (release none)).trans ⟨fun _ _ => rfl, rfl⟩

theorem createSystem (well : WellFormed loose v) (remain : v.objects.HandlesRemain) (root metaclass : String)
    (methods : SystemMethods) : KeepsFilters v ((Lifecycle.createSystem root metaclass methods).exec v).2 := by
  rcases Lifecycle.exec_createSystem well.sound remain root metaclass methods with
    ⟨e, failed⟩ | ⟨r, m, a, b, -, -, -, first, second, -, done⟩
  · rw [failed]
    exact .refl v
  rw [done]
  have one : KeepsFilters v { v with objects := a } := .of_arrives first (fun reach => by cases reach <;> rfl) rfl
  have two : KeepsFilters v { v with objects := b } :=
    one.trans (.of_arrives second (fun reach => by cases reach <;> rfl) rfl)
  refine two.trans (.of_alike (Heap.Alike.trans ?_ (alike_founded fun f o => o.filing_mapInstances f)) rfl)
  exact (Hierarchy.alike_withoutAncestry_link b m r).comp Object.filing fun o => o.filing_withoutAncestry.symm

end KeepsFilters

/-! ## Replaced filters and departures -/

section users

variable {loose : Handle → Prop} {v w : World}

theorem FiltersTracked.of_keeps (tracked : FiltersTracked v) (keeps : KeepsFilters v w) : FiltersTracked w := by
  intro reach user name registered
  rw [keeps.names] at registered
  rw [World.usersOfFilter, keeps.users]
  exact tracked reach user name registered

theorem UsersRegister.of_keeps (register : UsersRegister v) (keeps : KeepsFilters v w) : UsersRegister w := by
  intro user name listed
  rw [World.usersOfFilter, keeps.users] at listed
  obtain ⟨reach, registered⟩ := register user name listed
  exact ⟨reach, keeps.names reach user ▸ registered⟩

/-- Whoever replaces its filters leaves those it registers the other way tracked: they have other names. -/
theorem FiltersTracked.setFilters (tracked : FiltersTracked v) (apart : v.objects.FiltersApart) (reach : Reach)
    (on : Handle) (filters : List Filter) : FiltersTracked ((Interception.setFilters reach on filters).exec v).2 := by
  rcases Interception.exec_setFilters reach on filters v with ⟨e, failed⟩ | ⟨r, b, found, done, forgets⟩
  · rw [failed]
    exact tracked
  rw [done]
  intro other user name registered
  rw [World.filterNames_of_replaced found forgets] at registered
  apply Interception.mem_tracked.2
  split at registered
  · next here => exact .inr ⟨here.1, registered⟩
  · next elsewhere =>
    refine .inl ⟨tracked other user name registered, ?_⟩
    rintro ⟨rfl, old⟩
    obtain ⟨o, live, own⟩ := Option.bind_eq_some_iff.1 found
    have which : other ≠ reach := fun same => elsewhere ⟨rfl, same⟩
    have both := apart user o (World.live?_eq_some_iff.1 live).1 name
    have first : name ∈ (o.filterNames reach).getD [] := by simpa [Object.filterNames, own] using old
    have second : name ∈ (o.filterNames other).getD [] := by simpa [World.filterNames, live] using registered
    cases reach <;> cases other <;> tauto

/-- Whoever replaces its filters is dropped under the names of the old ones. -/
theorem UsersRegister.setFilters (register : UsersRegister v) (reach : Reach) (on : Handle) (filters : List Filter) :
    UsersRegister ((Interception.setFilters reach on filters).exec v).2 := by
  rcases Interception.exec_setFilters reach on filters v with ⟨e, failed⟩ | ⟨r, b, found, done, forgets⟩
  · rw [failed]
    exact register
  rw [done]
  intro user name listed
  rcases Interception.mem_tracked.1 listed with ⟨before, left⟩ | ⟨rfl, entered⟩
  · obtain ⟨other, registered⟩ := register user name before
    refine ⟨other, ?_⟩
    rw [World.filterNames_of_replaced found forgets]
    split
    · next here =>
      obtain ⟨rfl, rfl⟩ := here
      obtain ⟨o, live, own⟩ := Option.bind_eq_some_iff.1 found
      exact absurd ⟨rfl, by simpa [World.filterNames, live, Object.filterNames, own] using registered⟩ left
    · exact registered
  · refine ⟨reach, ?_⟩
    rw [World.filterNames_of_replaced found forgets, if_pos ⟨rfl, rfl⟩]
    exact entered

/-- Unlinking the class part of an object shows in nobody's filters. -/
private theorem filing_disbands {h : Handle} {o : Object} (disbands : Disbands loose h o v w) :
    Heap.Alike Object.filing v.objects w.objects := by
  rcases disbands with ⟨-, rfl⟩ | ⟨part, -, d, rfl⟩
  · exact .refl _
  have dropped : ∀ (reach : Reach) (o : Object), (o.dropMixin reach h).filing = o.filing :=
    fun reach o => o.filing_mapRegistrations reach fun _ => rfl
  have vacated : Heap.Alike Object.filing v.objects d.vacated :=
    d.instances.alike fun k o _ => view_evacuated (fun f o => o.filing_mapInstances f) (fun _ => rfl) k o
  have topless : Heap.Alike Object.filing d.vacated d.topless :=
    d.topless_alike.comp Object.filing fun o => o.filing_withoutAncestry.symm
  have unshared : Heap.Alike Object.filing d.topless d.unshared :=
    (d.objectUsers.alike (fun _ => rfl) (view_dropped (dropped .object))).trans
      (d.classUsers.alike (fun _ => rfl) (view_dropped (dropped .instances)))
  have forgotten : Heap.Alike Object.filing d.unshared d.forgotten := by
    refine d.forgotten_alike (fun f o => o.filing_mapUsers .instances f) (fun f o => ?_) fun _ => rfl
    refine Prod.ext rfl (funext fun reach => ?_)
    cases reach <;> simp [Object.filing, Object.filterNames, Object.registrations?, Object.mapClass, Function.comp_def]
  exact ((vacated.trans topless).trans unshared).trans forgotten

/-- An unlinked object is not tracked under the names of its filters any more, and nothing else is changed for the
filters of others. -/
structure Untracks (h : Handle) (v w : World) : Prop where
  dead : w.live? h = none
  others : ∀ reach k, k ≠ h → w.filterNames reach k = v.filterNames reach k
  users : ∀ k name, k ∈ w.usersOfFilter name ↔
    k ∈ v.usersOfFilter name ∧ (k = h → ∀ reach, name ∉ v.filterNames reach h)

theorem WellFormed.untracks_unlink {h : Handle} {o : Object} (well : WellFormed loose v) (live : v.live? h = some o)
    (root : o.isRoot = false) : Untracks h v ((Lifecycle.unlink h).exec v).2 := by
  obtain ⟨u, t, is, well', here, disbands, done⟩ := well.exec_unlink live root
  obtain ⟨x, there, -⟩ := disbands.exists_live here
  have disbanded := disbands.disbanded well' here
  obtain ⟨b, remade, retires⟩ :=
    Lifecycle.exec_retire there ((disbanded.named.name x.name h).2 ⟨x, there, rfl⟩)
  have departs : Departs h (b.leave h x.cls) (Lifecycle.retired b h x) := Lifecycle.departs_retired x
  have marked : Heap.Alike Object.filing v.objects u.objects := is ▸ .modify v.objects h fun _ => rfl
  have early : Heap.Alike Object.filing v.objects t.objects := marked.trans (filing_disbands disbands)
  have filing : Heap.Alike Object.filing v.objects (b.leave h x.cls) :=
    (early.trans (remade.alike fun k o _ => view_deserted (fun f o => o.filing_mapUsers .object f) k o)).trans
      (.modify b x.cls fun o => o.filing_mapInstances _)
  rw [done, retires]
  refine ⟨?_, fun reach k other => World.filterNames_of_alike ?_ reach, fun k name => ?_⟩
  · by_contra alive
    obtain ⟨p, found⟩ := Option.ne_none_iff_exists'.1 alive
    obtain ⟨resolves, deleted⟩ := World.live?_eq_some_iff.1 found
    rw [(departs.gone p resolves).1] at deleted
    cases deleted
  · change ((Lifecycle.retired b h x).get? k).map Object.filing = _
    rw [departs.others k other, filing.view]
  · have own : v.filterNames .object h = x.registrations.filters.map (·.target) := by
      rw [← World.filterNames_of_alike (early.view h), World.filterNames, there]
      rfl
    have between : k ∈ t.usersOfFilter name ↔
        k ∈ v.usersOfFilter name ∧ ¬(k = h ∧ name ∈ v.filterNames .instances h) := by
      rcases disbands with ⟨isPart, rfl⟩ | ⟨part, isPart, d, rfl⟩
      · have none : v.filterNames .instances h = [] := by
          rw [World.filterNames, live, Option.bind_some, Object.filterNames, Object.registrations?]
          rw [show o.classPart = none from isPart]
          rfl
        rw [none, is]
        simp [World.usersOfFilter]
      · have some : v.filterNames .instances h = part.registrations.filters.map (·.target) := by
          rw [World.filterNames, live, Option.bind_some, Object.filterNames, Object.registrations?]
          rw [show o.classPart = some part from isPart]
          rfl
        rw [some]
        refine Interception.mem_tracked.trans ?_
        rw [is]
        simp [World.usersOfFilter]
    refine Interception.mem_tracked.trans ?_
    rw [between, ← own]
    constructor
    · rintro (⟨⟨listed, apart⟩, apart'⟩ | ⟨-, no⟩)
      · refine ⟨listed, fun same reach member => ?_⟩
        cases reach with
        | object => exact apart' ⟨same, member⟩
        | instances => exact apart ⟨same, member⟩
      · cases no
    · rintro ⟨listed, left⟩
      exact .inl ⟨⟨listed, fun both => left both.1 _ both.2⟩, fun both => left both.1 _ both.2⟩

theorem FiltersTracked.unlink {h : Handle} {o : Object} (tracked : FiltersTracked v) (well : WellFormed loose v)
    (live : v.live? h = some o) (root : o.isRoot = false) : FiltersTracked ((Lifecycle.unlink h).exec v).2 := by
  have untracks := well.untracks_unlink live root
  intro reach user name registered
  have other : user ≠ h := by
    rintro rfl
    rw [World.filterNames, untracks.dead] at registered
    cases registered
  rw [untracks.others reach user other] at registered
  exact (untracks.users user name).2 ⟨tracked reach user name registered, fun same => absurd same other⟩

theorem UsersRegister.unlink {h : Handle} {o : Object} (register : UsersRegister v) (well : WellFormed loose v)
    (live : v.live? h = some o) (root : o.isRoot = false) : UsersRegister ((Lifecycle.unlink h).exec v).2 := by
  have untracks := well.untracks_unlink live root
  intro user name listed
  obtain ⟨before, left⟩ := (untracks.users user name).1 listed
  obtain ⟨reach, registered⟩ := register user name before
  have other : user ≠ h := fun same => left same reach (same ▸ registered)
  exact ⟨reach, untracks.others reach user other ▸ registered⟩

end users

end DynamicObjects
