import DynamicObjects.Proofs.Interception.Outcomes

/-!
# Expanding filters

A filter that is registered stands for all implementations of its name along the order it is looked up in. A filter
order holds what the registered filters stand for, each implementation at its last place, so that nothing is lost and no
implementation comes before one that it overrides.
-/
namespace DynamicObjects

open Hierarchy (givenOrder Leads Strictly)

variable {w : World} {o : Object} {mixins : List Handle}

/-! ## What registered filters stand for -/

/-- A filter as it is registered: on a class for its instances, or on the object that is looked at. -/
structure FilterSource where
  on : Option Handle
  filter : Filter

namespace World

/-- The implementations of a name along the order of a class. -/
def implementations (w : World) (cls : Handle) (name : String) : List FilterEntry :=
  (givenOrder w.objects cls).filterMap fun c => (w.definedIn name c).map fun method => ⟨name, some c, method, none⟩

/-- What a registered filter stands for: if it is registered on the object, the object's own method comes first. -/
def expansion (w : World) (o : Object) (source : FilterSource) : List FilterEntry :=
  match source.on with
  | some c => w.implementations c source.filter.target
  | none =>
    ((o.methods.get? source.filter.target).map fun method => ⟨source.filter.target, none, method, none⟩).toList ++
      w.implementations o.cls source.filter.target

/-- The filters registered on a class for its instances. -/
def sourcesOn (w : World) (c : Handle) : List FilterSource :=
  (w.filtersOf .instances c).map fun f => ⟨some c, f⟩

/-- The filters registered for an object: on its mixin classes, on itself and along its class order. -/
def filterSources (w : World) (o : Object) (mixins : List Handle) : List FilterSource :=
  mixins.flatMap w.sourcesOn ++ o.registrations.filters.map (⟨none, ·⟩) ++ (givenOrder w.objects o.cls).flatMap w.sourcesOn

/-- The implementation that a registered filter leads to first. -/
def leadsTo (w : World) (o : Object) (source : FilterSource) : Option FilterKey :=
  (w.expansion o source).head?.map FilterEntry.key

/-- The guard of the first registered filter that has one and leads to an implementation first of all. -/
def guardOf (w : World) (o : Object) (key : FilterKey) (sources : List FilterSource) : Option Predicate :=
  sources.findSome? fun source => if w.leadsTo o source = some key then source.filter.guard else none

/-- The guard that belongs to an implementation: that of a filter that leads to it first of all or, failing that, the
guard of the first implementation of the name among those `before` it. -/
def guardAfter (w : World) (o : Object) (sources : List FilterSource) (before : List FilterEntry) (key : FilterKey) :
    Option Predicate :=
  (w.guardOf o key sources).or ((before.find? (·.name == key.name)).bind (·.guard))

/-- The implementations that the filters registered for an object stand for. -/
inductive FilteredBy (w : World) (o : Object) (mixins : List Handle) : FilterKey → Prop
  /-- A filter on a mixin class or along the class order stands for what is defined along the order of that class. -/
  | along {m c : Handle} {name : String} (source : m ∈ mixins ∨ m ∈ givenOrder w.objects o.cls)
      (registered : name ∈ (w.filtersOf .instances m).map (·.target)) (inside : c ∈ givenOrder w.objects m)
      (defined : (w.definedIn name c).isSome) : FilteredBy w o mixins ⟨some c, name⟩
  /-- A filter on the object stands for its own method … -/
  | own {name : String} (registered : name ∈ o.registrations.filters.map (·.target))
      (defined : (o.methods.get? name).isSome) : FilteredBy w o mixins ⟨none, name⟩
  /-- … and for what is defined along its class order. -/
  | inherited {c : Handle} {name : String} (registered : name ∈ o.registrations.filters.map (·.target))
      (inside : c ∈ givenOrder w.objects o.cls) (defined : (w.definedIn name c).isSome) :
      FilteredBy w o mixins ⟨some c, name⟩

/-- An entry has the method that is defined where the entry says. -/
structure Current (w : World) (o : Object) (entry : FilterEntry) : Prop where
  own : entry.definer = none → o.methods.get? entry.name = some entry.method
  inherited : ∀ c, entry.definer = some c → w.definedIn entry.name c = some entry.method

/-- What the filter order of an object is, given its mixin classes. -/
structure OrdersFilters (w : World) (o : Object) (mixins : List Handle) (order : List FilterEntry) : Prop where
  nodup : (order.map FilterEntry.key).Nodup
  mem_iff : ∀ key, key ∈ order.map FilterEntry.key ↔ w.FilteredBy o mixins key
  current : ∀ entry ∈ order, w.Current o entry
  /-- Of one name, no implementation comes behind one of a class that its own class inherits from. -/
  sorted : ∀ name x y, ⟨some x, name⟩ ∈ order.map FilterEntry.key → ⟨some y, name⟩ ∈ order.map FilterEntry.key →
    Strictly w.objects.supersOf x y → [⟨some x, name⟩, ⟨some y, name⟩].Sublist (order.map FilterEntry.key)
  /-- The object's own implementation comes before those of its class order. -/
  ownFirst : ∀ name c, ⟨none, name⟩ ∈ order.map FilterEntry.key → ⟨some c, name⟩ ∈ order.map FilterEntry.key →
    c ∈ givenOrder w.objects o.cls → [⟨none, name⟩, ⟨some c, name⟩].Sublist (order.map FilterEntry.key)

/-- Every entry has the guard that belongs to it. -/
def GuardsFilters (w : World) (o : Object) (sources : List FilterSource) (order : List FilterEntry) : Prop :=
  ∀ before entry after, order = before ++ entry :: after → entry.guard = w.guardAfter o sources before entry.key

/-! ## Implementations of one name -/

variable {cls : Handle} {name : String}

theorem mem_implementations {entry : FilterEntry} : entry ∈ w.implementations cls name ↔
    ∃ c ∈ givenOrder w.objects cls, ∃ method, w.definedIn name c = some method ∧ ⟨name, some c, method, none⟩ = entry := by
  simp only [implementations, List.mem_filterMap, Option.map_eq_some_iff]

theorem keys_implementations : (w.implementations cls name).map FilterEntry.key =
    ((givenOrder w.objects cls).filter fun c => (w.definedIn name c).isSome).map fun c => ⟨some c, name⟩ := by
  unfold implementations
  induction givenOrder w.objects cls with
  | nil => rfl
  | cons c rest ih =>
    rw [List.filterMap_cons, List.filter_cons]
    cases w.definedIn name c with
    | none => exact ih
    | some method => exact congrArg (_ :: ·) ih

theorem mem_keys_implementations {key : FilterKey} : key ∈ (w.implementations cls name).map FilterEntry.key ↔
    ∃ c ∈ givenOrder w.objects cls, (w.definedIn name c).isSome ∧ ⟨some c, name⟩ = key := by
  simp only [keys_implementations, List.mem_map, List.mem_filter, and_assoc]

theorem keys_expansion_none (f : Filter) : (w.expansion o ⟨none, f⟩).map FilterEntry.key =
    (if (o.methods.get? f.target).isSome then [⟨none, f.target⟩] else []) ++
      (w.implementations o.cls f.target).map FilterEntry.key := by
  rw [expansion, List.map_append]
  cases o.methods.get? f.target <;> rfl

/-- All implementations that a registered filter stands for have its name. -/
theorem name_of_mem_expansion {source : FilterSource} {entry : FilterEntry} (member : entry ∈ w.expansion o source) :
    entry.name = source.filter.target := by
  obtain ⟨on, f⟩ := source
  have inherited : ∀ c, entry ∈ w.implementations c f.target → entry.name = f.target := by
    intro c member
    obtain ⟨_, _, _, _, rfl⟩ := mem_implementations.1 member
    rfl
  cases on with
  | some c => exact inherited c member
  | none =>
    rcases List.mem_append.1 member with own | above
    · obtain ⟨method, _, rfl⟩ := Option.map_eq_some_iff.1 (Option.mem_toList.1 own)
      rfl
    · exact inherited o.cls above

theorem current_of_mem_expansion {source : FilterSource} {entry : FilterEntry} (member : entry ∈ w.expansion o source) :
    w.Current o entry := by
  obtain ⟨on, f⟩ := source
  have inherited : ∀ c, entry ∈ w.implementations c f.target → w.Current o entry := by
    intro c member
    obtain ⟨k, -, method, defined, rfl⟩ := mem_implementations.1 member
    exact ⟨nofun, fun c same => Option.some.inj same ▸ defined⟩
  cases on with
  | some c => exact inherited c member
  | none =>
    rcases List.mem_append.1 member with own | above
    · obtain ⟨method, defined, rfl⟩ := Option.map_eq_some_iff.1 (Option.mem_toList.1 own)
      exact ⟨fun _ => defined, nofun⟩
    · exact inherited o.cls above

/-! ## All implementations -/

theorem mem_filterSources {source : FilterSource} : source ∈ w.filterSources o mixins ↔
    (∃ m, (m ∈ mixins ∨ m ∈ givenOrder w.objects o.cls) ∧ ∃ f ∈ w.filtersOf .instances m, ⟨some m, f⟩ = source) ∨
      ∃ f ∈ o.registrations.filters, ⟨none, f⟩ = source := by
  simp only [filterSources, sourcesOn, List.mem_append, List.mem_flatMap, List.mem_map, or_and_right, exists_or]
  exact or_right_comm

/-- The registered filters stand for these implementations and for no others. -/
theorem mem_keys_expansions {key : FilterKey} :
    key ∈ ((w.filterSources o mixins).flatMap (w.expansion o)).map FilterEntry.key ↔ w.FilteredBy o mixins key := by
  rw [List.map_flatMap, List.mem_flatMap]
  constructor
  · rintro ⟨source, listed, inside⟩
    rcases mem_filterSources.1 listed with ⟨m, drawn, f, registered, rfl⟩ | ⟨f, registered, rfl⟩
    · obtain ⟨c, above, defined, rfl⟩ := mem_keys_implementations.1 inside
      exact .along drawn (List.mem_map.2 ⟨f, registered, rfl⟩) above defined
    · have named : f.target ∈ o.registrations.filters.map (·.target) := List.mem_map.2 ⟨f, registered, rfl⟩
      rw [keys_expansion_none] at inside
      rcases List.mem_append.1 inside with own | inside
      · split at own
        · next defined =>
          rw [List.mem_singleton.1 own]
          exact .own named defined
        · cases own
      · obtain ⟨c, above, defined, rfl⟩ := mem_keys_implementations.1 inside
        exact .inherited named above defined
  · intro filters
    cases filters with
    | along drawn registered above defined =>
      obtain ⟨f, here, rfl⟩ := List.mem_map.1 registered
      exact ⟨_, mem_filterSources.2 (.inl ⟨_, drawn, f, here, rfl⟩), mem_keys_implementations.2 ⟨_, above, defined, rfl⟩⟩
    | own registered defined =>
      obtain ⟨f, here, rfl⟩ := List.mem_map.1 registered
      refine ⟨_, mem_filterSources.2 (.inr ⟨f, here, rfl⟩), ?_⟩
      rw [keys_expansion_none, if_pos defined]
      exact List.mem_append_left _ List.mem_cons_self
    | inherited registered above defined =>
      obtain ⟨f, here, rfl⟩ := List.mem_map.1 registered
      refine ⟨_, mem_filterSources.2 (.inr ⟨f, here, rfl⟩), ?_⟩
      rw [keys_expansion_none]
      exact List.mem_append_right _ (mem_keys_implementations.2 ⟨_, above, defined, rfl⟩)

/-- Of the classes along an order, only those that define the name. -/
theorem FilteredBy.defined {c : Handle} (filtered : w.FilteredBy o mixins ⟨some c, name⟩) : (w.definedIn name c).isSome := by
  cases filtered with
  | along _ _ _ defined => exact defined
  | inherited _ _ defined => exact defined

/-! ## Overriding -/

section overriding

variable {loose : Handle → Prop}

theorem leads_keys_implementations (well : WellFormed loose w) (isClass : w.isClass cls = true) {x y : Handle}
    (above : Strictly w.objects.supersOf x y) (defined : (w.definedIn name y).isSome) (other : String) :
    Leads ⟨some x, name⟩ ⟨some y, name⟩ ((w.implementations cls other).map FilterEntry.key) := by
  by_cases same : other = name
  · subst same
    rw [keys_implementations]
    have kept := (well.leads_givenOrder isClass above).filter (p := fun c => (w.definedIn other c).isSome) defined
    exact kept.map (f := fun c => (⟨some c, other⟩ : FilterKey)) fun _ _ same => by simpa using same
  · refine Hierarchy.leads_of_not_mem fun member => ?_
    obtain ⟨_, -, -, key⟩ := mem_keys_implementations.1 member
    exact same (congrArg FilterKey.name key)

theorem leads_keys_expansion (well : WellFormed loose w) (isClass : w.isClass o.cls = true) {source : FilterSource}
    (on : ∀ c, source.on = some c → w.isClass c = true) {x y : Handle} (above : Strictly w.objects.supersOf x y)
    (defined : (w.definedIn name y).isSome) :
    Leads ⟨some x, name⟩ ⟨some y, name⟩ ((w.expansion o source).map FilterEntry.key) := by
  obtain ⟨c | c, f⟩ := source
  · rw [keys_expansion_none]
    refine Leads.append (Hierarchy.leads_of_not_mem ?_) (leads_keys_implementations well isClass above defined _)
    split <;> simp
  · exact leads_keys_implementations well (on c rfl) above defined _

/-- Wherever the object's own implementation is, what it overrides follows. -/
theorem leads_own_keys_expansion {c : Handle} (inside : c ∈ givenOrder w.objects o.cls)
    (defined : (w.definedIn name c).isSome) (source : FilterSource) :
    Leads ⟨none, name⟩ ⟨some c, name⟩ ((w.expansion o source).map FilterEntry.key) := by
  have absent : ∀ cls other, (⟨none, name⟩ : FilterKey) ∉ (w.implementations cls other).map FilterEntry.key := by
    intro cls other member
    obtain ⟨_, -, -, key⟩ := mem_keys_implementations.1 member
    exact nomatch congrArg FilterKey.definer key
  obtain ⟨k | k, f⟩ := source
  · rw [keys_expansion_none]
    have rest := Hierarchy.leads_of_not_mem (a := ⟨some c, name⟩) (absent o.cls f.target)
    split
    · refine ⟨fun same => ?_, rest⟩
      have named : f.target = name := congrArg FilterKey.name same
      rw [named]
      exact mem_keys_implementations.2 ⟨c, inside, defined, rfl⟩
    · exact rest
  · exact Hierarchy.leads_of_not_mem (absent k f.target)

end overriding

end World

/-! ## What computing filter orders comes to -/

namespace Interception

variable {loose : Handle → Prop} {h cls : Handle} {name : String} (well : WellFormed loose w)

section expansion

include well

theorem comesTo_classImplementations (isClass : w.isClass cls = true) :
    ComesTo w (· = w.implementations cls name) (classImplementations cls name) := by
  unfold classImplementations
  apply (ComesTo.precedenceOrder well isClass).bind
  rintro order rfl
  refine .foldlM (fun (before : List Handle) (found : List FilterEntry) => found = before.filterMap fun c =>
    (w.definedIn name c).map fun method => ⟨name, some c, method, none⟩) _ rfl ?_
  rintro before c listed _ rfl
  apply (ComesTo.classPart (well.isClass_of_mem_givenOrder isClass listed)).bind
  intro part reads
  rw [reads.methods]
  cases defined : w.definedIn name c with
  | none => exact .pure (by simp [defined])
  | some method => exact .pure (by simp [defined])

theorem comesTo_objectImplementations (live : w.live? h = some o) (f : Filter) (isClass : w.isClass o.cls = true) :
    ComesTo w (· = w.expansion o ⟨none, f⟩) (objectImplementations h f.target) := by
  unfold objectImplementations
  apply (ComesTo.object live).bind
  intro p reads
  rw [reads.methods, reads.cls]
  apply (comesTo_classImplementations well isClass).bind
  rintro found rfl
  refine .pure ?_
  unfold World.expansion
  cases o.methods.get? f.target <;> rfl

theorem comesTo_registeredAlong (o : Object) (classes : List Handle) (are : ∀ c ∈ classes, w.isClass c = true) :
    ComesTo w (· = (classes.flatMap w.sourcesOn).flatMap (w.expansion o)) (registeredAlong classes) := by
  unfold registeredAlong
  refine .foldlM (fun before found => found = (before.flatMap w.sourcesOn).flatMap (w.expansion o)) classes rfl ?_
  rintro before c listed _ rfl
  apply (ComesTo.classPart (are c listed)).bind
  intro part reads
  rw [reads.filters]
  have whole : ((before ++ [c]).flatMap w.sourcesOn).flatMap (w.expansion o) =
      (before.flatMap w.sourcesOn).flatMap (w.expansion o) ++
        (w.filtersOf .instances c).flatMap fun f => w.implementations c f.target := by
    simp [World.sourcesOn, World.expansion, List.flatMap_map]
  rw [whole]
  refine .foldlM (fun (passed : List Filter) found => found = (before.flatMap w.sourcesOn).flatMap (w.expansion o) ++
    passed.flatMap fun f => w.implementations c f.target) _ (by simp) ?_
  rintro passed f registered _ rfl
  apply (comesTo_classImplementations well (are c listed)).bind
  rintro found rfl
  exact .pure (by simp)

end expansion

/-! ### Guards -/

theorem guardOf_append (key : FilterKey) (first second : List FilterSource) :
    w.guardOf o key (first ++ second) = (w.guardOf o key first).or (w.guardOf o key second) :=
  List.findSome?_append

/-- A registered filter leads to an implementation of its name only. -/
theorem leadsTo_eq_some_iff {source : FilterSource} {key : FilterKey} : w.leadsTo o source = some key ↔
    source.filter.target = key.name ∧ (w.expansion o source).head?.map (·.definer) = some key.definer := by
  unfold World.leadsTo
  rw [List.head?_eq_getElem?]
  cases first : (w.expansion o source)[0]? with
  | none => simp
  | some entry =>
    have named := World.name_of_mem_expansion (List.mem_of_getElem? first)
    obtain ⟨definer, name⟩ := key
    simp [FilterEntry.key, named, and_comm]

theorem comesTo_firstDefiner (classes : List Handle) (are : ∀ c ∈ classes, w.isClass c = true) :
    ComesTo w (· = classes.find? fun c => (w.definedIn name c).isSome) (firstDefiner name classes) := by
  induction classes with
  | nil => exact .pure rfl
  | cons c rest ih =>
    unfold firstDefiner
    apply (ComesTo.classPart (are c List.mem_cons_self)).bind
    intro part reads
    rw [NameTable.contains, reads.methods, List.find?_cons]
    cases (w.definedIn name c).isSome with
    | true => exact .pure rfl
    | false => exact ih fun k later => are k (List.mem_cons_of_mem c later)

include well

theorem comesTo_classHead (isClass : w.isClass cls = true) :
    ComesTo w (· = (w.implementations cls name).head?.map (·.definer)) (classHead cls name) := by
  unfold classHead
  apply (ComesTo.precedenceOrder well isClass).bind
  rintro order rfl
  apply (comesTo_firstDefiner _ fun c => well.isClass_of_mem_givenOrder isClass).bind
  rintro found rfl
  refine .pure ?_
  unfold World.implementations
  induction givenOrder w.objects cls with
  | nil => rfl
  | cons c rest ih =>
    rw [List.find?_cons, List.filterMap_cons]
    cases w.definedIn name c with
    | none => exact ih
    | some method => rfl

theorem comesTo_objectHead (live : w.live? h = some o) (f : Filter) (isClass : w.isClass o.cls = true) :
    ComesTo w (· = (w.expansion o ⟨none, f⟩).head?.map (·.definer)) (objectHead h f.target) := by
  unfold objectHead
  apply (ComesTo.object live).bind
  intro p reads
  unfold NameTable.contains World.expansion
  rw [reads.methods, reads.cls]
  cases o.methods.get? f.target with
  | some method => exact .pure rfl
  | none => exact comesTo_classHead well isClass

omit well in
theorem comesTo_guardAmong (entry : FilterEntry) (on : Option Handle)
    {head : String → Update (Option (Option Handle))}
    (filters : List Filter)
    (heads : ∀ f ∈ filters, ComesTo w (· = (w.expansion o ⟨on, f⟩).head?.map (·.definer)) (head f.target)) :
    ComesTo w (· = w.guardOf o entry.key (filters.map (⟨on, ·⟩))) (guardAmong entry head filters) := by
  induction filters with
  | nil => exact .pure rfl
  | cons f rest ih =>
    have later := ih fun g member => heads g (List.mem_cons_of_mem f member)
    -- a filter that has no guard or leads elsewhere is passed over
    have passes : ¬(w.leadsTo o ⟨on, f⟩ = some entry.key ∧ f.guard.isSome = true) →
        w.guardOf o entry.key ((f :: rest).map (⟨on, ·⟩)) = w.guardOf o entry.key (rest.map (⟨on, ·⟩)) := by
      intro fails
      rw [List.map_cons, World.guardOf, List.findSome?_cons]
      by_cases leads : w.leadsTo o ⟨on, f⟩ = some entry.key
      · have none : f.guard = none := by simpa [leads] using fails
        rw [if_pos leads, none]
        rfl
      · rw [if_neg leads]
        rfl
    unfold guardAmong
    refine .ite (fun named => ?_) fun other => ?_
    · obtain ⟨same, guarded⟩ := Bool.and_eq_true_iff.1 named
      apply (heads f List.mem_cons_self).bind
      rintro definer rfl
      refine .ite (fun first => .pure ?_) fun apart => ?_
      · have leads : w.leadsTo o ⟨on, f⟩ = some entry.key :=
          leadsTo_eq_some_iff.2 ⟨beq_iff_eq.1 same, beq_iff_eq.1 first⟩
        obtain ⟨guard, has⟩ := Option.isSome_iff_exists.1 guarded
        rw [List.map_cons, World.guardOf, List.findSome?_cons, if_pos leads, has]
      · rw [passes fun both => apart (beq_iff_eq.2 (leadsTo_eq_some_iff.1 both.1).2)]
        exact later
    · rw [passes fun both => other (Bool.and_eq_true_iff.2 ⟨beq_iff_eq.2 (leadsTo_eq_some_iff.1 both.1).1, both.2⟩)]
      exact later

theorem comesTo_guardAlong (entry : FilterEntry) (classes : List Handle) (are : ∀ c ∈ classes, w.isClass c = true) :
    ComesTo w (· = w.guardOf o entry.key (classes.flatMap w.sourcesOn)) (guardAlong entry classes) := by
  induction classes with
  | nil => exact .pure rfl
  | cons c rest ih =>
    have here := are c List.mem_cons_self
    unfold guardAlong
    apply (ComesTo.classPart here).bind
    intro part reads
    rw [reads.filters, List.flatMap_cons, guardOf_append]
    apply (comesTo_guardAmong entry (some c) _ fun f _ => comesTo_classHead well here).bind
    rintro guard rfl
    cases found : w.guardOf o entry.key (w.sourcesOn c) with
    | none =>
      rw [World.sourcesOn] at found
      rw [found]
      exact ih fun k later => are k (List.mem_cons_of_mem c later)
    | some guard =>
      rw [World.sourcesOn] at found
      rw [found]
      exact .pure rfl

/-- The guard of an entry, given what stands before it. -/
theorem comesTo_entryGuard (live : w.live? h = some o) (isClass : w.isClass o.cls = true)
    (are : ∀ c ∈ mixins, w.isClass c = true) (entry : FilterEntry) (before : List FilterEntry) :
    ComesTo w (· = w.guardAfter o (w.filterSources o mixins) before entry.key)
      (entryGuard h entry mixins (givenOrder w.objects o.cls) before) := by
  unfold World.guardAfter World.filterSources entryGuard
  rw [guardOf_append, guardOf_append]
  apply (comesTo_guardAlong well entry mixins are).bind
  rintro guard rfl
  cases w.guardOf o entry.key (mixins.flatMap w.sourcesOn) with
  | some guard => exact .pure rfl
  | none =>
  apply (ComesTo.object live).bind
  intro p reads
  rw [reads.registrations]
  apply (comesTo_guardAmong entry none _ fun f _ => comesTo_objectHead well live f isClass).bind
  rintro guard rfl
  cases w.guardOf o entry.key (o.registrations.filters.map (⟨none, ·⟩)) with
  | some guard => exact .pure rfl
  | none =>
  apply (comesTo_guardAlong well entry _ fun c => well.isClass_of_mem_givenOrder isClass).bind
  rintro guard rfl
  cases w.guardOf o entry.key ((givenOrder w.objects o.cls).flatMap w.sourcesOn) with
  | some guard => exact .pure rfl
  | none => exact .pure rfl

/-! ### Last places -/

omit well in
theorem guardsFilters_concat {sources : List FilterSource} {before : List FilterEntry} {entry : FilterEntry}
    (guards : w.GuardsFilters o sources before) (last : entry.guard = w.guardAfter o sources before entry.key) :
    w.GuardsFilters o sources (before ++ [entry]) := by
  intro pre e post split
  rcases List.eq_nil_or_concat' post with rfl | ⟨post, x, rfl⟩
  · obtain ⟨rfl, same⟩ := List.append_inj' split rfl
    cases same
    exact last
  · rw [← List.cons_append, ← List.append_assoc] at split
    exact guards pre e post (List.append_inj' split rfl).1

/-- After `before`, the entries at their last places follow, with the guards that belong to them. -/
structure Settles (w : World) (o : Object) (sources : List FilterSource) (before entries order : List FilterEntry) :
    Prop where
  keys : order.map FilterEntry.key = before.map FilterEntry.key ++ (entries.map FilterEntry.key).dedup
  guards : w.GuardsFilters o sources before → w.GuardsFilters o sources order
  current : (∀ e ∈ before, w.Current o e) → (∀ e ∈ entries, w.Current o e) → ∀ e ∈ order, w.Current o e

theorem comesTo_keepLast (live : w.live? h = some o) (isClass : w.isClass o.cls = true)
    (are : ∀ c ∈ mixins, w.isClass c = true) (before entries : List FilterEntry) :
    ComesTo w (Settles w o (w.filterSources o mixins) before entries)
      (keepLast h mixins (givenOrder w.objects o.cls) before entries) := by
  induction entries generalizing before with
  | nil => exact .pure ⟨by simp, id, fun kept _ => kept⟩
  | cons entry later ih =>
    have again : later.any (·.key == entry.key) = true ↔ entry.key ∈ later.map FilterEntry.key := by
      simp [List.mem_map]
    unfold keepLast
    refine .ite (fun repeated => ?_) fun last => ?_
    · refine (ih before).mono fun order settles => ⟨?_, settles.guards, fun kept all => ?_⟩
      · rw [settles.keys, List.map_cons, List.dedup_cons_of_mem (again.1 repeated)]
      · exact settles.current kept (List.forall_mem_cons.1 all).2
    · rw [again] at last
      apply (comesTo_entryGuard well live isClass are entry before).bind
      rintro guard belongs
      apply (ih _).mono
      intro order settles
      refine ⟨?_, fun guards => ?_, fun kept all => ?_⟩
      · rw [settles.keys, List.map_cons, List.dedup_cons_of_notMem last, List.map_append, List.append_assoc]
        rfl
      · exact settles.guards (guardsFilters_concat guards belongs)
      · obtain ⟨here, rest⟩ := List.forall_mem_cons.1 all
        have guarded : w.Current o { entry with guard } := ⟨here.own, here.inherited⟩
        exact settles.current (List.forall_mem_append.2 ⟨kept, List.forall_mem_singleton.2 guarded⟩) rest

/-- What keeps of every key the last place that it has in the expansions is as it should be. -/
theorem ordersFilters_of_keys (isClass : w.isClass o.cls = true) (are : ∀ c ∈ mixins, w.isClass c = true)
    {order : List FilterEntry} (current : ∀ entry ∈ order, w.Current o entry)
    (keys : order.map FilterEntry.key =
      (((w.filterSources o mixins).flatMap (w.expansion o)).map FilterEntry.key).dedup) : w.OrdersFilters o mixins order := by
  have mem_iff : ∀ key, key ∈ order.map FilterEntry.key ↔ w.FilteredBy o mixins key := fun key => by
    rw [keys, List.mem_dedup, World.mem_keys_expansions]
  have leads : ∀ {x y : FilterKey},
      (∀ source ∈ w.filterSources o mixins, Leads x y ((w.expansion o source).map FilterEntry.key)) →
      x ∈ order.map FilterEntry.key → [x, y].Sublist (order.map FilterEntry.key) := by
    intro x y each first
    rw [keys] at first ⊢
    refine (Leads.dedup ?_).sublist first
    rw [List.map_flatMap, List.flatMap_def]
    refine Hierarchy.leads_flatten fun part listed => ?_
    obtain ⟨source, registered, rfl⟩ := List.mem_map.1 listed
    exact each source registered
  refine ⟨by rw [keys]; exact List.nodup_dedup _, mem_iff, current, ?_, ?_⟩
  · intro name x y first second above
    refine leads (fun source registered => ?_) first
    refine World.leads_keys_expansion well isClass (fun c on => ?_) above ((mem_iff _).1 second).defined
    rcases World.mem_filterSources.1 registered with ⟨m, drawn, f, -, rfl⟩ | ⟨f, -, rfl⟩
    · rw [← Option.some.inj on]
      exact drawn.elim (are m) fun inside => well.isClass_of_mem_givenOrder isClass inside
    · cases on
  · intro name c first second inside
    have defined := ((mem_iff _).1 second).defined
    exact leads (fun source _ => World.leads_own_keys_expansion inside defined source) first

/-- What the filters on the object stand for. -/
theorem comesTo_ownImplementations (live : w.live? h = some o) (isClass : w.isClass o.cls = true) (filters : List Filter) :
    ComesTo w (· = (filters.map (FilterSource.mk none)).flatMap (w.expansion o))
      (filters.foldlM (fun found f => do return found ++ (← objectImplementations h f.target)) []) := by
  refine .foldlM (fun (before : List Filter) found =>
    found = (before.map (FilterSource.mk none)).flatMap (w.expansion o)) _ rfl ?_
  rintro before f registered _ rfl
  apply (comesTo_objectImplementations well live f isClass).bind
  rintro found rfl
  exact .pure (by simp)

/-- A filter order can be computed whatever is registered, and it is what it should be. -/
theorem comesTo_computeFilterOrder (live : w.live? h = some o) (isClass : w.isClass o.cls = true)
    (are : ∀ c ∈ mixins, w.isClass c = true) : ComesTo w (fun order => w.OrdersFilters o mixins order ∧
      w.GuardsFilters o (w.filterSources o mixins) order) (computeFilterOrder h mixins) := by
  unfold computeFilterOrder
  apply (ComesTo.object live).bind
  intro p reads
  rw [reads.cls, reads.registrations]
  apply (ComesTo.precedenceOrder well isClass).bind
  rintro classOrder rfl
  apply (comesTo_registeredAlong well o mixins are).bind
  rintro fromMixins rfl
  apply (comesTo_ownImplementations well live isClass o.registrations.filters).bind
  rintro fromObject rfl
  apply (comesTo_registeredAlong well o _ fun c => well.isClass_of_mem_givenOrder isClass).bind
  rintro fromClasses rfl
  have all : mixins.flatMap w.sourcesOn ++ o.registrations.filters.map (FilterSource.mk none) ++
      (givenOrder w.objects o.cls).flatMap w.sourcesOn = w.filterSources o mixins := rfl
  rw [← List.flatMap_append, ← List.flatMap_append, all]
  refine (comesTo_keepLast well live isClass are [] _).mono fun order settles => ⟨?_, ?_⟩
  · refine ordersFilters_of_keys well isClass are (settles.current (by simp) fun entry member => ?_) settles.keys
    obtain ⟨source, -, inside⟩ := List.mem_flatMap.1 member
    exact World.current_of_mem_expansion inside
  · exact settles.guards (by simp [World.GuardsFilters])

end Interception

end DynamicObjects
