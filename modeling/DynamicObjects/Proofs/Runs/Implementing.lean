import DynamicObjects.Proofs.Runs.Chains
import DynamicObjects.Proofs.Runs.Traces

/-!
# Methods that the system calls by itself

Before it calls the init or destroy method of an object, the system looks whether the object implements it: on a class
of its mixin order, of its own or along its classes. The call that follows passes over a mixin's method that is private,
and over mixins whose guards do not let it pass. So an object can implement a method that no call comes to: mixins have
it, none of them takes part, and neither the object nor its classes have it.
-/
namespace DynamicObjects

open Invocation

/-! ## What is there and what is found -/

namespace Lineup

variable {line : Lineup} {lets : Predicate → Bool}

/-- Whether a method of the name is there, be it private or behind a guard where a mixin has it. -/
def knows (line : Lineup) : Bool :=
  line.mixins.any (fun m => (line.taught m.target).isSome) || !line.plainChain.isEmpty

/-- The name is only there on mixins that take no part in calls. -/
structure Conceals (line : Lineup) (lets : Predicate → Bool) : Prop where
  mixed : ∃ m ∈ line.mixins, (line.taught m.target).isSome = true
  shut : ∀ m ∈ line.mixins, ∀ method, line.taught m.target = some method →
    method.isPrivate = true ∨ m.guard.all lets = false
  plain : line.plainChain = []

theorem mixinLink_eq_none {m : Mixin} : line.mixinLink lets m = none ↔
    ∀ method, line.taught m.target = some method → method.isPrivate = true ∨ m.guard.all lets = false := by
  unfold mixinLink mixesIn teaches
  cases line.taught m.target with
  | none => simp
  | some method => cases m.guard.all lets <;> cases isPrivate : method.isPrivate <;> simp [isPrivate]

theorem unfilteredChain_eq_nil : line.unfilteredChain lets = [] ↔
    (∀ m ∈ line.mixins, ∀ method, line.taught m.target = some method →
      method.isPrivate = true ∨ m.guard.all lets = false) ∧ line.plainChain = [] := by
  rw [unfilteredChain, List.append_eq_nil_iff, List.filterMap_eq_nil_iff]
  simp only [mixinLink_eq_none]

theorem unfilteredChain_ne_nil : line.unfilteredChain lets ≠ [] ↔
    line.plainChain ≠ [] ∨ ∃ m ∈ line.mixins, (line.mixesIn lets m).isSome = true := by
  rw [unfilteredChain, ne_eq, List.append_eq_nil_iff, List.filterMap_eq_nil_iff, not_and_or, or_comm, not_forall]
  simp only [mixinLink, Option.map_eq_none_iff, Classical.not_imp, Option.isSome_iff_ne_none, ne_eq]

/-- What is there and not found is concealed. -/
theorem conceals_iff : line.Conceals lets ↔ line.knows = true ∧ line.unfilteredChain lets = [] := by
  rw [unfilteredChain_eq_nil]
  constructor
  · rintro ⟨⟨m, member, taught⟩, shut, plain⟩
    have mixed : line.mixins.any (fun m => (line.taught m.target).isSome) = true :=
      List.any_eq_true.2 ⟨m, member, taught⟩
    exact ⟨by rw [knows, mixed, Bool.true_or], shut, plain⟩
  · rintro ⟨knows, shut, plain⟩
    rw [Lineup.knows, plain, List.isEmpty_nil, Bool.not_true, Bool.or_false] at knows
    obtain ⟨m, member, taught⟩ := List.any_eq_true.1 knows
    exact ⟨⟨m, member, taught⟩, shut, plain⟩

/-- What is found is there. -/
theorem knows_of_unfilteredChain (found : line.unfilteredChain lets ≠ []) : line.knows = true := by
  by_contra unknown
  rw [Bool.not_eq_true, knows, Bool.or_eq_false_iff, List.any_eq_false, Bool.not_eq_false', List.isEmpty_iff] at unknown
  refine found (unfilteredChain_eq_nil.2 ⟨fun m member method taught => ?_, unknown.2⟩)
  exact absurd (Option.isSome_iff_exists.2 ⟨method, taught⟩) (unknown.1 m member)

end Lineup

/-! ## Lineups of worlds that give the same orders -/

theorem Object.placing_unordered (o : Object) : o.unordered.placing = o.placing := by
  simp [unordered, placing, withoutPrecedence, Function.comp_def]

theorem Heap.Alike.placing {a b : Objects} (alike : Heap.Alike Object.unordered a b) : Heap.Alike Object.placing a b :=
  alike.comp Object.placing fun o => o.placing_unordered.symm

section lineup

variable {v w : World} {h : Handle} {o : Object} {name : String} {lets : Predicate → Bool} {host : Host}
  {mods : CallModifiers}

theorem World.lineup_eq (orders : SameOrders v w) (placing : Heap.Alike Object.placing v.objects w.objects)
    (h : Handle) (name : String) : w.lineup h name = v.lineup h name := by
  have teaching : Heap.Alike Object.teaching v.objects w.objects := placing.comp (·.2.2.2) fun _ => rfl
  have looks := placing.live? (v := v) (w := w) (fun _ _ same => congrArg (·.1) same) (h := h)
  have cls : (w.live? h).map (·.cls) = (v.live? h).map (·.cls) := by
    simpa only [Option.map_map, Function.comp_def, Object.placing] using congrArg (Option.map (·.2.1)) looks
  have own : (w.live? h).bind (·.methods.get? name) = (v.live? h).bind (·.methods.get? name) := by
    have methods := congrArg (Option.bind · fun p => p.2.2.1.get? name) looks
    simpa only [Option.bind_map, Function.comp_def, Object.placing] using methods
  have isClass : w.isClass h = v.isClass h := by
    have parts := congrArg (Option.any (·.2.2.2.isSome)) looks
    simpa only [Option.any_map, Function.comp_def, Object.placing, Option.isSome_map, World.isClass,
      Object.isClass] using parts
  unfold World.lineup
  rw [isClass, cls, own, orders.filters, orders.mixins, orders.precedence]
  congr 1
  funext c
  exact Heap.taught_of_teaching teaching c name

/-- The lineup of a live object is located, and its orders are those that are given. -/
theorem World.located_lineup (proper : Proper w) (live : w.live? h = some o) (name : String) :
    (w.lineup h name).Located w.objects := by
  obtain ⟨classes, b, done, lin, -⟩ := proper.exec_precedenceOrder (proper.classed.cls h o live)
  have cls : (w.lineup h name).cls = o.cls := by
    simp only [World.lineup, live, Option.map_some, Option.getD_some]
  have order : (w.lineup h name).classes = classes := by
    simp only [World.lineup, live, Option.map_some, Option.getD_some, done]
    rfl
  obtain ⟨found, alive⟩ := World.live?_eq_some_iff.1 live
  refine ⟨⟨o, found, alive, ?_, cls.symm, ?_⟩, ?_, fun c _ => rfl⟩
  · simp only [World.lineup, World.isClass, live]
    rfl
  · simp only [World.lineup, live, Option.bind_some]
  · rw [cls, order]
    exact lin

theorem World.given_mixins (proper : Proper w) (live : w.live? h = some o) (name : String) :
    ((Interception.mixinOrder h).exec w).1 = .ok (w.lineup h name).mixins := by
  obtain ⟨order, u, given⟩ := proper.exec_mixinOrder_of_live live
  simp only [World.lineup, given]
  rfl

theorem MixinOrdersCurrent.given_filters (current : MixinOrdersCurrent w) (proper : Proper w)
    (live : w.live? h = some o) (name : String) :
    ((Interception.filterOrder h).exec w).1 = .ok (w.lineup h name).filters := by
  obtain ⟨order, u, given⟩ := current.exists_filterOrder proper live
  simp only [World.lineup, given]
  rfl

/-- Orders have been asked for since `v`, and nothing else has happened. -/
structure Consulted (v w : World) : Prop where
  proper : Proper w
  current : MixinOrdersCurrent w
  aside : w = { v with objects := w.objects }
  alike : Heap.Alike Object.unordered v.objects w.objects

namespace Consulted

theorem refl (proper : Proper w) (current : MixinOrdersCurrent w) : Consulted w w :=
  ⟨proper, current, rfl, .refl _⟩

theorem trans {u : World} (first : Consulted u v) (second : Consulted v w) : Consulted u w := by
  refine ⟨second.proper, second.current, ?_, first.alike.trans second.alike⟩
  rw [second.aside, first.aside]

theorem mixinOrder (proper : Proper w) (current : MixinOrdersCurrent w) (h : Handle) :
    Consulted w ((Interception.mixinOrder h).exec w).2 := by
  obtain ⟨b, is, alike⟩ := alike_mixinOrder Object.unordered_withoutPrecedence (fun _ _ => rfl) proper h
  exact ⟨proper.mixinOrder h, current.mixinOrder proper h, by rw [is], by rw [is]; exact alike⟩

theorem filterOrder (proper : Proper w) (current : MixinOrdersCurrent w) (h : Handle) :
    Consulted w ((Interception.filterOrder h).exec w).2 := by
  obtain ⟨b, is, alike⟩ :=
    alike_filterOrder Object.unordered_withoutPrecedence (fun _ _ => rfl) (fun _ _ => rfl) proper h
  exact ⟨proper.filterOrder h, current.filterOrder proper h, by rw [is], by rw [is]; exact alike⟩

theorem filled (proper : Proper w) (current : MixinOrdersCurrent w) {b : Objects} (filled : Filled w.objects b) :
    Consulted w { w with objects := b } := by
  have after : Proper { w with objects := b } := proper.filled filled rfl rfl
  exact ⟨after, current.of_leaves proper after (@Leaves.of_filled (fun _ => True) _ _ filled), rfl,
    filled.alike.comp Object.unordered fun o => o.unordered_withoutPrecedence.symm⟩

theorem setting (consulted : Consulted v w) : Heap.Alike Object.setting v.objects w.objects :=
  consulted.alike.comp Object.setting fun o => o.setting_unordered.symm

/-- As long as no filter order has been asked for, the same orders are given. -/
theorem sameOrders (consulted : Consulted v w) (proper : Proper v) (current : MixinOrdersCurrent v)
    (filters : Heap.Alike (fun o => (o.deleted, o.filterOrder)) v.objects w.objects) : SameOrders v w := by
  have teaching : Heap.Alike Object.teaching v.objects w.objects := consulted.alike.placing.comp (·.2.2.2) fun _ => rfl
  refine .of_setting proper consulted.proper current consulted.current
    (consulted.alike.comp Object.identity fun o => ?_) (Heap.supersOf_of_teaching teaching) consulted.setting filters
  simp [Object.identity, Object.isClass, Object.unordered, Object.withoutPrecedence]

end Consulted

/-- Without filters and mixins, something is found if the own method or one of a class is there. -/
theorem Lineup.Located.isSome_searchObject {line : Lineup} (located : line.Located w.objects) (proper : Proper w) :
    ∃ b found, Filled w.objects b ∧
      (searchObject line.receiver line.name).exec w = (.ok found, { w with objects := b }) ∧
      found.isSome = !line.plainChain.isEmpty := by
  obtain ⟨b, found, filled, searched, head⟩ := located.exec_searchObject proper
  refine ⟨b, found, filled, searched, ?_⟩
  rw [← Option.isSome_map, head]
  cases line.plainChain <;> rfl

/-- Asking for a mixin order and for precedence orders changes no filter order. -/
theorem alike_filters_mixinOrder (proper : Proper w) (h : Handle) :
    Heap.Alike (fun o => (o.deleted, o.filterOrder)) w.objects ((Interception.mixinOrder h).exec w).2.objects := by
  obtain ⟨b, is, alike⟩ := @alike_mixinOrder _ _ _ (fun o => (o.deleted, o.filterOrder)) (fun _ => rfl)
    (fun _ _ => rfl) proper h
  rw [is]
  exact alike

/-- What the system finds out by looking for a method. The orders that are given stay the same. -/
theorem exec_implements (proper : Proper w) (current : MixinOrdersCurrent w) (live : w.live? h = some o)
    (name : String) : ∃ v, (Lifecycle.implements h name).exec w = (.ok (w.lineup h name).knows, v) ∧
      Consulted w v ∧ SameOrders w v := by
  obtain ⟨u, is⟩ : ∃ u, u = ((Interception.mixinOrder h).exec w).2 := ⟨_, rfl⟩
  have mixed : (Interception.mixinOrder h).exec w = (.ok (w.lineup h name).mixins, u) :=
    Prod.ext (World.given_mixins proper live name) is.symm
  have consulted : Consulted w u := is ▸ .mixinOrder proper current h
  have filters := is ▸ alike_filters_mixinOrder proper h
  have located : (w.lineup h name).Located u.objects :=
    (World.located_lineup proper live name).of_alike consulted.alike.placing
  have there : ((w.lineup h name).mixins.any fun m => (u.objects.class? m.target).any (·.methods.contains name)) =
      (w.lineup h name).mixins.any fun m => ((w.lineup h name).taught m.target).isSome := by
    rw [Bool.eq_iff_iff, List.any_eq_true, List.any_eq_true]
    refine exists_congr fun m => and_congr_right fun member => ?_
    rw [← located.taught m.target (List.mem_append_left _ (List.mem_map_of_mem member)), Option.isSome_bind]
    rfl
  unfold Lifecycle.implements
  rw [Update.exec_bind_of_ok mixed, Update.exec_bind_of_ok (Update.exec_get u)]
  simp only [there]
  unfold Lineup.knows
  cases (w.lineup h name).mixins.any fun m => ((w.lineup h name).taught m.target).isSome with
  | true => exact ⟨u, rfl, consulted, consulted.sameOrders proper current filters⟩
  | false =>
    obtain ⟨b, found, filled, searched, same⟩ := located.isSome_searchObject consulted.proper
    change (searchObject h name).exec u = _ at searched
    have further := consulted.trans (.filled consulted.proper consulted.current filled)
    have kept : Heap.Alike (fun o => (o.deleted, o.filterOrder)) u.objects b :=
      filled.alike.comp (fun o => (o.deleted, o.filterOrder)) fun _ => rfl
    refine ⟨{ u with objects := b }, ?_, further, further.sameOrders proper current (filters.trans kept)⟩
    rw [if_neg Bool.false_ne_true, Update.exec_bind_of_ok searched, same, Bool.false_or]
    rfl

/-! ## What calls come to -/

/-- What was found, without the marks of pushed positions. -/
def Invocation.Resolved.unmarked (found : Resolved) : Resolved :=
  { found with pushedFilterPosition := false, pushedMixinPosition := false }

/-- Whether calls on an object start with its filters. -/
def World.takesFilters (w : World) (h : Handle) : Bool :=
  w.settings.filtersEnabled && w.guardDepth == 0 && !insideFilterOf w h

/-- The chain of a call, from the first filter only where calls start with filters. -/
def World.callChain (w : World) (h : Handle) (name : String) (lets : Predicate → Bool) : List Resolved :=
  (if w.takesFilters h then (w.lineup h name).filters.filterMap ((w.lineup h name).filterLink lets) else []) ++
    (w.lineup h name).unfilteredChain (verdicts w lets)

/-- Where filters take part the filter order is asked for, and searched from its start. -/
theorem exec_firstFilter_of_searched (proper : Proper w) (current : MixinOrdersCurrent w) (live : w.live? h = some o)
    (searched : ∀ v, Consulted w v → (searchFilters host h (w.lineup h name).isClass (w.lineup h name).filters).exec v =
      some (.ok ((w.lineup h name).filters.find? ((w.lineup h name).admits lets)), v)) : ∃ v,
      (firstFilter host h).exec w = some (.ok (if w.takesFilters h then
        (w.lineup h name).filters.find? ((w.lineup h name).admits lets) else none), v) ∧ Consulted w v := by
  unfold firstFilter World.takesFilters
  rw [Action.exec_bind_of_ok (Action.exec_get w)]
  split
  · next takes =>
    obtain ⟨v, is⟩ : ∃ v, v = ((Interception.filterOrder h).exec w).2 := ⟨_, rfl⟩
    have asked : (Interception.filterOrder h).exec w = (.ok (w.lineup h name).filters, v) :=
      Prod.ext (current.given_filters proper live name) is.symm
    have consulted : Consulted w v := is ▸ .filterOrder proper current h
    obtain ⟨p, there, isClass, -⟩ :=
      ((World.located_lineup proper live name).of_alike consulted.alike.placing).exists_live
    change v.live? h = some p at there
    have same : v.isClass h = (w.lineup h name).isClass := by
      rw [World.isClass, there]
      exact isClass
    refine ⟨v, ?_, consulted⟩
    rw [Action.exec_liftM_bind_of_ok asked, Action.exec_bind_of_ok (Action.exec_get v), same]
    exact searched v consulted
  · exact ⟨w, rfl, .refl proper current⟩

theorem exec_firstFilter_of_constant (proper : Proper w) (current : MixinOrdersCurrent w)
    (remain : w.objects.HandlesRemain) (live : w.live? h = some o)
    (constant : ∀ p ∈ (w.lineup h name).guards, GuardConstant Heap.HandlesRemain host lets p) : ∃ v,
      (firstFilter host h).exec w = some (.ok (if w.takesFilters h then
        (w.lineup h name).filters.find? ((w.lineup h name).admits lets) else none), v) ∧ Consulted w v := by
  refine exec_firstFilter_of_searched proper current live fun v consulted => ?_
  change (searchFilters host (w.lineup h name).receiver _ _).exec v = _
  exact Lineup.exec_searchFilters_of_constant (remain.of_layout consulted.alike.layout) fun entry member p guard =>
    constant p (List.mem_append_left _ (List.mem_filterMap.2 ⟨entry, member, guard⟩))

/-- The mixin order that is given stays the same once other orders have been asked for. -/
theorem Consulted.exec_mixinOrder (consulted : Consulted w v) (proper : Proper w) (current : MixinOrdersCurrent w)
    (live : w.live? h = some o) (name : String) : ∃ x,
      (Interception.mixinOrder h).exec v = (.ok (w.lineup h name).mixins, x) ∧ Consulted w x := by
  obtain ⟨p, there, -⟩ := ((World.located_lineup proper live name).of_alike consulted.alike.placing).exists_live
  have given := current.fst_mixinOrder_of_setting consulted.current proper consulted.proper consulted.setting there
  exact ⟨_, Prod.ext (given.trans (World.given_mixins proper live name)) rfl,
    consulted.trans (.mixinOrder consulted.proper consulted.current h)⟩

theorem Lineup.unmarked_of_plainChain {line : Lineup} (e : Resolved) (listed : e ∈ line.plainChain) :
    e.unmarked = e := by
  rcases List.mem_append.1 listed with own | cls
  · obtain ⟨method, -, rfl⟩ := Option.map_eq_some_iff.1 (Option.mem_toList.1 own)
    rfl
  · obtain ⟨c, -, link⟩ := List.mem_filterMap.1 cls
    obtain ⟨method, -, rfl⟩ := Option.map_eq_some_iff.1 link
    rfl

theorem Lineup.unmarked_of_unfilteredChain {line : Lineup} {e : Resolved} (listed : e ∈ line.unfilteredChain lets) :
    e.unmarked = e := by
  rcases List.mem_append.1 listed with mixin | plain
  · obtain ⟨m, -, link⟩ := List.mem_filterMap.1 mixin
    obtain ⟨found, -, rfl⟩ := Option.map_eq_some_iff.1 link
    rfl
  · exact Lineup.unmarked_of_plainChain e plain

/-- An element as it is started where no filter is: for a mixin, a position is pushed. -/
def Invocation.Resolved.started (e : Resolved) : Resolved :=
  { e with pushedMixinPosition := e.kind.isMixin }

/-- The world in which an element is started. -/
def World.startedAt (w : World) (h : Handle) (e : Resolved) : World :=
  if e.kind.isMixin then
    { w with objects := w.objects.modify h fun o => { o with mixinPositions := e.definer :: o.mixinPositions } }
  else w

/-- Without filters, a call that ignores permissions starts the first element of the rest of the chain. -/
theorem Lineup.Located.exec_resolveUnfiltered_of_searched {line : Lineup} (located : line.Located w.objects)
    (proper : Proper w) (searched : (searchMixins host line.receiver line.name line.mixins).exec w =
      some (.ok (line.mixins.findSome? (line.mixesIn (verdicts w lets))), w))
    (ignores : mods.ignorePermissions = true) (simple : interceptable line.name mods = true) : ∃ b, Filled w.objects b ∧
      (resolveUnfiltered host line.receiver line.name mods line.mixins).exec w =
        some (.ok ((line.unfilteredChain (verdicts w lets)).head?.map Resolved.started),
          (line.unfilteredChain (verdicts w lets)).head?.elim { w with objects := b }
            (World.startedAt { w with objects := b } line.receiver)) := by
  unfold resolveUnfiltered
  rw [Action.exec_bind_of_ok searched, Lineup.unfilteredChain, List.head?_append, Lineup.head?_mixinLinks]
  cases line.mixins.findSome? (line.mixesIn (verdicts w lets)) with
  | some found => exact ⟨w.objects, .refl proper.kept, exec_permitMixin_of_ignores ignores found.1 found.2 w⟩
  | none =>
    obtain ⟨b, filled, done⟩ := located.exec_resolvePlain proper ignores simple
    refine ⟨b, filled, (Action.exec_liftM _ w).trans ((congrArg some done).trans ?_)⟩
    rw [Option.map_none, Option.none_or]
    cases first : line.plainChain.head? with
    | none => rfl
    | some e =>
      have listed := List.mem_of_mem_head? first
      have kind : e.kind.isMixin = false := by rw [Lineup.kind_of_plainChain e listed]; rfl
      have same : e.started = e := by
        rw [Resolved.started, kind, ← Lineup.unmarked_of_plainChain e listed]
        rfl
      rw [Option.map_some, same, Option.elim_some, World.startedAt, kind, if_neg Bool.false_ne_true]

theorem Lineup.Located.exec_resolveUnfiltered {line : Lineup} (located : line.Located w.objects) (proper : Proper w)
    (remain : w.objects.HandlesRemain)
    (constant : ∀ p ∈ line.guards, GuardConstant Heap.HandlesRemain host lets p)
    (ignores : mods.ignorePermissions = true) (simple : interceptable line.name mods = true) : ∃ found u,
      (resolveUnfiltered host line.receiver line.name mods line.mixins).exec w = some (.ok found, u) ∧
      found.map Resolved.unmarked = (line.unfilteredChain (verdicts w lets)).head? := by
  have searched := located.exec_searchMixins remain (fun m member => member) fun m member p guard =>
    constant p (List.mem_append_right _ (List.mem_filterMap.2 ⟨m, member, guard⟩))
  obtain ⟨b, -, done⟩ := located.exec_resolveUnfiltered_of_searched proper searched ignores simple
  refine ⟨_, _, done, ?_⟩
  cases first : (line.unfilteredChain (verdicts w lets)).head? with
  | none => rfl
  | some e => exact congrArg some (Lineup.unmarked_of_unfilteredChain (List.mem_of_mem_head? first))

/-- A call that ignores permissions finds the first element of its chain. -/
theorem exec_resolve_of_constant (proper : Proper w) (current : MixinOrdersCurrent w)
    (remain : w.objects.HandlesRemain) (live : w.live? h = some o)
    (constant : ∀ p ∈ (w.lineup h name).guards, GuardConstant Heap.HandlesRemain host lets p)
    (ignores : mods.ignorePermissions = true) (simple : interceptable name mods = true) : ∃ found u,
      (resolve host h name mods).exec w = some (.ok found, u) ∧
      found.map Resolved.unmarked = (w.callChain h name lets).head? := by
  obtain ⟨v, first, consulted⟩ := exec_firstFilter_of_constant proper current remain live constant
  obtain ⟨x, mixed, further⟩ := consulted.exec_mixinOrder proper current live name
  have located := (World.located_lineup proper live name).of_alike further.alike.placing
  have depth : verdicts x lets = verdicts w lets := by
    unfold verdicts
    rw [further.aside]
  unfold resolve
  rw [simple]
  simp only [Bool.not_true, Bool.false_eq_true, if_false]
  rw [Action.exec_bind_of_ok first, Action.exec_liftM_bind_of_ok mixed, World.callChain, List.head?_append]
  have unfiltered := located.exec_resolveUnfiltered further.proper (remain.of_layout further.alike.layout) constant
    ignores simple
  rw [depth] at unfiltered
  cases w.takesFilters h with
  | false => exact unfiltered
  | true =>
    simp only [if_true, Lineup.head?_filterLinks]
    cases (w.lineup h name).filters.find? ((w.lineup h name).admits lets) with
    | none => exact unfiltered
    | some entry =>
      dsimp only
      cases (w.lineup h name).mixins with
      | nil => exact ⟨_, _, rfl, rfl⟩
      | cons m rest => exact ⟨_, _, rfl, rfl⟩

/-! ## Calls that the system makes -/

/-- An object without the mark of one that is to be destroyed. -/
def Object.uncalled (o : Object) : Object :=
  { o with destroyCalled := false }

/-- Marks and settings make no difference to orders. -/
theorem sameOrders_of_uncalled {u : World} (proper : Proper w) (current : MixinOrdersCurrent w)
    (alike : Heap.Alike Object.uncalled w.objects u.objects) (names : u.names = w.names)
    (systems : u.systems = w.systems) : Proper u ∧ MixinOrdersCurrent u ∧ SameOrders w u := by
  have after : Proper u := proper.of_alike (alike.comp Object.links fun _ => rfl)
    (alike.comp Object.precedence fun _ => rfl) names systems
  have setting : Heap.Alike Object.setting w.objects u.objects := alike.comp Object.setting fun _ => rfl
  have currentAfter : MixinOrdersCurrent u := by
    refine .of_setting proper after setting fun k p q order here there kept => ?_
    have same := alike.view k
    rw [(World.live?_eq_some_iff.1 here).1, there] at same
    exact current k p order here ((congrArg Object.mixinOrder (Option.some.inj same) :).symm.trans kept)
  have teaching : Heap.Alike Object.teaching w.objects u.objects := alike.comp Object.teaching fun _ => rfl
  exact ⟨after, currentAfter, .of_setting proper after current currentAfter (alike.comp Object.identity fun _ => rfl)
    (Heap.supersOf_of_teaching teaching) setting (alike.comp (fun o => (o.deleted, o.filterOrder)) fun _ => rfl)⟩

/-- The same world with filters disabled. -/
def World.unfiltered (w : World) : World :=
  { w with settings := { w.settings with filtersEnabled := false } }

/-- With filters disabled, a call that ignores permissions finds the first element of the rest of the chain. -/
theorem exec_resolve_unfiltered (proper : Proper w) (current : MixinOrdersCurrent w) (remain : w.objects.HandlesRemain)
    (live : w.live? h = some o) (simple : Definition.isQualified name = false)
    (constant : ∀ p ∈ (w.lineup h name).guards, GuardConstant Heap.HandlesRemain host lets p) : ∃ found x,
      (resolve host h name { ignorePermissions := true }).exec w.unfiltered = some (.ok found, x) ∧
      found.map Resolved.unmarked = ((w.lineup h name).unfilteredChain (verdicts w lets)).head? := by
  obtain ⟨proper', current', orders⟩ := @sameOrders_of_uncalled w w.unfiltered proper current (.refl _) rfl rfl
  have lineup : w.unfiltered.lineup h name = w.lineup h name := World.lineup_eq orders (.refl _) h name
  obtain ⟨found, x, resolved, first⟩ := @exec_resolve_of_constant w.unfiltered h o name lets host
    { ignorePermissions := true } proper' current' remain live (lineup ▸ constant) rfl (by simp [interceptable, simple])
  rw [World.callChain, lineup] at first
  exact ⟨found, x, resolved, first⟩

/-- What comes of looking in `u` for a method that the system calls by itself, which ends in `v`. -/
structure Implicit (host : Host) (lets : Predicate → Bool) (line : Lineup) (u v : World) : Prop where
  looks : (Lifecycle.implements line.receiver line.name).exec u = (.ok line.knows, v)
  /-- The method is there if a call without filters finds it, and else if it is concealed. -/
  resolves : ∃ found x, (resolve host line.receiver line.name { ignorePermissions := true }).exec u.unfiltered =
      some (.ok found, x) ∧ (line.knows = true ↔ found.isSome = true ∨ line.Conceals (verdicts u lets)) ∧
    (line.Conceals (verdicts u lets) → found = none)
  /-- If it is not concealed, the call that follows starts a method. -/
  starts : line.knows = true → ¬line.Conceals (verdicts u lets) → ∀ args (mods : CallModifiers),
    mods.ignorePermissions = true → interceptable line.name mods = true → u.stack.depth < u.settings.maxDepth →
      ∃ found x, (call host line.receiver line.name args mods).exec v =
        (enter host line.receiver line.name found args mods).exec x
  /-- If it is concealed, the call ends as one that finds no method, unless it starts with a filter. -/
  unknown : line.Conceals (verdicts u lets) →
    (u.takesFilters line.receiver = true → ∀ entry ∈ line.filters, line.admits lets entry = false) →
    ∀ args (mods : CallModifiers), mods.ignorePermissions = true → interceptable line.name mods = true →
      u.stack.depth < u.settings.maxDepth → ∃ x, (call host line.receiver line.name args mods).exec v =
        (answerNotFound host line.receiver line.name args mods).exec x

theorem callChain_eq_nil (w : World) (h : Handle) (name : String) : w.callChain h name lets = [] ↔
    (w.takesFilters h = true → ∀ entry ∈ (w.lineup h name).filters, (w.lineup h name).admits lets entry = false) ∧
      (w.lineup h name).unfilteredChain (verdicts w lets) = [] := by
  rw [World.callChain, List.append_eq_nil_iff]
  cases w.takesFilters h <;> simp [Lineup.filterLink]

theorem exists_implicit (proper : Proper w) (current : MixinOrdersCurrent w) (remain : w.objects.HandlesRemain)
    (live : w.live? h = some o) (simple : Definition.isQualified name = false)
    (constant : ∀ p ∈ (w.lineup h name).guards, GuardConstant Heap.HandlesRemain host lets p) :
    ∃ v, Implicit host lets (w.lineup h name) w v := by
  obtain ⟨v, looked, consulted, orders⟩ := exec_implements proper current live name
  have placing := consulted.alike.placing
  obtain ⟨p, there, -⟩ := ((World.located_lineup proper live name).of_alike placing).exists_live
  have lineup : v.lineup h name = w.lineup h name := World.lineup_eq orders placing h name
  have chains : v.callChain h name lets = w.callChain h name lets := by
    unfold World.callChain World.takesFilters verdicts insideFilterOf
    rw [lineup, consulted.aside]
  have room : v.stack.depth = w.stack.depth ∧ v.settings.maxDepth = w.settings.maxDepth := by
    rw [consulted.aside]
    exact ⟨rfl, rfl⟩
  have calls : ∀ args (mods : CallModifiers), mods.ignorePermissions = true → interceptable name mods = true →
      w.stack.depth < w.settings.maxDepth → ∃ (found : Option Resolved) (x : World),
        found.map Resolved.unmarked = (w.callChain h name lets).head? ∧ (call host h name args mods).exec v =
          (found.elim (answerNotFound host h name args mods) (enter host h name · args mods)).exec x := by
    intro args mods ignores simple below
    obtain ⟨found, x, resolved, first⟩ := exec_resolve_of_constant consulted.proper consulted.current
      (remain.of_layout consulted.alike.layout) there (lineup ▸ constant) ignores simple
    exact ⟨found, x, chains ▸ first, exec_call_of_resolve args there (by omega) resolved⟩
  refine ⟨v, looked, ?_, fun knows open' args mods ignores simple below => ?_,
    fun concealed closed args mods ignores simple below => ?_⟩
  · obtain ⟨found, x, resolved, first⟩ := exec_resolve_unfiltered proper current remain live simple constant
    have same : found.isSome = ((w.lineup h name).unfilteredChain (verdicts w lets)).head?.isSome := by
      rw [← first, Option.isSome_map]
    refine ⟨found, x, resolved, ?_, fun concealed => ?_⟩
    · rw [same, Lineup.conceals_iff, List.isSome_head?]
      constructor
      · intro knows
        by_cases none : (w.lineup h name).unfilteredChain (verdicts w lets) = []
        · exact .inr ⟨knows, none⟩
        · exact .inl none
      · rintro (found | ⟨knows, -⟩)
        · exact Lineup.knows_of_unfilteredChain found
        · exact knows
    · rw [(Lineup.conceals_iff.1 concealed).2] at first
      exact Option.map_eq_none_iff.1 first
  · obtain ⟨found, x, first, ran⟩ := calls args mods ignores simple below
    cases found with
    | some found => exact ⟨found, x, ran⟩
    | none =>
      have none := List.head?_eq_none_iff.1 first.symm
      exact absurd (Lineup.conceals_iff.2 ⟨knows, ((callChain_eq_nil w h name).1 none).2⟩) open'
  · obtain ⟨found, x, first, ran⟩ := calls args mods ignores simple below
    have none := (callChain_eq_nil w h name).2 ⟨closed, (Lineup.conceals_iff.1 concealed).2⟩
    rw [none] at first
    cases Option.map_eq_none_iff.1 first
    exact ⟨x, ran⟩

end lineup

/-! ## Creation and destruction -/

/-- Runs the init method of the system, which is not hindered by permissions. An object for which it fails goes. -/
def Lifecycle.runInit (host : Host) (h : Handle) (name : String) (args : List Value) : Action Unit := do
  match ← Action.settle (host.call h name args { ignorePermissions := true }) with
  | .ok _ => return ()
  | .error f =>
    let _ ← Action.settle (destroy host h)
    throw f

/-- Creating an object is refused before anything is called, or it comes to initialising a live object, in a world that
follows. -/
def World.Creates (w : World) (creates : Host → List Value → Action Handle) : Prop :=
  (∃ e u, ∀ host args, (creates host args).exec w = some (.error e, u)) ∨
    ∃ h o x, Evolves Heap.HandlesRemain w x ∧ x.live? h = some o ∧ ∀ host args,
      (creates host args).exec w = (Lifecycle.callInit host h args >>= fun _ => pure h).exec x

section creation

variable {v w : World} {h : Handle} {o : Object} {name : String} {lets : Predicate → Bool} {host : Host}

theorem World.Creates.after {creates begun : Host → List Value → Action Handle} (path : Evolves Heap.HandlesRemain w v)
    (same : ∀ host args, (creates host args).exec w = (begun host args).exec v) (later : v.Creates begun) :
    w.Creates creates := by
  rcases later with ⟨e, u, refused⟩ | ⟨h, o, x, further, live, ends⟩
  · exact .inl ⟨e, u, fun host args => (same host args).trans (refused host args)⟩
  · exact .inr ⟨h, o, x, path.trans further, live, fun host args => (same host args).trans (ends host args)⟩

theorem World.creates_createClass (proper : Proper w) (remain : w.objects.HandlesRemain) (name : String)
    (metaclass : Handle) (supers : List Handle) :
    w.Creates fun host args => Lifecycle.createClass host name metaclass supers args := by
  have path : Evolves Heap.HandlesRemain w ((Lifecycle.enrollClass name metaclass supers).exec w).2 :=
    .single (.enrollClass name metaclass supers remain)
  unfold World.Creates Lifecycle.createClass
  rcases proper.exec_enrolledClass remain.hasRoom name metaclass supers with ⟨e, refused⟩ |
    ⟨p, h, a, v, -, -, arrives, different, -, is, well, ⟨t, placed, ended⟩ | ⟨e, t, -, -, -, refused⟩⟩
  · exact .inl ⟨e, w, fun host args => by rw [Action.exec_bind, Action.exec_liftM, refused]; rfl⟩
  · have relinks := Relinks.setSuperclasses well h supers
    have there : v.objects.get? h = some (Object.newClass (Definition.qualify name) metaclass p.system) := by
      rw [is]
      exact arrives.get?_join different
    rw [placed] at relinks
    obtain ⟨o, found, same⟩ := relinks.objects.exists_of_get? there
    rw [ended] at path
    exact .inr ⟨h, o, t, path, World.live?_eq_some_iff.2 ⟨found, (congrArg Object.deleted same :)⟩,
      fun host args => Action.exec_liftM_bind_of_ok ended _⟩
  · exact .inl ⟨e, _, fun host args => by rw [Action.exec_bind, Action.exec_liftM, refused]; rfl⟩

theorem World.creates_createObject (proper : Proper w) (remain : w.objects.HandlesRemain) (cls : Handle)
    (name : Option String) : w.Creates fun host args => Lifecycle.createObject host cls name args := by
  have named : ∀ {v : World} (n : String), Proper v → v.objects.HandlesRemain → v.isClass cls = true →
      v.names.get? n = none → v.Creates fun host args => (do
        if ← Update.isMetaclass cls then Lifecycle.createClass host n cls [] args
        else
          let h ← Lifecycle.enroll (.ofClass n cls (← Update.object cls).system)
          Lifecycle.callInit host h args
          return h : Action Handle) := by
    intro v n proper remain isClass free
    cases plain : v.isMetaclass cls with
    | true =>
      refine .after .refl (fun host args => ?_) (creates_createClass proper remain n cls [])
      rw [Action.exec_liftM_bind_of_ok (Update.exec_isMetaclass cls v), plain]
      rfl
    | false =>
      obtain ⟨c, part, live, isPart⟩ := World.isClass_iff.1 isClass
      have ofClass := Object.unlinked_ofClass n cls c.system
      obtain ⟨h, a, arrives, different, enrolled, -⟩ :=
        proper.exec_enroll remain.hasRoom ofClass isClass free (proper.rooted.system cls c live) rfl
      have path := @Relation.ReflTransGen.single _ (Change Beside Heap.HandlesRemain) _ _
        (.enroll n cls remain live (by rw [Object.isClass, isPart]; rfl) free False.elim)
      rw [enrolled] at path
      refine .inr ⟨h, _, _, path, World.live?_eq_some_iff.2 ⟨arrives.get?_join different, rfl⟩, fun host args => ?_⟩
      rw [Action.exec_liftM_bind_of_ok (Update.exec_isMetaclass cls v), plain]
      simp only [Bool.false_eq_true, if_false]
      rw [Action.exec_liftM_bind_of_ok (Update.exec_object_of_live live), Action.exec_liftM_bind_of_ok enrolled]
  unfold Lifecycle.createObject
  cases isClass : w.isClass cls with
  | false =>
    refine .inl ⟨.structural (.notClass (w.nameOf cls)), w, fun host args => ?_⟩
    rw [Action.exec_bind_of_ok (Action.exec_get w), isClass]
    rfl
  | true =>
    cases name with
    | some name =>
      rcases Lifecycle.exec_claimName name w with ⟨e, taken⟩ | ⟨claimed, free⟩
      · refine .inl ⟨e, w, fun host args => ?_⟩
        rw [Action.exec_bind_of_ok (Action.exec_get w), isClass, if_pos rfl, Action.exec_bind, Action.exec_liftM, taken]
        rfl
      · refine .after .refl (fun host args => ?_) (named _ proper remain isClass free)
        rw [Action.exec_bind_of_ok (Action.exec_get w), isClass]
        exact Action.exec_liftM_bind_of_ok claimed _
    | none =>
      obtain ⟨n, counters, fresh, free⟩ := Lifecycle.exec_freshName w
      have path : Evolves Heap.HandlesRemain w { w with nameCounters := counters } :=
        .single (.aside (.of_objects rfl rfl rfl rfl le_rfl))
      refine .after path (fun host args => ?_)
        (named n (proper.evolves (fun _ remain => remain) path) remain isClass free)
      rw [Action.exec_bind_of_ok (Action.exec_get w), isClass]
      exact Action.exec_liftM_bind_of_ok fresh _

/-- What the system calls by itself in `w`, and how that ends. -/
structure World.CallsImplicitly (w : World) : Prop where
  /-- Where no guard of filters and mixins wavers, the system finds out about a live object what a call would find, but
  for methods that are concealed. A mark that the object is to be destroyed makes no difference. -/
  looks : w.objects.HandlesRemain → ∀ {h o name lets} {host : Host}, w.live? h = some o →
    Definition.isQualified name = false →
    (∀ p ∈ (w.lineup h name).guards, GuardConstant Heap.HandlesRemain host lets p) →
      (∃ u, Implicit host lets (w.lineup h name) w u) ∧ ∃ u, Implicit host lets (w.lineup h name) (w.calling h) u
  /-- New objects are initialised as soon as they are there. -/
  creates : w.objects.HandlesRemain →
    (∀ name metaclass supers, w.Creates fun host args => Lifecycle.createClass host name metaclass supers args) ∧
      ∀ cls name, w.Creates fun host args => Lifecycle.createObject host cls name args
  /-- An object is initialised by its init method if it is there. -/
  init : ∀ {h o s name lets u} {host : Host}, w.live? h = some o → w.systems[o.system]? = some s →
    s.methods.init = some name → Implicit host lets (w.lineup h name) w u → ∀ outer args,
      (Lifecycle.callInit outer h args).exec w =
        (if (w.lineup h name).knows then Lifecycle.runInit outer h name args else pure ()).exec u
  /-- An object that is destroyed for the first time is left to its destroy method if it is there. -/
  destroy : ∀ {h o s name lets u} {host : Host}, w.live? h = some o → w.systems[o.system]? = some s →
    s.methods.destroy = some name → Implicit host lets (w.lineup h name) (w.calling h) u → o.isRoot = false →
    o.duringDelete = false → o.destroyCalled = false → ∀ outer,
      (Lifecycle.destroy outer h).exec w =
        ((if (w.lineup h name).knows then Lifecycle.runDestroy outer h name else pure (.ok ())) >>=
          Lifecycle.finishDestroying h).exec u

/-- The system calls `init` and `destroy`. The class `D` has both. For the instances of `C` there is only a private
`init`, and a `destroy` that is shut off by a guard. -/
def concealingSession : List Expr :=
  [.createSystem (Trial.text "Object") (Trial.text "Class")
      { init := some (Trial.text "init"), destroy := some (Trial.text "destroy") },
    Trial.createClass "M", Trial.createClass "N", Trial.createClass "C", Trial.createClass "D",
    Trial.define .instances "M" { Trial.method "init" (Trial.text "init") with visibility := .hidden },
    Trial.define .instances "N" (Trial.method "destroy" (Trial.text "destroy")),
    Trial.define .instances "D" (Trial.method "init" (Trial.text "init")),
    Trial.define .instances "D" (Trial.method "destroy" (Trial.text "destroy")),
    Trial.createObject "o" "C", Trial.createObject "p" "D", Trial.addMixin .instances "C" "M",
    .change (.addMixin .instances (.name "C") ⟨.name "N", some ⟨"shut", .literal (.bool false)⟩⟩)]

def concealingWorld : World :=
  (sessionWithin Heap.HandlesRemain 5 concealingSession).get (by decide +kernel)

theorem reachable_concealingWorld : Reachable Heap.HandlesRemain concealingWorld :=
  .sessionWithin (Option.some_get _).symm

/-- Wherever a reachable world has come to, the system calls by itself what is there. -/
theorem Reachable.callsImplicitly (reached : Reachable Heap.HandlesRemain v) (path : Evolves Heap.HandlesRemain v w) :
    w.CallsImplicitly := by
  have remains : ∀ a : Objects, a.HandlesRemain → a.HandlesRemain := fun _ remain => remain
  have proper := (reached.proper remains).evolves remains path
  have current := reached.mixinOrdersCurrent.evolves remains (reached.proper remains) path
  constructor
  case looks =>
    intro remain h o name lets host live simple constant
    have alike : Heap.Alike Object.uncalled w.objects (w.calling h).objects := .modify _ h fun _ => rfl
    obtain ⟨proper', current', orders⟩ := sameOrders_of_uncalled proper current alike rfl rfl
    have lineup : (w.calling h).lineup h name = w.lineup h name :=
      World.lineup_eq orders (alike.comp Object.placing fun _ => rfl) h name
    refine ⟨exists_implicit proper current remain live simple constant, ?_⟩
    rw [← lineup] at constant ⊢
    exact exists_implicit proper' current' (remain.of_layout alike.layout) (World.live?_calling live) simple constant
  case creates =>
    exact fun remain => ⟨World.creates_createClass proper remain, World.creates_createObject proper remain⟩
  case init =>
    intro h o s name lets u host live listed method implicit outer args
    unfold Lifecycle.callInit
    rw [Action.exec_liftM_bind_of_ok (Update.exec_systemOf_of_live live listed), method]
    dsimp only
    have looked : (Lifecycle.implements h name).exec w = _ := implicit.looks
    rw [Action.exec_liftM_bind_of_ok looked]
    cases (w.lineup h name).knows <;> rfl
  case destroy =>
    intro h o s name lets u host live listed method implicit root present uncalled outer
    have marking := Update.exec_changeObject_of_live live fun o => { o with destroyCalled := true }
    have looking := Update.exec_systemOf_of_live (World.live?_calling live) listed
    have looked : (Lifecycle.implements h name).exec (w.calling h) = _ := implicit.looks
    rw [exec_destroy_of_live live root present]
    simp only [uncalled, Bool.false_eq_true, if_false]
    rw [Action.exec_bind, Action.exec_bind]
    congr 1
    unfold Lifecycle.callDestroy
    rw [Action.exec_liftM_bind_of_ok marking]
    change Action.exec _ (w.calling h) = _
    rw [Action.exec_liftM_bind_of_ok looking, method]
    dsimp only
    rw [Action.exec_liftM_bind_of_ok looked]
    cases (w.lineup h name).knows <;> rfl

/-- The destroy method of one object is found and called, and that of the other one is concealed. -/
theorem callsImplicitly_concealing :
    (∃ u, Implicit (hostWithin Heap.HandlesRemain 1) (fun _ => false) (concealingWorld.lineup ⟨7, 0⟩ "destroy")
        (concealingWorld.calling ⟨7, 0⟩) u ∧ ∀ outer,
      (Lifecycle.destroy outer ⟨7, 0⟩).exec concealingWorld =
        (Lifecycle.runDestroy outer ⟨7, 0⟩ "destroy" >>= Lifecycle.finishDestroying ⟨7, 0⟩).exec u) ∧
    (∃ u, Implicit (hostWithin Heap.HandlesRemain 1) (fun _ => false) (concealingWorld.lineup ⟨6, 0⟩ "destroy")
      concealingWorld u) ∧
    (concealingWorld.lineup ⟨6, 0⟩ "destroy").Conceals (verdicts concealingWorld fun _ => false) := by
  obtain ⟨remain, literal, present, known, untouched, knows⟩ :
      concealingWorld.objects.HandlesRemain ∧
      (∀ h ∈ [⟨6, 0⟩, ⟨7, 0⟩], ∀ p ∈ (concealingWorld.lineup h "destroy").guards, literally (fun _ => false) p = true) ∧
      (∀ h ∈ [⟨6, 0⟩, ⟨7, 0⟩], (concealingWorld.live? h).isSome = true) ∧
      ((concealingWorld.live? ⟨7, 0⟩).bind fun o => concealingWorld.systems[o.system]?).map (·.methods.destroy) =
        some (some "destroy") ∧
      (concealingWorld.live? ⟨7, 0⟩).all (fun o => !o.isRoot && !o.duringDelete && !o.destroyCalled) = true ∧
      (concealingWorld.lineup ⟨7, 0⟩ "destroy").knows = true := by
    decide +kernel
  have calls : concealingWorld.CallsImplicitly := Reachable.callsImplicitly reachable_concealingWorld .refl
  obtain ⟨o, live⟩ := Option.isSome_iff_exists.1 (present ⟨6, 0⟩ (by decide))
  obtain ⟨p, there⟩ := Option.isSome_iff_exists.1 (present ⟨7, 0⟩ (by decide))
  have constant : ∀ h ∈ [⟨6, 0⟩, ⟨7, 0⟩], ∀ p ∈ (concealingWorld.lineup h "destroy").guards,
      GuardConstant Heap.HandlesRemain (hostWithin Heap.HandlesRemain 1) (fun _ => false) p :=
    fun h member p guard => guardConstant_of_literally 0 (literal h member p guard)
  obtain ⟨-, u, implicit⟩ := calls.looks remain there (by decide) (constant ⟨7, 0⟩ (by decide))
  rw [there] at known untouched
  obtain ⟨s, listed, method⟩ := Option.map_eq_some_iff.1 known
  simp only [Option.all_some, Bool.and_eq_true, Bool.not_eq_true'] at untouched
  have ends := calls.destroy there listed method implicit untouched.1.1 untouched.1.2 untouched.2
  rw [knows] at ends
  refine ⟨⟨u, implicit, ends⟩, (calls.looks remain live (by decide) (constant ⟨6, 0⟩ (by decide))).1, ?_⟩
  exact Lineup.conceals_iff.2 ⟨by decide +kernel, List.isEmpty_iff.1 (by decide +kernel)⟩

/-- Both methods are there for an instance of `C`, and calls without filters find neither. No further instance can be
created, and destroying this one fails. -/
theorem not_resolves_of_implements : Reachable Heap.HandlesRemain concealingWorld ∧
    (∀ p ∈ (concealingWorld.lineup ⟨6, 0⟩ "init").guards ++ (concealingWorld.lineup ⟨6, 0⟩ "destroy").guards,
      GuardConstant Heap.HandlesRemain (hostWithin Heap.HandlesRemain 1) (fun _ => false) p) ∧
    (∀ name ∈ ["init", "destroy"],
      ((Lifecycle.implements ⟨6, 0⟩ name).exec concealingWorld).1.toOption = some true ∧
      ((resolve (hostWithin Heap.HandlesRemain 1) ⟨6, 0⟩ name { ignorePermissions := true }).exec
        concealingWorld.unfiltered).map (fun result => result.1.toOption.map Option.isSome) = some (some false)) ∧
    ((Lifecycle.createObject (hostWithin Heap.HandlesRemain 8) ⟨4, 0⟩ (some "q") []).exec concealingWorld).map (·.1) =
      some (.error (.unknown "::q" "init")) ∧
    ((Lifecycle.destroy (hostWithin Heap.HandlesRemain 8) ⟨6, 0⟩).exec concealingWorld).map (·.1) =
      some (.error (.unknown "::o" "destroy")) := by
  simp only [hostWithin_eq_hostChecking]
  refine ⟨reachable_concealingWorld, ?_, by decide +kernel, by decide +kernel, by decide +kernel⟩
  have literal : ∀ p ∈
      (concealingWorld.lineup ⟨6, 0⟩ "init").guards ++ (concealingWorld.lineup ⟨6, 0⟩ "destroy").guards,
      literally (fun _ => false) p = true := by
    decide +kernel
  rw [← hostWithin_eq_hostChecking]
  exact fun p guard => guardConstant_of_literally 0 (literal p guard)

end creation

end DynamicObjects
