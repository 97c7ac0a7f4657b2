import DynamicObjects.Proofs.Interception.Stations
import DynamicObjects.Proofs.Runs.FilterFrames

/-!
# Lineups that last

While a lineup lasts, no orders are kept but its own, and the classes and the receiver's own method are as they were. Then
whatever a search finds is registered in the lineup, and the search for the next method finds what is registered behind the
running one.
-/
namespace DynamicObjects

open Invocation

/-! ## Guards -/

/-- Guards that end with good heaps began with good heaps. -/
def Host.Cautious (good : Objects → Prop) (host : Host) : Prop :=
  ∀ s e w r v, (host.eval s e).exec w = some (r, v) → good v.objects → good w.objects

/-- Where tasks that are not begun and ended with good heaps fail at once, guards are cautious. -/
theorem Host.cautious_failing (good : Objects → Prop) (depth : Nat) : (hostWithin good depth).failing.Cautious good := by
  intro s e w r v done ends
  have performed := (Host.perform_failing (hostWithin good depth) (.eval s e) w).symm.trans done
  cases result : ((hostWithin good depth).perform (.eval s e)).exec w with
  | none =>
    rw [result] at performed
    cases performed
    exact ends
  | some result' =>
    rw [result] at performed
    cases performed
    cases depth with
    | zero => cases result
    | succ depth =>
      rw [hostWithin, Host.perform_ofTasks] at result
      exact (Action.exec_within_eq_some.1 result).1

namespace Invocation

variable {good : Objects → Prop} {host : Host} {h : Handle} {name : String} {v w : World}

theorem good_of_passes (cautious : host.Cautious good) {guard : Option Predicate} {passed : Bool}
    (done : (passes host h name guard).exec w = some (.ok passed, v)) (ends : good v.objects) : good w.objects := by
  cases guard with
  | none =>
    cases done
    exact ends
  | some guard =>
    change (evalGuard host h name guard).exec w = _ at done
    unfold evalGuard at done
    rw [Action.exec_bind_of_ok (Action.exec_modify _ w), Action.exec_settle_bind] at done
    obtain ⟨⟨outcome, x⟩, evaluated, done⟩ := Option.bind_eq_some_iff.1 done
    dsimp only at done
    rw [Action.exec_bind_of_ok (Action.exec_modify _ x)] at done
    cases outcome with
    | ok value =>
      cases done
      have begins : good { w with
          stack := w.stack.push { object := h, methodName := name, isGuard := true }
          guardDepth := w.guardDepth + 1 }.objects := cautious _ _ _ _ _ evaluated ends
      exact begins
    | error f =>
      obtain ⟨_, _, -, refused⟩ := Action.exec_bind_eq_ok done
      cases refused

/-- A filter that is found is one of the entries that were searched. -/
theorem mem_of_searchFilters (cautious : host.Cautious good) {isClass : Bool} {entries : List FilterEntry}
    {found : Option FilterEntry} (done : (searchFilters host h isClass entries).exec w = some (.ok found, v)) :
    (good v.objects → good w.objects) ∧ ∀ entry, found = some entry → entry ∈ entries := by
  induction entries generalizing w with
  | nil =>
    cases done
    exact ⟨id, fun _ is => by cases is⟩
  | cons entry rest ih =>
    have later : ∀ {u}, (searchFilters host h isClass rest).exec u = some (.ok found, v) →
        (good v.objects → good u.objects) ∧ ∀ e, found = some e → e ∈ entry :: rest := by
      intro u done
      exact (ih done).imp_right fun member e is => List.mem_cons_of_mem entry (member e is)
    unfold searchFilters at done
    split at done
    · exact later done
    · obtain ⟨passed, u, guarded, done⟩ := Action.exec_bind_eq_ok done
      split at done
      · cases done
        refine ⟨good_of_passes cautious guarded, fun e is => ?_⟩
        cases is
        exact List.mem_cons_self
      · obtain ⟨back, member⟩ := later done
        exact ⟨fun ends => good_of_passes cautious guarded (back ends), member⟩

/-- The class of a mixin that is found is that of one of the mixins that were searched. -/
theorem mem_of_searchMixins (cautious : host.Cautious good) {mixins : List Mixin} {found : Option (Handle × Method)}
    (done : (searchMixins host h name mixins).exec w = some (.ok found, v)) :
    (good v.objects → good w.objects) ∧ ∀ c method, found = some (c, method) → c ∈ mixins.map (·.target) := by
  induction mixins generalizing w with
  | nil =>
    cases done
    exact ⟨id, fun _ _ is => by cases is⟩
  | cons m rest ih =>
    have later : ∀ {u}, (searchMixins host h name rest).exec u = some (.ok found, v) →
        (good v.objects → good u.objects) ∧ ∀ c method, found = some (c, method) → c ∈ (m :: rest).map (·.target) := by
      intro u done
      exact (ih done).imp_right fun member c method is => List.mem_cons_of_mem _ (member c method is)
    unfold searchMixins at done
    rw [Action.exec_bind_of_ok (Action.exec_get w)] at done
    split at done
    · exact later done
    · obtain ⟨passed, u, guarded, done⟩ := Action.exec_bind_eq_ok done
      split at done
      · cases done
        refine ⟨good_of_passes cautious guarded, fun c method is => ?_⟩
        cases is
        exact List.mem_cons_self
      · obtain ⟨back, member⟩ := later done
        exact ⟨fun ends => good_of_passes cautious guarded (back ends), member⟩

/-- The class whose method is found is one of those that were searched. -/
theorem mem_of_searchClasses {classes : List Handle} {method : Method} {definer : Option Handle}
    (found : (searchClasses name classes).exec w = (.ok (some (method, definer)), v)) :
    ∃ c, definer = some c ∧ c ∈ classes := by
  induction classes generalizing w with
  | nil => cases found
  | cons c rest ih =>
    unfold searchClasses at found
    obtain ⟨part, x, -, found⟩ := Update.exec_bind_eq_ok found
    split at found
    · cases found
      exact ⟨c, rfl, List.mem_cons_self⟩
    · obtain ⟨d, is, member⟩ := ih found
      exact ⟨d, is, List.mem_cons_of_mem c member⟩

/-! ## Methods without a defining class -/

variable {method : Method} {mods : CallModifiers} {resolved : Resolved}

theorem own_of_searchNamespace (found : (searchNamespace h name).exec w = (.ok (some (method, none)), v)) :
    ∃ o, w.live? h = some o ∧ o.methods.get? name = some method := by
  unfold searchNamespace at found
  rw [Update.exec_bind_of_ok (Update.exec_get w)] at found
  split at found
  · obtain ⟨part, y, -, found⟩ := Update.exec_bind_eq_ok found
    obtain ⟨_, -, same⟩ := Option.map_eq_some_iff.1 (Except.ok.inj (congrArg Prod.fst found))
    cases same
  · obtain ⟨o, y, there, found⟩ := Update.exec_bind_eq_ok found
    obtain ⟨_, taught, same⟩ := Option.map_eq_some_iff.1 (Except.ok.inj (congrArg Prod.fst found))
    cases same
    exact ⟨o, (Update.exec_object_eq_ok there).1, taught⟩

theorem definer_ne_none_of_searchSystem {definer : Option Handle}
    (found : (searchSystem h name).exec w = (.ok (some (method, definer)), v)) : definer ≠ none := by
  obtain ⟨_, _, -, found⟩ := Update.exec_bind_eq_ok found
  obtain ⟨_, _, -, found⟩ := Update.exec_bind_eq_ok found
  obtain ⟨_, -, same⟩ := Option.map_eq_some_iff.1 (Except.ok.inj (congrArg Prod.fst found))
  cases same
  exact Option.some_ne_none _

theorem own_of_searchObject (found : (searchObject h name).exec w = (.ok (some (method, none)), v)) :
    ∃ o, w.live? h = some o ∧ o.methods.get? name = some method := by
  obtain ⟨o, y, there, found⟩ := Update.exec_bind_eq_ok found
  unfold ownMethod? at found
  cases taught : (o.methods.get? name).filter (!·.isPrivate) with
  | some registered =>
    rw [taught] at found
    cases found
    exact ⟨o, (Update.exec_object_eq_ok there).1, (Option.filter_eq_some_iff.1 taught).1⟩
  | none =>
    rw [taught] at found
    obtain ⟨order, z, -, found⟩ := Update.exec_bind_eq_ok found
    obtain ⟨c, same, -⟩ := mem_of_searchClasses found
    cases same

/-- A plain method without a defining class that was not called by a path is the receiver's own. -/
theorem own_of_resolvePlain (found : (resolvePlain h name mods).exec w = (.ok (some resolved), v)) :
    resolved.kind = .plain ∧ resolved.name = name ∧ (resolved.definer = none → Definition.isQualified name = false →
      ∃ o, w.live? h = some o ∧ o.methods.get? name = some resolved.method) := by
  -- Whatever was searched, what is permitted is run.
  have ends : ∀ {method definer x}, (definer = none → Definition.isQualified name = false →
      ∃ o, w.live? h = some o ∧ o.methods.get? name = some method) → (do
        let exempt := Definition.isQualified name || mods.localOnly || mods.ignorePermissions
        if !exempt && !permitted (← get) h method then return none
        return some { method, definer, kind := .plain, name } : Update (Option Resolved)).exec x =
        (.ok (some resolved), v) → resolved.kind = .plain ∧ resolved.name = name ∧ (resolved.definer = none →
          Definition.isQualified name = false → ∃ o, w.live? h = some o ∧ o.methods.get? name = some resolved.method) := by
    intro method definer x registered ended
    obtain ⟨_, _, -, ended⟩ := Update.exec_bind_eq_ok ended
    rw [Update.exec_ite] at ended
    split at ended
    · cases ended
    · cases ended
      exact ⟨rfl, rfl, registered⟩
  unfold resolvePlain at found
  rw [Update.exec_ite, Update.exec_ite, Update.exec_ite] at found
  split at found
  · next qualified =>
    obtain ⟨_, _, -, found⟩ := Update.exec_bind_eq_ok found
    obtain ⟨searched, x, -, found⟩ := Update.exec_bind_eq_ok found
    obtain _ | ⟨method, definer⟩ := searched
    · cases found
    · exact ends (fun _ unqualified => absurd (qualified.symm.trans unqualified) Bool.noConfusion) found
  split at found
  · obtain ⟨searched, x, searching, found⟩ := Update.exec_bind_eq_ok found
    obtain _ | ⟨method, definer⟩ := searched
    · cases found
    · exact ends (fun none _ => own_of_searchNamespace (none ▸ searching)) found
  split at found
  · obtain ⟨searched, x, searching, found⟩ := Update.exec_bind_eq_ok found
    obtain _ | ⟨method, definer⟩ := searched
    · cases found
    · exact ends (fun none _ => absurd none (definer_ne_none_of_searchSystem searching)) found
  · obtain ⟨searched, x, searching, found⟩ := Update.exec_bind_eq_ok found
    obtain _ | ⟨method, definer⟩ := searched
    · cases found
    · exact ends (fun none _ => own_of_searchObject (none ▸ searching)) found

end Invocation

/-! ## What has to stay -/

namespace Lineup

/-- The receiver of a lineup has the class and the own method that it had, and keeps no other orders. -/
structure Fits (line : Lineup) (o : Object) : Prop where
  cls : o.cls = line.cls
  own : o.methods.get? line.name = line.own
  filters : ∀ order, o.filterOrder = some order → order = line.filters
  mixins : ∀ order, o.mixinOrder = some order → order = line.mixins

/-- A lineup lasts while its classes are in this order, and while the receiver, as long as it is there, fits. -/
structure Lasts (line : Lineup) (a : Objects) : Prop where
  remain : a.HandlesRemain
  receiver : ∀ o, a.get? line.receiver = some o → o.deleted = false → line.Fits o
  classes : Hierarchy.Linearizes a.supersOf line.cls line.classes

variable {line : Lineup} {host : Host} {f : Frame} {state : SearchState} {resolved : Resolved} {key : FilterKey}
  {o : Object} {u v w : World}

namespace Lasts

theorem of_alike {a b : Objects} (lasts : line.Lasts a) (alike : Heap.Alike Object.lining a b) : line.Lasts b := by
  have teaching : Heap.Alike Object.teaching a b := alike.comp (·.2.2.2.2.2) fun _ => rfl
  refine ⟨lasts.remain.of_layout alike.layout, fun p found alive => ?_, ?_⟩
  · obtain ⟨o, before, same⟩ := alike.symm.exists_of_get? found
    simp only [Object.lining, Prod.mk.injEq] at same
    obtain ⟨deleted, cls, methods, filters, mixins, -⟩ := same
    obtain ⟨cls', own, filters', mixins'⟩ := lasts.receiver o before (deleted.trans alive)
    exact ⟨cls ▸ cls', methods ▸ own, filters ▸ filters', mixins ▸ mixins'⟩
  · rw [Heap.supersOf_of_teaching teaching]
    exact lasts.classes

/-- Which precedence orders are kept makes no difference. -/
theorem of_filled {a b : Objects} (lasts : line.Lasts b) (filled : Filled a b) : line.Lasts a := by
  have alike : Heap.Alike Object.lining a b := filled.alike.comp Object.lining fun o => by
    simp [Object.lining, Object.withoutPrecedence, Function.comp_def]
  exact lasts.of_alike alike.symm

theorem of_modify {a : Objects} {h : Handle} {g : Object → Object} (lasts : line.Lasts (a.modify h g))
    (same : ∀ o, (g o).lining = o.lining) : line.Lasts a :=
  lasts.of_alike (Heap.Alike.modify a h same).symm

theorem fits (lasts : line.Lasts w.objects) (live : w.live? line.receiver = some o) : line.Fits o :=
  lasts.receiver o (World.live?_eq_some_iff.1 live).1 (World.live?_eq_some_iff.1 live).2

/-! ## Searches -/

theorem filterOrder_eq {order : List FilterEntry} (lasts : line.Lasts v.objects) (proper : Proper w)
    (asked : (Interception.filterOrder line.receiver).exec w = (.ok order, v)) : order = line.filters := by
  obtain ⟨-, -, p, live, kept⟩ := kept_of_filterOrder proper asked
  exact (lasts.fits live).filters order kept

theorem mixinOrder_eq {order : List Mixin} (lasts : line.Lasts v.objects) (proper : Proper w)
    (asked : (Interception.mixinOrder line.receiver).exec w = (.ok order, v)) : order = line.mixins := by
  obtain ⟨p, live, kept⟩ := FilterOrdersCurrent.kept_of_mixinOrder proper asked
  exact (lasts.fits live).mixins order kept

/-- The filter that is found behind another one is registered behind it. -/
theorem behind_of_filterBehind (lasts : line.Lasts v.objects) (proper : Proper w) (cautious : host.Cautious line.Lasts)
    (found : (filterBehind host line.receiver key).exec w = some (.ok (some resolved), v)) :
    resolved.kind = .filter true ∧ Behind (line.filters.map FilterEntry.key) key resolved.key := by
  unfold filterBehind at found
  obtain ⟨order, x, asked, found⟩ := Action.exec_bind_eq_ok found
  rw [Action.exec_bind_of_ok (Action.exec_get x)] at found
  obtain ⟨filter?, y, searched, found⟩ := Action.exec_bind_eq_ok found
  obtain ⟨back, member⟩ := mem_of_searchFilters cautious searched
  cases filter? with
  | none => cases found
  | some entry =>
    cases found
    have ordered : order = line.filters :=
      (back (lasts.of_modify fun _ => rfl)).filterOrder_eq proper (Option.some.inj asked)
    obtain ⟨before, is, behind⟩ := exists_behind_of_mem_drop (member entry rfl)
    refine ⟨rfl, ?_⟩
    rw [ordered] at behind
    exact (beq_iff_eq.1 is) ▸ behind.map FilterEntry.key

/-- The mixin that is found is one of the lineup, behind the position if there is one. -/
theorem behind_of_nextMixin {name : String} (lasts : line.Lasts v.objects) (proper : Proper w)
    (cautious : host.Cautious line.Lasts)
    (found : (nextMixin host line.receiver name).exec w = some (.ok (some resolved), v)) :
    resolved.kind = .mixin true ∧ resolved.name = name ∧ ∃ c, resolved.definer = some c ∧
      c ∈ line.mixins.map (·.target) ∧
      ∀ m, MixinAt line.receiver (some m) w → Behind (line.mixins.map (·.target)) m c := by
  unfold nextMixin at found
  obtain ⟨order, x, asked, found⟩ := Action.exec_bind_eq_ok found
  rw [Action.exec_bind_of_ok (Action.exec_get x)] at found
  obtain ⟨mixin?, y, searched, found⟩ := Action.exec_bind_eq_ok found
  obtain ⟨back, member⟩ := mem_of_searchMixins cautious searched
  obtain _ | ⟨c, method⟩ := mixin?
  · cases found
  cases found
  have asked : (Interception.mixinOrder line.receiver).exec w = (.ok order, x) := Option.some.inj asked
  have ordered : order = line.mixins := (back (lasts.of_modify fun _ => rfl)).mixinOrder_eq proper asked
  have listed := member c method rfl
  refine ⟨rfl, rfl, c, rfl, ?_, fun m here => ?_⟩
  · obtain ⟨entry, later, is⟩ := List.mem_map.1 listed
    exact ordered ▸ List.mem_map.2 ⟨entry, List.mem_of_mem_drop later, is⟩
  · -- The position is read once the mixin order is kept.
    obtain ⟨b, after, alike⟩ := @alike_mixinOrder _ _ _ Object.mixinPositions (fun _ => rfl) (fun _ _ => rfl) proper
      line.receiver
    rw [asked] at after
    cases after
    obtain ⟨p, live, -⟩ := FilterOrdersCurrent.kept_of_mixinOrder proper asked
    have there := (World.live?_eq_some_iff.1 live).1
    obtain ⟨o, before, same⟩ := alike.symm.exists_of_get? there
    have position : mixinPosition { w with objects := b } line.receiver = some m := by
      rw [mixinPosition, mixinPositions, there, Option.map_some, Option.getD_some, ← same, here o before]
      rfl
    rw [position] at listed
    obtain ⟨entry, later, is⟩ := List.mem_map.1 listed
    obtain ⟨before, key, behind⟩ := exists_behind_of_mem_drop later
    rw [ordered] at behind
    exact (beq_iff_eq.1 key) ▸ is ▸ behind.map (·.target)

/-- A class whose method is found is one of the lineup, behind the class that was given if one was. -/
theorem behind_of_searchClassOrder {name : String} {after definer : Option Handle} {method : Method}
    (lasts : line.Lasts w.objects) (proper : Proper w) (live : w.live? line.receiver = some o)
    (found : (searchClassOrder o.cls name after).exec w = (.ok (some (method, definer)), v)) :
    ∃ c, definer = some c ∧ c ∈ line.classes ∧ ∀ d, after = some d → Behind line.classes d c := by
  obtain ⟨order, b, asked, lin, -⟩ := proper.exec_precedenceOrder (proper.classed.cls _ o live)
  have ordered : order = line.classes := by
    rw [(lasts.fits live).cls] at lin
    exact lin.unique lasts.classes
  unfold searchClassOrder at found
  rw [Update.exec_bind_of_ok asked, ordered] at found
  obtain ⟨c, rfl, later⟩ := mem_of_searchClasses found
  refine ⟨c, rfl, List.mem_of_mem_drop later, fun d is => ?_⟩
  rw [is] at later
  obtain ⟨before, same, behind⟩ := exists_behind_of_mem_drop later
  exact (beq_iff_eq.1 same) ▸ behind

/-- Behind a frame, where filters and mixins are done, the receiver's own method is found, unless it was passed or runs in
the frame, or the method of a class of the lineup, behind the one that was given. -/
theorem behind_of_nextPlain (lasts : line.Lasts v.objects) (proper : Proper w) (object : f.object = line.receiver)
    (found : (nextPlain f state).exec w = (.ok (some resolved), v)) : resolved.kind = .plain ∧ resolved.name = state.name ∧
      ((resolved.definer = none ∧ (state.name = line.name → line.own = some resolved.method) ∧
          (state.filtersDone = true ∨ state.definer = none) ∧ runsOwn f resolved.method = false) ∨
        ∃ c, resolved.definer = some c ∧ c ∈ line.classes ∧ ∀ d, state.definer = some d → Behind line.classes d c) := by
  obtain ⟨r, b, done, filled⟩ := proper.filled_of_along (Consults.along_nextPlain f state)
  have lasts : line.Lasts w.objects := by
    rw [found] at done
    cases done
    exact lasts.of_filled filled
  unfold nextPlain at found
  obtain ⟨o, x, there, found⟩ := Update.exec_bind_eq_ok found
  obtain ⟨live, same⟩ := Update.exec_object_eq_ok there
  rw [object] at live
  rw [same] at found
  have classes : ∀ {u}, (nextClass o.cls state).exec w = (.ok (some resolved), u) → resolved.kind = .plain ∧
      resolved.name = state.name ∧ ∃ c, resolved.definer = some c ∧ c ∈ line.classes ∧
        ∀ d, state.definer = some d → Behind line.classes d c := by
    intro u found
    obtain ⟨found?, y, searched, ends⟩ := Update.exec_bind_eq_ok found
    obtain _ | ⟨method, definer⟩ := found?
    · cases ends
    · cases ends
      exact ⟨rfl, rfl, lasts.behind_of_searchClassOrder proper live searched⟩
  rw [Update.exec_ite] at found
  split at found
  · next takes =>
    obtain ⟨may, passes⟩ := Bool.and_eq_true_iff.1 takes
    cases own : (o.methods.get? state.name).filter (!·.isPrivate) with
    | none =>
      rw [own] at found
      obtain ⟨kind, name, behind⟩ := classes found
      exact ⟨kind, name, .inr behind⟩
    | some method =>
      rw [own] at found
      cases found
      obtain ⟨registered, -⟩ := Option.filter_eq_some_iff.1 own
      refine ⟨rfl, rfl, .inl ⟨rfl, fun named => ?_, ?_, ?_⟩⟩
      · rw [← (lasts.fits live).own, ← named]
        exact registered
      · simpa using may
      · rw [registered] at passes
        simpa using passes
  · obtain ⟨kind, name, behind⟩ := classes found
    exact ⟨kind, name, .inr behind⟩

end Lasts

end Lineup

/-! ## What is found behind a frame -/

/-- The name under which next calls search behind a frame, once filters are done. -/
def Frame.sought (f : Frame) : String :=
  if f.kind.isFilter then f.called else f.methodName

namespace Lineup

/-- What a search behind a frame finds that begins in `w`: from a filter a filter behind the position, from a filter or a
mixin a mixin behind the position, the receiver's own method unless it was passed or runs already, or the method of a class
behind the defining one. -/
inductive Onward (line : Lineup) (f : Frame) (w : World) (resolved : Resolved) : Prop
  | filter (among : f.kind.isFilter = true) (kind : resolved.kind = .filter true)
      (behind : ∀ key, HeadAt line.receiver ⟨some key, f.called⟩ w →
        Behind (line.filters.map FilterEntry.key) key resolved.key)
  | mixin {c : Handle} (kind : resolved.kind = .mixin true) (named : resolved.name = f.sought)
      (definer : resolved.definer = some c) (listed : c ∈ line.mixins.map (·.target))
      (among : f.kind.isFilter = true ∨ f.kind.isMixin = true ∧
        ∀ m, MixinAt line.receiver (some m) w → Behind (line.mixins.map (·.target)) m c)
  | own (kind : resolved.kind = .plain) (named : resolved.name = f.sought) (definer : resolved.definer = none)
      (registered : f.sought = line.name → line.own = some resolved.method)
      (among : f.kind.isFilter = true ∨ f.kind.isMixin = true ∨ f.definer = none)
      (passed : runsOwn f resolved.method = false)
  | cls {c : Handle} (kind : resolved.kind = .plain) (named : resolved.name = f.sought) (definer : resolved.definer = some c)
      (listed : c ∈ line.classes)
      (among : f.kind.isFilter = true ∨ f.kind.isMixin = true ∨ ∀ d, f.definer = some d → Behind line.classes d c)

variable {terms : Terms} {line : Lineup} {host : Host} {f : Frame} {state : SearchState} {resolved : Resolved} {done : Bool}
  {u v w : World}

namespace Lasts

variable (lasts : line.Lasts v.objects) (object : f.object = line.receiver)

include lasts object

theorem onward_plain (proper : Proper u) (named : state.name = f.sought) (filters : state.filtersDone = f.kind.isFilter)
    (definer : state.definer = none ∧ (f.kind.isFilter = true ∨ f.kind.isMixin = true) ∨ state.definer = f.definer)
    (found : (nextPlain f state).exec u = (.ok (some resolved), v)) : line.Onward f w resolved := by
  obtain ⟨kind, name, ⟨noDefiner, registered, among, passed⟩ | ⟨c, isClass, listed, behind⟩⟩ :=
    lasts.behind_of_nextPlain proper object found
  · refine .own kind (name.trans named) noDefiner (named ▸ registered) ?_ passed
    rcases among with among | among
    · exact .inl (filters ▸ among)
    rcases definer with ⟨-, among | among⟩ | same
    · exact .inl among
    · exact .inr (.inl among)
    · exact .inr (.inr (same ▸ among))
  · refine .cls kind (name.trans named) isClass listed ?_
    rcases definer with ⟨-, among | among⟩ | same
    · exact .inl among
    · exact .inr (.inl among)
    · exact .inr (.inr (same ▸ behind))

variable (faithful : Faithful terms host) (cautious : host.Cautious line.Lasts)

include faithful cautious

theorem onward_unfiltered (proper : Proper u) (named : state.name = f.sought)
    (filters : state.filtersDone = f.kind.isFilter)
    (definer : state.definer = none ∧ f.kind.isFilter = true ∨ state.definer = f.definer)
    (start : f.kind.isFilter = true ∨ u = w)
    (found : (continueUnfiltered host f state).exec u = some (.ok (some resolved), v)) : line.Onward f w resolved := by
  unfold continueUnfiltered at found
  rw [Action.exec_bind_of_ok (Action.exec_get u)] at found
  have plain : ∀ x state', Proper x → state'.name = f.sought → state'.filtersDone = f.kind.isFilter →
      state'.definer = none ∧ (f.kind.isFilter = true ∨ f.kind.isMixin = true) ∨ state'.definer = f.definer →
      (liftM (nextPlain f state') : Action _).exec x = some (.ok (some resolved), v) → line.Onward f w resolved := by
    intro x state' proper named filters definer found
    exact lasts.onward_plain object proper named filters definer (Option.some.inj found)
  split at found
  · next asks =>
    obtain ⟨among, positioned⟩ := Bool.and_eq_true_iff.1 asks
    have among : f.kind.isFilter = true ∨ f.kind.isMixin = true := by
      rw [filters] at among
      exact Bool.or_eq_true_iff.1 among
    obtain ⟨mixin?, x, searched, found⟩ := Action.exec_bind_eq_ok found
    cases mixin? with
    | some mixed =>
      cases found
      rw [object] at searched
      obtain ⟨kind, name, c, isClass, listed, behind⟩ := lasts.behind_of_nextMixin proper cautious searched
      refine .mixin kind (name.trans named) isClass listed ?_
      rcases start with filter | rfl
      · exact .inl filter
      · exact among.imp_right fun mixin => ⟨mixin, behind⟩
    | none =>
      have moves : mixinPositions u f.object ≠ [] := by simpa using positioned
      obtain ⟨path, -⟩ := (brings_nextMixin (Shifted.start u f.object) state.name moves faithful u proper (.refl u)).2
        _ x searched
      exact plain x { state with definer := none } (proper.evolves faithful.remain path.evolves) named filters
        (.inl ⟨rfl, among⟩) found
  · exact plain u state proper named filters (definer.imp_left fun passed => ⟨passed.1, .inl passed.2⟩) found

/-- While a lineup lasts, what is found behind a frame of its receiver is registered behind it. -/
theorem onward (proper : Proper w)
    (placed : f.kind.isFilter = true → ∃ key, HeadAt f.object ⟨some key, f.called⟩ w)
    (found : (continuation host f).exec w = some (.ok ⟨some resolved, done⟩, v)) : line.Onward f w resolved := by
  by_cases filter : f.kind.isFilter = true
  · obtain ⟨key, head⟩ := placed filter
    have sought : f.sought = f.called := if_pos filter
    rw [exec_continuation_of_head proper filter head] at found
    unfold chainBehind at found
    obtain ⟨filter?, x, searched, found⟩ := Action.exec_bind_eq_ok found
    cases filter? with
    | some behind =>
      cases found
      rw [object] at searched
      obtain ⟨kind, -⟩ := lasts.behind_of_filterBehind proper cautious searched
      refine .filter filter kind fun key' head' => ?_
      rw [← object] at head'
      have same : (filterBehind host f.object key').exec w = (filterBehind host f.object key).exec w :=
        (exec_nextFilter_of_head proper head').symm.trans (exec_nextFilter_of_head proper head)
      rw [object] at same
      exact (lasts.behind_of_filterBehind proper cautious (same.trans searched)).2
    | none =>
      obtain ⟨found?, y, continued, found⟩ := Action.exec_bind_eq_ok found
      cases found
      rw [← exec_nextFilter_of_head proper head] at searched
      obtain ⟨path, -⟩ := (brings_nextFilter (Shifted.start w f.object) faithful w proper (.refl w)).2 _ x searched
      exact lasts.onward_unfiltered object faithful cautious (proper.evolves faithful.remain path.evolves) sought.symm
        filter.symm (.inl ⟨rfl, filter⟩) (.inl filter) continued
  · have sought : f.sought = f.methodName := if_neg filter
    rw [Bool.not_eq_true] at filter
    unfold continuation at found
    rw [filter, if_neg Bool.false_ne_true] at found
    obtain ⟨found?, y, continued, found⟩ := Action.exec_bind_eq_ok found
    cases found
    exact lasts.onward_unfiltered object faithful cautious proper sought.symm filter.symm (.inr rfl) (.inr rfl) continued

end Lasts

/-! ## What a call finds -/

/-- What a search for a call of `name` finds: a filter, a mixin, or a plain method, the receiver's own if it has no defining
class. -/
inductive Outset (line : Lineup) (name : String) (resolved : Resolved) : Prop
  | filter (kind : resolved.kind = .filter true) (listed : resolved.key ∈ line.filters.map FilterEntry.key)
  | mixin {c : Handle} (kind : resolved.kind = .mixin true) (named : resolved.name = name)
      (definer : resolved.definer = some c) (listed : c ∈ line.mixins.map (·.target))
  | plain (kind : resolved.kind = .plain) (named : resolved.name = name) (registered : resolved.definer = none →
      Definition.isQualified name = false → name = line.name → line.own = some resolved.method)

namespace Lasts

variable {name : String} {mods : CallModifiers} {mixins : List Mixin}

/-- A mixin order that is asked for is kept; it was kept before, or there was none. -/
theorem before_mixinOrder {r : Except Failure (List Mixin)} (lasts : line.Lasts u.objects) (proper : Proper w)
    (asked : (Interception.mixinOrder line.receiver).exec w = (r, u)) : line.Lasts w.objects := by
  rcases exec_mixinOrder proper line.receiver with
    ⟨_, same, -⟩ | ⟨o, _, b, live, unkept, -, filled, ⟨_, -, ended⟩ | ⟨order, -, ended⟩⟩
  · cases same.symm.trans asked
    exact lasts
  · cases ended.symm.trans asked
    exact lasts.of_filled filled
  · cases ended.symm.trans asked
    refine ⟨lasts.remain.of_layout (filled.alike.layout.symm.trans (Heap.layout_modify _ _ _).symm), fun p found alive => ?_, ?_⟩
    · obtain rfl : p = o := Option.some.inj (found.symm.trans (World.live?_eq_some_iff.1 live).1)
      obtain ⟨x, there, looks⟩ := filled.alike.exists_of_get? found
      have fits := lasts.receiver { x with mixinOrder := some order } (by rw [Heap.get?_modify, if_pos rfl, there]; rfl)
        ((congrArg Object.deleted looks :).trans alive)
      refine ⟨(congrArg Object.cls looks :).symm.trans fits.cls, ?_, fun order kept => ?_, fun order kept => ?_⟩
      · rw [← fits.own, ← show x.methods = p.methods from (congrArg Object.methods looks :)]
      · exact fits.filters order ((congrArg Object.filterOrder looks :).trans kept)
      · rw [unkept] at kept
        cases kept
    · have teaching : Heap.Alike Object.teaching w.objects
          (b.modify line.receiver fun o => { o with mixinOrder := some order }) :=
        (filled.alike.comp Object.teaching fun o => by
          simp [Object.teaching, Object.withoutPrecedence, Function.comp_def]).trans (.modify b line.receiver fun _ => rfl)
      rw [← Heap.supersOf_of_teaching teaching]
      exact lasts.classes

/-- A plain method without a defining class is the receiver's own, unless it was called by a path. -/
theorem outset_plain (lasts : line.Lasts v.objects) (proper : Proper w)
    (found : (resolvePlain line.receiver name mods).exec w = (.ok (some resolved), v)) : line.Outset name resolved := by
  obtain ⟨r, b, done, filled⟩ := proper.filled_of_along (Consults.along_resolvePlain line.receiver name mods)
  have lasts : line.Lasts w.objects := by
    rw [found] at done
    cases done
    exact lasts.of_filled filled
  obtain ⟨kind, named, registered⟩ := own_of_resolvePlain found
  refine .plain kind named fun noDefiner unqualified same => ?_
  obtain ⟨o, live, taught⟩ := registered noDefiner unqualified
  rw [← (lasts.fits live).own, ← same, taught]

variable (faithful : Faithful terms host) (cautious : host.Cautious line.Lasts)

include cautious

/-- While a lineup lasts, the filter that a call starts with is one of the lineup. -/
theorem key_mem_of_firstFilter {entry : FilterEntry} (lasts : line.Lasts v.objects) (proper : Proper w)
    (found : (firstFilter host line.receiver).exec w = some (.ok (some entry), v)) :
    entry.key ∈ line.filters.map FilterEntry.key := by
  unfold firstFilter at found
  rw [Action.exec_bind_of_ok (Action.exec_get w)] at found
  split at found
  · obtain ⟨order, x, asked, found⟩ := Action.exec_bind_eq_ok found
    rw [Action.exec_bind_of_ok (Action.exec_get x)] at found
    obtain ⟨back, member⟩ := mem_of_searchFilters cautious found
    have ordered : order = line.filters := (back lasts).filterOrder_eq proper (Option.some.inj asked)
    exact List.mem_map_of_mem (ordered ▸ member entry rfl)
  · cases found

include faithful

theorem outset_unfiltered (lasts : line.Lasts v.objects) (proper : Proper w)
    (asked : (Interception.mixinOrder line.receiver).exec u = (.ok mixins, w)) (before : Proper u)
    (found : (resolveUnfiltered host line.receiver name mods mixins).exec w = some (.ok (some resolved), v)) :
    line.Outset name resolved := by
  unfold resolveUnfiltered at found
  obtain ⟨mixin?, x, searched, found⟩ := Action.exec_bind_eq_ok found
  obtain ⟨back, member⟩ := mem_of_searchMixins cautious searched
  obtain _ | ⟨c, method⟩ := mixin?
  · obtain ⟨path, -⟩ := (steady_searchMixins line.receiver name mixins w trivial faithful w proper rfl).2 _ x searched
    exact lasts.outset_plain (proper.evolves faithful.remain path.evolves) (Option.some.inj found)
  · obtain ⟨_, y, same, found⟩ := Action.exec_bind_eq_ok found
    cases same
    split at found
    · cases found
    · cases found
      have ordered : mixins = line.mixins := (back (lasts.of_modify fun _ => rfl)).mixinOrder_eq before asked
      exact .mixin rfl rfl rfl (ordered ▸ member c method rfl)

/-- While a lineup lasts, a call on its receiver finds what is registered in it. -/
theorem outset (lasts : line.Lasts v.objects) (proper : Proper w)
    (found : (resolve host line.receiver name mods).exec w = some (.ok (some resolved), v)) : line.Outset name resolved := by
  unfold resolve at found
  split at found
  · exact lasts.outset_plain proper (Option.some.inj found)
  · obtain ⟨filter?, x, first, found⟩ := Action.exec_bind_eq_ok found
    obtain ⟨mixins, y, asked, found⟩ := Action.exec_bind_eq_ok found
    have asked : (Interception.mixinOrder line.receiver).exec x = (.ok mixins, y) := Option.some.inj asked
    obtain ⟨path, -⟩ := (steady_firstFilter line.receiver w trivial faithful w proper rfl).2 _ x first
    have proper' := proper.evolves faithful.remain path.evolves
    cases filter? with
    | none =>
      have proper'' : Proper y := by simpa only [asked] using proper'.mixinOrder line.receiver
      exact lasts.outset_unfiltered faithful cautious proper'' asked proper' found
    | some entry =>
      have member : line.Lasts y.objects → entry.key ∈ line.filters.map FilterEntry.key :=
        fun lasts => (lasts.before_mixinOrder proper' asked).key_mem_of_firstFilter cautious proper first
      obtain ⟨_, z, pushed, found⟩ := Action.exec_bind_eq_ok found
      cases pushed
      cases empty : mixins.isEmpty with
      | true =>
        rw [empty] at found
        cases found
        exact .filter rfl (member (lasts.of_modify fun _ => rfl))
      | false =>
        rw [empty] at found
        obtain ⟨_, z, pushed, found⟩ := Action.exec_bind_eq_ok found
        cases pushed
        cases found
        exact .filter rfl (member ((lasts.of_modify fun _ => rfl).of_modify fun _ => rfl))

end Lasts

end Lineup

end DynamicObjects
