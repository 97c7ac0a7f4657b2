import DynamicObjects.Proofs.Interception.Outcomes
import DynamicObjects.Proofs.Runs.Openings
import DynamicObjects.Proofs.Runs.Registry
import DynamicObjects.Proofs.Runs.Visibility

/-!
# Private methods

A private method runs only where a call may come to one: a local call, a call by path, or a call of the root class that
ignores permissions. Every other search passes over private methods, and ends as if they were not there.
-/
namespace DynamicObjects

open Invocation

variable {host : Host} {v w : World}

/-! ## Searches yield nothing private -/

namespace Invocation

/-- What was found, if anything was, is not private. -/
def Published {α : Type} (method : α → Method) (found : Option α) : Prop :=
  ∀ a, found = some a → (method a).isPrivate = false

namespace Published

variable {α : Type} {method : α → Method}

theorem none : Published method none := by
  intro a same
  cases same

theorem some {a : α} (isPublic : (method a).isPrivate = false) : Published method (some a) := by
  intro b same
  cases same
  exact isPublic

end Published

theorem isPrivate_of_filter {found : Option Method} {method : Method}
    (kept : found.filter (!·.isPrivate) = some method) : method.isPrivate = false := by
  simpa using (Option.filter_eq_some_iff.1 kept).2

theorem yields_searchClasses (name : String) (classes : List Handle) :
    (searchClasses name classes).Yields (Published Prod.fst) := by
  induction classes with
  | nil => exact .pure .none
  | cons c rest ih =>
    refine .bind fun part => ?_
    cases kept : (part.methods.get? name).filter (!·.isPrivate) with
    | none => exact ih
    | some method => exact .pure (.some (isPrivate_of_filter kept))

theorem yields_searchClassOrder (cls : Handle) (name : String) (after : Option Handle) :
    (searchClassOrder cls name after).Yields (Published Prod.fst) :=
  .bind fun _ => yields_searchClasses name _

theorem yields_searchObject (h : Handle) (name : String) :
    (searchObject h name).Yields (Published Prod.fst) := by
  refine .bind fun o => ?_
  cases own : ownMethod? o name with
  | none => exact yields_searchClassOrder o.cls name none
  | some method => exact .pure (.some (isPrivate_of_filter own))

theorem yields_searchFilters (h : Handle) (isClass : Bool) (entries : List FilterEntry) :
    (searchFilters host h isClass entries).Yields (Published FilterEntry.method) := by
  intro w v found done entry same
  cases same
  exact (admits_of_searchFilters done).1

theorem yields_searchMixins (h : Handle) (name : String) (mixins : List Mixin) :
    (searchMixins host h name mixins).Yields (Published Prod.snd) := by
  induction mixins with
  | nil => exact .pure .none
  | cons m rest ih =>
    refine .bind fun w => ?_
    cases kept : ((w.objects.class? m.target).bind (·.methods.get? name)).filter (!·.isPrivate) with
    | none => exact ih
    | some method =>
      exact .bind fun passes => .ite (fun _ => .pure (.some (isPrivate_of_filter kept))) fun _ => ih

/-! ## Where a call may come to a private method -/

end Invocation

/-- A call may come to a private method: it is local, or goes by path, or looks in the root class and ignores permissions. -/
def CallModifiers.reachPrivate (mods : CallModifiers) (name : String) : Prop :=
  mods.localOnly = true ∨ Definition.isQualified name = true ∨ (mods.systemOnly = true ∧ mods.ignorePermissions = true)

namespace Invocation

variable {h : Handle} {name : String} {mods : CallModifiers}

theorem permitted_of_isPrivate {method : Method} (isPrivate : method.isPrivate = true) (w : World) :
    permitted w h method = false := by
  have hidden : method.visibility = .hidden := by simpa [MethodOf.isPrivate] using isPrivate
  simp [permitted, hidden]

section wide

variable (shut : ¬mods.reachPrivate name)

include shut

theorem yields_resolvePlain : (resolvePlain h name mods).Yields (Published Resolved.method) := by
  obtain ⟨wide, simple, heeds⟩ : mods.localOnly = false ∧ Definition.isQualified name = false ∧
      (mods.systemOnly = true → mods.ignorePermissions = false) := by
    simpa [CallModifiers.reachPrivate] using shut
  rw [resolvePlain_eq wide simple]
  have permits : ∀ found, (mods.ignorePermissions = false ∨ Published Prod.fst found) →
      (permit h name mods found).Yields (Published Resolved.method) := by
    intro found isPublic
    match found with
    | none => exact .pure .none
    | some (method, definer) =>
      intro w v resolved done
      unfold permit at done
      rw [Update.exec_bind_of_ok (Update.exec_get w), Update.exec_ite] at done
      split at done
      · cases done
        exact .none
      · next passes =>
        cases done
        rcases isPublic with heeds | isPublic
        · refine .some (Bool.eq_false_iff.2 fun isPrivate => passes ?_)
          rw [heeds, permitted_of_isPrivate isPrivate]
          rfl
        · exact .some (isPublic _ rfl)
  cases systemOnly : mods.systemOnly with
  | true => exact .bind fun found => permits found (.inl (heeds systemOnly))
  | false => exact .after (yields_searchObject h name) fun found isPublic => permits found (.inr isPublic)

theorem yields_resolveUnfiltered (mixins : List Mixin) :
    (resolveUnfiltered host h name mods mixins).Yields (Published Resolved.method) := by
  refine .after (yields_searchMixins h name mixins) fun found isPublic => ?_
  match found with
  | none => exact .lift (yields_resolvePlain shut)
  | some (c, method) =>
    refine .bind fun w => .ite (fun _ => .pure .none) fun _ => .bind fun _ => .pure (.some ?_)
    exact isPublic _ rfl

theorem yields_resolve : (resolve host h name mods).Yields (Published Resolved.method) := by
  unfold resolve
  refine .ite (fun _ => .lift (yields_resolvePlain shut)) fun _ => ?_
  have first : (firstFilter host h).Yields (Published FilterEntry.method) :=
    .bind fun w => .ite (fun _ => .bind fun order => .bind fun _ => yields_searchFilters h _ order) fun _ => .pure .none
  refine .after first fun filter isPublic => .bind fun mixins => ?_
  cases filter with
  | none => exact yields_resolveUnfiltered shut mixins
  | some entry =>
    refine .bind fun _ => .ite (fun _ => .bind fun _ => .pure (.some ?_)) fun _ => .pure (.some ?_)
    · exact isPublic _ rfl
    · exact isPublic _ rfl

end wide

/-! ## Next calls -/

theorem yields_nextPlain (frame : Frame) (state : SearchState) :
    (nextPlain frame state).Yields (Published Resolved.method) := by
  have onward : ∀ cls, (do
      return (← searchClassOrder cls state.name state.definer).map fun found =>
        { method := found.1, definer := found.2, kind := .plain, name := state.name } : Update (Option Resolved)).Yields
          (Published Resolved.method) := by
    refine fun cls => .after (yields_searchClassOrder cls state.name state.definer) fun found isPublic => .pure ?_
    cases found with
    | none => exact .none
    | some found => exact .some (isPublic _ rfl)
  unfold nextPlain
  refine .bind fun o => .ite (fun _ => ?_) fun _ => onward o.cls
  cases kept : (o.methods.get? state.name).filter (!·.isPrivate) with
  | none => exact onward o.cls
  | some method => exact .pure (.some (isPrivate_of_filter kept))

theorem yields_continuation (frame : Frame) :
    (continuation host frame).Yields fun found => Published Resolved.method found.resolved := by
  have mixin : ∀ name, (nextMixin host frame.object name).Yields (Published Resolved.method) := by
    refine fun name => .bind fun order => .bind fun w => .after (yields_searchMixins _ name _) fun found isPublic => ?_
    match found with
    | none => exact .pure .none
    | some (c, method) => exact .bind fun _ => .pure (.some (isPublic _ rfl))
  have filter : (nextFilter host frame.object).Yields (Published Resolved.method) := by
    refine .bind fun order => .bind fun w => .after (yields_searchFilters _ _ _) fun found isPublic => ?_
    match found with
    | none => exact .pure .none
    | some entry => exact .bind fun _ => .pure (.some (isPublic _ rfl))
  have unfiltered : ∀ state, (continueUnfiltered host frame state).Yields (Published Resolved.method) := by
    refine fun state => .bind fun w => .ite (fun _ => ?_) fun _ => .lift (yields_nextPlain frame state)
    refine .after (mixin state.name) fun found isPublic => ?_
    cases found with
    | none => exact .lift (yields_nextPlain frame _)
    | some resolved => exact .pure isPublic
  unfold continuation
  refine .ite (fun _ => .bind fun w => .after filter fun found isPublic => ?_) fun _ =>
    .after (unfiltered _) fun _ isPublic => .pure isPublic
  cases found with
  | none => exact .after (unfiltered _) fun _ isPublic => .pure isPublic
  | some resolved => exact .pure isPublic

end Invocation

/-- Where a task may come to a private method: in a call that may. -/
def Task.reachesPrivate : Task → Prop
  | .call _ name _ mods => mods.reachPrivate name
  | .eval .. | .run .. => False

theorem Invocation.Continues.isPublic {i : Nat} {args : Option (List Value)} {registered : Method} {sub : Task}
    (continues : Continues host i args w registered sub v) : registered.isPrivate = false := by
  cases continues with
  | found here behind enters => exact yields_continuation _ _ _ _ behind _ rfl

/-- Only such a call runs a private method. -/
theorem Opening.reachesPrivate {task sub : Task} {registered : Method} (opening : Opening host task w registered sub v)
    (isPrivate : registered.isPrivate = true) : task.reachesPrivate := by
  have contradicts {p : Prop} (isPublic : registered.isPrivate = false) : p := by
    rw [isPrivate] at isPublic
    cases isPublic
  cases opening with
  | called found enters =>
    by_contra shut
    exact contradicts (yields_resolve shut _ _ _ found _ rfl)
  | passedOn evaluated stands continues => exact contradicts continues.isPublic
  | distributed ensemble distributes =>
    cases distributes with
    | sub means found keeps leads => exact contradicts (yields_searchObject _ _ _ _ _ found _ rfl)
    | behind means missing continues => exact contradicts continues.isPublic

/-! ## Private methods hide nothing -/

/-- What some classes define under a name. -/
def World.definitions (w : World) (name : String) (classes : List Handle) : List Found :=
  classes.filterMap fun c => (w.definedIn name c).map fun method => (method, some c)

/-- What an object defines under a name. -/
def ownDefinition (o : Object) (name : String) : List Found :=
  ((o.methods.get? name).map fun method => (method, none)).toList

/-- The first definition that is not private. -/
def firstPublic (definitions : List Found) : Option Found :=
  definitions.find? fun found => !found.1.isPrivate

theorem firstPublic_cons (method : Method) (definer : Option Handle) (rest : List Found) :
    firstPublic ((method, definer) :: rest) = if method.isPrivate then firstPublic rest else some (method, definer) := by
  unfold firstPublic
  rw [List.find?_cons]
  cases method.isPrivate <;> rfl

theorem firstPublic_ownDefinition_append (o : Object) (name : String) (rest : List Found) :
    firstPublic (ownDefinition o name ++ rest) =
      match ownMethod? o name with
      | some method => some (method, none)
      | none => firstPublic rest := by
  unfold ownDefinition ownMethod?
  cases o.methods.get? name with
  | none => rfl
  | some method =>
    change firstPublic ((method, none) :: rest) = _
    rw [firstPublic_cons, Option.filter_some]
    cases method.isPrivate <;> rfl

namespace Invocation

variable {h : Handle} {name : String} {found : Option Found}

theorem searchFilters_eq_filter (h : Handle) (isClass : Bool) (entries : List FilterEntry) :
    searchFilters host h isClass entries =
      searchFilters host h isClass (entries.filter (!·.method.isPrivate)) := by
  induction entries with
  | nil => rfl
  | cons entry rest ih =>
    cases isPrivate : entry.method.isPrivate with
    | true =>
      rw [List.filter_cons_of_neg (by simp [isPrivate]), searchFilters, ← ih]
      simp [isPrivate]
    | false =>
      rw [List.filter_cons_of_pos (by simp [isPrivate]), searchFilters, searchFilters, ← ih]

theorem exec_searchMixins_eq_dropWhile (h : Handle) (name : String) (mixins : List Mixin) (w : World) :
    (searchMixins host h name mixins).exec w = (searchMixins host h name
      (mixins.dropWhile fun m => (w.definedIn name m.target).all (·.isPrivate))).exec w := by
  induction mixins with
  | nil => rfl
  | cons m rest ih =>
    rw [List.dropWhile_cons]
    split
    · next passed =>
      rw [← ih, searchMixins, Action.exec_bind_of_ok (Action.exec_get w)]
      have nothing : (w.definedIn name m.target).filter (!·.isPrivate) = none := by
        rw [Option.filter_eq_none_iff]
        intro method defined
        rw [defined] at passed
        simpa using passed
      unfold World.definedIn at nothing
      rw [nothing]
    · rfl

theorem firstPublic_of_searchClasses {classes : List Handle}
    (done : (searchClasses name classes).exec w = (.ok found, v)) : found = firstPublic (w.definitions name classes) := by
  induction classes with
  | nil =>
    cases done
    rfl
  | cons c rest ih =>
    obtain ⟨part, u, asked, searched⟩ := Update.exec_bind_eq_ok done
    obtain ⟨⟨o, live, isPart⟩, rfl⟩ := Update.exec_classPart_eq_ok asked
    have defined : u.definedIn name c = part.methods.get? name := by
      rw [World.definedIn, Heap.class?, (World.live?_eq_some_iff.1 live).1, Option.bind_some, isPart, Option.bind_some]
    unfold World.definitions
    rw [List.filterMap_cons, defined]
    cases listed : part.methods.get? name with
    | none =>
      rw [listed] at searched
      exact ih searched
    | some method =>
      rw [listed, Option.filter_some] at searched
      change found = firstPublic ((method, some c) :: _)
      rw [firstPublic_cons]
      cases isPrivate : method.isPrivate with
      | true =>
        rw [isPrivate] at searched
        exact ih searched
      | false =>
        rw [isPrivate] at searched
        cases searched
        rfl

theorem firstPublic_of_searchClassOrder {cls : Handle} {after : Option Handle} {order : List Handle} {u : World}
    (ordered : (Update.precedenceOrder cls).exec w = (.ok order, u))
    (done : (searchClassOrder cls name after).exec w = (.ok found, v)) :
    found = firstPublic (u.definitions name (order.drop (indexAfter order after (· == ·)))) := by
  unfold searchClassOrder at done
  rw [Update.exec_bind_of_ok ordered] at done
  exact firstPublic_of_searchClasses done

section object

variable {o : Object} {order : List Handle} {u : World} (live : w.live? h = some o)
  (ordered : (Update.precedenceOrder o.cls).exec w = (.ok order, u))

include live ordered

theorem firstPublic_of_searchObject (done : (searchObject h name).exec w = (.ok found, v)) :
    found = firstPublic (ownDefinition o name ++ u.definitions name order) := by
  unfold searchObject at done
  rw [Update.exec_bind_of_ok (Update.exec_object_of_live live)] at done
  rw [firstPublic_ownDefinition_append]
  cases own : ownMethod? o name with
  | some method =>
    rw [own] at done
    cases done
    rfl
  | none =>
    rw [own] at done
    exact firstPublic_of_searchClassOrder ordered done

theorem firstPublic_of_resolvePlain {mods : CallModifiers} (simple : Definition.isQualified name = false)
    (wide : mods.localOnly = false) (general : mods.systemOnly = false) {resolved : Option Resolved}
    (done : (resolvePlain h name mods).exec w = (.ok resolved, v)) : resolved.map (fun r => (r.method, r.definer)) =
      (firstPublic (ownDefinition o name ++ u.definitions name order)).filter fun found =>
        mods.ignorePermissions || permitted v h found.1 := by
  rw [resolvePlain_eq wide simple, general, if_neg Bool.false_ne_true] at done
  obtain ⟨found, x, searched, permits⟩ := Update.exec_bind_eq_ok done
  rw [← firstPublic_of_searchObject live ordered searched]
  match found with
  | none =>
    cases permits
    rfl
  | some (method, definer) =>
    unfold permit at permits
    rw [Update.exec_bind_of_ok (Update.exec_get x), Update.exec_ite] at permits
    rw [Option.filter_some]
    split at permits
    · next refused =>
      cases permits
      rw [if_neg (by simpa using refused)]
      rfl
    · next passes =>
      cases permits
      have lets : (mods.ignorePermissions || permitted v h method) = true := by
        revert passes
        cases mods.ignorePermissions <;> cases permitted v h method <;> decide
      rw [if_pos lets]
      rfl

end object

/-- What a frame's own search goes on to: the own method of the receiver, unless it was passed or runs already, and the
classes behind the defining one. -/
def definitionsBehind (frame : Frame) (state : SearchState) (o : Object) (order : List Handle) (w : World) : List Found :=
  (if (state.filtersDone || state.definer.isNone) && !(o.methods.get? state.name).any (runsOwn frame) then
    ownDefinition o state.name else []) ++
      w.definitions state.name (order.drop (indexAfter order state.definer (· == ·)))

theorem firstPublic_of_nextPlain {frame : Frame} {state : SearchState} {resolved : Option Resolved} {o : Object}
    {order : List Handle} {u : World} (live : w.live? frame.object = some o)
    (ordered : (Update.precedenceOrder o.cls).exec w = (.ok order, u))
    (done : (nextPlain frame state).exec w = (.ok resolved, v)) :
    resolved.map (fun r => (r.method, r.definer)) = firstPublic (definitionsBehind frame state o order u) := by
  have onward : ∀ found : Option Resolved, (do
      return (← searchClassOrder o.cls state.name state.definer).map fun found =>
        { method := found.1, definer := found.2, kind := .plain, name := state.name } : Update (Option Resolved)).exec w =
          (.ok found, v) →
      found.map (fun r => (r.method, r.definer)) =
        firstPublic (u.definitions state.name (order.drop (indexAfter order state.definer (· == ·)))) := by
    intro found done
    obtain ⟨searched, x, first, done⟩ := Update.exec_bind_eq_ok done
    cases done
    rw [← firstPublic_of_searchClassOrder ordered first, Option.map_map]
    cases searched <;> rfl
  unfold nextPlain at done
  rw [Update.exec_bind_of_ok (Update.exec_object_of_live live), Update.exec_ite] at done
  unfold definitionsBehind
  split
  · next mayOwn =>
    rw [if_pos mayOwn] at done
    rw [firstPublic_ownDefinition_append]
    unfold ownMethod?
    cases own : (o.methods.get? state.name).filter (!·.isPrivate) with
    | none =>
      rw [own] at done
      exact onward resolved done
    | some method =>
      rw [own] at done
      cases done
      rfl
  · next passed =>
    rw [if_neg passed] at done
    exact onward resolved done

end Invocation

/-- What searches find is found past private methods, wherever those stand. -/
structure PassesOverPrivate (host : Host) : Prop where
  /-- Filters are searched as if there were no private ones. -/
  filters : ∀ h isClass entries, searchFilters host h isClass entries =
    searchFilters host h isClass (entries.filter (!·.method.isPrivate))
  /-- Mixins are searched from the first one whose method is not private. -/
  mixins : ∀ h name mixins w, (searchMixins host h name mixins).exec w = (searchMixins host h name
    (mixins.dropWhile fun m => (w.definedIn name m.target).all (·.isPrivate))).exec w
  /-- Past filters and mixins, a call finds the first definition that is not private, if the running method may call it. -/
  plain : ∀ {h name mods w v u o order resolved}, Definition.isQualified name = false → mods.localOnly = false →
    mods.systemOnly = false → w.live? h = some o → (Update.precedenceOrder o.cls).exec w = (.ok order, u) →
    (resolvePlain h name mods).exec w = (.ok resolved, v) → resolved.map (fun r => (r.method, r.definer)) =
      (firstPublic (ownDefinition o name ++ u.definitions name order)).filter fun found =>
        mods.ignorePermissions || permitted v h found.1
  /-- A next call finds the first definition behind its frame that is not private. -/
  behind : ∀ {frame state w v u o order resolved}, w.live? frame.object = some o →
    (Update.precedenceOrder o.cls).exec w = (.ok order, u) → (nextPlain frame state).exec w = (.ok resolved, v) →
      resolved.map (fun r => (r.method, r.definer)) = firstPublic (definitionsBehind frame state o order u)

theorem passesOverPrivate (host : Host) : PassesOverPrivate host where
  filters := searchFilters_eq_filter
  mixins := exec_searchMixins_eq_dropWhile
  plain simple wide general live ordered := firstPublic_of_resolvePlain live ordered simple wide general
  behind := firstPublic_of_nextPlain

/-! ## Private methods stay private -/

/-- An object of a class with a private method. -/
def secretSession : List Expr :=
  [foundation, Trial.createClass "C",
    Trial.define .instances "C" { Trial.method "secret" (Trial.text "secret") with visibility := .hidden },
    Trial.createObject "o" "C"]

def secretWorld : World :=
  (sessionWithin Heap.HandlesRemain 5 secretSession).get (by decide +kernel)

theorem session_secretWorld : Session Heap.HandlesRemain secretWorld :=
  of_sessionWithin (.start {}) (fun _ _ _ _ session done => .ended session done) (Option.some_get _).symm

/-- Whenever a method runs, it was found under its name, before aliases were followed, in one of three ways: by a call, by
a next call or by an ensemble. If it was found private, that was a call that is local, goes by path, or looks in the root
class and ignores permissions. No other search stops at a private method. -/
theorem Entered.privateKept {frame : Frame} {method : Method} {mods : CallModifiers}
    (entered : Entered Heap.HandlesRemain (.run frame method mods) v) :
    (∃ depth task w registered, Entered Heap.HandlesRemain task w ∧
      Opening (hostWithin Heap.HandlesRemain depth).failing task w registered (.run frame method mods) v ∧
        (registered.isPrivate = true → task.reachesPrivate)) ∧ ∀ host, PassesOverPrivate host := by
  refine ⟨?_, passesOverPrivate⟩
  cases entered with
  | @sub depth task _ w _ entered begins asks =>
    obtain ⟨registered, opening⟩ := asks.opens
    exact ⟨depth, task, w, registered, entered, opening, opening.reachesPrivate⟩

/-- By its path, the private method runs. -/
theorem privateKept_secret : ∃ frame method mods v, Entered Heap.HandlesRemain (.run frame method mods) v ∧
    method.isPrivate = true ∧
    ((∃ depth task w registered, Entered Heap.HandlesRemain task w ∧
      Opening (hostWithin Heap.HandlesRemain depth).failing task w registered (.run frame method mods) v ∧
        (registered.isPrivate = true → task.reachesPrivate)) ∧ ∀ host, PassesOverPrivate host) := by
  have begins : secretWorld.objects.HandlesRemain := by decide +kernel
  have named : Lifecycle.objectNamed? secretWorld "o" = some ⟨3, 0⟩ := by decide +kernel
  have room : secretWorld.stack.depth < secretWorld.settings.maxDepth := by decide +kernel
  obtain ⟨o, live⟩ := Option.isSome_iff_exists.1 (by decide +kernel : (secretWorld.live? ⟨3, 0⟩).isSome = true)
  have listed : ((secretWorld.registry.get? "::classes::C::secret").any fun r =>
      r.owner == some ⟨2, 0⟩ && !r.perObject && r.method.isPrivate && r.method.kind == .scripted) = true := by
    decide +kernel
  obtain ⟨⟨owner, perObject, method⟩, here, holds⟩ := Option.any_eq_true .. |>.1 listed
  simp only [Bool.and_eq_true, beq_iff_eq, Bool.not_eq_true'] at holds
  obtain ⟨⟨⟨rfl, rfl⟩, isPrivate⟩, scripted⟩ := holds
  have calls : AsksFor (hostWithin Heap.HandlesRemain 1).failing
    (.eval .none (.dispatch (.name "o") (.list []) (.literal (.text "::classes::C::secret")) {})) secretWorld
      (.call ⟨3, 0⟩ "::classes::C::secret" [] {}) secretWorld := asksFor_call_of_name named begins
  have found : ∀ k, (resolve k ⟨3, 0⟩ "::classes::C::secret" {}).exec secretWorld = some (.ok (some
      { method, definer := some ⟨2, 0⟩, kind := .plain, name := "::classes::C::secret" }), secretWorld) :=
    fun k => @exec_resolve_registered k ⟨3, 0⟩ "secret" method (some ⟨2, 0⟩) secretWorld _ (by decide) here {}
  have runs : AsksFor (hostWithin Heap.HandlesRemain 1).failing (.call ⟨3, 0⟩ "::classes::C::secret" [] {}) secretWorld
      _ secretWorld := asksFor_run_of_resolve live room (found _) (by rw [scripted]; decide)
  have entered := ((Entered.step session_secretWorld _).sub begins calls).sub begins runs
  exact ⟨_, _, _, _, entered, isPrivate, Entered.privateKept entered⟩

end DynamicObjects
