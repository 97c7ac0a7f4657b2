import DynamicObjects.Proofs.Runs.Finds
import DynamicObjects.Proofs.Runs.Links
import DynamicObjects.Proofs.Runs.Trials

/-!
# Visibility

Permissions are asked for once, when a call finds its method. A call that heeds them finds what one that ignores them
would find, if that is a filter or something the running method may call, and nothing otherwise. What a next call finds
is not held against them.
-/
namespace DynamicObjects

/-- The same call, with permissions ignored. -/
def CallModifiers.ignoring (mods : CallModifiers) : CallModifiers :=
  { mods with ignorePermissions := true }

namespace Invocation

variable {host : Host} {h : Handle} {name : String} {mods : CallModifiers} {u w : World}

/-- Whether permissions let a call start with what it found. -/
def startable (w : World) (h : Handle) (found : Resolved) : Bool :=
  found.kind.isFilter || permitted w h found.method

/-- What permissions leave of what was found, and the world after it: positions that were pushed for what they refuse are
popped. -/
def heed (h : Handle) : Except Failure (Option Resolved) × World → Except Failure (Option Resolved) × World
  | (.ok (some found), w) =>
    if startable w h found then (.ok (some found), w)
    else (.ok none, w.lowered h found.pushedFilterPosition found.pushedMixinPosition)
  | (.ok none, w) => (.ok none, w)
  | (.error e, w) => (.error e, w)

/-- What a search without filters and mixins ends with, for a simple name. -/
def permit (h : Handle) (name : String) (mods : CallModifiers) : Option Found → Update (Option Resolved)
  | none => return none
  | some (method, definer) => do
    if !mods.ignorePermissions && !permitted (← get) h method then return none
    return some { method, definer, kind := .plain, name }

/-- What a search along mixins ends with that found one. -/
def permitMixin (h : Handle) (name : String) (mods : CallModifiers) (c : Handle) (method : Method) :
    Action (Option Resolved) := do
  if !mods.ignorePermissions && !permitted (← get) h method then return none
  pushMixinPosition h (some c)
  return some { method, definer := some c, kind := .mixin true, name, pushedMixinPosition := true }

/-- What is found is used if permissions are ignored. -/
theorem exec_permit_of_ignores (ignores : mods.ignorePermissions = true) (found : Option Found) (w : World) :
    (permit h name mods found).exec w =
      (.ok (found.map fun (method, definer) => { method, definer, kind := .plain, name }), w) := by
  cases found with
  | none => rfl
  | some found =>
    unfold permit
    rw [Update.exec_bind_of_ok (Update.exec_get w), Update.exec_ite, ignores]
    rfl

theorem exec_permitMixin_of_ignores (ignores : mods.ignorePermissions = true) (c : Handle) (method : Method)
    (w : World) : (permitMixin h name mods c method).exec w =
      some (.ok (some { method, definer := some c, kind := .mixin true, name, pushedMixinPosition := true }),
        ((pushMixinPosition h (some c)).exec w).2) := by
  unfold permitMixin
  rw [Action.exec_bind_of_ok (Action.exec_get w), ignores]
  rfl

theorem permitted_pushMixinPosition (method : Method) (position : Option Handle) (w : World) :
    permitted ((pushMixinPosition h position).exec w).2 h method = permitted w h method := by
  have identity : Heap.Alike Object.identity w.objects ((pushMixinPosition h position).exec w).2.objects :=
    .modify _ h fun _ => rfl
  have isClass : ((pushMixinPosition h position).exec w).2.isClass h = w.isClass h := identity.isClass
  unfold permitted
  rw [isClass]
  rfl

theorem lowered_pushMixinPosition (position : Option Handle) (w : World) :
    ((pushMixinPosition h position).exec w).2.lowered h false true = w := by
  have same : ((w.objects.modify h fun o => { o with mixinPositions := position :: o.mixinPositions }).modify h
      (Object.lowered false true)) = w.objects :=
    (Heap.modify_modify _ _ _ _).trans (Heap.modify_eq_self _ _ fun _ _ => rfl)
  exact congrArg (fun objects => { w with objects }) same

section heeding

variable (heeds : mods.ignorePermissions = false) (wide : mods.localOnly = false)
  (simple : Definition.isQualified name = false)

include wide simple in
theorem resolvePlain_eq : resolvePlain h name mods =
    (if mods.systemOnly then searchSystem h name else searchObject h name) >>= permit h name mods := by
  unfold resolvePlain permit
  simp only [simple, wide, Bool.false_eq_true, if_false, Bool.false_or]
  cases mods.systemOnly <;> rfl

include heeds in
theorem exec_permit_heeding (found : Option Found) (w : World) :
    (permit h name mods found).exec w = heed h ((permit h name mods.ignoring found).exec w) := by
  match found with
  | none => rfl
  | some (method, definer) =>
    have ignoring : (permit h name mods.ignoring (some (method, definer))).exec w =
        (.ok (some { method, definer, kind := .plain, name }), w) := rfl
    rw [ignoring]
    unfold permit heed startable
    rw [Update.exec_bind_of_ok (Update.exec_get w), Update.exec_ite, heeds]
    simp only [FrameKind.isFilter, World.lowered_false]
    cases permitted w h method <;> rfl

include heeds in
theorem exec_permitMixin_heeding (c : Handle) (method : Method) (w : World) :
    (permitMixin h name mods c method).exec w =
      ((permitMixin h name mods.ignoring c method).exec w).map (heed h) := by
  have ignoring : (permitMixin h name mods.ignoring c method).exec w =
      some (.ok (some { method, definer := some c, kind := .mixin true, name, pushedMixinPosition := true }),
        ((pushMixinPosition h (some c)).exec w).2) := rfl
  rw [ignoring]
  unfold permitMixin heed startable
  rw [Action.exec_bind_of_ok (Action.exec_get w), heeds]
  simp only [FrameKind.isFilter, Option.map_some, permitted_pushMixinPosition, lowered_pushMixinPosition,
    Bool.false_or, Bool.not_false, Bool.true_and]
  cases permitted w h method <;> rfl

include heeds wide simple

theorem exec_resolvePlain_heeding (w : World) :
    (resolvePlain h name mods).exec w = heed h ((resolvePlain h name mods.ignoring).exec w) := by
  rw [resolvePlain_eq wide simple, @resolvePlain_eq h name mods.ignoring wide simple]
  change (((if mods.systemOnly then _ else _) >>= _ : Update _).exec w) =
    heed h ((((if mods.systemOnly then _ else _) >>= _ : Update _)).exec w)
  rw [Update.exec_bind, Update.exec_bind]
  split
  · next found v done => exact exec_permit_heeding heeds found v
  · rfl

theorem exec_resolveUnfiltered_heeding (mixins : List Mixin) (w : World) :
    (resolveUnfiltered host h name mods mixins).exec w =
      ((resolveUnfiltered host h name mods.ignoring mixins).exec w).map (heed h) := by
  unfold resolveUnfiltered
  rw [Action.exec_bind, Action.exec_bind, Option.map_bind]
  congr 1
  funext ⟨r, v⟩
  match r with
  | .error e => rfl
  | .ok none => exact congrArg some (exec_resolvePlain_heeding heeds wide simple v)
  | .ok (some (c, method)) => exact exec_permitMixin_heeding heeds c method v

/-- Permissions are asked for after all searches, and change nothing about what is found but whether it is used. -/
theorem exec_resolve_heeding (w : World) :
    (resolve host h name mods).exec w = ((resolve host h name mods.ignoring).exec w).map (heed h) := by
  have same : interceptable name mods.ignoring = interceptable name mods := rfl
  unfold resolve
  rw [same]
  cases interceptable name mods with
  | false => exact congrArg some (exec_resolvePlain_heeding heeds wide simple w)
  | true =>
    simp only [Bool.not_true, Bool.false_eq_true, if_false]
    rw [Action.exec_bind, Action.exec_bind, Option.map_bind]
    congr 1
    funext ⟨r, v⟩
    match r with
    | .error e => rfl
    | .ok filter =>
      simp only [Function.comp_apply]
      rw [Action.exec_bind, Action.exec_bind, Option.map_bind]
      congr 1
      funext ⟨r, v⟩
      match r, filter with
      | .error e, _ => rfl
      | .ok mixins, none => exact exec_resolveUnfiltered_heeding heeds wide simple mixins v
      | .ok mixins, some entry => cases mixins <;> rfl

end heeding

/-! ## Filters -/

/-- A filter that a search finds is not private, and not for classes only where the receiver is none. -/
theorem admits_of_searchFilters {isClass : Bool} {entries : List FilterEntry} {entry : FilterEntry}
    (done : (searchFilters host h isClass entries).exec w = some (.ok (some entry), u)) :
    entry.method.isPrivate = false ∧ (entry.method.classOnly = true → isClass = true) := by
  induction entries generalizing w with
  | nil => cases done
  | cons e rest ih =>
    unfold searchFilters at done
    split at done
    · exact ih done
    · next admitted =>
      rw [Action.exec_bind] at done
      obtain ⟨⟨r, v⟩, asked, done⟩ := Option.bind_eq_some_iff.1 done
      cases r with
      | error f => cases done
      | ok passes =>
        cases passes with
        | false => exact ih done
        | true =>
          cases done
          revert admitted
          cases entry.method.isPrivate <;> cases entry.method.classOnly <;> cases isClass <;> simp

theorem admits_of_firstFilter {loose : Handle → Prop} (well : WellFormed loose w) {entry : FilterEntry}
    (done : (firstFilter host h).exec w = some (.ok (some entry), u)) :
    entry.method.isPrivate = false ∧ (entry.method.classOnly = true → w.isClass h = true) := by
  unfold firstFilter at done
  rw [Action.exec_bind_of_ok (Action.exec_get w)] at done
  split at done
  · rw [Action.exec_bind] at done
    obtain ⟨⟨r, v⟩, ordered, done⟩ := Option.bind_eq_some_iff.1 done
    match r with
    | .error f => cases done
    | .ok order =>
      dsimp only at done
      rw [Action.exec_bind_of_ok (Action.exec_get v)] at done
      obtain ⟨b, after, identity⟩ := alike_filterOrder Object.identity_withoutPrecedence (fun _ _ => rfl)
        (fun _ _ => rfl) well h
      have there : ((Interception.filterOrder h).exec w).2 = v := by
        rw [Action.exec_liftM] at ordered
        exact congrArg Prod.snd (Option.some.inj ordered)
      have isClass : v.isClass h = w.isClass h := by
        rw [← there, after]
        exact identity.isClass
      exact isClass ▸ admits_of_searchFilters done
  · cases done

/-- A call that starts with a filter found one that may run on its receiver. -/
theorem admits_of_resolve {loose : Handle → Prop} (well : WellFormed loose w) {found : Resolved}
    (done : (resolve host h name mods).exec w = some (.ok (some found), u)) (filter : found.kind.isFilter = true) :
    found.method.isPrivate = false ∧ (found.method.classOnly = true → w.isClass h = true) := by
  unfold resolve at done
  cases alone : interceptable name mods with
  | false =>
    rw [alone] at done
    exact absurd filter (kind_resolvePlain (q := (·.isFilter ≠ true)) nofun _ _ _ (Option.some.inj done) _ rfl)
  | true =>
    simp only [alone, Bool.not_true, Bool.false_eq_true, if_false] at done
    rw [Action.exec_bind] at done
    obtain ⟨⟨r, v⟩, first, done⟩ := Option.bind_eq_some_iff.1 done
    match r with
    | .error f => cases done
    | .ok entry =>
      dsimp only at done
      rw [Action.exec_bind] at done
      obtain ⟨⟨r, x⟩, -, done⟩ := Option.bind_eq_some_iff.1 done
      match r, entry with
      | .error f, _ => cases done
      | .ok mixins, none =>
        exact absurd filter (kind_resolveUnfiltered (q := (·.isFilter ≠ true)) nofun nofun mixins _ _ _ done _ rfl)
      | .ok mixins, some entry =>
        have same : found.method = entry.method := by
          cases mixins <;> cases done <;> rfl
        exact same ▸ admits_of_firstFilter well first

/-- What a call ends with that found nothing to start with. -/
def answerNotFound (host : Host) (h : Handle) (name : String) (args : List Value) (mods : CallModifiers) :
    Action Value := do
  if mods.noUnknown then throw (.unknown (← Update.nameOf h) name)
  answerUnknown host h name args

/-- A call goes by what its search finds. -/
theorem exec_call_of_resolve (args : List Value) {o : Object} (live : w.live? h = some o)
    (room : w.stack.depth < w.settings.maxDepth) {found : Option Resolved}
    (resolved : (resolve host h name mods).exec w = some (.ok found, u)) : (call host h name args mods).exec w =
      (found.elim (answerNotFound host h name args mods) (enter host h name · args mods)).exec u := by
  unfold call
  rw [Action.exec_bind_of_ok (Action.exec_get w), if_neg (Nat.not_le.2 room),
    Action.exec_liftM_bind_of_ok (Update.exec_object_of_live live), Action.exec_bind_of_ok resolved]
  cases found <;> rfl

end Invocation

open Invocation

/-! ## Calls -/

/-- Methods that an outsider may not call on an object: one is protected, one is for classes only. -/
def guardedSession : List Expr :=
  [foundation, Trial.createClass "C",
    Trial.define .instances "C" { Trial.method "hidden" (Trial.text "protected") with visibility := .receiver },
    Trial.define .instances "C" { Trial.method "config" (Trial.text "class-only") with classOnly := true },
    Trial.define .instances "C" (Trial.method "f" (.next none)), Trial.createObject "o" "C"]

def guardedWorld : World :=
  (sessionWithin Heap.HandlesRemain 3 guardedSession).get (by decide +kernel)

/-- The same with a filter on the object that only passes its calls on. -/
def openedWorld : World :=
  (sessionWithin Heap.HandlesRemain 3 (guardedSession ++ [Trial.addFilter .object "o" "f"])).get (by decide +kernel)

/-- In a reachable world, a call that heeds permissions starts with what a call finds that ignores them, if that is a
filter or something the running method may call. What is found and refused is not run: the call ends as one that finds
no method. A filter is only found if it is not private, nor for classes only on an object that is none. -/
theorem Reachable.call_heeds_permissions {u w : World} (reached : Reachable Heap.HandlesRemain w) {host : Host}
    {h : Handle} {o : Object} (live : w.live? h = some o) (room : w.stack.depth < w.settings.maxDepth) {name : String}
    (simple : Definition.isQualified name = false) {mods : CallModifiers} (heeds : mods.ignorePermissions = false)
    (wide : mods.localOnly = false) {found : Resolved}
    (resolved : (resolve host h name mods.ignoring).exec w = some (.ok (some found), u)) (args : List Value) :
    (startable u h found = true →
      (call host h name args mods).exec w = (enter host h name found args mods).exec u) ∧
    (startable u h found = false → (call host h name args mods).exec w =
      (answerNotFound host h name args mods).exec
        (u.lowered h found.pushedFilterPosition found.pushedMixinPosition)) ∧
    (found.kind.isFilter = true →
      found.method.isPrivate = false ∧ (found.method.classOnly = true → w.isClass h = true)) := by
  have heeding := @exec_resolve_heeding host h name mods heeds wide simple w
  rw [resolved, Option.map_some] at heeding
  refine ⟨fun starts => ?_, fun refused => ?_, fun filter => ?_⟩
  · simp only [heed, starts, if_true] at heeding
    exact exec_call_of_resolve args live room heeding
  · simp only [heed, refused, Bool.false_eq_true, if_false] at heeding
    exact exec_call_of_resolve args live room heeding
  · have broad : mods.ignoring.localOnly = false := wide
    exact admits_of_resolve (reached.proper fun _ remain => remain) resolved filter

/-- The object has the handle 3. -/
theorem call_heeds_permissions_guarded : ∃ found u,
    (resolve (hostChecking Heap.HandlesRemain 4) ⟨3, 0⟩ "hidden" (CallModifiers.ignoring {})).exec guardedWorld =
      some (.ok (some found), u) ∧ startable u ⟨3, 0⟩ found = false ∧
    (call (hostChecking Heap.HandlesRemain 4) ⟨3, 0⟩ "hidden" [] {}).exec guardedWorld =
      (answerNotFound (hostChecking Heap.HandlesRemain 4) ⟨3, 0⟩ "hidden" [] {}).exec
        (u.lowered ⟨3, 0⟩ found.pushedFilterPosition found.pushedMixinPosition) := by
  have refused : ((resolve (hostChecking Heap.HandlesRemain 4) ⟨3, 0⟩ "hidden" (CallModifiers.ignoring {})).exec
      guardedWorld).bind (fun (r, u) => r.toOption.join.map (startable u ⟨3, 0⟩)) = some false := by
    decide +kernel
  obtain ⟨⟨r, u⟩, resolved, starts⟩ := Option.bind_eq_some_iff.1 refused
  obtain ⟨found, is, no⟩ := Option.map_eq_some_iff.1 starts
  obtain ⟨o, live⟩ := Option.isSome_iff_exists.1 (by decide +kernel : (guardedWorld.live? ⟨3, 0⟩).isSome = true)
  have same : r = .ok (some found) := by
    match r with
    | .error e => cases is
    | .ok f => exact congrArg Except.ok is
  rw [same] at resolved
  have heeds := Reachable.call_heeds_permissions (.sessionWithin (Option.some_get _).symm) live (by decide +kernel)
    (by decide +kernel) rfl rfl resolved []
  exact ⟨found, u, resolved, no, heeds.2.1 no⟩

/-- A filter lets outsiders in: with one that passes its calls on, both methods run that are refused without it. -/
theorem not_refused_of_filtered : Reachable Heap.HandlesRemain guardedWorld ∧
    Reachable Heap.HandlesRemain openedWorld ∧ openedWorld.isClass ⟨3, 0⟩ = false ∧
    (∀ name ∈ ["hidden", "config"],
      (((hostWithin Heap.HandlesRemain 6).call ⟨3, 0⟩ name [] {}).exec guardedWorld).map (fun
        | (.error (.unknown receiver unknown), _) => (receiver, unknown)
        | _ => ("", "")) = some ("::o", name)) ∧
    (((hostWithin Heap.HandlesRemain 6).call ⟨3, 0⟩ "hidden" [] {}).exec openedWorld).map
      (·.1.toOption.map Value.toText) = some (some "protected") ∧
    (((hostWithin Heap.HandlesRemain 6).call ⟨3, 0⟩ "config" [] {}).exec openedWorld).map
      (·.1.toOption.map Value.toText) = some (some "class-only") := by
  refine ⟨.sessionWithin (Option.some_get _).symm, .sessionWithin (Option.some_get _).symm, ?_⟩
  rw [hostWithin_eq_hostChecking]
  decide +kernel

end DynamicObjects
