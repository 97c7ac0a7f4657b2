import DynamicObjects.Proofs.Runs.Visibility

/-!
# How far modifiers go

A call is modified as far as the implementation that it starts with. Where that is a filter or a mixin, what comes
behind it is run by next calls, which have no modifiers: an unknown method is answered for, an ensemble takes the first
argument, and leaf methods are not visible, whatever the call asked for.
-/
namespace DynamicObjects

/-- The same call, as far as the search for its method goes. -/
def CallModifiers.ofSearch (mods : CallModifiers) : CallModifiers :=
  { mods with noUnknown := false, noArgumentShift := false, forceFrame := false }

/-- The same call, as far as the method goes that it starts with. -/
def CallModifiers.ofStart (mods : CallModifiers) : CallModifiers :=
  { noArgumentShift := mods.noArgumentShift, forceFrame := mods.forceFrame }

namespace Invocation

variable {host : Host} {h : Handle} {name : String} {mods other : CallModifiers} {u v w : World}

/-! ## Who looks at modifiers -/

theorem resolve_ofSearch : resolve host h name mods.ofSearch = resolve host h name mods := rfl

theorem subMethod_congr (same : mods.noArgumentShift = other.noArgumentShift) (args : List Value) :
    subMethod h args mods = subMethod h args other := by
  unfold subMethod
  rw [same]

/-- In a frame, only ensembles look at modifiers, and only whether arguments are shifted. -/
theorem run_congr (frame : Frame) (method : Method)
    (shift : ∀ c, method.implementation = .ensemble c → mods.noArgumentShift = other.noArgumentShift) :
    run host frame method mods = run host frame method other := by
  have body : ∀ i, implement host i frame.object method frame.arguments mods =
      implement host i frame.object method frame.arguments other := by
    intro i
    unfold implement
    split
    · rfl
    · rfl
    · rfl
    · rfl
    · next c is =>
      unfold runEnsemble
      rw [subMethod_congr (shift c is)]
    · rfl
  unfold run
  simp only [body]

end Invocation

open Invocation

section hosts

variable {good : Objects → Prop} {depth : Nat} {h : Handle} {name : String} {mods other : CallModifiers} {u v w : World}

theorem run_hostWithin_congr (frame : Frame) (method : Method) (mods other : CallModifiers)
    (shift : ∀ c, method.implementation = .ensemble c → mods.noArgumentShift = other.noArgumentShift) :
    (hostWithin good depth).run frame method mods = (hostWithin good depth).run frame method other := by
  cases depth with
  | zero => rfl
  | succ depth => exact congrArg (Action.within good) (run_congr frame method shift)

/-- What is found runs with the modifiers that concern it. -/
theorem exec_enter {found : Resolved} {method : Method}
    (leads : (Definition.followAliases found.method).exec u = (.ok method, v)) (args : List Value) :
    (enter (hostWithin good depth) h name found args mods).exec u =
      ((hostWithin good depth).run (frameFor h name found method args mods.ofStart) method mods.ofStart).exec v := by
  have settled : (Action.settle (liftM (Definition.followAliases found.method))).exec u = some (.ok (.ok method), v) := by
    rw [Action.exec_settle, Action.exec_liftM, leads]
    rfl
  unfold enter
  rw [Action.exec_bind_of_ok settled]
  exact congrArg (·.exec v)
    (run_hostWithin_congr (frameFor h name found method args mods) method mods mods.ofStart fun _ _ => rfl)

/-- A filter or mixin that is no ensemble runs as it would without modifiers: its frame is visible anyway. -/
theorem exec_enter_intercepting {found : Resolved} (intercepts : found.kind ≠ .plain)
    (single : ∀ method v, (Definition.followAliases found.method).exec u = (.ok method, v) →
      ∀ c, method.implementation ≠ .ensemble c) (args : List Value) :
    (enter (hostWithin good depth) h name found args mods).exec u =
      (enter (hostWithin good depth) h name found args other).exec u := by
  rcases leads : (Definition.followAliases found.method).exec u with ⟨r, v⟩
  cases r with
  | error e =>
    unfold enter
    rw [Action.exec_bind, Action.exec_bind, Action.exec_settle, Action.exec_liftM, leads]
    rfl
  | ok method =>
    have visible : (found.kind != .plain) = true := bne_iff_ne.2 intercepts
    have frame : frameFor h name found method args mods.ofStart = frameFor h name found method args other.ofStart := by
      unfold frameFor
      rw [visible, Bool.or_true, Bool.or_true]
    rw [exec_enter leads, exec_enter leads, frame]
    exact congrArg (·.exec v) (run_hostWithin_congr _ method _ _ fun c is => absurd is (single method v leads c))

/-! ## Calls -/

/-- An ensemble, a leaf method and a filter that passes its calls on, with someone to answer for unknown methods. -/
def modifiedSession : List Expr :=
  [.createSystem (Trial.text "Object") (Trial.text "Class") { default := some (Trial.text "fallback") },
    Trial.createClass "C", Trial.createObject "o" "C", Trial.createObject "box" "C",
    Trial.define .object "box" (Trial.method "sub" (Trial.text "sub-method")),
    Trial.define .object "box" (Trial.method "fallback" (Trial.text "default sub-method")),
    .change (.defineEnsemble (.name "C") (Trial.text "multi") (.name "box")),
    Trial.define .instances "C"
      { Trial.method "leaf" (.literal .nil) with implementation := .native (.ofWorld .currentMethod) true },
    Trial.define .instances "C" (Trial.method "f" (.next none)),
    .change (.setUnknownHandler (some (Trial.text "answered")))]

def modifiedWorld : World :=
  (sessionWithin Heap.HandlesRemain 3 modifiedSession).get (by decide +kernel)

/-- The same with the filter registered. -/
def interceptedWorld : World :=
  (sessionWithin Heap.HandlesRemain 3 (modifiedSession ++ [Trial.addFilter .object "o" "f"])).get (by decide +kernel)

/-- What a call finds decides how far its modifiers go. Where it finds nothing and unknown methods are not to be
answered for, it fails there and then. A filter or mixin, if it is no ensemble, leaves nothing of the modifiers to
whatever next calls come to behind it: the call is one that only searched with them. Whatever is found runs
with those that concern it. -/
theorem call_goes_by_first {o : Object} (live : w.live? h = some o) (room : w.stack.depth < w.settings.maxDepth)
    {found : Option Resolved} (resolved : (resolve (hostWithin good depth) h name mods).exec w = some (.ok found, u))
    (args : List Value) :
    (found = none → mods.noUnknown = true →
      (call (hostWithin good depth) h name args mods).exec w = some (.error (.unknown (u.nameOf h) name), u)) ∧
    (∀ first, found = some first → first.kind ≠ .plain →
      (∀ method v, (Definition.followAliases first.method).exec u = (.ok method, v) →
        ∀ c, method.implementation ≠ .ensemble c) →
      (call (hostWithin good depth) h name args mods).exec w =
        (call (hostWithin good depth) h name args mods.ofSearch).exec w) ∧
    (∀ first method v, found = some first →
      (Definition.followAliases first.method).exec u = (.ok method, v) →
      (call (hostWithin good depth) h name args mods).exec w =
        ((hostWithin good depth).run (frameFor h name first method args mods.ofStart) method mods.ofStart).exec v) := by
  refine ⟨?_, ?_, ?_⟩
  · rintro rfl silent
    rw [exec_call_of_resolve args live room resolved]
    change (answerNotFound (hostWithin good depth) h name args mods).exec u = _
    unfold answerNotFound
    rw [if_pos silent]
    rfl
  · rintro first rfl intercepts single
    have searched : (resolve (hostWithin good depth) h name mods.ofSearch).exec w = some (.ok (some first), u) := by
      rw [resolve_ofSearch]
      exact resolved
    rw [exec_call_of_resolve args live room resolved, exec_call_of_resolve args live room searched]
    exact exec_enter_intercepting intercepts single args
  · rintro first method v rfl leads
    rw [exec_call_of_resolve args live room resolved]
    exact exec_enter leads args

end hosts

/-- The filter is what a call of a missing method starts with. -/
theorem call_goes_by_first_intercepted : ∃ first u,
    (resolve (hostWithin Heap.HandlesRemain 4) ⟨3, 0⟩ "missing" { noUnknown := true }).exec interceptedWorld =
      some (.ok (some first), u) ∧ first.kind = .filter true ∧
    (call (hostWithin Heap.HandlesRemain 4) ⟨3, 0⟩ "missing" [] { noUnknown := true }).exec interceptedWorld =
      (call (hostWithin Heap.HandlesRemain 4) ⟨3, 0⟩ "missing" [] (CallModifiers.ofSearch { noUnknown := true })).exec
        interceptedWorld := by
  have looks : ((resolve (hostChecking Heap.HandlesRemain 4) ⟨3, 0⟩ "missing" { noUnknown := true }).exec
      interceptedWorld).bind (fun (r, u) => r.toOption.join.map fun first =>
        (first.kind, ((Definition.followAliases first.method).exec u).1.toOption.map (·.kind))) =
      some (.filter true, some .scripted) := by
    decide +kernel
  rw [← hostWithin_eq_hostChecking] at looks
  obtain ⟨⟨r, u⟩, resolved, is⟩ := Option.bind_eq_some_iff.1 looks
  obtain ⟨first, found, same⟩ := Option.map_eq_some_iff.1 is
  obtain ⟨kind, scripted⟩ := Prod.mk.inj same
  have started : r = .ok (some first) := by
    match r with
    | .error e => cases found
    | .ok f => exact congrArg Except.ok found
  rw [started] at resolved
  obtain ⟨o, live⟩ := Option.isSome_iff_exists.1 (by decide +kernel : (interceptedWorld.live? ⟨3, 0⟩).isSome = true)
  have goes := call_goes_by_first live (by decide +kernel) resolved []
  refine ⟨first, u, resolved, kind, goes.2.1 first rfl (by rw [kind]; decide) fun method v leads c ensemble => ?_⟩
  rw [leads] at scripted
  have last : method.kind = .scripted := Option.some.inj scripted
  unfold MethodOf.kind at last
  rw [ensemble] at last
  cases last

/-- What calls with one modifier each answer. -/
def modifiedAnswers (host : Host) (w : World) : List (Option String) :=
  [("missing", [], { noUnknown := true }), ("multi", [.text "sub"], { noArgumentShift := true }),
    ("leaf", [], { forceFrame := true })].map fun (name, args, mods) =>
  ((host.call ⟨3, 0⟩ name args mods).exec w).map fun
    | (.ok value, _) => value.toText
    | (.error f, _) => f.message

/-- Behind a filter that passes its calls on, modifiers are lost: someone answers for the unknown method, the ensemble
takes the first argument, and the leaf method sees the frame of the filter for its own. -/
theorem not_modified_of_intercepted : Reachable Heap.HandlesRemain modifiedWorld ∧
    Reachable Heap.HandlesRemain interceptedWorld ∧
    modifiedAnswers (hostWithin Heap.HandlesRemain 8) modifiedWorld =
      [some "::o: unable to dispatch method 'missing'", some "default sub-method", some "leaf"] ∧
    modifiedAnswers (hostWithin Heap.HandlesRemain 8) interceptedWorld =
      [some "answered", some "sub-method", some "f"] := by
  refine ⟨.sessionWithin (Option.some_get _).symm, .sessionWithin (Option.some_get _).symm, ?_⟩
  rw [hostWithin_eq_hostChecking]
  decide +kernel

end DynamicObjects
