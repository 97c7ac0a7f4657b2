import DynamicObjects.Proofs.Runs.Aliases
import DynamicObjects.Proofs.Runs.Inheritance
import DynamicObjects.Proofs.Runs.Unanswered

/-!
# Checked results

When the frame of a method closes, the result is held against the check that the method declares. What is done after that
does not matter to checks, so that the result is still accepted where the call returns. Unknown handling that was left to
the closing of the frame comes later, and its answer is returned as it is.
-/
namespace DynamicObjects

open Invocation

variable {host : Host} {u v w x : World} {frame : Frame} {method : Method} {mods : CallModifiers} {value : Value}

/-! ## What checks depend on -/

/-- The links above an object, and its class: all that checks ask about. -/
def Object.descent (o : Object) : (Identity × Option (List Handle × List Handle)) × Handle :=
  (o.ancestry, o.cls)

namespace World

theorem accepts_congr (lives : ∀ h, (w.live? h).map (fun o => (o.isClass, o.cls)) =
    (v.live? h).map fun o => (o.isClass, o.cls)) (supers : w.objects.supersOf = v.objects.supersOf) :
    w.accepts = v.accepts := by
  have isObject : w.isObject = v.isObject := by
    funext h
    have := congrArg Option.isSome (lives h)
    rwa [Option.isSome_map, Option.isSome_map] at this
  have isClass : w.isClass = v.isClass := by
    funext h
    have := congrArg (Option.any (·.1)) (lives h)
    rwa [Option.any_map, Option.any_map] at this
  have inherits : Hierarchy.inheritsFrom w.objects = Hierarchy.inheritsFrom v.objects := by
    funext c d
    rw [Bool.eq_iff_iff, Hierarchy.inheritsFrom_iff, Hierarchy.inheritsFrom_iff, supers]
  have isInstanceOf : w.isInstanceOf = v.isInstanceOf := by
    funext h d
    have := congrArg (Option.any fun o => Hierarchy.inheritsFrom v.objects o.2 d) (lives h)
    rw [Option.any_map, Option.any_map] at this
    unfold World.isInstanceOf
    rw [inherits]
    exact this
  funext check value
  cases check <;> simp only [World.accepts, isObject, isClass, isInstanceOf]

theorem accepts_of_alike (alike : Heap.Alike Object.descent v.objects w.objects) : w.accepts = v.accepts := by
  have ancestry : Heap.Alike Object.ancestry v.objects w.objects := alike.comp (·.1) fun _ => rfl
  refine accepts_congr (fun h => ?_) ancestry.supersOf_of_ancestry
  have lives := alike.live? (h := h) fun _ _ same => congrArg (·.1.1.deleted) same
  have := congrArg (Option.map fun d : (Identity × Option (List Handle × List Handle)) × Handle => (d.1.1.isClass, d.2)) lives
  rwa [Option.map_map, Option.map_map] at this

/-- Checks do not ask for positions and frames that hold an object. -/
theorem accepts_modify (w : World) (h : Handle) {f : Object → Object} (blind : ∀ o, (f o).descent = o.descent) :
    World.accepts { w with objects := w.objects.modify h f } = w.accepts :=
  accepts_of_alike (.modify w.objects h blind)

/-- Nothing inherits from what was unlinked, so that its slot does not matter to checks. -/
theorem accepts_release (proper : Proper w) {h : Handle} (dead : w.live? h = none) :
    World.accepts { w with objects := w.objects.release h } = w.accepts := by
  have top : w.objects.supersOf h = [] := by
    refine List.eq_nil_iff_forall_not_mem.2 fun s link => ?_
    obtain ⟨o, -, live, -⟩ := proper.linked.live h s link
    rw [dead] at live
    cases live
  exact accepts_congr (fun k => by rw [live?_release dead]) ((departs_release w.objects h).supersOf top)

end World

/-- An object that is let go of has one frame less that holds it, or leaves its slot if it was unlinked before. -/
theorem exec_letGo_eq (h : Handle) (w : World) : ∃ a, (letGo h).exec w = (.ok ⟨⟩, { w with objects := a }) ∧
    (a = (w.objects.modify h fun o => { o with holders := o.holders - 1 }) ∨
      w.live? h = none ∧ a = w.objects.release h) := by
  unfold letGo changeHeld
  rw [Update.exec_bind_of_ok (Update.exec_changeObjects _ w), Update.exec_bind_of_ok (Update.exec_get _)]
  split
  · next due =>
    refine ⟨w.objects.release h, ?_, .inr ⟨?_, rfl⟩⟩
    · rw [Update.exec_changeObjects, Heap.release_modify]
    · obtain ⟨p, found, both⟩ := Option.any_eq_true .. |>.1 due
      rw [Heap.get?_modify, if_pos rfl] at found
      obtain ⟨o, before, rfl⟩ := Option.map_eq_some_iff.1 found
      simp only [Bool.and_eq_true] at both
      simp [World.live?, before, Option.filter, both.2]
  · exact ⟨_, rfl, .inl rfl⟩

theorem accepts_letGo (proper : Proper w) (h : Handle) :
    ((letGo h).exec w).2.accepts = w.accepts ∧ ((letGo h).exec w).2.settings = w.settings := by
  obtain ⟨a, lets, rfl | ⟨dead, rfl⟩⟩ := exec_letGo_eq h w
  · rw [lets]
    exact ⟨w.accepts_modify h fun _ => rfl, rfl⟩
  · rw [lets]
    exact ⟨World.accepts_release proper dead, rfl⟩

/-! ## Closing a frame -/

namespace World

/-- Where results are checked, a result is one that the check of a method accepts. -/
def Passes (w : World) (method : Method) (value : Value) : Prop :=
  w.settings.checkResults = true → ∀ check ∈ method.returns, w.accepts check value = true

theorem passes_congr (accepts : w.accepts = v.accepts) (settings : w.settings = v.settings) :
    w.Passes method value ↔ v.Passes method value := by
  unfold Passes
  rw [accepts, settings]

end World

theorem checkResult_eq_ok_iff (runs : frame.method = some method) {result : Value} :
    checkResult w frame value = .ok result ↔ w.Passes method value ∧ value = result := by
  unfold checkResult World.Passes
  rw [runs, Option.bind_some]
  cases declared : method.returns with
  | none =>
    dsimp only
    rw [Except.ok.injEq]
    exact (and_iff_right fun _ _ none => nomatch none).symm
  | some check =>
    by_cases refused : (w.settings.checkResults && !w.accepts check value) = true
    · have fails : w.settings.checkResults = true ∧ w.accepts check value = false := by simpa using refused
      simp [fails]
    · have passes : w.settings.checkResults = true → w.accepts check value = true := by simpa using refused
      simp only [if_neg refused, Except.ok.injEq]
      refine (and_iff_right fun checked other same => ?_).symm
      cases same
      exact passes checked

/-- A frame that closes well has its method's own result checked. That is what the call gives, unless unknown handling is
left to the closing. -/
theorem exec_close_eq_ok (top : w.stack.top? = some frame) (runs : frame.method = some method)
    {outcome : Except Failure Value} (closed : (close host outcome).exec w = some (.ok value, x)) :
    ∃ own, outcome = .ok own ∧ (w.unstacked frame).Passes method own ∧
      (frame.unknownDue = false → value = own ∧ x = ((letGo frame.object).exec (w.unstacked frame)).2) ∧
      (frame.unknownDue = true → lettingGo frame.object
        ((answerUnknown host frame.object frame.called frame.arguments).exec (w.unstacked frame)) =
          some (.ok value, x)) := by
  rw [exec_close_of_top top] at closed
  obtain ⟨⟨r, v⟩, concludes, same⟩ := Option.map_eq_some_iff.1 closed
  cases same
  cases outcome with
  | error f => cases concludes
  | ok own =>
    unfold conclude at concludes
    rw [Action.exec_bind_of_ok (Action.exec_resume _ _), Action.exec_bind_of_ok (Action.exec_get _)] at concludes
    cases checked : checkResult (w.unstacked frame) frame own with
    | error f =>
      rw [checked] at concludes
      cases concludes
    | ok result =>
      obtain ⟨passes, rfl⟩ := (checkResult_eq_ok_iff runs).1 checked
      rw [checked, Action.exec_bind_of_ok (Action.exec_resume _ _)] at concludes
      refine ⟨own, rfl, passes, fun settled => ?_, fun due => ?_⟩
      · rw [if_neg (by simp [settled])] at concludes
        cases concludes
        exact ⟨rfl, rfl⟩
      · rw [if_pos due] at concludes
        rw [concludes]
        rfl

/-! ## Running a method -/

/-- What is known of a method that was started in `w`, once its call has ended well in `x`: its own result was accepted
when its frame closed. Unless unknown handling was left to that, this is the result of the call, and it is accepted still;
otherwise the result is what came of the unknown handling. -/
def EndsChecked (host : Host) (frame : Frame) (method : Method) (mods : CallModifiers) (w : World) (value : Value)
    (x : World) : Prop :=
  ∃ own v, (implement host w.stack.depth frame.object method frame.arguments mods).exec (w.opened frame) =
      some (.ok own, v) ∧ (v.unstacked frame).Passes method own ∧
    (¬ v.stack.DueAt w.stack.depth → value = own ∧ x.Passes method value) ∧
    (v.stack.DueAt w.stack.depth → lettingGo frame.object
      ((answerUnknown host frame.object frame.called frame.arguments).exec (v.unstacked frame)) = some (.ok value, x))

/-- What a method does in its frame and the popping of the positions pushed for it are steps of a run. -/
theorem evolves_unstacked (faithful : Faithful ⟨Heap.HandlesRemain, False⟩ host) (proper : Proper w)
    {r : Except Failure Value}
    (ran : (implement host w.stack.depth frame.object method frame.arguments mods).exec (w.opened frame) = some (r, v)) :
    Evolves Heap.HandlesRemain w (v.unstacked frame) := by
  have opens : Evolves Heap.HandlesRemain w (w.opened frame) := .opened (.run frame method mods) w
  have proper' := proper.evolves faithful.remain opens
  have body := ((@brings_implement _ _ (w.opened frame) w False False.elim frame.object False.elim w.stack.depth method
    frame.arguments mods faithful _ proper' (.refl _)).2 _ v ran).1.evolves
  have pops : Evolves Heap.HandlesRemain v { v with stack := v.stack.pop } :=
    .single (.aside (.of_objects rfl rfl rfl rfl le_rfl))
  have lowers : Evolves Heap.HandlesRemain { v with stack := v.stack.pop } (v.unstacked frame) :=
    .single (.aside (.modify _ _ fun _ => rfl))
  exact (opens.trans body).trans (pops.trans lowers)

theorem exec_run_eq_ok (faithful : Faithful ⟨Heap.HandlesRemain, False⟩ host) (marks : host.Marks) (proper : Proper w)
    (runs : frame.method = some method) (done : (run host frame method mods).exec w = some (.ok value, x)) :
    EndsChecked host frame method mods w value x := by
  rw [exec_run] at done
  obtain ⟨⟨r, v⟩, ran, closed⟩ := Option.bind_eq_some_iff.1 done
  obtain ⟨g, there, top, same⟩ := exists_top_of_implement marks ran
  have unstacked : v.unstacked g = v.unstacked frame := by
    rw [same]
    rfl
  have runs' : g.method = some method := by
    rw [same]
    exact runs
  obtain ⟨own, rfl, passes, settled, due⟩ := exec_close_eq_ok top runs' closed
  rw [unstacked] at passes settled due
  refine ⟨own, v, ran, passes, fun undue => ?_, fun ⟨g', here, isDue⟩ => ?_⟩
  · have off : g.unknownDue = false := by
      by_contra on
      exact undue ⟨g, there, by simpa using on⟩
    obtain ⟨rfl, rfl⟩ := settled off
    obtain ⟨accepts, settings⟩ :=
      accepts_letGo (proper.evolves faithful.remain (evolves_unstacked faithful proper ran)) g.object
    exact ⟨rfl, (World.passes_congr accepts settings).2 passes⟩
  · cases there.symm.trans here
    rw [same] at due
    exact due isDue

/-! ## Wherever methods end -/

/-- What is known of the results of methods that are started in `w`, and of those that calls and next calls come to. -/
structure World.ChecksResults (w : World) : Prop where
  /-- Methods that are run in a frame. -/
  runs : ∀ {depth frame method mods value x}, frame.method = some method →
    ((hostWithin Heap.HandlesRemain (depth + 1)).run frame method mods).exec w = some (.ok value, x) →
      EndsChecked (hostWithin Heap.HandlesRemain depth) frame method mods w value x
  /-- Calls that find a method. Aliases lead to the one that is run. -/
  calls : ∀ {depth h name args mods found u value x},
    (resolve (hostWithin Heap.HandlesRemain (depth + 1)) h name mods).exec w = some (.ok (some found), u) →
    (call (hostWithin Heap.HandlesRemain (depth + 1)) h name args mods).exec w = some (.ok value, x) →
      ∃ method y, (Definition.followAliases found.method).exec u = (.ok method, y) ∧
        EndsChecked (hostWithin Heap.HandlesRemain depth) (frameFor h name found method args mods) method mods y value x
  /-- Next calls that find a method. -/
  continues : ∀ {depth i frame args found filtersDone u value x}, w.stack.nextIndex? = some i →
    w.stack.get? i = some frame →
    (continuation (hostWithin Heap.HandlesRemain (depth + 1)) frame).exec w = some (.ok ⟨some found, filtersDone⟩, u) →
    (next (hostWithin Heap.HandlesRemain (depth + 1)) args).exec w = some (.ok value, x) →
      ∃ method y z, (Definition.followAliases found.method).exec (offTo i frame.kind u) = (.ok method, y) ∧
        EndsChecked (hostWithin Heap.HandlesRemain depth)
          (frameFor frame.object frame.called found method (args.getD frame.arguments) {}) method {} y value z ∧
        ∀ m v, x.Passes m v ↔ z.Passes m v

/-- A call that ends well, for which a method is found, ends as entering that does. -/
theorem exec_call_eq_ok {h : Handle} {name : String} {args : List Value} {found : Resolved}
    (resolved : (resolve host h name mods).exec w = some (.ok (some found), u))
    (done : (call host h name args mods).exec w = some (.ok value, x)) :
    (enter host h name found args mods).exec u = some (.ok value, x) := by
  have room : w.stack.depth < w.settings.maxDepth := by
    by_contra full
    unfold call at done
    rw [Action.exec_bind_of_ok (Action.exec_get w), if_pos (Nat.le_of_not_lt full)] at done
    cases done
  cases live : w.live? h with
  | none =>
    unfold call at done
    rw [Action.exec_bind_of_ok (Action.exec_get w), if_neg (Nat.not_le.2 room), Action.exec_bind, Action.exec_liftM,
      Update.exec_object_of_dead live] at done
    cases done
  | some o =>
    rw [exec_call_of_resolve args live room resolved] at done
    exact done

/-- What is entered well is an alias that leads to a method, or a method itself, which runs. -/
theorem exec_enter_eq_ok {h : Handle} {called : String} {found : Resolved} {args : List Value}
    (done : (enter host h called found args mods).exec u = some (.ok value, x)) :
    ∃ method y, (Definition.followAliases found.method).exec u = (.ok method, y) ∧
      (host.run (frameFor h called found method args mods) method mods).exec y = some (.ok value, x) := by
  unfold enter at done
  rw [Action.exec_settle_bind, Action.exec_liftM, Option.bind_some] at done
  rcases leads : (Definition.followAliases found.method).exec u with ⟨r, y⟩
  rw [leads] at done
  cases r with
  | error e =>
    dsimp only at done
    rw [Action.exec_liftM_bind_of_ok (exec_popPositions _ _ _ _)] at done
    cases done
  | ok method => exact ⟨method, y, rfl, done⟩

theorem evolves_followAliases {good : Objects → Prop} {m : Method} {y : World} {r : Except Failure Method}
    (leads : (Definition.followAliases m).exec u = (r, y)) : Evolves good u y := by
  have path : Calmly ⟨good, False⟩ u ((Definition.followAliases m).exec u).2 :=
    Deed.along_follow Definition.maxHops m u
  rw [leads] at path
  exact path.proceeds.evolves

/-- A next call that finds a method ends well where that does. Setting positions and marks back does not matter to
checks. -/
theorem exec_next_eq_ok {i : Nat} {found : Resolved} {filtersDone : Bool} {args : Option (List Value)}
    (stands : w.stack.nextIndex? = some i) (here : w.stack.get? i = some frame)
    (behind : (continuation host frame).exec w = some (.ok ⟨some found, filtersDone⟩, u))
    (done : (next host args).exec w = some (.ok value, x)) :
    ∃ z, (enter host frame.object frame.called found (args.getD frame.arguments) {}).exec (offTo i frame.kind u) =
      some (.ok value, z) ∧ ∀ m v, x.Passes m v ↔ z.Passes m v := by
  rw [exec_next] at done
  simp only [stands] at done
  rw [exec_nextFrom here] at done
  obtain ⟨⟨r, y⟩, passed, same⟩ := Option.map_eq_some_iff.1 done
  cases same
  unfold passOn at passed
  rw [Action.exec_bind_of_ok behind] at passed
  dsimp only at passed
  rw [exec_duringNext] at passed
  obtain ⟨⟨r, z⟩, entered, same⟩ := Option.map_eq_some_iff.1 passed
  cases same
  exact ⟨z, entered, fun m v => World.passes_congr (World.accepts_modify _ _ fun _ => rfl) rfl⟩

/-- A method and a filter that promise integers; the filter goes on first. A handler answers for unknown methods with a
text. -/
def promisingSession : List Expr :=
  [foundation, Trial.createClass "C",
    Trial.define .instances "C" { Trial.method "count" (.literal (.word 3)) with returns := some .integer },
    Trial.define .instances "C"
      { Trial.method "f" (.sequence [.next none, .literal (.word 3)]) with returns := some .integer },
    Trial.createObject "o" "C", Trial.createObject "p" "C", Trial.addFilter .object "p" "f",
    .change (.setUnknownHandler (some (Trial.text "nobody")))]

def promisingWorld : World :=
  (sessionWithin Heap.HandlesRemain 5 promisingSession).get (by decide +kernel)

theorem reachable_promisingWorld : Reachable Heap.HandlesRemain promisingWorld :=
  .sessionWithin (Option.some_get _).symm

/-- Wherever a reachable world has come to, a method that ends well has had its own result accepted, and so has the call
that opened its frame where no unknown handling replaced that. -/
theorem Reachable.checksResults (reached : Reachable Heap.HandlesRemain v) (path : Evolves Heap.HandlesRemain v w) :
    w.ChecksResults := by
  have remains : ∀ a : Objects, a.HandlesRemain → a.HandlesRemain := fun _ remain => remain
  have proper := (reached.proper remains).evolves remains path
  have ends : ∀ {depth frame method mods y value x}, Evolves Heap.HandlesRemain w y → frame.method = some method →
      ((hostWithin Heap.HandlesRemain (depth + 1)).run frame method mods).exec y = some (.ok value, x) →
        EndsChecked (hostWithin Heap.HandlesRemain depth) frame method mods y value x := by
    intro depth frame method mods y value x comes runs done
    exact exec_run_eq_ok (faithful_hostWithin remains depth) (Host.Marks.hostWithin Heap.HandlesRemain depth)
      (proper.evolves remains comes) runs (Action.exec_within_eq_some.1 done).2.2
  constructor
  case runs =>
    intro depth frame method mods value x runs done
    exact ends .refl runs done
  case calls =>
    intro depth h name args mods found u value x resolved done
    have searched := ((brings_resolve False.elim h name mods (faithful_hostWithin remains (depth + 1)) w proper
      (.refl w)).2 _ u resolved).1.evolves
    obtain ⟨method, y, leads, ran⟩ := exec_enter_eq_ok (exec_call_eq_ok resolved done)
    exact ⟨method, y, leads, ends (searched.trans (evolves_followAliases leads)) rfl ran⟩
  case continues =>
    intro depth i frame args found filtersDone u value x stands here behind done
    have searched := (brings_continuation (Shifted.start w frame.object) rfl
      (faithful_hostWithin remains (depth + 1)) w proper (.refl w)).2 _ u behind
    obtain ⟨z, entered, same⟩ := exec_next_eq_ok stands here behind done
    obtain ⟨method, y, leads, ran⟩ := exec_enter_eq_ok entered
    have marks : Evolves Heap.HandlesRemain u (offTo i frame.kind u) :=
      .single (.aside (.of_objects rfl rfl rfl rfl le_rfl))
    have comes := searched.1.evolves.trans (marks.trans (evolves_followAliases leads))
    exact ⟨method, y, z, leads, ends comes rfl ran, same⟩

/-- The method on `o` gives what it promises. -/
theorem checksResults_promising : ∃ value x,
    (call (hostWithin Heap.HandlesRemain 5) ⟨3, 0⟩ "count" [] {}).exec promisingWorld = some (.ok value, x) ∧
      x.settings.checkResults = true ∧ x.accepts .integer value = true := by
  have run : (((resolve (hostChecking Heap.HandlesRemain 5) ⟨3, 0⟩ "count" {}).exec promisingWorld).any fun first =>
      (first.1.toOption.bind id).any fun found =>
        let led := (Definition.followAliases found.method).exec first.2
        led.1.toOption.any fun method => method.returns == some .integer &&
          ((implement (hostChecking Heap.HandlesRemain 4) led.2.stack.depth ⟨3, 0⟩ method [] {}).exec
            (led.2.opened (frameFor ⟨3, 0⟩ "count" found method [] {}))).all fun last =>
              (last.2.stack.get? led.2.stack.depth).all (!·.unknownDue)) = true := by
    decide +kernel
  have ended : ((call (hostChecking Heap.HandlesRemain 5) ⟨3, 0⟩ "count" [] {}).exec promisingWorld).any
      (fun last => last.1.toBool && last.2.settings.checkResults) = true := by
    decide +kernel
  simp only [← hostWithin_eq_hostChecking] at run ended
  obtain ⟨⟨r, u⟩, resolved, run⟩ := Option.any_eq_true .. |>.1 run
  obtain ⟨found, is, run⟩ := Option.any_eq_true .. |>.1 run
  obtain ⟨⟨r', x⟩, called, ended⟩ := Option.any_eq_true .. |>.1 ended
  simp only [Bool.and_eq_true] at ended
  obtain ⟨well, checks⟩ := ended
  rcases r with _ | _ | found' <;> cases is
  rcases r' with _ | value
  · cases well
  obtain ⟨method, y, leads, own, v, ran, -, settled, -⟩ :=
    (Reachable.checksResults reachable_promisingWorld .refl).calls resolved called
  rw [leads] at run
  simp only [Except.toOption, Option.any_some, Bool.and_eq_true, beq_iff_eq] at run
  obtain ⟨declared, undue⟩ := run
  replace ran : (implement (hostWithin Heap.HandlesRemain 4) y.stack.depth ⟨3, 0⟩ method [] {}).exec
    (y.opened (frameFor ⟨3, 0⟩ "count" found method [] {})) = some (.ok own, v) := ran
  rw [ran] at undue
  have notDue : ¬ v.stack.DueAt y.stack.depth := by
    rintro ⟨g, here, due⟩
    simp [here, due] at undue
  exact ⟨value, x, called, checks, (settled notDue).2 checks .integer declared⟩

/-- The filter of `p` promises an integer and ends with one, but the call of a method that is missing gives the text that
unknown handling answers with. -/
theorem not_passes_of_due : Reachable Heap.HandlesRemain promisingWorld ∧
    (((resolve (hostWithin Heap.HandlesRemain 5) ⟨4, 0⟩ "missing" {}).exec promisingWorld).bind fun (r, _) =>
      (r.toOption.bind id).map fun found => (found.kind, found.method.kind, found.method.returns)) =
        some (.filter true, .scripted, some .integer) ∧
    (((call (hostWithin Heap.HandlesRemain 8) ⟨4, 0⟩ "missing" [] {}).exec promisingWorld).bind fun (r, x) =>
      r.toOption.map fun value => (value.toText, x.settings.checkResults, x.accepts .integer value)) =
        some ("nobody", true, false) := by
  simp only [hostWithin_eq_hostChecking]
  refine ⟨reachable_promisingWorld, by decide +kernel, by decide +kernel⟩

end DynamicObjects
