import DynamicObjects.Proofs.Runs.Leaving

/-!
# Calls follow their host

Every part of a call, of a creation and of a destruction develops the world on a host that does, and leaves it balanced,
with what is held kept.
-/
namespace DynamicObjects

variable {terms : Terms} {host : Host}

namespace Invocation

/-! ## Implementations -/

theorem steady_assertAll (h : Handle) (method : Method) (predicates : List Predicate) :
    Steady terms host fun k => assertAll k h method predicates := by
  induction predicates with
  | nil => exact Steady.pure _
  | cons p rest ih =>
    unfold assertAll
    refine (Steady.eval .none p.test).bind fun _ => .ite (fun _ => ih) fun _ => ?_
    exact (Steady.lift (.nameOf h)).bind fun _ => .throw _

/-- While assertions are checked, none are checked anew. -/
theorem steady_assertRound (h : Handle) (method : Method) (predicates : List Predicate) : Steady terms host fun k => (do
    modify fun w => { w with assertionDepth := w.assertionDepth + 1 }
    let outcome ← Action.settle (assertAll k h method predicates)
    modify fun w => { w with assertionDepth := w.assertionDepth - 1 }
    Action.resume outcome : Action Unit) := by
  intro w _
  obtain ⟨u, opens⟩ : ∃ u, u = { w with assertionDepth := w.assertionDepth + 1 } := ⟨_, rfl⟩
  have tally : w.Tallied → u.Tallied := fun tallied => opens ▸ ⟨tallied.spent, tallied.tally⟩
  have inside : ∀ task v, Within u u task v → Within w w task v := by
    have stands : PositionsStand Object.positions w u := opens ▸ .of_alike (.refl _) rfl
    refine fun task v further => further.outside ?_ (.inl (.inl stands))
    rw [opens]
    exact ⟨.refl _, le_rfl⟩
  have closes : ∀ v, Poised u v → Poised w { v with assertionDepth := v.assertionDepth - 1 } := by
    intro v poised
    subst opens
    exact ⟨⟨poised.objects, poised.frames, poised.guardDepth, by rw [poised.assertionDepth]; rfl⟩, poised.shelters⟩
  refine Brings.modify_bind (m := Poised u) (fun _ => .of_objects rfl rfl rfl rfl rfl rfl le_rfl) (fun v same => ?_) ?_
  · rw [same, opens]
    exact .refl _
  refine Brings.settle_bind ((Brings.steadily tally (steady_assertAll h method predicates)).outside inside) fun outcome => ?_
  refine Brings.modify_bind (m := Poised w) (fun _ => .of_objects rfl rfl rfl rfl rfl rfl le_rfl) closes ?_
  exact .resume outcome fun v poised => ⟨poised, fun _ _ => trivial⟩

theorem steady_checkAssertions (h : Handle) (method : Method) (phase : Phase) :
    Steady terms host fun k => checkAssertions k h method phase := by
  unfold checkAssertions
  refine Steady.get.bind fun w => .ite (fun _ => Steady.pure _) fun _ => ?_
  cases w.live? h with
  | none => exact Steady.pure _
  | some o =>
    refine (Steady.lift (Deed.of_consults (Consults.along_assertions o method phase))).bind fun predicates => ?_
    exact .ite (fun _ => Steady.pure _) fun _ => steady_assertRound h method predicates

theorem steady_runScript (h : Handle) (method : Method) (parameters : List Parameter) (body : Expr)
    (args : List Value) : Steady terms host fun k => runScript k h method parameters body args := by
  unfold runScript
  refine Steady.get.bind fun w => ?_
  cases Parsing.parse w.accepts parameters args with
  | error fault => exact .throw _
  | ok arguments =>
    refine (steady_checkAssertions h method .before).bind fun _ => (Steady.eval _ body).bind fun result => ?_
    exact (steady_checkAssertions h method .after).bind fun _ => Steady.pure _

theorem steady_ingredient (h : Handle) (name : String) (argument : ForwardArgument) :
    Steady terms host fun k => ingredient k h name argument := by
  induction argument with
  | computed body => exact (Steady.eval _ body).bind fun _ => Steady.pure _
  | placed placement argument ih => exact ih.bind fun _ => Steady.pure _
  | _ => exact Steady.pure _

theorem steady_sendForward (h : Handle) (name : String) (spec : Forward) (args : List Value) :
    Steady terms host fun k => sendForward k h name spec args := by
  unfold sendForward
  cases spec.target with
  | command path => exact Steady.call _ _ _ _
  | receiver =>
    simp only
    split
    · exact Steady.call _ _ _ _
    · exact Steady.call _ _ _ _
  | object target =>
    simp only
    split
    · exact Steady.call _ _ _ _
    · exact Steady.call _ _ _ _

theorem steady_runForward (h : Handle) (name : String) (spec : Forward) (args : List Value) :
    Steady terms host fun k => runForward k h name spec args := by
  unfold runForward
  refine (Follows.mapM (steady_ingredient h name) spec.template).bind fun ingredients => ?_
  refine (Steady.settle (steady_sendForward h name spec _)).bind fun outcome => ?_
  split
  · exact .throw _
  · exact Steady.call _ _ _ _
  · exact Steady.resume _

theorem steady_unknownSubMethod (h container : Handle) (path sub : String) :
    Steady terms host fun _ => unknownSubMethod h container path sub := by
  unfold unknownSubMethod
  refine (Steady.settle (Steady.lift (Deed.of_consults (Consults.along_visibleNames container)))).bind
    fun outcome => ?_
  cases outcome with
  | ok names => exact (Steady.lift (.nameOf h)).bind fun _ => Steady.pure _
  | error f => exact (Steady.lift (.nameOf h)).bind fun _ => Steady.pure _

section frames

variable {w last : World} {tallied : Prop} (tally : tallied → w.Tallied) {h : Handle}
  (spent : tallied → w.objects.Spent h)

include tally spent

theorem brings_runEnsemble (i : Nat) (container : Handle) (args : List Value) (mods : CallModifiers) :
    Brings terms host tallied (Within w last) (Poised w) (fun k => runEnsemble k i h container args mods)
      fun _ => Poised w := by
  have fails : ∀ (e : Failure) v, Poised w v → Poised w v := fun _ _ poised => poised
  unfold runEnsemble
  refine (Brings.steadily tally (Steady.changeFrame i (by intro _; rfl))).bind (fun _ => ?_) fails
  refine (Brings.steadily tally Steady.get).bind (fun u => ?_) fails
  refine (Brings.steadily tally (Steady.lift (Deed.along_subMethod h args mods))).bind (fun meant => ?_) fails
  match meant with
  | none => exact Brings.steadily tally ((steady_unknownSubMethod h container _ _).bind fun _ => .throw _)
  | some (sub, rest) =>
    refine (Brings.steadily tally (Steady.lift (Deed.along_searchObject container sub))).bind (fun found => ?_) fails
    match found with
    | none =>
      refine Brings.steadily tally ((steady_nextFrom i _ false).bind fun result => Steady.get.bind fun u => ?_)
      refine (Steady.changeFrame i (by intro _; rfl)).bind fun _ => .ite (fun _ => ?_) fun _ =>
        Steady.pure _
      exact (steady_unknownSubMethod h container _ sub).bind fun _ => .throw _
    | some (method, definer) =>
      refine (Brings.steadily tally (Steady.lift (.object container))).bind (fun o => .ite (fun _ => ?_) fun _ => ?_) fails
      · exact Brings.steadily tally (Steady.call _ _ _ _)
      refine (Brings.steadily tally (Steady.lift (Deed.along_follow _ method))).bind (fun method => ?_) fails
      -- The frame of a sub-method has no positions.
      refine .of_each fun _ v _ poised => ?_
      have raised : Raised h false false w v := .of_poised poised
      have inside : ∀ frame, Within w last (.run frame method {}) v := fun _ => ⟨poised.inside, nofun⟩
      refine (Brings.perform (.run (subFrame h _ sub method definer rest) method {}) v (inside _) fun known => ?_).mono
        (fun _ same => same) fun _ u ended => raised.poised.trans ended.1
      exact ⟨rfl, raised.tallied_opened (tally known) (spent known) rfl rfl rfl rfl⟩

theorem brings_implement (i : Nat) (method : Method) (args : List Value) (mods : CallModifiers) :
    Brings terms host tallied (Within w last) (Poised w) (fun k => implement k i h method args mods)
      fun _ => Poised w := by
  unfold implement
  cases method.implementation with
  | scripted parameters body => exact Brings.steadily tally (steady_runScript h method parameters body args)
  | native body leaf => exact Brings.steadily tally (Steady.eval _ body)
  | setter p => exact Brings.steadily tally (Steady.lift (Deed.along_runSetter h method.name p args))
  | forward spec => exact Brings.steadily tally (steady_runForward h method.name spec args)
  | ensemble container => exact brings_runEnsemble tally spent i container args mods
  | aliased path => exact Brings.steadily tally (Steady.throw _)

end frames

/-! ## Calls -/

theorem steady_askHandler (h : Handle) (name : String) (args : List Value) :
    Steady terms host fun k => askHandler k h name args := by
  unfold askHandler
  refine Steady.get.bind fun w => ?_
  cases w.unknownHandler with
  | none => exact Steady.pure _
  | some body =>
    refine (Steady.eval _ body).bind fun answer => ?_
    split
    · exact Steady.pure _
    · exact Steady.pure _

theorem steady_answerUnknown (h : Handle) (name : String) (args : List Value) :
    Steady terms host fun k => answerUnknown k h name args := by
  unfold answerUnknown
  refine (steady_askHandler h name args).bind fun answer => ?_
  have fails : Steady terms host fun _ => (do
      throw (.unknown (← Update.nameOf h) name) : Action Value) :=
    (Steady.lift (.nameOf h)).bind fun _ => .throw _
  cases answer with
  | some answer => exact Steady.pure _
  | none =>
    refine Steady.get.bind fun w => ?_
    cases (unknownMethod? w h).filter (· ≠ name) with
    | none => exact fails
    | some unknown =>
      refine (Steady.lift (Deed.along_searchObject h unknown)).bind fun _ => .ite (fun _ => ?_) fun _ => fails
      exact Steady.call _ _ _ _

theorem steady_conclude (frame : Frame) (outcome : Except Failure Value) :
    Steady terms host fun k => conclude k frame outcome := by
  unfold conclude
  refine (Steady.resume outcome).bind fun value => Steady.get.bind fun w => (Steady.resume _).bind fun value => ?_
  exact .ite (fun _ => steady_answerUnknown _ _ _) fun _ => Steady.pure _

variable (terms) in
/-- Letting go of an object takes back that it was held; if nothing is left of the object, that is no matter. An object
that was unlinked either is held still or leaves its slot at once. -/
theorem exec_letGo (h : Handle) (w : World) : ∃ v, (letGo h).exec w = (.ok ⟨⟩, v) ∧ Proceeds terms w v ∧
    Poised { w with objects := w.objects.modify h fun o => { o with holders := o.holders - 1 } } v := by
  obtain ⟨u, lets⟩ : ∃ u, u = { w with
    objects := w.objects.modify h fun o => { o with holders := o.holders - 1 } } := ⟨_, rfl⟩
  have held : (changeHeld h fun o => { o with holders := o.holders - 1 }).exec w = (.ok ⟨⟩, u) := lets ▸ rfl
  have here : u.objects.get? h = (w.objects.get? h).map fun o => { o with holders := o.holders - 1 } := by
    rw [lets, Heap.get?_modify, if_pos rfl]
  unfold letGo
  rw [Update.exec_bind_of_ok held, Update.exec_bind_of_ok (Update.exec_get u), ← lets]
  by_cases due : ((u.objects.get? h).any fun o => o.holders == 0 && o.deleted) = true
  · rw [if_pos due]
    have released : { u with objects := u.objects.release h } = { w with objects := w.objects.release h } := by
      rw [lets, Heap.release_modify]
    obtain ⟨p, found, both⟩ := Option.any_eq_true .. |>.1 due
    have unheld : ∀ q, u.objects.get? h = some q → q.holders = 0 := by
      intro q there
      cases found.symm.trans there
      simp only [Bool.and_eq_true, beq_iff_eq] at both
      exact both.1
    have dead : w.live? h = none := by
      obtain ⟨o, before, rfl⟩ := Option.map_eq_some_iff.1 (here.symm.trans found)
      simp only [Bool.and_eq_true] at both
      simp [World.live?, before, Option.filter, both.2]
    have leaves : Proceeds terms w { u with objects := u.objects.release h } := by
      rw [released]
      exact .single (.release dead (.modify w h (fun _ => rfl) fun o _ => .held o))
    exact ⟨_, rfl, leaves, .of_objects (.release _ _) rfl rfl rfl, .release fun p found => unheld p found⟩
  · rw [if_neg due]
    refine ⟨u, rfl, lets ▸ .single (.aside (.modify w h (fun _ => rfl) fun o before => ?_)), .refl u⟩
    rw [here, before] at due
    refine ⟨id, id, fun orderly => ⟨orderly.1, fun deleted => Nat.pos_of_ne_zero fun none => due ?_⟩⟩
    have unlinked : o.deleted = true := deleted
    simpa [unlinked] using none

/-- An object is let go of on both sides. -/
theorem poised_letGo {v w : World} (poised : Poised v w) (h : Handle) :
    Poised { v with objects := v.objects.modify h fun o => { o with holders := o.holders - 1 } }
      { w with objects := w.objects.modify h fun o => { o with holders := o.holders - 1 } } :=
  poised.modify h (g := fun c => { c with holders := c.holders - 1 }) (fun _ => rfl) rfl (fun _ => rfl)
    fun _ held => held.trans_le (Nat.sub_le ..)

/-- A frame is open, and everything is taken back but the positions pushed for it. -/
theorem letGo_opened (w : World) (frame : Frame) (filter mixin : Bool) :
    let opened := World.lowered { w.opened frame with stack := (w.opened frame).stack.pop } frame.object filter mixin
    { opened with objects := opened.objects.modify frame.object fun o => { o with holders := o.holders - 1 } } =
      w.lowered frame.object filter mixin := by
  simp only [World.opened, World.lowered, Heap.modify_modify, FrameStack.pop, FrameStack.push, List.dropLast_concat]
  rfl

/-- Closing a frame takes back what opening it did, and pops the positions that were pushed for it. -/
theorem brings_close {w : World} {tallied : Prop} (frame : Frame) (tally : tallied → (w.opened frame).Tallied)
    (outcome : Except Failure Value) :
    let closed := w.lowered frame.object frame.pushedFilterPosition frame.pushedMixinPosition
    Brings terms host tallied (Within (w.opened frame) closed) (Poised (w.opened frame)) (fun k => close k outcome)
      fun _ => Poised closed := by
  intro closed
  refine .of_each fun _ u _ opened => ?_
  have innermost : (u.stack.top?).map Frame.settled = some frame.settled := by
    rw [FrameStack.top?, ← List.getLast?_map, opened.frames]
    simp [World.opened, FrameStack.push]
  obtain ⟨top, isTop, same⟩ := Option.map_eq_some_iff.1 innermost
  have object : top.object = frame.object := (congrArg Frame.object same :)
  have filter : top.pushedFilterPosition = frame.pushedFilterPosition := (congrArg Frame.pushedFilterPosition same :)
  have mixin : top.pushedMixinPosition = frame.pushedMixinPosition := (congrArg Frame.pushedMixinPosition same :)
  obtain ⟨c, closes⟩ : ∃ c, c = World.lowered { u with stack := u.stack.pop } top.object top.pushedFilterPosition
    top.pushedMixinPosition := ⟨_, rfl⟩
  have tallyClosed : tallied → c.Tallied := by
    intro known
    rw [closes]
    exact ((tally known).of_balanced opened.toBalanced).pop isTop
  have taken : Poised closed
      { c with objects := c.objects.modify frame.object fun o => { o with holders := o.holders - 1 } } := by
    rw [show closed = _ from (letGo_opened w frame _ _).symm, closes, object, filter, mixin]
    exact poised_letGo (opened.pop.lowered _ _ _) _
  have inside : ∀ task v, Within c c task v → Within (w.opened frame) closed task v := by
    have lowers : Heap.Alike Object.holders u.objects c.objects := closes ▸ .modify _ _ fun _ => rfl
    have calls : c.stack.calls ≤ u.stack.calls := closes ▸ FrameStack.calls_pop_le _
    have stands : PositionsStand Object.positions closed c := by
      refine taken.positionsStand.trans (.of_alike (.symm ?_) rfl)
      exact .modify c.objects frame.object fun _ => rfl
    exact fun task v further => further.outside (opened.inside.trans ⟨.of_alike lowers, calls⟩) (.inr (.inl stands))
  unfold close
  refine Brings.get_bind ?_
  rw [isTop]
  refine Brings.modify_bind (m := (· = { u with stack := u.stack.pop }))
    (fun _ => .of_objects rfl rfl rfl rfl rfl rfl le_rfl) (fun v is => by rw [is]) ?_
  refine Brings.change_bind (m := Poised c) (exec_popPositions _ _ _)
    (fun v => .modify v _ (fun _ => rfl) fun _ _ => .of_fate rfl)
    (fun v is => by rw [is, closes]; exact .refl _) ?_
  refine Brings.settle_bind ((Brings.steadily tallyClosed (steady_conclude top outcome)).outside inside) fun outcome => ?_
  have lets : Brings terms host tallied (Within (w.opened frame) closed) (Poised c)
      (fun _ => (liftM (letGo top.object) : Action Unit)) fun _ => Poised closed := by
    refine .lift (fun v _ => ?_) fun v _ poised => ?_
    · obtain ⟨x, done, path, -⟩ := exec_letGo terms top.object v
      rw [done]
      exact path
    · obtain ⟨x, done, -, last⟩ := exec_letGo terms top.object v
      rw [done]
      rw [object] at last
      exact (taken.trans (poised_letGo poised frame.object)).trans last
  exact lets.bind (fun _ => .resume outcome fun _ met => met) fun _ _ met => met

theorem brings_run (frame : Frame) (method : Method) (mods : CallModifiers) (w : World) :
    let task := Task.run frame method mods
    Brings terms host (task.Tallied w) (Within (task.opened w) (task.closed w)) (· = w) (fun k => run k frame method mods)
      fun _ => Poised (task.closed w) := by
  have spent : (Task.run frame method mods).Tallied w → (w.opened frame).objects.Spent frame.object := by
    rintro ⟨noGuard, tallied⟩
    refine tallied.spent frame ?_ (by simp [Frame.marks, noGuard])
    exact List.mem_append_right _ (List.mem_singleton.2 rfl)
  unfold run
  refine Brings.get_bind ?_
  refine Brings.modify_bind (m := (· = { w with stack := w.stack.push frame }))
    (fun _ => .of_objects rfl rfl rfl rfl rfl rfl le_rfl) (fun v same => by rw [same]) ?_
  refine Brings.changeHeld_bind (m := Poised (w.opened frame)) (by intro _; rfl) .held (fun v same => ?_) ?_
  · subst same
    exact .refl _
  refine Brings.settle_bind (brings_implement (fun known => known.2) spent _ method frame.arguments mods) fun outcome => ?_
  exact brings_close frame (fun known => known.2) outcome

/-- What a search for a call on a live object found is run. -/
theorem brings_found {w : World} (h : Handle) (name : String) (args : List Value) (mods : CallModifiers)
    (spent : w.objects.Spent h) : Brings terms host w.Tallied (Within w w) (Poised w) (fun k => (do
      match ← resolve k h name mods with
      | some resolved => enter k h name resolved args mods
      | none =>
        if mods.noUnknown then throw (.unknown (← Update.nameOf h) name)
        answerUnknown k h name args : Action Value)) fun _ => Poised w := by
  refine (brings_resolve id h name mods).bind (fun found => ?_) fun _ _ poised => poised
  cases found with
  | some resolved =>
    exact .of_each fun _ v _ pushes => brings_enter id name args mods pushes.toRaised spent (.refl w)
  | none =>
    refine Brings.steadily id (.ite (fun _ => ?_) fun _ => steady_answerUnknown h name args)
    exact (Steady.lift (.nameOf h)).bind fun _ => (Steady.throw _).bind fun _ => steady_answerUnknown h name args

theorem steady_call (h : Handle) (name : String) (args : List Value) (mods : CallModifiers) :
    Steady terms host fun k => call k h name args mods := by
  have known : Follows terms host (fun _ => True) (fun _ => (liftM (Update.object h) : Action Object))
      fun _ w => w.objects.Spent h := by
    refine .lift (fun w _ _ => Update.Along.object h w) fun w o v _ done => ?_
    obtain ⟨live, rfl⟩ := Update.exec_object_eq_ok done
    exact Heap.spent_of_get? (World.live?_eq_some_iff.1 live).1
  have rest : Steady terms host fun k => (do
      let _ ← Update.object h
      match ← resolve k h name mods with
      | some resolved => enter k h name resolved args mods
      | none =>
        if mods.noUnknown then throw (.unknown (← Update.nameOf h) name)
        answerUnknown k h name args : Action Value) := by
    refine known.bind fun _ w spent => ?_
    refine (brings_found h name args mods spent).mono (fun v same => ?_) fun _ _ met => ⟨met, fun _ _ => trivial⟩
    rw [same]
    exact .refl w
  unfold call
  exact Steady.get.bind fun w => .ite (fun _ => (Steady.throw _).bind fun _ => rest) fun _ => rest

end Invocation

namespace Lifecycle

/-! ## Destruction -/

/-- A destroy method is called once; an object that may leave may do so afterwards. -/
theorem maintains_callDestroy (h : Handle) : Maintains terms host (Leaving terms h) fun k => callDestroy k h := by
  unfold callDestroy
  refine (Maintains.idle (Deed.along_changeObject h (by intro _; rfl) (by intro _; rfl) .destroyCalled)
    (Idle.along_changeObject h (by intro _; rfl))).bind fun _ => (Maintains.systemOf h).bind fun system => ?_
  cases system.methods.destroy with
  | none => exact .pure _
  | some destroy =>
    refine (Maintains.idle (Deed.along_implements h destroy) (Idle.along_implements h destroy)).bind fun _ =>
      .ite (fun _ => ?_) fun _ => .pure _
    exact (Maintains.call _ _ _ _).settle.bind fun _ => .pure _

/-- What was no root before its destroy method ran is none afterwards, as its handle is not given out again. -/
theorem exists_live_of_present {h : Handle} {v w : World} {o : Object} (remain : ∀ a, terms.good a → a.HandlesRemain)
    (proper : Proper v) (live : v.live? h = some o) (root : o.isRoot = false) (path : Develops terms v w)
    (here : isGone w h = false) : ∃ p, w.live? h = some p ∧ p.isRoot = false := by
  unfold isGone at here
  cases found : w.objects.get? h with
  | none => simp [found] at here
  | some p =>
    simp only [found, Option.all_some, Bool.or_eq_false_iff] at here
    obtain ⟨q, before, same⟩ := (proper.persists_of_evolves remain path.evolves).before h p
      (Heap.spent_of_get? (World.live?_eq_some_iff.1 live).1) found
    rw [(World.live?_eq_some_iff.1 live).1] at before
    cases before
    exact ⟨p, World.live?_eq_some_iff.2 ⟨found, here.2⟩, same.symm.trans root⟩

/-- The last part of a destruction, after the destroy method has run. -/
private theorem follows_unlinkRest {h : Handle} {w : World} {o : Object} (remain : ∀ a, terms.good a → a.HandlesRemain)
    (proper : Proper w) (live : w.live? h = some o) (root : o.isRoot = false) (outcome : Except Failure Unit) :
    Follows terms host (fun v => Proceeds terms w v ∧ Leaving terms h v) (fun _ => (do
      unless isGone (← get) h do unlink h
      Action.resume outcome : Action Unit)) fun _ _ => True := by
  refine Follows.get.bind fun u => .ite (fun _ => Steady.resume outcome) fun present => ?_
  have unlinks : Follows terms host (fun v => u = v ∧ Proceeds terms w v ∧ Leaving terms h v)
      (fun _ => liftM (unlink h)) fun _ _ => True := by
    refine .lift (fun v _ ⟨same, path, leaving⟩ => ?_) fun _ _ _ _ _ => trivial
    subst same
    obtain ⟨p, live', root'⟩ := exists_live_of_present remain proper live root path.develops (Bool.not_eq_true _ ▸ present)
    exact .single (.unlink h live' root' leaving)
  exact unlinks.bind fun _ => Steady.resume outcome

/-- An object that may leave is destroyed. -/
theorem follows_destroy (h : Handle) : Follows terms host (Leaving terms h) (fun k => destroy k h) fun _ _ => True := by
  have known : Follows terms host (Leaving terms h) (fun _ => (liftM (Update.object h) : Action Object))
      fun o v => v.live? h = some o ∧ Leaving terms h v := by
    refine .lift (fun w _ _ => Update.Along.object h w) fun w o v leaving done => ?_
    obtain ⟨live, rfl⟩ := Update.exec_object_eq_ok done
    exact ⟨live, leaving⟩
  unfold destroy
  refine known.bind fun o => .ite (fun _ => ?_) fun root => ?_
  · exact (Steady.never _).bind fun _ => .absurd fun _ no => no
  refine .ite (fun _ => Steady.pure _) fun _ => .of_each fun faithful w proper ⟨live, leaving⟩ => ?_
  have start : ∀ v, v = w → Proceeds terms w v ∧ Leaving terms h v := by
    rintro v rfl
    exact ⟨.refl, leaving⟩
  have rest (outcome : Except Failure Unit) : Follows terms host _ _ _ :=
    follows_unlinkRest faithful.remain proper live (Bool.not_eq_true _ ▸ root) outcome
  refine .ite (fun _ => ?_) fun _ => ?_
  · have early : Follows terms host (· = w) (fun _ => (pure (.ok ()) : Action (Except Failure Unit)))
        fun _ v => Proceeds terms w v ∧ Leaving terms h v := .pure _ start
    exact early.bind rest
  · exact ((maintains_callDestroy h).developed.follows.mono start fun _ _ both => both).bind rest

/-- Without care, everything may leave. -/
theorem steady_destroy {good : Objects → Prop} (h : Handle) : Steady ⟨good, False⟩ host fun k => destroy k h :=
  (follows_destroy h).mono (fun _ _ => False.elim) fun _ _ _ => trivial

/-! ## Creation -/

private theorem follows_initialize (h : Handle) (init : String) (args : List Value) :
    Follows terms host (Leaving terms h) (fun k => (do
      match ← Action.settle (k.call h init args { ignorePermissions := true }) with
      | .ok _ => return ()
      | .error f =>
        let _ ← Action.settle (destroy k h)
        throw f : Action Unit)) fun _ _ => True := by
  refine (Maintains.call h init args _).settle.follows.bind fun outcome => ?_
  cases outcome with
  | ok value => exact Steady.pure _
  | error f => exact (Steady.settle (follows_destroy h)).bind fun _ => Steady.throw f

/-- An object may leave while it is initialised: it does if that fails. -/
theorem follows_callInit (h : Handle) (args : List Value) :
    Follows terms host (Leaving terms h) (fun k => callInit k h args) fun _ _ => True := by
  unfold callInit
  refine (Maintains.systemOf h).follows.bind fun system => ?_
  cases system.methods.init with
  | none => exact Steady.pure _
  | some init =>
    refine (Maintains.idle (Deed.along_implements h init) (Idle.along_implements h init)).follows.bind fun _ => ?_
    exact .ite (fun _ => follows_initialize h init args) fun _ => Steady.pure _

/-- Where the heap is good, classes are created. -/
theorem follows_createClass (name : String) (metaclass : Handle) (supers : List Handle) (args : List Value) :
    Follows terms host (fun w => terms.good w.objects) (fun k => createClass k name metaclass supers args)
      fun _ _ => True := by
  have enrolls : Follows terms host (fun w => terms.good w.objects) (fun _ => liftM (enrollClass name metaclass supers))
      fun h v => Leaving terms h v := by
    refine .of_each fun faithful w proper permits => .lift (fun v _ same => ?_) fun v h t same done => ?_
    · exact .single (.enrollClass name metaclass supers (same ▸ permits))
    · exact leaving_enrollClass (same ▸ proper) (same ▸ (faithful.remain _ permits).hasRoom) done
  unfold createClass
  exact enrolls.bind fun h => (follows_callInit h args).bind fun _ => Steady.pure _

/-- An object can be enrolled at `cls` under a name. -/
private def Enrollable (terms : Terms) (cls : Handle) (name : String) (w : World) : Prop :=
  terms.good w.objects ∧ w.isClass cls = true ∧ w.names.get? name = none

private theorem follows_enrollObject (cls : Handle) (args : List Value) (name : String) :
    Follows terms host (Enrollable terms cls name) (fun k => (do
      if ← Update.isMetaclass cls then createClass k name cls [] args
      else
        let h ← enroll (.ofClass name cls (← Update.object cls).system)
        callInit k h args
        return h : Action Handle)) fun _ _ => True := by
  have asked : Follows terms host (Enrollable terms cls name) (fun _ => (liftM (Update.isMetaclass cls) : Action Bool))
      fun isMeta v => isMeta = v.isMetaclass cls ∧ Enrollable terms cls name v := by
    refine .lift (fun w _ _ => Update.Along.isMetaclass cls w) fun w isMeta v met done => ?_
    rw [Update.exec_isMetaclass] at done
    cases done
    exact ⟨rfl, met⟩
  refine asked.bind fun isMeta => .ite (fun _ => ?_) fun plain => ?_
  · exact (follows_createClass name cls [] args).mono (fun _ met => met.2.1) fun _ _ _ => trivial
  have known : Follows terms host (fun v => isMeta = v.isMetaclass cls ∧ Enrollable terms cls name v)
      (fun _ => (liftM (Update.object cls) : Action Object))
      fun o v => v.live? cls = some o ∧ v.isMetaclass cls = false ∧ Enrollable terms cls name v := by
    refine .lift (fun w _ _ => Update.Along.object cls w) fun w o v ⟨same, met⟩ done => ?_
    obtain ⟨live, rfl⟩ := Update.exec_object_eq_ok done
    exact ⟨live, same ▸ Bool.not_eq_true _ ▸ plain, met⟩
  refine known.bind fun c => ?_
  have enrolls : Follows terms host
      (fun v => v.live? cls = some c ∧ v.isMetaclass cls = false ∧ Enrollable terms cls name v)
      (fun _ => liftM (enroll (.ofClass name cls c.system))) fun h v => Leaving terms h v := by
    refine .of_each fun faithful w proper ⟨live, plain, permits, isClass, free⟩ =>
      .lift (fun v _ same => ?_) fun v h t same done => ?_
    · subst same
      rw [World.isClass, live] at isClass
      exact .single (.enroll name cls permits live isClass free fun _ => plain)
    · subst same
      exact leaving_enroll proper (faithful.remain _ permits).hasRoom live isClass free done
  exact enrolls.bind fun h => (follows_callInit h args).bind fun _ => Steady.pure _

private theorem follows_claimName (cls : Handle) (name : String) :
    Follows terms host (fun w => terms.good w.objects ∧ w.isClass cls = true)
      (fun _ => (liftM (claimName name) : Action String)) fun n => Enrollable terms cls n := by
  refine .lift (fun w _ _ => ?_) fun w n v met done => ?_
  · rcases exec_claimName name w with ⟨e, failed⟩ | ⟨claimed, -⟩
    · rw [failed]
    · rw [claimed]
  · rcases exec_claimName name w with ⟨e, failed⟩ | ⟨claimed, free⟩
    · rw [failed] at done
      cases done
    · rw [claimed] at done
      cases done
      exact ⟨met.1, met.2, free⟩

private theorem follows_freshName (cls : Handle) :
    Follows terms host (fun w => terms.good w.objects ∧ w.isClass cls = true)
      (fun _ => (liftM freshName : Action String)) fun n => Enrollable terms cls n := by
  refine .lift (fun w _ _ => ?_) fun w n v met done => ?_
  · obtain ⟨n, counters, fresh, -⟩ := exec_freshName w
    rw [fresh]
    exact .single (.aside (.of_objects rfl rfl rfl rfl rfl rfl le_rfl rfl rfl rfl))
  · obtain ⟨n, counters, fresh, free⟩ := exec_freshName w
    rw [fresh] at done
    cases done
    exact ⟨met.1, met.2, free⟩

/-- Where the heap is good, objects are created. -/
theorem follows_createObject (cls : Handle) (name : Option String) (args : List Value) :
    Follows terms host (fun w => terms.good w.objects) (fun k => createObject k cls name args) fun _ _ => True := by
  unfold createObject
  refine Follows.get.bind fun w => .ite (fun isClass => ?_) fun _ => ?_
  · have entry : ∀ v, w = v ∧ terms.good v.objects → terms.good v.objects ∧ v.isClass cls = true :=
      fun v ⟨same, permits⟩ => ⟨permits, same ▸ isClass⟩
    cases name with
    | some name =>
      exact ((follows_claimName cls name).mono entry fun _ _ met => met).bind (follows_enrollObject cls args)
    | none => exact ((follows_freshName cls).mono entry fun _ _ met => met).bind (follows_enrollObject cls args)
  · refine (Steady.lift (.nameOf cls)).bind fun _ => (Steady.never _).bind fun _ => ?_
    exact .absurd fun _ no => no

end Lifecycle

end DynamicObjects
