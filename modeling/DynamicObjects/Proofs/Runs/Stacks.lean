import DynamicObjects.Proofs.Runs.Marks

/-!
# What all stacks have in common

Frames are opened for guards and for what searches found, and on top of an ensemble for its sub-method; otherwise they are
only marked, and closed from the top. Searches come to guards and filters only if no guard is open, or on the way from a
filter to the next one. What holds of no frames and is kept by these steps holds wherever code runs.
-/
namespace DynamicObjects

open Invocation

namespace World

variable {v w : World}

/-- The world in which a guard for a call of `name` on `h` is evaluated. -/
def guarded (w : World) (h : Handle) (name : String) : World :=
  { w with
    stack := w.stack.push { object := h, methodName := name, isGuard := true }
    guardDepth := w.guardDepth + 1 }

/-- Guards may be evaluated, and filters come to: no guard is open, or a filter is in reach of next calls. -/
def Filters (w : World) : Prop :=
  w.guardDepth = 0 ∨ ∃ i f, w.stack.InReach i ∧ w.stack.get? i = some f ∧ f.kind.isFilter = true

theorem Filters.marked (filters : v.Filters) (marked : FramesMarked v w) : w.Filters := by
  refine filters.imp marked.guardDepth.trans fun ⟨i, f, reach, here, filter⟩ => ?_
  have same := marked.stack.get?_atRest i
  rw [here] at same
  obtain ⟨g, here', rest⟩ := Option.map_eq_some_iff.1 same
  have kind : g.atRest.kind = f.atRest.kind := congrArg Frame.kind rest
  refine ⟨i, g, (FrameStack.inReach_iff_of_seats marked.stack.seats).2 reach, here', ?_⟩
  exact (congrArg (·.isFilter) kind).trans filter

/-- A filter that runs a next call is still a filter. -/
theorem filters_offTo {i : Nat} {f : Frame} (reach : w.stack.InReach i) (here : w.stack.get? i = some f)
    (filter : f.kind.isFilter = true) : (offTo i f.kind w).Filters := by
  refine .inr ⟨i, { f with runsNext := true, kind := f.kind.deactivated }, ?_, ?_, ?_⟩
  · exact (FrameStack.inReach_iff_of_seats (Marking.beginsNext here)).2 reach
  · rw [offTo, FrameStack.get?_modify, if_pos rfl, here]
    rfl
  · exact f.kind.isFilter_deactivated.trans filter

end World

/-- A frame may be opened on others: the frames of mixins and filters show, and a call pushed the position of a filter, or a
next call comes to it from another filter of the same call. -/
structure FrameStack.ComesTo (s : FrameStack) (f : Frame) : Prop where
  mixin : f.kind.isMixin = true → f.visible = true
  filter : f.kind.isFilter = true → f.visible = true ∧ (f.pushedFilterPosition = true ∨
    ∃ i above, s.get? i = some above ∧ above.kind.isFilter = true ∧ above.object = f.object ∧ above.called = f.called)

/-- What is kept inside of tasks: when frames in reach are marked, when a frame runs a next call or an ensemble, and when a
guard is opened where guards may be evaluated. -/
structure World.KeptInside (holds : World → Prop) : Prop where
  marked : ∀ {v w : World}, FramesMarked v w → holds v → holds w
  passing : ∀ {w : World} {i above}, w.stack.get? i = some above → holds w → holds (offTo i above.kind w)
  distributing : ∀ {w : World} {f}, holds (w.opened f) → holds (w.opened { f with runsEnsemble := true })
  guarded : ∀ {w : World} {h name}, w.Filters → holds w → holds (w.guarded h name)

/-- What holds of worlds without frames, and is kept inside of tasks and when they open a frame: for a filter where filters
may be come to, on top of an ensemble for the sub-method that it means, anywhere for everything else. -/
structure World.Kept (holds : World → Prop) : Prop extends World.KeptInside holds where
  start : ∀ {w : World}, w.stack = {} → w.guardDepth = 0 → holds w
  opened : ∀ {w : World} {f}, f.kind ≠ .ensemble → f.isGuard = false → (f.kind.isFilter = true → w.Filters) →
    w.stack.ComesTo f → holds w → holds (w.opened f)
  subOpened : ∀ {w : World} {top name rest path method definer mods u v}, w.stack.top? = some top →
    top.runsEnsemble = true → (subMethod top.object top.arguments mods).exec u = (.ok (some (name, rest)), v) → holds w →
      holds (w.opened (subFrame top.object path name method definer rest))

/-- What holds of no frames, and is kept by all that happens to frames, wherever these are opened. -/
structure FrameStack.Kept (holds : FrameStack → Prop) : Prop where
  start : holds {}
  marked : ∀ {s t : FrameStack}, Marking s t → holds s → holds t
  passing : ∀ {s : FrameStack} {i above}, s.get? i = some above → holds s →
    holds (s.modify i fun f => { f with runsNext := true, kind := above.kind.deactivated })
  distributing : ∀ {s : FrameStack} {f}, holds (s.push f) → holds (s.push { f with runsEnsemble := true })
  opened : ∀ {s : FrameStack} {f}, f.kind ≠ .ensemble → s.ComesTo f → holds s → holds (s.push f)
  subOpened : ∀ {s : FrameStack} {top name rest path method definer mods w u}, s.top? = some top → top.runsEnsemble = true →
    (subMethod top.object top.arguments mods).exec w = (.ok (some (name, rest)), u) → holds s →
      holds (s.push (subFrame top.object path name method definer rest))

theorem FrameStack.Kept.ofWorld {holds : FrameStack → Prop} (keeps : FrameStack.Kept holds) :
    World.Kept fun w => holds w.stack where
  start empty _ := empty ▸ keeps.start
  marked marked := keeps.marked marked.stack
  passing := keeps.passing
  distributing := keeps.distributing
  guarded _ := keeps.opened nofun ⟨nofun, nofun⟩
  opened single _ _ := keeps.opened single
  subOpened := keeps.subOpened

/-- A task begins in its place, in a world of which `holds` is true, and which stays true when the task opens a frame. -/
structure Task.Begins (holds : World → Prop) (task : Task) (w : World) : Prop where
  seated : task.Seated w.stack
  before : holds w
  opened : holds (task.opened w)

/-- Inside of tasks `holds` is kept, and where it is true, tasks are asked for of which `begins` is true: evaluations and
calls, runs of filters where these may be come to, runs of sub-methods on top of their ensembles, and all other runs. -/
structure World.Asks (holds : World → Prop) (begins : Task → World → Prop) : Prop extends World.KeptInside holds where
  plainly : ∀ {w : World} {task}, (∀ frame method mods, task ≠ .run frame method mods) → holds w → begins task w
  opened : ∀ {w : World} {f method mods}, f.kind ≠ .ensemble → f.isGuard = false → (f.kind.isFilter = true → w.Filters) →
    w.stack.ComesTo f → holds w → begins (.run f method mods) w
  subOpened : ∀ {w : World} {top name rest path method definer mods u v}, w.stack.top? = some top →
    top.runsEnsemble = true → (subMethod top.object top.arguments mods).exec u = (.ok (some (name, rest)), v) → holds w →
      begins (.run (subFrame top.object path name method definer rest) method {}) w

/-- Where `holds` is kept by every step, tasks begin in their places. -/
theorem World.Kept.asks {holds : World → Prop} (keeps : World.Kept holds) :
    World.Asks holds fun task w => task.Begins holds w where
  toKeptInside := keeps.toKeptInside
  plainly {w task} single kept := by
    cases task with
    | run frame method mods => exact absurd rfl (single frame method mods)
    | eval => exact ⟨trivial, kept, kept⟩
    | call => exact ⟨trivial, kept, kept⟩
  opened single noGuard filters comes kept :=
    ⟨(absurd · single), kept, keeps.opened single noGuard filters comes kept⟩
  subOpened last container means kept :=
    ⟨fun _ => ⟨_, last, container⟩, kept, keeps.subOpened last container means kept⟩

/-- Of whatever an action needs of its host that begins in `w`, `begins` is true where it begins. -/
def Shows {α : Type} (begins : Task → World → Prop) (host : Host) (w : World) (f : Host → Action α) : Prop :=
  ∀ sub v, Needs host f w sub v → begins sub v

namespace Shows

variable {α β : Type} {begins : Task → World → Prop} {host : Host} {v w : World} {f : Host → Action α}

theorem const (a : Action α) : Shows begins host w fun _ => a :=
  fun _ _ needs => absurd needs Needs.not_const

/-- What is the same on all hosts shows nothing. -/
theorem of_same (same : ∀ j k : Host, (f j).exec w = (f k).exec w) : Shows begins host w f :=
  fun _ _ ⟨other, _, differs⟩ => absurd (same other host) differs

theorem of_eq {g : Host → Action α} (shows : Shows begins host v g) (same : ∀ k, (f k).exec w = (g k).exec v) :
    Shows begins host w f :=
  fun sub x needs => shows sub x (needs.of_eq same)

theorem bind {g : Host → α → Action β} (first : Shows begins host w f)
    (rest : ∀ a v, (f host).exec w = some (.ok a, v) → Shows begins host v fun k => g k a) :
    Shows begins host w fun k => f k >>= g k := by
  intro sub x needs
  obtain here | ⟨a, v, done, onward⟩ := needs.of_bind
  · exact first sub x here
  · exact rest a v done sub x onward

/-- Behind a part of which it matters how it leaves the frames. -/
theorem after {R : World → World → Prop} {g : Host → α → Action β} (first : Shows begins host w f)
    (moves : (f host).Moves R) (rest : ∀ a v, R w v → Shows begins host v fun k => g k a) :
    Shows begins host w fun k => f k >>= g k :=
  first.bind fun a v done => rest a v (moves _ _ _ done)

/-- Behind an update that leaves the frames as they are. -/
theorem after_update {u : Update α} {g : Host → α → Action β} (level : u.Along Level)
    (rest : ∀ a v, Level w v → Shows begins host v fun k => g k a) :
    Shows begins host w fun k => (liftM u : Action α) >>= g k :=
  (const _).after (.lift (fun _ _ => id) level) rest

theorem settle (part : Shows begins host w f) : Shows begins host w fun k => Action.settle (f k) :=
  fun sub v needs => part sub v needs.of_settle

theorem settle_bind {g : Host → Except Failure α → Action β} (first : Shows begins host w f)
    (rest : ∀ r v, (f host).exec w = some (r, v) → Shows begins host v fun k => g k r) :
    Shows begins host w fun k => Action.settle (f k) >>= g k := by
  intro sub x needs
  obtain here | ⟨r, v, done, onward⟩ := needs.of_settle_bind
  · exact first sub x here
  · exact rest r v done sub x onward

theorem ite {c : Prop} [Decidable c] {g : Host → Action α} (yes : c → Shows begins host w f)
    (no : ¬c → Shows begins host w g) : Shows begins host w fun k => if c then f k else g k := by
  by_cases may : c
  · simpa only [if_pos may] using yes may
  · simpa only [if_neg may] using no may

theorem perform (task : Task) (here : begins task w) : Shows begins host w (·.perform task) := by
  intro sub v needs
  obtain ⟨rfl, rfl⟩ := needs.of_perform
  exact here

end Shows

/-! ## Searches while a guard is open -/

namespace Invocation

variable {α : Type} {begins : Task → World → Prop} {host : Host} {v w : World} {h : Handle} {name : String}
  {mods : CallModifiers} {mixins : List Mixin}

/-- While a guard is open, calls start with no filter. -/
theorem exec_resolve_of_guarded (guarded : w.guardDepth ≠ 0) (k : Host) : (resolve k h name mods).exec w =
    (if !interceptable name mods then liftM (resolvePlain h name mods)
      else liftM (Interception.mixinOrder h) >>= resolveUnfiltered k h name mods : Action (Option Resolved)).exec w := by
  have unfiltered : (firstFilter k h).exec w = some (.ok none, w) := by
    unfold firstFilter
    rw [Action.exec_bind_of_ok (Action.exec_get w), beq_false_of_ne guarded, Bool.and_false, Bool.false_and,
      if_neg Bool.false_ne_true]
    rfl
  unfold resolve
  by_cases simple : interceptable name mods = true
  · rw [simple]
    exact Action.exec_bind_of_ok unfiltered _
  · rw [Bool.not_eq_true] at simple
    rw [simple]
    rfl

/-- While a guard is open, the guards of mixins are passed over. -/
theorem exec_searchMixins_of_guarded (guarded : w.guardDepth ≠ 0) (j k : Host) :
    (searchMixins j h name mixins).exec w = (searchMixins k h name mixins).exec w := by
  induction mixins with
  | nil => rfl
  | cons m rest ih =>
    unfold searchMixins
    rw [Action.exec_bind_of_ok (Action.exec_get w), Action.exec_bind_of_ok (Action.exec_get w)]
    cases ((w.objects.class? m.target).bind (·.methods.get? name)).filter (!·.isPrivate) with
    | none => exact ih
    | some method =>
      have passed : ∀ k, (passes k h name none).exec w = some (.ok true, w) := fun _ => rfl
      simp only [if_neg guarded]
      rw [Action.exec_bind_of_ok (passed j), Action.exec_bind_of_ok (passed k), if_pos rfl, if_pos rfl]

theorem exec_resolveUnfiltered_of_guarded (guarded : w.guardDepth ≠ 0) (j k : Host) :
    (resolveUnfiltered j h name mods mixins).exec w = (resolveUnfiltered k h name mods mixins).exec w := by
  unfold resolveUnfiltered
  rw [Action.exec_bind, Action.exec_bind, exec_searchMixins_of_guarded guarded j k]

/-- While a guard is open, the host takes no part in finding what is called. -/
theorem exec_resolve_same_of_guarded (guarded : w.guardDepth ≠ 0) (j k : Host) :
    (resolve j h name mods).exec w = (resolve k h name mods).exec w := by
  rw [exec_resolve_of_guarded guarded, exec_resolve_of_guarded guarded]
  split
  · rfl
  · rw [Action.exec_bind, Action.exec_bind, Action.exec_liftM, Option.bind_some, Option.bind_some]
    have level := Level.of_along (Level.of_deeds (Deed.along_mixinOrder h)) w
    cases ordered : (Interception.mixinOrder h).exec w with
    | mk r v =>
      rw [ordered] at level
      cases r with
      | error => rfl
      | ok mixins => exact exec_resolveUnfiltered_of_guarded (level.guardDepth ▸ guarded) j k

theorem shows_continueUnfiltered_of_guarded (guarded : w.guardDepth ≠ 0) (frame : Frame) (state : SearchState) :
    Shows begins host w fun k => continueUnfiltered k frame state := by
  unfold continueUnfiltered
  refine .after_update .get fun w' v level => .ite (fun _ => .bind ?_ fun found x _ => ?_) fun _ => .const _
  · refine .after_update (Level.of_deeds (Deed.along_mixinOrder frame.object)) fun order x level' => ?_
    refine .after_update .get fun w' y level'' => ?_
    have still : y.guardDepth ≠ 0 := by
      rwa [level''.guardDepth, level'.guardDepth, level.guardDepth]
    refine .bind (.of_same (exec_searchMixins_of_guarded still)) fun found z _ => ?_
    cases found with
    | none => exact .const _
    | some found => exact .const _
  · cases found with
    | none => exact .const _
    | some resolved => exact .const _

/-- A filter that a call starts with was found where filters may be come to. -/
theorem filters_of_resolve {resolved : Resolved} (found : (resolve host h name mods).exec w = some (.ok (some resolved), v))
    (filter : resolved.kind.isFilter = true) : w.Filters := by
  refine .inl (by_contra fun guarded => ?_)
  rw [exec_resolve_of_guarded guarded] at found
  have plain : (resolvePlain h name mods).Yields (OfKind (·.isFilter = false)) := kind_resolvePlain rfl
  have mixed : ∀ mixins, (resolveUnfiltered host h name mods mixins).Yields (OfKind (·.isFilter = false)) :=
    kind_resolveUnfiltered rfl rfl
  have noFilter := Action.Yields.ite (fun _ => .lift plain) (fun _ => .bind mixed) _ _ _ found resolved rfl
  exact Bool.false_ne_true (noFilter.symm.trans filter)

/-- Where a call starts with a filter, the position of the filter was pushed. -/
theorem pushed_of_resolve {resolved : Resolved} (found : (resolve host h name mods).exec w = some (.ok (some resolved), v))
    (filter : resolved.kind.isFilter = true) : resolved.pushedFilterPosition = true := by
  have unfiltered : ∀ found, OfKind (·.isFilter = false) found →
      ∀ r, found = some r → r.kind.isFilter = true → r.pushedFilterPosition = true :=
    fun found noFilter r same filter => absurd ((noFilter r same).symm.trans filter) Bool.false_ne_true
  have plain : (resolvePlain h name mods).Yields (OfKind (·.isFilter = false)) := kind_resolvePlain rfl
  have mixed : ∀ mixins, (resolveUnfiltered host h name mods mixins).Yields (OfKind (·.isFilter = false)) :=
    kind_resolveUnfiltered rfl rfl
  have pushed : (resolve host h name mods).Yields fun found =>
      ∀ r, found = some r → r.kind.isFilter = true → r.pushedFilterPosition = true := by
    unfold resolve
    refine .ite (fun _ w v found done => unfiltered found (Action.Yields.lift plain w v found done)) fun _ => ?_
    refine .bind fun entry => .bind fun mixins => ?_
    cases entry with
    | some entry =>
      refine .bind fun _ => .ite (fun _ => .bind fun _ => .pure ?_) fun _ => .pure ?_
      all_goals
        intro r same _
        cases same
        rfl
    | none => exact fun w v found done => unfiltered found (mixed mixins w v found done)
  exact pushed _ _ _ found resolved rfl filter

end Invocation

section shows

variable {α : Type} {holds : World → Prop} {begins : Task → World → Prop} {host : Host} {w : World} {f : Host → Action α}
  {speaks passes : Prop} (keeps : World.Asks holds begins) (marks : host.Marks)

include keeps

theorem World.Asks.level {v : World} (level : Level w v) (kept : holds w) : holds v :=
  keeps.marked (.of_level level) kept

/-- Evaluations and calls open no frame themselves. -/
theorem Shows.plainly (task : Task) (single : ∀ frame method mods, task ≠ .run frame method mods) (kept : holds w) :
    Shows begins host w (·.perform task) :=
  perform task (keeps.plainly single kept)

/-- A guard is evaluated in a frame of its own. -/
theorem Invocation.shows_evalGuard (h : Handle) (name : String) (guard : Predicate) (filters : w.Filters) (kept : holds w) :
    Shows begins host w fun k => evalGuard k h name guard := by
  refine .bind (.const _) fun _ v opens => ?_
  cases opens
  refine .settle_bind ?_ fun _ _ _ => .const _
  exact .plainly keeps (.eval .none guard.test) (by intro _ _ _; nofun) (keeps.guarded filters kept)

include marks

/-- What is put together of parts shows what its parts do. -/
theorem Composed.shows (composed : Composed speaks passes f)
    (goesOn : passes → ∀ args v, holds v → Shows begins host v fun k => Invocation.next k args)
    (filters : ¬speaks → w.Filters) (kept : holds w) : Shows begins host w f := by
  induction composed generalizing w with
  | update => exact .const _
  | bind first _ ihFirst ihRest =>
    refine (ihFirst filters kept).after (marks.marking_of_next marks.next first) fun a v marked => ?_
    exact ihRest a (fun searches => (filters searches).marked marked) (keeps.marked marked kept)
  | settle _ ih => exact .settle (ih filters kept)
  | guard searches h name guard => exact shows_evalGuard keeps h name guard (filters searches) kept
  | eval may surroundings e => exact .plainly keeps (.eval surroundings e) (by intro _ _ _; nofun) kept
  | call may h name args mods => exact .plainly keeps (.call h name args mods) (by intro _ _ _; nofun) kept
  | next may args => exact goesOn may args w kept

theorem Composed.shows_of_speaks (composed : Composed True False f) (kept : holds w) : Shows begins host w f :=
  composed.shows keeps marks False.elim (absurd trivial) kept

theorem Composed.shows_of_filters (composed : Composed False False f) (filters : w.Filters) (kept : holds w) :
    Shows begins host w f :=
  composed.shows keeps marks False.elim (fun _ => filters) kept

namespace Invocation

theorem shows_resolve (h : Handle) (name : String) (mods : CallModifiers) (kept : holds w) :
    Shows begins host w fun k => resolve k h name mods := by
  by_cases guarded : w.guardDepth = 0
  · exact (composed_resolve h name mods).shows_of_filters keeps marks (.inl guarded) kept
  · exact .of_same (exec_resolve_same_of_guarded guarded)

/-- Behind a filter other filters are searched, and their guards evaluated. -/
theorem shows_continuation (frame : Frame) (filters : frame.kind.isFilter = true → w.Filters) (kept : holds w) :
    Shows begins host w fun k => continuation k frame := by
  have searches := @composed_continuation False frame
  -- While a guard is open, further ones are evaluated only on the way from a filter to the next, which does not test for it.
  by_cases guarded : w.guardDepth = 0
  · exact searches.shows_of_filters keeps marks (.inl guarded) kept
  · by_cases filter : frame.kind.isFilter = true
    · exact searches.shows_of_filters keeps marks (filters filter) kept
    · unfold continuation
      simp only [if_neg filter]
      exact (shows_continueUnfiltered_of_guarded guarded frame _).bind fun _ _ _ => .const _

omit marks in
/-- What a search found runs in a frame on those there are. -/
theorem shows_enter (h : Handle) (called : String) {resolved : Resolved} (single : resolved.kind ≠ .ensemble)
    (filters : resolved.kind.isFilter = true → w.Filters) (comes : resolved.kind.isFilter = true →
      resolved.pushedFilterPosition = true ∨ ∃ i above, w.stack.get? i = some above ∧ above.kind.isFilter = true ∧
        above.object = h ∧ above.called = called) (args : List Value) (mods : CallModifiers) (kept : holds w) :
    Shows begins host w fun k => enter k h called resolved args mods := by
  have follows : (Action.settle (liftM (Definition.followAliases resolved.method) : Action Method)).Moves Level :=
    (Host.Marks.still_lift (Level.of_deeds (Deed.along_follow _ _))).settle
  refine .after (.const _) follows fun followed v level => ?_
  cases followed with
  | ok method =>
    have kept := keeps.level level kept
    have marked := FramesMarked.of_level level
    have shows : resolved.kind ≠ .plain → (frameFor h called resolved method args mods).visible = true := by
      intro intercepts
      simp [frameFor, intercepts]
    refine .perform (.run (frameFor h called resolved method args mods) method mods) ?_
    refine keeps.opened single rfl (fun filter => (filters filter).marked marked)
      ⟨fun mixin => shows ?_, fun filter => ⟨shows ?_, ?_⟩⟩ kept
    · intro plain
      rw [frameFor, plain] at mixin
      cases mixin
    · intro plain
      rw [frameFor, plain] at filter
      cases filter
    · rw [level.stack]
      exact comes filter
  | error f => exact .const _

/-- A next call runs what is found behind a frame, which is marked meanwhile. -/
theorem shows_nextFrom {i : Nat} (reach : w.stack.InReach i) (args : Option (List Value)) (fromSub : Bool)
    (kept : holds w) : Shows begins host w fun k => nextFrom k i args fromSub := by
  cases here : w.stack.get? i with
  | none =>
    refine .of_same fun j k => ?_
    unfold nextFrom
    rw [Action.exec_bind_of_ok (Action.exec_get w), Action.exec_bind_of_ok (Action.exec_get w)]
    simp only [here]
  | some above =>
    intro sub x needs
    have passes := needs.of_exec _ fun k => exec_nextFrom here args fromSub
    refine Shows.bind (shows_continuation keeps marks above (fun filter => .inr ⟨i, above, reach, here, filter⟩) kept)
      (fun ⟨found, done⟩ u behind => ?_) sub x passes
    cases found with
    | none => exact .const _
    | some resolved =>
      intro sub x rest
      have enters := rest.of_exec _ fun k => exec_duringNext i above.kind _
      have level := marks.still (composed_continuation above) _ _ _ behind
      rw [← level.stack] at here reach
      -- The frame behind which the call goes on is marked by now, but still shows that filters may be come to.
      have passing : resolved.kind.isFilter = true → above.kind.isFilter = true :=
        kind_continuation (q := fun kind => kind.isFilter = true → above.kind.isFilter = true) nofun above nofun
          (fun filter _ => filter) _ _ _ behind _ rfl
      have marked : (offTo i above.kind u).stack.get? i = some { above with
          runsNext := true, kind := above.kind.deactivated } := by
        rw [offTo, FrameStack.get?_modify, if_pos rfl, here]
        rfl
      exact shows_enter keeps above.object above.called (single_continuation above _ _ _ behind _ rfl)
        (fun filter => World.filters_offTo reach here (passing filter))
        (fun filter => .inr ⟨i, _, marked, above.kind.isFilter_deactivated.trans (passing filter), rfl, rfl⟩) _ {}
        (keeps.passing here (keeps.level level kept)) sub x enters

theorem shows_next (args : Option (List Value)) (kept : holds w) : Shows begins host w fun k => next k args := by
  refine .of_eq ?_ fun k => exec_next k args w
  cases stands : w.stack.nextIndex? with
  | none => exact .const _
  | some i => exact shows_nextFrom keeps marks (.inr stands) args _ kept

/-- An ensemble on top of the stack opens its sub-method there, or passes its own call on. -/
theorem shows_distribute {top : Frame} (last : w.stack.top? = some top) (container : top.runsEnsemble = true)
    (target : Handle) (mods : CallModifiers) (kept : holds w) :
    Shows begins host w fun k => distribute k (w.stack.depth - 1) top.object target top.arguments mods := by
  have unknown : ∀ path sub v, Shows begins host v fun _ => (do
      throw (← unknownSubMethod top.object target path sub) : Action Value) := fun _ _ _ => .const _
  refine .after_update .get fun w' v level => .bind (.const _) fun meant x means => ?_
  rw [Action.exec_liftM] at means
  have means := Option.some.inj means
  have level := level.trans (Level.of_exec (Deed.along_subMethod _ _ _) means)
  cases meant with
  | none => exact unknown _ "" _
  | some meant =>
    obtain ⟨name, rest⟩ := meant
    refine .after_update (Level.of_deeds (Deed.along_searchObject target name)) fun found y level' => ?_
    have level := level.trans level'
    cases found with
    | none =>
      refine (shows_nextFrom keeps marks ?_ _ _ (keeps.level level kept)).bind fun _ _ _ => .const _
      rw [level.stack]
      exact FrameStack.inReach_top
    | some found =>
      refine .after_update (.object target) fun o z level' => .ite (fun _ => ?_) fun _ => ?_
      · exact .plainly keeps (.call target name rest {}) (by intro _ _ _; nofun) (keeps.level (level.trans level') kept)
      · refine .after_update (Level.of_deeds (Deed.along_follow _ _)) fun method z' level'' => ?_
        have level := (level.trans level').trans level''
        have kept := keeps.level level kept
        rw [← level.stack] at last
        exact .perform (.run (subFrame top.object _ name method found.2 rest) method {})
          (keeps.subOpened last container means kept)

/-- A method goes on in the frame that it opened, which it may mark as that of an ensemble. -/
theorem shows_implement (frame : Frame) (method : Method) (mods : CallModifiers) (kept : holds (w.opened frame)) :
    Shows begins host (w.opened frame) fun k =>
      implement k w.stack.depth frame.object method frame.arguments mods := by
  by_cases splits : ∃ container, method.implementation = .ensemble container
  · obtain ⟨container, ensemble⟩ := splits
    have marked : asEnsemble w.stack.depth (w.opened frame) = w.opened { frame with runsEnsemble := true } :=
      congrArg (fun stack => { w.opened frame with stack }) (w.stack.modify_push frame _)
    have distributes := shows_distribute keeps marks (w := w.opened { frame with runsEnsemble := true })
      List.getLast?_concat rfl container mods (keeps.distributing kept)
    have top : (w.opened { frame with runsEnsemble := true }).stack.depth - 1 = w.stack.depth := by
      simp [World.opened, FrameStack.depth, FrameStack.push]
    rw [top] at distributes
    refine distributes.of_eq fun k => ?_
    rw [← marked, ← exec_runEnsemble, implement, ensemble]
  · exact (composed_implement _ _ _ _ (not_exists.1 splits)).shows_of_speaks keeps marks kept

/-- What is done once the innermost frame is closed. -/
theorem shows_close (outcome : Except Failure Value) (kept : holds { w with stack := w.stack.pop }) :
    Shows begins host w fun k => close k outcome := by
  unfold close
  refine .bind (.const _) fun _ _ here => ?_
  cases here
  cases w.stack.top? with
  | none => exact .const _
  | some innermost =>
    refine .bind (.const _) fun _ _ popped => ?_
    cases popped
    refine .after_update (Level.along_popPositions _ _ _) fun _ v level => ?_
    have concludes := (composed_conclude innermost outcome).shows_of_speaks keeps marks (keeps.level level kept)
    exact .settle_bind concludes fun _ _ _ => .const _

/-- A method shows what it does in its frame, and what is done once the frame is closed. -/
theorem shows_run {frame : Frame} {method : Method} {mods : CallModifiers}
    (here : (Task.run frame method mods).Begins holds w) : Shows begins host w fun k => run k frame method mods := by
  refine .bind (.const _) fun _ _ gets => ?_
  cases gets
  refine .bind (.const _) fun _ _ pushed => ?_
  cases pushed
  refine .bind (.const _) fun _ x held => ?_
  obtain rfl : w.opened frame = x := congrArg Prod.snd (Option.some.inj ((Action.exec_liftM _ _).symm.trans held))
  refine .settle_bind (shows_implement keeps marks frame method mods here.opened) fun outcome u ran => ?_
  obtain ⟨f, same, -, marking, still⟩ := marks.implement w.stack frame frame.object method frame.arguments mods rfl ran
  have kind : f.kind = frame.kind := (congrArg Frame.kind same :)
  have marked : FramesMarked w { u with stack := u.stack.pop } :=
    ⟨marking.pop fun sub => here.seated (kind ▸ sub), still⟩
  exact shows_close keeps marks outcome (keeps.marked marked here.before)

theorem shows_call (h : Handle) (name : String) (args : List Value) (mods : CallModifiers) (kept : holds w) :
    Shows begins host w fun k => call k h name args mods := by
  unfold call
  refine .after_update .get fun _ v level => .ite (fun _ => .bind (.const _) fun _ _ ends => by cases ends) fun _ => ?_
  refine .after_update (.object h) fun _ u level' => ?_
  have kept := keeps.level (level.trans level') kept
  refine .bind (shows_resolve keeps marks h name mods kept) fun found x done => ?_
  have still := marks.still (composed_resolve h name mods) _ _ _ done
  have kept := keeps.level still kept
  cases found with
  | none => exact (composed_answerNotFound h name args mods).shows_of_speaks keeps marks kept
  | some resolved =>
    have filters : resolved.kind.isFilter = true → x.Filters :=
      fun filter => (filters_of_resolve done filter).marked (.of_level still)
    exact shows_enter keeps h name (single_resolve _ _ _ done _ rfl) filters
      (fun filter => .inl (pushed_of_resolve done filter)) args mods kept

end Invocation

/-- What a task asks for, `begins` is true of, if `holds` is true where the task begins. -/
theorem AsksFor.shows {task sub : Task} {v : World} (here : task.Begins holds w) (asks : AsksFor host task w sub v) :
    begins sub v := by
  have shows : Shows begins host w (interpret · task) := by
    cases task with
    | eval s e =>
      exact (Script.composed_evaluate s e).shows keeps marks (fun _ args _ kept => shows_next keeps marks args kept)
        (absurd trivial) here.before
    | call h name args mods => exact shows_call keeps marks h name args mods here.before
    | run frame method mods => exact shows_run keeps marks here
  exact shows sub v asks

end shows

/-! ## Wherever code runs -/

section running

variable {good : Objects → Prop} {p : World → Prop} {w : World} (keeps : World.Kept p)

include keeps

theorem Session.holds (session : Session good w) : p w := by
  induction session with
  | start settings => exact keeps.start rfl rfl
  | @next w _ ih =>
    have level : Level w { w with journal := [] } := ⟨rfl, rfl⟩
    exact keeps.marked (.of_level level) ih
  | ended _ done ih => exact keeps.marked ((Host.Marks.hostWithin good _).eval _ _ _ _ _ done) ih

/-- What is kept by every step holds where tasks begin. -/
theorem Entered.begins {task : Task} (entered : Entered good task w) : task.Begins p w := by
  induction entered with
  | step session e => exact ⟨trivial, session.holds keeps, session.holds keeps⟩
  | sub _ _ asks ih => exact asks.shows keeps.asks (Host.Marks.hostWithin good _).failing ih

/-- What is kept by every step holds wherever code runs. -/
theorem Running.holds (running : Running good w) : p w := by
  cases running with
  | idle session => exact session.holds keeps
  | begun entered => exact (entered.begins keeps).opened
  | ended entered done =>
    exact keeps.marked ((Host.Marks.hostWithin good _).eval _ _ _ _ _ done) (entered.begins keeps).before

omit keeps in
theorem Running.kept {holds : FrameStack → Prop} (keeps : FrameStack.Kept holds) (running : Running good w) :
    holds w.stack :=
  running.holds keeps.ofWorld

end running

end DynamicObjects
