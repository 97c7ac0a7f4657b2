import DynamicObjects.Proofs.Runs.Finds
import DynamicObjects.Proofs.Runs.Following

/-!
# Searches follow their host

Guards open frames that leave no marks. A search that finds a method may push positions for it, which are popped when
the frame of the method closes; a search for the next method moves positions, which are set back afterwards.
-/
namespace DynamicObjects.Invocation

variable {terms : Terms} {host : Host}

/-! ## Guards and searches -/

theorem steady_evalGuard (h : Handle) (name : String) (guard : Predicate) :
    Steady terms host fun k => evalGuard k h name guard := by
  intro w _
  obtain ⟨u, opens⟩ : ∃ u, u = { w with
    stack := w.stack.push { object := h, methodName := name, isGuard := true }
    guardDepth := w.guardDepth + 1 } := ⟨_, rfl⟩
  have tally : w.Tallied → u.Tallied := fun tallied => tallied.push_unmarked rfl (by rw [opens]) (by rw [opens])
  have inside : ∀ task v, Within u u task v → Within w w task v := by
    have top : u.stack.top? = some { object := h, methodName := name, isGuard := true } := by
      rw [opens]
      exact List.getLast?_concat
    refine fun task v further => further.outside ?_ (.inl (.inr ⟨_, top, rfl, rfl⟩))
    rw [opens]
    exact ⟨.refl _, (FrameStack.calls_push ..).le⟩
  have closes : ∀ v, Poised u v →
      Poised w { v with stack := v.stack.pop, guardDepth := v.guardDepth - 1 } := by
    intro v poised
    subst opens
    have popped := poised.pop.frames
    simp only [FrameStack.pop, FrameStack.push, List.dropLast_concat] at popped
    exact ⟨⟨poised.objects, popped, by rw [poised.guardDepth]; rfl, poised.assertionDepth⟩, poised.shelters⟩
  unfold evalGuard
  refine Brings.modify_bind (m := Poised u) (fun _ => .of_objects rfl rfl rfl rfl rfl rfl le_rfl) (fun v same => ?_) ?_
  · rw [same, opens]
    exact .refl _
  refine Brings.settle_bind ((Brings.steadily tally (Steady.eval .none guard.test)).outside inside) fun outcome => ?_
  refine Brings.modify_bind (m := Poised w) (fun _ => .of_objects rfl rfl rfl rfl rfl rfl le_rfl) closes ?_
  refine Brings.mono (Brings.steadily id ?_) (fun _ met => met) fun _ _ met => ⟨met, fun _ _ => trivial⟩
  cases outcome with
  | ok value => exact Steady.pure _
  | error f => exact (Steady.lift (.nameOf h)).bind fun _ => .throw _

theorem steady_passes (h : Handle) (name : String) (guard : Option Predicate) :
    Steady terms host fun k => passes k h name guard := by
  cases guard with
  | none => exact Steady.pure true
  | some guard => exact steady_evalGuard h name guard

theorem steady_searchFilters (h : Handle) (isClass : Bool) (entries : List FilterEntry) :
    Steady terms host fun k => searchFilters k h isClass entries := by
  induction entries with
  | nil => exact Steady.pure none
  | cons entry rest ih =>
    unfold searchFilters
    refine .ite (fun _ => ih) fun _ => ?_
    exact (steady_passes h entry.name entry.guard).bind fun _ => .ite (fun _ => Steady.pure _) fun _ => ih

theorem steady_searchMixins (h : Handle) (name : String) (mixins : List Mixin) :
    Steady terms host fun k => searchMixins k h name mixins := by
  induction mixins with
  | nil => exact Steady.pure none
  | cons m rest ih =>
    unfold searchMixins
    refine Steady.get.bind fun w => ?_
    cases ((w.objects.class? m.target).bind (·.methods.get? name)).filter (!·.isPrivate) with
    | none => exact ih
    | some method => exact (steady_passes h name _).bind fun _ => .ite (fun _ => Steady.pure _) fun _ => ih

theorem steady_firstFilter (h : Handle) : Steady terms host fun k => firstFilter k h := by
  unfold firstFilter
  refine Steady.get.bind fun w => .ite (fun _ => ?_) fun _ => Steady.pure _
  exact (Steady.lift (Deed.along_filterOrder h)).bind fun _ => Steady.get.bind fun _ => steady_searchFilters h _ _

/-! ## Positions that are pushed -/

/-- No positions were pushed for what was found. -/
def Unpushed (found : Option Resolved) : Prop :=
  ∀ resolved, found = some resolved → resolved.pushedFilterPosition = false ∧ resolved.pushedMixinPosition = false

theorem unpushed_some {method : Method} {definer : Option Handle} {kind : FrameKind} {name : String} :
    Unpushed (some { method, definer, kind, name }) := by
  intro resolved same
  cases same
  exact ⟨rfl, rfl⟩

theorem unpushed_none : Unpushed none := by
  intro resolved same
  cases same

theorem unpushed_permitted {h : Handle} {name : String} {mods : CallModifiers} {found : Option Resolved}
    {searched : Option Found} {u v : World} (done : (match searched with
      | none => pure none
      | some (method, definer) => do
        let exempt := Definition.isQualified name || mods.localOnly || mods.ignorePermissions
        if !exempt && !permitted (← get) h method then return none
        return some { method, definer, kind := .plain, name } : Update (Option Resolved)).exec u = (.ok found, v)) :
    Unpushed found := by
  cases searched with
  | none =>
    cases done
    exact unpushed_none
  | some first =>
    obtain ⟨t, s, -, rest⟩ := Update.exec_bind_eq_ok done
    rw [Update.exec_ite] at rest
    split at rest
    · cases rest
      exact unpushed_none
    · cases rest
      exact unpushed_some

theorem unpushed_resolvePlain {h : Handle} {name : String} {mods : CallModifiers} {found : Option Resolved}
    {w v : World} (done : (resolvePlain h name mods).exec w = (.ok found, v)) : Unpushed found := by
  unfold resolvePlain at done
  rw [Update.exec_ite, Update.exec_ite, Update.exec_ite] at done
  split at done
  · obtain ⟨_, u, -, rest⟩ := Update.exec_bind_eq_ok done
    obtain ⟨searched, u, -, rest⟩ := Update.exec_bind_eq_ok rest
    exact unpushed_permitted rest
  split at done
  · obtain ⟨searched, u, -, rest⟩ := Update.exec_bind_eq_ok done
    exact unpushed_permitted rest
  split at done
  · obtain ⟨searched, u, -, rest⟩ := Update.exec_bind_eq_ok done
    exact unpushed_permitted rest
  · obtain ⟨searched, u, -, rest⟩ := Update.exec_bind_eq_ok done
    exact unpushed_permitted rest

/-- What tells a filter that was found apart from others. -/
def Resolved.key (resolved : Resolved) : FilterKey :=
  ⟨resolved.definer, resolved.name⟩

/-- The innermost of the positions that `view` shows of an object. -/
def InnermostAt {α : Type} (view : Object → List α) (h : Handle) (position : α) (w : World) : Prop :=
  ∀ o, w.objects.get? h = some o → (view o).head? = some position

/-- The innermost filter position of an object. -/
abbrev HeadAt (h : Handle) (position : FilterPosition) (w : World) : Prop :=
  InnermostAt Object.filterPositions h position w

/-- The innermost mixin position of an object. -/
abbrev MixinAt (h : Handle) (position : Option Handle) (w : World) : Prop :=
  InnermostAt Object.mixinPositions h position w

namespace InnermostAt

variable {α : Type} {view : Object → List α} {h : Handle} {position : α} {w : World}

theorem push (w : World) (h : Handle) {f : Object → Object} (pushed : ∀ o, (view (f o)).head? = some position) :
    InnermostAt view h position { w with objects := w.objects.modify h f } := by
  intro o found
  rw [Heap.get?_modify, if_pos rfl] at found
  obtain ⟨p, -, rfl⟩ := Option.map_eq_some_iff.1 found
  exact pushed p

theorem modify (here : InnermostAt view h position w) {f : Object → Object} (same : ∀ o, view (f o) = view o) :
    InnermostAt view h position { w with objects := w.objects.modify h f } := by
  intro o found
  rw [Heap.get?_modify, if_pos rfl] at found
  obtain ⟨p, before, rfl⟩ := Option.map_eq_some_iff.1 found
  rw [same, here p before]

end InnermostAt

/-- From `w`, positions were pushed for what a call of `name` on `h` found: for a filter, its own in the filter order, for a
mixin its class in the mixin order. -/
structure Pushes (h : Handle) (name : String) (resolved : Resolved) (w v : World) : Prop
    extends Raised h resolved.pushedFilterPosition resolved.pushedMixinPosition w v where
  filter : resolved.pushedFilterPosition = resolved.kind.isFilter
  head : resolved.kind.isFilter = true → HeadAt h ⟨some resolved.key, name⟩ v
  mixin : resolved.kind.isMixin = true → MixinAt h resolved.definer v
  plain : resolved.kind = .plain → resolved.pushedMixinPosition = false

/-- What a search for a call leads to from `w`: positions are pushed for what is found, and for nothing else. -/
def Resolves (h : Handle) (name : String) (w : World) : Except Failure (Option Resolved) → World → Prop
  | .ok (some resolved), v => Pushes h name resolved w v
  | .ok none, v | .error _, v => Poised w v

theorem Resolves.of_poised {h : Handle} {name : String} {w v : World} {r : Except Failure (Option Resolved)}
    (poised : Poised w v) (unpushed : ∀ found, r = .ok found → Unpushed found ∧ OfKind (· = .plain) found) :
    Resolves h name w r v := by
  match r with
  | .error _ => exact poised
  | .ok none => exact poised
  | .ok (some resolved) =>
    obtain ⟨unpushed, plain⟩ := unpushed _ rfl
    obtain ⟨filter, mixin⟩ := unpushed resolved rfl
    have kind : resolved.kind = .plain := plain resolved rfl
    refine ⟨?_, by rw [filter, kind]; rfl, by rw [kind]; nofun, by rw [kind]; nofun, fun _ => mixin⟩
    rw [filter, mixin]
    exact .of_poised poised

section resolve

variable {w : World} {tallied : Prop} (tally : tallied → w.Tallied) (h : Handle) (name : String) (mods : CallModifiers)

include tally

theorem brings_resolvePlain : Brings terms host tallied (Within w w) (Poised w)
    (fun _ => liftM (resolvePlain h name mods)) (Resolves h name w) := by
  have plain : Follows terms host (fun _ => True) (fun _ => liftM (resolvePlain h name mods)) fun found _ =>
      Unpushed found ∧ OfKind (· = .plain) found :=
    .lift (fun v _ _ => Deed.of_consults (Consults.along_resolvePlain h name mods) v)
      fun v found u _ done => ⟨unpushed_resolvePlain done, kind_resolvePlain (q := (· = .plain)) rfl v u found done⟩
  refine plain.brings
    (fun v poised => ⟨trivial, poised.within, fun known => (tally known).of_balanced poised.toBalanced⟩) ?_
  intro v r u poised further unpushed
  exact .of_poised (poised.trans further) unpushed

theorem brings_resolveUnfiltered (mixins : List Mixin) :
    Brings terms host tallied (Within w w) (Poised w) (fun k => resolveUnfiltered k h name mods mixins)
      (Resolves h name w) := by
  unfold resolveUnfiltered
  refine (Brings.steadily tally (steady_searchMixins h name mixins)).bind (fun found => ?_) fun _ _ poised => poised
  match found with
  | none => exact brings_resolvePlain tally h name mods
  | some (c, method) =>
    refine (Brings.steadily tally Steady.get).bind (fun u => .ite (fun _ => ?_) fun _ => ?_) fun _ _ poised => poised
    · exact .pure _ fun v poised => poised
    · refine Brings.changeHeld_bind (m := fun v => Raised h false true w v ∧ MixinAt h (some c) v) (by intro _; rfl)
        (by intro _; exact .of_fate rfl) (fun v poised => ?_)
        (.pure _ fun v both => ⟨both.1, rfl, nofun, fun _ => both.2, nofun⟩)
      exact ⟨(Raised.of_poised poised).pushMixin (some c), .push v h fun _ => rfl⟩

/-- Positions are pushed for what is found, and for nothing else. -/
theorem brings_resolve :
    Brings terms host tallied (Within w w) (Poised w) (fun k => resolve k h name mods) (Resolves h name w) := by
  unfold resolve
  refine .ite (fun _ => ?_) fun _ => ?_
  · exact brings_resolvePlain tally h name mods
  refine (Brings.steadily tally (steady_firstFilter h)).bind (fun filter => ?_) fun _ _ poised => poised
  refine (Brings.steadily tally (Steady.lift (Deed.along_mixinOrder h))).bind (fun mixins => ?_)
    fun _ _ poised => poised
  cases filter with
  | none => exact brings_resolveUnfiltered tally h name mods mixins
  | some entry =>
    refine Brings.changeHeld_bind (m := fun v => Raised h true false w v ∧ HeadAt h ⟨some entry.key, name⟩ v)
      (by intro _; rfl) (by intro _; exact .of_fate rfl)
      (fun v poised => ⟨(Raised.of_poised poised).pushFilter _, .push v h fun _ => rfl⟩) ?_
    cases empty : mixins.isEmpty with
    | false =>
      refine Brings.changeHeld_bind (m := fun v => Raised h true true w v ∧ HeadAt h ⟨some entry.key, name⟩ v)
        (by intro _; rfl) (by intro _; exact .of_fate rfl)
        (fun v both => ⟨both.1.pushMixin none, both.2.modify fun _ => rfl⟩) ?_
      exact .pure _ fun v both => ⟨both.1, rfl, fun _ => both.2, nofun, nofun⟩
    | true => exact .pure _ fun v both => ⟨both.1, rfl, fun _ => both.2, nofun, nofun⟩

end resolve

/-! ## Entering a method -/

theorem exec_popPositions (h : Handle) (filter mixin : Bool) (w : World) :
    (popPositions h filter mixin).exec w = (.ok ⟨⟩, w.lowered h filter mixin) := by
  cases filter with
  | false =>
    cases mixin with
    | false => rw [World.lowered_false]; rfl
    | true => rfl
  | true =>
    cases mixin with
    | false => rfl
    | true =>
      have twice := Heap.modify_modify w.objects h (Object.lowered true false) (Object.lowered false true)
      exact (congrArg (fun objects => ((.ok ⟨⟩, { w with objects }) : Except Failure PUnit × World)) twice :)

/-- What was found is run in a frame, and the positions pushed for it are popped. -/
theorem brings_enter {base w v : World} {tallied : Prop} (tally : tallied → w.Tallied) {h : Handle} (called : String)
    {resolved : Resolved} (args : List Value) (mods : CallModifiers)
    (raised : Raised h resolved.pushedFilterPosition resolved.pushedMixinPosition w v) (spent : w.objects.Spent h)
    (inside : Inside base w) :
    Brings terms host tallied (Within base base) (· = v) (fun k => enter k h called resolved args mods)
      fun _ => Poised w := by
  unfold enter
  refine Brings.settle_bind (Brings.calmly v (Deed.along_follow _ resolved.method)) fun outcome => ?_
  refine .of_each fun _ u _ poised => ?_
  have still := raised.trans spent poised
  cases outcome with
  | ok method =>
    have here : Within base base (.run (frameFor h called resolved method args mods) method mods) u :=
      ⟨inside.trans still.inside, nofun⟩
    refine Brings.mono (Brings.perform (.run _ method mods) u here fun known => ?_) (fun _ same => same)
      fun r x ended => still.poised.trans ended.1
    exact ⟨rfl, still.tallied_opened (tally known) spent rfl rfl rfl rfl⟩
  | error f =>
    refine Brings.change_bind (exec_popPositions h _ _) (fun x => ?_) (fun x same => ?_) (.throw f fun _ met => met)
    · exact .modify x h (fun _ => rfl) fun _ _ => .of_fate rfl
    · subst same
      exact still.poised

/-! ## Positions that move -/

theorem unpushed_nextClass {cls : Handle} {state : SearchState} {found : Option Resolved} {w v : World}
    (done : (nextClass cls state).exec w = (.ok found, v)) : Unpushed found := by
  obtain ⟨searched, t, -, rest⟩ := Update.exec_bind_eq_ok done
  cases searched with
  | none =>
    cases rest
    exact unpushed_none
  | some found =>
    cases rest
    exact unpushed_some

theorem unpushed_nextPlain {frame : Frame} {state : SearchState} {found : Option Resolved} {w v : World}
    (done : (nextPlain frame state).exec w = (.ok found, v)) : Unpushed found := by
  unfold nextPlain at done
  obtain ⟨o, u, -, rest⟩ := Update.exec_bind_eq_ok done
  rw [Update.exec_ite] at rest
  split at rest
  · cases own : (o.methods.get? state.name).filter (!·.isPrivate) with
    | none =>
      rw [own] at rest
      exact unpushed_nextClass rest
    | some method =>
      rw [own] at rest
      cases rest
      exact unpushed_some
  · exact unpushed_nextClass rest

/-- No search for the next method pushes positions. -/
theorem unpushed_continuation (frame : Frame) : (continuation host frame).Yields fun found => Unpushed found.resolved := by
  have plain : ∀ state, (nextPlain frame state).Yields Unpushed := fun _ _ _ _ done => unpushed_nextPlain done
  have mixin : ∀ name, (nextMixin host frame.object name).Yields Unpushed := by
    refine fun name => .bind fun order => .bind fun w => .bind fun found => ?_
    match found with
    | none => exact .pure unpushed_none
    | some (c, method) => exact .bind fun _ => .pure unpushed_some
  have unfiltered : ∀ state, (continueUnfiltered host frame state).Yields Unpushed := by
    intro state
    unfold continueUnfiltered
    refine .bind fun w => .ite (fun _ => .after (mixin state.name) fun found unpushed => ?_) fun _ => .lift (plain state)
    cases found with
    | none => exact .lift (plain _)
    | some resolved => exact .pure unpushed
  have filter : (nextFilter host frame.object).Yields Unpushed := by
    refine .bind fun order => .bind fun w => .bind fun found => ?_
    match found with
    | none => exact .pure unpushed_none
    | some entry => exact .bind fun _ => .pure unpushed_some
  unfold continuation
  refine .ite (fun _ => .bind fun w => .after filter fun found unpushed => ?_) fun _ =>
    .after (unfiltered _) fun _ unpushed => .pure unpushed
  cases found with
  | none => exact .after (unfiltered _) fun _ unpushed => .pure unpushed
  | some resolved => exact .pure unpushed

section next

variable {w : World} {h : Handle} {filter : Option FilterKey} {mixin : Option Handle} (start : Shifted h filter mixin w w)

/-- What is left of the receiver has as many mixin positions as before. -/
theorem mixinPositions_eq {v : World} {o : Object} (poised : Poised w v) (found : v.objects.get? h = some o) :
    o.mixinPositions = mixinPositions w h := by
  have same : o.mixinPositions = (w.objects.openCalls h).mixinPositions :=
    congrArg OpenCalls.mixinPositions (poised.objects.openCalls h o found)
  rw [same, mixinPositions]
  cases before : w.objects.get? h with
  | none => rw [Heap.openCalls_of_get?_eq_none before]; rfl
  | some p => rw [Heap.openCalls_of_get? before]; rfl

/-- From `w`, positions have moved to what was found as the next method, and nothing was pushed for it. -/
structure Advanced (h : Handle) (filter : Option FilterKey) (mixin : Option Handle) (resolved : Resolved)
    (w v : World) : Prop where
  shifted : Shifted h filter mixin w v
  unpushed : Unpushed (some resolved)
  moved : resolved.kind.isFilter = true → ∀ o position, v.objects.get? h = some o →
    o.filterPositions.head? = some position → position.current = some resolved.key
  mixin : resolved.kind.isMixin = true → MixinAt h resolved.definer v
  stands : resolved.kind.isFilter = false → FiltersStand w v
  plain : resolved.kind = .plain → PositionsStand Object.positions w v

/-- What a search for the next method leads to from `w`: positions move for what is found, and for nothing else. -/
def Advances (h : Handle) (filter : Option FilterKey) (mixin : Option Handle) (w : World) :
    Except Failure (Option Resolved) → World → Prop
  | .ok (some resolved), v => Advanced h filter mixin resolved w v
  | .ok none, v | .error _, v => Poised w v

include start

theorem brings_nextFilter : Brings terms host w.Tallied (Within w w) (Poised w) (fun k => nextFilter k h)
    (Advances h filter mixin w) := by
  unfold nextFilter
  have fails : ∀ (e : Failure) v, Poised w v → Advances h filter mixin w (.error e) v := fun _ _ poised => poised
  refine (Brings.steadily id (Steady.lift (Deed.along_filterOrder h))).bind (fun order => ?_) fails
  refine (Brings.steadily id Steady.get).bind (fun u => ?_) fails
  refine (Brings.steadily id (steady_searchFilters h _ _)).bind (fun found => ?_) fails
  cases found with
  | none => exact .pure _ fun v poised => poised
  | some entry =>
    refine Brings.changeHeld_bind (fun _ => rfl) (fun _ => .of_fate rfl) (fun v poised => ?_)
      (.pure _ fun v advanced => advanced)
    refine ⟨(start.trans poised).setFilter (some entry.key), unpushed_some, fun _ o position found head => ?_, nofun, nofun,
      nofun⟩
    rw [Heap.get?_modify, if_pos rfl] at found
    obtain ⟨p, -, rfl⟩ := Option.map_eq_some_iff.1 found
    rw [List.head?_modifyHead] at head
    obtain ⟨before, -, rfl⟩ := Option.map_eq_some_iff.1 head
    rfl

theorem brings_nextMixin (name : String) (moves : mixinPositions w h ≠ []) : Brings terms host w.Tallied (Within w w)
    (Poised w) (fun k => nextMixin k h name) (Advances h filter mixin w) := by
  unfold nextMixin
  have fails : ∀ (e : Failure) v, Poised w v → Advances h filter mixin w (.error e) v := fun _ _ poised => poised
  refine (Brings.steadily id (Steady.lift (Deed.along_mixinOrder h))).bind (fun order => ?_) fails
  refine (Brings.steadily id Steady.get).bind (fun u => ?_) fails
  refine (Brings.steadily id (steady_searchMixins h name _)).bind (fun found => ?_) fails
  match found with
  | none => exact .pure _ fun v poised => poised
  | some (c, method) =>
    refine Brings.changeHeld_bind (fun _ => rfl) (fun _ => .of_fate rfl) (fun v poised => ?_)
      (.pure _ fun v advanced => advanced)
    refine ⟨(start.trans poised).setMixin (some c), unpushed_some, nofun, fun _ o found => ?_, fun _ => ?_, nofun⟩
    · rw [Heap.get?_modify, if_pos rfl] at found
      obtain ⟨p, there, rfl⟩ := Option.map_eq_some_iff.1 found
      rw [List.head?_modifyHead, mixinPositions_eq poised there]
      obtain ⟨position, rest, is⟩ := List.exists_cons_of_ne_nil moves
      rw [is]
      rfl
    · exact poised.filtersStand.trans (.of_alike (.modify v.objects h fun _ => rfl) rfl)

theorem brings_nextPlain (frame : Frame) (state : SearchState) : Brings terms host w.Tallied (Within w w) (Poised w)
    (fun _ => liftM (nextPlain frame state)) (Advances h filter mixin w) := by
  have plain : Follows terms host (fun _ => True) (fun _ => liftM (nextPlain frame state)) fun found _ =>
      Unpushed found ∧ OfKind (· = .plain) found :=
    .lift (fun v _ _ => Deed.along_nextPlain frame state v)
      fun v found u _ done =>
        ⟨unpushed_nextPlain done, kind_nextPlain (q := (· = .plain)) rfl frame state v u found done⟩
  refine plain.brings
    (fun v poised => ⟨trivial, poised.within, fun known => known.of_balanced poised.toBalanced⟩) ?_
  intro v r u poised further unpushed
  match r with
  | .error _ => exact poised.trans further
  | .ok none => exact poised.trans further
  | .ok (some resolved) =>
    obtain ⟨unpushed, plain⟩ := unpushed _ rfl
    have kind : resolved.kind = .plain := plain resolved rfl
    have poised := poised.trans further
    exact ⟨start.trans poised, unpushed, by rw [kind]; nofun, by rw [kind]; nofun, fun _ => poised.filtersStand,
      fun _ => poised.positionsStand⟩

theorem brings_continueUnfiltered {frame : Frame} (here : frame.object = h) (state : SearchState) :
    Brings terms host w.Tallied (Within w w) (Poised w) (fun k => continueUnfiltered k frame state)
      (Advances h filter mixin w) := by
  subst here
  unfold continueUnfiltered
  refine Brings.get.bind (fun u => .of_each fun _ v _ both => ?_) fun _ _ both => both.2
  obtain ⟨same, poised⟩ := both
  cases same
  refine .ite (fun asks => ?_) fun _ => (brings_nextPlain start frame _).mono (fun _ same => same ▸ poised) fun _ _ met => met
  have moves : mixinPositions w frame.object ≠ [] := by
    intro none
    have nonempty := (Bool.and_eq_true_iff.1 asks).2
    cases found : u.objects.get? frame.object with
    | none =>
      rw [mixinPositions, found] at nonempty
      cases nonempty
    | some o =>
      rw [mixinPositions, found, Option.map_some, Option.getD_some, mixinPositions_eq poised found, none] at nonempty
      cases nonempty
  have searches : Brings terms host w.Tallied (Within w w) (· = u) (fun k => nextMixin k frame.object state.name)
      (Advances frame.object filter mixin w) :=
    (brings_nextMixin start state.name moves).mono (fun _ same => same ▸ poised) fun _ _ met => met
  refine searches.bind (fun found => ?_) fun _ _ advances => advances
  cases found with
  | none => exact brings_nextPlain start frame _
  | some resolved => exact .pure _ fun v advances => advances

theorem brings_continuation {frame : Frame} (here : frame.object = h) :
    Brings terms host w.Tallied (Within w w) (Poised w) (fun k => continuation k frame) fun r =>
      Advances h filter mixin w (r.map (·.resolved)) := by
  unfold continuation
  refine .ite (fun _ => ?_) fun _ => ?_
  · refine (Brings.steadily id Steady.get).bind (fun u => ?_) fun _ _ poised => poised
    subst here
    refine (brings_nextFilter start).bind (fun found => ?_) fun _ _ advances => advances
    cases found with
    | none =>
      refine (brings_continueUnfiltered start rfl _).bind (fun found => ?_) fun _ _ advances => advances
      exact .pure _ fun v advances => advances
    | some resolved => exact .pure _ fun v advances => advances
  · refine (brings_continueUnfiltered start here _).bind (fun found => ?_) fun _ _ advances => advances
    exact .pure _ fun v advances => advances

end next

/-! ## The next method -/

/-- While a frame runs a next call it is marked so; its kind comes back. -/
theorem brings_duringNext {w v : World} {tallied : Prop} {within : Task → World → Prop} {i : Nat} {kind : FrameKind}
    {a : Host → Action Value} (marks : v = { w with
      stack := w.stack.modify i fun f => { f with runsNext := true, kind := kind.deactivated } })
    (before : ∀ f, w.stack.get? i = some f → f.kind = kind)
    (brings : Brings terms host tallied within (· = v) a fun _ => Poised v) :
    Brings terms host tallied within (· = w) (fun k => duringNext i kind (a k)) fun _ => Poised w := by
  have ends : ∀ x, Poised v x → Poised w { x with
      stack := x.stack.modify i fun f => { f with runsNext := false, kind } } := by
    intro x poised
    have back : Poised w { v with stack := v.stack.modify i fun f => { f with runsNext := false, kind } } := by
      subst marks
      refine ⟨⟨.refl _, ?_, rfl, rfl⟩, .refl _⟩
      rw [FrameStack.modify, FrameStack.modify, List.modify_modify_eq]
      refine FrameStack.settled_modify_of_get? w.stack i fun f found => ?_
      simp [Frame.settled, before f found]
    exact back.trans (poised.modifyFrame i (g := fun f => { f with kind }) fun _ => rfl)
  unfold duringNext
  refine Brings.change_bind (m := (· = v)) (fun _ => rfl) (fun _ => .of_objects rfl rfl rfl rfl rfl rfl le_rfl)
    (fun x same => ?_) ?_
  · rw [same, marks]
  refine Brings.settle_bind brings fun outcome => ?_
  refine Brings.change_bind (m := Poised w) (fun _ => rfl) (fun _ => .of_objects rfl rfl rfl rfl rfl rfl le_rfl) ends ?_
  exact .pure _ fun x poised => poised

/-- What was found behind a frame is entered while the frame is marked. -/
theorem brings_passOn {w v : World} {i : Nat} {frame : Frame} {filter : Option FilterKey} {mixin : Option Handle}
    {resolved : Resolved} (advanced : Advanced frame.object filter mixin resolved w v) (here : w.stack.get? i = some frame)
    (spent : w.objects.Spent frame.object) (args : List Value) :
    Brings terms host w.Tallied (Within w w) (· = v) (fun k => do
      Action.resume (← duringNext i frame.kind (enter k frame.object frame.called resolved args {}))) fun _ => Poised v := by
  have shifted := advanced.shifted
  obtain ⟨filter, mixin⟩ := advanced.unpushed resolved rfl
  obtain ⟨u, marks⟩ : ∃ u, u = { v with
    stack := v.stack.modify i fun f => { f with runsNext := true, kind := frame.kind.deactivated } } := ⟨_, rfl⟩
  have inside : Inside w u := by
    have calls : u.stack.calls = v.stack.calls := by
      rw [marks]
      exact v.stack.calls_modify i fun _ => rfl
    exact shifted.inside.trans ⟨by rw [marks]; exact .refl _, calls.le⟩
  have before : ∀ f, v.stack.get? i = some f → f.kind = frame.kind := by
    intro f there
    obtain ⟨g, here', same⟩ := shifted.exists_of_get? there
    cases here.symm.trans here'
    exact (congrArg Frame.kind same :).symm
  have raised : Raised frame.object resolved.pushedFilterPosition resolved.pushedMixinPosition u u := by
    rw [filter, mixin]
    exact .of_poised (.refl u)
  have tally : w.Tallied → u.Tallied := fun known => marks ▸ (shifted.tallied known).modifyFrame i fun _ => rfl
  have enters : Brings terms host w.Tallied (Within w w) (· = v)
      (fun k => duringNext i frame.kind (enter k frame.object frame.called resolved args {})) fun _ => Poised v :=
    brings_duringNext marks before (brings_enter tally frame.called args {} raised (marks ▸ shifted.spent spent) inside)
  exact enters.bind (fun r => .resume r fun _ met => met) fun _ _ met => met

/-- On what is gone there is no next method. -/
theorem exec_continuation_of_dead (frame : Frame) {w : World} (dead : w.live? frame.object = none) :
    (continuation host frame).exec w = some (.error (.destroyed frame.object.text), w) := by
  have filters : (Interception.filterOrder frame.object).exec w = (.error (.destroyed frame.object.text), w) :=
    Update.exec_bind_of_error (Update.exec_object_of_dead dead) _
  have mixins : (Interception.mixinOrder frame.object).exec w = (.error (.destroyed frame.object.text), w) :=
    Update.exec_bind_of_error (Update.exec_object_of_dead dead) _
  have plain : ∀ state, (nextPlain frame state).exec w = (.error (.destroyed frame.object.text), w) :=
    fun state => Update.exec_bind_of_error (Update.exec_object_of_dead dead) _
  have unfiltered : ∀ state, (continueUnfiltered host frame state).exec w =
      some (.error (.destroyed frame.object.text), w) := by
    intro state
    unfold continueUnfiltered
    rw [Action.exec_bind, Action.exec_get, Option.bind_some]
    dsimp only
    split
    · rw [Action.exec_bind]
      unfold nextMixin
      rw [Action.exec_bind, Action.exec_liftM, mixins]
      rfl
    · rw [Action.exec_liftM, plain]
  unfold continuation
  split
  · rw [Action.exec_bind, Action.exec_get, Option.bind_some]
    dsimp only
    rw [Action.exec_bind]
    unfold nextFilter
    rw [Action.exec_bind, Action.exec_liftM, filters]
    rfl
  · rw [Action.exec_bind, unfiltered]
    rfl

theorem steady_nextFrom (i : Nat) (args : Option (List Value)) (fromSub : Bool) :
    Steady terms host fun k => nextFrom k i args fromSub := by
  intro w _
  unfold nextFrom
  refine Brings.get_bind ?_
  cases here : w.stack.get? i with
  | none => exact .throw _ fun v same => ⟨same ▸ .refl _, fun _ _ => trivial⟩
  | some frame =>
    refine Brings.get_bind (Brings.get_bind ?_)
    have start := Shifted.start w frame.object
    generalize (filterPosition? w frame.object).bind (·.current) = filter at *
    generalize mixinPosition w frame.object = mixin at *
    refine Brings.settle_bind (m := fun _ => Shifted frame.object filter mixin w) ?_ fun outcome => ?_
    · cases live : w.live? frame.object with
      | none =>
        refine .of_exec (r := .error (.destroyed frame.object.text)) (fun k => ?_) .refl start
        rw [Action.exec_bind, exec_continuation_of_dead frame live]
        rfl
      | some o =>
        have spent : w.objects.Spent frame.object := Heap.spent_of_get? (World.live?_eq_some_iff.1 live).1
        have searches : Brings terms host w.Tallied (Within w w) (· = w) (fun k => continuation k frame) fun r =>
            Advances frame.object filter mixin w (r.map (·.resolved)) :=
          (brings_continuation start rfl).mono (fun v same => same ▸ .refl w) fun _ _ met => met
        refine searches.bind (fun ⟨found, done⟩ => ?_) fun _ _ poised => start.trans poised
        cases found with
        | some resolved =>
          refine .of_each fun _ v _ advanced => ?_
          exact (brings_passOn advanced here spent _).mono (fun _ same => same) fun _ _ poised =>
            advanced.shifted.trans poised
        | none =>
          have notes : Steady terms host fun _ => (do
              if done || (frame.runsEnsemble && !fromSub) then
                changeFrame i ({ · with unknownDue := true })
              return .nil : Action Value) := by
            refine .ite (fun _ => ?_) fun _ => Steady.pure _
            exact (Steady.changeFrame i (by intro _; rfl)).bind fun _ => Steady.pure _
          exact (Brings.steadily id notes).mono (fun _ met => met) fun _ _ poised => start.trans poised
    · refine Brings.changeHeld_bind (m := fun v => Poised w { v with
          objects := v.objects.modify frame.object fun o =>
            { o with mixinPositions := o.mixinPositions.modifyHead fun _ => mixin } })
        (by intro _; rfl) (by intro _; exact .of_fate rfl) (fun v shifted => ?_) ?_
      · rw [Heap.modify_modify]
        exact shifted
      · refine Brings.changeHeld_bind (m := Poised w) (by intro _; rfl) (by intro _; exact .of_fate rfl)
          (fun v poised => poised) ?_
        exact .resume _ fun v poised => ⟨poised, fun _ _ => trivial⟩

theorem steady_next (args : Option (List Value)) : Steady terms host fun k => next k args := by
  unfold next
  refine Steady.get.bind fun w => ?_
  dsimp only
  cases w.stack.activeIndex? with
  | none => exact .throw _
  | some i =>
    refine .ite (fun _ => ?_) fun _ => steady_nextFrom i args false
    cases w.stack.ensembleIndex? i with
    | none => exact .throw _
    | some container => exact steady_nextFrom container args true

end DynamicObjects.Invocation
