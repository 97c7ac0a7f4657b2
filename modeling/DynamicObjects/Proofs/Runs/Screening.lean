import DynamicObjects.Proofs.Runs.Deepening
import DynamicObjects.Proofs.Runs.Unanswered

/-!
# Open filters

While filters run next calls, their frames are open, positions are pushed for them, and their frames hold the receiver.
Apart from that the world is the one that a call finds without them.
-/
namespace DynamicObjects

open Invocation

/-! ## Letting go of an object -/

namespace Heap

theorem modify_congr {α : Type} (heap : Heap α) (h : Handle) {f g : α → α}
    (same : ∀ a, heap.get? h = some a → f a = g a) : heap.modify h f = heap.modify h g := by
  cases found : heap.get? h with
  | none => rw [modify_of_get?_eq_none found, modify_of_get?_eq_none found]
  | some a => rw [modify_of_get? found, modify_of_get? found, same a found]

theorem layout_release {α : Type} (heap : Heap α) (h : Handle) : (heap.release h).layout =
    if (heap.get? h).isSome then (heap.layout.1.set h.index.toNat (h.generation, false), h.index :: heap.layout.2)
    else heap.layout := by
  cases found : heap.get? h with
  | none => simp only [release, found, Option.isSome_none, Bool.false_eq_true, if_false]
  | some a =>
    simp only [release, found, Option.isSome_some, if_true, layout, Array.toList_setIfInBounds, List.map_set]
    rfl

namespace Alike

variable {α β : Type} {view : α → β} {a b : Heap α}

theorem release (alike : Alike view a b) (h : Handle) : Alike view (a.release h) (b.release h) := by
  have same : (b.get? h).isSome = (a.get? h).isSome := by
    rw [← Option.isSome_map (f := view), alike.view h, Option.isSome_map]
  refine ⟨by rw [layout_release, layout_release, same, alike.layout], fun k => ?_⟩
  rw [get?_release, get?_release]
  split
  · rfl
  · exact alike.view k

theorem modify_both (alike : Alike view a b) (h : Handle) {f : α → α} (g : β → β)
    (through : ∀ x, view (f x) = g (view x)) : Alike view (a.modify h f) (b.modify h f) := by
  refine ⟨by rw [layout_modify, layout_modify, alike.layout], fun k => ?_⟩
  rw [get?_modify, get?_modify]
  split
  · have same := congrArg (Option.map g) (alike.view k)
    simpa only [Option.map_map, Function.comp_def, through] using same
  · exact alike.view k

end Alike

variable {a b : Objects} {h : Handle} {o : Object}

/-- The objects once one of them is let go of. -/
def letGo (h : Handle) (a : Objects) : Objects :=
  if (a.get? h).any fun o => o.holders - 1 == 0 && o.deleted then a.release h
  else a.modify h fun o => { o with holders := o.holders - 1 }

theorem letGo_of_alive (found : a.get? h = some o) (alive : o.deleted = false) :
    a.letGo h = a.modify h fun o => { o with holders := o.holders - 1 } := by
  rw [letGo, found, Option.any_some, alive, Bool.and_false, if_neg Bool.false_ne_true]

/-- Nothing is left of the change of an object that goes. -/
theorem letGo_modify {f : Object → Object} (blind : ∀ o, (f o).holders = o.holders ∧ (f o).deleted = o.deleted)
    (apart : ∀ o, { f o with holders := o.holders - 1 } = f { o with holders := o.holders - 1 }) :
    (a.modify h f).letGo h = (a.letGo h).modify h f := by
  cases found : a.get? h with
  | none =>
    have missing : (a.letGo h).get? h = none := by
      rw [letGo, found, Option.any_none, if_neg Bool.false_ne_true, get?_modify, if_pos rfl, found, Option.map_none]
    rw [modify_of_get?_eq_none found, modify_of_get?_eq_none missing]
  | some o =>
    have changed : (a.modify h f).get? h = some (f o) := by rw [get?_modify, if_pos rfl, found, Option.map_some]
    rw [letGo, letGo, found, changed, Option.any_some, Option.any_some, (blind o).1, (blind o).2]
    split
    · rw [release_modify, modify_of_get?_eq_none]
      rw [get?_release, if_pos rfl]
    · rw [modify_modify, modify_modify]
      refine modify_congr _ _ fun p _ => ?_
      rw [(blind p).1, apart]

theorem Alike.letGo (alike : Alike Object.unordered a b) (h : Handle) :
    Alike Object.unordered (a.letGo h) (b.letGo h) := by
  have goes : ((b.get? h).any fun o => o.holders - 1 == 0 && o.deleted) =
      (a.get? h).any fun o => o.holders - 1 == 0 && o.deleted := by
    have same := congrArg (Option.any fun o : Object => o.holders - 1 == 0 && o.deleted) (alike.view h)
    rwa [Option.any_map, Option.any_map] at same
  rw [Heap.letGo, Heap.letGo, goes]
  split
  · exact alike.release h
  · exact alike.modify_both h (fun o => { o with holders := o.holders - 1 }) fun _ => rfl

end Heap

theorem Invocation.exec_letGo_eq_letGo (h : Handle) (w : World) :
    (letGo h).exec w = (.ok ⟨⟩, { w with objects := w.objects.letGo h }) := by
  have goes : (((w.objects.modify h fun o => { o with holders := o.holders - 1 }).get? h).any
      fun o => o.holders == 0 && o.deleted) = (w.objects.get? h).any fun o => o.holders - 1 == 0 && o.deleted := by
    rw [Heap.get?_modify, if_pos rfl, Option.any_map]
  unfold Invocation.letGo changeHeld
  rw [Update.exec_bind_of_ok (Update.exec_changeObjects _ w), Update.exec_bind_of_ok (Update.exec_get _), goes,
    Heap.letGo]
  split
  · rw [Update.exec_changeObjects, Heap.release_modify]
  · rfl

/-! ## Closing the frames of filters -/

namespace Lineup

variable {line : Lineup} {pushed : Bool} {held : Nat} {a b : Objects} {o : Object}

/-- The objects once the open filters of a call have ended: the positions pushed for them are popped, and their frames,
`held` in number, have let go of the receiver. -/
def cleared (line : Lineup) (pushed : Bool) (held : Nat) (a : Objects) : Objects :=
  (Heap.letGo line.receiver)^[held]
    (a.modify line.receiver (Object.lowered pushed (pushed && !line.mixins.isEmpty)))

theorem cleared_false_zero (a : Objects) : line.cleared false 0 a = a :=
  Heap.modify_eq_self _ _ fun _ _ => rfl

theorem cleared_succ : line.cleared pushed (held + 1) a = line.cleared pushed held (a.letGo line.receiver) := by
  have commutes := Heap.letGo_modify (a := a) (h := line.receiver)
    (f := Object.lowered pushed (pushed && !line.mixins.isEmpty)) (fun _ => ⟨rfl, rfl⟩) fun _ => rfl
  rw [cleared, Function.iterate_succ_apply, commutes]
  rfl

theorem cleared_alike (alike : Heap.Alike Object.unordered a b) :
    Heap.Alike Object.unordered (line.cleared pushed held a) (line.cleared pushed held b) := by
  induction held generalizing a b with
  | zero => exact alike.modify_both _ (Object.lowered pushed (pushed && !line.mixins.isEmpty)) fun _ => rfl
  | succ held ih =>
    rw [cleared_succ, cleared_succ]
    exact ih (alike.letGo _)

/-- Changes of the receiver do not show that the clearing undoes. -/
theorem cleared_modify {f : Object → Object}
    (undone : ∀ o, a.get? line.receiver = some o → (f o).lowered pushed (pushed && !line.mixins.isEmpty) =
      o.lowered pushed (pushed && !line.mixins.isEmpty)) :
    line.cleared pushed held (a.modify line.receiver f) = line.cleared pushed held a := by
  rw [cleared, cleared, Heap.modify_modify, Heap.modify_congr _ _ undone]

/-- A frame that opens on a living receiver lets go of it again. -/
theorem cleared_hold (found : a.get? line.receiver = some o) (alive : o.deleted = false) :
    line.cleared pushed (held + 1) (a.modify line.receiver fun o => { o with holders := o.holders + 1 }) =
      line.cleared pushed held a := by
  have changed : (a.modify line.receiver fun o => { o with holders := o.holders + 1 }).get? line.receiver =
      some { o with holders := o.holders + 1 } := by
    rw [Heap.get?_modify, if_pos rfl, found, Option.map_some]
  rw [cleared_succ, Heap.letGo_of_alive changed alive, Heap.modify_modify]
  exact congrArg _ (Heap.modify_eq_self _ _ fun _ _ => rfl)

/-- A receiver that lives is only let go of. -/
theorem cleared_of_alive (found : a.get? line.receiver = some o) (alive : o.deleted = false) :
    line.cleared pushed held a = a.modify line.receiver fun o =>
      { o.lowered pushed (pushed && !line.mixins.isEmpty) with holders := o.holders - held } := by
  induction held generalizing a o with
  | zero => rfl
  | succ held ih =>
    have changed : (a.modify line.receiver fun o => { o with holders := o.holders - 1 }).get? line.receiver =
        some { o with holders := o.holders - 1 } := by
      rw [Heap.get?_modify, if_pos rfl, found, Option.map_some]
    rw [cleared_succ, Heap.letGo_of_alive found alive, ih changed alive, Heap.modify_modify]
    refine Heap.modify_congr _ _ fun p _ => ?_
    rw [show p.holders - (held + 1) = p.holders - 1 - held by omega]
    rfl

/-- Behind the filters of a call on the receiver that was begun in `w`: the second world is the first one with `frames`
open and with positions pushed for them, and filters may be enabled in one of them only. These frames, and those that are
about to close, hold the receiver. -/
structure Screened (line : Lineup) (w : World) (pushed : Bool) (frames : List Frame) (held : Nat) (u v : World) :
    Prop where
  aside : v = { u with
    objects := v.objects
    stack := ⟨u.stack.frames ++ frames⟩
    settings := { u.settings with filtersEnabled := v.settings.filtersEnabled } }
  depth : u.stack.depth = w.stack.depth
  alike : Heap.Alike Object.unordered u.objects (line.cleared pushed held v.objects)
  /-- Where no mixin position is pushed, the innermost one stays as it is. -/
  position : line.mixins = [] → ∀ o, v.objects.get? line.receiver = some o →
    o.mixinPositions.head?.join = mixinPosition w line.receiver
  unchecked : ∀ o, u.live? line.receiver = some o → o.checks = {}

namespace Screened

variable {w u v x : World} {frames : List Frame} {frame : Frame}

theorem stack_eq (screened : line.Screened w pushed frames held u v) : v.stack = ⟨u.stack.frames ++ frames⟩ :=
  congrArg World.stack screened.aside

theorem depth_eq (screened : line.Screened w pushed frames held u v) :
    v.stack.depth = w.stack.depth + frames.length := by
  rw [screened.stack_eq, FrameStack.depth, List.length_append, ← screened.depth, FrameStack.depth]

/-- The receiver that lives behind the filters lives in front of them. -/
theorem exists_live (screened : line.Screened w pushed frames held u v) (live : v.live? line.receiver = some o) :
    ∃ p, u.live? line.receiver = some p ∧ p.checks = o.checks ∧ p.system = o.system ∧ p.name = o.name := by
  obtain ⟨found, alive⟩ := World.live?_eq_some_iff.1 live
  have view := screened.alike.view line.receiver
  rw [cleared_of_alive found alive, Heap.get?_modify, if_pos rfl, found, Option.map_some, Option.map_some] at view
  obtain ⟨p, there, same⟩ := Option.map_eq_some_iff.1 view.symm
  have deleted : p.deleted = o.deleted := (congrArg Object.deleted same :)
  exact ⟨p, World.live?_eq_some_iff.2 ⟨there, deleted.trans alive⟩, (congrArg Object.checks same :),
    (congrArg Object.system same :), (congrArg Object.name same :)⟩

theorem nameOf_eq (screened : line.Screened w pushed frames held u v) (live : v.live? line.receiver = some o) :
    v.nameOf line.receiver = u.nameOf line.receiver := by
  obtain ⟨p, there, -, -, named⟩ := screened.exists_live live
  unfold World.nameOf Heap.nameOf
  rw [(World.live?_eq_some_iff.1 live).1, (World.live?_eq_some_iff.1 there).1, Option.map_some, Option.map_some, named]

theorem unchecked_live (screened : line.Screened w pushed frames held u v) (live : v.live? line.receiver = some o) :
    o.checks = {} := by
  obtain ⟨p, there, same, -⟩ := screened.exists_live live
  exact same.symm.trans (screened.unchecked p there)

/-- While the receiver lives, positions and frames that hold it are all that is different. -/
theorem alike_of_live {β : Type} {view : Object → β} (screened : line.Screened w pushed frames held u v)
    (live : v.live? line.receiver = some o) (coarse : ∀ o : Object, view o.unordered = view o)
    (blind : ∀ filter mixin n, ∀ o : Object, view { o.lowered filter mixin with holders := n } = view o) :
    Heap.Alike view u.objects v.objects := by
  obtain ⟨found, alive⟩ := World.live?_eq_some_iff.1 live
  have alike := screened.alike
  rw [cleared_of_alive found alive] at alike
  exact (alike.comp view fun o => (coarse o).symm).trans (Heap.Alike.modify _ _ fun o => blind _ _ _ o).symm

/-- Orders that are asked for make no difference in front of the filters. -/
theorem consulted_left (screened : line.Screened w pushed frames held u v) (consulted : Consulted u x) :
    line.Screened w pushed frames held x v where
  aside := by
    rw [screened.aside, consulted.aside]
  depth := by
    rw [consulted.aside]
    exact screened.depth
  alike := consulted.alike.symm.trans screened.alike
  position := screened.position
  unchecked o live := by
    have view := consulted.alike.view line.receiver
    obtain ⟨found, alive⟩ := World.live?_eq_some_iff.1 live
    rw [found, Option.map_some] at view
    obtain ⟨p, there, same⟩ := Option.map_eq_some_iff.1 view.symm
    have deleted : p.deleted = o.deleted := (congrArg Object.deleted same :)
    have checks : p.checks = o.checks := (congrArg Object.checks same :)
    rw [← checks]
    exact screened.unchecked p (World.live?_eq_some_iff.2 ⟨there, deleted.trans alive⟩)

/-- Nor behind them. -/
theorem alike_right (screened : line.Screened w pushed frames held u v)
    (alike : Heap.Alike Object.unordered v.objects b) :
    line.Screened w pushed frames held u { v with objects := b } where
  aside := by
    rw [screened.aside]
  depth := screened.depth
  alike := screened.alike.trans (cleared_alike alike)
  position unmixed o found := by
    obtain ⟨p, there, same⟩ := alike.symm.exists_of_get? found
    have positions : p.mixinPositions = o.mixinPositions := (congrArg Object.mixinPositions same :)
    rw [← positions]
    exact screened.position unmixed p there
  unchecked := screened.unchecked

/-! ## Opening -/

/-- The frame of one more filter opens. -/
theorem opened (screened : line.Screened w pushed frames held u v) (live : v.live? line.receiver = some o)
    (object : frame.object = line.receiver) :
    line.Screened w pushed (frames ++ [frame]) (held + 1) u (v.opened frame) where
  aside := by
    have is := screened.aside
    unfold World.opened
    rw [is]
    simp only [FrameStack.push, List.append_assoc]
  depth := screened.depth
  alike := by
    obtain ⟨found, alive⟩ := World.live?_eq_some_iff.1 live
    unfold World.opened
    rw [object, cleared_hold found alive]
    exact screened.alike
  position unmixed p there := by
    unfold World.opened at there
    rw [object, Heap.get?_modify, if_pos rfl] at there
    obtain ⟨o, before, rfl⟩ := Option.map_eq_some_iff.1 there
    exact screened.position unmixed o before
  unchecked := screened.unchecked

/-- A search for the next method has come to its end. -/
theorem searched (screened : line.Screened w true frames held u v) (searched : line.Searched v x) :
    line.Screened w true frames held u x := by
  cases searched with
  | filled filled =>
    exact screened.alike_right (filled.alike.comp Object.unordered fun o => o.unordered_withoutPrecedence.symm)
  | @moved filters mixins filterTail mixinTail unmixed =>
    refine ⟨?_, screened.depth, ?_, fun none p there => ?_, screened.unchecked⟩
    · dsimp only
      rw [screened.aside]
    · dsimp only
      rw [cleared_modify]
      · exact screened.alike
      intro p _
      cases mixed : line.mixins with
      | nil => simp [Object.lowered, filterTail, unmixed mixed]
      | cons => simp [Object.lowered, filterTail, mixinTail]
    · rw [Heap.get?_modify, if_pos rfl] at there
      obtain ⟨o, before, rfl⟩ := Option.map_eq_some_iff.1 there
      rw [unmixed none]
      exact screened.position none o before

/-- The innermost frame is marked. -/
theorem marked (screened : line.Screened w pushed (frames ++ [frame]) held u v) {i : Nat}
    (index : i = w.stack.depth + frames.length) (mark : Frame → Frame) :
    line.Screened w pushed (frames ++ [mark frame]) held u { v with stack := v.stack.modify i mark } where
  aside := by
    have stack : v.stack = FrameStack.push ⟨u.stack.frames ++ frames⟩ frame := by
      rw [screened.stack_eq, FrameStack.push, List.append_assoc]
    have depth : i = (⟨u.stack.frames ++ frames⟩ : FrameStack).depth := by
      rw [index, ← screened.depth, FrameStack.depth, FrameStack.depth, List.length_append]
    rw [stack, depth, FrameStack.modify_push]
    rw [screened.aside]
    simp only [FrameStack.push, List.append_assoc]
  depth := screened.depth
  alike := screened.alike
  position := screened.position
  unchecked := screened.unchecked

/-! ## Closing -/

/-- The innermost frame is taken from the stack, once positions are set back. -/
theorem unstacked (screened : line.Screened w true (frames ++ [frame]) held u v)
    (object : frame.object = line.receiver) (filterPushed : frame.pushedFilterPosition = frames.isEmpty)
    (mixinPushed : frame.pushedMixinPosition = (frames.isEmpty && !line.mixins.isEmpty))
    (filter : Option FilterKey) {mixin : Option Handle}
    (before : line.mixins = [] → mixin = mixinPosition w line.receiver) :
    line.Screened w (!frames.isEmpty) frames held u ((v.restored line.receiver filter mixin).unstacked frame) := by
  have stays : ∀ o, v.objects.get? line.receiver = some o → line.mixins = [] →
      (o.mixinPositions.modifyHead fun _ => mixin) = o.mixinPositions := by
    intro o found unmixed
    have position := screened.position unmixed o found
    rw [← before unmixed] at position
    cases positions : o.mixinPositions with
    | nil => rfl
    | cons m rest =>
      rw [positions] at position
      rw [List.modifyHead_cons, ← position]
      rfl
  have objects : ((v.restored line.receiver filter mixin).unstacked frame).objects =
      v.objects.modify line.receiver fun o => (o.restored filter mixin).lowered frames.isEmpty
        (frames.isEmpty && !line.mixins.isEmpty) := by
    unfold World.unstacked World.lowered World.restored
    dsimp only
    rw [object, filterPushed, mixinPushed, Heap.modify_modify]
  refine ⟨?_, screened.depth, ?_, fun unmixed p there => ?_, screened.unchecked⟩
  · have stack : v.stack.pop = ⟨u.stack.frames ++ frames⟩ := by
      rw [screened.stack_eq, FrameStack.pop, ← List.append_assoc, List.dropLast_concat]
    unfold World.unstacked World.lowered World.restored
    dsimp only
    rw [stack, screened.aside]
  · refine screened.alike.trans ?_
    have same : ∀ o, v.objects.get? line.receiver = some o → o.lowered true (true && !line.mixins.isEmpty) =
        ((o.restored filter mixin).lowered frames.isEmpty (frames.isEmpty && !line.mixins.isEmpty)).lowered
          (!frames.isEmpty) (!frames.isEmpty && !line.mixins.isEmpty) := by
      intro o found
      -- Either this frame pops the positions that were set back, or the clearing does.
      cases mixed : line.mixins with
      | nil => cases frames.isEmpty <;> simp [Object.lowered, Object.restored, stays o found mixed]
      | cons => cases frames.isEmpty <;> simp [Object.lowered, Object.restored]
    rw [objects, cleared, cleared, Heap.modify_modify, Heap.modify_congr _ _ same]
    exact .refl _
  · rw [objects, Heap.get?_modify, if_pos rfl] at there
    obtain ⟨o, found, rfl⟩ := Option.map_eq_some_iff.1 there
    have same : ((o.restored filter mixin).lowered frames.isEmpty
        (frames.isEmpty && !line.mixins.isEmpty)).mixinPositions = o.mixinPositions := by
      simp [Object.lowered, Object.restored, unmixed, stays o found unmixed]
    rw [same]
    exact screened.position unmixed o found

/-- The receiver is let go of once more. -/
theorem letGo (screened : line.Screened w pushed frames (held + 1) u v) :
    line.Screened w pushed frames held u ((Invocation.letGo line.receiver).exec v).2 := by
  rw [exec_letGo_eq_letGo]
  refine ⟨?_, screened.depth, ?_, fun unmixed p there => ?_, screened.unchecked⟩
  · dsimp only
    rw [screened.aside]
  · rw [← cleared_succ]
    exact screened.alike
  · dsimp only at there
    rw [Heap.letGo] at there
    split at there
    · rw [Heap.get?_release, if_pos rfl] at there
      cases there
    · rw [Heap.get?_modify, if_pos rfl] at there
      obtain ⟨o, before, rfl⟩ := Option.map_eq_some_iff.1 there
      exact screened.position unmixed o before

end Screened

end Lineup

end DynamicObjects
