import DynamicObjects.Proofs.Runs.Origins
import DynamicObjects.Proofs.Runs.Placements

/-!
# Nested next calls

A call opens a frame, a next call in that frame opens another one, and so on. Each frame stays where it is while the others
are opened, and positions do not fall back behind it.
-/
namespace DynamicObjects

open Invocation

/-! ## Inside of a frame -/

/-- What is come to while the frame of a run is open. -/
inductive Beneath (good : Objects → Prop) (frame : Frame) (method : Method) (mods : CallModifiers) (w : World) :
    Task → World → Prop where
  | asked {depth : Nat} {sub : Task} {v : World} (begins : good w.objects)
      (asks : AsksFor (hostWithin good depth).failing (.run frame method mods) w sub v)
      (inFrame : (v.stack.get? w.stack.depth).map Frame.inert = some frame.inert) : Beneath good frame method mods w sub v
  | deeper {depth : Nat} {mid sub : Task} {u v : World} (beneath : Beneath good frame method mods w mid u)
      (begins : good u.objects) (asks : AsksFor (hostWithin good depth).failing mid u sub v) :
    Beneath good frame method mods w sub v

/-- How a run comes to the next one of the same call: by a next call that goes on behind its frame, or, if it is that of an
ensemble, by passing its own call on. -/
inductive PassesTo (good : Objects → Prop) (frame : Frame) (method : Method) (mods : CallModifiers) (w : World) :
    Frame → Method → CallModifiers → World → Prop where
  | next {depth : Nat} {s : Surroundings} {given : Option Expr} {frame' : Frame} {method' : Method}
      {asked : CallModifiers} {u v : World} (beneath : Beneath good frame method mods w (.eval s (.next given)) u)
      (behind : u.stack.nextIndex? = some w.stack.depth) (begins : good u.objects)
      (asks : AsksFor (hostWithin good depth).failing (.eval s (.next given)) u (.run frame' method' asked) v)
      (opens : good v.objects) : PassesTo good frame method mods w frame' method' asked v
  | ensemble {depth : Nat} {frame' : Frame} {method' : Method} {asked : CallModifiers} {v : World}
      (begins : good w.objects)
      (asks : AsksFor (hostWithin good depth).failing (.run frame method mods) w (.run frame' method' asked) v)
      (onward : frame'.kind ≠ .ensemble) (opens : good v.objects) : PassesTo good frame method mods w frame' method' asked v

/-- The frames of a call and of the next calls inside of it, each opened in the one before, and the run of the last one. -/
inductive Nested (good : Objects → Prop) (h : Handle) (name : String) (args : List Value) (mods : CallModifiers)
    (w : World) : List Frame → Frame → Method → CallModifiers → World → Prop where
  | called {depth : Nat} {frame : Frame} {method : Method} {asked : CallModifiers} {v : World} (begins : good w.objects)
      (asks : AsksFor (hostWithin good depth).failing (.call h name args mods) w (.run frame method asked) v)
      (opens : good v.objects) : Nested good h name args mods w [frame] frame method asked v
  | passed {frames : List Frame} {frame frame' : Frame} {method method' : Method} {asked asked' : CallModifiers}
      {u v : World} (nested : Nested good h name args mods w frames frame method asked u)
      (passes : PassesTo good frame method asked u frame' method' asked' v) :
    Nested good h name args mods w (frames ++ [frame']) frame' method' asked' v

theorem Nested.exists_live {good : Objects → Prop} {h : Handle} {name : String} {args : List Value}
    {mods asked : CallModifiers} {frames : List Frame} {frame : Frame} {method : Method} {v w : World}
    (nested : Nested good h name args mods w frames frame method asked v) : ∃ o, w.live? h = some o := by
  induction nested with
  | called _ asks => exact asks.exists_live
  | passed _ _ ih => exact ih

/-! ## What goes on inside -/

section frames

variable {f g : Frame}

theorem FrameStack.map_inert_of_atRest {s t : FrameStack} (same : t.frames.map Frame.atRest = s.frames.map Frame.atRest) :
    t.frames.map Frame.inert = s.frames.map Frame.inert := by
  have inert := congrArg (List.map Frame.inert) same
  rwa [List.map_map, List.map_map] at inert

/-- A frame stays where it is while something goes on in it. -/
theorem FrameStack.asks_inFrame (d : Nat) (frame : Frame) :
    World.Asks (fun w => (w.stack.get? d).map Frame.inert = some frame.inert)
      fun _ w => (w.stack.get? d).map Frame.inert = some frame.inert where
  marked marked here := by
    have same := congrArg (·[d]?) (map_inert_of_atRest marked.stack.atRest)
    simp only [List.getElem?_map] at same
    exact same.trans here
  passing {w i above} there here := by
    have same := w.stack.frames_modify_map (g := Frame.inert) i
      (f := fun f => { f with runsNext := true, kind := above.kind.deactivated }) fun f found => by
        cases there.symm.trans found
        exact congrArg (fun kind => { above.settled with kind }) above.kind.deactivated_deactivated
    have same := congrArg (·[d]?) same
    simp only [List.getElem?_map] at same
    exact same.trans here
  distributing {w f} here := by
    have same := congrArg (·[d]?) (inert_distributing w.stack f)
    simp only [List.getElem?_map] at same
    exact same.trans here
  guarded {w h name} _ here := by
    obtain ⟨f, there, -⟩ := Option.map_eq_some_iff.1 here
    exact (congrArg _ (get?_push_of_lt _ (get?_lt there))).trans here
  plainly _ := id
  opened _ _ _ _ := id
  subOpened _ _ _ := id

theorem Frame.isFilter_of_inert (same : g.inert = f.inert) : g.kind.isFilter = f.kind.isFilter := by
  have kind := congrArg (·.kind.isFilter) same
  simpa only [Frame.inert, FrameKind.isFilter_deactivated] using kind

theorem Frame.isMixin_of_inert (same : g.inert = f.inert) : g.kind.isMixin = f.kind.isMixin := by
  have kind := congrArg (·.kind.isMixin) same
  simpa only [Frame.inert, FrameKind.isMixin_deactivated] using kind

theorem Frame.station_of_inert (same : g.inert = f.inert) : g.station = f.station := by
  have stations : stationOf g.kind.deactivated g.definer g.methodName = stationOf f.kind.deactivated f.definer f.methodName :=
    congrArg Frame.station same
  rwa [stationOf_deactivated, stationOf_deactivated] at stations

end frames

/-- What is known of tasks that are come to in a call: they begin in their places, the frames of filters and mixins show, and
the receiver has had its slot. -/
structure Task.Arrives (h : Handle) (task : Task) (w : World) : Prop where
  proper : Proper w
  seated : task.Begins (fun w => w.stack.SubsSeated) w
  shows : task.Begins (fun w => w.stack.InterceptorsShow) w
  spent : w.objects.Spent h

section beneath

variable {good : Objects → Prop} {h : Handle} {task sub : Task} {frame : Frame} {method : Method} {mods : CallModifiers}
  {v w : World}

theorem AsksFor.arrives (remain : ∀ a, good a → a.HandlesRemain) {depth : Nat} (arrives : task.Arrives h w)
    (begins : good w.objects) (asks : AsksFor (hostWithin good depth).failing task w sub v) : sub.Arrives h v := by
  have marks := (Host.Marks.hostWithin good depth).failing
  have path := (asks.inside remain arrives.proper begins).1.evolves
  exact ⟨arrives.proper.evolves remain path, asks.shows FrameStack.kept_subsSeated.ofWorld.asks marks arrives.seated,
    asks.shows FrameStack.kept_interceptorsShow.ofWorld.asks marks arrives.shows,
    (arrives.proper.persists_of_evolves remain path).spent _ arrives.spent⟩

namespace Beneath

theorem arrives (remain : ∀ a, good a → a.HandlesRemain) (beneath : Beneath good frame method mods w sub v)
    (arrives : (Task.run frame method mods).Arrives h w) : sub.Arrives h v := by
  induction beneath with
  | asked begins asks => exact asks.arrives remain arrives begins
  | deeper _ begins asks ih => exact asks.arrives remain ih begins

/-- The frame stays open. -/
theorem inFrame (remain : ∀ a, good a → a.HandlesRemain) (beneath : Beneath good frame method mods w sub v)
    (arrives : (Task.run frame method mods).Arrives h w) :
    (v.stack.get? w.stack.depth).map Frame.inert = some frame.inert := by
  induction beneath with
  | asked _ _ inFrame => exact inFrame
  | @deeper depth mid sub u v beneath begins asks ih =>
    have opened : ((mid.opened u).stack.get? w.stack.depth).map Frame.inert = some frame.inert := by
      cases mid with
      | eval | call => exact ih
      | run f =>
        obtain ⟨g, here, -⟩ := Option.map_eq_some_iff.1 ih
        exact (congrArg _ (FrameStack.get?_push_of_lt f (FrameStack.get?_lt here))).trans ih
    exact asks.shows (FrameStack.asks_inFrame _ _) (Host.Marks.hostWithin good depth).failing
      ⟨(beneath.arrives remain arrives).seated.seated, ih, opened⟩

/-- Where positions are at the ground or behind it once the frame is opened, they are so throughout. -/
theorem tracked {line : Lineup} (nodup : line.stations.Nodup) (beneath : Beneath line.Lasts frame method mods w sub v)
    (arrives : (Task.run frame method mods).Arrives line.receiver w) (tracks : line.Tracks (w.opened frame))
    (lasts : sub.isRun = true → line.Lasts v.objects) : sub.Tracked line v := by
  induction beneath with
  | @asked depth sub v begins asks inFrame =>
    obtain ⟨g, here, -⟩ := Option.map_eq_some_iff.1 inFrame
    have deeper : ¬v.stack.depth ≤ w.stack.depth := Nat.not_le.2 (FrameStack.get?_lt here)
    exact asks.tracked nodup arrives.proper begins arrives.seated arrives.shows arrives.spent tracks (absurd · deeper) lasts
  | deeper beneath begins asks ih =>
    have arrives := beneath.arrives (fun _ lasts => lasts.remain) arrives
    obtain ⟨inside, closed⟩ := ih fun _ => begins
    exact asks.tracked nodup arrives.proper begins arrives.seated arrives.shows arrives.spent inside (fun _ => closed) lasts

end Beneath

end beneath

end DynamicObjects
