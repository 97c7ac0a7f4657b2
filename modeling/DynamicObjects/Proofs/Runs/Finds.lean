import DynamicObjects.Proofs.Runs.Tasks

/-!
# What searches find

Searches for the first method of a call and for the method behind a frame find filters, mixins and plain methods, in whatever
world they are made. They find no sub-methods, and filters only where filters take part.
-/
namespace DynamicObjects

/-! ## What actions yield -/

/-- Whatever an update yields, it satisfies `p`. -/
def Update.Yields {α : Type} (u : Update α) (p : α → Prop) : Prop :=
  ∀ (w v : World) (a : α), u.exec w = (.ok a, v) → p a

/-- Whatever an action yields, it satisfies `p`. -/
def Action.Yields {α : Type} (f : Action α) (p : α → Prop) : Prop :=
  ∀ (w v : World) (a : α), f.exec w = some (.ok a, v) → p a

namespace Update.Yields

variable {α β : Type} {p : β → Prop}

theorem pure {b : β} (holds : p b) : Yields (pure b) p := by
  intro w v a done
  cases done
  exact holds

theorem bind {u : Update α} {f : α → Update β} (rest : ∀ a, Yields (f a) p) : Yields (u >>= f) p := by
  intro w v b done
  obtain ⟨a, x, -, done⟩ := exec_bind_eq_ok done
  exact rest a x v b done

/-- Behind what itself yields something in particular. -/
theorem after {u : Update α} {f : α → Update β} {q : α → Prop} (first : Yields u q) (rest : ∀ a, q a → Yields (f a) p) :
    Yields (u >>= f) p := by
  intro w v b done
  obtain ⟨a, x, begins, done⟩ := exec_bind_eq_ok done
  exact rest a (first w x a begins) x v b done

theorem ite {c : Prop} [Decidable c] {yes no : Update β} (holds : c → Yields yes p) (fails : ¬c → Yields no p) :
    Yields (if c then yes else no) p := by
  split
  · exact holds ‹c›
  · exact fails ‹¬c›

end Update.Yields

namespace Action.Yields

variable {α β : Type} {p : β → Prop}

theorem lift {u : Update β} (yields : u.Yields p) : Yields (liftM u) p := by
  intro w v b done
  rw [exec_liftM] at done
  exact yields w v b (Option.some.inj done)

theorem pure {b : β} (holds : p b) : Yields (pure b) p :=
  lift (Update.Yields.pure holds)

theorem after {f : Action α} {g : α → Action β} {q : α → Prop} (first : Yields f q) (rest : ∀ a, q a → Yields (g a) p) :
    Yields (f >>= g) p := by
  intro w v b done
  obtain ⟨a, x, begins, done⟩ := exec_bind_eq_ok done
  exact rest a (first w x a begins) x v b done

theorem bind {f : Action α} {g : α → Action β} (rest : ∀ a, Yields (g a) p) : Yields (f >>= g) p :=
  after (fun _ _ _ _ => trivial : Yields f fun _ => True) fun a _ => rest a

theorem ite {c : Prop} [Decidable c] {yes no : Action β} (holds : c → Yields yes p) (fails : ¬c → Yields no p) :
    Yields (if c then yes else no) p := by
  split
  · exact holds ‹c›
  · exact fails ‹¬c›

end Action.Yields

/-! ## What kinds of frames searches find -/

namespace Invocation

/-- What was found, if anything was, runs in a frame of a kind that `q` is true of. -/
def OfKind (q : FrameKind → Prop) (found : Option Resolved) : Prop :=
  ∀ r, found = some r → q r.kind

section kinds

variable {q : FrameKind → Prop} {host : Host} {h : Handle} {name : String} {mods : CallModifiers}

theorem OfKind.none : OfKind q none := by
  intro r same
  cases same

theorem OfKind.some {r : Resolved} (kind : q r.kind) : OfKind q (some r) := by
  intro r' same
  cases same
  exact kind

variable (plain : q .plain)

include plain

theorem kind_resolvePlain : (resolvePlain h name mods).Yields (OfKind q) := by
  unfold resolvePlain
  refine .ite (fun _ => .bind fun w => .bind fun found => ?_) fun _ =>
    .ite (fun _ => .bind fun found => ?_) fun _ => .ite (fun _ => .bind fun found => ?_) fun _ => .bind fun found => ?_
  all_goals
    obtain _ | ⟨method, definer⟩ := found
    · exact .pure .none
    · exact .bind fun w => .ite (fun _ => .pure .none) fun _ => .pure (.some plain)

theorem kind_nextPlain (frame : Frame) (state : SearchState) : (nextPlain frame state).Yields (OfKind q) := by
  have onward : ∀ cls, (do
      return (← searchClassOrder cls state.name state.definer).map fun found =>
        { method := found.1, definer := found.2, kind := .plain, name := state.name } : Update (Option Resolved)).Yields
          (OfKind q) := by
    refine fun cls => .bind fun found => .pure ?_
    cases found with
    | none => exact .none
    | some found => exact .some plain
  unfold nextPlain
  refine .bind fun o => .ite (fun _ => ?_) fun _ => onward o.cls
  cases (o.methods.get? state.name).filter (!·.isPrivate) with
  | none => exact onward o.cls
  | some method => exact .pure (.some plain)

theorem kind_resolveUnfiltered (mixin : q (.mixin true)) (mixins : List Mixin) :
    (resolveUnfiltered host h name mods mixins).Yields (OfKind q) := by
  refine .bind fun found => ?_
  match found with
  | none => exact .lift (kind_resolvePlain plain)
  | some (c, method) =>
    exact .bind fun w => .ite (fun _ => .pure .none) fun _ => .bind fun _ => .pure (.some mixin)

theorem kind_continueUnfiltered (frame : Frame) (state : SearchState)
    (mixin : (state.filtersDone || frame.kind.isMixin) = true → q (.mixin true)) :
    (continueUnfiltered host frame state).Yields (OfKind q) := by
  have behind : (state.filtersDone || frame.kind.isMixin) = true →
      (nextMixin host frame.object state.name).Yields (OfKind q) := by
    refine fun among => .bind fun order => .bind fun w => .bind fun found => ?_
    match found with
    | none => exact .pure .none
    | some (c, method) => exact .bind fun _ => .pure (.some (mixin among))
  unfold continueUnfiltered
  refine .bind fun w => .ite (fun asks => .after (behind (Bool.and_eq_true_iff.1 asks).1) fun found ofKind => ?_) fun _ =>
    .lift (kind_nextPlain plain frame state)
  cases found with
  | none => exact .lift (kind_nextPlain plain frame _)
  | some resolved => exact .pure ofKind

theorem kind_resolve (mixin : q (.mixin true)) (filter : q (.filter true)) : (resolve host h name mods).Yields (OfKind q) := by
  unfold resolve
  refine .ite (fun _ => .lift (kind_resolvePlain plain)) fun _ => .bind fun found => .bind fun mixins => ?_
  cases found with
  | some entry =>
    exact .bind fun _ => .ite (fun _ => .bind fun _ => .pure (.some filter)) fun _ => .pure (.some filter)
  | none => exact kind_resolveUnfiltered plain mixin mixins

/-- What is found behind a frame is a filter only if the frame is a filter's, and a mixin's method only if it is a filter's
or a mixin's. -/
theorem kind_continuation (frame : Frame)
    (mixin : frame.kind.isFilter = true ∨ frame.kind.isMixin = true → q (.mixin true))
    (filter : frame.kind.isFilter = true → q (.filter true)) :
    (continuation host frame).Yields fun found => OfKind q found.resolved := by
  unfold continuation
  refine .ite (fun passes => ?_) fun _ =>
    .after (kind_continueUnfiltered plain frame _ fun among => mixin (.inr among)) fun _ ofKind => .pure ofKind
  have behind : (nextFilter host frame.object).Yields (OfKind q) := by
    refine .bind fun order => .bind fun w => .bind fun found => ?_
    match found with
    | none => exact .pure .none
    | some entry => exact .bind fun _ => .pure (.some (filter passes))
  refine .bind fun w => .after behind fun found ofKind => ?_
  cases found with
  | none =>
    exact .after (kind_continueUnfiltered plain frame _ fun _ => mixin (.inl passes)) fun _ ofKind => .pure ofKind
  | some resolved => exact .pure ofKind

omit plain

/-- What searches find is no sub-method. -/
theorem single_resolve : (resolve host h name mods).Yields (OfKind (· ≠ .ensemble)) :=
  kind_resolve nofun nofun nofun

theorem single_continuation (frame : Frame) :
    (continuation host frame).Yields fun found => OfKind (· ≠ .ensemble) found.resolved :=
  kind_continuation nofun frame nofun nofun

end kinds

end Invocation

end DynamicObjects
