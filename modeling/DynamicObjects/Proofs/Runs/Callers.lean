import DynamicObjects.Proofs.Runs.Depth
import DynamicObjects.Proofs.Runs.Marks

/-!
# Callers

What a method can ask about its call is read off the frames below its own: whether a next call came to it, and which
frame called. A next call from a method that is no sub-method answers both as if the implementation had been called in
its stead. A sub-method passes its call on behind its ensemble, and stands in between itself.
-/
namespace DynamicObjects

open Invocation

/-! ## Innermost frames -/

namespace FrameStack

variable {s t : FrameStack} {f : Frame} {i : Nat}

/-- Whether the innermost method runs a next call. -/
def passesOn (s : FrameStack) : Bool :=
  match lastIndex? (fun f => f.visible && !f.isGuard) s.frames with
  | some j => (s.get? j).any (·.runsNext)
  | none => false

/-- The frames below the active one, as far as a method can ask about them. -/
theorem below_push (s : FrameStack) (f : Frame) {k : Nat} (within : k ≤ s.depth) : (s.push f).below k = s.below k :=
  List.take_append_of_le_length within

theorem below_depth (s : FrameStack) : s.below s.depth = s.frames :=
  List.take_length

theorem reachedByNext_push (shows : f.visible = true) : (s.push f).reachedByNext = s.passesOn := by
  unfold reachedByNext passesOn
  rw [activeIndex?_push s shows]
  dsimp only
  rw [below_push s f le_rfl, below_depth]
  cases found : lastIndex? (fun f => f.visible && !f.isGuard) s.frames with
  | none => rfl
  | some j => exact congrArg (·.any (·.runsNext)) (get?_push_of_lt f (lastIndex?_lt found))

theorem callerIndex?_push (shows : f.visible = true) : (s.push f).callerIndex? = lastIndex? isInvocation s.frames := by
  unfold callerIndex?
  rw [activeIndex?_push s shows, Option.bind_some, below_push s f le_rfl, below_depth]

/-- Callers are told by where they stand and by the frames up to there. -/
theorem caller_congr (index : t.callerIndex? = s.callerIndex?)
    (same : ∀ j, s.callerIndex? = some j → t.below (j + 1) = s.below (j + 1)) :
    t.caller? = s.caller? ∧ t.callerLevel = s.callerLevel := by
  unfold caller? callerLevel
  rw [index]
  cases found : s.callerIndex? with
  | none => exact ⟨rfl, rfl⟩
  | some j =>
    refine ⟨?_, congrArg (List.countP _) (same j found)⟩
    have here := congrArg (·[j]?) (same j found)
    simpa [below, get?] using here

/-- The stack around the active frame: what is below it, and frames above it that are not visible. -/
theorem exists_of_activeIndex? {above : Frame} (active : s.activeIndex? = some i) (here : s.get? i = some above) :
    ∃ rest, s.frames = s.below i ++ above :: rest ∧ (s.below i).length = i ∧ above.visible = true ∧
      ∀ f ∈ rest, f.visible = false := by
  obtain ⟨a, rest, splits, shows, hidden⟩ := exists_of_lastIndex? active
  have length : (s.below i).length = i := by
    have within : i < s.frames.length := lastIndex?_lt active
    rw [below, List.length_take, Nat.min_eq_left within.le]
  have there : (s.below i ++ a :: rest)[i]? = some a := by
    rw [List.getElem?_append_right length.le, length]
    simp
  have same : a = above := by
    rw [get?, splits] at here
    exact Option.some.inj (there.symm.trans here)
  exact ⟨rest, same ▸ splits, length, same ▸ shows, hidden⟩

theorem modify_append_cons {l rest : List Frame} {above : Frame} (g : Frame → Frame) :
    (l ++ above :: rest).modify l.length g = l ++ g above :: rest := by
  induction l with
  | nil => rfl
  | cons a l ih => exact congrArg (a :: ·) ih

section passing

variable {above : Frame} (active : s.activeIndex? = some i) (here : s.get? i = some above)
  (noGuard : above.isGuard = false)

include active here noGuard

/-- A method that runs a next call is passed over, so that the implementation has its caller. -/
theorem context_of_passesOn {g : Frame → Frame} (marked : (g above).runsNext = true)
    (visible : (g above).visible = above.visible) (isGuard : (g above).isGuard = above.isGuard)
    (shows : f.visible = true) :
    ((s.modify i g).push f).reachedByNext = true ∧ ((s.modify i g).push f).caller? = s.caller? ∧
      ((s.modify i g).push f).callerLevel = s.callerLevel := by
  obtain ⟨rest, splits, length, seen, hidden⟩ := exists_of_activeIndex? active here
  have frames : (s.modify i g).frames = s.below i ++ g above :: rest := by
    rw [modify, splits]
    have changed : (s.below i ++ above :: rest).modify (s.below i).length g = s.below i ++ g above :: rest :=
      modify_append_cons g
    rwa [length] at changed
  refine ⟨?_, caller_congr ?_ fun j found => ?_⟩
  · rw [reachedByNext_push shows, passesOn, frames, lastIndex?_append_cons _ (by simp [visible, isGuard, seen, noGuard])
      fun b member => by simp [hidden b member]]
    dsimp only
    rw [get?, frames, List.getElem?_append_right le_rfl]
    simp [marked]
  · rw [callerIndex?_push shows, frames, lastIndex?_append_of_not]
    · unfold callerIndex?
      rw [active, Option.bind_some]
    · rintro b (_ | ⟨_, member⟩)
      · simp [isInvocation, marked]
      · simp [isInvocation, hidden b member]
  · have within : j + 1 ≤ (s.below i).length := by
      unfold callerIndex? at found
      rw [active, Option.bind_some] at found
      exact lastIndex?_lt found
    have after : ((s.modify i g).push f).below (j + 1) = (s.below i).take (j + 1) := by
      rw [below, push, frames, List.append_assoc, List.take_append_of_le_length within]
    have before : s.below (j + 1) = (s.below i).take (j + 1) := by
      rw [below, below, List.take_take, Nat.min_eq_left (within.trans length.le)]
    rw [after, before]

omit noGuard in
/-- A method that does not run a next call itself counts as the caller of what it opens. -/
theorem context_of_isInvocation (invokes : isInvocation above = true) (shows : f.visible = true) :
    (s.push f).reachedByNext = false ∧ (s.push f).caller? = some above := by
  obtain ⟨rest, splits, length, seen, hidden⟩ := exists_of_activeIndex? active here
  obtain ⟨⟨⟨⟨-, noGuard⟩, goesOn⟩, -⟩, -⟩ : (((above.visible = true ∧ above.isGuard = false) ∧ above.runsNext = false) ∧
      above.runsEnsemble = false) ∧ above.kind.isInactive = false := by
    simpa [isInvocation] using invokes
  have hides : ∀ b ∈ rest, isInvocation b = false := fun b member => by simp [isInvocation, hidden b member]
  have there : (s.push f).get? (s.below i).length = some above := by
    rw [length, get?_push_of_lt f (lastIndex?_lt active), here]
  constructor
  · rw [reachedByNext_push shows, passesOn, splits, lastIndex?_append_cons _ (by simp [seen, noGuard])
      fun b member => by simp [hidden b member]]
    dsimp only
    rw [length, here]
    exact goesOn
  · rw [caller?, callerIndex?_push shows, splits, lastIndex?_append_cons _ invokes hides]
    exact there

end passing

end FrameStack

/-! ## What a method goes on to -/

/-- The worlds in which a method goes on: what it evaluates and calls comes back to it, and in between it changes what is
no frame. -/
inductive GoesOn (good : Objects → Prop) (v : World) : World → Prop
  | here : GoesOn good v v
  | aside {u w : World} (before : GoesOn good v u) (level : Level u w) : GoesOn good v w
  | evaluated {u w : World} {depth : Nat} {s : Surroundings} {e : Expr} {r : Except Failure Value}
      (before : GoesOn good v u) (done : ((hostWithin good depth).eval s e).exec u = some (r, w)) : GoesOn good v w
  | called {u w : World} {depth : Nat} {h : Handle} {name : String} {args : List Value} {mods : CallModifiers}
      {r : Except Failure Value} (before : GoesOn good v u)
      (done : ((hostWithin good depth).call h name args mods).exec u = some (r, w)) : GoesOn good v w

theorem GoesOn.marking {good : Objects → Prop} {v w : World} (goesOn : GoesOn good v w) : Marking v.stack w.stack := by
  induction goesOn with
  | here => exact .refl _
  | aside _ level ih => exact ih.trans (.of_eq level.stack)
  | evaluated _ done ih => exact ih.trans ((Host.Marks.hostWithin good _).eval _ _ _ _ _ done).stack
  | called _ done ih => exact ih.trans ((Host.Marks.hostWithin good _).call _ _ _ _ _ _ _ done).stack

/-- Where a method goes on that is no sub-method, the frames below its own are those it opened on. -/
theorem Marking.exists_push {s t : FrameStack} {f : Frame} (shows : f.visible = true) (single : f.kind ≠ .ensemble)
    (marking : Marking (s.push f) t) : ∃ g, g.visible = true ∧ t = s.push g := by
  have top := marking.get?_atRest s.depth
  rw [FrameStack.get?_push] at top
  obtain ⟨g, found, same⟩ := Option.map_eq_some_iff.1 top
  have visible : g.atRest.visible = f.atRest.visible := congrArg Frame.visible same
  have last : t.frames.getLast? = some g := by
    have depth : t.frames.length = s.depth + 1 := by simpa [FrameStack.depth, FrameStack.push] using marking.depth
    rw [List.getLast?_eq_getElem?, depth]
    exact found
  refine ⟨g, visible.trans shows, congrArg FrameStack.mk ?_⟩
  rw [← List.dropLast_append_getLast? g last, ← marking.pop_eq shows single]
  rfl

/-! ## Where implementations open -/

section opening

variable {host : Host} (marks : host.Marks) {u v w : World} {frame : Frame} {method : Method} {mods : CallModifiers}
  {registered : Method}

include marks

omit marks in
/-- What was found runs on the frames there were, and not as a sub-method. -/
theorem Invocation.Enters.stack {h : Handle} {called : String} {resolved : Resolved} {args : List Value}
    {asked : CallModifiers} (single : resolved.kind ≠ .ensemble)
    (enters : Enters h called resolved args asked w (.run frame method mods) v) :
    frame.kind ≠ .ensemble ∧ v.stack = w.stack := by
  cases enters with
  | run leads => exact ⟨single, (Level.of_exec (Deed.along_follow _ _) leads).stack⟩

/-- A next call opens the implementation on the frames there were, with the frame marked behind which it goes on. -/
theorem Invocation.Continues.stack {i : Nat} {args : Option (List Value)}
    (continues : Continues host i args w registered (.run frame method mods) v) : frame.kind ≠ .ensemble ∧
      ∃ above, w.stack.get? i = some above ∧ v.stack = w.stack.modify i fun f =>
        { f with runsNext := true, kind := above.kind.deactivated } := by
  cases continues with
  | @found above _ _ u _ _ here behind enters =>
    have still : w.stack = u.stack := (marks.still (composed_continuation above) _ _ _ behind).stack.symm
    obtain ⟨single, stack⟩ := enters.stack (single_continuation above _ _ _ behind _ rfl)
    exact ⟨single, above, here, by rw [stack, still]; rfl⟩

/-- A call opens the implementation on the frames there were. -/
theorem Opening.stack_of_call {h : Handle} {name : String} {args : List Value} {asked : CallModifiers}
    (opening : Opening host (.call h name args asked) w registered (.run frame method mods) v) :
    frame.kind ≠ .ensemble ∧ v.stack = w.stack := by
  cases opening with
  | called found enters =>
    have still : w.stack = _ := (marks.still (composed_resolve h name asked) _ _ _ found).stack.symm
    obtain ⟨single, stack⟩ := enters.stack (single_resolve _ _ _ found _ rfl)
    exact ⟨single, stack.trans still.symm⟩

end opening

/-- As long as an implementation goes on in its frame, it can ask about its call. If a next call came to it from a method
that is no sub-method, it learns so, and has the caller of that method for its own. A sub-method passes its call on in the
place of its ensemble: then the implementation does not learn of the next call, and has the sub-method for its caller. What
a call came to is told of a next call if the innermost method was running one. -/
theorem GoesOn.context {depth : Nat} {v w x : World} {frame : Frame} {method : Method} {mods : CallModifiers}
    (shows : frame.visible = true) (goesOn : GoesOn Heap.HandlesRemain (v.opened frame) x) :
    (∀ {args i above}, w.stack.activeIndex? = some i → w.stack.get? i = some above → above.isGuard = false →
      Needs (hostWithin Heap.HandlesRemain depth).failing (next · args) w (.run frame method mods) v →
        (above.kind ≠ .ensemble → x.stack.reachedByNext = true ∧ x.stack.caller? = w.stack.caller? ∧
          x.stack.callerLevel = w.stack.callerLevel) ∧
        (above.kind = .ensemble → FrameStack.isInvocation above = true →
          x.stack.reachedByNext = false ∧ x.stack.caller? = some above)) ∧
    ∀ {h name args asked}, AsksFor (hostWithin Heap.HandlesRemain depth).failing (.call h name args asked) w
      (.run frame method mods) v → x.stack.reachedByNext = w.stack.passesOn := by
  have marks := (Host.Marks.hostWithin Heap.HandlesRemain depth).failing
  have stays : frame.kind ≠ .ensemble → ∃ g, g.visible = true ∧ x.stack = v.stack.push g :=
    fun single => goesOn.marking.exists_push shows single
  refine ⟨fun {args i above} active here noGuard needs => ?_, fun {h name args asked} asks => ?_⟩
  · have onward := needs.of_eq fun k => exec_next k args w
    cases stands : w.stack.nextIndex? with
    | none =>
      simp only [stands] at onward
      exact absurd onward Needs.not_const
    | some k =>
      simp only [stands] at onward
      obtain ⟨registered, continues⟩ := continues_of_needs onward
      obtain ⟨single, above', here', stack⟩ := continues.stack marks
      obtain ⟨g, visible, context⟩ := stays single
      rw [context, stack]
      unfold FrameStack.nextIndex? at stands
      rw [active, Option.bind_some, here, Option.any_some] at stands
      refine ⟨fun noSub => ?_, fun sub invokes => ?_⟩
      · rw [beq_false_of_ne noSub, if_neg Bool.false_ne_true] at stands
        cases stands
        exact FrameStack.context_of_passesOn active here noGuard rfl rfl rfl visible
      · rw [beq_iff_eq.2 sub, if_pos rfl] at stands
        have below : k < i := (lastIndex?_lt stands).trans_le (List.length_take_le i w.stack.frames)
        refine FrameStack.context_of_isInvocation (i := i) ?_ ?_ invokes visible
        · rw [FrameStack.activeIndex?_eq_of_seats (Marking.beginsNext here'), active]
        · rw [w.stack.get?_modify, if_neg below.ne, here]
  · obtain ⟨registered, opening⟩ := asks.opens
    obtain ⟨single, stack⟩ := opening.stack_of_call marks
    obtain ⟨g, visible, context⟩ := stays single
    rw [context, stack, FrameStack.reachedByNext_push visible]

/-- The next call of `work` comes to the method of the base class. -/
theorem context_passing : ∃ w v frame method, w.stack.activeIndex?.isSome = true ∧
    Needs (hostWithin Heap.HandlesRemain 1).failing (next · none) w (.run frame method {}) v ∧
      (v.opened frame).stack.reachedByNext = true ∧ (v.opened frame).stack.caller? = w.stack.caller? := by
  obtain ⟨resolved, v, arguments, behind, u, -, -, passes, ⟨plain, visible, noLeaf⟩, -⟩ := asksFor_passingWorld
  have active : (v.opened (workFrame resolved)).stack.activeIndex? = some v.stack.depth :=
    FrameStack.activeIndex?_push v.stack visible
  have shows : (frameFor ⟨4, 0⟩ "work" behind behind.method [] {}).visible = true := by
    rw [frameFor, noLeaf]
    rfl
  have context := (GoesOn.context shows .here).1 active (FrameStack.get?_push v.stack (workFrame resolved)) rfl passes
  obtain ⟨reached, caller, -⟩ := context.1 (by rw [plain]; decide)
  exact ⟨_, _, _, _, by rw [active]; rfl, passes, reached, caller⟩

/-! ## Sub-methods that stand in between -/

/-- An ensemble whose sub-method runs on behalf of the caller and passes its call on; both it and what it comes to answer
what they can ask about their calls. -/
def standingSession : List Expr :=
  [foundation, Trial.createClass "Base", Trial.createSubclass "Derived" ["Base"], Trial.createObject "box" "Base",
    Trial.define .object "box" (Trial.method "sub" (.list [.ofWorld .context, .next none])),
    .change (.keepCallerSelf (.name "box") (.literal (.bool true))),
    Trial.define .instances "Base" (Trial.method "multi" (.ofWorld .context)),
    .change (.defineEnsemble (.name "Derived") (Trial.text "multi") (.name "box")), Trial.createObject "o" "Derived"]

def standingWorld : World :=
  (sessionWithin Heap.HandlesRemain 5 standingSession).get (by decide +kernel)

/-- From what methods can ask about themselves and their calls: whether a next call came to each of them, and the receiver,
the class, the name and the level of its caller. -/
def askedOfCalls : Value → List (List String)
  | .list answers => answers.map fun
    | .list items => ((items.drop 6).take 5).map Value.toText
    | _ => []
  | _ => []

/-- The method that the next call of the sub-method comes to is not told so, and has the sub-method for its caller, which
itself was called from outside. -/
theorem not_context_of_sub : Reachable Heap.HandlesRemain standingWorld ∧
    (((hostWithin Heap.HandlesRemain 8).call ⟨5, 0⟩ "multi" [.text "sub"] {}).exec standingWorld).map
      (fun result => result.1.toOption.map askedOfCalls) =
        some (some [["0", "", "", "", "0"], ["0", "#5:0", "", "sub", "2"]]) := by
  refine ⟨.sessionWithin (Option.some_get _).symm, ?_⟩
  rw [hostWithin_eq_hostChecking]
  decide +kernel

end DynamicObjects
