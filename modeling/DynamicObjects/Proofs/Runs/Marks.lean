import DynamicObjects.Proofs.Runs.Openings

/-!
# What a run does to the frames below it

A next call marks the frame it goes on behind, and unmarks it when it returns. That is the active frame, or the ensemble
below an active sub-method, so that no frame is touched below the innermost method that is no sub-method: whatever is
evaluated or called there leaves those frames as they are, and of the others all but the marks.
-/
namespace DynamicObjects

open Invocation

/-! ## Innermost entries -/

section lists

variable {α β γ : Type}

theorem lastIndex?_lt {p : α → Bool} {l : List α} {i : Nat} (last : lastIndex? p l = some i) : i < l.length := by
  induction l generalizing i with
  | nil => cases last
  | cons a rest ih =>
    rw [lastIndex?] at last
    cases found : lastIndex? p rest with
    | some j =>
      rw [found] at last
      cases last
      exact Nat.succ_lt_succ (ih found)
    | none =>
      simp only [found, Option.ite_none_right_eq_some, Option.some.injEq] at last
      exact last.2 ▸ Nat.succ_pos _

theorem lastIndex?_of_not {p : α → Bool} {l : List α} (nowhere : ∀ a ∈ l, p a = false) : lastIndex? p l = none := by
  induction l with
  | nil => rfl
  | cons a rest ih =>
    rw [lastIndex?, ih fun b member => nowhere b (List.mem_cons_of_mem _ member), nowhere a List.mem_cons_self]
    rfl

theorem lastIndex?_append_of_not {p : α → Bool} (l : List α) {rest : List α} (nowhere : ∀ a ∈ rest, p a = false) :
    lastIndex? p (l ++ rest) = lastIndex? p l := by
  induction l with
  | nil => exact lastIndex?_of_not nowhere
  | cons a l ih => rw [List.cons_append, lastIndex?, lastIndex?, ih]

theorem lastIndex?_append_cons {p : α → Bool} (l : List α) {a : α} {rest : List α} (holds : p a = true)
    (nowhere : ∀ b ∈ rest, p b = false) : lastIndex? p (l ++ a :: rest) = some l.length := by
  rw [List.append_cons, lastIndex?_append_of_not _ nowhere, lastIndex?_concat l holds]

theorem not_of_lastIndex?_eq_none {p : α → Bool} {l : List α} (nowhere : lastIndex? p l = none) :
    ∀ a ∈ l, p a = false := by
  induction l with
  | nil => nofun
  | cons b l ih =>
    rw [lastIndex?] at nowhere
    cases found : lastIndex? p l with
    | some j =>
      rw [found] at nowhere
      cases nowhere
    | none =>
      simp only [found, ite_eq_right_iff, reduceCtorEq, imp_false, Bool.not_eq_true] at nowhere
      rintro a (_ | ⟨_, member⟩)
      · exact nowhere
      · exact ih found a member

theorem exists_of_lastIndex? {p : α → Bool} {l : List α} {i : Nat} (last : lastIndex? p l = some i) :
    ∃ a rest, l = l.take i ++ a :: rest ∧ p a = true ∧ ∀ b ∈ rest, p b = false := by
  induction l generalizing i with
  | nil => cases last
  | cons b l ih =>
    rw [lastIndex?] at last
    cases found : lastIndex? p l with
    | some j =>
      rw [found] at last
      cases last
      obtain ⟨a, rest, splits, holds, nowhere⟩ := ih found
      exact ⟨a, rest, congrArg (b :: ·) splits, holds, nowhere⟩
    | none =>
      simp only [found, Option.ite_none_right_eq_some, Option.some.injEq] at last
      obtain ⟨holds, rfl⟩ := last
      exact ⟨b, l, rfl, holds, not_of_lastIndex?_eq_none found⟩

theorem exists_lastIndex?_ge {p : α → Bool} {l : List α} {i : Nat} {a : α} (here : l[i]? = some a) (holds : p a = true) :
    ∃ k, lastIndex? p l = some k ∧ i ≤ k := by
  induction l generalizing i with
  | nil => cases here
  | cons b l ih =>
    rw [lastIndex?]
    cases i with
    | zero =>
      obtain rfl : b = a := Option.some.inj here
      cases lastIndex? p l with
      | none => exact ⟨0, if_pos holds, le_rfl⟩
      | some j => exact ⟨j + 1, rfl, Nat.zero_le _⟩
    | succ i =>
      obtain ⟨k, last, below⟩ := ih here
      rw [last]
      exact ⟨k + 1, rfl, Nat.succ_le_succ below⟩

/-- Lists that look alike to what a predicate reads have their last entries in the same place. -/
theorem lastIndex?_congr {g : α → γ} {h : β → γ} {l : List α} {m : List β} (same : m.map h = l.map g) (q : γ → Bool) :
    lastIndex? (fun b => q (h b)) m = lastIndex? (fun a => q (g a)) l := by
  rw [← lastIndex?_map, same, lastIndex?_map]

end lists

/-! ## Where next calls reach -/

namespace FrameKind

variable (kind : FrameKind)

theorem deactivated_deactivated : kind.deactivated.deactivated = kind.deactivated := by
  cases kind <;> rfl

theorem isFilter_deactivated : kind.deactivated.isFilter = kind.isFilter := by
  cases kind <;> rfl

theorem isMixin_deactivated : kind.deactivated.isMixin = kind.isMixin := by
  cases kind <;> rfl

theorem deactivated_beq_ensemble : (kind.deactivated == .ensemble) = (kind == .ensemble) := by
  cases kind <;> rfl

theorem eq_plain_of_deactivated {kind : FrameKind} (plain : kind.deactivated = .plain) : kind = .plain := by
  cases kind <;> first | rfl | cases plain

end FrameKind

/-- What tells where next calls go on: whether a frame is visible, runs a sub-method, and has run one. -/
def Frame.seat (f : Frame) : Bool × Bool × Bool :=
  (f.visible, f.kind == .ensemble, f.runsEnsemble)

/-- A frame without the marks of next calls. -/
def Frame.atRest (f : Frame) : Frame :=
  { f with runsNext := false, unknownDue := false }

/-- Unknown handling is left to the closing of the frame, and not to an ensemble that runs in it. -/
def Frame.isDue (f : Frame) : Bool :=
  f.unknownDue && !f.runsEnsemble

namespace FrameStack

variable {s t u : FrameStack} {f : Frame} {i k : Nat}

/-- The innermost visible frame that runs no sub-method. -/
def floor (s : FrameStack) : Nat :=
  (lastIndex? (fun f => f.visible && f.kind != .ensemble) s.frames).getD 0

/-- A frame that a next call can mark: it is no further out than the innermost method that is no sub-method, or it is where
a next call would go on. -/
def InReach (s : FrameStack) (k : Nat) : Prop :=
  s.floor ≤ k ∨ s.nextIndex? = some k

section seats

variable (same : t.frames.map Frame.seat = s.frames.map Frame.seat)

include same

theorem floor_eq_of_seats : t.floor = s.floor :=
  congrArg (·.getD 0) (lastIndex?_congr same fun seat => seat.1 && !seat.2.1)

theorem activeIndex?_eq_of_seats : t.activeIndex? = s.activeIndex? :=
  lastIndex?_congr same fun seat => seat.1

theorem nextIndex?_eq_of_seats : t.nextIndex? = s.nextIndex? := by
  unfold nextIndex?
  rw [activeIndex?_eq_of_seats same]
  congr 1
  funext i
  have kind : (t.get? i).any (·.kind == .ensemble) = (s.get? i).any (·.kind == .ensemble) := by
    have here := congrArg (fun seats : List (Bool × Bool × Bool) => seats[i]?.any (·.2.1)) same
    rwa [List.getElem?_map, List.getElem?_map, Option.any_map, Option.any_map] at here
  have container : t.ensembleIndex? i = s.ensembleIndex? i := by
    refine lastIndex?_congr (g := Frame.seat) (h := Frame.seat) ?_ fun seat => seat.2.2
    rw [below, below, List.map_take, List.map_take, same]
  rw [kind, container]

theorem inReach_iff_of_seats : t.InReach k ↔ s.InReach k := by
  rw [InReach, InReach, floor_eq_of_seats same, nextIndex?_eq_of_seats same]

end seats

theorem floor_le_top : s.floor ≤ s.depth - 1 := by
  unfold floor
  cases last : lastIndex? (fun f => f.visible && f.kind != .ensemble) s.frames with
  | none => exact Nat.zero_le _
  | some i => exact Nat.le_sub_one_of_lt (lastIndex?_lt last)

theorem inReach_top : s.InReach (s.depth - 1) :=
  .inl floor_le_top

theorem get?_modify (s : FrameStack) (i k : Nat) (f : Frame → Frame) :
    (s.modify i f).get? k = if i = k then (s.get? k).map f else s.get? k := by
  rw [get?, modify, List.getElem?_modify]
  split <;> simp [get?]

theorem frames_modify_map {α : Type} {g : Frame → α} (s : FrameStack) (i : Nat) {f : Frame → Frame}
    (same : ∀ frame, s.get? i = some frame → g (f frame) = g frame) :
    (s.modify i f).frames.map g = s.frames.map g := by
  refine List.ext_getElem? fun k => ?_
  have changed := s.get?_modify i k f
  rw [get?, get?] at changed
  rw [List.getElem?_map, List.getElem?_map, changed]
  split
  · next here =>
    subst here
    cases found : s.frames[i]? with
    | none => rfl
    | some frame => exact congrArg some (same frame found)
  · rfl

/-- Changing a frame for which unknown handling stays due. -/
theorem due_modify {g : Frame → Frame} (stays : ∀ f, s.get? i = some f → f.isDue = true → (g f).isDue = true) (k : Nat)
    (f : Frame) (found : s.get? k = some f) (due : f.isDue = true) :
    ∃ f', (s.modify i g).get? k = some f' ∧ f'.isDue = true := by
  rw [s.get?_modify, found]
  split
  · next same => exact ⟨g f, rfl, stays f (same ▸ found) due⟩
  · exact ⟨f, rfl, due⟩

/-! ## Frames that open -/

/-- A frame that opens for a sub-method opens on top of its ensemble. -/
def Seats (s : FrameStack) (f : Frame) : Prop :=
  f.kind = .ensemble → ∃ top, s.top? = some top ∧ top.runsEnsemble = true

theorem modify_push (s : FrameStack) (f : Frame) (g : Frame → Frame) :
    (s.push f).modify s.depth g = s.push (g f) := by
  unfold modify push depth
  congr 1
  induction s.frames with
  | nil => rfl
  | cons a rest ih => exact congrArg (a :: ·) ih

theorem get?_lt (found : s.get? i = some f) : i < s.depth :=
  (List.getElem?_eq_some_iff.1 found).1

theorem get?_push_of_lt (f : Frame) (below : k < s.depth) : (s.push f).get? k = s.get? k :=
  List.getElem?_append_left below

theorem get?_push_eq_some {g : Frame} (found : (s.push f).get? i = some g) : s.get? i = some g ∨ (i = s.depth ∧ g = f) := by
  by_cases below : i < s.depth
  · exact .inl ((get?_push_of_lt f below).symm.trans found)
  · have within : i < (s.push f).frames.length := (List.getElem?_eq_some_iff.1 found).1
    have top : i = s.depth := by
      rw [push, List.length_append, List.length_singleton] at within
      unfold depth at below ⊢
      omega
    subst top
    rw [get?_push] at found
    exact .inr ⟨rfl, (Option.some.inj found).symm⟩

theorem floor_push (shows : f.visible = true) (single : f.kind ≠ .ensemble) : (s.push f).floor = s.depth := by
  unfold floor push
  rw [lastIndex?_concat s.frames (by simp [shows, single])]
  rfl

theorem floor_push_of_not (passed : (f.visible && f.kind != .ensemble) = false) : (s.push f).floor = s.floor := by
  unfold floor push
  rw [lastIndex?_append_of_not s.frames (by simpa using passed)]

theorem nextIndex?_push (shows : f.visible = true) (single : f.kind ≠ .ensemble) : (s.push f).nextIndex? = some s.depth := by
  unfold nextIndex?
  rw [activeIndex?_push s shows, Option.bind_some, get?_push, Option.any_some, beq_false_of_ne single]
  rfl

theorem ensembleIndex?_push (f : Frame) (below : k ≤ s.depth) : (s.push f).ensembleIndex? k = s.ensembleIndex? k := by
  unfold ensembleIndex? FrameStack.below push
  rw [List.take_append_of_le_length below]

theorem nextIndex?_push_of_hidden (hides : f.visible = false) : (s.push f).nextIndex? = s.nextIndex? := by
  have active : (s.push f).activeIndex? = s.activeIndex? := lastIndex?_append_of_not s.frames (by simpa using hides)
  unfold nextIndex?
  rw [active]
  cases found : s.activeIndex? with
  | none => rfl
  | some i =>
    have below : i < s.depth := lastIndex?_lt found
    rw [Option.bind_some, Option.bind_some, get?_push_of_lt f below, ensembleIndex?_push f below.le]

/-- A sub-method goes on behind the ensemble it opens on. -/
theorem nextIndex?_push_of_ensemble {top : Frame} (shows : f.visible = true) (sub : f.kind = .ensemble)
    (last : s.top? = some top) (container : top.runsEnsemble = true) : (s.push f).nextIndex? = some (s.depth - 1) := by
  have ends : s.frames = s.frames.dropLast ++ [top] := (List.dropLast_append_getLast? top last).symm
  have innermost : s.ensembleIndex? s.depth = some (s.depth - 1) := by
    unfold ensembleIndex? FrameStack.below depth
    rw [List.take_length, ends, lastIndex?_concat _ container]
    simp
  unfold nextIndex?
  rw [activeIndex?_push s shows, Option.bind_some, get?_push, Option.any_some, sub, ensembleIndex?_push f le_rfl]
  exact innermost

theorem inReach_of_push (seats : s.Seats f) (below : k < s.depth) (reach : (s.push f).InReach k) : s.InReach k := by
  unfold InReach at reach
  cases shows : f.visible with
  | false =>
    rwa [floor_push_of_not (by rw [shows]; rfl), nextIndex?_push_of_hidden shows] at reach
  | true =>
    by_cases sub : f.kind = .ensemble
    · obtain ⟨top, last, container⟩ := seats sub
      rw [floor_push_of_not (by simp [sub]), nextIndex?_push_of_ensemble shows sub last container] at reach
      rcases reach with reach | reach
      · exact .inl reach
      · cases reach
        exact inReach_top
    · rw [floor_push shows sub, nextIndex?_push shows sub] at reach
      rcases reach with reach | reach
      · omega
      · cases reach
        omega

end FrameStack

/-! ## Frames that are marked -/

/-- The same frames are open; those in reach of next calls may have been marked, or their marks removed. Unknown handling
that is due stays due. -/
structure Marking (s t : FrameStack) : Prop where
  atRest : t.frames.map Frame.atRest = s.frames.map Frame.atRest
  beyond : ∀ k, ¬s.InReach k → t.get? k = s.get? k
  due : ∀ k f, s.get? k = some f → f.isDue = true → ∃ g, t.get? k = some g ∧ g.isDue = true

namespace Marking

variable {s t u : FrameStack} {f : Frame} {i k : Nat}

theorem refl (s : FrameStack) : Marking s s :=
  ⟨rfl, fun _ _ => rfl, fun _ f found due => ⟨f, found, due⟩⟩

theorem of_eq (same : t = s) : Marking s t :=
  same ▸ refl s

theorem seats (marking : Marking s t) : t.frames.map Frame.seat = s.frames.map Frame.seat := by
  have same := congrArg (List.map Frame.seat) marking.atRest
  rwa [List.map_map, List.map_map] at same

theorem trans (first : Marking s t) (second : Marking t u) : Marking s u where
  atRest := second.atRest.trans first.atRest
  beyond k far := (second.beyond k (by rwa [FrameStack.inReach_iff_of_seats first.seats])).trans (first.beyond k far)
  due k f found due := by
    obtain ⟨g, there, stays⟩ := first.due k f found due
    exact second.due k g there stays

theorem depth (marking : Marking s t) : t.depth = s.depth := by
  simpa [FrameStack.depth] using congrArg List.length marking.atRest

theorem get?_atRest (marking : Marking s t) (k : Nat) : (t.get? k).map Frame.atRest = (s.get? k).map Frame.atRest :=
  FrameStack.map_get?_of_map marking.atRest k

/-- A frame in reach is marked. -/
theorem mark (reach : s.InReach i) {f : Frame → Frame} (marks : ∀ g, (f g).atRest = g.atRest)
    (stays : ∀ g, s.get? i = some g → g.isDue = true → (f g).isDue = true) : Marking s (s.modify i f) where
  atRest := s.frames_modify_map i fun g _ => marks g
  beyond k far := by
    have apart : i ≠ k := fun same => far (same ▸ reach)
    rw [s.get?_modify, if_neg apart]
  due := FrameStack.due_modify stays

theorem get?_pop (marking : Marking (s.push f) t) (below : k < s.depth) : t.pop.get? k = t.get? k := by
  have depth : t.frames.length = s.depth + 1 := by simpa [FrameStack.depth, FrameStack.push] using marking.depth
  unfold FrameStack.get? FrameStack.pop
  rw [List.getElem?_dropLast, if_pos (by omega)]

theorem depth_pop (marking : Marking (s.push f) t) : t.pop.depth = s.depth := by
  have depth : t.frames.length = s.depth + 1 := by simpa [FrameStack.depth, FrameStack.push] using marking.depth
  simp [FrameStack.depth, FrameStack.pop, depth]

/-- What happens on top of a frame keeps to marks in reach, once the frame is closed. -/
theorem pop (seats : s.Seats f) (marking : Marking (s.push f) t) : Marking s t.pop where
  atRest := by
    have same := congrArg List.dropLast marking.atRest
    rw [← List.map_dropLast, ← List.map_dropLast] at same
    rwa [FrameStack.push, List.dropLast_concat] at same
  beyond k far := by
    by_cases below : k < s.depth
    · rw [marking.get?_pop below, marking.beyond k fun reach => far (FrameStack.inReach_of_push seats below reach),
        FrameStack.get?_push_of_lt f below]
    · have outside : t.pop.depth ≤ k := marking.depth_pop.trans_le (Nat.le_of_not_lt below)
      rw [FrameStack.get?, FrameStack.get?, List.getElem?_eq_none outside, List.getElem?_eq_none (Nat.le_of_not_lt below)]
  due k g found due := by
    have below := FrameStack.get?_lt found
    rw [marking.get?_pop below]
    exact marking.due k g ((FrameStack.get?_push_of_lt f below).trans found) due

/-- Under a method that is no sub-method the frames are those that were open. -/
theorem pop_eq (shows : f.visible = true) (single : f.kind ≠ .ensemble) (marking : Marking (s.push f) t) : t.pop = s := by
  refine congrArg FrameStack.mk (List.ext_getElem? fun k => ?_)
  have seats : s.Seats f := fun sub => absurd sub single
  by_cases below : k < s.depth
  · have far : ¬(s.push f).InReach k := by
      rw [FrameStack.InReach, FrameStack.floor_push shows single, FrameStack.nextIndex?_push shows single]
      rintro (reach | reach)
      · omega
      · cases reach
        omega
    exact (marking.get?_pop below).trans ((marking.beyond k far).trans (FrameStack.get?_push_of_lt f below))
  · have outside : t.pop.depth ≤ k := marking.depth_pop.trans_le (Nat.le_of_not_lt below)
    exact (List.getElem?_eq_none outside).trans (List.getElem?_eq_none (Nat.le_of_not_lt below)).symm

theorem beginsNext {frame : Frame} (here : s.get? i = some frame) :
    (s.modify i fun f => { f with runsNext := true, kind := frame.kind.deactivated }).frames.map Frame.seat =
      s.frames.map Frame.seat := by
  refine s.frames_modify_map i fun f found => ?_
  cases here.symm.trans found
  exact congrArg (frame.visible, ·, frame.runsEnsemble) frame.kind.deactivated_beq_ensemble

/-- A frame that runs a next call no longer does so afterwards. -/
theorem afterNext {frame : Frame} (here : s.get? i = some frame) (reach : s.InReach i)
    (marking : Marking (s.modify i fun f => { f with runsNext := true, kind := frame.kind.deactivated }) t) :
    Marking s (t.modify i fun f => { f with runsNext := false, kind := frame.kind }) where
  atRest := by
    refine List.ext_getElem? fun k => ?_
    have there := marking.get?_atRest k
    rw [s.get?_modify] at there
    have changed := t.get?_modify i k fun f => { f with runsNext := false, kind := frame.kind }
    rw [FrameStack.get?] at changed
    rw [List.getElem?_map, List.getElem?_map, changed]
    split
    · next same =>
      subst same
      rw [if_pos rfl, here] at there
      obtain ⟨f, found, rest⟩ := Option.map_eq_some_iff.1 there
      have found' : s.frames[i]? = some frame := here
      rw [found, found']
      exact congrArg (fun f : Frame => some { f with kind := frame.kind }) rest
    · next apart =>
      rw [if_neg apart] at there
      exact there
  beyond k far := by
    have apart : i ≠ k := fun same => far (same ▸ reach)
    have far' := (FrameStack.inReach_iff_of_seats (beginsNext here)).not.2 far
    rw [t.get?_modify, if_neg apart, marking.beyond k far', s.get?_modify, if_neg apart]
  due k f found due := by
    obtain ⟨g, between, stays⟩ := @FrameStack.due_modify s i (fun f =>
      { f with runsNext := true, kind := frame.kind.deactivated }) (fun _ _ due => due) k f found due
    obtain ⟨g', there, stays⟩ := marking.due k g between stays
    exact @FrameStack.due_modify t i (fun f => { f with runsNext := false, kind := frame.kind }) (fun _ _ due => due) k g'
      there stays

end Marking

/-- The frames have only been marked, and as many guards are open. -/
structure FramesMarked (v w : World) : Prop where
  stack : Marking v.stack w.stack
  guardDepth : w.guardDepth = v.guardDepth

namespace FramesMarked

variable {u v w : World}

theorem of_level (level : Level v w) : FramesMarked v w :=
  ⟨.of_eq level.stack, level.guardDepth⟩

theorem refl (w : World) : FramesMarked w w :=
  of_level (.refl w)

theorem trans (first : FramesMarked u v) (second : FramesMarked v w) : FramesMarked u w :=
  ⟨first.stack.trans second.stack, second.guardDepth.trans first.guardDepth⟩

end FramesMarked

/-! ## What actions do to frames -/

/-- However an action ends, what it makes of a world is related to it by `R`. -/
def Action.Moves {α : Type} (R : World → World → Prop) (f : Action α) : Prop :=
  ∀ (w v : World) (r : Except Failure α), f.exec w = some (r, v) → R w v

namespace Action.Moves

variable {α β : Type} {R : World → World → Prop}

theorem lift (still : ∀ v w, Level v w → R v w) {u : Update α} (level : u.Along Level) : Moves R (liftM u : Action α) := by
  intro w v r done
  rw [exec_liftM] at done
  have same := Level.of_along level w
  rw [Option.some.inj done] at same
  exact still w v same

/-- Behind a part that yields something in particular. -/
theorem after (trans : ∀ s t u, R s t → R t u → R s u) {f : Action α} {g : α → Action β} {q : α → Prop}
    (first : Moves R f) (yields : f.Yields q) (rest : ∀ a, q a → Moves R (g a)) : Moves R (f >>= g) := by
  intro w v r done
  rw [exec_bind] at done
  obtain ⟨⟨r', x⟩, begins, done⟩ := Option.bind_eq_some_iff.1 done
  cases r' with
  | ok a => exact trans _ _ _ (first _ _ _ begins) (rest a (yields _ _ _ begins) _ _ _ done)
  | error e =>
    cases done
    exact first _ _ _ begins

theorem bind (trans : ∀ s t u, R s t → R t u → R s u) {f : Action α} {g : α → Action β} (first : Moves R f)
    (rest : ∀ a, Moves R (g a)) : Moves R (f >>= g) :=
  after trans first (fun _ _ _ _ => trivial : f.Yields fun _ => True) fun a _ => rest a

theorem ite {c : Prop} [Decidable c] {yes no : Action α} (holds : c → Moves R yes) (fails : ¬c → Moves R no) :
    Moves R (if c then yes else no) := by
  split
  · exact holds ‹c›
  · exact fails ‹¬c›

/-- Behind a refusal. -/
theorem behind (trans : ∀ s t u, R s t → R t u → R s u) {c : Prop} [Decidable c] {refusal : Action α} {f : Action β}
    (refuses : Moves R refusal) (rest : Moves R f) : Moves R (if c then refusal >>= fun _ => f else f) :=
  ite (fun _ => bind trans refuses fun _ => rest) fun _ => rest

theorem settle {f : Action α} (part : Moves R f) : Moves R (Action.settle f) := by
  intro w v r done
  rw [exec_settle] at done
  obtain ⟨⟨r', x⟩, ends, same⟩ := Option.map_eq_some_iff.1 done
  cases same
  exact part _ _ _ ends

end Action.Moves

/-- However an action ends that begins with the frames `s`, frames in reach have been marked. -/
def Action.MarksFrom {α : Type} (s : FrameStack) (f : Action α) : Prop :=
  ∀ (w v : World) (r : Except Failure α), w.stack = s → f.exec w = some (r, v) → FramesMarked w v

namespace Action.MarksFrom

variable {α β : Type} {s : FrameStack}

theorem of_moves {f : Action α} (moves : f.Moves FramesMarked) : MarksFrom s f :=
  fun w v r _ done => moves w v r done

theorem of_level {f : Action α} (still : f.Moves Level) : MarksFrom s f :=
  fun w v r _ done => .of_level (still w v r done)

theorem bind {f : Action α} {g : α → Action β} (first : MarksFrom s f) (rest : ∀ a t, Marking s t → MarksFrom t (g a)) :
    MarksFrom s (f >>= g) := by
  intro w v r begins done
  rw [exec_bind] at done
  obtain ⟨⟨r', x⟩, ends, done⟩ := Option.bind_eq_some_iff.1 done
  cases r' with
  | ok a =>
    have marked := first _ _ _ begins ends
    exact marked.trans (rest a x.stack (begins ▸ marked.stack) x v r rfl done)
  | error e =>
    cases done
    exact first _ _ _ begins ends

/-- Behind a part that leaves the frames alone. -/
theorem after {f : Action α} {g : α → Action β} (still : f.Moves Level) (rest : ∀ a, MarksFrom s (g a)) :
    MarksFrom s (f >>= g) := by
  intro w v r begins done
  rw [exec_bind] at done
  obtain ⟨⟨r', x⟩, ends, done⟩ := Option.bind_eq_some_iff.1 done
  have level := still _ _ _ ends
  cases r' with
  | ok a => exact (FramesMarked.of_level level).trans (rest a x v r (level.stack.trans begins) done)
  | error e =>
    cases done
    exact .of_level level

theorem ite {c : Prop} [Decidable c] {yes no : Action α} (holds : c → MarksFrom s yes) (fails : ¬c → MarksFrom s no) :
    MarksFrom s (if c then yes else no) := by
  split
  · exact holds ‹c›
  · exact fails ‹¬c›

end Action.MarksFrom

/-- What is put together of parts relates worlds as its parts do. -/
theorem Composed.moves {speaks passes : Prop} {α : Type} {f : Host → Action α} {R : World → World → Prop}
    {host : Host} (composed : Composed speaks passes f) (still : ∀ v w, Level v w → R v w)
    (trans : ∀ s t u, R s t → R t u → R s u)
    (guards : ∀ h name guard, (evalGuard host h name guard).Moves R)
    (evaluates : speaks → ∀ s e, (host.eval s e).Moves R)
    (calls : speaks → ∀ h name args mods, (host.call h name args mods).Moves R)
    (goesOn : passes → ∀ args, (Invocation.next host args).Moves R) : (f host).Moves R := by
  induction composed with
  | update level => exact .lift still level
  | bind _ _ first rest => exact .bind trans first rest
  | settle _ ih => exact ih.settle
  | guard _ h name guard => exact guards h name guard
  | eval may s e => exact evaluates may s e
  | call may h name args mods => exact calls may h name args mods
  | next may args => exact goesOn may args

/-- A host that only marks frames in reach, and runs methods where they seat. -/
structure Host.Marks (host : Host) : Prop where
  eval : ∀ s e, (host.eval s e).Moves FramesMarked
  call : ∀ h name args mods, (host.call h name args mods).Moves FramesMarked
  run : ∀ frame method mods w r v, w.stack.Seats frame → (host.run frame method mods).exec w = some (r, v) →
    FramesMarked w v

namespace Host.Marks

variable {host : Host} {speaks passes : Prop} {α : Type} {f : Host → Action α}

/-- A guard runs in a frame of its own. -/
theorem guard (marks : host.Marks) (h : Handle) (name : String) (guard : Predicate) :
    (evalGuard host h name guard).Moves Level := by
  intro w v r done
  unfold evalGuard at done
  rw [Action.exec_bind_of_ok (Action.exec_modify _ w), Action.exec_settle_bind] at done
  obtain ⟨⟨outcome, x⟩, evaluated, done⟩ := Option.bind_eq_some_iff.1 done
  dsimp only at done
  rw [Action.exec_bind_of_ok (Action.exec_modify _ x)] at done
  have marked := marks.eval _ _ _ _ _ evaluated
  have closed : Level w { x with stack := x.stack.pop, guardDepth := x.guardDepth - 1 } :=
    ⟨marked.stack.pop_eq rfl (fun sub => by cases sub), congrArg (· - 1) marked.guardDepth⟩
  refine closed.trans ?_
  cases outcome with
  | ok value =>
    cases done
    exact .refl _
  | error f =>
    have refuses : (do throw (.guard (← Update.nameOf h) name guard.source f.message) : Action Bool).Moves Level := by
      refine .bind (R := Level) (fun _ _ _ => .trans) (.lift (fun _ _ => id) (.nameOf h)) fun receiver => ?_
      exact .lift (fun _ _ => id) (u := MonadExcept.throw _) (.throw (.guard receiver name guard.source f.message))
    exact refuses _ _ _ done

/-- Searches leave the frames as they are. -/
theorem still (marks : host.Marks) (composed : Composed False False f) : (f host).Moves Level :=
  composed.moves (fun _ _ => id) (fun _ _ _ => .trans) marks.guard (fun may => may.elim)
    (fun may => may.elim) fun may => may.elim

/-- Whatever is put together of evaluations, calls and next calls marks frames in reach. -/
theorem marking_of_next (marks : host.Marks) (goesOn : ∀ args, (Invocation.next host args).Moves FramesMarked)
    (composed : Composed speaks passes f) : (f host).Moves FramesMarked :=
  composed.moves (fun _ _ => .of_level) (fun _ _ _ => .trans)
    (fun h name guard w v r done => .of_level (marks.guard h name guard w v r done)) (fun _ => marks.eval)
    (fun _ => marks.call) fun _ => goesOn

theorem marking (marks : host.Marks) (composed : Composed speaks False f) : (f host).Moves FramesMarked :=
  composed.moves (fun _ _ => .of_level) (fun _ _ _ => .trans)
    (fun h name guard w v r done => .of_level (marks.guard h name guard w v r done)) (fun _ => marks.eval)
    (fun _ => marks.call) False.elim

/-- What a search found runs in a frame that seats anywhere. -/
theorem enter (marks : host.Marks) (h : Handle) (called : String) {resolved : Resolved} (single : resolved.kind ≠ .ensemble)
    (args : List Value) (mods : CallModifiers) : (Invocation.enter host h called resolved args mods).Moves FramesMarked := by
  unfold Invocation.enter
  refine .bind (fun _ _ _ => .trans) (.settle (.lift (fun _ _ => .of_level) (Level.of_deeds (Deed.along_follow _ _))))
    fun followed => ?_
  cases followed with
  | ok method => exact fun w v r => marks.run _ _ _ w r v fun sub => absurd sub single
  | error f =>
    exact .bind (fun _ _ _ => .trans) (.lift (fun _ _ => .of_level) (Level.along_popPositions _ _ _)) fun _ =>
      .lift (fun _ _ => .of_level) (u := MonadExcept.throw f) (.throw f)

/-- A next call from a frame in reach. -/
theorem nextFrom (marks : host.Marks) {i : Nat} {args : Option (List Value)} {fromSub : Bool} {w v : World}
    {r : Except Failure Value} (reach : w.stack.InReach i)
    (done : (Invocation.nextFrom host i args fromSub).exec w = some (r, v)) : FramesMarked w v := by
  cases here : w.stack.get? i with
  | none =>
    unfold Invocation.nextFrom at done
    rw [Action.exec_bind_of_ok (Action.exec_get w)] at done
    simp only [here] at done
    cases done
    exact .refl _
  | some frame =>
    rw [exec_nextFrom here] at done
    obtain ⟨⟨r', x⟩, passed, same⟩ := Option.map_eq_some_iff.1 done
    cases same
    suffices marked : FramesMarked w x from ⟨marked.stack, marked.guardDepth⟩
    unfold passOn at passed
    rw [Action.exec_bind] at passed
    obtain ⟨⟨found, u⟩, searched, passed⟩ := Option.bind_eq_some_iff.1 passed
    have still := marks.still (composed_continuation frame) _ _ _ searched
    rw [← still.stack] at reach here
    refine (FramesMarked.of_level still).trans ?_
    match found with
    | .error e =>
      cases passed
      exact .refl _
    | .ok ⟨none, filtersDone⟩ =>
      dsimp only at passed
      split at passed
      · cases passed
        exact ⟨.mark reach (fun _ => rfl) fun g _ due => by simp_all [Frame.isDue], rfl⟩
      · cases passed
        exact .refl _
    | .ok ⟨some resolved, filtersDone⟩ =>
      dsimp only at passed
      rw [exec_duringNext] at passed
      obtain ⟨⟨r'', y⟩, entered, same⟩ := Option.map_eq_some_iff.1 passed
      cases same
      have single : resolved.kind ≠ .ensemble := single_continuation frame _ _ _ searched _ rfl
      have marked := marks.enter frame.object frame.called single _ {} _ _ _ entered
      exact ⟨.afterNext here reach marked.stack, marked.guardDepth⟩

theorem next (marks : host.Marks) (args : Option (List Value)) : (Invocation.next host args).Moves FramesMarked := by
  intro w v r done
  rw [exec_next] at done
  cases goesOn : w.stack.nextIndex? with
  | none =>
    simp only [goesOn] at done
    cases done
    exact .refl _
  | some i =>
    simp only [goesOn] at done
    exact marks.nextFrom (.inr goesOn) done

/-! ## Runs -/

theorem still_lift {u : Update α} (level : u.Along Level) : (liftM u : Action α).Moves Level :=
  .lift (fun _ _ => id) level

/-- An ensemble on top of the stack, once it is marked as one. -/
theorem distribute (marks : host.Marks) {s : FrameStack} {top : Frame} (last : s.top? = some top)
    (container : top.runsEnsemble = true) (h target : Handle) (args : List Value) (mods : CallModifiers) :
    (Invocation.distribute host (s.depth - 1) h target args mods).MarksFrom s := by
  have unknown : ∀ path sub, (do throw (← unknownSubMethod h target path sub) : Action Value).Moves Level :=
    fun path sub => marks.still ((composed_unknownSubMethod h target path sub).bind fun f => .throw f)
  refine .after (marks.still .get) fun w =>
    .after (still_lift (Level.of_deeds (Deed.along_subMethod h args mods))) fun meant => ?_
  cases meant with
  | none => exact .of_level (unknown _ "")
  | some meant =>
    refine .after (still_lift (Level.of_deeds (Deed.along_searchObject target meant.1))) fun found => ?_
    cases found with
    | none =>
      have onward : (Invocation.nextFrom host (s.depth - 1) (some args) false).MarksFrom s := by
        intro w v r begins done
        exact marks.nextFrom (begins ▸ FrameStack.inReach_top) done
      refine .bind onward fun result t marked => .after (marks.still .get) fun x => .bind (fun w v r begins done => ?_)
        fun _ _ _ => .ite (fun _ => .of_level ?_) fun _ => .of_level (marks.still (.pure result))
      · cases done
        subst begins
        have reach := (FrameStack.inReach_iff_of_seats marked.seats).2 (@FrameStack.inReach_top s)
        refine ⟨.mark reach (fun _ => rfl) fun g found due => ?_, rfl⟩
        have here : s.get? (s.depth - 1) = some top := List.getLast?_eq_getElem?.symm.trans last
        have same := marked.get?_atRest (s.depth - 1)
        rw [found, here, Option.map_some, Option.map_some] at same
        have ensemble : g.runsEnsemble = top.runsEnsemble := (congrArg Frame.runsEnsemble (Option.some.inj same) :)
        rw [Frame.isDue, ensemble, container, Bool.not_true, Bool.and_false] at due
        cases due
      · exact marks.still ((composed_unknownSubMethod h target _ meant.1).bind fun f =>
          (Composed.throw f).bind fun _ => .pure result)
    | some found =>
      refine .after (still_lift (.object target)) fun o => .ite (fun _ => .of_moves (marks.call _ _ _ _)) fun _ => ?_
      refine .after (still_lift (Level.of_deeds (Deed.along_follow _ _))) fun method w v r begins done => ?_
      exact marks.run _ _ _ w r v (fun _ => ⟨top, begins ▸ last, container⟩) done

/-- What a method does in its frame, the innermost one, marks frames in reach, besides marking the frame of an ensemble. -/
theorem implement (marks : host.Marks) (s : FrameStack) (frame : Frame) (h : Handle) (method : Method) (args : List Value)
    (mods : CallModifiers) {w v : World} {r : Except Failure Value} (begins : w.stack = s.push frame)
    (done : (Invocation.implement host s.depth h method args mods).exec w = some (r, v)) :
    ∃ f, f = { frame with runsEnsemble := f.runsEnsemble } ∧
      ((∀ c, method.implementation ≠ .ensemble c) → f = frame) ∧ Marking (s.push f) v.stack ∧
        v.guardDepth = w.guardDepth := by
  by_cases splits : ∃ container, method.implementation = .ensemble container
  · obtain ⟨container, ensemble⟩ := splits
    simp only [Invocation.implement, ensemble] at done
    rw [exec_runEnsemble] at done
    obtain ⟨f, is⟩ : ∃ f, f = { frame with runsEnsemble := true } := ⟨_, rfl⟩
    have marked : (asEnsemble s.depth w).stack = s.push f := by
      rw [asEnsemble, begins, FrameStack.modify_push, is]
    have top : (s.push f).depth - 1 = s.depth := by simp [FrameStack.depth, FrameStack.push]
    have distributes := marks.distribute (s := s.push f) List.getLast?_concat (by rw [is]) h container args mods
    rw [top] at distributes
    have ends := distributes _ _ _ marked done
    exact ⟨f, by rw [is], fun single => absurd ensemble (single container), marked ▸ ends.stack, ends.guardDepth⟩
  · have single := @composed_implement False s.depth h method args mods (not_exists.1 splits)
    have ends := marks.marking single _ _ _ done
    exact ⟨frame, rfl, fun _ => rfl, begins ▸ ends.stack, ends.guardDepth⟩

/-- Closing the innermost frame. -/
theorem close (marks : host.Marks) {s : FrameStack} {frame : Frame} (seats : s.Seats frame) (outcome : Except Failure Value)
    {w v : World} {r : Except Failure Value} (marking : Marking (s.push frame) w.stack)
    (done : (Invocation.close host outcome).exec w = some (r, v)) :
    Marking s v.stack ∧ v.guardDepth = w.guardDepth := by
  unfold Invocation.close at done
  rw [Action.exec_bind_of_ok (Action.exec_get w)] at done
  cases top : w.stack.top? with
  | none =>
    have empty : w.stack.frames = [] := List.getLast?_eq_none_iff.1 top
    have depth := marking.depth
    simp [FrameStack.depth, FrameStack.push, empty] at depth
  | some f =>
    simp only [top] at done
    rw [Action.exec_bind_of_ok (Action.exec_modify _ w)] at done
    have concludes : (Action.settle (conclude host f outcome)).Moves FramesMarked :=
      (marks.marking (composed_conclude f outcome)).settle
    have rest : (do
        popPositions f.object f.pushedFilterPosition f.pushedMixinPosition
        let outcome ← Action.settle (conclude host f outcome)
        letGo f.object
        Action.resume outcome : Action Value).Moves FramesMarked := by
      refine .bind (fun _ _ _ => .trans) (.lift (fun _ _ => .of_level) (Level.along_popPositions _ _ _)) fun _ => ?_
      refine .bind (fun _ _ _ => .trans) concludes fun outcome => ?_
      exact .bind (fun _ _ _ => .trans) (.lift (fun _ _ => .of_level) (Level.along_letGo _)) fun _ =>
        marks.marking (@Composed.resume True False _ outcome)
    have ends := rest _ _ _ done
    exact ⟨(marking.pop seats).trans ends.stack, ends.guardDepth⟩

end Host.Marks

/-- A task that can be begun: a frame that opens for a sub-method opens on its ensemble. -/
def Task.Seated : Task → FrameStack → Prop
  | .run frame _ _, s => s.Seats frame
  | .eval .., _ | .call .., _ => True

namespace Host.Marks

variable {host : Host}

theorem invocationCall (marks : host.Marks) (h : Handle) (name : String) (args : List Value) (mods : CallModifiers) :
    (Invocation.call host h name args mods).Moves FramesMarked := by
  unfold Invocation.call
  refine .bind (fun _ _ _ => .trans) (marks.marking (@Composed.get True False)) fun w => ?_
  refine .behind (fun _ _ _ => .trans) (marks.marking (@Composed.throw True False _ _)) ?_
  refine .bind (fun _ _ _ => .trans) (.lift (fun _ _ => .of_level) (.object h)) fun _ => ?_
  refine .after (fun _ _ _ => .trans) (marks.marking (@composed_resolve False h name mods)) single_resolve
    fun found single => ?_
  cases found with
  | some resolved => exact marks.enter h name (single _ rfl) args mods
  | none => exact marks.marking (composed_answerNotFound h name args mods)

/-- The interpreter keeps to marks in reach if its host does. -/
theorem interpret (marks : host.Marks) {task : Task} {w v : World} {r : Except Failure Value} (seated : task.Seated w.stack)
    (done : (DynamicObjects.interpret host task).exec w = some (r, v)) : FramesMarked w v := by
  cases task with
  | eval s e => exact marks.marking_of_next marks.next (Script.composed_evaluate s e) _ _ _ done
  | call h name args mods =>
    exact marks.invocationCall h name args mods _ _ _ done
  | run frame method mods =>
    change (Invocation.run host frame method mods).exec w = some (r, v) at done
    unfold Invocation.run at done
    rw [Action.exec_bind_of_ok (Action.exec_get w), Action.exec_bind_of_ok (Action.exec_modify _ w),
      Action.exec_liftM_bind_of_ok (rfl : (hold frame.object).exec _ = (.ok ⟨⟩, w.opened frame)),
      Action.exec_settle_bind] at done
    obtain ⟨⟨outcome, x⟩, ran, closed⟩ := Option.bind_eq_some_iff.1 done
    obtain ⟨f, same, -, marking, still⟩ := marks.implement w.stack frame frame.object method frame.arguments mods rfl ran
    have kind : f.kind = frame.kind := (congrArg Frame.kind same :)
    obtain ⟨marked, same⟩ := marks.close (fun sub => seated (kind ▸ sub)) outcome marking closed
    exact ⟨marked, same.trans still⟩

theorem ofTasks {f : Task → Action Value} (keeps : ∀ task w v r, task.Seated w.stack → (f task).exec w = some (r, v) →
    FramesMarked w v) : (Host.ofTasks f).Marks where
  eval s e w v r := keeps (.eval s e) w v r trivial
  call h name args mods w v r := keeps (.call h name args mods) w v r trivial
  run frame method mods w r v := keeps (.run frame method mods) w v r

theorem perform (marks : host.Marks) {task : Task} {w v : World} {r : Except Failure Value} (seated : task.Seated w.stack)
    (done : (host.perform task).exec w = some (r, v)) : FramesMarked w v := by
  cases task with
  | eval s e => exact marks.eval s e _ _ _ done
  | call h name args mods => exact marks.call h name args mods _ _ _ done
  | run frame method mods => exact marks.run frame method mods _ _ _ seated done

theorem hostWithin (good : Objects → Prop) (depth : Nat) : (DynamicObjects.hostWithin good depth).Marks := by
  induction depth with
  | zero =>
    refine ⟨fun _ _ _ _ _ done => ?_, fun _ _ _ _ _ _ _ done => ?_, fun _ _ _ _ _ _ _ done => ?_⟩
    · cases done
    · cases done
    · cases done
  | succ depth ih =>
    exact ofTasks fun task w v r seated done => ih.interpret seated (Action.exec_within_eq_some.1 done).2.2

/-- A host that fails where it has no result keeps to marks in reach as before. -/
theorem failing (marks : host.Marks) : host.failing.Marks := by
  refine ofTasks fun task w v r seated done => ?_
  have done : some (((host.perform task).exec w).getD (.error (.recursion 0), task.closed w)) = some (r, v) := done
  cases result : (host.perform task).exec w with
  | some result' =>
    rw [result] at done
    cases done
    exact marks.perform seated result
  | none =>
    rw [result] at done
    cases done
    cases task <;> exact ⟨.refl _, rfl⟩

end Host.Marks

end DynamicObjects
