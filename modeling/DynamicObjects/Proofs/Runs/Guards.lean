import DynamicObjects.Proofs.Runs.SubMethods

/-!
# Guards

While a guard is open, calls start with no filter, and mixins take part without their guards. Next calls do not ask whether a
guard is open when they go from a filter to the next one and evaluate its guard. But they go on behind the active frame or
behind the ensemble of an active sub-method, and that is never a frame below a guard: the frame of a guard is visible, and
no sub-method's. So at most one guard is open, and inside of it neither filters nor guards are.
-/
namespace DynamicObjects

open Invocation

/-! ## What is open inside of a guard -/

namespace Frame

/-- What may be open inside of a frame: neither filters nor further guards inside of a guard. -/
def Admits (f g : Frame) : Prop :=
  f.isGuard = true → g.isGuard = false ∧ g.kind.isFilter = false

/-- What tells guards and filters, whether or not they run next calls. -/
def rank (f : Frame) : Bool × Bool × FrameKind :=
  (f.isGuard, f.visible, f.kind.deactivated)

theorem pairwise_admits_iff {frames : List Frame} : frames.Pairwise Admits ↔
    (frames.map rank).Pairwise fun r s => r.1 = true → s.1 = false ∧ s.2.2.isFilter = false := by
  rw [List.pairwise_map]
  exact List.Pairwise.iff fun f g => by simp only [Admits, rank, FrameKind.isFilter_deactivated]

end Frame

/-- The open guards are counted, their frames are visible and of no special kind, and neither filters nor guards are open
inside of them. -/
structure World.GuardsApart (w : World) : Prop where
  counted : w.guardDepth = w.stack.frames.countP (·.isGuard)
  plain : ∀ f ∈ w.stack.frames, f.isGuard = true → f.visible = true ∧ f.kind = .plain
  inside : w.stack.frames.Pairwise Frame.Admits

namespace World.GuardsApart

variable {v w : World} {f : Frame}

theorem of_ranks (apart : v.GuardsApart) (depth : w.guardDepth = v.guardDepth)
    (same : w.stack.frames.map Frame.rank = v.stack.frames.map Frame.rank) : w.GuardsApart where
  counted := by
    have counts := congrArg (List.countP (·.1)) same
    rw [List.countP_map, List.countP_map] at counts
    exact depth.trans (apart.counted.trans counts.symm)
  plain f member guard := by
    have ranked : f.rank ∈ v.stack.frames.map Frame.rank := same ▸ List.mem_map_of_mem member
    obtain ⟨g, member', rank⟩ := List.mem_map.1 ranked
    simp only [Frame.rank, Prod.mk.injEq] at rank
    obtain ⟨isGuard, visible, kind⟩ := rank
    obtain ⟨shows, plain⟩ := apart.plain g member' (isGuard.trans guard)
    rw [plain] at kind
    exact ⟨visible.symm.trans shows, FrameKind.eq_plain_of_deactivated kind.symm⟩
  inside := by
    rw [Frame.pairwise_admits_iff, same]
    exact Frame.pairwise_admits_iff.1 apart.inside

theorem noGuard (apart : w.GuardsApart) (none : w.guardDepth = 0) : ∀ f ∈ w.stack.frames, f.isGuard = false := by
  have counted := List.countP_eq_zero.1 (apart.counted.symm.trans none)
  exact fun f member => Bool.eq_false_iff.2 (counted f member)

/-- A frame is opened; that of a guard or a filter where no guard is open. -/
theorem push (apart : v.GuardsApart) (outside : f.isGuard = true ∨ f.kind.isFilter = true → v.guardDepth = 0)
    (plain : f.isGuard = true → f.visible = true ∧ f.kind = .plain) (stack : w.stack = v.stack.push f)
    (depth : w.guardDepth = v.guardDepth + f.isGuard.toNat) : w.GuardsApart where
  counted := by
    rw [depth, apart.counted, stack, FrameStack.push, List.countP_append, List.countP_singleton]
    cases f.isGuard <;> rfl
  plain g member guard := by
    rw [stack] at member
    rcases List.mem_append.1 member with member | top
    · exact apart.plain g member guard
    · cases List.mem_singleton.1 top
      exact plain guard
  inside := by
    rw [stack]
    refine List.pairwise_append.2 ⟨apart.inside, List.pairwise_singleton _ _, fun g member f' top guard => ?_⟩
    cases List.mem_singleton.1 top
    have within : v.guardDepth ≠ 0 := fun none => Bool.false_ne_true ((apart.noGuard none g member).symm.trans guard)
    exact ⟨Bool.eq_false_iff.2 fun guards => within (outside (.inl guards)),
      Bool.eq_false_iff.2 fun filters => within (outside (.inr filters))⟩

end World.GuardsApart

/-! ## What next calls reach while a guard is open -/

/-- Next calls reach nothing below a visible frame that is no sub-method's. -/
theorem FrameStack.SubsSeated.le_of_inReach {s : FrameStack} {i j : Nat} {f : Frame} (seated : s.SubsSeated)
    (here : s.get? j = some f) (shows : f.visible = true) (single : f.kind ≠ .ensemble) (reach : s.InReach i) : j ≤ i := by
  rcases reach with above | stands
  · obtain ⟨k, last, below⟩ := exists_lastIndex?_ge (p := fun f => f.visible && f.kind != .ensemble) here
      (by simp [shows, single])
    rw [FrameStack.floor, last] at above
    exact below.trans above
  · obtain ⟨a, active, below⟩ : ∃ a, s.activeIndex? = some a ∧ j ≤ a := exists_lastIndex?_ge here shows
    obtain ⟨g, top⟩ : ∃ g, s.get? a = some g := ⟨_, List.getElem?_eq_getElem (lastIndex?_lt active)⟩
    by_cases sub : g.kind = .ensemble
    · obtain ⟨k, _, rfl, -, -, goesOn⟩ := seated.exists_container active top sub
      cases goesOn.symm.trans stands
      -- The visible frame is not that of the active sub-method itself, so it is no further in than the ensemble.
      have apart : j ≠ i + 1 := by
        rintro rfl
        obtain rfl : f = g := Option.some.inj (here.symm.trans top)
        exact single sub
      omega
    · unfold FrameStack.nextIndex? at stands
      rw [active, Option.bind_some, top, Option.any_some, beq_false_of_ne sub, if_neg Bool.false_ne_true] at stands
      cases stands
      exact below

namespace World.GuardsApart

variable {v w : World} {i j : Nat} {f g : Frame}

theorem get? (apart : w.GuardsApart) (within : i < j) (below : w.stack.get? i = some f) (guard : f.isGuard = true)
    (above : w.stack.get? j = some g) : g.isGuard = false ∧ g.kind.isFilter = false := by
  obtain ⟨_, rfl⟩ := List.getElem?_eq_some_iff.1 below
  obtain ⟨_, rfl⟩ := List.getElem?_eq_some_iff.1 above
  exact List.pairwise_iff_getElem.1 apart.inside i j _ _ within guard

/-- Where filters may be come to, no guard is open. -/
theorem unguarded (apart : w.GuardsApart) (seated : w.stack.SubsSeated) (filters : w.Filters) : w.guardDepth = 0 := by
  obtain none | ⟨i, f, reach, here, filter⟩ := filters
  · exact none
  by_contra guarded
  obtain ⟨g, member, guard⟩ := List.countP_pos_iff.1 (apart.counted ▸ Nat.pos_of_ne_zero guarded)
  obtain ⟨j, below⟩ := List.getElem?_of_mem member
  obtain ⟨shows, plain⟩ := apart.plain g member guard
  have noFilter : f.kind.isFilter = false := by
    rcases (seated.le_of_inReach below shows (by rw [plain]; decide) reach).lt_or_eq with within | rfl
    · exact (apart.get? within below guard here).2
    · cases here.symm.trans below
      rw [plain]
      rfl
  exact Bool.false_ne_true (noFilter.symm.trans filter)

/-- There is no second guard inside of the first. -/
theorem guardDepth_le (apart : w.GuardsApart) : w.guardDepth ≤ 1 := by
  rw [apart.counted, List.countP_eq_length_filter]
  have inside := apart.inside.sublist (List.filter_sublist (p := (·.isGuard)))
  cases open_ : w.stack.frames.filter (·.isGuard) with
  | nil => exact Nat.zero_le 1
  | cons f others =>
    rw [open_] at inside
    cases others with
    | nil => exact le_rfl
    | cons g others =>
      have guards : ∀ h ∈ f :: g :: others, h.isGuard = true := fun h member =>
        (List.mem_filter.1 (open_ ▸ member)).2
      have noGuard := (List.rel_of_pairwise_cons inside List.mem_cons_self (guards f List.mem_cons_self)).1
      exact absurd (noGuard.symm.trans (guards g (List.mem_cons_of_mem f List.mem_cons_self))) Bool.false_ne_true

/-! ## Steps -/

theorem of_empty (empty : w.stack = {}) (none : w.guardDepth = 0) : w.GuardsApart := by
  have noFrames : w.stack.frames = [] := congrArg FrameStack.frames empty
  refine ⟨?_, ?_, ?_⟩
  · rw [none, noFrames]
    rfl
  · rw [noFrames]
    exact fun f member => absurd member List.not_mem_nil
  · rw [noFrames]
    exact .nil

theorem marked (apart : v.GuardsApart) (marked : FramesMarked v w) : w.GuardsApart := by
  have ranks := congrArg (List.map Frame.rank) marked.stack.atRest
  rw [List.map_map, List.map_map] at ranks
  exact apart.of_ranks marked.guardDepth ranks

theorem passing (apart : w.GuardsApart) (here : w.stack.get? i = some f) : (offTo i f.kind w).GuardsApart := by
  refine apart.of_ranks rfl (w.stack.frames_modify_map i fun g found => ?_)
  cases here.symm.trans found
  exact congrArg (f.isGuard, f.visible, ·) f.kind.deactivated_deactivated

theorem distributing (apart : (w.opened f).GuardsApart) : (w.opened { f with runsEnsemble := true }).GuardsApart := by
  refine apart.of_ranks rfl ?_
  simp only [World.opened, FrameStack.push, List.map_append]
  rfl

theorem guarded (apart : w.GuardsApart) (none : w.guardDepth = 0) (h : Handle) (name : String) :
    (w.guarded h name).GuardsApart :=
  apart.push (fun _ => none) (fun _ => ⟨rfl, rfl⟩) rfl rfl

theorem opened (apart : w.GuardsApart) (noGuard : f.isGuard = false) (filters : f.kind.isFilter = true → w.guardDepth = 0) :
    (w.opened f).GuardsApart := by
  have never : f.isGuard ≠ true := Bool.eq_false_iff.1 noGuard
  refine apart.push (fun special => special.elim (absurd · never) filters) (absurd · never) rfl ?_
  rw [noGuard]
  rfl

end World.GuardsApart

/-- No step opens a guard or a filter inside of a guard. -/
theorem World.kept_guardsApart : World.Kept fun w => w.GuardsApart ∧ w.stack.SubsSeated := by
  have seated := FrameStack.kept_subsSeated.ofWorld
  exact {
    start := fun empty none => ⟨.of_empty empty none, seated.start empty none⟩
    marked := fun marked kept => ⟨kept.1.marked marked, seated.marked marked kept.2⟩
    passing := fun here kept => ⟨kept.1.passing here, seated.passing here kept.2⟩
    distributing := fun kept => ⟨kept.1.distributing, seated.distributing kept.2⟩
    guarded := fun filters kept => ⟨kept.1.guarded (kept.1.unguarded kept.2 filters) _ _, seated.guarded filters kept.2⟩
    opened := fun single noGuard filters comes kept =>
      ⟨kept.1.opened noGuard fun filter => kept.1.unguarded kept.2 (filters filter),
        seated.opened single noGuard filters comes kept.2⟩
    subOpened := fun last container means kept =>
      ⟨kept.1.opened rfl nofun, seated.subOpened last container means kept.2⟩ }

/-! ## Runs -/

/-- The worlds that a run passes: those in which code runs, those in which tasks begin, and those in which they have
ended. -/
inductive Passed (good : Objects → Prop) : World → Prop where
  | running {w : World} (running : Running good w) : Passed good w
  | begins {task : Task} {w : World} (entered : Entered good task w) : Passed good w
  | ends {task : Task} {depth : Nat} {w v : World} {r : Except Failure Value} (entered : Entered good task w)
      (done : ((hostWithin good depth).perform task).exec w = some (r, v)) : Passed good v

/-- What is kept by every step holds throughout. -/
theorem Passed.holds {good : Objects → Prop} {p : World → Prop} {w : World} (keeps : World.Kept p)
    (passed : Passed good w) : p w := by
  cases passed with
  | running running => exact running.holds keeps
  | begins entered => exact (entered.begins keeps).before
  | ends entered done =>
    have begins := entered.begins keeps
    exact keeps.marked ((Host.Marks.hostWithin good _).perform begins.seated done) begins.before

/-- Whatever a guard does, at most one guard is open, and neither filters nor guards are open inside of it. -/
theorem Passed.guardsApart {good : Objects → Prop} {w : World} (passed : Passed good w) :
    w.guardDepth ≤ 1 ∧ w.stack.frames.countP (·.isGuard) = w.guardDepth ∧
      ∀ i j f g, i < j → w.stack.get? i = some f → f.isGuard = true → w.stack.get? j = some g →
        g.isGuard = false ∧ g.kind.isFilter = false := by
  have apart := (passed.holds World.kept_guardsApart).1
  exact ⟨apart.guardDepth_le, apart.counted.symm, fun _ _ _ _ within below guard => apart.get? within below guard⟩

/-- A guard that calls a method of another object. -/
def askingGuard : PredicateOf Expr where
  source := "guard"
  test := .dispatch (.name "p") (.list []) (.literal (.text "work")) {}

/-- A mixin with that guard; the calls of the other object are filtered. -/
def askingSession : List Expr :=
  [foundation, Trial.createClass "C", Trial.createClass "M",
    Trial.define .instances "C" (Trial.method "work" (Trial.text "work")),
    Trial.define .instances "C" (Trial.method "f" (.next none)),
    Trial.define .instances "M" (Trial.method "work" (.next none)), Trial.createObject "p" "C",
    Trial.addFilter .object "p" "f", Trial.createObject "o" "C",
    .change (.addMixin .object (.name "o") ⟨.name "M", some askingGuard⟩)]

def askingWorld : World :=
  (sessionWithin Heap.HandlesRemain 5 askingSession).get (by decide +kernel)

theorem session_askingWorld : Session Heap.HandlesRemain askingWorld :=
  of_sessionWithin (.start {}) (fun _ _ _ _ session done => .ended session done) (Option.some_get _).symm

/-- What a call of `work` on the other object finds, on a host that answers nothing. -/
def foundAsking? (w : World) : Option (Resolved × World) :=
  match (resolve (hostChecking Heap.HandlesRemain 0) ⟨4, 0⟩ "work" {}).exec w with
  | some (.ok (some resolved), v) => some (resolved, v)
  | _ => none

/-- Whether a guard makes that call. -/
def asksForWork (guard : Predicate) : Bool :=
  match guard.test with
  | .dispatch (.name n) (.list []) (.literal (.text m)) mods => n == "p" && m == "work" && mods == {}
  | _ => false

theorem test_of_asksForWork {guard : Predicate} (asks : asksForWork guard = true) :
    guard.test = .dispatch (.name "p") (.list []) (.literal (.text "work")) {} := by
  unfold asksForWork at asks
  split at asks
  · next test =>
    simp only [Bool.and_eq_true, beq_iff_eq] at asks
    rw [test, asks.1.1, asks.1.2, asks.2]
  · cases asks

/-- What a host finds on its own while a guard is open, every host finds. -/
theorem exec_resolve_of_foundAsking? {w v : World} {resolved : Resolved} (guarded : w.guardDepth ≠ 0)
    (found : foundAsking? w = some (resolved, v)) (k : Host) :
    (resolve k ⟨4, 0⟩ "work" {}).exec w = some (.ok (some resolved), v) := by
  rw [exec_resolve_same_of_guarded guarded k (hostChecking Heap.HandlesRemain 0)]
  unfold foundAsking? at found
  split at found
  · next searched =>
    cases found
    exact searched
  · cases found

/-- The guard of the mixin calls the other object, of which a method runs. -/
theorem entered_asking : ∃ frame method v, Entered Heap.HandlesRemain (.run frame method {}) v ∧ frame.object = ⟨4, 0⟩ ∧
    v.stack.depth = 1 ∧ (v.stack.get? 0).any (·.isGuard) = true := by
  have begins : askingWorld.objects.HandlesRemain := by decide +kernel
  have named : Lifecycle.objectNamed? askingWorld "o" = some ⟨5, 0⟩ := by decide +kernel
  have callable : Callable askingWorld ⟨5, 0⟩ "work" {} := by decide +kernel
  have first : ((firstGuard? askingWorld ⟨5, 0⟩ "work").any fun (guard, u) =>
      (asksForWork guard && decide (Lifecycle.objectNamed? u "p" = some ⟨4, 0⟩) && (u.live? ⟨4, 0⟩).isSome &&
        decide (u.stack.depth < u.settings.maxDepth) && decide (u.guardDepth ≠ 0) && decide u.objects.HandlesRemain) &&
      (foundAsking? u).any fun (resolved, v) =>
        decide (resolved.method.kind ≠ .aliased) && decide (v.stack.depth = 1) && (v.stack.get? 0).any (·.isGuard)) =
      true := by
    decide +kernel
  obtain ⟨⟨guard, u⟩, guarded, holds⟩ := Option.any_eq_true .. |>.1 first
  obtain ⟨inside, holds⟩ := Bool.and_eq_true_iff.1 holds
  obtain ⟨⟨resolved, v⟩, found, holds⟩ := Option.any_eq_true .. |>.1 holds
  simp only [Bool.and_eq_true, decide_eq_true_eq] at inside holds
  obtain ⟨⟨⟨⟨⟨asks, namedInside⟩, live⟩, room⟩, open_⟩, good⟩ := inside
  obtain ⟨⟨direct, depth⟩, isGuard⟩ := holds
  obtain ⟨o, live⟩ := Option.isSome_iff_exists.1 live
  have calls : AsksFor (hostWithin Heap.HandlesRemain 1).failing
    (.eval .none (.dispatch (.name "o") (.list []) (.literal (.text "work")) {})) askingWorld
      (.call ⟨5, 0⟩ "work" [] {}) askingWorld := asksFor_call_of_name named begins
  have guards : AsksFor (hostWithin Heap.HandlesRemain 1).failing (.call ⟨5, 0⟩ "work" [] {}) askingWorld
      (.eval .none guard.test) u := asksFor_guard callable guarded
  have callsInside : AsksFor (hostWithin Heap.HandlesRemain 1).failing (.eval .none guard.test) u
      (.call ⟨4, 0⟩ "work" [] {}) u := test_of_asksForWork asks ▸ asksFor_call_of_name namedInside good
  have runs : AsksFor (hostWithin Heap.HandlesRemain 1).failing (.call ⟨4, 0⟩ "work" [] {}) u
      (.run (frameFor ⟨4, 0⟩ "work" resolved resolved.method [] {}) resolved.method {}) v :=
    asksFor_run_of_resolve live room (exec_resolve_of_foundAsking? open_ found _) direct
  have entered := ((Entered.step session_askingWorld _).sub begins calls).sub begins guards
  exact ⟨_, _, v, (entered.sub good callsInside).sub good runs, rfl, depth, isGuard⟩

/-- The guard is open, and inside of it the method runs; outside of guards the same call comes to the filter. -/
theorem guardsApart_asking : (foundAsking? askingWorld).any (·.1.kind.isFilter) = true ∧
    ∃ w f g, Passed Heap.HandlesRemain w ∧ w.stack.get? 0 = some f ∧ f.isGuard = true ∧ w.stack.get? 1 = some g ∧
      g.object = ⟨4, 0⟩ ∧ g.isGuard = false ∧ g.kind.isFilter = false := by
  refine ⟨by decide +kernel, ?_⟩
  obtain ⟨frame, method, v, entered, object, depth, isGuard⟩ := entered_asking
  obtain ⟨f, below, guard⟩ := Option.any_eq_true .. |>.1 isGuard
  have passed : Passed Heap.HandlesRemain (v.opened frame) := .running (.begun entered)
  have below : (v.opened frame).stack.get? 0 = some f :=
    (FrameStack.get?_push_of_lt frame (FrameStack.get?_lt below)).trans below
  have above : (v.opened frame).stack.get? 1 = some frame := depth ▸ FrameStack.get?_push v.stack frame
  have inside := (Passed.guardsApart passed).2.2 0 1 f frame Nat.zero_lt_one below guard above
  exact ⟨_, f, frame, passed, below, guard, above, object, inside⟩

end DynamicObjects
