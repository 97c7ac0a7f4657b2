import DynamicObjects.Proofs.Runs.Callers
import DynamicObjects.Proofs.Runs.SubMethods

/-!
# Where filters stand

The innermost frame that shows and runs no sub-method is the ground on which a next call goes on. If that frame is a
filter's, the innermost position in the filter order of its receiver is at the filter, under the name the caller asked for.
A next call moves the position on to the filter that it finds, opens the frame of that filter, and sets the position back
when it returns. Unknown handling that is left to the closing of such a frame comes in between: the position is ahead then.
-/
namespace DynamicObjects

open Invocation

/-- What tells the filter apart that runs in a frame. -/
def Frame.key (f : Frame) : FilterKey :=
  ⟨f.definer, f.methodName⟩

/-- A frame is that of the first filter of the call in which another filter runs: the position of the filter was pushed for
it. -/
structure Frame.Leads (first f : Frame) : Prop where
  filter : first.kind.isFilter = true
  pushed : first.pushedFilterPosition = true
  object : first.object = f.object
  called : first.called = f.called

/-- Whether next calls go on behind a frame itself. -/
def Frame.grounds (f : Frame) : Bool :=
  f.visible && f.kind != .ensemble

/-- What tells whether a frame is the ground, and where a filter or a mixin is that runs in it. -/
def Frame.stance (f : Frame) : Bool × Bool × Bool × Handle × FilterKey × String :=
  (f.grounds, f.kind.isFilter, f.kind.isMixin, f.object, f.key, f.called)

theorem Frame.stances_of_settled {frames others : List Frame}
    (same : others.map Frame.settled = frames.map Frame.settled) : others.map Frame.stance = frames.map Frame.stance := by
  have stances := congrArg (List.map Frame.stance) same
  rw [List.map_map, List.map_map] at stances
  exact stances

namespace FrameStack

variable {s t : FrameStack} {f : Frame} {i : Nat}

/-- The innermost visible frame that runs no sub-method. -/
def ground? (s : FrameStack) : Option Frame :=
  (lastIndex? Frame.grounds s.frames).bind s.get?

theorem ground?_push (grounds : f.grounds = true) : (s.push f).ground? = some f := by
  rw [ground?, push, lastIndex?_concat s.frames grounds, Option.bind_some]
  exact get?_push s f

theorem ground?_push_of_not (passed : f.grounds = false) : (s.push f).ground? = s.ground? := by
  have same : lastIndex? Frame.grounds (s.push f).frames = lastIndex? Frame.grounds s.frames :=
    lastIndex?_append_of_not s.frames (by simpa using passed)
  rw [ground?, ground?, same]
  cases last : lastIndex? Frame.grounds s.frames with
  | none => rfl
  | some k => exact get?_push_of_lt f (lastIndex?_lt last)

theorem ground?_of_top (top : s.top? = some f) (grounds : f.grounds = true) : s.ground? = some f := by
  have ends : s = (⟨s.frames.dropLast⟩ : FrameStack).push f :=
    congrArg FrameStack.mk (List.dropLast_append_getLast? f top).symm
  rw [ends]
  exact ground?_push grounds

theorem ground?_of_stances (same : t.frames.map Frame.stance = s.frames.map Frame.stance) :
    t.ground?.map Frame.stance = s.ground?.map Frame.stance := by
  have last : lastIndex? Frame.grounds t.frames = lastIndex? Frame.grounds s.frames :=
    lastIndex?_congr same fun stance => stance.1
  rw [ground?, ground?, last]
  cases lastIndex? Frame.grounds s.frames with
  | none => rfl
  | some k => exact map_get?_of_map same k

theorem ground?_eq (here : s.get? i = some f) (grounds : f.grounds = true)
    (above : ∀ k g, i < k → s.get? k = some g → g.grounds = false) : s.ground? = some f := by
  have within : i < s.frames.length := get?_lt here
  have splits : s.frames = s.frames.take i ++ f :: s.frames.drop (i + 1) := by
    obtain rfl : s.frames[i] = f := Option.some.inj ((List.getElem?_eq_getElem within).symm.trans here)
    rw [← List.drop_eq_getElem_cons within, List.take_append_drop]
  have nowhere : ∀ g ∈ s.frames.drop (i + 1), g.grounds = false := by
    intro g member
    obtain ⟨k, there⟩ := List.mem_iff_getElem?.1 member
    rw [List.getElem?_drop] at there
    exact above (i + 1 + k) g (by omega) there
  have last : lastIndex? Frame.grounds s.frames = some i := by
    have found := lastIndex?_append_cons (s.frames.take i) grounds nowhere
    rwa [← splits, List.length_take, Nat.min_eq_left within.le] at found
  rw [ground?, last, Option.bind_some, here]

/-- No frame above the active one shows. -/
theorem not_visible_above (active : s.activeIndex? = some i) {k : Nat} (above : i < k) (there : s.get? k = some f) :
    f.visible = false := by
  obtain ⟨a, rest, splits, -, nowhere⟩ := exists_of_lastIndex? active
  have within : i < s.frames.length := lastIndex?_lt active
  have behind : rest[k - (i + 1)]? = some f := by
    rw [get?, splits, List.getElem?_append_right (by rw [List.length_take]; omega), List.length_take,
      Nat.min_eq_left within.le] at there
    rwa [show k - i = k - (i + 1) + 1 by omega, List.getElem?_cons_succ] at there
  exact nowhere f (List.mem_of_getElem? behind)

/-- Frames of filters show. At or below each one is the frame of the first filter of its call. -/
def FiltersLed (s : FrameStack) : Prop :=
  ∀ i f, s.get? i = some f → f.kind.isFilter = true →
    f.visible = true ∧ ∃ j first, j ≤ i ∧ s.get? j = some first ∧ first.Leads f

theorem grounds_of_filter (shows : f.visible = true) (filter : f.kind.isFilter = true) : f.grounds = true := by
  cases kind : f.kind <;> simp_all [Frame.grounds, FrameKind.isFilter]

/-- The active frame is the ground unless it runs a sub-method. -/
theorem ground?_of_active (active : s.activeIndex? = some i) (here : s.get? i = some f) (single : f.kind ≠ .ensemble) :
    s.ground? = some f := by
  obtain ⟨rest, -, -, shows, -⟩ := exists_of_activeIndex? active here
  refine ground?_eq here (by simp [Frame.grounds, shows, single]) fun k g above there => ?_
  rw [Frame.grounds, not_visible_above active above there, Bool.false_and]

/-- A frame behind which a next call goes on is the ground, if it can be. -/
theorem ground?_of_grounds (seated : s.SubsSeated) (stands : s.nextIndex? = some i) (here : s.get? i = some f)
    (grounds : f.grounds = true) : s.ground? = some f := by
  obtain ⟨a, active, -⟩ := Option.bind_eq_some_iff.1 (show s.activeIndex?.bind _ = some i from stands)
  obtain ⟨g, there⟩ : ∃ g, s.get? a = some g := ⟨_, List.getElem?_eq_getElem (lastIndex?_lt active)⟩
  by_cases sub : g.kind = .ensemble
  · obtain ⟨k, container, rfl, below, -, goesOn⟩ := seated.exists_container active there sub
    obtain rfl : k = i := Option.some.inj (goesOn.symm.trans stands)
    refine ground?_eq here grounds fun j h above found => ?_
    rcases Nat.eq_or_lt_of_le (Nat.succ_le_of_lt above) with rfl | above
    · cases there.symm.trans found
      simp [Frame.grounds, sub]
    · rw [Frame.grounds, not_visible_above active above found, Bool.false_and]
  · have goesOn : s.nextIndex? = some a := by
      unfold nextIndex?
      rw [active, Option.bind_some, there, Option.any_some, beq_false_of_ne sub]
      rfl
    obtain rfl : a = i := Option.some.inj (goesOn.symm.trans stands)
    cases there.symm.trans here
    exact ground?_of_active active here sub

/-- If a next call goes on behind a filter, the frame of the filter is the ground. -/
theorem ground?_of_nextIndex? (seated : s.SubsSeated) (led : s.FiltersLed) (stands : s.nextIndex? = some i)
    (here : s.get? i = some f) (filter : f.kind.isFilter = true) : s.ground? = some f :=
  ground?_of_grounds seated stands here (grounds_of_filter (led i f here filter).1 filter)

end FrameStack

/-- What tells which filters are in reach of which calls. -/
def Frame.lead (f : Frame) : Bool × Bool × Bool × Handle × String :=
  (f.visible, f.kind.isFilter, f.pushedFilterPosition, f.object, f.called)

namespace FrameStack.FiltersLed

variable {s t : FrameStack} {f : Frame}

theorem of_leads (led : s.FiltersLed) (same : t.frames.map Frame.lead = s.frames.map Frame.lead) : t.FiltersLed := by
  intro i g found filter
  obtain ⟨f, found', lead⟩ := exists_of_map same.symm found
  simp only [Frame.lead, Prod.mk.injEq] at lead
  obtain ⟨visible, kind, -, object, called⟩ := lead
  obtain ⟨shows, j, first, within, below, begins⟩ := led i f found' (kind.trans filter)
  obtain ⟨first', below', lead⟩ := exists_of_map same below
  simp only [Frame.lead, Prod.mk.injEq] at lead
  obtain ⟨-, kind', pushed', object', called'⟩ := lead
  exact ⟨visible.symm.trans shows, j, first', within, below', kind'.trans begins.filter, pushed'.trans begins.pushed,
    (object'.trans begins.object).trans object, (called'.trans begins.called).trans called⟩

theorem push (led : s.FiltersLed) (comes : s.ComesTo f) : (s.push f).FiltersLed := by
  intro i g found filter
  rcases get?_push_eq_some found with found | ⟨rfl, rfl⟩
  · obtain ⟨shows, j, first, within, below, begins⟩ := led i g found filter
    exact ⟨shows, j, first, within, (get?_push_of_lt f (get?_lt below)).trans below, begins⟩
  · obtain ⟨shows, pushed | ⟨i, above, below, isFilter, object, called⟩⟩ := comes.filter filter
    · exact ⟨shows, s.depth, g, le_rfl, get?_push s g, filter, pushed, rfl, rfl⟩
    · obtain ⟨-, j, first, -, below, begins⟩ := led i above below isFilter
      exact ⟨shows, j, first, (get?_lt below).le, (get?_push_of_lt g (get?_lt below)).trans below, begins.filter,
        begins.pushed, begins.object.trans object, begins.called.trans called⟩

end FrameStack.FiltersLed

/-- Filters of one call stay together. -/
theorem FrameStack.kept_filtersLed : FrameStack.Kept FrameStack.FiltersLed where
  start := by
    intro i f found
    cases found
  marked marking led := by
    refine led.of_leads ?_
    have same := congrArg (List.map Frame.lead) marking.atRest
    rwa [List.map_map, List.map_map] at same
  passing {s i above} here led := by
    refine led.of_leads (s.frames_modify_map i fun f found => ?_)
    cases here.symm.trans found
    exact congrArg (above.visible, ·, _) above.kind.isFilter_deactivated
  distributing {s f} led := by
    refine led.of_leads ?_
    simp only [push, List.map_append]
    rfl
  opened _ comes led := led.push comes
  subOpened _ _ _ led := led.push ⟨nofun, nofun⟩

/-- A frame that runs a next call keeps its stance. -/
theorem Invocation.stances_offTo {w : World} {i : Nat} {f : Frame} (here : w.stack.get? i = some f) :
    (offTo i f.kind w).stack.frames.map Frame.stance = w.stack.frames.map Frame.stance := by
  refine w.stack.frames_modify_map i fun g found => ?_
  cases here.symm.trans found
  have ensemble := f.kind.deactivated_beq_ensemble
  simp only [Frame.stance, Frame.grounds, f.kind.isFilter_deactivated, f.kind.isMixin_deactivated, bne, ensemble]
  rfl

/-! ## Positions at the ground -/

/-- If the ground is the frame of a filter, then wherever its receiver resolves, the innermost position in the filter
order is at the filter, or ahead of it, under the name the caller asked for. -/
def World.Stands (ahead : Option FilterKey) (w : World) : Prop :=
  ∀ f, w.stack.ground? = some f → f.kind.isFilter = true →
    w.objects.Spent f.object ∧ HeadAt f.object ⟨some (ahead.getD f.key), f.called⟩ w

namespace World.Stands

variable {v w : World} {ahead : Option FilterKey} {f : Frame}

theorem of_empty (empty : w.stack.frames = []) : w.Stands ahead := by
  intro f ground
  rw [FrameStack.ground?, empty] at ground
  cases ground

theorem restack (stands : v.Stands ahead) {stack : FrameStack}
    (same : stack.ground?.map Frame.stance = v.stack.ground?.map Frame.stance) :
    World.Stands ahead { v with stack } := by
  intro f ground filter
  rw [show stack.ground? = some f from ground] at same
  obtain ⟨g, ground', stance⟩ := Option.map_eq_some_iff.1 same.symm
  simp only [Frame.stance, Prod.mk.injEq] at stance
  obtain ⟨-, kind, -, object, key, called⟩ := stance
  obtain ⟨spent, head⟩ := stands g ground' (kind.trans filter)
  rw [object, key, called] at head
  exact ⟨object ▸ spent, head⟩

theorem filtersStand (stands : v.Stands ahead) (still : FiltersStand v w) : w.Stands ahead := by
  intro f ground filter
  have same := FrameStack.ground?_of_stances (Frame.stances_of_settled still.frames)
  obtain ⟨spent, head⟩ := stands.restack same f ground filter
  refine ⟨still.spent _ spent, fun p found => ?_⟩
  obtain ⟨o, before, positions⟩ := still.positions _ p spent found
  rw [positions]
  exact head o before

/-- A filter that runs a next call stays where it is. -/
theorem offTo (stands : w.Stands ahead) {i : Nat} (here : w.stack.get? i = some f) :
    (offTo i f.kind w).Stands ahead :=
  stands.restack (FrameStack.ground?_of_stances (stances_offTo here))

/-- Where a plain frame is the innermost to show, it is the ground. -/
theorem of_plain (top : w.stack.top? = some f) (shows : f.visible = true) (plain : f.kind = .plain) : w.Stands ahead := by
  intro g ground filter
  rw [FrameStack.ground?_of_top top (by simp [Frame.grounds, shows, plain])] at ground
  cases ground
  rw [plain] at filter
  cases filter

end World.Stands

/-! ## Frames that open and close -/

/-- How far ahead the position is inside of a frame. -/
def Frame.aheadInside (f : Frame) (ahead : Option FilterKey) : Option FilterKey :=
  if f.grounds then none else ahead

/-- How far ahead it is when a frame is closed, until the next call returns that came to it: at its filter. -/
def Frame.aheadClosed (f : Frame) (ahead : Option FilterKey) : Option FilterKey :=
  if f.kind.isFilter && !f.pushedFilterPosition then some f.key else ahead

theorem Frame.aheadClosed_of_not {f : Frame} (noFilter : f.kind.isFilter = false) (ahead : Option FilterKey) :
    f.aheadClosed ahead = ahead := by
  rw [aheadClosed, noFilter, Bool.false_and, if_neg Bool.false_ne_true]

/-- A frame opens: for a filter the innermost position is at it. -/
theorem World.Stands.opened {v : World} {f : Frame} {ahead : Option FilterKey}
    (closed : (v.lowered f.object f.pushedFilterPosition f.pushedMixinPosition).Stands (f.aheadClosed ahead))
    (pushed : f.pushedFilterPosition = true → f.kind.isFilter = true)
    (filter : f.kind.isFilter = true → f.visible = true ∧ v.objects.Spent f.object ∧
      HeadAt f.object ⟨some f.key, f.called⟩ v) : (v.opened f).Stands (f.aheadInside ahead) := by
  cases grounds : f.grounds with
  | true =>
    intro g ground isFilter
    obtain rfl : f = g := Option.some.inj ((FrameStack.ground?_push grounds).symm.trans ground)
    obtain ⟨-, spent, head⟩ := filter isFilter
    rw [Frame.aheadInside, grounds, if_pos rfl]
    exact ⟨spent.of_layout (Heap.layout_modify _ _ _), head.modify fun _ => rfl⟩
  | false =>
    have noFilter : f.kind.isFilter = false := by
      by_contra isFilter
      rw [Bool.not_eq_false] at isFilter
      exact Bool.false_ne_true (grounds.symm.trans (FrameStack.grounds_of_filter (filter isFilter).1 isFilter))
    have unpushed : f.pushedFilterPosition = false := by
      by_contra isPushed
      exact Bool.false_ne_true (noFilter.symm.trans (pushed (Bool.not_eq_false _ ▸ isPushed)))
    rw [f.aheadClosed_of_not noFilter, unpushed] at closed
    rw [Frame.aheadInside, grounds, if_neg Bool.false_ne_true]
    have lowers : Heap.Alike Object.filterPositions v.objects (v.lowered f.object false f.pushedMixinPosition).objects :=
      .modify _ _ fun _ => rfl
    have holds : Heap.Alike Object.filterPositions v.objects (v.opened f).objects := .modify _ _ fun _ => rfl
    have still : FiltersStand (v.lowered f.object false f.pushedMixinPosition)
        { v with objects := (v.opened f).objects } := .of_alike (lowers.symm.trans holds) rfl
    exact (closed.filtersStand still).restack (congrArg _ (FrameStack.ground?_push_of_not grounds))

namespace Task

/-- How far ahead the position is inside of the frame of a task that runs in one. -/
def aheadInside : Task → Option FilterKey → Option FilterKey
  | run frame _ _, ahead => frame.aheadInside ahead
  | eval .., ahead | call .., ahead => ahead

/-- How far ahead it is once the frame is closed. -/
def aheadClosed : Task → Option FilterKey → Option FilterKey
  | run frame _ _, ahead => frame.aheadClosed ahead
  | eval .., ahead | call .., ahead => ahead

/-- How far ahead it is in `v`, where a task that was begun in `w` is on its way. -/
def aheadAt (task : Task) (ahead : Option FilterKey) (w v : World) : Option FilterKey :=
  if w.stack.depth < v.stack.depth then task.aheadInside ahead else task.aheadClosed ahead

/-- Filters stand where a task begins, in its frame if it runs in one, and once that is closed again. -/
structure Stands (ahead : Option FilterKey) (task : Task) (w : World) : Prop where
  inside : (task.opened w).Stands (task.aheadInside ahead)
  closed : (task.closed w).Stands (task.aheadClosed ahead)

end Task

/-! ## Tasks that are asked for -/

theorem Invocation.InnermostAt.stand {α : Type} {view : Object → List α} {h : Handle} {position : α} {v w : World}
    (here : InnermostAt view h position v) (spent : v.objects.Spent h) (still : PositionsStand view v w) :
    InnermostAt view h position w := by
  intro p found
  obtain ⟨o, before, positions⟩ := still.positions h p spent found
  exact positions ▸ here o before

theorem Raised.spent {h k : Handle} {filter mixin : Bool} {w v : World} (raised : Raised h filter mixin w v)
    (spent : w.objects.Spent k) : v.objects.Spent k :=
  (raised.poised.objects.spent k spent).of_layout (Heap.layout_modify v.objects h (Object.lowered filter mixin)).symm

/-- The filter to which a next call has moved on is at the head, under the name the caller asked for. -/
theorem Invocation.Advanced.head {h : Handle} {filter key : Option FilterKey} {mixin : Option Handle} {resolved : Resolved}
    {name : String} {w v : World} (advanced : Advanced h filter mixin resolved w v)
    (isFilter : resolved.kind.isFilter = true) (spent : w.objects.Spent h) (head : HeadAt h ⟨key, name⟩ w) :
    HeadAt h ⟨some resolved.key, name⟩ v := by
  intro o found
  have restored : (v.restored h filter mixin).objects.get? h = some (o.restored filter mixin) := by
    rw [World.restored, Heap.get?_modify, if_pos rfl, found]
    rfl
  obtain ⟨p, before, positions⟩ := (Balanced.filtersStand advanced.shifted.toBalanced).positions h _ spent restored
  have first : (o.filterPositions.modifyHead ({ · with current := filter })).head? = some ⟨key, name⟩ :=
    (congrArg List.head? positions).trans (head p before)
  rw [List.head?_modifyHead] at first
  obtain ⟨position, here, called⟩ := Option.map_eq_some_iff.1 first
  have current := advanced.moved isFilter o position found here
  rw [here, ← current]
  exact congrArg some (congrArg (FilterPosition.mk position.current) (congrArg FilterPosition.called called :))

section asked

variable {good : Objects → Prop} {terms : Terms} {host : Host} {h : Handle} {called : String} {resolved : Resolved}
  {args : List Value} {mods asked : CallModifiers} {frame : Frame} {method registered : Method} {ahead : Option FilterKey}
  {u v w : World}

/-- A frame opens for what was found in `u`, and filters stand in it, and once it is closed. -/
theorem Invocation.Enters.stands (enters : Enters h called resolved args mods u (.run frame method asked) v)
    (still : FiltersStand u v) (spent : resolved.kind.isFilter = true → u.objects.Spent h)
    (pushed : resolved.pushedFilterPosition = true → resolved.kind.isFilter = true)
    (head : resolved.kind.isFilter = true → HeadAt h ⟨some resolved.key, called⟩ u)
    (closed : (v.lowered h resolved.pushedFilterPosition resolved.pushedMixinPosition).Stands (frame.aheadClosed ahead)) :
    Task.Stands ahead (.run frame method asked) v := by
  cases enters with
  | run leads =>
    refine ⟨World.Stands.opened closed pushed fun isFilter => ⟨?_, still.spent h (spent isFilter), ?_⟩, closed⟩
    · cases kind : resolved.kind <;> simp_all [frameFor, FrameKind.isFilter]
    · exact (head isFilter).stand (spent isFilter) still

/-- Where a search has moved on to a filter, the position is ahead at that filter. -/
theorem Invocation.Advanced.standsAhead {filter : Option FilterKey} {mixin : Option Handle}
    (advanced : Advanced h filter mixin resolved w v) (stands : w.Stands ahead) {f : Frame} (here : f.object = h)
    (ground : resolved.kind.isFilter = true → w.stack.ground? = some f ∧ f.kind.isFilter = true) :
    v.Stands (if resolved.kind.isFilter then some resolved.key else ahead) := by
  cases isFilter : resolved.kind.isFilter with
  | false => exact stands.filtersStand (advanced.stands isFilter)
  | true =>
    obtain ⟨ground, filters⟩ := ground isFilter
    obtain ⟨spent, head⟩ := stands f ground filters
    rw [here] at spent head
    intro g ground' _
    have same := FrameStack.ground?_of_stances (Frame.stances_of_settled advanced.shifted.frames)
    rw [ground, show (v.restored h filter mixin).stack.ground? = some g from ground'] at same
    have stance := Option.some.inj same
    simp only [Frame.stance, Prod.mk.injEq] at stance
    obtain ⟨-, -, -, object, -, called⟩ := stance
    rw [object, called, here]
    exact ⟨advanced.shifted.spent spent, advanced.head isFilter spent head⟩

variable (faithful : Faithful terms host)

include faithful

theorem Invocation.Enters.poised (proper : Proper u)
    (enters : Enters h called resolved args mods u (.run frame method asked) v) : Poised u v := by
  cases enters with
  | run leads =>
    have path : Calmly terms u ((Definition.followAliases resolved.method).exec u).2 :=
      Deed.along_follow Definition.maxHops resolved.method u
    rw [leads] at path
    exact proper.poised_of_calmly faithful.remain path

/-- A call opens a frame for what it finds. -/
theorem Opening.stands_of_call (proper : Proper w) (stands : w.Stands ahead) (spent : w.objects.Spent h)
    (opening : Opening host (.call h called args mods) w registered (.run frame method asked) v) :
    Task.Stands ahead (.run frame method asked) v := by
  cases opening with
  | @called _ _ _ _ _ u _ resolved _ found enters =>
    obtain ⟨path, pushes⟩ := (brings_resolve id h called mods faithful w proper (.refl w)).2 _ u found
    have pushes : Pushes h called resolved w u := pushes
    have poised := enters.poised faithful (proper.evolves faithful.remain path.evolves)
    refine enters.stands poised.toBalanced.filtersStand (fun _ => pushes.toRaised.spent spent)
      (fun pushed => pushes.filter ▸ pushed) pushes.head ?_
    have closed := stands.filtersStand (pushes.toRaised.trans spent poised).poised.toBalanced.filtersStand
    cases enters with
    | run leads =>
      rwa [show Frame.aheadClosed _ ahead = ahead by simp [Frame.aheadClosed, frameFor, pushes.filter]]

/-- A next call opens a frame for what it finds. -/
theorem Invocation.Continues.stands (proper : Proper w) (stands : w.Stands ahead) {i : Nat}
    {given : Option (List Value)} (ground : ∀ f, w.stack.get? i = some f → f.kind.isFilter = true →
      w.stack.ground? = some f) (continues : Continues host i given w registered (.run frame method asked) v) :
    Task.Stands ahead (.run frame method asked) v := by
  cases continues with
  | @found above resolved done x _ _ here behind enters =>
    obtain ⟨path, advanced⟩ := (brings_continuation (Shifted.start w above.object) rfl faithful w proper (.refl w)).2
      _ x behind
    have advanced : Advanced above.object _ _ resolved w x := advanced
    have fromFilter : resolved.kind.isFilter = true → above.kind.isFilter = true :=
      kind_continuation (q := fun kind => kind.isFilter = true → above.kind.isFilter = true) nofun above nofun
        (fun filter _ => filter) _ _ _ behind _ rfl
    have onGround : resolved.kind.isFilter = true → w.stack.ground? = some above ∧ above.kind.isFilter = true :=
      fun isFilter => ⟨ground above here (fromFilter isFilter), fromFilter isFilter⟩
    have moved := advanced.standsAhead stands rfl onGround
    obtain ⟨filter, mixin⟩ := advanced.unpushed resolved rfl
    -- The frame is marked as running a next call before the frame of what was found is opened.
    obtain ⟨f, there, settled⟩ := FrameStack.exists_of_map advanced.shifted.frames here
    have kind : f.kind = above.kind := (congrArg Frame.kind settled :)
    have marked := moved.offTo there
    rw [kind] at marked
    have proper' : Proper (offTo i above.kind x) :=
      (proper.evolves faithful.remain path.evolves).evolves faithful.remain
        (.single (.aside (.of_objects rfl rfl rfl rfl le_rfl)))
    have still := (enters.poised faithful proper').toBalanced.filtersStand
    have spent : resolved.kind.isFilter = true → x.objects.Spent above.object := fun isFilter =>
      advanced.shifted.spent (stands above (onGround isFilter).1 (onGround isFilter).2).1
    have head : resolved.kind.isFilter = true → HeadAt above.object ⟨some resolved.key, above.called⟩ x :=
      fun isFilter => by
        obtain ⟨spent, head⟩ := stands above (onGround isFilter).1 (onGround isFilter).2
        exact advanced.head isFilter spent head
    refine enters.stands still spent (fun pushed => absurd (filter.symm.trans pushed) Bool.false_ne_true) head ?_
    rw [filter, mixin, World.lowered_false]
    cases enters with
    | run leads =>
      have closed := marked.filtersStand still
      rwa [show Frame.aheadClosed _ ahead = if resolved.kind.isFilter then some resolved.key else ahead by
        simp [Frame.aheadClosed, frameFor, filter]; rfl]

/-- A next call whose arguments were evaluated goes on behind the ground. -/
theorem Opening.stands_of_eval (marks : host.Marks) (proper : Proper w) (begins : terms.good w.objects)
    (seated : w.stack.SubsSeated) (led : w.stack.FiltersLed) (stands : w.Stands ahead) {s : Surroundings} {e : Expr}
    (opening : Opening host (.eval s e) w registered (.run frame method asked) v) :
    Task.Stands ahead (.run frame method asked) v := by
  cases opening with
  | @passedOn _ given _ i _ u _ _ _ evaluated goesOn continues =>
    obtain ⟨path, poised, -⟩ := ((Script.keeps_givenTo s given) w begins faithful w proper rfl).2 _ u evaluated
    have marking : FramesMarked w u := marks.marking (Script.composed_givenTo s given) _ _ _ evaluated
    have seated := FrameStack.kept_subsSeated.marked marking.stack seated
    have led := FrameStack.kept_filtersLed.marked marking.stack led
    exact continues.stands faithful (proper.evolves faithful.remain path.evolves)
      (stands.filtersStand poised.toBalanced.filtersStand)
      fun f here filter => FrameStack.ground?_of_nextIndex? seated led goesOn here filter

omit faithful in
/-- Which sub-method is meant, and whether an object has it, is found out calmly. -/
theorem Calmly.of_meant {container : Handle} {name : String} {rest : List Value} {found : Option Found}
    (means : (subMethod h args mods).exec w = (.ok (some (name, rest)), u))
    (search : (searchObject container name).exec u = (.ok found, v)) : Calmly terms w v := by
  have first : Calmly terms w _ := Deed.along_subMethod h args mods w
  have second : Calmly terms u _ := Deed.along_searchObject container name u
  rw [means] at first
  rw [search] at second
  exact first.trans second

omit faithful in
/-- The frame of a sub-method is no ground. -/
theorem World.Stands.subOpened (stands : v.Stands ahead) (h : Handle) (path sub : String) (method : Method)
    (definer : Option Handle) (args : List Value) :
    Task.Stands ahead (.run (subFrame h path sub method definer args) method mods) v := by
  have closed : (v.lowered h false false).Stands ahead := by
    rwa [World.lowered_false]
  exact ⟨World.Stands.opened closed nofun nofun, closed⟩

/-- An ensemble opens the frame of its sub-method on top of its own, or passes its call on: then its own is the ground if
it is that of a filter. -/
theorem Opening.stands_of_run (marks : host.Marks) (proper : Proper w) {above : Frame} {target : Method}
    (led : (w.opened above).stack.FiltersLed) (stands : (w.opened above).Stands ahead)
    (opening : Opening host (.run above target mods) w registered (.run frame method asked) v) :
    w.stack.depth < v.stack.depth ∧ Task.Stands ahead (.run frame method asked) v := by
  cases opening with
  | @distributed _ _ _ container _ _ _ _ ensemble distributes =>
    obtain ⟨x, begun⟩ : ∃ x, x = asEnsemble w.stack.depth (w.opened above) := ⟨_, rfl⟩
    rw [← begun] at distributes
    have top : x.stack = w.stack.push { above with runsEnsemble := true } := begun ▸ w.stack.modify_push above _
    have deeper : w.stack.depth < x.stack.depth := by
      rw [top]
      exact FrameStack.get?_lt (FrameStack.get?_push _ _)
    have proper : Proper x :=
      (proper.evolves faithful.remain (Evolves.opened (.run above target mods) w)).evolves faithful.remain
        (.single (.aside (begun ▸ .of_objects rfl rfl rfl rfl le_rfl)))
    have marked : x.Stands ahead :=
      begun ▸ stands.restack (FrameStack.ground?_of_stances (FrameStack.frames_modify_map _ _ fun _ _ => rfl))
    cases distributes with
    | @sub name rest _ y _ registered method definer means found keeps leads =>
      have follows : Calmly terms y _ := Deed.along_follow Definition.maxHops registered y
      rw [show (Definition.follow Definition.maxHops registered).exec y = _ from leads] at follows
      have path := (Calmly.of_meant means found).trans follows
      have stands := marked.filtersStand (proper.poised_of_calmly faithful.remain path).toBalanced.filtersStand
      exact ⟨(Level.of_calmly path).stack ▸ deeper, stands.subOpened _ _ name method _ rest⟩
    | @behind _ _ _ y _ _ _ means missing continues =>
      have path : Calmly terms x y := .of_meant means missing
      have stands := marked.filtersStand (proper.poised_of_calmly faithful.remain path).toBalanced.filtersStand
      have level := (Level.of_calmly path).stack
      obtain ⟨-, _, -, after⟩ := continues.stack marks
      have depth : v.stack.depth = x.stack.depth := by
        rw [after, level]
        exact List.length_modify ..
      refine ⟨depth ▸ deeper, ?_⟩
      refine continues.stands faithful (proper.evolves faithful.remain (Calmly.proceeds path).evolves) stands ?_
      intro f here filter
      rw [level, top, FrameStack.get?_push] at here
      cases here
      rw [level, top]
      exact FrameStack.ground?_push (FrameStack.grounds_of_filter (led _ above (FrameStack.get?_push _ _) filter).1 filter)

end asked

/-! ## What tasks ask for -/

/-- Only calls run filters in frames for which positions were pushed: on their receiver, and under their name. -/
theorem AsksFor.call_of_pushed {host : Host} {task : Task} {frame : Frame} {method : Method} {asked : CallModifiers}
    {v w : World} (asks : AsksFor host task w (.run frame method asked) v) (pushed : frame.pushedFilterPosition = true) :
    ∃ args mods, task = .call frame.object frame.called args mods := by
  have passedOn : ∀ {i : Nat} {args : Option (List Value)} {w : World} {registered : Method},
      ¬Continues host i args w registered (.run frame method asked) v := by
    rintro i args w registered ⟨here, behind, enters⟩
    cases enters with
    | run leads =>
      have unpushed := (unpushed_continuation _ _ _ _ behind _ rfl).1
      exact Bool.false_ne_true (unpushed.symm.trans pushed)
  obtain ⟨registered, opening⟩ := asks.opens
  cases opening with
  | called found enters =>
    cases enters with
    | run leads => exact ⟨_, _, rfl⟩
  | passedOn evaluated stands continues => exact absurd continues passedOn
  | distributed ensemble distributes =>
    cases distributes with
    | sub means found keeps leads => cases pushed
    | behind means missing continues => exact absurd continues passedOn

/-- A method runs for a call only on what is live. -/
theorem AsksFor.exists_live {host : Host} {h : Handle} {name : String} {args : List Value} {mods asked : CallModifiers}
    {frame : Frame} {method : Method} {v w : World}
    (asks : AsksFor host (.call h name args mods) w (.run frame method asked) v) : ∃ o, w.live? h = some o := by
  have needs : Needs host (fun k => call k h name args mods) w (.run frame method asked) v := asks
  unfold call at needs
  obtain ⟨_, _, here, needs⟩ := Needs.of_composed_bind (@Composed.get False False) not_false needs
  cases here
  by_cases deep : w.settings.maxDepth ≤ w.stack.depth
  · simp only [if_pos deep] at needs
    exact absurd needs Needs.not_throw_bind
  · simp only [if_neg deep] at needs
    obtain ⟨o, u, there, -⟩ := needs.of_lift_bind
    exact ⟨o, (Update.exec_object_eq_ok there).1⟩

namespace Task

variable {task : Task} {ahead : Option FilterKey} {v w : World}

theorem aheadAt_of_opened (depth : v.stack.depth = (task.opened w).stack.depth) :
    task.aheadAt ahead w v = task.aheadInside ahead := by
  cases task with
  | run frame =>
    refine if_pos ?_
    rw [depth]
    exact FrameStack.get?_lt (FrameStack.get?_push w.stack frame)
  | eval | call => exact ite_self _

theorem aheadAt_of_closed (depth : v.stack.depth = w.stack.depth) : task.aheadAt ahead w v = task.aheadClosed ahead :=
  if_neg (depth ▸ Nat.lt_irrefl _)

theorem aheadAt_of_world (noRun : task.isRun = false) : task.aheadAt ahead w v = ahead := by
  cases task with
  | run => cases noRun
  | eval | call => exact ite_self _

/-- A task that runs no method begins in the world as it is. -/
theorem Stands.of_world (noRun : task.isRun = false) (stands : w.Stands ahead) : task.Stands ahead w := by
  cases task with
  | run => cases noRun
  | eval | call => exact ⟨stands, stands⟩

/-- Inside of a task filters stand as in its frame, or as they do once that is closed. -/
theorem Stands.within {sub : Task} (stands : task.Stands ahead w) (noRun : sub.isRun = false)
    (within : Within (task.opened w) (task.closed w) sub v) : sub.Stands (task.aheadAt ahead w v) v := by
  have depth : ∀ {u : World}, PositionsStand Object.positions u v → v.stack.depth = u.stack.depth := by
    intro u still
    simpa [FrameStack.depth] using congrArg List.length still.frames
  refine .of_world noRun ?_
  rcases within.positions noRun with (still | ⟨f, top, shows, plain⟩) | still | ⟨f, top, shows, plain⟩
  · exact aheadAt_of_opened (depth still) ▸ stands.inside.filtersStand still.filters
  · exact .of_plain top shows plain
  · have closed : (task.closed w).stack = w.stack := by cases task <;> rfl
    exact aheadAt_of_closed (closed ▸ depth still) ▸ stands.closed.filtersStand still.filters
  · exact .of_plain top shows plain

end Task

/-- Where filters stand in a task, they do in what it asks for. -/
theorem AsksFor.stands {good : Objects → Prop} (remain : ∀ a, good a → a.HandlesRemain) {depth : Nat} {task sub : Task}
    {ahead : Option FilterKey} {v w : World} (proper : Proper w) (begins : good w.objects)
    (seated : task.Begins (fun w => w.stack.SubsSeated) w) (led : task.Begins (fun w => w.stack.FiltersLed) w)
    (stands : task.Stands ahead w) (asks : AsksFor (hostWithin good depth).failing task w sub v) :
    sub.Stands (task.aheadAt ahead w v) v := by
  have faithful := (faithful_hostWithin remain depth).failing
  have marks := (Host.Marks.hostWithin good depth).failing
  cases sub with
  | eval => exact stands.within rfl (asks.inside remain proper begins).2.1
  | call => exact stands.within rfl (asks.inside remain proper begins).2.1
  | run frame method asked =>
    obtain ⟨registered, opening⟩ := asks.opens
    cases task with
    | eval s e =>
      rw [Task.aheadAt_of_world rfl]
      exact opening.stands_of_eval faithful marks proper begins seated.before led.before stands.inside
    | call h name args mods =>
      rw [Task.aheadAt_of_world rfl]
      obtain ⟨o, live⟩ := asks.exists_live
      exact opening.stands_of_call faithful proper stands.inside (Heap.spent_of_get? (World.live?_eq_some_iff.1 live).1)
    | run above target mods =>
      obtain ⟨deeper, stands⟩ := opening.stands_of_run faithful marks proper led.opened stands.inside
      rwa [Task.aheadAt, if_pos deeper]

end DynamicObjects
