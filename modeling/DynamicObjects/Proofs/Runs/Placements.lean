import DynamicObjects.Proofs.Runs.Containers
import DynamicObjects.Proofs.Runs.Lasting

/-!
# Positions at or behind the ground

While a lineup lasts, the innermost positions of its receiver never fall back behind the frame on the ground: they are at the
filter or the mixin that runs there, or further on in the order. Next calls move them on from there.
-/
namespace DynamicObjects

open Invocation

/-! ## Frames of filters and mixins -/

/-- A frame shows if it is that of a filter or of a mixin. -/
def Frame.showsOrPlain (f : Frame) : Bool :=
  f.visible || !(f.kind.isFilter || f.kind.isMixin)

/-- Frames of filters and mixins show. -/
def FrameStack.InterceptorsShow (s : FrameStack) : Prop :=
  ∀ i f, s.get? i = some f → f.showsOrPlain = true

/-- Next calls go on behind frames of filters and mixins that show. -/
theorem Frame.grounds_of_shows {f : Frame} (shows : f.showsOrPlain = true)
    (among : f.kind.isFilter = true ∨ f.kind.isMixin = true) : f.grounds = true := by
  cases kind : f.kind <;> simp_all [showsOrPlain, grounds, FrameKind.isFilter, FrameKind.isMixin]

namespace FrameStack.InterceptorsShow

variable {s t : FrameStack} {f : Frame} {i : Nat}

theorem of_map (shows : s.InterceptorsShow)
    (same : t.frames.map Frame.showsOrPlain = s.frames.map Frame.showsOrPlain) : t.InterceptorsShow := by
  intro i g found
  obtain ⟨f, there, alike⟩ := exists_of_map same.symm found
  exact alike.symm.trans (shows i f there)

theorem push (shows : s.InterceptorsShow) (own : f.showsOrPlain = true) : (s.push f).InterceptorsShow := by
  intro i g found
  rcases get?_push_eq_some found with found | ⟨-, rfl⟩
  · exact shows i g found
  · exact own

/-- A filter or a mixin behind which a next call goes on is the ground. -/
theorem ground? (shows : s.InterceptorsShow) (seated : s.SubsSeated) (stands : s.nextIndex? = some i)
    (here : s.get? i = some f) (among : f.kind.isFilter = true ∨ f.kind.isMixin = true) : s.ground? = some f :=
  ground?_of_grounds seated stands here (Frame.grounds_of_shows (shows i f here) among)

end FrameStack.InterceptorsShow

theorem FrameStack.kept_interceptorsShow : FrameStack.Kept FrameStack.InterceptorsShow where
  start := by
    intro i f found
    cases found
  marked marking shows := by
    refine shows.of_map ?_
    have same := congrArg (List.map Frame.showsOrPlain) marking.atRest
    rwa [List.map_map, List.map_map] at same
  passing {s i above} here shows := by
    refine shows.of_map (s.frames_modify_map i fun f found => ?_)
    cases here.symm.trans found
    simp only [Frame.showsOrPlain, above.kind.isFilter_deactivated, above.kind.isMixin_deactivated]
  distributing {s f} shows := by
    refine shows.of_map ?_
    simp only [push, List.map_append]
    rfl
  opened {s f} _ comes shows := by
    refine shows.push ?_
    cases filter : f.kind.isFilter with
    | true => simp [Frame.showsOrPlain, (comes.filter filter).1]
    | false =>
      cases mixin : f.kind.isMixin with
      | true => simp [Frame.showsOrPlain, comes.mixin mixin]
      | false => simp [Frame.showsOrPlain, filter, mixin]
  subOpened _ _ _ shows := shows.push rfl

/-! ## Positions -/

namespace Lineup

variable {line : Lineup} {f g : Frame} {u v w : World}

/-- The innermost positions of the receiver are at the filter or the mixin that runs in a frame, or behind it. -/
structure Placed (line : Lineup) (f : Frame) (w : World) : Prop where
  filter : f.kind.isFilter = true → ∃ key, HeadAt line.receiver ⟨some key, f.called⟩ w ∧
    AtOrBehind (line.filters.map FilterEntry.key) f.key key
  mixin : f.kind.isMixin = true → ∃ c m, f.definer = some c ∧ MixinAt line.receiver (some m) w ∧
    AtOrBehind (line.mixins.map (·.target)) c m

/-- If the ground is a frame of the receiver, the positions are at what runs there, or behind it. -/
def Tracks (line : Lineup) (w : World) : Prop :=
  ∀ f, w.stack.ground? = some f → f.object = line.receiver → line.Placed f w

namespace Placed

theorem of_plain (plain : f.kind = .plain) : line.Placed f w := by
  constructor <;> rw [plain] <;> nofun

theorem congr (placed : line.Placed f v) (same : w.objects = v.objects) : line.Placed f w := by
  obtain ⟨filter, mixin⟩ := placed
  unfold HeadAt InnermostAt at filter
  unfold MixinAt InnermostAt at mixin
  rw [← same] at filter mixin
  exact ⟨filter, mixin⟩

theorem of_stance (placed : line.Placed f w) (same : g.stance = f.stance) : line.Placed g w := by
  simp only [Frame.stance, Prod.mk.injEq] at same
  obtain ⟨-, isFilter, isMixin, -, key, called⟩ := same
  refine ⟨fun filter => ?_, fun mixin => ?_⟩
  · rw [key, called]
    exact placed.filter (isFilter ▸ filter)
  · rw [show g.definer = f.definer from congrArg FilterKey.definer key]
    exact placed.mixin (isMixin ▸ mixin)

theorem stand (placed : line.Placed f v) (spent : v.objects.Spent line.receiver)
    (still : PositionsStand Object.positions v w) : line.Placed f w := by
  refine ⟨fun filter => ?_, fun mixin => ?_⟩
  · obtain ⟨key, head, behind⟩ := placed.filter filter
    exact ⟨key, head.stand spent still.filters, behind⟩
  · obtain ⟨c, m, definer, here, behind⟩ := placed.mixin mixin
    exact ⟨c, m, definer, here.stand spent (still.comp Prod.snd), behind⟩

theorem modify (placed : line.Placed f w) {t : Object → Object} (same : ∀ o, (t o).positions = o.positions) :
    line.Placed f { w with objects := w.objects.modify line.receiver t } := by
  refine ⟨fun filter => ?_, fun mixin => ?_⟩
  · obtain ⟨key, head, behind⟩ := placed.filter filter
    exact ⟨key, head.modify fun o => congrArg Prod.fst (same o), behind⟩
  · obtain ⟨c, m, definer, here, behind⟩ := placed.mixin mixin
    exact ⟨c, m, definer, here.modify fun o => congrArg Prod.snd (same o), behind⟩

end Placed

namespace Tracks

theorem congr (tracks : line.Tracks v) (objects : w.objects = v.objects) (stack : w.stack = v.stack) : line.Tracks w :=
  fun f ground object => (tracks f (stack ▸ ground) object).congr objects

theorem restack (tracks : line.Tracks v) {stack : FrameStack}
    (same : stack.ground?.map Frame.stance = v.stack.ground?.map Frame.stance) : line.Tracks { v with stack } := by
  intro f ground object
  rw [show stack.ground? = some f from ground] at same
  obtain ⟨g, ground', stance⟩ := Option.map_eq_some_iff.1 same.symm
  have receiver : g.object = f.object := (congrArg (·.2.2.2.1) stance :)
  exact ((tracks g ground' (receiver.trans object)).of_stance stance.symm).congr rfl

theorem stand (tracks : line.Tracks v) (spent : v.objects.Spent line.receiver)
    (still : PositionsStand Object.positions v w) : line.Tracks w := by
  intro f ground object
  obtain ⟨g, ground', stance⟩ := Option.map_eq_some_iff.1
    ((FrameStack.ground?_of_stances (Frame.stances_of_settled still.frames)).symm.trans (congrArg _ ground))
  have receiver : g.object = f.object := (congrArg (·.2.2.2.1) stance :)
  exact ((tracks g ground' (receiver.trans object)).of_stance stance.symm).stand spent still

theorem offTo (tracks : line.Tracks w) {i : Nat} (here : w.stack.get? i = some f) : line.Tracks (offTo i f.kind w) :=
  tracks.restack (FrameStack.ground?_of_stances (stances_offTo here))

theorem of_plain (top : w.stack.top? = some f) (shows : f.visible = true) (plain : f.kind = .plain) : line.Tracks w := by
  intro g ground _
  rw [FrameStack.ground?_of_top top (by simp [Frame.grounds, shows, plain])] at ground
  cases ground
  exact Placed.of_plain plain

theorem rest (tracks : line.Tracks v) (spent : v.objects.Spent line.receiver) (rest : PositionsRest v w) :
    line.Tracks w := by
  rcases rest with still | ⟨f, top, shows, plain⟩
  · exact tracks.stand spent still
  · exact .of_plain top shows plain

/-- A frame opens that is not the ground. -/
theorem opened_of_not (tracks : line.Tracks v) (spent : v.objects.Spent line.receiver) (passed : f.grounds = false) :
    line.Tracks (v.opened f) := by
  have holds : Heap.Alike Object.positions v.objects (v.opened f).objects := .modify _ _ fun _ => rfl
  have still : PositionsStand Object.positions v { v with objects := (v.opened f).objects } := .of_alike holds rfl
  exact (tracks.stand spent still).restack (congrArg _ (FrameStack.ground?_push_of_not passed))

end Tracks

end Lineup

/-! ## Tasks that are asked for -/

/-- In the frame of a task, and once that is closed, positions are at what runs on the ground, or behind it. -/
structure Task.Tracked (line : Lineup) (task : Task) (w : World) : Prop where
  inside : line.Tracks (task.opened w)
  closed : line.Tracks (task.closed w)

theorem Task.Tracked.of_world {line : Lineup} {task : Task} {w : World} (noRun : task.isRun = false)
    (tracks : line.Tracks w) : task.Tracked line w := by
  cases task with
  | run => cases noRun
  | eval | call => exact ⟨tracks, tracks⟩

section asked

variable {line : Lineup} {terms : Terms} {host : Host} {h : Handle} {called : String} {resolved : Resolved}
  {args : List Value} {mods asked : CallModifiers} {above frame : Frame} {method registered : Method}
  {filter : Option FilterKey} {mixin : Option Handle} {u v w : World}

/-- A run is entered in the world of the search, but for what is remembered of aliases. -/
theorem Invocation.Enters.world (enters : Enters h called resolved args mods u (.run frame method asked) v) :
    frame = frameFor h called resolved method args mods ∧ ∃ targets, v = { u with aliasTargets := targets } := by
  cases enters with
  | run leads =>
    obtain ⟨targets, after⟩ := exists_aliasTargets resolved.method u
    rw [leads] at after
    exact ⟨rfl, targets, after⟩

section enters

variable (enters : Enters h called resolved args mods u (.run frame method asked) v)
  (head : resolved.kind.isFilter = true → h = line.receiver → HeadAt h ⟨some resolved.key, called⟩ u)
  (here : resolved.kind.isMixin = true → h = line.receiver → ∃ c, resolved.definer = some c ∧ MixinAt h (some c) u)

include enters head here

/-- A frame that opens for what was found in `u` is the ground then, if next calls go on behind it. -/
theorem Invocation.Enters.tracks (grounds : frame.grounds = true) : line.Tracks (v.opened frame) := by
  obtain ⟨rfl, targets, rfl⟩ := enters.world
  intro g ground object
  obtain rfl := Option.some.inj ((FrameStack.ground?_push grounds).symm.trans ground)
  have object : h = line.receiver := object
  subst object
  have placed : line.Placed (frameFor line.receiver called resolved method args mods) u := by
    refine ⟨fun isFilter => ⟨resolved.key, head isFilter rfl, .inl rfl⟩, fun isMixin => ?_⟩
    obtain ⟨c, definer, here⟩ := here isMixin rfl
    exact ⟨c, c, definer, here, .inl rfl⟩
  exact (placed.modify (t := fun o => { o with holders := o.holders + 1 }) fun _ => rfl).congr rfl

/-- Otherwise the ground is that of before. -/
theorem Invocation.Enters.tracked (spent : u.objects.Spent line.receiver) (single : resolved.kind ≠ .ensemble)
    (plain : resolved.kind = .plain → line.Tracks u)
    (closed : line.Tracks (u.lowered h resolved.pushedFilterPosition resolved.pushedMixinPosition)) :
    Task.Tracked line (.run frame method asked) v := by
  have opened := enters.tracks head here
  obtain ⟨rfl, targets, rfl⟩ := enters.world
  refine ⟨?_, closed.congr rfl rfl⟩
  cases grounds : (frameFor h called resolved method args mods).grounds with
  | true => exact opened grounds
  | false =>
    have isPlain : resolved.kind = .plain := by
      simp only [Frame.grounds, frameFor] at grounds
      by_contra intercepts
      simp [intercepts, single] at grounds
    exact ((plain isPlain).opened_of_not spent grounds).congr rfl rfl

end enters

/-- A search for the next method moves positions on from where they are. -/
theorem Lineup.Tracks.advanced (tracks : line.Tracks w) (spent : w.objects.Spent line.receiver)
    (nodup : line.stations.Nodup) (advanced : Advanced above.object filter mixin resolved w v)
    (ground : resolved.kind ≠ .plain → w.stack.ground? = some above)
    (onward : above.object = line.receiver → line.Onward above w resolved) : line.Tracks v := by
  by_cases plain : resolved.kind = .plain
  · exact tracks.stand spent (advanced.plain plain)
  obtain ⟨keys, targets⟩ := Lineup.nodup_entries nodup
  intro g ground' object
  have same := FrameStack.ground?_of_stances (Frame.stances_of_settled advanced.shifted.frames)
  rw [ground plain, show (v.restored above.object filter mixin).stack.ground? = some g from ground'] at same
  have stance : g.stance = above.stance := Option.some.inj same
  have receiver : above.object = line.receiver := (congrArg (·.2.2.2.1) stance :).symm.trans object
  have placed := tracks above (ground plain) receiver
  refine Lineup.Placed.of_stance ?_ stance
  have onward := onward receiver
  constructor
  case filter =>
    intro isFilter
    obtain ⟨key, head, reached⟩ := placed.filter isFilter
    cases onward with
    | filter _ kind behind =>
      have kind : resolved.kind.isFilter = true := by rw [kind]; rfl
      rw [← receiver] at head spent ⊢
      exact ⟨resolved.key, advanced.head kind spent head, .inr (reached.behind keys (behind key (receiver ▸ head)))⟩
    | mixin kind =>
      have noFilter : resolved.kind.isFilter = false := by rw [kind]; rfl
      exact ⟨key, head.stand spent (advanced.stands noFilter), reached⟩
    | own kind => exact absurd kind plain
    | cls kind => exact absurd kind plain
  case mixin =>
    intro isMixin
    obtain ⟨c, m, definer, here, reached⟩ := placed.mixin isMixin
    have noFilter : above.kind.isFilter ≠ true := by
      cases kind : above.kind <;> simp_all [FrameKind.isFilter, FrameKind.isMixin]
    cases onward with
    | filter among => exact absurd among noFilter
    | @mixin c' kind _ definer' _ among =>
      have kind : resolved.kind.isMixin = true := by rw [kind]; rfl
      obtain ⟨-, behind⟩ := among.resolve_left noFilter
      have moved := advanced.mixin kind
      rw [receiver, definer'] at moved
      exact ⟨c, c', definer, moved, .inr (reached.behind targets (behind m here))⟩
    | own kind => exact absurd kind plain
    | cls kind => exact absurd kind plain

/-- A mixin that a call finds has a class, at which its position is. -/
theorem Lineup.Outset.mixinAt (outset : line.Outset called resolved) (isMixin : resolved.kind.isMixin = true)
    (here : MixinAt h resolved.definer w) : ∃ c, resolved.definer = some c ∧ MixinAt h (some c) w := by
  cases outset with
  | filter kind => rw [kind] at isMixin; cases isMixin
  | mixin _ _ definer => exact ⟨_, definer, definer ▸ here⟩
  | plain kind => rw [kind] at isMixin; cases isMixin

/-- The positions are at the filter or mixin that a search has moved on to. -/
theorem Lineup.Onward.positions (onward : line.Onward above w resolved)
    (advanced : Advanced above.object filter mixin resolved w v) (spent : w.objects.Spent above.object)
    (placed : above.kind.isFilter = true → ∃ key, HeadAt above.object ⟨some key, above.called⟩ w) :
    (resolved.kind.isFilter = true → HeadAt above.object ⟨some resolved.key, above.called⟩ v) ∧
      (resolved.kind.isMixin = true → ∃ c, resolved.definer = some c ∧ MixinAt above.object (some c) v) := by
  refine ⟨fun isFilter => ?_, fun isMixin => ?_⟩
  · cases onward with
    | filter fromFilter =>
      obtain ⟨key, head⟩ := placed fromFilter
      exact advanced.head isFilter spent head
    | mixin kind | own kind | cls kind => rw [kind] at isFilter; cases isFilter
  · have position := advanced.mixin isMixin
    cases onward with
    | mixin _ _ definer => exact ⟨_, definer, definer ▸ position⟩
    | filter _ kind => rw [kind] at isMixin; cases isMixin
    | own kind | cls kind => rw [kind] at isMixin; cases isMixin

variable (faithful : Faithful terms host) (cautious : host.Cautious line.Lasts) (proper : Proper w) (tracks : line.Tracks w)
  (spent : w.objects.Spent line.receiver)

include faithful cautious proper tracks spent

/-- A call opens a frame where the positions are that were pushed for it. -/
theorem Opening.tracked_of_call (lasts : line.Lasts v.objects)
    (opening : Opening host (.call h called args mods) w registered (.run frame method asked) v) :
    Task.Tracked line (.run frame method asked) v := by
  cases opening with
  | @called _ _ _ _ _ u _ resolved _ found enters =>
    obtain ⟨path, pushes⟩ := (brings_resolve id h called mods faithful w proper (.refl w)).2 _ u found
    have pushes : Pushes h called resolved w u := pushes
    obtain ⟨-, targets, is⟩ := enters.world
    have lasts : line.Lasts u.objects := by
      rw [is] at lasts
      exact lasts
    have closed := tracks.stand spent pushes.poised.toBalanced.positionsStand
    refine enters.tracked (fun isFilter _ => pushes.head isFilter) (fun isMixin receiver => ?_) (pushes.toRaised.spent spent)
      (single_resolve _ _ _ found _ rfl) (fun plain => ?_) closed
    · rw [receiver] at found
      exact (lasts.outset faithful cautious proper found).mixinAt isMixin (pushes.mixin isMixin)
    · have filter : resolved.pushedFilterPosition = false := by
        rw [pushes.filter, plain]
        rfl
      rwa [filter, pushes.plain plain, World.lowered_false] at closed

omit tracks spent in
/-- A next call runs what its search has moved on to. -/
theorem Invocation.Continues.advances {i : Nat} {given : Option (List Value)}
    (placed : ∀ f, w.stack.get? i = some f → f.kind.isFilter = true → f.object = line.receiver →
      ∃ key, HeadAt f.object ⟨some key, f.called⟩ w)
    (lasts : line.Lasts v.objects) (continues : Continues host i given w registered (.run frame method asked) v) :
    ∃ above resolved filter mixin x, w.stack.get? i = some above ∧ Advanced above.object filter mixin resolved w x ∧
      resolved.kind ≠ .ensemble ∧ (resolved.kind ≠ .plain → above.kind.isFilter = true ∨ above.kind.isMixin = true) ∧
      (above.object = line.receiver → line.Onward above w resolved) ∧
      Enters above.object above.called resolved (given.getD above.arguments) {} (offTo i above.kind x)
        (.run frame method asked) v := by
  cases continues with
  | @found above resolved done x _ _ here behind enters =>
    obtain ⟨path, advanced⟩ := (brings_continuation (Shifted.start w above.object) rfl faithful w proper (.refl w)).2
      _ x behind
    obtain ⟨-, targets, is⟩ := enters.world
    have lasts : line.Lasts x.objects := by
      rw [is] at lasts
      exact lasts
    have among : resolved.kind ≠ .plain → above.kind.isFilter = true ∨ above.kind.isMixin = true :=
      kind_continuation (q := fun kind => kind ≠ .plain → above.kind.isFilter = true ∨ above.kind.isMixin = true)
        (absurd rfl) above (fun among _ => among) (fun filter _ => .inl filter) _ _ _ behind _ rfl
    exact ⟨above, resolved, _, _, x, here, advanced, single_continuation above _ _ _ behind _ rfl, among, fun receiver =>
      lasts.onward receiver faithful cautious proper (fun isFilter => placed above here isFilter receiver) behind, enters⟩

/-- It opens a frame where the positions are then. -/
theorem Invocation.Continues.tracked (nodup : line.stations.Nodup) {i : Nat} {given : Option (List Value)}
    (ground : ∀ f, w.stack.get? i = some f → f.kind.isFilter = true ∨ f.kind.isMixin = true → w.stack.ground? = some f)
    (lasts : line.Lasts v.objects) (continues : Continues host i given w registered (.run frame method asked) v) :
    Task.Tracked line (.run frame method asked) v := by
  have placed : ∀ f, w.stack.get? i = some f → f.kind.isFilter = true → f.object = line.receiver →
      ∃ key, HeadAt f.object ⟨some key, f.called⟩ w := by
    intro f here isFilter receiver
    obtain ⟨key, head, -⟩ := (tracks f (ground f here (.inl isFilter)) receiver).filter isFilter
    exact ⟨key, receiver ▸ head⟩
  obtain ⟨above, resolved, _, _, x, here, advanced, single, among, onward, enters⟩ :=
    continues.advances faithful cautious proper placed lasts
  obtain ⟨filter, mixin⟩ := advanced.unpushed resolved rfl
  have moved := tracks.advanced spent nodup advanced (fun intercepts => ground above here (among intercepts)) onward
  -- The frame is marked as running a next call before the frame of what was found is opened.
  obtain ⟨f, there, settled⟩ := FrameStack.exists_of_map advanced.shifted.frames here
  have marked := moved.offTo there
  rw [show f.kind = above.kind from (congrArg Frame.kind settled :)] at marked
  refine enters.tracked (fun isFilter receiver => ?_) (fun isMixin receiver => ?_) (advanced.shifted.spent spent) single
    (fun _ => marked) ?_
  · exact ((onward receiver).positions advanced (receiver ▸ spent) fun isFilter => placed above here isFilter receiver).1
      isFilter
  · exact ((onward receiver).positions advanced (receiver ▸ spent) fun isFilter => placed above here isFilter receiver).2
      isMixin
  · rwa [filter, mixin, World.lowered_false]

omit cautious tracks spent in
/-- A next call goes on behind a frame once its arguments are evaluated. -/
theorem Opening.continues_of_eval (marks : host.Marks) (begins : terms.good w.objects) {s : Surroundings} {e : Expr}
    (opening : Opening host (.eval s e) w registered (.run frame method asked) v) :
    ∃ i given u, w.stack.nextIndex? = some i ∧ Proper u ∧ FramesMarked w u ∧ PositionsStand Object.positions w u ∧
      Continues host i given u registered (.run frame method asked) v := by
  cases opening with
  | @passedOn _ given passed i _ u _ _ _ evaluated goesOn continues =>
    obtain ⟨path, poised, -⟩ := ((Script.keeps_givenTo s given) w begins faithful w proper rfl).2 _ u evaluated
    have marking : FramesMarked w u := marks.marking (Script.composed_givenTo s given) _ _ _ evaluated
    refine ⟨i, passed, u, ?_, proper.evolves faithful.remain path.evolves, marking, poised.toBalanced.positionsStand, continues⟩
    rwa [FrameStack.nextIndex?_eq_of_seats marking.stack.seats] at goesOn

/-- It goes on behind the ground, or behind a plain frame. -/
theorem Opening.tracked_of_eval (marks : host.Marks) (nodup : line.stations.Nodup) (begins : terms.good w.objects)
    (seated : w.stack.SubsSeated) (shows : w.stack.InterceptorsShow) {s : Surroundings} {e : Expr}
    (lasts : line.Lasts v.objects) (opening : Opening host (.eval s e) w registered (.run frame method asked) v) :
    Task.Tracked line (.run frame method asked) v := by
  obtain ⟨i, given, u, goesOn, proper, marking, still, continues⟩ := opening.continues_of_eval faithful proper marks begins
  rw [← FrameStack.nextIndex?_eq_of_seats marking.stack.seats] at goesOn
  exact continues.tracked faithful cautious proper (tracks.stand spent still) (still.spent _ spent) nodup
    (fun f here among => (FrameStack.kept_interceptorsShow.marked marking.stack shows).ground?
      (FrameStack.kept_subsSeated.marked marking.stack seated) goesOn here among) lasts

omit cautious tracks spent in
/-- An ensemble opens the frame of its sub-method on top of its own, or passes its own call on. -/
theorem Opening.distributes_of_run {target : Method}
    (opening : Opening host (.run above target mods) w registered (.run frame method asked) v) :
    ∃ u, Proper u ∧ u.stack = w.stack.push { above with runsEnsemble := true } ∧
      PositionsStand Object.positions (asEnsemble w.stack.depth (w.opened above)) u ∧
      ((u = v ∧ frame.kind = .ensemble ∧ frame.pushedFilterPosition = false ∧ frame.pushedMixinPosition = false) ∨
        ∃ given, Continues host w.stack.depth given u registered (.run frame method asked) v) := by
  cases opening with
  | @distributed _ _ _ container _ _ _ _ ensemble distributes =>
    obtain ⟨x, begun⟩ : ∃ x, x = asEnsemble w.stack.depth (w.opened above) := ⟨_, rfl⟩
    rw [← begun] at distributes ⊢
    have top : x.stack = w.stack.push { above with runsEnsemble := true } := begun ▸ w.stack.modify_push above _
    have proper : Proper x :=
      (proper.evolves faithful.remain (Evolves.opened (.run above target mods) w)).evolves faithful.remain
        (.single (.aside (begun ▸ .of_objects rfl rfl rfl rfl le_rfl)))
    have calmly : ∀ {u}, Calmly terms x u → Proper u ∧ u.stack = w.stack.push { above with runsEnsemble := true } ∧
        PositionsStand Object.positions x u := fun path =>
      ⟨proper.evolves faithful.remain (Calmly.proceeds path).evolves, (Level.of_calmly path).stack.trans top,
        (proper.poised_of_calmly faithful.remain path).toBalanced.positionsStand⟩
    cases distributes with
    | @sub name rest _ y _ registered method definer means found keeps leads =>
      have follows : Calmly terms y _ := Deed.along_follow Definition.maxHops registered y
      rw [show (Definition.follow Definition.maxHops registered).exec y = _ from leads] at follows
      obtain ⟨proper, stack, still⟩ := calmly ((Calmly.of_meant means found).trans follows)
      exact ⟨v, proper, stack, still, .inl ⟨rfl, rfl, rfl, rfl⟩⟩
    | @behind _ _ _ y _ _ _ means missing continues =>
      obtain ⟨proper, stack, still⟩ := calmly (.of_meant means missing)
      exact ⟨y, proper, stack, still, .inr ⟨_, continues⟩⟩

omit tracks spent in
/-- Either way positions stay where they are, or move on to what the call is passed on to. -/
theorem Opening.tracked_of_run (nodup : line.stations.Nodup) {target : Method}
    (shows : (w.opened above).stack.InterceptorsShow) (tracks : line.Tracks (w.opened above))
    (spent : w.objects.Spent line.receiver) (lasts : line.Lasts v.objects)
    (opening : Opening host (.run above target mods) w registered (.run frame method asked) v) :
    Task.Tracked line (.run frame method asked) v := by
  obtain ⟨u, proper, top, still, rest⟩ := opening.distributes_of_run faithful proper
  have spent : (asEnsemble w.stack.depth (w.opened above)).objects.Spent line.receiver :=
    spent.of_layout (Heap.layout_modify _ _ _)
  have marked : line.Tracks (asEnsemble w.stack.depth (w.opened above)) :=
    tracks.restack (FrameStack.ground?_of_stances (FrameStack.frames_modify_map _ _ fun _ _ => rfl))
  have tracks := marked.stand spent still
  rcases rest with ⟨rfl, sub, filter, mixin⟩ | ⟨given, continues⟩
  · refine ⟨tracks.opened_of_not (still.spent _ spent) (by simp [Frame.grounds, sub]), ?_⟩
    change line.Tracks (u.lowered frame.object frame.pushedFilterPosition frame.pushedMixinPosition)
    rwa [filter, mixin, World.lowered_false]
  · refine continues.tracked faithful cautious proper tracks (still.spent _ spent) nodup (fun f here among => ?_) lasts
    rw [top, FrameStack.get?_push] at here
    cases here
    rw [top]
    exact FrameStack.ground?_push (Frame.grounds_of_shows (shows _ above (FrameStack.get?_push _ _)) among)

end asked

/-- Where positions are tracked in a task, they are in what it asks for, if it asks for it in its frame, or if they are
tracked once that is closed as well. -/
theorem AsksFor.tracked {line : Lineup} (nodup : line.stations.Nodup) {depth : Nat} {task sub : Task} {v w : World}
    (proper : Proper w) (begins : line.Lasts w.objects) (seated : task.Begins (fun w => w.stack.SubsSeated) w)
    (shows : task.Begins (fun w => w.stack.InterceptorsShow) w) (spent : w.objects.Spent line.receiver)
    (inside : line.Tracks (task.opened w)) (closed : v.stack.depth ≤ w.stack.depth → line.Tracks (task.closed w))
    (asks : AsksFor (hostWithin line.Lasts depth).failing task w sub v) (lasts : sub.isRun = true → line.Lasts v.objects) :
    sub.Tracked line v := by
  have remain : ∀ a, line.Lasts a → a.HandlesRemain := fun _ lasts => lasts.remain
  have faithful := (faithful_hostWithin remain depth).failing
  have cautious := Host.cautious_failing line.Lasts depth
  have marks := (Host.Marks.hostWithin line.Lasts depth).failing
  by_cases isRun : sub.isRun = true
  · cases sub with
    | eval | call => cases isRun
    | run frame method asked =>
      have lasts := lasts rfl
      obtain ⟨registered, opening⟩ := asks.opens
      cases task with
      | eval s e =>
        exact opening.tracked_of_eval faithful cautious proper inside spent marks nodup begins seated.before shows.before lasts
      | call h name args mods => exact opening.tracked_of_call faithful cautious proper inside spent lasts
      | run above target mods => exact opening.tracked_of_run faithful cautious proper nodup shows.opened inside spent lasts
  · have spentInside : (task.opened w).objects.Spent line.receiver := by
      cases task with
      | eval | call => exact spent
      | run => exact spent.of_layout (Heap.layout_modify _ _ _)
    have spentClosed : (task.closed w).objects.Spent line.receiver := spent.of_layout (task.closed_alike w).layout
    rw [Bool.not_eq_true] at isRun
    refine .of_world isRun ?_
    rcases (asks.inside remain proper begins).2.1.positions isRun with rest | still | ⟨f, top, visible, plain⟩
    · exact inside.rest spentInside rest
    · refine (closed ?_).stand spentClosed still
      have depth : v.stack.depth = (task.closed w).stack.depth := by
        simpa [FrameStack.depth] using congrArg List.length still.frames
      rw [depth]
      cases task <;> exact le_rfl
    · exact .of_plain top visible plain

end DynamicObjects
