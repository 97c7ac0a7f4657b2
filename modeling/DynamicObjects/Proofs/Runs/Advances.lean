import DynamicObjects.Proofs.Runs.Aliases
import DynamicObjects.Proofs.Runs.Nesting
import DynamicObjects.Proofs.Runs.Traces

/-!
# Next calls advance

As long as the lineup of a call lasts, each of its frames runs behind the one before, so that no two of them run at one
station. The exception is the receiver's own method if it is an alias: the next call in its frame takes the method that the
alias leads to for another one than the alias, and starts it again.
-/
namespace DynamicObjects

open Invocation

/-! ## From one frame to the next -/

namespace Lineup

/-- The second frame runs behind the first one. But next calls may start the receiver's own method again if it is an alias. -/
def Advances (line : Lineup) (f g : Frame) : Prop :=
  Behind line.stations f.station g.station ∨
    f.station = .own ∧ g.station = .own ∧ ∃ own, line.own = some own ∧ own.kind = .aliased

/-- A frame at the receiver's own method runs what is registered, or where it leads. -/
def Registers (line : Lineup) (f : Frame) : Prop :=
  f.station = .own → ∃ registered, line.own = some registered ∧ (registered.kind ≠ .aliased → f.method = some registered)

/-- What is known of the runs of a call and of the next calls inside of it. -/
structure Plays (line : Lineup) (frame : Frame) (method : Method) (mods : CallModifiers) (w : World) : Prop where
  arrives : (Task.run frame method mods).Arrives line.receiver w
  object : frame.object = line.receiver
  called : frame.called = line.name
  named : frame.kind.isFilter = false → frame.methodName = line.name
  single : frame.kind ≠ .ensemble
  tracks : frame.kind ≠ .plain → line.Tracks (w.opened frame)
  listed : frame.kind ≠ .plain → frame.station ∈ line.stations

variable {line : Lineup} {h : Handle} {called : String} {resolved : Resolved} {args : List Value} {mods asked : CallModifiers}
  {above frame frame' : Frame} {method method' : Method} {u v w : World}

/-- What is found for a call or behind a frame has the name of the lineup, and is listed there if it is a filter or a mixin. -/
structure Lists (line : Lineup) (resolved : Resolved) : Prop where
  named : resolved.kind.isFilter = false → resolved.name = line.name
  listed : resolved.kind ≠ .plain → stationOf resolved.kind resolved.definer resolved.name ∈ line.stations

namespace Lists

theorem filter (kind : resolved.kind = .filter true) (listed : resolved.key ∈ line.filters.map FilterEntry.key) :
    line.Lists resolved := by
  refine ⟨fun noFilter => by simp [kind, FrameKind.isFilter] at noFilter, fun _ => ?_⟩
  rw [kind, stationOf_of_isFilter rfl]
  exact filter_mem_stations.2 listed

theorem mixin {c : Handle} (kind : resolved.kind = .mixin true) (named : resolved.name = line.name)
    (definer : resolved.definer = some c) (listed : c ∈ line.mixins.map (·.target)) : line.Lists resolved := by
  refine ⟨fun _ => named, fun _ => ?_⟩
  rw [kind, definer, stationOf_of_isMixin rfl]
  exact mixin_mem_stations.2 listed

theorem plain (kind : resolved.kind = .plain) (named : resolved.name = line.name) : line.Lists resolved :=
  ⟨fun _ => named, absurd kind⟩

end Lists

theorem Outset.lists (outset : line.Outset line.name resolved) : line.Lists resolved := by
  cases outset with
  | filter kind listed => exact .filter kind listed
  | mixin kind named definer listed => exact .mixin kind named definer listed
  | plain kind named => exact .plain kind named

theorem Outset.own_of_station (outset : line.Outset line.name resolved) (unqualified : Definition.isQualified line.name = false)
    (own : stationOf resolved.kind resolved.definer resolved.name = .own) : line.own = some resolved.method := by
  cases outset with
  | filter kind =>
    rw [kind, stationOf_of_isFilter rfl] at own
    cases own
  | mixin kind _ definer =>
    rw [kind, definer, stationOf_of_isMixin rfl] at own
    cases own
  | plain kind _ registered =>
    cases definer : resolved.definer with
    | none => exact registered definer unqualified rfl
    | some c =>
      rw [kind, definer] at own
      cases own

theorem Onward.lists (onward : line.Onward above w resolved) (sought : above.sought = line.name)
    (head : above.kind.isFilter = true → ∃ key, HeadAt line.receiver ⟨some key, above.called⟩ w) : line.Lists resolved := by
  cases onward with
  | filter among kind behind =>
    obtain ⟨key, head⟩ := head among
    exact .filter kind (behind key head).mem_right
  | mixin kind named definer listed => exact .mixin kind (named.trans sought) definer listed
  | own kind named => exact .plain kind (named.trans sought)
  | cls kind named => exact .plain kind (named.trans sought)

theorem Onward.own_of_station (onward : line.Onward above w resolved) (sought : above.sought = line.name)
    (own : stationOf resolved.kind resolved.definer resolved.name = .own) : line.own = some resolved.method := by
  cases onward with
  | filter _ kind =>
    rw [kind, stationOf_of_isFilter rfl] at own
    cases own
  | mixin kind _ definer =>
    rw [kind, definer, stationOf_of_isMixin rfl] at own
    cases own
  | own _ _ _ registered => exact registered sought
  | cls kind _ definer =>
    rw [kind, definer] at own
    cases own

theorem station_of_enters (enters : Enters h called resolved args mods u (.run frame method asked) v) :
    frame.station = stationOf resolved.kind resolved.definer resolved.name := by
  obtain ⟨rfl, -⟩ := enters.world
  rfl

/-- A run of what was found plays. -/
theorem Lists.plays (lists : line.Lists resolved)
    (enters : Enters line.receiver line.name resolved args mods u (.run frame method asked) v)
    (arrives : (Task.run frame method asked).Arrives line.receiver v) (single : resolved.kind ≠ .ensemble)
    (tracks : resolved.kind ≠ .plain → line.Tracks (v.opened frame)) : line.Plays frame method asked v := by
  obtain ⟨rfl, -⟩ := enters.world
  exact ⟨arrives, rfl, rfl, lists.named, single, tracks, lists.listed⟩

theorem registers_of_enters (enters : Enters h called resolved args mods u (.run frame method asked) v)
    (own : frame.station = .own → line.own = some resolved.method) : line.Registers frame := by
  intro here
  refine ⟨resolved.method, own here, fun direct => ?_⟩
  cases enters with
  | run leads =>
    cases (exec_followAliases direct u).symm.trans leads
    rfl

/-- What is found behind a frame is at a station behind that of the frame. -/
theorem Onward.advances (onward : line.Onward above w resolved) (nodup : line.stations.Nodup)
    (sought : above.sought = line.name) (single : above.kind ≠ .ensemble) (placed : above.kind ≠ .plain → line.Placed above w)
    (listed : above.kind ≠ .plain → above.station ∈ line.stations) (registers : line.Registers above)
    (is : frame.station = stationOf resolved.kind resolved.definer resolved.name) : line.Advances above frame := by
  obtain ⟨keys, targets⟩ := nodup_entries nodup
  have filter : above.kind.isFilter = true →
      above.station = .filter above.key ∧ above.key ∈ line.filters.map FilterEntry.key := by
    intro isFilter
    have at_filter : above.station = .filter above.key := stationOf_of_isFilter isFilter above.definer
    have member := listed fun plain => by rw [plain] at isFilter; cases isFilter
    exact ⟨at_filter, filter_mem_stations.1 (at_filter ▸ member)⟩
  have mixin : above.kind.isMixin = true → ∃ c, above.station = .mixin c ∧ c ∈ line.mixins.map (·.target) ∧
      ∃ m, MixinAt line.receiver (some m) w ∧ AtOrBehind (line.mixins.map (·.target)) c m := by
    intro isMixin
    have intercepts : above.kind ≠ .plain := fun plain => by rw [plain] at isMixin; cases isMixin
    obtain ⟨c, m, definer, here, reached⟩ := (placed intercepts).mixin isMixin
    have at_mixin : above.station = .mixin c := by rw [Frame.station, definer, stationOf_of_isMixin isMixin]
    exact ⟨c, at_mixin, mixin_mem_stations.1 (at_mixin ▸ listed intercepts), m, here, reached⟩
  -- What is left behind filters, or behind mixins, is behind the frame if that is one of them.
  have behind_filters : above.kind.isFilter = true → ∀ s ∈ line.unfilteredStations, Behind line.stations above.station s := by
    intro isFilter s later
    obtain ⟨at_filter, member⟩ := filter isFilter
    exact at_filter ▸ behind_of_filter member later
  have behind_mixins : above.kind.isFilter = true ∨ above.kind.isMixin = true →
      ∀ s ∈ line.plainStations, Behind line.stations above.station s := by
    rintro (isFilter | isMixin) s later
    · exact behind_filters isFilter s (List.mem_append_right _ later)
    · obtain ⟨c, at_mixin, member, -⟩ := mixin isMixin
      exact at_mixin ▸ behind_unfiltered (behind_of_mixin member later)
  have plain : ¬(above.kind.isFilter = true ∨ above.kind.isMixin = true) → above.kind = .plain := by
    intro neither
    cases kind : above.kind <;> simp_all [FrameKind.isFilter, FrameKind.isMixin]
  cases onward with
  | filter among kind behind =>
    obtain ⟨at_filter, -⟩ := filter among
    obtain ⟨key, head, reached⟩ := (placed fun plain => by rw [plain] at among; cases among).filter among
    rw [kind, stationOf_of_isFilter rfl] at is
    exact .inl (at_filter ▸ is ▸ behind_filter (reached.behind keys (behind key head)))
  | @mixin c kind _ definer member among =>
    rw [kind, definer, stationOf_of_isMixin rfl] at is
    rcases among with isFilter | ⟨isMixin, behind⟩
    · obtain ⟨m, entry, same⟩ := List.mem_map.1 member
      have later : Station.mixin c ∈ line.unfilteredStations :=
        List.mem_append_left _ (List.mem_map.2 ⟨m, entry, congrArg Station.mixin same⟩)
      exact .inl (is ▸ behind_filters isFilter _ later)
    · obtain ⟨d, at_mixin, -, m, here, reached⟩ := mixin isMixin
      exact .inl (at_mixin ▸ is ▸ behind_unfiltered (behind_mixin (reached.behind targets (behind m here))))
  | own kind _ definer registered among passed =>
    rw [kind, definer] at is
    by_cases intercepts : above.kind.isFilter = true ∨ above.kind.isMixin = true
    · exact .inl (is ▸ behind_mixins intercepts _ List.mem_cons_self)
    · have own : above.definer = none := by
        rcases among with isFilter | isMixin | own
        · exact absurd (.inl isFilter) intercepts
        · exact absurd (.inr isMixin) intercepts
        · exact own
      have here : above.station = .own := by rw [Frame.station, plain intercepts, own]; rfl
      obtain ⟨own', taught, runs⟩ := registers here
      refine .inr ⟨here, is, own', taught, by_contra fun direct => ?_⟩
      have same : own' = resolved.method := Option.some.inj (taught.symm.trans (registered sought))
      simp [runsOwn, own, runs direct, same] at passed
  | @cls c kind _ definer member among =>
    rw [kind, definer] at is
    have is : frame.station = .cls c := is
    by_cases intercepts : above.kind.isFilter = true ∨ above.kind.isMixin = true
    · exact .inl (is ▸ behind_mixins intercepts _ (List.mem_cons_of_mem _ (List.mem_map_of_mem member)))
    · have behind : ∀ d, above.definer = some d → Behind line.classes d c := by
        rcases among with isFilter | isMixin | behind
        · exact absurd (.inl isFilter) intercepts
        · exact absurd (.inr isMixin) intercepts
        · exact behind
      cases definer' : above.definer with
      | none =>
        have here : above.station = .own := by rw [Frame.station, plain intercepts, definer']; rfl
        exact .inl (here ▸ is ▸ behind_unfiltered (behind_plain (behind_own member)))
      | some d =>
        have here : above.station = .cls d := by rw [Frame.station, plain intercepts, definer']; rfl
        exact .inl (here ▸ is ▸ behind_unfiltered (behind_plain (behind_cls (behind d definer'))))

/-- What goes on behind a frame, and what is known of the world in which it does. -/
structure Resumes (line : Lineup) (frame : Frame) (i : Nat) (w : World) : Prop where
  proper : Proper w
  spent : w.objects.Spent line.receiver
  here : (w.stack.get? i).map Frame.inert = some frame.inert
  tracks : frame.kind ≠ .plain → line.Tracks w
  ground : ∀ above, w.stack.get? i = some above → above.kind.isFilter = true ∨ above.kind.isMixin = true →
    w.stack.ground? = some above

/-- A run comes to the next one behind its own frame. -/
theorem Plays.continues (plays : line.Plays frame method mods w) (nodup : line.stations.Nodup)
    (passes : PassesTo line.Lasts frame method mods w frame' method' asked v) :
    line.Lasts v.objects ∧ (Task.run frame' method' asked).Arrives line.receiver v ∧ ∃ depth given registered u,
      line.Resumes frame w.stack.depth u ∧ Invocation.Continues (hostWithin line.Lasts depth).failing w.stack.depth given u
        registered (.run frame' method' asked) v := by
  have remain : ∀ a, line.Lasts a → a.HandlesRemain := fun _ lasts => lasts.remain
  cases passes with
  | @next depth s given _ _ _ u _ beneath behind begins asks opens =>
    have arrives := beneath.arrives remain plays.arrives
    obtain ⟨registered, opening⟩ := asks.opens
    obtain ⟨i, given, x, goesOn, proper, marking, still, continues⟩ := opening.continues_of_eval
      (faithful_hostWithin remain depth).failing arrives.proper (Host.Marks.hostWithin line.Lasts depth).failing begins
    obtain rfl : w.stack.depth = i := Option.some.inj (behind.symm.trans goesOn)
    rw [← FrameStack.nextIndex?_eq_of_seats marking.stack.seats] at goesOn
    refine ⟨opens, asks.arrives remain arrives begins, depth, given, registered, x, ⟨proper, still.spent _ arrives.spent,
      (FrameStack.asks_inFrame _ frame).marked marking (beneath.inFrame remain plays.arrives), fun intercepts => ?_,
      fun above here among => ?_⟩, continues⟩
    · exact (beneath.tracked nodup plays.arrives (plays.tracks intercepts) nofun).inside.stand arrives.spent still
    · exact (FrameStack.kept_interceptorsShow.marked marking.stack arrives.shows.before).ground?
        (FrameStack.kept_subsSeated.marked marking.stack arrives.seated.before) goesOn here among
  | @ensemble depth _ _ _ _ begins asks onward opens =>
    have arrives := plays.arrives
    obtain ⟨registered, opening⟩ := asks.opens
    obtain ⟨u, proper, top, still, rest⟩ := opening.distributes_of_run (faithful_hostWithin remain depth).failing
      arrives.proper
    obtain ⟨given, continues⟩ := rest.resolve_left fun ⟨_, sub, _⟩ => onward sub
    have spent : (asEnsemble w.stack.depth (w.opened frame)).objects.Spent line.receiver :=
      arrives.spent.of_layout (Heap.layout_modify _ _ _)
    have here : u.stack.get? w.stack.depth = some { frame with runsEnsemble := true } := by
      rw [top, FrameStack.get?_push]
    refine ⟨opens, asks.arrives remain arrives begins, depth, given, registered, u, ⟨proper, still.spent _ spent,
      congrArg (Option.map Frame.inert) here, fun intercepts => ?_, fun above there among => ?_⟩, continues⟩
    · have marked : line.Tracks (asEnsemble w.stack.depth (w.opened frame)) :=
        (plays.tracks intercepts).restack (FrameStack.ground?_of_stances (FrameStack.frames_modify_map _ _ fun _ _ => rfl))
      exact marked.stand spent still
    · cases here.symm.trans there
      have shows := arrives.shows.opened _ frame (FrameStack.get?_push _ _)
      rw [top]
      exact FrameStack.ground?_push (Frame.grounds_of_shows shows among)

/-- The next run plays as well: behind the first one, unless that is an alias of the receiver. -/
theorem Plays.passes (plays : line.Plays frame method mods w) (nodup : line.stations.Nodup)
    (passes : PassesTo line.Lasts frame method mods w frame' method' asked v) :
    line.Plays frame' method' asked v ∧ line.Registers frame' ∧ (line.Registers frame → line.Advances frame frame') := by
  have remain : ∀ a, line.Lasts a → a.HandlesRemain := fun _ lasts => lasts.remain
  obtain ⟨lasts, arrives, depth, given, registered, u, ⟨proper, spent, here, tracks, ground⟩, continues⟩ :=
    plays.continues nodup passes
  have faithful := (faithful_hostWithin remain depth).failing
  have cautious := Host.cautious_failing line.Lasts depth
  obtain ⟨above, there, inert⟩ := Option.map_eq_some_iff.1 here
  have isFilter := Frame.isFilter_of_inert inert
  have isMixin := Frame.isMixin_of_inert inert
  have receiver : above.object = line.receiver := (congrArg Frame.object inert :).trans plays.object
  have intercepts : above.kind.isFilter = true ∨ above.kind.isMixin = true → frame.kind ≠ .plain := by
    rw [isFilter, isMixin]
    rintro (among | among) plain <;> rw [plain] at among <;> cases among
  have placed : above.kind.isFilter = true ∨ above.kind.isMixin = true → line.Placed above u :=
    fun among => tracks (intercepts among) above (ground above there among) receiver
  obtain ⟨f, resolved, filter, mixin, x, found, advanced, single, among, onward, enters⟩ :=
    continues.advances faithful cautious proper (fun f found filter object => by
      cases there.symm.trans found
      obtain ⟨key, head, -⟩ := (placed (.inl filter)).filter filter
      exact ⟨key, object ▸ head⟩) lasts
  cases there.symm.trans found
  have onward := onward receiver
  have called : above.called = line.name := (congrArg Frame.called inert :).trans plays.called
  have sought : above.sought = line.name := by
    unfold Frame.sought
    split
    · exact called
    · next plain =>
      have named : above.methodName = frame.methodName := (congrArg Frame.methodName inert :)
      exact named.trans (plays.named (isFilter ▸ Bool.eq_false_iff.2 plain))
  have alone : above.kind ≠ .ensemble := by
    intro sub
    have kind : frame.kind.deactivated = .ensemble := by
      rw [← show above.inert.kind = frame.kind.deactivated from congrArg Frame.kind inert, Frame.inert, sub]
      rfl
    have same := frame.kind.deactivated_beq_ensemble
    rw [kind] at same
    exact plays.single (beq_iff_eq.1 same.symm)
  have within : above.kind ≠ .plain → above.kind.isFilter = true ∨ above.kind.isMixin = true := by
    intro notPlain
    cases kind : above.kind <;> simp_all [FrameKind.isFilter, FrameKind.isMixin]
  have station : above.station = frame.station := Frame.station_of_inert inert
  have listed : above.kind ≠ .plain → above.station ∈ line.stations :=
    fun notPlain => station ▸ plays.listed (intercepts (within notPlain))
  have tracked : resolved.kind ≠ .plain → Task.Tracked line (.run frame' method' asked) v := fun notPlain =>
    continues.tracked faithful cautious proper (tracks (intercepts (among notPlain))) spent nodup ground lasts
  have lists := onward.lists sought fun isFilter => ((placed (.inl isFilter)).filter isFilter).imp fun _ both => both.1
  rw [receiver, called] at enters
  refine ⟨lists.plays enters arrives single fun notPlain => (tracked notPlain).inside,
    registers_of_enters enters fun own => onward.own_of_station sought (station_of_enters enters ▸ own), fun registers => ?_⟩
  have registers : line.Registers above := fun own => by
    obtain ⟨registered, taught, runs⟩ := registers (station ▸ own)
    exact ⟨registered, taught, fun direct => (congrArg Frame.method inert :).trans (runs direct)⟩
  have advances : line.Advances above frame' := onward.advances nodup sought alone (fun notPlain => placed (within notPlain))
    listed registers (station_of_enters enters)
  unfold Advances at advances ⊢
  rwa [station] at advances

/-- So does the run that a call comes to. -/
theorem plays_of_call {depth : Nat} (arrives : (Task.call line.receiver line.name args mods).Arrives line.receiver w)
    (begins : line.Lasts w.objects) (asks : AsksFor (hostWithin line.Lasts depth).failing
      (.call line.receiver line.name args mods) w (.run frame method asked) v) (opens : line.Lasts v.objects) :
    line.Plays frame method asked v ∧ (Definition.isQualified line.name = false → line.Registers frame) := by
  have remain : ∀ a, line.Lasts a → a.HandlesRemain := fun _ lasts => lasts.remain
  have faithful := (faithful_hostWithin remain depth).failing
  have after := asks.arrives remain arrives begins
  obtain ⟨registered, opening⟩ := asks.opens
  cases opening with
  | @called _ _ _ _ _ u _ resolved _ found enters =>
    obtain ⟨-, pushes⟩ := (brings_resolve id line.receiver line.name mods faithful w arrives.proper (.refl w)).2 _ u found
    have pushes : Pushes line.receiver line.name resolved w u := pushes
    have single : resolved.kind ≠ .ensemble := single_resolve _ _ _ found _ rfl
    obtain ⟨is, targets, same⟩ := enters.world
    have lasts : line.Lasts u.objects := by
      rw [same] at opens
      exact opens
    have outset := lasts.outset faithful (Host.cautious_failing line.Lasts depth) arrives.proper found
    refine ⟨outset.lists.plays enters after single fun notPlain => ?_, fun unqualified => registers_of_enters enters fun own =>
      outset.own_of_station unqualified (station_of_enters enters ▸ own)⟩
    refine enters.tracks (fun isFilter _ => pushes.head isFilter)
      (fun isMixin _ => outset.mixinAt isMixin (pushes.mixin isMixin)) ?_
    rw [is]
    simp [Frame.grounds, frameFor, notPlain, single]

/-! ## All frames of a call -/

/-- What one frame of a call says about the one before: its own method is registered, and if that holds of the one before
as well, it runs behind that. -/
def Strides (line : Lineup) (f g : Frame) : Prop :=
  line.Registers g ∧ (line.Registers f → line.Advances f g)

theorem isChain_advances {f : Frame} {frames : List Frame} (registers : line.Registers f)
    (strides : (f :: frames).IsChain line.Strides) : (f :: frames).IsChain line.Advances := by
  induction frames generalizing f with
  | nil => exact .singleton f
  | cons g frames ih =>
    obtain ⟨⟨registers', advances⟩, rest⟩ := List.isChain_cons_cons.1 strides
    exact List.isChain_cons_cons.2 ⟨advances registers, ih registers' rest⟩

/-- Each run of a call strides on from the one before. -/
theorem strides_of_nested (nodup : line.stations.Nodup)
    (arrives : (Task.call line.receiver line.name args mods).Arrives line.receiver w) {frames : List Frame}
    (nested : Nested line.Lasts line.receiver line.name args mods w frames frame method asked v) :
    line.Plays frame method asked v ∧ frames.getLast? = some frame ∧ frames.IsChain line.Strides ∧
      (Definition.isQualified line.name = false → ∀ f ∈ frames.head?, line.Registers f) := by
  induction nested with
  | called begins asks opens =>
    obtain ⟨plays, registers⟩ := plays_of_call arrives begins asks opens
    exact ⟨plays, rfl, .singleton _, fun unqualified f first => Option.some.inj first ▸ registers unqualified⟩
  | @passed frames f g _ _ _ _ _ _ nested passes ih =>
    obtain ⟨plays, last, strides, registers⟩ := ih
    obtain ⟨plays', own, advances⟩ := plays.passes nodup passes
    refine ⟨plays', List.getLast?_concat, List.isChain_append.2 ⟨strides, .singleton _, fun x lastOne y first => ?_⟩, ?_⟩
    · cases last.symm.trans lastOne
      cases first
      exact ⟨own, advances⟩
    · have started : (frames ++ [g]).head? = frames.head? := by
        cases frames with
        | nil => cases last
        | cons => rfl
      rwa [started]

end Lineup

/-- The stations of what is live are told apart. -/
theorem World.nodup_stations {h : Handle} {o : Object} {w : World} (proper : Proper w) (current : MixinOrdersCurrent w)
    (numbered : Numbered w) (live : w.live? h = some o) (name : String) : (w.lineup h name).stations.Nodup := by
  obtain ⟨v, asked, -, -, -, -, stands⟩ := stands_lineup proper current numbered live name
  have current : MixinOrdersCurrent v := by simpa only [asked] using current.filterOrder proper h
  have numbered : Numbered v := by simpa only [asked] using numbered.filterOrder proper h
  obtain ⟨p, live, -, -, -, filters, mixins⟩ := stands.exists_live
  exact Lineup.nodup_stations (numbered.keys _ p _ live filters)
    (Interception.nodup_of_computeMixinOrder (Prod.ext (current _ p _ live mixins) rfl)) stands.classes.nodup

/-! ### An object with a method that passes its call on, and an alias of that -/

section trial

variable {h : Handle} {name : String} {resolved : Resolved} {o : Object} {f g : Frame} {u w : World} {line : Lineup}

/-- While a lineup stands, it lasts. -/
theorem Lineup.Stands.lasts {a : Objects} (stands : line.Stands a) (remain : a.HandlesRemain) : line.Lasts a := by
  obtain ⟨o, found, deleted, -, cls, own, filters, mixins⟩ := stands.receiver
  refine ⟨remain, fun p there _ => ?_, stands.classes⟩
  cases found.symm.trans there
  exact ⟨cls, own, fun order kept => Option.some.inj (kept.symm.trans filters),
    fun order kept => Option.some.inj (kept.symm.trans mixins)⟩

/-- Where the filter order of an object is kept, the lineups of its calls last. -/
theorem World.lasts_lineup (proper : Proper w) (current : MixinOrdersCurrent w) (numbered : Numbered w)
    (live : w.live? h = some o) {filters : List FilterEntry} (kept : o.filterOrder = some filters)
    (remain : w.objects.HandlesRemain) (name : String) : (w.lineup h name).Lasts w.objects := by
  obtain ⟨v, asked, -, -, -, -, stands⟩ := stands_lineup proper current numbered live name
  cases (exec_filterOrder_of_kept live kept).symm.trans asked
  exact stands.lasts remain

theorem Lineup.Lasts.filled {a b : Objects} (lasts : line.Lasts a) (filled : Filled a b) : line.Lasts b :=
  lasts.of_alike (filled.alike.comp Object.lining fun o => by
    simp [Object.lining, Object.withoutPrecedence, Function.comp_def])

/-- Where no filters and no mixins are kept, a search for a method at most keeps precedence orders. -/
theorem filled_of_findBare (proper : Proper w) (live : w.live? h = some o) (filters : o.filterOrder = some [])
    (mixins : o.mixinOrder = some []) (bare : findBare w h name = some (resolved, u)) :
    ∃ b, u = { w with objects := b } ∧ Filled w.objects b := by
  have ordered : mixinsUnfiltered? w h = some ([], w) := by
    unfold mixinsUnfiltered?
    rw [exec_filterOrder_of_kept live filters]
    dsimp only
    rw [exec_mixinOrder_of_kept live mixins]
  unfold findBare at bare
  rw [ordered] at bare
  dsimp only at bare
  obtain ⟨r, b, done, filled⟩ := proper.filled_of_along (Consults.along_resolvePlain h name {})
  rw [done] at bare
  split at bare
  · next same =>
    cases same
    cases bare
    exact ⟨b, rfl, filled⟩
  · cases bare

/-- What an alias leads to, and the world after it was followed. -/
def leadsTo? (method : Method) (w : World) : Option (Method × World) :=
  match (Definition.followAliases method).exec w with
  | (.ok target, v) => some (target, v)
  | _ => none

theorem exec_followAliases_of_leadsTo? {method target : Method} (is : leadsTo? method w = some (target, u)) :
    (Definition.followAliases method).exec w = (.ok target, u) ∧ u.objects = w.objects := by
  unfold leadsTo? at is
  split at is
  · next leads =>
    cases is
    obtain ⟨targets, same⟩ := exists_aliasTargets method w
    rw [leads] at same
    exact ⟨leads, (congrArg World.objects same :)⟩
  · cases is

/-- The first two frames of a call on an object that has neither filters nor mixins, if the method that is run in the first
one only passes its call on. -/
def firstFrames? (w : World) (h : Handle) (name : String) : Option (Frame × Frame) := do
  let (resolved, u) ← findBare w h name
  let (method, v) ← leadsTo? resolved.method u
  let frame := frameFor h name resolved method [] {}
  let _ ← passingArguments? v frame method
  guard (frame.kind = .plain ∧ frame.visible = true)
  let (next, x) ← nextBare? (v.opened frame) frame
  let (method', _) ← leadsTo? next.method (offTo v.stack.depth frame.kind x)
  return (frame, frameFor h name next method' [] {})

/-- These are the frames of nested runs, while the lineup of the call lasts. -/
theorem nested_of_firstFrames? (proper : Proper w) (callable : Callable w h name {}) (live : w.live? h = some o)
    (filters : o.filterOrder = some []) (mixins : o.mixinOrder = some []) (lasts : line.Lasts w.objects)
    (frames : firstFrames? w h name = some (f, g)) :
    ∃ method v, Nested line.Lasts h name [] {} w [f, g] g method {} v := by
  unfold firstFrames? at frames
  obtain ⟨⟨resolved, u⟩, bare, frames⟩ := Option.bind_eq_some_iff.1 frames
  obtain ⟨⟨method, v⟩, leads, frames⟩ := Option.bind_eq_some_iff.1 frames
  obtain ⟨arguments, passes, frames⟩ := Option.bind_eq_some_iff.1 frames
  obtain ⟨⟨⟩, shown, frames⟩ := Option.bind_eq_some_iff.1 frames
  obtain ⟨⟨next, x⟩, behind, frames⟩ := Option.bind_eq_some_iff.1 frames
  obtain ⟨⟨method', y⟩, leads', frames⟩ := Option.bind_eq_some_iff.1 frames
  obtain ⟨plain, visible⟩ := (Option.guard_eq_some' _).1 shown
  cases frames
  obtain ⟨frame, is⟩ : ∃ frame, frame = frameFor h name resolved method [] {} := ⟨_, rfl⟩
  rw [← is] at passes plain visible behind leads' ⊢
  have receiver : frame.object = h := is ▸ rfl
  have called : frame.called = name := is ▸ rfl
  have given : frame.arguments = [] := is ▸ rfl
  -- The lineup lasts all the way.
  obtain ⟨b, same, filled⟩ := filled_of_findBare proper live filters mixins bare
  obtain ⟨follows, objects⟩ := exec_followAliases_of_leadsTo? leads
  obtain ⟨follows', objects'⟩ := exec_followAliases_of_leadsTo? leads'
  have found : line.Lasts u.objects := by
    rw [same]
    exact lasts.filled filled
  have runs : line.Lasts v.objects := objects ▸ found
  have opened : line.Lasts (v.opened frame).objects := runs.of_alike (.modify _ _ fun _ => rfl)
  have single : frame.kind ≠ .ensemble := by
    rw [plain]
    decide
  have calls : AsksFor (hostWithin line.Lasts 1).failing (.call h name [] {}) w (.run frame method {}) v :=
    is ▸ asksFor_run_of_leads live callable.room (callable.exec_resolve_of_bare bare _) follows
  have remain : ∀ a, line.Lasts a → a.HandlesRemain := fun _ lasts => lasts.remain
  have begun : Proper v := proper.evolves remain (calls.inside remain proper lasts).1.evolves
  have proper : Proper (v.opened frame) := begun.evolves remain (.opened (.run frame method {}) v)
  have ends : line.Lasts y.objects := by
    obtain ⟨r, b, done, filled⟩ :=
      proper.filled_of_along (Consults.along_nextPlain frame ⟨frame.methodName, frame.definer, false⟩)
    unfold nextBare? at behind
    rw [done] at behind
    split at behind
    · next same =>
      cases same
      cases behind
      rw [objects']
      exact opened.filled filled
    · cases behind
  obtain ⟨reads, p, live', unchecked⟩ := scriptedBody?_of_passingArguments? passes
  have evaluates : AsksFor (hostWithin line.Lasts 1).failing (.run frame method {}) v
      (.eval (.scripted arguments) (.next none)) (v.opened frame) := asksFor_body live' unchecked reads
  have goesOn : AsksFor (hostWithin line.Lasts 1).failing (.eval (.scripted arguments) (.next none)) (v.opened frame) _ y :=
    asksFor_next_of_leads (FrameStack.activeIndex?_push v.stack visible) (FrameStack.get?_push v.stack frame) single
      (exec_continuation_of_nextBare? plain behind _) follows'
  rw [receiver, called, given] at goesOn
  have inside : Beneath line.Lasts frame method {} v (.eval (.scripted arguments) (.next none)) (v.opened frame) :=
    .asked runs evaluates (congrArg _ (FrameStack.get?_push v.stack frame))
  exact ⟨method', y, .passed (.called lasts calls runs)
    (.next inside (FrameStack.nextIndex?_push visible single) opened goesOn ends)⟩

end trial

/-- An object that has a method of its class as well and passes calls of it on, and an alias of its own method. -/
def passingOnSession : List Expr :=
  [foundation, Trial.createClass "C", Trial.define .instances "C" (Trial.method "work" (Trial.text "worked")),
    Trial.createObject "o" "C", Trial.define .object "o" (Trial.method "work" (.next none)),
    Trial.define .object "o" (Trial.aliasOf "go" "::o::work"), Trial.filterOrder "o"]

@[irreducible] def passingOnWorld : World :=
  (sessionWithin Heap.HandlesRemain 5 passingOnSession).get (by decide +kernel)

theorem session_passingOnWorld : Session Heap.HandlesRemain passingOnWorld := by
  unfold passingOnWorld
  exact of_sessionWithin (.start {}) (fun _ _ _ _ session done => .ended session done) (Option.some_get _).symm

/-- Calls on the object pass from frame to frame while its lineup lasts. -/
theorem nested_passingOnWorld {name : String} {f g : Frame} (callable : Callable passingOnWorld ⟨3, 0⟩ name {})
    (frames : firstFrames? passingOnWorld ⟨3, 0⟩ name = some (f, g)) :
    Entered Heap.HandlesRemain (.call ⟨3, 0⟩ name [] {}) passingOnWorld ∧ ∃ method v,
      Nested (passingOnWorld.lineup ⟨3, 0⟩ name).Lasts ⟨3, 0⟩ name [] {} passingOnWorld [f, g] g method {} v := by
  have remain : ∀ a : Objects, a.HandlesRemain → a.HandlesRemain := fun _ remain => remain
  have begins : passingOnWorld.objects.HandlesRemain := by decide +kernel
  have named : Lifecycle.objectNamed? passingOnWorld "o" = some ⟨3, 0⟩ := by decide +kernel
  have bare : ((passingOnWorld.live? ⟨3, 0⟩).any fun o => o.filterOrder.any (·.isEmpty) && o.mixinOrder.any (·.isEmpty)) =
      true := by
    decide +kernel
  obtain ⟨o, live, holds⟩ := Option.any_eq_true .. |>.1 bare
  obtain ⟨filters, mixins⟩ := Bool.and_eq_true_iff.1 holds
  obtain ⟨_, filters, empty⟩ := Option.any_eq_true .. |>.1 filters
  obtain rfl := List.isEmpty_iff.1 empty
  obtain ⟨_, mixins, empty⟩ := Option.any_eq_true .. |>.1 mixins
  obtain rfl := List.isEmpty_iff.1 empty
  have calls : AsksFor (hostWithin Heap.HandlesRemain 1).failing
    (.eval .none (.dispatch (.name "o") (.list []) (.literal (.text name)) {})) passingOnWorld
      (.call ⟨3, 0⟩ name [] {}) passingOnWorld := asksFor_call_of_name named begins
  have entered := (Entered.step session_passingOnWorld _).sub begins calls
  obtain ⟨settings, path⟩ := entered.evolves remain
  have proper := (entered.proper_tallied remain).1
  have lasts := World.lasts_lineup proper ((upkept_start settings).mixins.evolves remain (proper_start settings) path)
    ((numbered_start settings).evolves remain (proper_start settings) path) live filters begins name
  exact ⟨entered, nested_of_firstFrames? proper callable live filters mixins lasts frames⟩

section advances

variable {h : Handle} {name : String} {args : List Value} {mods asked : CallModifiers} {frames : List Frame} {frame : Frame}
  {method : Method} {v w : World}

/-- While the lineup of a call lasts, each of its frames runs behind the one before, but for the receiver's own method if
that is an alias; if the name is qualified, the first frame is left out. So unless the own method is an alias, no two frames
run at one station, and there are no more of them than stations. -/
theorem Entered.nextAdvances (entered : Entered Heap.HandlesRemain (.call h name args mods) w)
    (nested : Nested (w.lineup h name).Lasts h name args mods w frames frame method asked v) :
    frames.tail.IsChain (w.lineup h name).Advances ∧
    (Definition.isQualified name = false → frames.IsChain (w.lineup h name).Advances) ∧
    ((∀ own, (w.lineup h name).own = some own → own.kind ≠ .aliased) →
      ((frames.tail.map Frame.station).Nodup ∧ frames.tail.length ≤ (w.lineup h name).filters.length +
        (w.lineup h name).mixins.length + 1 + (w.lineup h name).classes.length) ∧
      (Definition.isQualified name = false → (frames.map Frame.station).Nodup ∧ frames.length ≤
        (w.lineup h name).filters.length + (w.lineup h name).mixins.length + 1 + (w.lineup h name).classes.length)) := by
  have remain : ∀ a : Objects, a.HandlesRemain → a.HandlesRemain := fun _ remain => remain
  have proper := (entered.proper_tallied remain).1
  obtain ⟨settings, path⟩ := entered.evolves remain
  obtain ⟨o, live⟩ := nested.exists_live
  have current := (upkept_start settings).mixins.evolves remain (proper_start settings) path
  have numbered := (numbered_start settings).evolves remain (proper_start settings) path
  have nodup := World.nodup_stations proper current numbered live name
  have arrives : (Task.call h name args mods).Arrives h w := ⟨proper, entered.begins FrameStack.kept_subsSeated.ofWorld,
    entered.begins FrameStack.kept_interceptorsShow.ofWorld, Heap.spent_of_get? (World.live?_eq_some_iff.1 live).1⟩
  obtain ⟨line, is⟩ : ∃ line, line = w.lineup h name := ⟨_, rfl⟩
  have receiver : line.receiver = h := is ▸ rfl
  have named : line.name = name := is ▸ rfl
  rw [← is] at nested nodup ⊢
  subst receiver named
  obtain ⟨-, -, strides, registers⟩ := Lineup.strides_of_nested nodup arrives nested
  have tail : frames.tail.IsChain line.Advances := by
    match frames, strides with
    | [], _ => exact .nil
    | [_], _ => exact .nil
    | f :: g :: rest, strides =>
      obtain ⟨⟨registers, -⟩, rest⟩ := List.isChain_cons_cons.1 strides
      exact Lineup.isChain_advances registers rest
  have whole : Definition.isQualified line.name = false → frames.IsChain line.Advances := by
    intro unqualified
    match frames, strides, registers unqualified with
    | [], _, _ => exact .nil
    | f :: rest, strides, registers => exact Lineup.isChain_advances (registers f rfl) strides
  refine ⟨tail, whole, fun direct => ?_⟩
  have apart : ∀ moves : List Frame, moves.IsChain line.Advances → (moves.map Frame.station).Nodup ∧
      moves.length ≤ line.filters.length + line.mixins.length + 1 + line.classes.length := by
    intro moves advances
    have behind : (moves.map Frame.station).IsChain (Behind line.stations) := by
      rw [List.isChain_map]
      refine advances.imp fun f g advances => advances.resolve_right ?_
      rintro ⟨-, -, own, taught, aliased⟩
      exact direct own taught aliased
    have some : line.stations ≠ [] := by simp [Lineup.stations, Lineup.unfilteredStations, Lineup.plainStations]
    have bounded := length_le_of_isChain nodup some behind
    rw [List.length_map, line.length_stations] at bounded
    exact ⟨nodup_of_isChain nodup behind, bounded⟩
  exact ⟨apart _ tail, fun unqualified => apart _ (whole unqualified)⟩

end advances

/-- The method of the object passes its call on to that of its class. -/
theorem nextAdvances_passingOn : ∃ f g method v,
    Nested (passingOnWorld.lineup ⟨3, 0⟩ "work").Lasts ⟨3, 0⟩ "work" [] {} passingOnWorld [f, g] g method {} v ∧
      (passingOnWorld.lineup ⟨3, 0⟩ "work").Advances f g ∧ f.station = .own ∧ g.station = .cls ⟨2, 0⟩ := by
  have first : ((firstFrames? passingOnWorld ⟨3, 0⟩ "work").any fun frames =>
      frames.1.station == .own && frames.2.station == .cls ⟨2, 0⟩) = true := by
    decide +kernel
  obtain ⟨⟨f, g⟩, frames, holds⟩ := Option.any_eq_true .. |>.1 first
  simp only [Bool.and_eq_true, beq_iff_eq] at holds
  obtain ⟨entered, method, v, nested⟩ := nested_passingOnWorld (by decide +kernel) frames
  have advances := (Entered.nextAdvances entered nested).2.1 (by decide +kernel)
  exact ⟨f, g, method, v, nested, (List.isChain_cons_cons.1 advances).1, holds⟩

/-- A next call can start the method again that is running: an alias of the receiver. -/
theorem not_apart_of_alias : ¬∀ h name args mods w frames frame method asked v,
    Entered Heap.HandlesRemain (.call h name args mods) w →
      Nested (w.lineup h name).Lasts h name args mods w frames frame method asked v →
        (frames.map Frame.station).Nodup := by
  intro apart
  have first : ((firstFrames? passingOnWorld ⟨3, 0⟩ "go").any fun frames =>
      frames.1.station == .own && frames.2.station == .own) = true := by
    decide +kernel
  obtain ⟨⟨f, g⟩, frames, holds⟩ := Option.any_eq_true .. |>.1 first
  simp only [Bool.and_eq_true, beq_iff_eq] at holds
  obtain ⟨entered, method, v, nested⟩ := nested_passingOnWorld (by decide +kernel) frames
  have stations := apart _ _ _ _ _ _ _ _ _ _ entered nested
  simp [holds.1, holds.2] at stations

end DynamicObjects
