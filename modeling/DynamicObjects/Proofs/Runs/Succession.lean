import DynamicObjects.Proofs.Runs.Lineups

/-!
# Succession

Where a call stands at an element of its chain, the search for the next method finds the element behind it.
-/
namespace DynamicObjects

open Invocation

namespace Lineup

/-- The entries of a lineup are told apart by their keys, and an own method that filters is no other method's target. -/
structure Distinct (line : Lineup) : Prop where
  filters : (line.filters.map FilterEntry.key).Nodup
  mixins : (line.mixins.map (·.target)).Nodup
  own : ∀ entry ∈ line.filters, entry.definer = none → ∀ own, line.own = some own → entry.method.epoch ≠ own.epoch

/-! ## Where a call stands -/

/-- The lineup stands in a well-formed world, and no guard is open. -/
structure Ready (line : Lineup) (w : World) : Prop where
  proper : Proper w
  keeps : line.Keeps w.objects
  unguarded : w.guardDepth = 0

/-- The innermost positions of the receiver are those of an element of the chain. -/
def Places (line : Lineup) (e : Resolved) (o : Object) : Prop :=
  match e.kind with
  | .filter _ => o.filterPositions.head? = some ⟨some ⟨e.definer, e.name⟩, line.name⟩ ∧
      (line.mixins ≠ [] → o.mixinPositions.head? = some none)
  | .mixin _ => o.mixinPositions.head? = some e.definer
  | .plain | .ensemble => True

/-- A call stands at an element of its chain. -/
structure At (line : Lineup) (e : Resolved) (w : World) : Prop extends Ready line w where
  places : ∀ o, w.objects.get? line.receiver = some o → line.Places e o

/-- A frame runs an element of the chain. -/
structure Runs (line : Lineup) (e : Resolved) (f : Frame) : Prop where
  object : f.object = line.receiver
  called : f.called = line.name
  definer : f.definer = e.definer
  method : f.method = some e.method
  methodName : f.methodName = e.name
  kind : f.kind.deactivated = e.kind.deactivated

variable {line : Lineup} {lets : Predicate → Bool} {host : Host} {w : World} {e : Resolved} {frame : Frame}

theorem Ready.filled (ready : line.Ready w) {b : Objects} (filled : Filled w.objects b) :
    line.Ready { w with objects := b } :=
  ⟨ready.proper.filled filled rfl rfl, ready.keeps.filled filled, ready.unguarded⟩

theorem Ready.modify (ready : line.Ready w) (h : Handle) {f : Object → Object} (core : ∀ o, (f o).core = o.core)
    (lining : ∀ o, (f o).lining = o.lining) : line.Ready { w with objects := w.objects.modify h f } :=
  ⟨ready.proper.beside (.modify w h core), ready.keeps.modify h lining, ready.unguarded⟩

theorem Ready.exists_live (ready : line.Ready w) : ∃ o, w.objects.get? line.receiver = some o ∧
    w.live? line.receiver = some o ∧ o.cls = line.cls ∧ o.methods.get? line.name = line.own := by
  obtain ⟨o, live, -, cls, own, -⟩ := ready.keeps.2.exists_live
  exact ⟨o, (World.live?_eq_some_iff.1 live).1, live, cls, own⟩

theorem isFilter_of_deactivated {a b : FrameKind} (same : a.deactivated = b.deactivated) :
    a.isFilter = b.isFilter ∧ a.isMixin = b.isMixin ∧ (a = .ensemble ↔ b = .ensemble) := by
  cases a <;> cases b <;> cases same <;> simp [FrameKind.isFilter, FrameKind.isMixin]

/-- What a search for the next method leaves: precedence orders are filled in, or the innermost positions of the receiver
have moved. -/
inductive Searched (line : Lineup) (w : World) : World → Prop where
  | filled {b : Objects} (filled : Filled w.objects b) : line.Searched w { w with objects := b }
  | moved {filters : List FilterPosition → List FilterPosition} {mixins : List (Option Handle) → List (Option Handle)}
      (filterTail : ∀ l, (filters l).tail = l.tail) (mixinTail : ∀ l, (mixins l).tail = l.tail)
      (unmixed : line.mixins = [] → mixins = id) :
      line.Searched w { w with objects := w.objects.modify line.receiver fun o =>
        { o with filterPositions := filters o.filterPositions, mixinPositions := mixins o.mixinPositions } }

theorem Searched.stack {u : World} (searched : line.Searched w u) : u.stack = w.stack := by
  cases searched <;> rfl

theorem tail_modifyHead {α : Type} (f : α → α) (l : List α) : (l.modifyHead f).tail = l.tail := by
  cases l <;> rfl

/-! ## The next filter -/

/-- Moving the filter position to another filter. -/
theorem At.setFilter {e' : Resolved} (stands : line.At e w) (isFilter : e.kind = .filter true)
    (isFilter' : e'.kind = .filter true) : line.At e' { w with objects := w.objects.modify line.receiver fun o =>
      { o with filterPositions := o.filterPositions.modifyHead ({ · with current := some ⟨e'.definer, e'.name⟩ }) } } := by
  refine ⟨stands.toReady.modify _ (fun _ => rfl) fun _ => rfl, fun o found => ?_⟩
  rw [Heap.get?_modify, if_pos rfl] at found
  obtain ⟨p, there, rfl⟩ := Option.map_eq_some_iff.1 found
  have places := stands.places p there
  rw [Places, isFilter] at places
  rw [Places, isFilter']
  obtain ⟨rest, head⟩ := List.head?_eq_some_iff.1 places.1
  exact ⟨by simp [head], places.2⟩

theorem eq_of_filterLink {entry : FilterEntry} (link : line.filterLink lets entry = some e) :
    e = { method := entry.method, definer := entry.definer, kind := .filter true, name := entry.name } := by
  unfold filterLink at link
  split at link
  · exact (Option.some.inj link).symm
  · cases link

/-- From a filter, the first filter behind it is found. -/
theorem exec_nextFilter (judges : line.Judges host lets w) (distinct : line.Distinct) (stands : line.At e w)
    {before after : List FilterEntry} {entry : FilterEntry} (split : line.filters = before ++ entry :: after)
    (link : line.filterLink lets entry = some e) :
    ∃ u, (nextFilter host line.receiver).exec w = some (.ok (after.filterMap (line.filterLink lets)).head?, u) ∧
      (∀ e', (after.filterMap (line.filterLink lets)).head? = some e' → line.Searched w u ∧ line.At e' u) ∧
      ((after.filterMap (line.filterLink lets)).head? = none → u = w) := by
  have is := eq_of_filterLink link
  obtain ⟨o, found, -, -, -⟩ := stands.toReady.exists_live
  have position : (filterPosition? w line.receiver).bind (·.current) = some entry.key := by
    have places := stands.places o found
    rw [Places, is] at places
    rw [filterPosition?, found, Option.bind_some, places.1]
    rfl
  have behind : line.filters.drop (indexAfter line.filters (some entry.key) (·.key == ·)) = after :=
    drop_indexAfter distinct.filters split
  have listed : ∀ entry ∈ after, entry ∈ line.filters := by
    intro entry' member
    rw [split]
    exact List.mem_append_right _ (List.mem_cons_of_mem _ member)
  have searched := exec_searchFilters judges listed
  rw [head?_filterLinks]
  unfold nextFilter
  rw [Action.exec_liftM_bind_of_ok stands.keeps.2.exec_filterOrder, Action.exec_bind_of_ok (Action.exec_get w)]
  simp only [position, behind, stands.keeps.2.isClass]
  rw [Action.exec_bind_of_ok searched]
  cases after.find? (line.admits lets) with
  | none => exact ⟨w, rfl, fun _ same => (by cases same), fun _ => rfl⟩
  | some entry' =>
    refine ⟨_, rfl, fun e' same => ?_, fun same => by cases same⟩
    cases same
    exact ⟨@Searched.moved _ _ _ id (tail_modifyHead _) (fun _ => rfl) fun _ => rfl, stands.setFilter (by rw [is]) rfl⟩

/-! ## The next mixin -/

/-- Moving the mixin position, if there is one. -/
theorem Ready.setMixin {e' : Resolved} (ready : line.Ready w)
    (moves : ∀ o, w.objects.get? line.receiver = some o → o.mixinPositions ≠ []) (isMixin : e'.kind = .mixin true) :
    line.At e' { w with objects := w.objects.modify line.receiver fun o =>
      { o with mixinPositions := o.mixinPositions.modifyHead fun _ => e'.definer } } := by
  refine ⟨ready.modify _ (fun _ => rfl) fun _ => rfl, fun o found => ?_⟩
  rw [Heap.get?_modify, if_pos rfl] at found
  obtain ⟨p, there, rfl⟩ := Option.map_eq_some_iff.1 found
  rw [Places, isMixin]
  obtain ⟨position, rest, head⟩ := List.exists_cons_of_ne_nil (moves p there)
  simp [head]

/-- The first mixin behind the position is found. -/
theorem exec_nextMixin (judges : line.Judges host lets w) (ready : line.Ready w)
    (moves : ∀ o, w.objects.get? line.receiver = some o → o.mixinPositions ≠ []) {after : List Mixin}
    (behind : line.mixins.drop (indexAfter line.mixins (mixinPosition w line.receiver) (·.target == ·)) = after) :
    ∃ u, (nextMixin host line.receiver line.name).exec w =
        some (.ok (after.filterMap (line.mixinLink lets)).head?, u) ∧
      (∀ e', (after.filterMap (line.mixinLink lets)).head? = some e' → line.Searched w u ∧ line.At e' u) ∧
      ((after.filterMap (line.mixinLink lets)).head? = none → u = w) := by
  have listed : ∀ m ∈ after, m ∈ line.mixins := fun m member => List.mem_of_mem_drop (behind ▸ member)
  have searched := exec_searchMixins judges ready.keeps.2.located ready.unguarded listed
  rw [head?_mixinLinks]
  unfold nextMixin
  rw [Action.exec_liftM_bind_of_ok ready.keeps.2.exec_mixinOrder, Action.exec_bind_of_ok (Action.exec_get w)]
  simp only [behind]
  rw [Action.exec_bind_of_ok searched]
  cases first : after.findSome? (line.mixesIn lets) with
  | none => exact ⟨w, rfl, fun _ same => (by cases same), fun _ => rfl⟩
  | some found =>
    obtain ⟨m, member, -⟩ := List.exists_of_findSome?_eq_some first
    have mixed : line.mixins ≠ [] := List.ne_nil_of_mem (listed m member)
    refine ⟨_, rfl, fun e' same => ?_, fun same => by cases same⟩
    cases same
    exact ⟨@Searched.moved _ _ id _ (fun _ => rfl) (tail_modifyHead _) fun none => absurd none mixed,
      ready.setMixin moves rfl⟩

/-! ## The own method and the classes -/

/-- A search finds the first link of a chain, and the call stands there then. -/
def Finds (line : Lineup) (search : Action (Option Resolved)) (w : World) (rest : List Resolved) : Prop :=
  ∃ u, search.exec w = some (.ok rest.head?, u) ∧ line.Searched w u ∧ line.Ready u ∧
    ∀ e, rest.head? = some e → line.At e u

/-- A plain method stands wherever the lineup does. -/
theorem Ready.finds_plain (ready : line.Ready w) {search : Update (Option Resolved)} {rest : List Resolved} {b : Objects}
    (filled : Filled w.objects b) (found : search.exec w = (.ok rest.head?, { w with objects := b }))
    (plain : ∀ e ∈ rest, e.kind = .plain) : line.Finds (liftM search) w rest := by
  have after := ready.filled filled
  refine ⟨_, (Action.exec_liftM _ w).trans (congrArg some found), .filled filled, after,
    fun e first => ⟨after, fun o _ => ?_⟩⟩
  rw [Places, plain e (List.mem_of_mem_head? first)]
  trivial

theorem kind_of_classLinks {classes : List Handle} : ∀ e ∈ classes.filterMap line.classLink, e.kind = .plain := by
  intro e member
  obtain ⟨c, -, link⟩ := List.mem_filterMap.1 member
  obtain ⟨method, -, rfl⟩ := Option.map_eq_some_iff.1 link
  rfl

theorem kind_of_plainChain : ∀ e ∈ line.plainChain, e.kind = .plain := by
  intro e member
  rcases List.mem_append.1 member with own | cls
  · obtain ⟨method, -, rfl⟩ := Option.map_eq_some_iff.1 (Option.mem_toList.1 own)
    rfl
  · exact kind_of_classLinks e cls

section plain

variable (ready : line.Ready w) (here : frame.object = line.receiver) {state : SearchState}
  (named : state.name = line.name)

include ready here named

omit here in
/-- The first class behind the defining one is found. -/
theorem exec_nextClass {rest : List Handle}
    (behind : line.classes.drop (indexAfter line.classes state.definer (· == ·)) = rest) :
    ∃ b, Filled w.objects b ∧ (nextClass line.cls state).exec w =
      (.ok (rest.filterMap line.classLink).head?, { w with objects := b }) := by
  obtain ⟨b, filled, searched⟩ := ready.keeps.2.located.exec_searchClassOrder ready.proper behind
  refine ⟨b, filled, ?_⟩
  unfold nextClass
  rw [named, Update.exec_bind_of_ok searched, head?_classLinks]
  rfl

/-- The own method is found unless it is passed or runs, and then the first class behind the defining one. -/
theorem exec_nextPlain {rest : List Handle}
    (behind : line.classes.drop (indexAfter line.classes state.definer (· == ·)) = rest) :
    ∃ b, Filled w.objects b ∧ (nextPlain frame state).exec w =
      (.ok ((if (state.filtersDone || state.definer.isNone) && !line.own.any (runsOwn frame) then line.ownLink
        else none).or (rest.filterMap line.classLink).head?), { w with objects := b }) := by
  obtain ⟨o, -, live, cls, own⟩ := ready.exists_live
  have classes := exec_nextClass ready named behind
  unfold nextPlain
  rw [Update.exec_bind_of_ok (Update.exec_object_of_live (here ▸ live))]
  unfold nextClass at classes
  simp only [named, own, cls] at classes ⊢
  by_cases passed : ((state.filtersDone || state.definer.isNone) && !line.own.any (runsOwn frame)) = true
  · rw [if_pos passed, if_pos passed]
    unfold ownLink
    cases line.own.filter (!·.isPrivate) with
    | none => exact classes
    | some method => exact ⟨_, .refl ready.proper.kept, rfl⟩
  · rw [if_neg passed, if_neg passed]
    exact classes

theorem finds_classes {rest : List Handle}
    (behind : line.classes.drop (indexAfter line.classes state.definer (· == ·)) = rest)
    (passed : ((state.filtersDone || state.definer.isNone) && !line.own.any (runsOwn frame)) = false) :
    line.Finds (liftM (nextPlain frame state)) w (rest.filterMap line.classLink) := by
  obtain ⟨b, filled, found⟩ := exec_nextPlain ready here named behind
  rw [passed, if_neg Bool.false_ne_true, Option.none_or] at found
  exact ready.finds_plain filled found kind_of_classLinks

theorem finds_plainChain (start : state.definer = none) (unpassed : line.own.any (runsOwn frame) = false) :
    line.Finds (liftM (nextPlain frame state)) w line.plainChain := by
  have behind : line.classes.drop (indexAfter line.classes state.definer (· == ·)) = line.classes := by
    rw [start]
    rfl
  have both : (line.plainChain).head? = line.ownLink.or (line.classes.filterMap line.classLink).head? := by
    rw [plainChain, List.head?_append, Option.head?_toList]
  obtain ⟨b, filled, found⟩ := exec_nextPlain ready here named behind
  rw [start, unpassed, Option.isNone_none, Bool.or_true, if_pos (by rfl), ← both] at found
  exact ready.finds_plain filled found kind_of_plainChain

/-! ## What comes behind an element -/

/-- Where mixins are searched, and where the search goes on when it is done with them. -/
theorem finds_mixins (judges : line.Judges host lets w) {after : List Mixin}
    (among : (state.filtersDone || frame.kind.isMixin) = true)
    (behind : line.mixins.drop (indexAfter line.mixins (mixinPosition w line.receiver) (·.target == ·)) = after)
    (moves : ∀ o, w.objects.get? line.receiver = some o → o.mixinPositions ≠ [])
    (unpassed : line.own.any (runsOwn frame) = false) :
    line.Finds (continueUnfiltered host frame state) w (after.filterMap (line.mixinLink lets) ++ line.plainChain) := by
  obtain ⟨u, searched, stands, same⟩ := exec_nextMixin judges ready moves behind
  have nonempty : (mixinPositions w line.receiver).isEmpty = false := by
    obtain ⟨o, found, -⟩ := ready.exists_live
    have some := moves o found
    rw [mixinPositions, found, Option.map_some, Option.getD_some]
    cases positions : o.mixinPositions with
    | nil => exact absurd positions some
    | cons => rfl
  have asks : ((state.filtersDone || frame.kind.isMixin) && !(mixinPositions w line.receiver).isEmpty) = true := by
    rw [among, nonempty]
    rfl
  have plain : line.Finds (liftM (nextPlain frame { state with definer := none })) w line.plainChain :=
    finds_plainChain ready here named rfl unpassed
  unfold Finds continueUnfiltered
  rw [Action.exec_bind_of_ok (Action.exec_get w), here, if_pos asks, named, Action.exec_bind_of_ok searched,
    List.head?_append]
  cases first : (after.filterMap (line.mixinLink lets)).head? with
  | some e =>
    obtain ⟨moved, here⟩ := stands e first
    exact ⟨u, rfl, moved, here.toReady, fun e' is => (stands e' (first.trans is)).2⟩
  | none =>
    rw [named] at plain
    rw [same first, Option.none_or]
    exact plain

end plain

/-- Where the filters are done, the mixins are searched from their start. -/
theorem finds_unfilteredChain (judges : line.Judges host lets w) (ready : line.Ready w)
    (here : frame.object = line.receiver) (start : line.mixins ≠ [] → ∀ o, w.objects.get? line.receiver = some o →
      o.mixinPositions.head? = some none) (unpassed : line.own.any (runsOwn frame) = false) :
    line.Finds (continueUnfiltered host frame ⟨line.name, none, true⟩) w (line.unfilteredChain lets) := by
  obtain ⟨o, found, -⟩ := ready.exists_live
  by_cases moves : o.mixinPositions = []
  · have unmixed : line.mixins = [] := by
      by_contra some
      have head := start some o found
      rw [moves] at head
      cases head
    have skips : (true && !(mixinPositions w line.receiver).isEmpty) = false := by
      rw [mixinPositions, found, Option.map_some, Option.getD_some, moves]
      rfl
    have plain : line.Finds (liftM (nextPlain frame ⟨line.name, none, true⟩)) w line.plainChain :=
      finds_plainChain ready here rfl rfl unpassed
    unfold Finds continueUnfiltered
    rw [Action.exec_bind_of_ok (Action.exec_get w), here, Bool.true_or, skips, if_neg Bool.false_ne_true,
      unfilteredChain, unmixed, List.filterMap_nil, List.nil_append]
    exact plain
  · refine finds_mixins ready here rfl judges rfl ?_ (fun p there => ?_) unpassed
    · by_cases unmixed : line.mixins = []
      · rw [unmixed, List.drop_nil]
      · rw [mixinPosition, mixinPositions, found, Option.map_some, Option.getD_some, start unmixed o found]
        rfl
    · rw [found] at there
      cases there
      exact moves

variable {rest : List Resolved}

theorem runsOwn_of_definer (frame : Frame) (own : Option Method) (definer : frame.definer ≠ none) :
    own.any (runsOwn frame) = false := by
  obtain ⟨c, definer⟩ := Option.ne_none_iff_exists'.1 definer
  cases own with
  | none => rfl
  | some own => simp [runsOwn, definer]

/-- A filter that is the receiver's own method is not its method of the name that is called. -/
theorem Runs.unpassed (runs : line.Runs e frame) (distinct : line.Distinct) {entry : FilterEntry}
    (member : entry ∈ line.filters) (link : line.filterLink lets entry = some e) :
    line.own.any (runsOwn frame) = false := by
  have is := eq_of_filterLink link
  have method : frame.method = some entry.method := by rw [runs.method, is]
  have definer : frame.definer = entry.definer := by rw [runs.definer, is]
  by_cases noDefiner : entry.definer = none
  · cases own : line.own with
    | none => rfl
    | some own' =>
      have apart := distinct.own entry member noDefiner own' own
      simp [runsOwn, method, apart]
  · exact runsOwn_of_definer frame line.own (definer ▸ noDefiner)

/-- A search for what comes behind a frame finds the first link of the rest of the chain. -/
def Continues (line : Lineup) (host : Host) (frame : Frame) (w : World) (rest : List Resolved) : Prop :=
  ∃ done u, (continuation host frame).exec w = some (.ok ⟨rest.head?, done⟩, u) ∧ line.Searched w u ∧ line.Ready u ∧
    ∀ e, rest.head? = some e → line.At e u

/-- From what is no filter, the search goes on behind the defining class. -/
theorem continues_of_finds (unfiltered : frame.kind.isFilter = false)
    (finds : line.Finds (continueUnfiltered host frame ⟨frame.methodName, frame.definer, false⟩) w rest) :
    line.Continues host frame w rest := by
  obtain ⟨u, found, after⟩ := finds
  refine ⟨false, u, ?_, after⟩
  unfold continuation
  rw [unfiltered, if_neg Bool.false_ne_true, Action.exec_bind_of_ok found]
  rfl

/-- From a filter, the filters behind it are searched, and then the rest of the chain. -/
theorem continues_of_filter (judges : line.Judges host lets w) (distinct : line.Distinct)
    (stands : line.At e w) (runs : line.Runs e frame) {before after : List FilterEntry} {entry : FilterEntry}
    (split : line.filters = before ++ entry :: after) (link : line.filterLink lets entry = some e) :
    line.Continues host frame w (after.filterMap (line.filterLink lets) ++ line.unfilteredChain lets) := by
  have member : entry ∈ line.filters := split ▸ List.mem_append_right _ List.mem_cons_self
  have kind : e.kind = .filter true := by rw [eq_of_filterLink link]
  have isFilter : frame.kind.isFilter = true := by
    rw [(isFilter_of_deactivated runs.kind).1, kind]
    rfl
  obtain ⟨o, found, -⟩ := stands.toReady.exists_live
  have places := stands.places o found
  rw [Places, kind] at places
  obtain ⟨u, searched, stands', same⟩ := exec_nextFilter judges distinct stands split link
  unfold Continues continuation
  rw [isFilter, if_pos rfl, Action.exec_bind_of_ok (Action.exec_get w), runs.object, Action.exec_bind_of_ok searched,
    List.head?_append]
  cases first : (after.filterMap (line.filterLink lets)).head? with
  | some e' =>
    obtain ⟨moved, here⟩ := stands' e' first
    exact ⟨false, u, rfl, moved, here.toReady, fun e'' is => (stands' e'' (first.trans is)).2⟩
  | none =>
    have name : ((filterPosition? w line.receiver).map (·.called)).getD frame.called = line.name := by
      rw [filterPosition?, found, Option.bind_some, places.1]
      rfl
    have start : line.mixins ≠ [] → ∀ p, w.objects.get? line.receiver = some p →
        p.mixinPositions.head? = some none := by
      intro mixed p there
      rw [found] at there
      cases there
      exact places.2 mixed
    obtain ⟨x, done, after⟩ := finds_unfilteredChain judges stands.toReady runs.object start
      (runs.unpassed distinct member link)
    refine ⟨true, x, ?_, after⟩
    dsimp only
    rw [same first, name, Action.exec_bind_of_ok done, Option.none_or]
    rfl

theorem target_of_mixesIn {m : Mixin} {c : Handle} {method : Method} (mixes : line.mixesIn lets m = some (c, method)) :
    c = m.target := by
  unfold mixesIn at mixes
  split at mixes
  · obtain ⟨_, -, same⟩ := Option.map_eq_some_iff.1 mixes
    cases same
    rfl
  · cases mixes

/-- From a mixin, the mixins behind it are searched, and then the rest of the chain. -/
theorem continues_of_mixin (judges : line.Judges host lets w) (distinct : line.Distinct)
    (stands : line.At e w) (runs : line.Runs e frame) {before after : List Mixin} {m : Mixin}
    (split : line.mixins = before ++ m :: after) (link : line.mixinLink lets m = some e) :
    line.Continues host frame w (after.filterMap (line.mixinLink lets) ++ line.plainChain) := by
  obtain ⟨⟨c, method⟩, mixes, rfl⟩ := Option.map_eq_some_iff.1 link
  obtain ⟨isFilter, isMixin, -⟩ := isFilter_of_deactivated runs.kind
  obtain ⟨o, found, -⟩ := stands.toReady.exists_live
  have places : o.mixinPositions.head? = some (some m.target) := by
    rw [← target_of_mixesIn mixes]
    exact stands.places o found
  have behind : line.mixins.drop (indexAfter line.mixins (mixinPosition w line.receiver) (·.target == ·)) = after := by
    rw [mixinPosition, mixinPositions, found, Option.map_some, Option.getD_some, places]
    exact drop_indexAfter distinct.mixins split
  have moves : ∀ p, w.objects.get? line.receiver = some p → p.mixinPositions ≠ [] := by
    intro p there empty
    rw [found] at there
    cases there
    rw [empty] at places
    cases places
  have definer : frame.definer ≠ none := by
    rw [runs.definer]
    exact Option.some_ne_none c
  refine continues_of_finds isFilter (finds_mixins stands.toReady runs.object runs.methodName judges ?_ behind moves ?_)
  · rw [isMixin]
    rfl
  · exact runsOwn_of_definer frame _ definer

/-- From a plain method, the search goes on in the classes. -/
theorem continues_of_plain (ready : line.Ready w) (runs : line.Runs e frame) (kind : e.kind = .plain)
    (name : e.name = line.name) {rest : List Handle}
    (behind : line.classes.drop (indexAfter line.classes e.definer (· == ·)) = rest)
    (passed : (e.definer.isNone && !line.own.any (runsOwn frame)) = false) :
    line.Continues host frame w (rest.filterMap line.classLink) := by
  obtain ⟨isFilter, isMixin, -⟩ := isFilter_of_deactivated runs.kind
  rw [kind] at isFilter isMixin
  rw [← runs.definer] at behind passed
  have named : frame.methodName = line.name := runs.methodName.trans name
  refine continues_of_finds isFilter ?_
  have finds : line.Finds (liftM (nextPlain frame ⟨frame.methodName, frame.definer, false⟩)) w
      (rest.filterMap line.classLink) := finds_classes ready runs.object named behind passed
  obtain ⟨u, found, after⟩ := finds
  refine ⟨u, ?_, after⟩
  unfold continueUnfiltered
  rw [Action.exec_bind_of_ok (Action.exec_get w), isMixin]
  exact found

/-- Behind an element of the chain, the search finds the next one. -/
theorem Place.continues (judges : line.Judges host lets w) (distinct : line.Distinct) (stands : line.At e w)
    (runs : line.Runs e frame) (place : line.Place lets e rest) : line.Continues host frame w rest := by
  have nodup : line.classes.Nodup := stands.keeps.2.classes.nodup
  cases place with
  | filter split link => exact continues_of_filter judges distinct stands runs split link
  | mixin split link => exact continues_of_mixin judges distinct stands runs split link
  | own link =>
    obtain ⟨method, taught, rfl⟩ := Option.map_eq_some_iff.1 link
    have own : line.own = some method := (Option.filter_eq_some_iff.1 taught).1
    refine continues_of_plain stands.toReady runs rfl rfl rfl ?_
    simp [own, runsOwn, runs.definer, runs.method]
  | cls split link =>
    obtain ⟨method, -, rfl⟩ := Option.map_eq_some_iff.1 link
    rw [← List.map_id line.classes] at nodup
    exact continues_of_plain stands.toReady runs rfl rfl (drop_indexAfter nodup split) rfl

end Lineup

end DynamicObjects
