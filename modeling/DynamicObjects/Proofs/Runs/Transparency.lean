import DynamicObjects.Proofs.Runs.PassingOn

/-!
# Transparent filters

Filters that only pass their calls on make no difference to a call: it comes to the same outcome with filters as it does
without, and what it leaves behind is the same. The exception is an object whose own method is a filter of calls of its
name: behind the filters that method is taken for one that runs already.
-/
namespace DynamicObjects

open Invocation

/-! ## Unknown methods -/

section unknown

variable {line : Lineup} {w u v x : World} {pushed : Bool} {frames : List Frame} {held : Nat} {host : Host} {h : Handle}
  {o p : Object} {name m : String} {args : List Value}

/-- Without a method for unknown calls, or where that is called itself, the call fails. -/
theorem Invocation.exec_answerUnknown_of_refused (quiet : w.unknownHandler = none)
    (refused : (unknownMethod? w h).filter (· ≠ name) = none) :
    (answerUnknown host h name args).exec w = some (.error (.unknown (w.nameOf h) name), w) := by
  unfold answerUnknown
  rw [Action.exec_bind_of_ok (exec_askHandler_of_none quiet h name args)]
  dsimp only
  rw [Action.exec_bind_of_ok (Action.exec_get w)]
  simp only [refused]
  rfl

/-- The method for unknown calls is called if it is there without filters and mixins. -/
theorem Invocation.exec_answerUnknown_of_known (quiet : w.unknownHandler = none)
    (known : (unknownMethod? w h).filter (· ≠ name) = some m) {found : Option Found}
    (searched : (searchObject h m).exec w = (.ok found, x)) :
    (answerUnknown host h name args).exec w =
      if found.isSome then (handOn host h m name args).exec x else some (.error (.unknown (x.nameOf h) name), x) := by
  unfold answerUnknown
  rw [Action.exec_bind_of_ok (exec_askHandler_of_none quiet h name args)]
  dsimp only
  rw [Action.exec_bind_of_ok (Action.exec_get w)]
  simp only [known]
  rw [Action.exec_liftM_bind_of_ok searched]
  cases found.isSome <;> rfl

/-- Calls of an unknown method come to the same in front of the filters and behind them, if calls of the method for
unknown calls do. -/
theorem Lineup.Screened.agree_answerUnknown (screened : line.Screened w pushed frames held u v) (proper : Proper u)
    (current : MixinOrdersCurrent u) (proper' : Proper v) (live : v.live? line.receiver = some p)
    (quiet : u.unknownHandler = none)
    (hands : ∀ m, unknownMethod? u line.receiver = some m → m ≠ name → ∀ x y, Consulted u x →
      line.Screened w pushed frames held x y →
      Agree (line.Screened w pushed frames held) (fun k => handOn k line.receiver m name args) x
        (fun k => handOn k line.receiver m name args) y) :
    Agree (line.Screened w pushed frames held) (fun k => answerUnknown k line.receiver name args) u
      (fun k => answerUnknown k line.receiver name args) v := by
  obtain ⟨o, there, -, system, -⟩ := screened.exists_live live
  have quiet' : v.unknownHandler = none := by
    rw [screened.aside]
    exact quiet
  have systems : v.systems = u.systems := by rw [screened.aside]
  have known : unknownMethod? v line.receiver = unknownMethod? u line.receiver := by
    unfold unknownMethod?
    rw [live, there, Option.bind_some, Option.bind_some, systems, system]
  cases first : (unknownMethod? u line.receiver).filter (· ≠ name) with
  | none =>
    refine Agree.ended (fun k => exec_answerUnknown_of_refused quiet first) (fun k => ?_) screened
    rw [exec_answerUnknown_of_refused quiet' (known ▸ first), screened.nameOf_eq live]
  | some m =>
    obtain ⟨is, other⟩ := Option.filter_eq_some_iff.1 first
    have placing : Heap.Alike Object.placing u.objects v.objects :=
      screened.alike_of_live live Object.placing_unordered fun _ _ _ _ => rfl
    have located := World.located_lineup proper there m
    obtain ⟨b, found, filled, searched, some⟩ := located.isSome_searchObject proper
    obtain ⟨b', found', filled', searched', some'⟩ :=
      (located.of_alike placing : (u.lineup line.receiver m).Located v.objects).isSome_searchObject proper'
    have consulted : Consulted u { u with objects := b } := .filled proper current filled
    have related : line.Screened w pushed frames held { u with objects := b } { v with objects := b' } :=
      (screened.consulted_left consulted).alike_right
        (filled'.alike.comp Object.unordered fun o => o.unordered_withoutPrecedence.symm)
    have left := fun k : Host => @exec_answerUnknown_of_known u _ k line.receiver name m args quiet first found searched
    have right := fun k : Host =>
      @exec_answerUnknown_of_known v _ k line.receiver name m args quiet' (known ▸ first) found' searched'
    have same : found'.isSome = found.isSome := some'.trans some.symm
    obtain ⟨q, live', -⟩ := filled'.exists_live live
    cases present : found.isSome with
    | true =>
      simp only [same, present, if_true] at left right
      exact (hands m is (of_decide_eq_true other) _ _ consulted related).of_exec left right
    | false =>
      simp only [same, present, Bool.false_eq_true, if_false] at left right
      exact Agree.ended left (fun k => by rw [right k, related.nameOf_eq live']) related

end unknown

/-! ## Calls without filters -/

section unfiltered

variable {line : Lineup} {lets : Predicate → Bool} {host : Host} {v w : World} {h : Handle} {o : Object}
  {name : String}

/-- Where no filter takes part, a call that finds what everyone may call starts the first element of the rest of the
chain. -/
theorem exec_resolve_started (proper : Proper w) (current : MixinOrdersCurrent w) (live : w.live? h = some o)
    (simple : Definition.isQualified name = false) (judges : ∀ x, Consulted w x → (w.lineup h name).Judges host lets x)
    (visible : ∀ e, ((w.lineup h name).unfilteredChain (verdicts w lets)).head? = some e →
      e.method.visibility = .everyone ∧ e.method.classOnly = false)
    (first : (firstFilter host h).exec w = some (.ok none, v)) (consulted : Consulted w v) : ∃ y, Consulted w y ∧
      (resolve host h name {}).exec w =
        some (.ok (((w.lineup h name).unfilteredChain (verdicts w lets)).head?.map Resolved.started),
          ((w.lineup h name).unfilteredChain (verdicts w lets)).head?.elim y (y.startedAt h)) := by
  obtain ⟨x, mixed, further⟩ := consulted.exec_mixinOrder proper current live name
  have located := (World.located_lineup proper live name).of_alike further.alike.placing
  have depth : verdicts x lets = verdicts w lets := by
    unfold verdicts
    rw [further.aside]
  have plain : interceptable name (CallModifiers.ignoring {}) = true := by
    simp [interceptable, simple, CallModifiers.ignoring]
  have searched := located.exec_searchMixins_of_passes (fun m member => member) (judges x further).mixins
  obtain ⟨b, filled, unfiltered⟩ := located.exec_resolveUnfiltered_of_searched further.proper searched
    (rfl : (CallModifiers.ignoring {}).ignorePermissions = true) plain
  rw [depth] at unfiltered
  have resolved : (resolve host h name (CallModifiers.ignoring {})).exec w =
      (resolveUnfiltered host h name (CallModifiers.ignoring {}) (w.lineup h name).mixins).exec x := by
    unfold resolve
    rw [plain]
    simp only [Bool.not_true, Bool.false_eq_true, if_false]
    rw [Action.exec_bind_of_ok first, Action.exec_liftM_bind_of_ok mixed]
  change (resolveUnfiltered host h name (CallModifiers.ignoring {}) (w.lineup h name).mixins).exec x = _ at unfiltered
  rw [show (w.lineup h name).receiver = h from rfl] at unfiltered
  refine ⟨{ x with objects := b }, further.trans (.filled further.proper further.current filled), ?_⟩
  rw [exec_resolve_heeding rfl rfl simple, resolved, unfiltered, Option.map_some]
  cases head : ((w.lineup h name).unfilteredChain (verdicts w lets)).head? with
  | none => rfl
  | some e =>
    obtain ⟨everyone, anything⟩ := visible e head
    have starts : ∀ y, startable y h e.started = true := by
      intro y
      simp [startable, permitted, Resolved.started, everyone, anything]
    simp only [Option.map_some, Option.elim_some, heed, starts, if_true]

/-- What a call comes to where no filter takes part: it starts an element, or is one of an unknown method. -/
def Invocation.straight (line : Lineup) (lets : Predicate → Bool) (args : List Value) (host : Host) : Action Value :=
  (line.unfilteredChain lets).head?.elim (answerUnknown host line.receiver line.name args) fun e =>
    enter host line.receiver line.name e.started args {}

theorem Invocation.deepens_straight (line : Lineup) (lets : Predicate → Bool) (args : List Value) :
    Deepens (straight line lets args) := by
  unfold straight
  cases (line.unfilteredChain lets).head? with
  | none => exact Lineup.deepens_answerUnknown _ _ _
  | some e => exact Lineup.deepens_enter _ _ _ _ _

theorem exec_call_straight {enough depth : Nat} {args : List Value} {y : World} (live : w.live? h = some o)
    (room : w.stack.depth < w.settings.maxDepth) (within : enough ≤ depth)
    (resolved : (resolve (Script.hostOfDepth enough) h name {}).exec w =
      some (.ok (((w.lineup h name).unfilteredChain lets).head?.map Resolved.started), y)) :
    (call (Script.hostOfDepth depth) h name args {}).exec w =
      (straight (w.lineup h name) lets args (Script.hostOfDepth depth)).exec y := by
  have deeper := (composed_resolve h name {}).covered (coveredBy_of_le within) False.elim _ _ resolved
  rw [exec_call_of_resolve args live room deeper, straight]
  cases ((w.lineup h name).unfilteredChain lets).head? <;> rfl

end unfiltered

/-! ## Worlds with and without filters -/

/-- What is left of an object without orders that are kept and without open calls. -/
def Object.resting (o : Object) : Object :=
  { o.unordered with filterPositions := [], mixinPositions := [], holders := 0 }

theorem Object.resting_unordered (o : Object) : o.unordered.resting = o.resting := by
  simp [resting, unordered, withoutPrecedence, Function.comp_def]

/-- A world that is another one, apart from open calls, from orders that are kept and from whether filters are
enabled. -/
structure World.Resembles (w x : World) : Prop where
  aside : x = { w with
    objects := x.objects
    stack := x.stack
    settings := { w.settings with filtersEnabled := x.settings.filtersEnabled } }
  alike : Heap.Alike Object.resting w.objects x.objects

/-- Two worlds are the same, apart from orders that are kept and from whether filters are enabled. -/
structure World.SameButFilters (u v : World) : Prop where
  aside : v = { u with
    objects := v.objects
    settings := { u.settings with filtersEnabled := v.settings.filtersEnabled } }
  alike : Heap.Alike Object.unordered u.objects v.objects

/-- What a call comes to behind the filters does not tell the worlds apart that it finds with and without them: neither
the method that it starts does, nor the method for unknown calls. -/
structure Lineup.Oblivious (line : Lineup) (w : World) (lets : Predicate → Bool) (args : List Value) : Prop where
  enters : ∀ e, (line.unfilteredChain lets).head? = some e → ∀ frames u v o, line.AllPassing frames →
    Consulted w.unfiltered u →
    line.Screened w (!frames.isEmpty) frames frames.length u
      (v.lowered line.receiver false (e.kind.isMixin && frames.isEmpty)) →
    v.live? line.receiver = some o → line.Places e o →
    Agree (line.Screened w (!frames.isEmpty) frames frames.length)
      (fun k => enter k line.receiver line.name e.started args {}) (u.startedAt line.receiver e)
      (fun k => enter k line.receiver line.name
        { e with pushedMixinPosition := e.kind.isMixin && frames.isEmpty } args {}) v
  hands : ∀ m, unknownMethod? w line.receiver = some m → m ≠ line.name → ∀ frames held u v, line.AllPassing frames →
    Consulted w.unfiltered u → line.Screened w (!frames.isEmpty) frames held u v →
    Agree (line.Screened w (!frames.isEmpty) frames held) (fun k => handOn k line.receiver m line.name args) u
      (fun k => handOn k line.receiver m line.name args) v

section transparent

variable {line : Lineup} {lets : Predicate → Bool} {u v w x y : World} {h : Handle} {o p : Object} {name : String}
  {args : List Value} {frames : List Frame} {pushed : Bool} {held enough : Nat}

theorem Consulted.unknownMethod? (consulted : Consulted v w) (h : Handle) :
    Invocation.unknownMethod? w h = Invocation.unknownMethod? v h := by
  have looks := consulted.alike.live? (v := v) (w := w) (h := h) fun _ _ same => (congrArg Object.deleted same :)
  have system := congrArg (Option.bind · fun o : Object => v.systems[o.system]?) looks
  have systems : w.systems = v.systems := by rw [consulted.aside]
  simp only [Option.bind_map, Function.comp_def] at system
  unfold Invocation.unknownMethod?
  rw [systems]
  exact congrArg (Option.bind · (·.methods.unknown)) system

theorem Consulted.resembles (consulted : Consulted w v) : w.Resembles v :=
  ⟨by rw [consulted.aside],
    consulted.alike.comp (fun o => { o with filterPositions := [], mixinPositions := [], holders := 0 }) fun _ => rfl⟩

theorem World.resembles_of_unfiltered (resembles : w.unfiltered.Resembles v) : w.Resembles v :=
  ⟨resembles.aside, resembles.alike⟩

theorem Lineup.Screened.resembles (screened : line.Screened w pushed frames held u x) (resembles : w.Resembles u)
    (live : x.live? line.receiver = some o) : w.Resembles x where
  aside := by
    rw [screened.aside, resembles.aside]
  alike := resembles.alike.trans (screened.alike_of_live live Object.resting_unordered fun _ _ _ _ => rfl)

/-- Where filters have nothing open, the worlds that calls find differ in orders and in whether filters are enabled. -/
theorem Lineup.Screened.of_consulted (line : Lineup) (unchecked : ∀ o, w.live? line.receiver = some o → o.checks = {})
    (left : Consulted w.unfiltered u) (right : Consulted w v) : line.Screened w false [] 0 u v where
  aside := by
    rw [left.aside, right.aside]
    simp only [List.append_nil]
    rfl
  depth := by
    rw [left.aside]
    rfl
  alike := by
    rw [cleared_false_zero]
    exact left.alike.symm.trans right.alike
  position _ o found := by
    obtain ⟨p, there, same⟩ := right.alike.symm.exists_of_get? found
    have positions : p.mixinPositions = o.mixinPositions := (congrArg Object.mixinPositions same :)
    rw [mixinPosition, mixinPositions, there, ← positions]
    rfl
  unchecked o live := by
    have view := left.alike.view line.receiver
    obtain ⟨found, alive⟩ := World.live?_eq_some_iff.1 live
    rw [found, Option.map_some] at view
    obtain ⟨p, there, same⟩ := Option.map_eq_some_iff.1 view.symm
    have deleted : p.deleted = o.deleted := (congrArg Object.deleted same :)
    have checks : p.checks = o.checks := (congrArg Object.checks same :)
    rw [← checks]
    exact unchecked p (World.live?_eq_some_iff.2 ⟨there, deleted.trans alive⟩)

theorem Lineup.Screened.sameButFilters (screened : line.Screened w false [] 0 u v) : u.SameButFilters v where
  aside := by
    have aside := screened.aside
    simp only [List.append_nil] at aside
    exact aside
  alike := by
    have alike := screened.alike
    rwa [cleared_false_zero] at alike

/-- Calls of an unknown method agree where nothing tells the worlds apart. -/
theorem Lineup.Oblivious.agree_answers (oblivious : line.Oblivious w lets args) (quiet : w.unknownHandler = none)
    (without : Consulted w.unfiltered u) (all : line.AllPassing frames)
    (screened : line.Screened w (!frames.isEmpty) frames held u v) (proper : Proper v)
    (live : v.live? line.receiver = some o) :
    Agree (line.Screened w (!frames.isEmpty) frames held) (fun k => answerUnknown k line.receiver line.name args) u
      (fun k => answerUnknown k line.receiver line.name args) v := by
  have quiet' : u.unknownHandler = none := by
    rw [without.aside]
    exact quiet
  refine screened.agree_answerUnknown without.proper without.current proper live quiet'
    fun m known other a b consulted related => ?_
  exact oblivious.hands m ((without.unknownMethod? line.receiver).symm.trans known) other frames held a b all
    (without.trans consulted) related

theorem World.live?_lowered (live : v.live? h = some o) (filter mixin : Bool) :
    (v.lowered h filter mixin).live? h = some (o.lowered filter mixin) := by
  obtain ⟨found, alive⟩ := World.live?_eq_some_iff.1 live
  refine World.live?_eq_some_iff.2 ⟨?_, alive⟩
  unfold World.lowered
  rw [Heap.get?_modify, if_pos rfl, found]
  rfl

theorem World.lowered_startedAt (e : Resolved) : (v.startedAt h e).lowered h false e.kind.isMixin = v := by
  unfold World.startedAt
  cases e.kind.isMixin with
  | false => exact v.lowered_false h
  | true =>
    have same : ((v.objects.modify h fun o => { o with mixinPositions := e.definer :: o.mixinPositions }).modify h
        (Object.lowered false true)) = v.objects :=
      (Heap.modify_modify _ _ _ _).trans (Heap.modify_eq_self _ _ fun _ _ => rfl)
    exact congrArg (fun objects => { v with objects }) same

/-- Where an element is started, the receiver lives and stands at it. -/
theorem World.exists_startedAt (live : v.live? h = some o) (line : Lineup) {e : Resolved}
    (noFilter : e.kind.isFilter = false) : ∃ p, (v.startedAt h e).live? h = some p ∧ line.Places e p := by
  obtain ⟨found, alive⟩ := World.live?_eq_some_iff.1 live
  unfold World.startedAt Lineup.Places
  cases kind : e.kind with
  | filter => rw [kind] at noFilter; cases noFilter
  | mixin =>
    have there : (v.objects.modify h fun o => { o with mixinPositions := e.definer :: o.mixinPositions }).get? h =
        some { o with mixinPositions := e.definer :: o.mixinPositions } := by
      rw [Heap.get?_modify, if_pos rfl, found]
      rfl
    exact ⟨_, World.live?_eq_some_iff.2 ⟨there, alive⟩, rfl⟩
  | plain => exact ⟨o, live, trivial⟩
  | ensemble => exact ⟨o, live, trivial⟩

theorem Lineup.isFilter_of_unfilteredChain {e : Resolved} (listed : e ∈ line.unfilteredChain lets) :
    e.kind.isFilter = false := by
  rcases List.mem_append.1 listed with mixin | plain
  · obtain ⟨m, -, link⟩ := List.mem_filterMap.1 mixin
    obtain ⟨found, -, rfl⟩ := Option.map_eq_some_iff.1 link
    rfl
  · rw [Lineup.kind_of_plainChain e plain]
    rfl

/-- Where no filter takes part, calls agree. -/
theorem Lineup.Oblivious.agree_straight (oblivious : line.Oblivious w lets args) (quiet : w.unknownHandler = none)
    (unchecked : ∀ o, w.live? line.receiver = some o → o.checks = {}) (without : Consulted w.unfiltered u)
    (right : Consulted w v) (live : v.live? line.receiver = some o) :
    Agree (line.Screened w false [] 0) (straight line lets args)
      ((line.unfilteredChain lets).head?.elim u (u.startedAt line.receiver)) (straight line lets args)
      ((line.unfilteredChain lets).head?.elim v (v.startedAt line.receiver)) := by
  have screened : line.Screened w false [] 0 u v := .of_consulted line unchecked without right
  have none' : line.AllPassing [] := fun _ member => absurd member List.not_mem_nil
  unfold straight
  cases first : (line.unfilteredChain lets).head? with
  | none => exact oblivious.agree_answers quiet without none' screened right.proper live
  | some e =>
    have noFilter := Lineup.isFilter_of_unfilteredChain (List.mem_of_mem_head? first)
    obtain ⟨p, there, places⟩ := World.exists_startedAt live line noFilter
    have same : (v.startedAt line.receiver e).lowered line.receiver false (e.kind.isMixin && true) = v := by
      rw [Bool.and_true, World.lowered_startedAt]
    have agree := oblivious.enters e first [] u (v.startedAt line.receiver e) p none' without (same.symm ▸ screened)
      there places
    simp only [List.isEmpty_nil, Bool.and_true] at agree
    exact agree

/-- The positions that are pushed for the first filter of a call. -/
def Lineup.filtering (line : Lineup) (e : Resolved) (o : Object) : Object :=
  { o with
    filterPositions := ⟨some ⟨e.definer, e.name⟩, line.name⟩ :: o.filterPositions
    mixinPositions := if line.mixins.isEmpty then o.mixinPositions else none :: o.mixinPositions }

theorem Lineup.Screened.filtering (screened : line.Screened w false [] 0 u v) (e : Resolved) :
    line.Screened w true [] 0 u { v with objects := v.objects.modify line.receiver (line.filtering e) } where
  aside := by
    rw [screened.aside]
  depth := screened.depth
  alike := by
    have alike := screened.alike
    rw [cleared_false_zero] at alike
    have same : line.cleared true 0 (v.objects.modify line.receiver (line.filtering e)) = v.objects := by
      refine (Heap.modify_modify _ _ _ _).trans (Heap.modify_eq_self _ _ fun o _ => ?_)
      cases mixed : line.mixins.isEmpty <;> simp [Object.lowered, Lineup.filtering, mixed]
    rw [same]
    exact alike
  position unmixed p there := by
    rw [Heap.get?_modify, if_pos rfl] at there
    obtain ⟨o, before, rfl⟩ := Option.map_eq_some_iff.1 there
    have stays : (line.filtering e o).mixinPositions = o.mixinPositions := by simp [Lineup.filtering, unmixed]
    rw [stays]
    exact screened.position unmixed o before
  unchecked := screened.unchecked

/-- Where filters take part, a call starts the first one that does. -/
theorem Lineup.Ready.exec_resolve_filter {host : Host} {entry : FilterEntry} {mods : CallModifiers}
    (ready : line.Ready v) (judges : line.Judges host lets v) (filtered : v.settings.filtersEnabled = true)
    (outside : insideFilterOf v line.receiver = false) (simple : interceptable line.name mods = true)
    (first : line.filters.find? (line.admits lets) = some entry) {e : Resolved}
    (link : line.filterLink lets entry = some e) : (resolve host line.receiver line.name mods).exec v =
      some (.ok (some (line.entered [] e)),
        { v with objects := v.objects.modify line.receiver (line.filtering e) }) := by
  have searched : (firstFilter host line.receiver).exec v = some (.ok (some entry), v) := by
    rw [exec_firstFilter_of_filterOrder filtered ready.unguarded outside ready.keeps.2.exec_filterOrder,
      ready.keeps.2.isClass, exec_searchFilters judges fun _ member => member, first]
  unfold resolve
  rw [simple]
  simp only [Bool.not_true, Bool.false_eq_true, if_false]
  rw [Action.exec_bind_of_ok searched, Action.exec_liftM_bind_of_ok ready.keeps.2.exec_mixinOrder,
    eq_of_filterLink link]
  unfold Lineup.filtering Lineup.entered
  cases mixed : line.mixins with
  | nil => rfl
  | cons m rest =>
    have both := Heap.modify_modify v.objects line.receiver (fun o =>
      { o with filterPositions := ⟨some entry.key, line.name⟩ :: o.filterPositions })
      fun o => { o with mixinPositions := none :: o.mixinPositions }
    exact congrArg (fun objects => some (_, { v with objects })) both

/-! ### Methods that tell nothing apart -/

/-- A method that comes to the same outcome wherever it runs, and leaves the world as it is. -/
structure Invocation.Inert (m : Method) (args : List Value) (r : Except Failure Value) : Prop where
  direct : m.kind ≠ .aliased
  unchecked : m.returns = none
  comes : ∃ enough, ∀ depth, enough ≤ depth → ∀ i h w, (∀ o, w.live? h = some o → o.checks = {}) →
    (implement (Script.hostOfDepth depth) i h m args {}).exec w = some (r, w)

/-- The literal that a method answers with, whatever its arguments are. -/
def Invocation.literalAnswer? (m : Method) : Option Value :=
  match m.implementation with
  | .scripted [p] (.literal value) => if p.kind == .rest && p.check.isNone && m.returns.isNone then some value else none
  | _ => none

/-- A method that answers with a literal is inert. -/
theorem Invocation.inert_of_literalAnswer? {m : Method} {value : Value} (answers : literalAnswer? m = some value)
    (args : List Value) : Inert m args (.ok value) := by
  unfold literalAnswer? at answers
  split at answers
  case h_2 => cases answers
  case h_1 p _ body =>
    obtain ⟨taken, same⟩ := Option.ite_none_right_eq_some.1 answers
    cases same
    simp only [Bool.and_eq_true, beq_iff_eq, Option.isNone_iff_eq_none] at taken
    obtain ⟨⟨rest, noCheck⟩, unchecked⟩ := taken
    have direct : m.kind ≠ .aliased := by
      intro aliased
      rw [MethodOf.kind, body] at aliased
      cases aliased
    refine ⟨direct, unchecked, 1, fun depth within i h w alone => ?_⟩
    obtain ⟨depth, rfl⟩ := Nat.exists_eq_add_of_le' within
    have checked : ∀ phase, (checkAssertions (Script.hostOfDepth (depth + 1)) h m phase).exec w = some (.ok ⟨⟩, w) :=
      exec_checkAssertions_of_forall alone m
    have evaluated : ((Script.hostOfDepth (depth + 1)).eval
        (.scripted ⟨[(p.name, .list args)]⟩) (.literal value)).exec w = some (.ok value, w) := rfl
    unfold implement
    simp only [body]
    unfold runScript
    rw [Action.exec_bind_of_ok (Action.exec_get w), parse_rest _ rest noCheck]
    dsimp only
    rw [Action.exec_bind_of_ok (checked .before), Action.exec_bind_of_ok evaluated,
      Action.exec_bind_of_ok (checked .after)]
    rfl

/-- A frame that closes as it was opened leaves nothing but the positions that were pushed for it popped. -/
theorem letGo_unstacked_opened {frame : Frame} (live : w.live? frame.object = some o) :
    ((letGo frame.object).exec ((w.opened frame).unstacked frame)).2 =
      w.lowered frame.object frame.pushedFilterPosition frame.pushedMixinPosition := by
  obtain ⟨found, alive⟩ := World.live?_eq_some_iff.1 live
  have stack : (w.stack.push frame).pop = w.stack := by rw [FrameStack.push, FrameStack.pop, List.dropLast_concat]
  have held : ((w.opened frame).unstacked frame).objects.get? frame.object = some
      (Object.lowered frame.pushedFilterPosition frame.pushedMixinPosition { o with holders := o.holders + 1 }) := by
    unfold World.opened World.unstacked World.lowered
    rw [Heap.get?_modify, if_pos rfl, Heap.get?_modify, if_pos rfl, found]
    rfl
  rw [exec_letGo_eq_letGo, Heap.letGo_of_alive held alive]
  unfold World.opened World.unstacked World.lowered
  simp only [Heap.modify_modify, stack]
  rfl

/-- Entered on a live object that asks for no checks, such a method leaves nothing but the positions that were pushed for
it popped. -/
theorem Invocation.Inert.exec_enter {e : Resolved} {r : Except Failure Value} {called : String}
    (inert : Inert e.method args r) : ∃ enough, ∀ depth, enough ≤ depth → ∀ x o, x.live? h = some o → o.checks = {} →
      (enter (Script.hostOfDepth depth) h called e args {}).exec x =
        some (r, x.lowered h e.pushedFilterPosition e.pushedMixinPosition) := by
  obtain ⟨enough, comes⟩ := inert.comes
  refine ⟨enough + 1, fun depth within x o live alone => ?_⟩
  obtain ⟨depth, rfl⟩ := Nat.exists_eq_add_of_le' (Nat.le_trans (Nat.le_add_left 1 enough) within)
  obtain ⟨frame, is⟩ : ∃ frame, frame = frameFor h called e e.method args {} := ⟨_, rfl⟩
  have object : frame.object = h := by rw [is]; rfl
  have unchecked : ∀ p, (x.opened frame).live? h = some p → p.checks = {} := by
    unfold World.opened
    rw [object]
    refine unchecked_modify (fun _ => ⟨rfl, rfl⟩) fun p there => ?_
    cases live.symm.trans there
    exact alone
  have runs : (enter (Script.hostOfDepth (depth + 1)) h called e args {}).exec x =
      (run (Script.hostOfDepth depth) frame e.method {}).exec x := by
    rw [Invocation.exec_enter h called args {} inert.direct, ← is]
    rfl
  have implemented : (implement (Script.hostOfDepth depth) x.stack.depth frame.object e.method frame.arguments {}).exec
      (x.opened frame) = some (r, x.opened frame) := by
    rw [object, show frame.arguments = args by rw [is]; rfl]
    exact comes depth (Nat.le_of_succ_le_succ within) _ _ _ unchecked
  have top : (x.opened frame).stack.top? = some frame := List.getLast?_concat
  have concludes := fun y => @exec_conclude_of_unchecked (Script.hostOfDepth depth) frame e.method (by rw [is]; rfl)
    inert.unchecked (by rw [is]; rfl) r y
  rw [runs, exec_run, implemented, Option.bind_some]
  dsimp only
  rw [exec_close_of_top top, concludes, lettingGo, Option.map_some]
  dsimp only
  rw [letGo_unstacked_opened (object.symm ▸ live : x.live? frame.object = some o), is]
  rfl

/-- Without guards, nothing is kept from taking part. -/
theorem Lineup.judges_of_guards_eq_nil {host : Host} (unguarded : line.guards = []) : line.Judges host lets w := by
  obtain ⟨filters, mixins⟩ := List.append_eq_nil_iff.1 unguarded
  constructor
  · intro entry member
    rw [List.filterMap_eq_nil_iff.1 filters entry member]
    rfl
  · intro m member
    rw [List.filterMap_eq_nil_iff.1 mixins m member, ite_self]
    rfl

/-- Nothing is told apart by an inert method where there is no other one for unknown calls. -/
theorem Lineup.oblivious_of_inert
    (inert : ∀ e, (line.unfilteredChain lets).head? = some e → ∃ r, Inert e.method args r)
    (known : ∀ m, unknownMethod? w line.receiver = some m → m = line.name) : line.Oblivious w lets args where
  hands m is other := absurd (known m is) other
  enters e first frames u v o all without screened live places := by
    obtain ⟨r, stays⟩ := inert e first
    have pushes : e.pushedFilterPosition = false := by
      rw [← Lineup.unmarked_of_unfilteredChain (List.mem_of_mem_head? first)]
      rfl
    have lowers := World.live?_lowered live false (e.kind.isMixin && frames.isEmpty)
    have alone : o.checks = {} := (screened.unchecked_live lowers :)
    obtain ⟨p, there, -⟩ := screened.exists_live lowers
    have noFilter := Lineup.isFilter_of_unfilteredChain (List.mem_of_mem_head? first)
    obtain ⟨q, there', -⟩ := World.exists_startedAt there line noFilter
    have alone' : q.checks = {} := by
      unfold World.startedAt at there'
      split at there'
      · exact unchecked_modify (f := fun o => { o with mixinPositions := e.definer :: o.mixinPositions })
          (fun _ => ⟨rfl, rfl⟩) screened.unchecked q there'
      · exact screened.unchecked q there'
    obtain ⟨enough, left⟩ := @Inert.exec_enter line.receiver args e.started r line.name stays
    obtain ⟨enough', right⟩ := @Inert.exec_enter line.receiver args
      { e with pushedMixinPosition := e.kind.isMixin && frames.isEmpty } r line.name stays
    -- On both sides the method has ended before depth matters, and the worlds it leaves are those that are related.
    have still : Deepens fun _ : Host => (Action.resume r : Action Value) := fun _ _ _ => Action.CoveredBy.refl _
    have agree : Agree (line.Screened w (!frames.isEmpty) frames frames.length) (fun _ => Action.resume r) u
        (fun _ => Action.resume r) (v.lowered line.receiver false (e.kind.isMixin && frames.isEmpty)) :=
      .ended (fun _ => Action.exec_resume r _) (fun _ => Action.exec_resume r _) screened
    have begins : ∀ depth, enough ≤ depth →
        (enter (Script.hostOfDepth depth) line.receiver line.name e.started args {}).exec (u.startedAt line.receiver e) =
          (Action.resume r : Action Value).exec u := by
      intro depth within
      rw [left depth within _ q there' alone', Action.exec_resume]
      change some (r, (u.startedAt line.receiver e).lowered line.receiver e.pushedFilterPosition e.kind.isMixin) = _
      rw [pushes, World.lowered_startedAt]
    have begins' : ∀ depth, enough' ≤ depth → (enter (Script.hostOfDepth depth) line.receiver line.name
        { e with pushedMixinPosition := e.kind.isMixin && frames.isEmpty } args {}).exec v =
          (Action.resume r : Action Value).exec
            (v.lowered line.receiver false (e.kind.isMixin && frames.isEmpty)) := by
      intro depth within
      rw [right depth within _ o live alone, Action.exec_resume]
      change some (r, v.lowered line.receiver e.pushedFilterPosition (e.kind.isMixin && frames.isEmpty)) = _
      rw [pushes]
    exact agree.of_begins (Lineup.deepens_enter _ _ _ _ _) still begins (Lineup.deepens_enter _ _ _ _ _) still begins'

/-- Where filters are disabled, a call on the object goes straight to the rest of the chain. -/
theorem exec_call_unfiltered (proper : Proper w) (current : MixinOrdersCurrent w) (live : w.live? h = some o)
    (simple : Definition.isQualified name = false) (room : w.stack.depth < w.settings.maxDepth)
    (judges : ∀ x, w.Resembles x → (w.lineup h name).Judges (Script.hostOfDepth enough) lets x)
    (visible : ∀ e, ((w.lineup h name).unfilteredChain (verdicts w lets)).head? = some e →
      e.method.visibility = .everyone ∧ e.method.classOnly = false) : ∃ u, Consulted w.unfiltered u ∧
      ∀ depth, enough ≤ depth → (call (Script.hostOfDepth depth) h name args {}).exec w.unfiltered =
        (straight (w.lineup h name) (verdicts w lets) args (Script.hostOfDepth depth)).exec
          (((w.lineup h name).unfilteredChain (verdicts w lets)).head?.elim u (u.startedAt h)) := by
  obtain ⟨proper', current', orders⟩ := @sameOrders_of_uncalled w w.unfiltered proper current (.refl _) rfl rfl
  have lineup : w.unfiltered.lineup h name = w.lineup h name := World.lineup_eq orders (.refl _) h name
  obtain ⟨u, consulted, resolved⟩ := @exec_resolve_started lets (Script.hostOfDepth enough) w.unfiltered w.unfiltered
    h o name proper' current' live simple
    (fun x consulted => lineup ▸ judges x (World.resembles_of_unfiltered consulted.resembles)) (lineup ▸ visible) rfl
    (.refl proper' current')
  refine ⟨u, consulted, fun depth within => ?_⟩
  have ran := @exec_call_straight _ w.unfiltered h o name enough depth args _ live room within resolved
  rw [lineup] at ran
  exact ran

/-- Where no filter is found, a call goes straight to the rest of the chain. -/
theorem exec_call_of_noFilter (proper : Proper w) (current : MixinOrdersCurrent w) (live : w.live? h = some o)
    (simple : Definition.isQualified name = false) (room : w.stack.depth < w.settings.maxDepth)
    (judges : ∀ x, w.Resembles x → (w.lineup h name).Judges (Script.hostOfDepth enough) lets x)
    (visible : ∀ e, ((w.lineup h name).unfilteredChain (verdicts w lets)).head? = some e →
      e.method.visibility = .everyone ∧ e.method.classOnly = false)
    (none' : (if w.takesFilters h then
      (w.lineup h name).filters.find? ((w.lineup h name).admits lets) else none) = none) : ∃ v, Consulted w v ∧
      ∀ depth, enough ≤ depth → (call (Script.hostOfDepth depth) h name args {}).exec w =
        (straight (w.lineup h name) (verdicts w lets) args (Script.hostOfDepth depth)).exec
          (((w.lineup h name).unfilteredChain (verdicts w lets)).head?.elim v (v.startedAt h)) := by
  have judges' : ∀ x, Consulted w x → (w.lineup h name).Judges (Script.hostOfDepth enough) lets x :=
    fun x consulted => judges x consulted.resembles
  obtain ⟨x, first, consulted⟩ := exec_firstFilter_of_searched proper current live fun x consulted =>
    Lineup.exec_searchFilters (judges' x consulted) fun _ member => member
  rw [none'] at first
  obtain ⟨v, further, resolved⟩ := exec_resolve_started proper current live simple judges' visible first consulted
  exact ⟨v, further, fun depth within => exec_call_straight live room within resolved⟩

/-- Where a filter is found, a call enters it. -/
theorem exec_call_of_filter {entry : FilterEntry} {e : Resolved} (proper : Proper w) (current : MixinOrdersCurrent w)
    (numbered : Numbered w) (remain : w.objects.HandlesRemain) (live : w.live? h = some o)
    (simple : Definition.isQualified name = false) (room : w.stack.depth < w.settings.maxDepth)
    (judges : ∀ x, w.Resembles x → (w.lineup h name).Judges (Script.hostOfDepth enough) lets x)
    (apart : ∀ entry ∈ (w.lineup h name).filters, entry.definer = none → entry.name ≠ name)
    (takes : w.takesFilters h = true)
    (first : (w.lineup h name).filters.find? ((w.lineup h name).admits lets) = some entry)
    (link : (w.lineup h name).filterLink lets entry = some e) : ∃ v, Consulted w v ∧ (w.lineup h name).Distinct ∧
      (w.lineup h name).At e { v with objects := v.objects.modify h ((w.lineup h name).filtering e) } ∧
      ∀ depth, enough ≤ depth → (call (Script.hostOfDepth depth) h name args {}).exec w =
        (enter (Script.hostOfDepth depth) h name ((w.lineup h name).entered [] e) args {}).exec
          { v with objects := v.objects.modify h ((w.lineup h name).filtering e) } := by
  simp only [World.takesFilters, Bool.and_eq_true, beq_iff_eq, Bool.not_eq_true'] at takes
  obtain ⟨⟨filtered, unguarded⟩, outside⟩ := takes
  obtain ⟨v, asked, -, -, is, -, ready, distinct⟩ := exists_ready proper current numbered remain live unguarded apart
  have consulted : Consulted w v := by
    have given := @Consulted.filterOrder w proper current h
    rwa [asked] at given
  have stack : v.stack = w.stack := (congrArg World.stack is :)
  have settings : v.settings = w.settings := (congrArg World.settings is :)
  obtain ⟨p, -, there, -⟩ := ready.exists_live
  have plain : interceptable name {} = true := by simp [interceptable, simple]
  have outside' : insideFilterOf v h = false := by
    unfold insideFilterOf at outside ⊢
    rwa [stack]
  have resolved := ready.exec_resolve_filter (judges v consulted.resembles) (settings ▸ filtered) outside'
    plain first link
  have placed : (w.lineup h name).At e { v with objects := v.objects.modify h ((w.lineup h name).filtering e) } := by
    refine ready.at_modify (fun _ => rfl) (fun _ => rfl) fun p _ => ?_
    rw [Lineup.eq_of_filterLink link]
    refine ⟨rfl, fun mixed => ?_⟩
    rw [Lineup.filtering, List.isEmpty_eq_false_iff.2 mixed]
    rfl
  refine ⟨v, consulted, distinct, placed, fun depth within => ?_⟩
  rw [exec_call_of_filterOrder live there is asked ready.keeps.2.exec_filterOrder plain filtered unguarded outside room]
  have deeper := (composed_resolve h name {}).covered (coveredBy_of_le within) False.elim _ _ resolved
  exact exec_call_of_resolve args there (by rw [stack, settings]; exact room) deeper

/-- Where a filter is found, calls come to what they come to without it. -/
theorem Lineup.Oblivious.agree_filters {e : Resolved} {entry : FilterEntry} {before after : List FilterEntry}
    (enough : Nat) (oblivious : line.Oblivious w lets args) (distinct : line.Distinct) (quiet : w.unknownHandler = none)
    (without : Consulted w.unfiltered u) (judges : ∀ x, w.Resembles x → line.Judges (Script.hostOfDepth enough) lets x)
    (passes : ∀ entry ∈ line.filters, PassesOn entry.method) (split : line.filters = before ++ entry :: after)
    (link : line.filterLink lets entry = some e) (stands : line.At e v) (screened : line.Screened w true [] 0 u v) :
    Agree (line.Screened w false [] 0) (straight line lets args)
      ((line.unfilteredChain lets).head?.elim u (u.startedAt line.receiver))
      (fun k => enter k line.receiver line.name (line.entered [] e) args {}) v := by
  have resembles : w.Resembles u := World.resembles_of_unfiltered without.resembles
  refine @Lineup.agree_filters line _ u v w [] e args enough _ lets distinct
    (fun _ _ x o related live => judges x (related.resembles resembles live)) passes ?_ ?_ before after entry split link
    (fun _ member => absurd member List.not_mem_nil) stands screened
  case refine_1 =>
    intro t first frames x goesOn all there related
    have noFilter := List.isEmpty_eq_false_iff.2 goesOn
    obtain ⟨o, -, live, -⟩ := there.toReady.exists_live
    have places := there.places o (World.live?_eq_some_iff.1 live).1
    have lowered : x.lowered line.receiver false (t.kind.isMixin && frames.isEmpty) = x := by
      rw [noFilter, Bool.and_false, World.lowered_false]
    have shown : (!frames.isEmpty) = true := by rw [noFilter]; rfl
    have agree := oblivious.enters t first frames u x o all without (by rw [lowered, shown]; exact related) live places
    have unmarked : ({ t with pushedMixinPosition := false } : Resolved) = t := by
      rw [← Lineup.unmarked_of_unfilteredChain (List.mem_of_mem_head? first)]
      rfl
    rw [noFilter, Bool.and_false, unmarked] at agree
    unfold straight
    rw [first]
    exact agree
  case refine_2 =>
    intro first frames y all proper lives related
    obtain ⟨o, live⟩ := lives
    unfold straight
    rw [first]
    exact oblivious.agree_answers quiet without all related proper live

end transparent

/-- An object with two filters that only pass calls on, one of its class and one of its own, and a mixin that answers. -/
def transparentSession : List Expr :=
  [foundation, Trial.createClass "M", Trial.define .instances "M" (Trial.method "f" (Trial.text "done")),
    Trial.createClass "C", Trial.define .instances "C" (Trial.method "g" (.next none)), Trial.createObject "o" "C",
    Trial.define .object "o" (Trial.method "k" (.next none)), Trial.addMixin .object "o" "M",
    Trial.addFilter .object "o" "g", Trial.addFilter .object "o" "k"]

def transparentWorld : World :=
  (sessionWithin Heap.HandlesRemain 3 transparentSession).get (by decide +kernel)

/-- The object `o` has the handle 4. -/
def transparentLine : Lineup :=
  transparentWorld.lineup ⟨4, 0⟩ "f"

/-- An object whose own method only passes calls on, and is a filter of the object. -/
def ownFilterSession : List Expr :=
  [foundation, Trial.createClass "C", Trial.createObject "o" "C",
    Trial.define .object "o" (Trial.method "f" (.next none)), Trial.addFilter .object "o" "f"]

def ownFilterWorld : World :=
  (sessionWithin Heap.HandlesRemain 3 ownFilterSession).get (by decide +kernel)

end DynamicObjects
