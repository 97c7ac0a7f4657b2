import DynamicObjects.Proofs.Runs.Succession

/-!
# Passing calls on

While an element of the chain runs, the call stands at it. A next call runs the element behind it, or ends in nil where
there is none; afterwards the call stands where it stood.
-/
namespace DynamicObjects

open Invocation

/-! ## The running method -/

theorem lastIndex?_map {α β : Type} (f : α → β) (p : β → Bool) (l : List α) :
    lastIndex? p (l.map f) = lastIndex? (fun a => p (f a)) l := by
  induction l with
  | nil => rfl
  | cons a rest ih => rw [List.map_cons, lastIndex?, lastIndex?, ih]

theorem lastIndex?_concat {α : Type} {p : α → Bool} (l : List α) {a : α} (holds : p a = true) :
    lastIndex? p (l ++ [a]) = some l.length := by
  induction l with
  | nil => simp [lastIndex?, holds]
  | cons b rest ih => rw [List.cons_append, lastIndex?, ih, List.length_cons]

namespace FrameStack

theorem activeIndex?_push (stack : FrameStack) {f : Frame} (visible : f.visible = true) :
    (stack.push f).activeIndex? = some stack.depth :=
  lastIndex?_concat stack.frames visible

theorem get?_push (stack : FrameStack) (f : Frame) : (stack.push f).get? stack.depth = some f := by
  simp [get?, push, depth]

theorem depth_modify (stack : FrameStack) (i : Nat) (f : Frame → Frame) : (stack.modify i f).depth = stack.depth := by
  simp [depth, modify]

end FrameStack

/-- What frames are doing does not show in which of them is active. -/
theorem Balanced.activeIndex? {v w : World} (balanced : Balanced v w) :
    w.stack.activeIndex? = v.stack.activeIndex? := by
  have same := congrArg (lastIndex? fun f : Frame => f.visible) balanced.frames
  rwa [lastIndex?_map, lastIndex?_map] at same

namespace Lineup

/-- The frame `i` is that of the running method, it runs an element of the chain, and the call stands there. -/
structure Active (line : Lineup) (e : Resolved) (i : Nat) (w : World) : Prop extends line.At e w where
  index : w.stack.activeIndex? = some i
  frame : ∃ f, w.stack.get? i = some f ∧ line.Runs e f

variable {line : Lineup} {lets : Predicate → Bool} {host : Host} {v w : World} {e : Resolved} {i : Nat} {frame : Frame}
  {good : Objects → Prop}

theorem Runs.of_settled {f g : Frame} (runs : line.Runs e f) (same : g.settled = f.settled) : line.Runs e g where
  object := (congrArg Frame.object same :).trans runs.object
  called := (congrArg Frame.called same :).trans runs.called
  definer := (congrArg Frame.definer same :).trans runs.definer
  method := (congrArg Frame.method same :).trans runs.method
  methodName := (congrArg Frame.methodName same :).trans runs.methodName
  kind := by
    have kind : g.kind = f.kind := (congrArg Frame.kind same :)
    rw [kind, runs.kind]

theorem Places.of_openCalls {o p : Object} (places : line.Places e o) (same : p.openCalls = o.openCalls) :
    line.Places e p := by
  have filters : p.filterPositions = o.filterPositions := congrArg OpenCalls.filterPositions same
  have mixins : p.mixinPositions = o.mixinPositions := congrArg OpenCalls.mixinPositions same
  unfold Places at places ⊢
  rwa [filters, mixins]

/-- What leaves the world balanced and lets the lineup stand comes back to the running method. -/
theorem Active.of_balanced (active : line.Active e i v) (remain : ∀ a, good a → a.HandlesRemain)
    (path : Evolves good v w) (balanced : Balanced v w) (keeps : line.Keeps w.objects) : line.Active e i w where
  proper := active.proper.evolves remain path
  keeps := keeps
  unguarded := balanced.guardDepth.trans active.unguarded
  places := by
    intro p found
    obtain ⟨o, here, -⟩ := active.toReady.exists_live
    refine (active.places o here).of_openCalls ?_
    rw [balanced.objects.openCalls _ p found, Heap.openCalls_of_get? here]
  index := balanced.activeIndex?.trans active.index
  frame := by
    obtain ⟨f, there, runs⟩ := active.frame
    obtain ⟨g, found, settled⟩ := FrameStack.exists_of_map balanced.frames there
    exact ⟨g, found, runs.of_settled settled⟩

/-! ## Starting an element -/

/-- An element of the chain is about to run in `frame`, which gets the index `i`. -/
structure Opens (line : Lineup) (e : Resolved) (args : List Value) (i : Nat) (frame : Frame) (u : World) : Prop where
  runs : line.Runs e frame
  kind : frame.kind = e.kind
  arguments : frame.arguments = args
  depth : u.stack.depth = i
  /-- Methods that are no leaves can ask about themselves, and so can filters and mixins. -/
  visible : e.method.isLeaf = false ∨ e.kind ≠ .plain → frame.visible = true
  active : frame.visible = true → line.Active e i (u.opened frame)

/-- What an action does is to run an element of the chain on top of the open frames: it comes to the same outcome, and
what is put back afterwards lets the lineup stand. -/
def Starts (line : Lineup) (host : Host) (e : Resolved) (args : List Value) (a : Action Value) (v : World) : Prop :=
  ∃ frame mods u, line.Opens e args v.stack.depth frame u ∧ ∃ back : World → World,
    (∀ x, line.Keeps x.objects → line.Keeps (back x).objects) ∧
    a.exec v = ((host.run frame e.method mods).exec u).map fun (r, x) => (r, back x)

/-- Opening a frame does not move the positions of a call. -/
theorem At.opened {u : World} (stands : line.At e u) (frame : Frame) : line.At e (u.opened frame) := by
  have beside : Beside u (u.opened frame) := ⟨.modify _ _ fun _ => rfl, rfl, rfl, rfl, le_rfl⟩
  refine ⟨⟨stands.proper.beside beside, stands.keeps.modify _ fun _ => rfl, stands.unguarded⟩, fun p found => ?_⟩
  change (u.objects.modify _ _).get? _ = _ at found
  rw [Heap.get?_modify] at found
  split at found
  · obtain ⟨o, there, rfl⟩ := Option.map_eq_some_iff.1 found
    exact stands.places o there
  · exact stands.places p found

/-- The frame of an element opens where the call stands at it. -/
theorem At.opens {e' : Resolved} {u : World} (stands : line.At e u) {args : List Value} {mods : CallModifiers}
    (depth : u.stack.depth = i) (same : e' = { e with
      pushedFilterPosition := e'.pushedFilterPosition, pushedMixinPosition := e'.pushedMixinPosition }) :
    line.Opens e args i (frameFor line.receiver line.name e' e.method args mods) u := by
  have runs : line.Runs e (frameFor line.receiver line.name e' e.method args mods) := by
    rw [same]
    exact ⟨rfl, rfl, rfl, rfl, rfl, rfl⟩
  have kind : e'.kind = e.kind := by rw [same]
  refine ⟨runs, kind, rfl, depth, fun shows => ?_, fun visible => ?_⟩
  · rw [frameFor, kind]
    rcases shows with noLeaf | intercepts
    · simp [noLeaf]
    · simp [intercepts]
  refine { toAt := stands.opened _, index := ?_, frame := ⟨_, ?_, runs⟩ }
  · rw [← depth]
    exact FrameStack.activeIndex?_push _ visible
  · rw [← depth]
    exact FrameStack.get?_push _ _

end Lineup

namespace Invocation

variable {host : Host} {w : World}

/-- What is no alias leads nowhere else. -/
theorem exec_followAliases {method : Method} (direct : method.kind ≠ .aliased) (w : World) :
    (Definition.followAliases method).exec w = (.ok method, w) := by
  unfold Definition.followAliases Definition.maxHops Definition.follow
  split
  · next path aliased =>
    rw [MethodOf.kind, aliased] at direct
    exact absurd rfl direct
  · rfl

/-- What was found is run as what it leads to. -/
theorem exec_enter_of_leads (h : Handle) (called : String) {resolved : Resolved} {method : Method} {v : World}
    (args : List Value) (mods : CallModifiers) (leads : (Definition.followAliases resolved.method).exec w = (.ok method, v)) :
    (enter host h called resolved args mods).exec w =
      (host.run (frameFor h called resolved method args mods) method mods).exec v := by
  unfold enter
  rw [Action.exec_settle_bind, Action.exec_liftM, leads]
  rfl

/-- What is no alias is run as it was found. -/
theorem exec_enter (h : Handle) (called : String) {resolved : Resolved} (args : List Value) (mods : CallModifiers)
    (direct : resolved.method.kind ≠ .aliased) :
    (enter host h called resolved args mods).exec w =
      (host.run (frameFor h called resolved resolved.method args mods) resolved.method mods).exec w :=
  exec_enter_of_leads h called args mods (exec_followAliases direct w)

/-- A frame begins a next call. -/
def offTo (i : Nat) (kind : FrameKind) (w : World) : World :=
  { w with stack := w.stack.modify i fun f => { f with runsNext := true, kind := kind.deactivated } }

/-- A frame comes back from a next call. -/
def backFrom (i : Nat) (kind : FrameKind) (w : World) : World :=
  { w with stack := w.stack.modify i fun f => { f with runsNext := false, kind } }

theorem exec_duringNext (i : Nat) (kind : FrameKind) (a : Action Value) :
    (duringNext i kind a >>= Action.resume).exec w =
      (a.exec (offTo i kind w)).map fun (r, v) => (r, backFrom i kind v) := by
  unfold duringNext changeFrame
  rw [Action.exec_bind, Action.exec_liftM_bind_of_ok (Update.exec_modify _ w), Action.exec_settle_bind]
  change ((a.exec (offTo i kind w)).bind _).bind _ = _
  cases a.exec (offTo i kind w) with
  | none => rfl
  | some result =>
    obtain ⟨r, v⟩ := result
    exact Action.exec_resume r _

/-- What a next call does from a frame, apart from setting positions back. -/
def passOn (host : Host) (i : Nat) (frame : Frame) (args : Option (List Value)) (fromSub : Bool) : Action Value := do
  let found ← continuation host frame
  match found.resolved with
  | some resolved =>
    let call := enter host frame.object frame.called resolved (args.getD frame.arguments) {}
    Action.resume (← duringNext i frame.kind call)
  | none =>
    if found.filtersDone || (frame.runsEnsemble && !fromSub) then
      changeFrame i ({ · with unknownDue := true })
    return .nil

/-- The end of a next call: positions are set back, whatever came out. -/
theorem exec_setPositions (h : Handle) (filter : Option FilterKey) (mixin : Option Handle) (r : Except Failure Value)
    (v : World) : (do setFilterPosition h filter; setMixinPosition h mixin; Action.resume r : Action Value).exec v =
      some (r, v.restored h filter mixin) := by
  unfold setFilterPosition setMixinPosition changeHeld
  rw [Action.exec_liftM_bind_of_ok (Update.exec_changeObjects _ v),
    Action.exec_liftM_bind_of_ok (Update.exec_changeObjects _ _), Action.exec_resume, Heap.modify_modify]
  rfl

theorem exec_nextFrom {i : Nat} {frame : Frame} (here : w.stack.get? i = some frame) (args : Option (List Value))
    (fromSub : Bool) : (nextFrom host i args fromSub).exec w =
      ((passOn host i frame args fromSub).exec w).map fun (r, v) =>
        (r, v.restored frame.object ((filterPosition? w frame.object).bind (·.current)) (mixinPosition w frame.object)) := by
  unfold nextFrom
  rw [Action.exec_bind_of_ok (Action.exec_get w)]
  simp only [here]
  rw [Action.exec_bind_of_ok (Action.exec_get w), Action.exec_bind_of_ok (Action.exec_get w)]
  rw [Action.exec_settle_bind]
  change ((passOn host i frame args fromSub).exec w).bind _ = _
  cases (passOn host i frame args fromSub).exec w with
  | none => rfl
  | some result =>
    obtain ⟨r, v⟩ := result
    exact exec_setPositions frame.object _ _ r v

end Invocation

/-! ## Next calls -/

namespace Lineup

variable {line : Lineup} {lets : Predicate → Bool} {host : Host} {v w : World} {e : Resolved} {i : Nat} {frame : Frame}
  {rest : List Resolved}

/-- No element of the chain is an alias. -/
def Direct (line : Lineup) (lets : Predicate → Bool) : Prop :=
  ∀ e ∈ line.chain lets, e.method.kind ≠ .aliased

theorem Ready.restack (ready : line.Ready w) (stack : FrameStack) : line.Ready { w with stack } :=
  ⟨ready.proper.beside ⟨.refl _, rfl, rfl, rfl, le_rfl⟩, ready.keeps, ready.unguarded⟩

theorem At.offTo (stands : line.At e w) (i : Nat) (kind : FrameKind) : line.At e (offTo i kind w) :=
  ⟨stands.toReady.restack _, stands.places⟩

/-- An element that stands behind a frame is run, or else the outcome is nil. -/
theorem Continues.exec_passOn (continues : line.Continues host frame w rest) (runs : line.Runs e frame)
    (direct : ∀ e' ∈ rest, e'.method.kind ≠ .aliased) (args : Option (List Value))
    (fromSub : Bool) :
    (∀ e', rest.head? = some e' → ∃ frame' u, line.Opens e' (args.getD frame.arguments) w.stack.depth frame' u ∧
      (passOn host i frame args fromSub).exec w =
        ((host.run frame' e'.method {}).exec u).map fun (r, x) => (r, backFrom i frame.kind x)) ∧
    (rest.head? = none → ∃ u, line.Ready u ∧ (passOn host i frame args fromSub).exec w = some (.ok .nil, u)) := by
  obtain ⟨done, u, found, searched, ready, stands⟩ := continues
  unfold passOn
  rw [Action.exec_bind_of_ok found]
  refine ⟨fun e' first => ?_, fun last => ?_⟩
  · have depth : (offTo i frame.kind u).stack.depth = w.stack.depth := by
      rw [offTo, FrameStack.depth_modify, searched.stack]
    have opens := @At.opens line e' _ e' _ ((stands e' first).offTo i frame.kind) (args.getD frame.arguments) {} depth rfl
    refine ⟨_, _, opens, ?_⟩
    rw [first]
    dsimp only
    rw [exec_duringNext, exec_enter _ _ _ _ (direct e' (List.mem_of_mem_head? first)), runs.object, runs.called]
  · rw [last]
    dsimp only
    split
    · exact ⟨_, ready.restack _, rfl⟩
    · exact ⟨u, ready, rfl⟩

theorem Place.kind_ne_ensemble (place : line.Place lets e rest) : e.kind ≠ .ensemble := by
  cases place with
  | filter _ link => rw [eq_of_filterLink link]; exact nofun
  | mixin _ link =>
    obtain ⟨_, -, rfl⟩ := Option.map_eq_some_iff.1 link
    exact nofun
  | own link =>
    obtain ⟨_, -, rfl⟩ := Option.map_eq_some_iff.1 link
    exact nofun
  | cls _ link =>
    obtain ⟨_, -, rfl⟩ := Option.map_eq_some_iff.1 link
    exact nofun

theorem Keeps.restored (keeps : line.Keeps w.objects) (h : Handle) (filter : Option FilterKey) (mixin : Option Handle) :
    line.Keeps (w.restored h filter mixin).objects :=
  keeps.modify h fun _ => rfl

theorem Starts.of_exec {a b : Action Value} {args : List Value} (starts : line.Starts host e args b w)
    (same : a.exec w = b.exec w) : line.Starts host e args a w := by
  obtain ⟨frame', mods, u, opens, back, stays, ran⟩ := starts
  exact ⟨frame', mods, u, opens, back, stays, same.trans ran⟩

/-- Behind a frame that runs the element at which the call stands, a next call runs the next element, or ends in nil. -/
theorem At.exec_nextFrom (constant : line.GuardsConstant host lets) (distinct : line.Distinct) (stands : line.At e w)
    (here : w.stack.get? i = some frame) (runs : line.Runs e frame) (place : line.Place lets e rest)
    (direct : ∀ e' ∈ rest, e'.method.kind ≠ .aliased) (args : Option (List Value)) (fromSub : Bool) :
    (∀ e', rest.head? = some e' →
      line.Starts host e' (args.getD frame.arguments) (nextFrom host i args fromSub) w) ∧
    (rest.head? = none →
      ∃ x, line.Keeps x.objects ∧ (nextFrom host i args fromSub).exec w = some (.ok .nil, x)) := by
  obtain ⟨back, is⟩ : ∃ back : World → World, back = fun v =>
    v.restored frame.object ((filterPosition? w frame.object).bind (·.current)) (mixinPosition w frame.object) :=
      ⟨_, rfl⟩
  have stays : ∀ x, line.Keeps x.objects → line.Keeps (back x).objects := fun x keeps => is ▸ keeps.restored _ _ _
  have passes : (nextFrom host i args fromSub).exec w =
      ((passOn host i frame args fromSub).exec w).map fun (r, v) => (r, back v) := by
    rw [Invocation.exec_nextFrom here, is]
  obtain ⟨onward, ends⟩ := (place.continues (constant.judges stands.keeps) distinct stands runs).exec_passOn (i := i) runs direct args fromSub
  refine ⟨fun e' first => ?_, fun last => ?_⟩
  · obtain ⟨frame', u, opens, ran⟩ := onward e' first
    refine ⟨frame', {}, u, opens, fun x => back (backFrom i frame.kind x), fun x keeps => stays _ keeps, ?_⟩
    rw [passes, ran, Option.map_map]
    rfl
  · obtain ⟨u, ready, ran⟩ := ends last
    refine ⟨back u, stays u ready.keeps, ?_⟩
    rw [passes, ran]
    rfl

/-- From the running method, a next call runs the element behind it, or ends in nil. -/
theorem Active.exec_next (constant : line.GuardsConstant host lets) (distinct : line.Distinct)
    (active : line.Active e i w) (here : w.stack.get? i = some frame) (place : line.Place lets e rest)
    (direct : ∀ e' ∈ rest, e'.method.kind ≠ .aliased) (args : Option (List Value)) :
    (∀ e', rest.head? = some e' → line.Starts host e' (args.getD frame.arguments) (next host args) w) ∧
    (rest.head? = none → ∃ x, line.Keeps x.objects ∧ (next host args).exec w = some (.ok .nil, x)) := by
  obtain ⟨f, there, runs⟩ := active.frame
  rw [here] at there
  cases there
  have goesOn : (next host args).exec w = (nextFrom host i args false).exec w := by
    have plain : (w.stack.get? i).any (·.kind == .ensemble) = false := by
      have kind : frame.kind ≠ .ensemble := fun same =>
        place.kind_ne_ensemble ((isFilter_of_deactivated runs.kind).2.2.1 same)
      rw [here, Option.any_some]
      exact beq_false_of_ne kind
    unfold next
    rw [Action.exec_bind_of_ok (Action.exec_get w)]
    dsimp only
    rw [active.index]
    dsimp only
    rw [plain, if_neg Bool.false_ne_true]
  obtain ⟨onward, ends⟩ := active.exec_nextFrom constant distinct here runs place direct args false
  rw [goesOn]
  exact ⟨fun e' first => (onward e' first).of_exec goesOn, ends⟩

/-! ## What happens meanwhile -/

/-- What a frame can do while the lineup stands, whenever a task begins or ends. -/
inductive Step (line : Lineup) (lets : Predicate → Bool) (v : World) : World → Prop where
  /-- It comes back from whatever leaves the open calls alone, such as its assertions. -/
  | aside {w : World} (path : Evolves line.Keeps v w) (balanced : Balanced v w) (keeps : line.Keeps w.objects) :
      Step line lets v w
  | evaluated {depth : Nat} {surroundings : Surroundings} {expr : Expr} {r : Except Failure Value} {w : World}
      (done : ((hostWithin line.Keeps depth).eval surroundings expr).exec v = some (r, w)) : Step line lets v w
  | called {depth : Nat} {h : Handle} {name : String} {args : List Value} {mods : CallModifiers}
      {r : Except Failure Value} {w : World}
      (done : ((hostWithin line.Keeps depth).call h name args mods).exec v = some (r, w)) : Step line lets v w
  | passedOn {depth : Nat} {args : Option (List Value)} {r : Except Failure Value} {w : World}
      (constant : line.GuardsConstant (hostWithin line.Keeps depth) lets)
      (done : (next (hostWithin line.Keeps depth) args).exec v = some (r, w)) : Step line lets v w

theorem keeps_of_perform {depth : Nat} {task : Task} {r : Except Failure Value}
    (done : ((hostWithin line.Keeps depth).perform task).exec v = some (r, w)) : line.Keeps w.objects := by
  cases depth with
  | zero => cases task <;> cases done
  | succ depth =>
    rw [hostWithin, Host.perform_ofTasks] at done
    exact (Action.exec_within_eq_some.1 done).2.1

/-- What leaves the frames alone comes back to the running method. -/
theorem Active.perform (active : line.Active e i v) {depth : Nat} (task : Task) (still : task.closed v = v)
    {r : Except Failure Value} (done : ((hostWithin line.Keeps depth).perform task).exec v = some (r, w)) :
    line.Active e i w := by
  have remain : ∀ a, line.Keeps a → a.HandlesRemain := fun _ keeps => keeps.1
  obtain ⟨path, balanced, -⟩ := (faithful_hostWithin remain depth).task task v r w active.proper done
  rw [still] at balanced
  exact active.of_balanced remain path.evolves balanced (keeps_of_perform done)

/-- A next call comes back to the running method. -/
theorem Active.next {depth : Nat} (constant : line.GuardsConstant (hostWithin line.Keeps depth) lets)
    (distinct : line.Distinct) (active : line.Active e i v) (place : line.Place lets e rest)
    (direct : ∀ e' ∈ rest, e'.method.kind ≠ .aliased) {args : Option (List Value)}
    {r : Except Failure Value} (done : (Invocation.next (hostWithin line.Keeps depth) args).exec v = some (r, w)) :
    line.Active e i w := by
  have remain : ∀ a, line.Keeps a → a.HandlesRemain := fun _ keeps => keeps.1
  obtain ⟨path, poised, -⟩ :=
    (steady_next args v trivial (faithful_hostWithin remain depth) v active.proper rfl).2 r w done
  refine active.of_balanced remain path.evolves poised.toBalanced ?_
  obtain ⟨frame, here, -⟩ := active.frame
  obtain ⟨onward, ends⟩ := active.exec_next constant distinct here place direct args
  cases first : rest.head? with
  | none =>
    obtain ⟨x, keeps, ran⟩ := ends first
    rw [ran] at done
    cases done
    exact keeps
  | some e' =>
    obtain ⟨frame', mods, u, -, back, stays, ran⟩ := onward e' first
    rw [ran] at done
    obtain ⟨⟨r', x⟩, finished, same⟩ := Option.map_eq_some_iff.1 done
    cases same
    have run : ((hostWithin line.Keeps depth).perform (.run frame' e'.method mods)).exec u = some (r, x) := finished
    exact stays x (keeps_of_perform run)

/-- However a frame goes on, the call still stands at its element. -/
theorem Active.steps (distinct : line.Distinct) (place : line.Place lets e rest)
    (direct : ∀ e' ∈ rest, e'.method.kind ≠ .aliased) (active : line.Active e i v)
    (steps : Relation.ReflTransGen (line.Step lets) v w) : line.Active e i w := by
  induction steps with
  | refl => exact active
  | tail _ step ih =>
    cases step with
    | aside path balanced keeps => exact ih.of_balanced (fun _ keeps => keeps.1) path balanced keeps
    | evaluated done => exact ih.perform (.eval _ _) rfl done
    | called done => exact ih.perform (.call _ _ _ _) rfl done
    | passedOn constant done => exact ih.next constant distinct place direct done

end Lineup

end DynamicObjects
