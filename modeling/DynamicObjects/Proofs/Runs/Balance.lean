import DynamicObjects.Invocation.Position
import DynamicObjects.Proofs.Structure.Creation

/-!
# Balance

Open calls leave their marks: frames on the stack, positions and holders at their receivers, and counters of guards and
assertion checks. Worlds are balanced if the second has the marks of the first, and poised if it keeps what is held,
besides. In a tallied world the marks at objects are those of the frames.
-/
namespace DynamicObjects

/-- The marks of open calls at an object. -/
structure OpenCalls where
  mixinPositions : List (Option Handle) := []
  filterPositions : List FilterPosition := []
  holders : Nat := 0

def Object.openCalls (o : Object) : OpenCalls where
  mixinPositions := o.mixinPositions
  filterPositions := o.filterPositions
  holders := o.holders

/-- The marks once the positions are popped that a frame pushed. -/
def OpenCalls.lowered (filter mixin : Bool) (calls : OpenCalls) : OpenCalls :=
  { calls with
    filterPositions := if filter then calls.filterPositions.tail else calls.filterPositions
    mixinPositions := if mixin then calls.mixinPositions.tail else calls.mixinPositions }

/-- Nothing has marks but what resolves. -/
def Heap.openCalls (objects : Objects) (h : Handle) : OpenCalls :=
  ((objects.get? h).map Object.openCalls).getD {}

theorem Heap.openCalls_of_get? {objects : Objects} {h : Handle} {o : Object} (found : objects.get? h = some o) :
    objects.openCalls h = o.openCalls := by
  rw [openCalls, found]
  rfl

theorem Heap.openCalls_of_get?_eq_none {objects : Objects} {h : Handle} (missing : objects.get? h = none) :
    objects.openCalls h = {} := by
  rw [openCalls, missing]
  rfl

namespace FrameStack

variable {α : Type} {look : Frame → α} {s t : FrameStack}

/-- Where all frames look the same, each of them does. -/
theorem map_get?_of_map (same : t.frames.map look = s.frames.map look) (i : Nat) :
    (t.get? i).map look = (s.get? i).map look := by
  have there := congrArg (·[i]?) same
  rwa [List.getElem?_map, List.getElem?_map] at there

theorem exists_of_map (same : t.frames.map look = s.frames.map look) {i : Nat} {f : Frame} (here : s.get? i = some f) :
    ∃ g, t.get? i = some g ∧ look g = look f :=
  Option.map_eq_some_iff.1 ((map_get?_of_map same i).trans (congrArg (Option.map look) here))

end FrameStack

/-- A frame apart from what it is doing. -/
def Frame.settled (f : Frame) : Frame :=
  { f with runsNext := false, runsEnsemble := false, unknownDue := false }

theorem FrameStack.settled_modify (stack : FrameStack) (i : Nat) {f g : Frame → Frame}
    (settles : ∀ frame, (f frame).settled = g frame.settled) :
    (stack.modify i f).frames.map Frame.settled = (stack.frames.map Frame.settled).modify i g := by
  refine List.ext_getElem? fun k => ?_
  simp only [modify, List.getElem?_map, List.getElem?_modify]
  split <;> simp [Function.comp_def, settles]

theorem FrameStack.settled_modify_of_get? (stack : FrameStack) (i : Nat) {f : Frame → Frame}
    (same : ∀ frame, stack.get? i = some frame → (f frame).settled = frame.settled) :
    (stack.frames.modify i f).map Frame.settled = stack.frames.map Frame.settled := by
  refine List.ext_getElem? fun k => ?_
  simp only [List.getElem?_map, List.getElem?_modify]
  split
  · next here =>
    subst here
    cases found : stack.frames[i]? with
    | none => rfl
    | some frame => exact congrArg some (same frame found)
  · cases stack.frames[k]? <;> rfl

/-! ## Handles that are kept -/

/-- No handle is given out again, and what keeps its handle stays a root or none. -/
structure Persists (a b : Objects) : Prop where
  spent : ∀ h, a.Spent h → b.Spent h
  before : ∀ h p, a.Spent h → b.get? h = some p → ∃ o, a.get? h = some o ∧ o.isRoot = p.isRoot

namespace Persists

variable {a b c : Objects}

theorem refl (a : Objects) : Persists a a :=
  ⟨fun _ spent => spent, fun _ p _ found => ⟨p, found, rfl⟩⟩

theorem trans (first : Persists a b) (second : Persists b c) : Persists a c := by
  refine ⟨fun h spent => second.spent h (first.spent h spent), fun h p spent found => ?_⟩
  obtain ⟨q, between, later⟩ := second.before h p (first.spent h spent) found
  obtain ⟨o, here, earlier⟩ := first.before h q spent between
  exact ⟨o, here, earlier.trans later⟩

theorem of_alike (alike : Heap.Alike Object.isRoot a b) : Persists a b := by
  refine ⟨fun h spent => spent.of_layout alike.layout, fun h p _ found => ?_⟩
  obtain ⟨o, here, same⟩ := alike.symm.exists_of_get? found
  exact ⟨o, here, same⟩

end Persists

/-! ## Marks that are kept -/

/-- Besides, what keeps its handle keeps its marks, and newcomers have none. -/
structure Undisturbed (a b : Objects) : Prop extends Persists a b where
  openCalls : ∀ h p, b.get? h = some p → p.openCalls = a.openCalls h

/-- What is kept at an object while it is undisturbed. -/
def Object.standing (o : Object) : Bool × OpenCalls :=
  (o.isRoot, o.openCalls)

namespace Undisturbed

variable {a b c : Objects}

theorem refl (a : Objects) : Undisturbed a a :=
  ⟨.refl a, fun _ _ found => (Heap.openCalls_of_get? found).symm⟩

theorem trans (first : Undisturbed a b) (second : Undisturbed b c) : Undisturbed a c := by
  refine ⟨first.toPersists.trans second.toPersists, fun h r found => ?_⟩
  rw [second.openCalls h r found]
  cases between : b.get? h with
  | some q => rw [Heap.openCalls_of_get? between, first.openCalls h q between]
  | none =>
    -- What resolves at last, and not in between, is new: it did not resolve at first either.
    cases here : a.get? h with
    | none => rw [Heap.openCalls_of_get?_eq_none between, Heap.openCalls_of_get?_eq_none here]
    | some o =>
      have spent : b.Spent h := first.spent h (Heap.spent_of_get? here)
      obtain ⟨q, found', -⟩ := second.before h r spent found
      rw [between] at found'
      cases found'

theorem of_standing (alike : Heap.Alike Object.standing a b) : Undisturbed a b := by
  refine ⟨.of_alike (alike.comp Prod.fst fun _ => rfl), fun h p found => ?_⟩
  obtain ⟨o, here, same⟩ := alike.symm.exists_of_get? found
  rw [Heap.openCalls_of_get? here]
  exact (congrArg Prod.snd same).symm

theorem release (a : Objects) (h : Handle) : Undisturbed a (a.release h) := by
  have kept : ∀ k p, (a.release h).get? k = some p → a.get? k = some p := by
    intro k p found
    rw [Heap.get?_release] at found
    split at found
    · cases found
    · exact found
  exact ⟨⟨fun k spent => spent.release h, fun k p _ found => ⟨p, kept k p found, rfl⟩⟩,
    fun k p found => (Heap.openCalls_of_get? (kept k p found)).symm⟩

/-- Making the same change of marks on both sides. -/
theorem modify (undisturbed : Undisturbed a b) (h : Handle) {f : Object → Object} {g : OpenCalls → OpenCalls}
    (marks : ∀ o, (f o).openCalls = g o.openCalls) (blank : g {} = {}) (root : ∀ o, (f o).isRoot = o.isRoot) :
    Undisturbed (a.modify h f) (b.modify h f) := by
  have changed : ∀ k, (a.modify h f).openCalls k = if k = h then g (a.openCalls k) else a.openCalls k := by
    intro k
    unfold Heap.openCalls
    rw [Heap.get?_modify]
    split
    · cases a.get? k with
      | none => exact blank.symm
      | some o => exact marks o
    · rfl
  refine ⟨⟨fun k spent => ?_, fun k p spent found => ?_⟩, fun k p found => ?_⟩
  · exact (undisturbed.spent k (spent.of_layout (Heap.layout_modify a h f).symm)).of_layout (Heap.layout_modify b h f)
  · have spent' : a.Spent k := spent.of_layout (Heap.layout_modify a h f).symm
    rw [Heap.get?_modify] at found ⊢
    by_cases here : k = h
    · rw [if_pos here] at found ⊢
      obtain ⟨q, there, rfl⟩ := Option.map_eq_some_iff.1 found
      obtain ⟨o, before, same⟩ := undisturbed.before k q spent' there
      exact ⟨f o, by rw [before]; rfl, by rw [root, root, same]⟩
    · rw [if_neg here] at found ⊢
      exact undisturbed.before k p spent' found
  · rw [changed]
    rw [Heap.get?_modify] at found
    by_cases here : k = h
    · rw [if_pos here] at found ⊢
      obtain ⟨q, there, rfl⟩ := Option.map_eq_some_iff.1 found
      rw [marks, undisturbed.openCalls k q there]
    · rw [if_neg here] at found ⊢
      exact undisturbed.openCalls k p found

end Undisturbed

/-! ## Objects that are held -/

/-- What frames hold resolves still, and is held still. -/
def Shelters (a b : Objects) : Prop :=
  ∀ h o, a.get? h = some o → 0 < o.holders → ∃ p, b.get? h = some p ∧ 0 < p.holders

namespace Shelters

variable {a b c : Objects}

theorem refl (a : Objects) : Shelters a a :=
  fun _ o found held => ⟨o, found, held⟩

theorem trans (first : Shelters a b) (second : Shelters b c) : Shelters a c := by
  intro h o found held
  obtain ⟨p, between, held'⟩ := first h o found held
  exact second h p between held'

theorem of_alike (alike : Heap.Alike Object.holders a b) : Shelters a b := by
  intro h o found held
  obtain ⟨p, there, same⟩ := alike.exists_of_get? found
  exact ⟨p, there, same ▸ held⟩

theorem of_arrives {h : Handle} {o : Object} (arrives : Arrives h o a b) : Shelters a b := by
  intro k p found held
  refine ⟨p, ?_, held⟩
  rw [arrives.get?, if_neg (arrives.spent k (Heap.spent_of_get? found)).1, found]

theorem release {h : Handle} (unheld : ∀ o, a.get? h = some o → o.holders = 0) : Shelters a (a.release h) := by
  intro k o found held
  refine ⟨o, ?_, held⟩
  rw [Heap.get?_release, if_neg, found]
  rintro rfl
  exact held.ne' (unheld o found)

/-- One more frame holds an object. -/
theorem held (a : Objects) (h : Handle) : Shelters a (a.modify h fun o => { o with holders := o.holders + 1 }) := by
  intro k o found held
  rw [Heap.get?_modify, found]
  split
  · exact ⟨_, rfl, Nat.succ_pos _⟩
  · exact ⟨o, rfl, held⟩

end Shelters

/-! ## Balanced worlds -/

/-- The second world has the marks of the first: the same frames but for what they are doing, the same counters of
guards and assertion checks, and at every object that is left the same positions and holders. -/
structure Balanced (v w : World) : Prop where
  objects : Undisturbed v.objects w.objects
  frames : w.stack.frames.map Frame.settled = v.stack.frames.map Frame.settled
  guardDepth : w.guardDepth = v.guardDepth
  assertionDepth : w.assertionDepth = v.assertionDepth

namespace Balanced

variable {u v w : World}

theorem refl (v : World) : Balanced v v :=
  ⟨.refl _, rfl, rfl, rfl⟩

theorem trans (first : Balanced u v) (second : Balanced v w) : Balanced u w where
  objects := first.objects.trans second.objects
  frames := second.frames.trans first.frames
  guardDepth := second.guardDepth.trans first.guardDepth
  assertionDepth := second.assertionDepth.trans first.assertionDepth

theorem of_objects (objects : Undisturbed v.objects w.objects) (stack : w.stack = v.stack)
    (guardDepth : w.guardDepth = v.guardDepth) (assertionDepth : w.assertionDepth = v.assertionDepth) : Balanced v w :=
  ⟨objects, by rw [stack], guardDepth, assertionDepth⟩

theorem exists_of_get? (balanced : Balanced v w) {i : Nat} {f : Frame} (found : w.stack.get? i = some f) :
    ∃ g, v.stack.get? i = some g ∧ g.settled = f.settled :=
  FrameStack.exists_of_map balanced.frames.symm found

/-- Making the same change of marks at an object on both sides. -/
theorem modify (balanced : Balanced v w) (h : Handle) {f : Object → Object} {g : OpenCalls → OpenCalls}
    (marks : ∀ o, (f o).openCalls = g o.openCalls) (blank : g {} = {}) (root : ∀ o, (f o).isRoot = o.isRoot) :
    Balanced { v with objects := v.objects.modify h f } { w with objects := w.objects.modify h f } :=
  ⟨balanced.objects.modify h marks blank root, balanced.frames, balanced.guardDepth, balanced.assertionDepth⟩

/-- Closing the innermost frame on both sides. -/
theorem pop (balanced : Balanced v w) : Balanced { v with stack := v.stack.pop } { w with stack := w.stack.pop } := by
  refine ⟨balanced.objects, ?_, balanced.guardDepth, balanced.assertionDepth⟩
  simp only [FrameStack.pop, List.map_dropLast, balanced.frames]

/-- Changing a frame on both sides. -/
theorem modifyFrame (balanced : Balanced v w) (i : Nat) {f g : Frame → Frame}
    (settles : ∀ frame, (f frame).settled = g frame.settled) :
    Balanced { v with stack := v.stack.modify i f } { w with stack := w.stack.modify i f } := by
  refine ⟨balanced.objects, ?_, balanced.guardDepth, balanced.assertionDepth⟩
  rw [FrameStack.settled_modify _ i settles, FrameStack.settled_modify _ i settles, balanced.frames]

end Balanced

/-- Besides, what is held is kept. -/
structure Poised (v w : World) : Prop extends Balanced v w where
  shelters : Shelters v.objects w.objects

namespace Poised

variable {u v w : World}

theorem refl (v : World) : Poised v v :=
  ⟨.refl v, .refl _⟩

theorem trans (first : Poised u v) (second : Poised v w) : Poised u w :=
  ⟨first.toBalanced.trans second.toBalanced, first.shelters.trans second.shelters⟩

/-- Making the same change of marks at an object on both sides. -/
theorem modify (poised : Poised v w) (h : Handle) {f : Object → Object} {g : OpenCalls → OpenCalls}
    (marks : ∀ o, (f o).openCalls = g o.openCalls) (blank : g {} = {}) (root : ∀ o, (f o).isRoot = o.isRoot)
    (fewer : ∀ calls : OpenCalls, 0 < (g calls).holders → 0 < calls.holders) :
    Poised { v with objects := v.objects.modify h f } { w with objects := w.objects.modify h f } := by
  refine ⟨poised.toBalanced.modify h marks blank root, fun k o found held => ?_⟩
  rw [Heap.get?_modify] at found ⊢
  by_cases here : k = h
  · rw [if_pos here] at found ⊢
    obtain ⟨q, before, rfl⟩ := Option.map_eq_some_iff.1 found
    have holders : ∀ o, (f o).holders = (g o.openCalls).holders := fun o => congrArg OpenCalls.holders (marks o)
    rw [holders] at held
    obtain ⟨p, after, -⟩ := poised.shelters k q before (fewer q.openCalls held)
    have same := poised.objects.openCalls k p after
    rw [Heap.openCalls_of_get? before] at same
    exact ⟨f p, by rw [after]; rfl, by rwa [holders, same]⟩
  · rw [if_neg here] at found ⊢
    exact poised.shelters k o found held

/-- Closing the innermost frame on both sides. -/
theorem pop (poised : Poised v w) : Poised { v with stack := v.stack.pop } { w with stack := w.stack.pop } :=
  ⟨poised.toBalanced.pop, poised.shelters⟩

/-- Changing a frame on both sides. -/
theorem modifyFrame (poised : Poised v w) (i : Nat) {f g : Frame → Frame}
    (settles : ∀ frame, (f frame).settled = g frame.settled) :
    Poised { v with stack := v.stack.modify i f } { w with stack := w.stack.modify i f } :=
  ⟨poised.toBalanced.modifyFrame i settles, poised.shelters⟩

end Poised

/-! ## Inside of what goes on -/

namespace FrameStack

/-- The number of open frames that are no guards'. -/
def calls (stack : FrameStack) : Nat :=
  stack.frames.countP (!·.isGuard)

theorem calls_push (stack : FrameStack) (f : Frame) :
    (stack.push f).calls = stack.calls + if f.isGuard then 0 else 1 := by
  cases guard : f.isGuard <;> simp [calls, push, guard]

theorem calls_pop_le (stack : FrameStack) : stack.pop.calls ≤ stack.calls :=
  (List.dropLast_sublist _).countP_le

theorem calls_le_depth (stack : FrameStack) : stack.calls ≤ stack.depth :=
  List.countP_le_length

theorem calls_modify (stack : FrameStack) (i : Nat) {f : Frame → Frame} (same : ∀ g, (f g).isGuard = g.isGuard) :
    (stack.modify i f).calls = stack.calls := by
  have guards : (stack.modify i f).frames.map Frame.isGuard = stack.frames.map Frame.isGuard := by
    refine List.ext_getElem? fun k => ?_
    simp only [modify, List.getElem?_map, List.getElem?_modify]
    split <;> simp [Function.comp_def, same]
  have counted := congrArg (List.countP (!·)) guards
  rwa [List.countP_map, List.countP_map] at counted

end FrameStack

/-- What holds inside of what began in `v`: what was held is kept, and no more frames are open but those of guards. -/
structure Inside (v w : World) : Prop where
  shelters : Shelters v.objects w.objects
  calls : w.stack.calls ≤ v.stack.calls

namespace Inside

variable {u v w : World}

theorem refl (v : World) : Inside v v :=
  ⟨.refl _, le_rfl⟩

theorem trans (first : Inside u v) (second : Inside v w) : Inside u w :=
  ⟨first.shelters.trans second.shelters, second.calls.trans first.calls⟩

end Inside

theorem Poised.inside {v w : World} (poised : Poised v w) : Inside v w := by
  have guards := congrArg (List.countP (!·.isGuard)) poised.frames
  rw [List.countP_map, List.countP_map] at guards
  exact ⟨poised.shelters, guards.le⟩

/-! ## Positions that stay where they are -/

/-- The positions of open calls in the orders of an object. -/
def Object.positions (o : Object) : List FilterPosition × List (Option Handle) :=
  (o.filterPositions, o.mixinPositions)

/-- The frames are those of the first world but for what they are doing, and what keeps its handle keeps what `view` shows
of its positions. -/
structure PositionsStand {κ : Type} (view : Object → κ) (v w : World) : Prop where
  frames : w.stack.frames.map Frame.settled = v.stack.frames.map Frame.settled
  spent : ∀ h, v.objects.Spent h → w.objects.Spent h
  positions : ∀ h p, v.objects.Spent h → w.objects.get? h = some p → ∃ o, v.objects.get? h = some o ∧ view p = view o

/-- What keeps its handle keeps its positions in its filter order. -/
abbrev FiltersStand (v w : World) : Prop :=
  PositionsStand Object.filterPositions v w

theorem Balanced.positionsStand {v w : World} (balanced : Balanced v w) : PositionsStand Object.positions v w := by
  refine ⟨balanced.frames, balanced.objects.spent, fun h p spent found => ?_⟩
  obtain ⟨o, before, -⟩ := balanced.objects.before h p spent found
  have same := (balanced.objects.openCalls h p found).trans (Heap.openCalls_of_get? before)
  exact ⟨o, before, congrArg (fun calls => (calls.filterPositions, calls.mixinPositions)) same⟩

namespace PositionsStand

variable {κ : Type} {view : Object → κ} {u v w : World}

theorem trans (first : PositionsStand view u v) (second : PositionsStand view v w) : PositionsStand view u w := by
  refine ⟨second.frames.trans first.frames, fun h spent => second.spent h (first.spent h spent), fun h p spent found => ?_⟩
  obtain ⟨q, between, later⟩ := second.positions h p (first.spent h spent) found
  obtain ⟨o, before, earlier⟩ := first.positions h q spent between
  exact ⟨o, before, later.trans earlier⟩

/-- All that is left of the first world and its frames is alike as far as positions go. -/
theorem of_alike (alike : Heap.Alike view v.objects w.objects)
    (frames : w.stack.frames.map Frame.settled = v.stack.frames.map Frame.settled) : PositionsStand view v w := by
  refine ⟨frames, fun h spent => spent.of_layout alike.layout, fun h p _ found => ?_⟩
  obtain ⟨o, before, same⟩ := alike.symm.exists_of_get? found
  exact ⟨o, before, same.symm⟩

/-- What can be read off what stands still stands. -/
theorem comp {κ' : Type} (φ : κ → κ') (stand : PositionsStand view v w) : PositionsStand (fun o => φ (view o)) v w := by
  refine ⟨stand.frames, stand.spent, fun h p spent found => ?_⟩
  obtain ⟨o, before, same⟩ := stand.positions h p spent found
  exact ⟨o, before, congrArg φ same⟩

theorem filters (stand : PositionsStand Object.positions v w) : FiltersStand v w :=
  stand.comp Prod.fst

end PositionsStand

theorem Balanced.filtersStand {v w : World} (balanced : Balanced v w) : FiltersStand v w :=
  balanced.positionsStand.filters

/-- Positions stay where they are, or the innermost frame shows and is plain, as a guard's is. -/
def PositionsRest (v w : World) : Prop :=
  PositionsStand Object.positions v w ∨ ∃ f, w.stack.top? = some f ∧ f.visible = true ∧ f.kind = .plain

theorem Balanced.positionsRest {v w : World} (balanced : Balanced v w) : PositionsRest v w :=
  .inl balanced.positionsStand

theorem PositionsRest.trans {u v w : World} (first : PositionsRest u v) (second : PositionsRest v w) :
    PositionsRest u w := by
  rcases second with second | plain
  · rcases first with first | ⟨f, top, shows, plain⟩
    · exact .inl (first.trans second)
    · have same : (w.stack.top?).map Frame.settled = (v.stack.top?).map Frame.settled := by
        rw [FrameStack.top?, FrameStack.top?, ← List.getLast?_map, ← List.getLast?_map, second.frames]
      rw [top] at same
      obtain ⟨g, top', settled⟩ := Option.map_eq_some_iff.1 same
      exact .inr ⟨g, top', (congrArg Frame.visible settled :).trans shows, (congrArg Frame.kind settled :).trans plain⟩
  · exact .inr plain

/-! ## Tallied worlds -/

/-- Whether a frame leaves marks at its receiver. -/
def Frame.marks (f : Frame) : Bool :=
  !f.isGuard || f.pushedMixinPosition || f.pushedFilterPosition

/-- What a frame's marks depend on. -/
def Frame.claim (f : Frame) : Handle × Bool × Bool × Bool :=
  (f.object, f.isGuard, f.pushedMixinPosition, f.pushedFilterPosition)

theorem Frame.claim_of_settled {frames others : List Frame}
    (same : others.map Frame.settled = frames.map Frame.settled) : others.map Frame.claim = frames.map Frame.claim := by
  have claims := congrArg (List.map Frame.claim) same
  rw [List.map_map, List.map_map] at claims
  exact claims

/-- The marks at `h` are those that the frames left: as many positions as frames pushed for it, and a holder at least for
every frame that is no guard's. -/
structure OpenCalls.Tally (h : Handle) (frames : List Frame) (calls : OpenCalls) : Prop where
  mixins : calls.mixinPositions.length = frames.countP fun f => f.object == h && f.pushedMixinPosition
  filters : calls.filterPositions.length = frames.countP fun f => f.object == h && f.pushedFilterPosition
  holders : (frames.countP fun f => f.object == h && !f.isGuard) ≤ calls.holders

namespace OpenCalls.Tally

variable {h : Handle} {frames : List Frame} {calls : OpenCalls}

/-- Frames are counted by what they claim. -/
theorem of_claims {others : List Frame} (tally : Tally h frames calls)
    (same : others.map Frame.claim = frames.map Frame.claim) : Tally h others calls := by
  have count : ∀ p : Handle × Bool × Bool × Bool → Bool,
      others.countP (fun f => p f.claim) = frames.countP fun f => p f.claim := by
    intro p
    have counted := congrArg (List.countP p) same
    simpa only [List.countP_map, Function.comp_def] using counted
  exact ⟨tally.mixins.trans (count fun c => c.1 == h && c.2.2.1).symm,
    tally.filters.trans (count fun c => c.1 == h && c.2.2.2).symm,
    (count fun c => c.1 == h && !c.2.1).trans_le tally.holders⟩

/-- Where no frame leaves marks, there are none. -/
theorem blank (unmarked : ∀ f ∈ frames, f.object = h → f.marks = false) : Tally h frames {} := by
  have none : ∀ p : Frame → Bool, (∀ f, p f = true → f.object = h ∧ f.marks = true) → frames.countP p = 0 := by
    refine fun p marked => List.countP_eq_zero.2 fun f member holds => ?_
    obtain ⟨here, marks⟩ := marked f holds
    rw [unmarked f member here] at marks
    cases marks
  refine ⟨(none _ ?_).symm, (none _ ?_).symm, (none _ ?_).le⟩ <;> simp +contextual [Frame.marks]

/-- A frame elsewhere changes nothing. -/
theorem push_other {f : Frame} (tally : Tally h frames calls) (other : f.object ≠ h) : Tally h (frames ++ [f]) calls := by
  refine ⟨?_, ?_, ?_⟩ <;> simp [other, tally.mixins, tally.filters, tally.holders]

/-- A frame that leaves no marks changes nothing. -/
theorem push_unmarked {f : Frame} (tally : Tally h frames calls) (unmarked : f.marks = false) :
    Tally h (frames ++ [f]) calls := by
  simp only [Frame.marks, Bool.or_eq_false_iff, Bool.not_eq_false'] at unmarked
  refine ⟨?_, ?_, ?_⟩ <;> simp [unmarked, tally.mixins, tally.filters, tally.holders]

/-- A frame opens at `h`, for which positions were pushed. -/
theorem push {f : Frame} {filter mixin : Bool} (tally : Tally h frames (calls.lowered filter mixin))
    (here : f.object = h) (noGuard : f.isGuard = false) (filters : f.pushedFilterPosition = filter)
    (mixins : f.pushedMixinPosition = mixin) (filtered : filter = true → calls.filterPositions ≠ [])
    (mixed : mixin = true → calls.mixinPositions ≠ []) :
    Tally h (frames ++ [f]) { calls with holders := calls.holders + 1 } := by
  have popped : ∀ {α : Type} (l : List α) (b : Bool), (b = true → l ≠ []) →
      l.length = (if b then l.tail else l).length + b.toNat := by
    intro α l b nonempty
    cases b with
    | false => rfl
    | true => cases l with
      | nil => exact absurd rfl (nonempty rfl)
      | cons a rest => rfl
  have pushed : ∀ b : Bool, (if b = true then 1 else 0) = b.toNat := by decide
  refine ⟨?_, ?_, ?_⟩
  · have lower := tally.mixins
    rw [OpenCalls.lowered] at lower
    simp [popped _ mixin mixed, lower, here, mixins, pushed]
  · have lower := tally.filters
    rw [OpenCalls.lowered] at lower
    simp [popped _ filter filtered, lower, here, filters, pushed]
  · have lower := tally.holders
    rw [OpenCalls.lowered] at lower
    simpa [here, noGuard] using lower

/-- The innermost frame closes, and the positions are popped that were pushed for it. -/
theorem pop {f : Frame} (tally : Tally h (frames ++ [f]) calls) (here : f.object = h) :
    Tally h frames (calls.lowered f.pushedFilterPosition f.pushedMixinPosition) := by
  obtain ⟨mixins, filters, holders⟩ := tally
  simp only [List.countP_append, List.countP_singleton, here, beq_self_eq_true, Bool.true_and] at mixins filters holders
  refine ⟨?_, ?_, ?_⟩
  · unfold OpenCalls.lowered
    cases pushed : f.pushedMixinPosition <;> simp_all
  · unfold OpenCalls.lowered
    cases pushed : f.pushedFilterPosition <;> simp_all
  · exact (Nat.le_add_right _ _).trans holders

theorem pop_other {f : Frame} (tally : Tally h (frames ++ [f]) calls) (other : f.object ≠ h) : Tally h frames calls := by
  obtain ⟨mixins, filters, holders⟩ := tally
  simp only [List.countP_append, List.countP_singleton] at mixins filters holders
  refine ⟨?_, ?_, ?_⟩ <;> simp_all

end OpenCalls.Tally

/-- The marks at all objects are those that the frames left, and frames only left marks at what was there already. -/
structure World.Tallied (w : World) : Prop where
  spent : ∀ f ∈ w.stack.frames, f.marks = true → w.objects.Spent f.object
  tally : ∀ h o, w.objects.get? h = some o → o.openCalls.Tally h w.stack.frames

theorem Frame.exists_of_claim {frames others : List Frame} (same : others.map Frame.claim = frames.map Frame.claim)
    {f : Frame} (member : f ∈ others) (marks : f.marks = true) :
    ∃ g ∈ frames, g.marks = true ∧ g.object = f.object := by
  have claimed : f.claim ∈ frames.map Frame.claim := same ▸ List.mem_map_of_mem member
  obtain ⟨g, there, claim⟩ := List.mem_map.1 claimed
  simp only [Frame.claim, Prod.mk.injEq] at claim
  obtain ⟨object, guard, mixin, filter⟩ := claim
  exact ⟨g, there, by rwa [Frame.marks, guard, mixin, filter], object⟩

theorem World.Tallied.modifyFrame {w : World} (tallied : w.Tallied) (i : Nat) {f : Frame → Frame}
    (claims : ∀ frame, (f frame).claim = frame.claim) : World.Tallied { w with stack := w.stack.modify i f } := by
  have same : (w.stack.modify i f).frames.map Frame.claim = w.stack.frames.map Frame.claim := by
    refine List.ext_getElem? fun k => ?_
    simp only [FrameStack.modify, List.getElem?_map, List.getElem?_modify]
    split <;> simp [Function.comp_def, claims]
  refine ⟨fun g member marks => ?_, fun h o found => (tallied.tally h o found).of_claims same⟩
  obtain ⟨g', there, marks', object⟩ := Frame.exists_of_claim same member marks
  exact object ▸ tallied.spent g' there marks'

theorem World.Tallied.of_balanced {v w : World} (tallied : v.Tallied) (balanced : Balanced v w) : w.Tallied := by
  have claims := Frame.claim_of_settled balanced.frames
  refine ⟨fun f member marks => ?_, fun h o found => ?_⟩
  · obtain ⟨g, there, marks', object⟩ := Frame.exists_of_claim claims member marks
    exact object ▸ balanced.objects.spent _ (tallied.spent g there marks')
  · rw [balanced.objects.openCalls h o found]
    cases before : v.objects.get? h with
    | some p =>
      rw [Heap.openCalls_of_get? before]
      exact (tallied.tally h p before).of_claims claims
    | none =>
      rw [Heap.openCalls_of_get?_eq_none before]
      refine (OpenCalls.Tally.blank fun f member here => ?_).of_claims claims
      -- What is new now was not spent before, so no frame left marks there.
      by_contra marks
      obtain ⟨q, there, -⟩ := balanced.objects.before h o
        (here ▸ tallied.spent f member (Bool.not_eq_false _ ▸ marks)) found
      rw [before] at there
      cases there

/-! ## Opening and closing frames -/

/-- An object with the positions popped that a frame pushed for it. -/
def Object.lowered (filter mixin : Bool) (o : Object) : Object :=
  { o with
    filterPositions := if filter then o.filterPositions.tail else o.filterPositions
    mixinPositions := if mixin then o.mixinPositions.tail else o.mixinPositions }

namespace World

/-- A frame is open and holds its receiver. -/
def opened (w : World) (f : Frame) : World :=
  { w with
    stack := w.stack.push f
    objects := w.objects.modify f.object fun o => { o with holders := o.holders + 1 } }

/-- The positions pushed for a frame of `h` are popped again. -/
def lowered (w : World) (h : Handle) (filter mixin : Bool) : World :=
  { w with objects := w.objects.modify h (Object.lowered filter mixin) }

end World

theorem Poised.lowered {v w : World} (poised : Poised v w) (h : Handle) (filter mixin : Bool) :
    Poised (v.lowered h filter mixin) (w.lowered h filter mixin) := by
  have blank : OpenCalls.lowered filter mixin {} = {} := by cases filter <;> cases mixin <;> rfl
  exact poised.modify h (g := OpenCalls.lowered filter mixin) (fun _ => rfl) blank (fun _ => rfl) fun _ held => held

theorem World.lowered_false (w : World) (h : Handle) : w.lowered h false false = w := by
  unfold lowered
  rw [Heap.modify_eq_self]
  exact fun _ _ => rfl

namespace World.Tallied

variable {v w : World} {f : Frame}

/-- A frame that leaves no marks is open. -/
theorem push_unmarked (tallied : v.Tallied) (unmarked : f.marks = false) (objects : w.objects = v.objects)
    (stack : w.stack = v.stack.push f) : w.Tallied := by
  refine ⟨fun g member marks => ?_, fun h o found => ?_⟩
  · rw [stack] at member
    rcases List.mem_append.1 member with earlier | last
    · exact objects ▸ tallied.spent g earlier marks
    · rw [List.mem_singleton.1 last, unmarked] at marks
      cases marks
  · rw [objects] at found
    rw [stack]
    exact (tallied.tally h o found).push_unmarked unmarked

/-- The innermost frame is closed, and the positions are popped that were pushed for it. -/
theorem pop (tallied : v.Tallied) (top : v.stack.top? = some f) :
    World.Tallied { v with
      stack := v.stack.pop
      objects := v.objects.modify f.object (Object.lowered f.pushedFilterPosition f.pushedMixinPosition) } := by
  have split : v.stack.frames = v.stack.pop.frames ++ [f] := (List.dropLast_append_getLast? f top).symm
  refine ⟨fun g member marks => ?_, fun h o found => ?_⟩
  · have before : g ∈ v.stack.frames := List.mem_of_mem_dropLast member
    exact (tallied.spent g before marks).of_layout (Heap.layout_modify _ _ _)
  · rw [Heap.get?_modify] at found
    by_cases here : h = f.object
    · rw [if_pos here] at found
      obtain ⟨p, there, rfl⟩ := Option.map_eq_some_iff.1 found
      have tally := tallied.tally h p there
      rw [split] at tally
      exact tally.pop here.symm
    · rw [if_neg here] at found
      have tally := tallied.tally h o found
      rw [split] at tally
      exact tally.pop_other (Ne.symm here)

end World.Tallied

/-- From `w`, positions were pushed for a frame of `h` that is not open yet. -/
structure Raised (h : Handle) (filter mixin : Bool) (w v : World) : Prop where
  poised : Poised w (v.lowered h filter mixin)
  filters : ∀ o, v.objects.get? h = some o → filter = true → o.filterPositions ≠ []
  mixins : ∀ o, v.objects.get? h = some o → mixin = true → o.mixinPositions ≠ []

namespace Raised

variable {h : Handle} {filter mixin : Bool} {w v : World}

theorem of_poised (poised : Poised w v) : Raised h false false w v :=
  ⟨(World.lowered_false v h).symm ▸ poised, fun _ _ => nofun, fun _ _ => nofun⟩

theorem pushFilter (raised : Raised h false mixin w v) (position : FilterPosition) : Raised h true mixin w { v with
    objects := v.objects.modify h fun o => { o with filterPositions := position :: o.filterPositions } } := by
  refine ⟨?_, fun o found _ => ?_, fun o found => ?_⟩
  · have popped := Heap.modify_modify v.objects h (fun o => { o with filterPositions := position :: o.filterPositions })
      (Object.lowered true mixin)
    rw [World.lowered, popped]
    exact raised.poised
  · rw [Heap.get?_modify, if_pos rfl] at found
    obtain ⟨p, -, rfl⟩ := Option.map_eq_some_iff.1 found
    exact List.cons_ne_nil _ _
  · rw [Heap.get?_modify, if_pos rfl] at found
    obtain ⟨p, there, rfl⟩ := Option.map_eq_some_iff.1 found
    exact raised.mixins p there

theorem pushMixin (raised : Raised h filter false w v) (position : Option Handle) : Raised h filter true w { v with
    objects := v.objects.modify h fun o => { o with mixinPositions := position :: o.mixinPositions } } := by
  refine ⟨?_, fun o found => ?_, fun o found _ => ?_⟩
  · have popped := Heap.modify_modify v.objects h (fun o => { o with mixinPositions := position :: o.mixinPositions })
      (Object.lowered filter true)
    rw [World.lowered, popped]
    exact raised.poised
  · rw [Heap.get?_modify, if_pos rfl] at found
    obtain ⟨p, there, rfl⟩ := Option.map_eq_some_iff.1 found
    exact raised.filters p there
  · rw [Heap.get?_modify, if_pos rfl] at found
    obtain ⟨p, -, rfl⟩ := Option.map_eq_some_iff.1 found
    exact List.cons_ne_nil _ _

/-- Positions that were pushed stay while worlds are poised. -/
theorem trans {u : World} (raised : Raised h filter mixin w v) (spent : w.objects.Spent h) (poised : Poised v u) :
    Raised h filter mixin w u := by
  have here : ∀ o, u.objects.get? h = some o → ∃ p, v.objects.get? h = some p ∧ o.openCalls = p.openCalls := by
    intro o found
    have kept : v.objects.Spent h :=
      (raised.poised.objects.spent h spent).of_layout (Heap.layout_modify v.objects h (Object.lowered filter mixin)).symm
    obtain ⟨p, there, -⟩ := poised.objects.before h o kept found
    exact ⟨p, there, (poised.objects.openCalls h o found).trans (Heap.openCalls_of_get? there)⟩
  refine ⟨raised.poised.trans (poised.lowered h filter mixin), fun o found => ?_, fun o found => ?_⟩
  · obtain ⟨p, there, same⟩ := here o found
    have positions : o.filterPositions = p.filterPositions := congrArg OpenCalls.filterPositions same
    rw [positions]
    exact raised.filters p there
  · obtain ⟨p, there, same⟩ := here o found
    have positions : o.mixinPositions = p.mixinPositions := congrArg OpenCalls.mixinPositions same
    rw [positions]
    exact raised.mixins p there

theorem inside (raised : Raised h filter mixin w v) : Inside w v := by
  have lowers : Heap.Alike Object.holders v.objects (v.lowered h filter mixin).objects := .modify _ h fun _ => rfl
  exact raised.poised.inside.trans ⟨.of_alike lowers.symm, le_rfl⟩

/-- The frame opens. -/
theorem tallied_opened (raised : Raised h filter mixin w v) (tallied : w.Tallied) (spent : w.objects.Spent h) {f : Frame}
    (here : f.object = h) (noGuard : f.isGuard = false) (filters : f.pushedFilterPosition = filter)
    (mixins : f.pushedMixinPosition = mixin) : (v.opened f).Tallied := by
  have lower := tallied.of_balanced raised.poised.toBalanced
  have layout : (v.opened f).objects.layout = (v.lowered h filter mixin).objects.layout :=
    (Heap.layout_modify _ _ _).trans (Heap.layout_modify _ _ _).symm
  refine ⟨fun g member marks => ?_, fun k o found => ?_⟩
  · rcases List.mem_append.1 member with earlier | last
    · exact (lower.spent g earlier marks).of_layout layout
    · rw [List.mem_singleton.1 last, here]
      exact (raised.poised.objects.spent h spent).of_layout layout
  · have lowers : (v.lowered h filter mixin).objects.get? k =
        if k = h then (v.objects.get? k).map (Object.lowered filter mixin) else v.objects.get? k :=
      Heap.get?_modify _ _ _ _
    change (v.objects.modify f.object _).get? k = some o at found
    rw [Heap.get?_modify, here] at found
    by_cases same : k = h
    · rw [if_pos same] at found lowers
      obtain ⟨p, there, rfl⟩ := Option.map_eq_some_iff.1 found
      rw [there] at lowers
      rw [same] at there
      have tally : (p.openCalls.lowered filter mixin).Tally k v.stack.frames := lower.tally k _ lowers
      exact tally.push (here.trans same.symm) noGuard filters mixins (raised.filters p there) (raised.mixins p there)
    · rw [if_neg same] at found lowers
      exact (lower.tally k o (lowers.trans found)).push_other fun there => same (there.symm.trans here)

end Raised

/-! ## Moving positions -/

/-- The marks with the innermost positions set. -/
def OpenCalls.restored (filter : Option FilterKey) (mixin : Option Handle) (calls : OpenCalls) : OpenCalls :=
  { calls with
    filterPositions := calls.filterPositions.modifyHead ({ · with current := filter })
    mixinPositions := calls.mixinPositions.modifyHead fun _ => mixin }

def Object.restored (filter : Option FilterKey) (mixin : Option Handle) (o : Object) : Object :=
  { o with
    filterPositions := o.filterPositions.modifyHead ({ · with current := filter })
    mixinPositions := o.mixinPositions.modifyHead fun _ => mixin }

/-- The innermost positions at `h` are set. -/
def World.restored (w : World) (h : Handle) (filter : Option FilterKey) (mixin : Option Handle) : World :=
  { w with objects := w.objects.modify h (Object.restored filter mixin) }

theorem Poised.restored {v w : World} (poised : Poised v w) (h : Handle) (filter : Option FilterKey)
    (mixin : Option Handle) : Poised (v.restored h filter mixin) (w.restored h filter mixin) :=
  poised.modify h (g := OpenCalls.restored filter mixin) (fun _ => rfl) rfl (fun _ => rfl) fun _ held => held

/-- From `w`, the innermost positions at `h` may have moved; they are going to be set back. -/
def Shifted (h : Handle) (filter : Option FilterKey) (mixin : Option Handle) (w v : World) : Prop :=
  Poised w (v.restored h filter mixin)

namespace Shifted

variable {h : Handle} {filter : Option FilterKey} {mixin : Option Handle} {u v w : World}

/-- At first nothing has moved. -/
theorem start (w : World) (h : Handle) :
    Shifted h ((Invocation.filterPosition? w h).bind (·.current)) (Invocation.mixinPosition w h) w w := by
  have still : ∀ o, w.objects.get? h = some o → o.restored ((Invocation.filterPosition? w h).bind (·.current))
      (Invocation.mixinPosition w h) = o := by
    intro o found
    have filters : o.filterPositions.modifyHead
        ({ · with current := (Invocation.filterPosition? w h).bind (·.current) }) = o.filterPositions := by
      rw [Invocation.filterPosition?, found, Option.bind_some]
      cases o.filterPositions <;> rfl
    have mixins : (o.mixinPositions.modifyHead fun _ => Invocation.mixinPosition w h) = o.mixinPositions := by
      rw [Invocation.mixinPosition, Invocation.mixinPositions, found, Option.map_some, Option.getD_some]
      cases o.mixinPositions <;> rfl
    rw [Object.restored, filters, mixins]
  rw [Shifted, World.restored, Heap.modify_eq_self _ _ still]
  exact .refl w

theorem trans (shifted : Shifted h filter mixin w v) (poised : Poised v u) : Shifted h filter mixin w u :=
  Poised.trans shifted (poised.restored h filter mixin)

theorem setFilter (shifted : Shifted h filter mixin w v) (position : Option FilterKey) : Shifted h filter mixin w { v with
    objects := v.objects.modify h fun o =>
      { o with filterPositions := o.filterPositions.modifyHead ({ · with current := position }) } } := by
  have again : ∀ o : Object, Object.restored filter mixin
      { o with filterPositions := o.filterPositions.modifyHead ({ · with current := position }) } =
      o.restored filter mixin := by
    intro o
    simp [Object.restored, List.modifyHead_modifyHead, Function.comp_def]
  rw [Shifted, World.restored, Heap.modify_modify]
  simp only [again]
  exact shifted

theorem setMixin (shifted : Shifted h filter mixin w v) (position : Option Handle) : Shifted h filter mixin w { v with
    objects := v.objects.modify h fun o =>
      { o with mixinPositions := o.mixinPositions.modifyHead fun _ => position } } := by
  have again : ∀ o : Object, Object.restored filter mixin
      { o with mixinPositions := o.mixinPositions.modifyHead fun _ => position } = o.restored filter mixin := by
    intro o
    simp [Object.restored, List.modifyHead_modifyHead, Function.comp_def]
  rw [Shifted, World.restored, Heap.modify_modify]
  simp only [again]
  exact shifted

theorem spent (shifted : Shifted h filter mixin w v) {k : Handle} (spent : w.objects.Spent k) : v.objects.Spent k :=
  (shifted.objects.spent k spent).of_layout (Heap.layout_modify v.objects h (Object.restored filter mixin)).symm

theorem inside (shifted : Shifted h filter mixin w v) : Inside w v := by
  have restores : Heap.Alike Object.holders v.objects (v.restored h filter mixin).objects := .modify _ h fun _ => rfl
  exact (Poised.inside shifted).trans ⟨.of_alike restores.symm, le_rfl⟩

/-- Moving positions leaves their number alone. -/
theorem tallied (shifted : Shifted h filter mixin w v) (tallied : w.Tallied) : v.Tallied := by
  have still := tallied.of_balanced shifted.toBalanced
  have layout : (v.restored h filter mixin).objects.layout = v.objects.layout := Heap.layout_modify _ _ _
  refine ⟨fun f member marks => (still.spent f member marks).of_layout layout.symm, fun k o found => ?_⟩
  have after : (v.restored h filter mixin).objects.get? k = some (if k = h then o.restored filter mixin else o) := by
    rw [World.restored, Heap.get?_modify, found]
    split <;> rfl
  have tally := still.tally k _ after
  split at tally
  · obtain ⟨mixins, filters, holders⟩ := tally
    refine ⟨Eq.trans ?_ mixins, Eq.trans ?_ filters, holders⟩ <;>
      simp [Object.openCalls, Object.restored]
  · exact tally

end Shifted

end DynamicObjects
