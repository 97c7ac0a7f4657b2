import DynamicObjects.Proofs.Interception.Lineup
import DynamicObjects.Proofs.Runs.Numbering
import DynamicObjects.Proofs.Runs.OpenCalls

/-!
# Lineups that stand

While a lineup stands, its orders are kept and nothing that it is made of changes. Searches along it, with guards that
are constant, find the links of its chain and change nothing but which precedence orders are kept.
-/
namespace DynamicObjects

open Invocation

/-- What lineups are made of, at one object. -/
def Object.lining (o : Object) :=
  (o.deleted, o.cls, o.methods, o.filterOrder, o.mixinOrder, o.classPart.map fun c => (c.methods, c.supers))

/-- The same without the orders that are kept. -/
def Object.placing (o : Object) :=
  (o.deleted, o.cls, o.methods, o.classPart.map fun c => (c.methods, c.supers))

/-- What an object gives to others if it is a class: its methods for instances, and its superclasses. -/
def Object.teaching (o : Object) :=
  o.classPart.map fun c => (c.methods, c.supers)

section teaching

variable {a b : Objects} (alike : Heap.Alike Object.teaching a b)

include alike

theorem Heap.class?_of_teaching (h : Handle) :
    (b.class? h).map (fun c => (c.methods, c.supers)) = (a.class? h).map fun c => (c.methods, c.supers) := by
  have same := alike.view h
  unfold Heap.class?
  cases before : a.get? h <;> cases after : b.get? h <;> simp_all [Object.teaching]

theorem Heap.supersOf_of_teaching : b.supersOf = a.supersOf := by
  funext h
  have same := congrArg (Option.map Prod.snd) (Heap.class?_of_teaching alike h)
  simp only [Option.map_map, Function.comp_def] at same
  rw [Heap.supersOf, Heap.supersOf, same]

theorem Heap.taught_of_teaching (h : Handle) (name : String) :
    (b.class? h).bind (·.methods.get? name) = (a.class? h).bind (·.methods.get? name) := by
  have same := Heap.class?_of_teaching alike h
  cases before : a.class? h <;> cases after : b.class? h <;> simp_all

end teaching

namespace Invocation

/-- Where heaps are good, a guard comes to the same verdict every time, and changes nothing. -/
def GuardConstant (good : Objects → Prop) (host : Host) (lets : Predicate → Bool) (p : Predicate) : Prop :=
  ∃ value : Value, value.truthy = lets p ∧ ∀ w, good w.objects → (host.eval .none p.test).exec w = some (.ok value, w)

/-- The verdicts that searches along mixins go by: while a guard is open, no others are asked. -/
def verdicts (w : World) (lets : Predicate → Bool) : Predicate → Bool :=
  if w.guardDepth = 0 then lets else fun _ => true

variable {good : Objects → Prop} {host : Host} {lets : Predicate → Bool} {w : World}

theorem exec_passes_of_constant (holds : good w.objects) {guard : Option Predicate}
    (constant : ∀ p, guard = some p → GuardConstant good host lets p) (h : Handle) (name : String) :
    (passes host h name guard).exec w = some (.ok (guard.all lets), w) := by
  cases guard with
  | none => rfl
  | some p =>
    obtain ⟨value, verdict, evaluates⟩ := constant p rfl
    obtain ⟨u, opens⟩ : ∃ u, u = { w with
      stack := w.stack.push { object := h, methodName := name, isGuard := true }
      guardDepth := w.guardDepth + 1 } := ⟨_, rfl⟩
    have settled := Action.exec_settle (host.eval .none p.test) u
    rw [evaluates u (by rw [opens]; exact holds)] at settled
    unfold passes evalGuard
    rw [Action.exec_bind_of_ok (Action.exec_modify _ w), ← opens, Action.exec_bind_of_ok settled,
      Action.exec_bind_of_ok (Action.exec_modify _ u), opens]
    simp only [FrameStack.pop, FrameStack.push, List.dropLast_concat, Nat.add_sub_cancel]
    rw [Option.all_some, ← verdict]
    rfl

/-- Whether a guard is a literal with this verdict. -/
def literally (lets : Predicate → Bool) (p : Predicate) : Bool :=
  match p.test with
  | .literal value => value.truthy == lets p
  | _ => false

/-- Literal guards are constant. -/
theorem guardConstant_of_literally {p : Predicate} (depth : Nat) (literal : literally lets p = true) :
    GuardConstant good (hostWithin good (depth + 1)) lets p := by
  unfold literally at literal
  split at literal
  · next value test =>
    refine ⟨value, beq_iff_eq.1 literal, fun w holds => ?_⟩
    rw [test]
    exact Action.exec_within_eq_some.2 ⟨holds, holds, rfl⟩
  · cases literal

end Invocation

namespace Lineup

/-- A lineup is located where its receiver, the own method of the name and the classes are as they were, whether or not
orders are kept. -/
structure Located (line : Lineup) (a : Objects) : Prop where
  receiver : ∃ o, a.get? line.receiver = some o ∧ o.deleted = false ∧ o.isClass = line.isClass ∧ o.cls = line.cls ∧
    o.methods.get? line.name = line.own
  classes : Hierarchy.Linearizes a.supersOf line.cls line.classes
  taught : ∀ c ∈ line.mixins.map (·.target) ++ line.classes,
    (a.class? c).bind (·.methods.get? line.name) = line.taught c

/-- A lineup stands while the receiver keeps its orders, and its class, its own method and those of the classes are as
they were. -/
structure Stands (line : Lineup) (a : Objects) : Prop where
  receiver : ∃ o, a.get? line.receiver = some o ∧ o.deleted = false ∧ o.isClass = line.isClass ∧ o.cls = line.cls ∧
    o.methods.get? line.name = line.own ∧ o.filterOrder = some line.filters ∧ o.mixinOrder = some line.mixins
  classes : Hierarchy.Linearizes a.supersOf line.cls line.classes
  taught : ∀ c ∈ line.mixins.map (·.target) ++ line.classes,
    (a.class? c).bind (·.methods.get? line.name) = line.taught c

/-- The lineup stands, and there is room for more objects. -/
def Keeps (line : Lineup) (a : Objects) : Prop :=
  a.HandlesRemain ∧ line.Stands a

/-- The predicates that guard filters and mixins. -/
def guards (line : Lineup) : List Predicate :=
  line.filters.filterMap (·.guard) ++ line.mixins.filterMap (·.guard)

/-- While the lineup stands, guards come to the same verdict every time, and change nothing. -/
def GuardsConstant (line : Lineup) (host : Host) (lets : Predicate → Bool) : Prop :=
  ∀ p ∈ line.guards, ∃ value : Value, value.truthy = lets p ∧
    ∀ w, line.Keeps w.objects → (host.eval .none p.test).exec w = some (.ok value, w)

/-- In a world, guards come to their verdicts and change nothing. -/
structure Judges (line : Lineup) (host : Host) (lets : Predicate → Bool) (w : World) : Prop where
  filters : ∀ entry ∈ line.filters,
    (passes host line.receiver entry.name entry.guard).exec w = some (.ok (entry.guard.all lets), w)
  mixins : ∀ m ∈ line.mixins, (passes host line.receiver line.name (if w.guardDepth = 0 then m.guard else none)).exec w =
    some (.ok (m.guard.all (verdicts w lets)), w)

variable {line : Lineup} {lets : Predicate → Bool} {host : Host} {loose : Handle → Prop} {v w : World}
  {good : Objects → Prop}

theorem Stands.located {a : Objects} (stands : line.Stands a) : line.Located a := by
  obtain ⟨o, found, deleted, isClass, cls, own, -⟩ := stands.receiver
  exact ⟨⟨o, found, deleted, isClass, cls, own⟩, stands.classes, stands.taught⟩

theorem Located.of_alike {a b : Objects} (located : line.Located a) (alike : Heap.Alike Object.placing a b) :
    line.Located b := by
  have teaching : Heap.Alike Object.teaching a b := alike.comp (·.2.2.2) fun _ => rfl
  obtain ⟨o, found, deleted, isClass, cls, own⟩ := located.receiver
  obtain ⟨p, there, same⟩ := alike.exists_of_get? found
  simp only [Object.placing, Prod.mk.injEq] at same
  obtain ⟨deleted', cls', methods', part⟩ := same
  have isClass' : p.isClass = o.isClass := by
    have some := congrArg Option.isSome part
    rwa [Option.isSome_map, Option.isSome_map] at some
  refine ⟨⟨p, there, deleted'.trans deleted, isClass'.trans isClass, cls'.trans cls, methods' ▸ own⟩, ?_,
    fun c member => ?_⟩
  · rw [Heap.supersOf_of_teaching teaching]
    exact located.classes
  · rw [Heap.taught_of_teaching teaching, located.taught c member]

theorem Located.filled {a b : Objects} (located : line.Located a) (filled : Filled a b) : line.Located b :=
  located.of_alike (filled.alike.comp Object.placing fun o => by
    simp [Object.placing, Object.withoutPrecedence, Function.comp_def])

theorem Stands.of_alike {a b : Objects} (stands : line.Stands a) (alike : Heap.Alike Object.lining a b) :
    line.Stands b := by
  have located := stands.located.of_alike (alike.comp (fun l => (l.1, l.2.1, l.2.2.1, l.2.2.2.2.2)) fun _ => rfl)
  refine ⟨?_, located.classes, located.taught⟩
  obtain ⟨o, found, -, -, -, -, filters, mixins⟩ := stands.receiver
  obtain ⟨p, there, same⟩ := alike.exists_of_get? found
  obtain ⟨q, found', deleted, isClass, cls, own⟩ := located.receiver
  cases found'.symm.trans there
  exact ⟨p, there, deleted, isClass, cls, own, (congrArg (·.2.2.2.1) same).trans filters,
    (congrArg (·.2.2.2.2.1) same).trans mixins⟩

theorem Keeps.of_alike {a b : Objects} (keeps : line.Keeps a) (alike : Heap.Alike Object.lining a b) : line.Keeps b :=
  ⟨keeps.1.of_layout alike.layout, keeps.2.of_alike alike⟩

theorem Keeps.filled {a b : Objects} (keeps : line.Keeps a) (filled : Filled a b) : line.Keeps b :=
  keeps.of_alike (filled.alike.comp Object.lining fun o => by
    simp [Object.lining, Object.withoutPrecedence, Function.comp_def])

theorem Keeps.modify {a : Objects} (keeps : line.Keeps a) (h : Handle) {f : Object → Object}
    (same : ∀ o, (f o).lining = o.lining) : line.Keeps (a.modify h f) :=
  keeps.of_alike (.modify a h same)

/-! ## Orders that are kept -/

theorem Stands.exists_live (stands : line.Stands w.objects) : ∃ o, w.live? line.receiver = some o ∧
    o.isClass = line.isClass ∧ o.cls = line.cls ∧ o.methods.get? line.name = line.own ∧
    o.filterOrder = some line.filters ∧ o.mixinOrder = some line.mixins := by
  obtain ⟨o, found, deleted, rest⟩ := stands.receiver
  exact ⟨o, World.live?_eq_some_iff.2 ⟨found, deleted⟩, rest⟩

theorem Stands.isClass (stands : line.Stands w.objects) : w.isClass line.receiver = line.isClass := by
  obtain ⟨o, live, isClass, -⟩ := stands.exists_live
  rw [World.isClass, live]
  exact isClass

theorem Stands.exec_filterOrder (stands : line.Stands w.objects) :
    (Interception.filterOrder line.receiver).exec w = (.ok line.filters, w) := by
  obtain ⟨o, live, -, -, -, filters, -⟩ := stands.exists_live
  unfold Interception.filterOrder
  rw [Update.exec_bind_of_ok (Update.exec_object_of_live live), filters]
  rfl

theorem Stands.exec_mixinOrder (stands : line.Stands w.objects) :
    (Interception.mixinOrder line.receiver).exec w = (.ok line.mixins, w) := by
  obtain ⟨o, live, -, -, -, -, mixins⟩ := stands.exists_live
  unfold Interception.mixinOrder
  rw [Update.exec_bind_of_ok (Update.exec_object_of_live live), mixins]
  rfl

theorem Located.exists_live (located : line.Located w.objects) : ∃ o, w.live? line.receiver = some o ∧
    o.isClass = line.isClass ∧ o.cls = line.cls ∧ o.methods.get? line.name = line.own := by
  obtain ⟨o, found, deleted, rest⟩ := located.receiver
  exact ⟨o, World.live?_eq_some_iff.2 ⟨found, deleted⟩, rest⟩

theorem Located.isClass_cls (located : line.Located w.objects) (well : WellFormed loose w) :
    w.isClass line.cls = true := by
  obtain ⟨o, live, -, cls, -⟩ := located.exists_live
  exact cls ▸ well.classed.cls _ o live

theorem Located.exec_precedenceOrder (located : line.Located w.objects) (well : WellFormed loose w) :
    ∃ b, (Update.precedenceOrder line.cls).exec w = (.ok line.classes, { w with objects := b }) ∧ Filled w.objects b := by
  obtain ⟨order, b, done, lin, filled⟩ := well.exec_precedenceOrder (located.isClass_cls well)
  rw [lin.unique located.classes] at done
  exact ⟨b, done, filled⟩

/-! ## Searches -/

/-- The first filter that takes part is found. -/
theorem exec_searchFilters_of_passes {entries : List FilterEntry}
    (judged : ∀ entry ∈ entries,
      (passes host line.receiver entry.name entry.guard).exec w = some (.ok (entry.guard.all lets), w)) :
    (searchFilters host line.receiver line.isClass entries).exec w =
      some (.ok (entries.find? (line.admits lets)), w) := by
  induction entries with
  | nil => rfl
  | cons entry rest ih =>
    have later := ih fun entry member => judged entry (List.mem_cons_of_mem _ member)
    unfold searchFilters
    by_cases excluded : (entry.method.isPrivate || (entry.method.classOnly && !line.isClass)) = true
    · have refused : line.admits lets entry = false := by
        unfold admits
        revert excluded
        cases entry.method.isPrivate <;> cases entry.method.classOnly <;> cases line.isClass <;> simp
      rw [if_pos excluded, List.find?_cons_of_neg (by simp [refused]), later]
    · have verdict : line.admits lets entry = entry.guard.all lets := by
        unfold admits
        revert excluded
        cases entry.method.isPrivate <;> cases entry.method.classOnly <;> cases line.isClass <;> simp
      rw [if_neg excluded, Action.exec_bind_of_ok (judged entry List.mem_cons_self), ← verdict]
      cases admitted : line.admits lets entry with
      | false =>
        rw [if_neg Bool.false_ne_true, List.find?_cons_of_neg (by simp [admitted]), later]
      | true =>
        rw [if_pos rfl, List.find?_cons_of_pos admitted]
        rfl

theorem exec_searchFilters_of_constant (holds : good w.objects) {entries : List FilterEntry}
    (constant : ∀ entry ∈ entries, ∀ p, entry.guard = some p → GuardConstant good host lets p) :
    (searchFilters host line.receiver line.isClass entries).exec w =
      some (.ok (entries.find? (line.admits lets)), w) :=
  exec_searchFilters_of_passes fun entry member => exec_passes_of_constant holds (constant entry member) _ _

/-- The first mixin that takes part is found. -/
theorem Located.exec_searchMixins_of_passes (located : line.Located w.objects) {mixins : List Mixin}
    (listed : ∀ m ∈ mixins, m ∈ line.mixins)
    (judged : ∀ m ∈ mixins, (passes host line.receiver line.name (if w.guardDepth = 0 then m.guard else none)).exec w =
      some (.ok (m.guard.all (verdicts w lets)), w)) :
    (searchMixins host line.receiver line.name mixins).exec w =
      some (.ok (mixins.findSome? (line.mixesIn (verdicts w lets))), w) := by
  induction mixins with
  | nil => rfl
  | cons m rest ih =>
    have later := ih (fun m member => listed m (List.mem_cons_of_mem _ member))
      fun m member => judged m (List.mem_cons_of_mem _ member)
    have taught : ((w.objects.class? m.target).bind (·.methods.get? line.name)).filter (!·.isPrivate) =
        line.teaches m.target := by
      rw [located.taught m.target (List.mem_append_left _ (List.mem_map_of_mem (listed m List.mem_cons_self)))]
      rfl
    unfold searchMixins
    rw [Action.exec_bind_of_ok (Action.exec_get w)]
    simp only [taught]
    cases found : line.teaches m.target with
    | none =>
      have skipped : line.mixesIn (verdicts w lets) m = none := by simp [mixesIn, found]
      rw [List.findSome?_cons_of_isNone (by simp [skipped])]
      exact later
    | some method =>
      dsimp only
      rw [Action.exec_bind_of_ok (judged m List.mem_cons_self)]
      cases verdict : m.guard.all (verdicts w lets) with
      | false =>
        have skipped : line.mixesIn (verdicts w lets) m = none := by simp [mixesIn, verdict]
        rw [List.findSome?_cons_of_isNone (by simp [skipped])]
        exact later
      | true =>
        have here : line.mixesIn (verdicts w lets) m = some (m.target, method) := by simp [mixesIn, verdict, found]
        rw [List.findSome?_cons_of_isSome (by simp [here]), here]
        rfl

theorem exec_passes_of_verdicts (holds : good w.objects) {m : Mixin}
    (constant : ∀ p, m.guard = some p → GuardConstant good host lets p) (h : Handle) (name : String) :
    (passes host h name (if w.guardDepth = 0 then m.guard else none)).exec w =
      some (.ok (m.guard.all (verdicts w lets)), w) := by
  unfold verdicts
  split
  · exact exec_passes_of_constant holds constant _ _
  · cases m.guard <;> rfl

theorem Located.exec_searchMixins (located : line.Located w.objects) (holds : good w.objects) {mixins : List Mixin}
    (listed : ∀ m ∈ mixins, m ∈ line.mixins)
    (constant : ∀ m ∈ mixins, ∀ p, m.guard = some p → GuardConstant good host lets p) :
    (searchMixins host line.receiver line.name mixins).exec w =
      some (.ok (mixins.findSome? (line.mixesIn (verdicts w lets))), w) :=
  located.exec_searchMixins_of_passes listed fun m member =>
    exec_passes_of_verdicts holds (constant m member) line.receiver line.name

/-- Where the lineup stands, constant guards come to their verdicts. -/
theorem GuardsConstant.judges (constant : line.GuardsConstant host lets) (keeps : line.Keeps w.objects) :
    line.Judges host lets w where
  filters entry member := exec_passes_of_constant keeps
    (fun p guard => constant p (List.mem_append_left _ (List.mem_filterMap.2 ⟨entry, member, guard⟩))) _ _
  mixins m member := exec_passes_of_verdicts keeps
    (fun p guard => constant p (List.mem_append_right _ (List.mem_filterMap.2 ⟨m, member, guard⟩))) _ _

section judges

variable (judges : line.Judges host lets w)

include judges

theorem exec_searchFilters {entries : List FilterEntry} (listed : ∀ entry ∈ entries, entry ∈ line.filters) :
    (searchFilters host line.receiver line.isClass entries).exec w =
      some (.ok (entries.find? (line.admits lets)), w) :=
  exec_searchFilters_of_passes fun entry member => judges.filters entry (listed entry member)

theorem exec_searchMixins (located : line.Located w.objects) (unguarded : w.guardDepth = 0) {mixins : List Mixin}
    (listed : ∀ m ∈ mixins, m ∈ line.mixins) :
    (searchMixins host line.receiver line.name mixins).exec w =
      some (.ok (mixins.findSome? (line.mixesIn lets)), w) := by
  have searched := located.exec_searchMixins_of_passes listed fun m member => judges.mixins m (listed m member)
  rwa [verdicts, if_pos unguarded] at searched

end judges

/-- The first class that teaches the name is found. -/
theorem Located.exec_searchClasses (located : line.Located w.objects) (well : WellFormed loose w)
    {classes : List Handle} (listed : ∀ c ∈ classes, c ∈ line.classes) : (searchClasses line.name classes).exec w =
      (.ok (classes.findSome? fun c => (line.teaches c).map fun method => (method, some c)), w) := by
  induction classes with
  | nil => rfl
  | cons c rest ih =>
    have later := ih fun c member => listed c (List.mem_cons_of_mem _ member)
    have member := listed c List.mem_cons_self
    obtain ⟨o, part, live, isPart⟩ := World.isClass_iff.1
      (well.isClass_of_reaches (located.isClass_cls well) (located.classes.mem_iff.1 member))
    have taught : (part.methods.get? line.name).filter (!·.isPrivate) = line.teaches c := by
      have same := located.taught c (List.mem_append_right _ member)
      rw [Heap.class?, (World.live?_eq_some_iff.1 live).1, Option.bind_some, isPart, Option.bind_some] at same
      rw [same]
      rfl
    unfold searchClasses
    rw [Update.exec_bind_of_ok (Update.exec_classPart_of_live live isPart), taught, List.findSome?_cons]
    cases line.teaches c with
    | none => exact later
    | some method => rfl

/-- The class order is searched from its start, or behind a class. -/
theorem Located.exec_searchClassOrder (located : line.Located w.objects) (well : WellFormed loose w)
    {after : Option Handle} {rest : List Handle}
    (behind : line.classes.drop (indexAfter line.classes after (· == ·)) = rest) :
    ∃ b, Filled w.objects b ∧ (searchClassOrder line.cls line.name after).exec w =
      (.ok (rest.findSome? fun c => (line.teaches c).map fun method => (method, some c)), { w with objects := b }) := by
  obtain ⟨b, done, filled⟩ := located.exec_precedenceOrder well
  refine ⟨b, filled, ?_⟩
  have well' : WellFormed loose { w with objects := b } := well.filled filled rfl rfl
  unfold searchClassOrder
  rw [Update.exec_bind_of_ok done, behind]
  exact (located.filled filled : line.Located { w with objects := b }.objects).exec_searchClasses well'
    fun c member => List.mem_of_mem_drop (behind ▸ member)

/-- Without filters and mixins, the own method and then the classes are searched. -/
theorem Located.exec_searchObject (located : line.Located w.objects) (well : WellFormed loose w) :
    ∃ b found, Filled w.objects b ∧
      (searchObject line.receiver line.name).exec w = (.ok found, { w with objects := b }) ∧
      found.map (fun (method, definer) => { method, definer, kind := .plain, name := line.name }) =
        line.plainChain.head? := by
  obtain ⟨o, live, -, cls, own⟩ := located.exists_live
  unfold searchObject ownMethod?
  rw [Update.exec_bind_of_ok (Update.exec_object_of_live live), own, plainChain, List.head?_append,
    Option.head?_toList, ownLink, cls]
  cases line.own.filter (!·.isPrivate) with
  | some method => exact ⟨w.objects, _, .refl well.kept, rfl, rfl⟩
  | none =>
    have behind : line.classes.drop (indexAfter line.classes none (· == ·)) = line.classes := rfl
    obtain ⟨b, filled, searched⟩ := located.exec_searchClassOrder well behind
    exact ⟨b, _, filled, searched, by rw [Option.map_none, Option.none_or, head?_classLinks]⟩

end Lineup

end DynamicObjects
