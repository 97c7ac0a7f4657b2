import DynamicObjects.Interception.FilterOrder
import DynamicObjects.Proofs.Interception.Dependence
import DynamicObjects.Proofs.Structure.Orders

/-!
# What orders are computed from

Two well-formed worlds in which the classes an object draws on look alike come to the same mixin order for the object;
if the filters and the methods of these names look alike, too, they come to the same filter order. The two computations
are followed side by side.
-/
namespace DynamicObjects

variable {α β γ δ ι : Type} {loose tight : Handle → Prop} {v w : World}

/-- Whatever precedence orders are kept, both updates end well, with related outcomes, and change nothing but which
precedence orders are kept. -/
def Together (v w : World) (related : α → β → Prop) (first : Update α) (second : Update β) : Prop :=
  ∀ a b, Filled v.objects a → Filled w.objects b → ∃ x y a' b',
    first.exec { v with objects := a } = (.ok x, { v with objects := a' }) ∧ Filled v.objects a' ∧
    second.exec { w with objects := b } = (.ok y, { w with objects := b' }) ∧ Filled w.objects b' ∧ related x y

namespace Together

variable {first : Update α} {second : Update β} {related : α → β → Prop}

theorem pure {x : α} {y : β} (holds : related x y) :
    Together v w related (Pure.pure x : Update α) (Pure.pure y : Update β) :=
  fun a b left right => ⟨x, y, a, b, rfl, left, rfl, right, holds⟩

theorem bind {f : α → Update γ} {g : β → Update δ} {after : γ → δ → Prop}
    (start : Together v w related first second) (rest : ∀ x y, related x y → Together v w after (f x) (g y)) :
    Together v w after (first >>= f) (second >>= g) := by
  intro a b left right
  obtain ⟨x, y, a', b', one, left, two, right, holds⟩ := start a b left right
  rw [Update.exec_bind_of_ok one, Update.exec_bind_of_ok two]
  exact rest x y holds a' b' left right

theorem mono {weaker : α → β → Prop} (both : Together v w related first second)
    (less : ∀ x y, related x y → weaker x y) : Together v w weaker first second := by
  intro a b left right
  obtain ⟨x, y, a', b', one, left, two, right, holds⟩ := both a b left right
  exact ⟨x, y, a', b', one, left, two, right, less x y holds⟩

/-- The worlds at a moment are those from the start, but for the precedence orders that are kept. -/
theorem get_bind {f : World → Update γ} {g : World → Update δ} {after : γ → δ → Prop}
    (rest : ∀ a b, Filled v.objects a → Filled w.objects b →
      Together v w after (f { v with objects := a }) (g { w with objects := b })) :
    Together v w after (get >>= f) (get >>= g) := by
  intro a b left right
  rw [Update.exec_bind_of_ok (Update.exec_get _), Update.exec_bind_of_ok (Update.exec_get _)]
  exact rest a b left right a b left right

theorem foldlM (related : α → β → Prop) {f : α → ι → Update α} {g : β → ι → Update β} (is : List ι)
    (each : ∀ i ∈ is, ∀ x y, related x y → Together v w related (f x i) (g y i)) {x : α} {y : β}
    (start : related x y) : Together v w related (is.foldlM f x) (is.foldlM g y) := by
  induction is generalizing x y with
  | nil => exact pure start
  | cons i is ih =>
    rw [List.foldlM_cons, List.foldlM_cons]
    refine (each i List.mem_cons_self x y start).bind fun x y holds => ?_
    exact ih (fun j member => each j (List.mem_cons_of_mem i member)) holds

theorem ite {c : Prop} [Decidable c] {first' : Update α} {second' : Update β}
    (yes : c → Together v w related first second) (no : ¬c → Together v w related first' second') :
    Together v w related (if c then first else first') (if c then second else second') := by
  split
  · next holds => exact yes holds
  · next fails => exact no fails

/-- In the end both outcomes are the same. -/
theorem fst_eq {first second : Update α} (both : Together v w Eq first second)
    (left : Hierarchy.OrdersKept v.objects) (right : Hierarchy.OrdersKept w.objects) :
    ∃ x, (first.exec v).1 = .ok x ∧ (second.exec w).1 = .ok x := by
  obtain ⟨x, y, a', b', one, -, two, -, same⟩ := both v.objects w.objects (.refl left) (.refl right)
  exact ⟨x, congrArg Prod.fst one, by rw [same]; exact congrArg Prod.fst two⟩

end Together

namespace Filled

variable {a : Objects}

theorem live? (filled : Filled v.objects a) (h : Handle) :
    (World.live? { v with objects := a } h).map Object.withoutPrecedence = (v.live? h).map Object.withoutPrecedence :=
  Heap.Alike.live? (v := v) (w := { v with objects := a }) filled.alike fun x y same =>
    (congrArg Object.deleted same : x.withoutPrecedence.deleted = y.withoutPrecedence.deleted)

theorem exists_live (filled : Filled v.objects a) {h : Handle} {o : Object} (live : v.live? h = some o) :
    ∃ p, World.live? { v with objects := a } h = some p ∧ p.withoutPrecedence = o.withoutPrecedence := by
  have same := filled.live? h
  rw [live] at same
  exact Option.map_eq_some_iff.1 same

theorem isClass (filled : Filled v.objects a) (h : Handle) : World.isClass { v with objects := a } h = v.isClass h :=
  Heap.Alike.isClass (v := v) (w := { v with objects := a }) filled.identity

theorem isRoot (filled : Filled v.objects a) (h : Handle) : World.isRoot { v with objects := a } h = v.isRoot h := by
  have same := congrArg (Option.any Object.isRoot) (filled.live? h)
  simp only [Option.any_map] at same
  exact same

theorem totalSlots (filled : Filled v.objects a) : a.totalSlots = v.objects.totalSlots :=
  filled.alike.totalSlots_eq

/-- The class part of a live class, but for its precedence order. -/
theorem exec_classPart (filled : Filled v.objects a) {c : Handle} {o : Object} {part : ClassPart}
    (live : v.live? c = some o) (isPart : o.classPart = some part) : ∃ part',
      (Update.classPart c).exec { v with objects := a } = (.ok part', { v with objects := a }) ∧
      { part' with order := none } = { part with order := none } := by
  obtain ⟨p, live', same⟩ := filled.exists_live live
  have parts := congrArg Object.classPart same
  simp only [Object.withoutPrecedence, isPart, Option.map_some] at parts
  obtain ⟨part', isPart', rest⟩ := Option.map_eq_some_iff.1 parts
  exact ⟨part', Update.exec_classPart_of_live live' isPart', rest⟩

end Filled

/-- In `v` and in `w`, some live classes have the same sources, registrations and methods of some names, and their
sources are among them. -/
structure Alongside (names : String → Prop) (among : Handle → Prop) (v w : World) : Prop where
  isClass : ∀ c, among c → v.isClass c = true
  closed : ∀ c, among c → ∀ d ∈ v.sources c, among d
  lineage : ∀ c, among c → (w.objects.get? c).map (Object.lineage names) = (v.objects.get? c).map (Object.lineage names)

theorem Untouched.alongside {names : String → Prop} {h : Handle} {o p : Object} (well : WellFormed loose v)
    (untouched : Untouched names v w h o p) : Alongside names (v.Draws h) v w :=
  ⟨fun _ => well.isClass_of_draws, fun _ draws _ link => draws.tail link, untouched.lineage⟩

theorem Alongside.refl {names : String → Prop} (well : WellFormed loose v) (h : Handle) :
    Alongside names (v.Draws h) v v :=
  ⟨fun _ => well.isClass_of_draws, fun _ draws _ link => draws.tail link, fun _ _ => rfl⟩

/-- `x` and `y` are read as the class part of `c`, one in each world. -/
structure PartsOf (names : String → Prop) (among : Handle → Prop) (v : World) (c : Handle) (x y : ClassPart) :
    Prop where
  mixins : y.registrations.mixins = x.registrations.mixins
  filters : y.registrations.filters = x.registrations.filters
  methods : y.methods.under names = x.methods.under names
  targets : ∀ m ∈ x.registrations.mixins, among m.target
  registered : ∃ part, v.classPart? c = some part ∧ x.registrations = part.registrations

theorem PartsOf.get?_methods {names : String → Prop} {among : Handle → Prop} {c : Handle} {x y : ClassPart}
    (parts : PartsOf names among v c x y) {n : String} (known : names n) : y.methods.get? n = x.methods.get? n :=
  congrFun parts.methods ⟨n, known⟩

section alongside

variable {names : String → Prop} {among : Handle → Prop} (alongside : Alongside names among v w)

namespace Alongside

include alongside

theorem isClass_after {c : Handle} (member : among c) : w.isClass c = true := by
  obtain ⟨o, part, live, isPart⟩ := World.isClass_iff.1 (alongside.isClass c member)
  obtain ⟨p, part', live', isPart', -⟩ := World.exists_live_of_lineage (alongside.lineage c member) live isPart
  exact World.isClass_iff.2 ⟨p, part', live', isPart'⟩

theorem isRoot {c : Handle} (member : among c) : w.isRoot c = v.isRoot c := by
  obtain ⟨o, part, live, isPart⟩ := World.isClass_iff.1 (alongside.isClass c member)
  obtain ⟨p, part', live', -, same, -⟩ := World.exists_live_of_lineage (alongside.lineage c member) live isPart
  simp [World.isRoot, live, live', same]

theorem supersOf {c : Handle} (member : among c) : w.objects.supersOf c = v.objects.supersOf c :=
  Heap.supersOf_of_lineage (alongside.lineage c member)

theorem of_reaches {c k : Handle} (member : among c) (path : Hierarchy.Reaches v.objects.supersOf c k) : among k := by
  induction path with
  | refl => exact member
  | tail _ link ih => exact alongside.closed _ ih _ (List.mem_append_left _ link)

theorem mixin {c : Handle} (member : among c) {o : Object} {part : ClassPart} (live : v.live? c = some o)
    (isPart : o.classPart = some part) {m : Mixin} (registered : m ∈ part.registrations.mixins) : among m.target := by
  refine alongside.closed c member m.target (List.mem_append_right _ ?_)
  simp only [World.targetsOf, World.mixinsOf, World.registrations?, live, Option.bind_some, Object.registrations?,
    isPart, Option.map_some, Option.getD_some, List.mem_map]
  exact ⟨m, registered, rfl⟩

theorem mem_handles {c : Handle} (member : among c) : c ∈ v.objects.handles ∧ c ∈ w.objects.handles := by
  obtain ⟨o, -, live, -⟩ := World.isClass_iff.1 (alongside.isClass c member)
  obtain ⟨p, -, live', -⟩ := World.isClass_iff.1 (alongside.isClass_after member)
  exact ⟨Heap.mem_handles (World.live?_eq_some_iff.1 live).1, Heap.mem_handles (World.live?_eq_some_iff.1 live').1⟩

/-- The class parts of a class in both worlds. -/
theorem classPart {c : Handle} (member : among c) :
    Together v w (PartsOf names among v c) (Update.classPart c) (Update.classPart c) := by
  intro a b left right
  obtain ⟨o, part, live, isPart⟩ := World.isClass_iff.1 (alongside.isClass c member)
  obtain ⟨p, part', live', isPart', -, mixins, filters, methods⟩ :=
    World.exists_live_of_lineage (alongside.lineage c member) live isPart
  obtain ⟨x, one, sameX⟩ := left.exec_classPart live isPart
  obtain ⟨y, two, sameY⟩ := right.exec_classPart live' isPart'
  have contentX : x.registrations = part.registrations ∧ x.methods = part.methods :=
    ⟨(congrArg ClassPart.registrations sameX :), (congrArg ClassPart.methods sameX :)⟩
  have contentY : y.registrations = part'.registrations ∧ y.methods = part'.methods :=
    ⟨(congrArg ClassPart.registrations sameY :), (congrArg ClassPart.methods sameY :)⟩
  refine ⟨x, y, a, b, one, left, two, right, ?_⟩
  exact {
    mixins := by rw [contentY.1, contentX.1, mixins]
    filters := by rw [contentY.1, contentX.1, filters]
    methods := by rw [contentY.2, contentX.2, methods]
    targets := by
      rw [contentX.1]
      exact fun m registered => alongside.mixin member live isPart registered
    registered := ⟨part, by simp [World.classPart?, live, isPart], contentX.1⟩ }

variable (before : WellFormed loose v) (after : WellFormed tight w)

include before after

/-- Both worlds have the same precedence order for a class. -/
theorem precedenceOrder {c : Handle} (member : among c) :
    Together v w (fun x y => x = y ∧ ∀ k ∈ x, among k) (Update.precedenceOrder c) (Update.precedenceOrder c) := by
  intro a b left right
  have wellA : WellFormed loose { v with objects := a } := before.filled left rfl rfl
  have wellB : WellFormed tight { w with objects := b } := after.filled right rfl rfl
  obtain ⟨x, a', one, linX, moreX⟩ := wellA.exec_precedenceOrder
    ((left.isClass c).trans (alongside.isClass c member))
  obtain ⟨y, b', two, linY, moreY⟩ := wellB.exec_precedenceOrder
    ((right.isClass c).trans (alongside.isClass_after member))
  have supersA : a.supersOf = v.objects.supersOf := left.alike.supersOf
  have supersB : b.supersOf = w.objects.supersOf := right.alike.supersOf
  change Hierarchy.Linearizes a.supersOf c x at linX
  change Hierarchy.Linearizes b.supersOf c y at linY
  rw [supersA] at linX
  rw [supersB] at linY
  have inside : ∀ k ∈ x, among k := fun k listed => alongside.of_reaches member (linX.mem_iff.1 listed)
  have moved : Hierarchy.Linearizes w.objects.supersOf c x :=
    linX.congr fun k path => alongside.supersOf (alongside.of_reaches member path)
  exact ⟨x, y, a', b', one, left.trans moreX, two, right.trans moreY, moved.unique linY, inside⟩

end Alongside

namespace Interception

/-- Going on from `start`, both have gathered the same, classes among `among`. -/
structure Continues (among : Handle → Prop) (start first second : Gathered) : Prop where
  same : first = second
  grown : ∀ c ∈ start.expanded, c ∈ first.expanded
  inside : ∀ m ∈ first.mixins, among m.target

theorem Continues.refl {g : Gathered} (inside : ∀ m ∈ g.mixins, among m.target) : Continues among g g g :=
  ⟨rfl, fun _ old => old, inside⟩

/-- The classes among `among` that are not expanded yet. -/
noncomputable def unexpanded (among : Handle → Prop) (v : World) (gathered : Gathered) : Nat :=
  open Classical in (v.objects.handles.filter fun c => among c ∧ c ∉ gathered.expanded).card

omit alongside in
theorem unexpanded_mono {g g' : Gathered} (more : ∀ c ∈ g.expanded, c ∈ g'.expanded) :
    unexpanded among v g' ≤ unexpanded among v g := by
  classical
  refine Finset.card_le_card fun c member => ?_
  obtain ⟨listed, inside, fresh⟩ := Finset.mem_filter.1 member
  exact Finset.mem_filter.2 ⟨listed, inside, fun old => fresh (more c old)⟩

include alongside

theorem unexpanded_cons_lt {g : Gathered} {c : Handle} (member : among c) (fresh : c ∉ g.expanded) :
    unexpanded among v { g with expanded := c :: g.expanded } < unexpanded among v g := by
  classical
  refine Finset.card_lt_card (Finset.ssubset_iff_subset_ne.2 ⟨fun k inside => ?_, fun same => ?_⟩)
  · obtain ⟨listed, inside, new⟩ := Finset.mem_filter.1 inside
    exact Finset.mem_filter.2 ⟨listed, inside, fun old => new (List.mem_cons_of_mem c old)⟩
  · have here : c ∈ v.objects.handles.filter fun k => among k ∧ k ∉ g.expanded :=
      Finset.mem_filter.2 ⟨(alongside.mem_handles member).1, member, fresh⟩
    rw [← same] at here
    exact (Finset.mem_filter.1 here).2.2 List.mem_cons_self

theorem unexpanded_lt (g : Gathered) :
    unexpanded among v g < v.objects.totalSlots + 1 ∧ unexpanded among v g < w.objects.totalSlots + 1 := by
  classical
  have slots := v.objects.card_handles_le
  have slots' := w.objects.card_handles_le
  have first : unexpanded among v g ≤ v.objects.handles.card := Finset.card_filter_le _ _
  have second : unexpanded among v g ≤ w.objects.handles.card :=
    Finset.card_le_card fun c listed => (alongside.mem_handles (Finset.mem_filter.1 listed).2.1).2
  exact ⟨by omega, by omega⟩

variable (before : WellFormed loose v) (after : WellFormed tight w)

include before after

/-- Gathering comes to the same in both worlds, by induction on the fuel, which is enough for the classes left. -/
theorem together_gather (m n : Nat) (g : Gathered) (registered : List Mixin)
    (targets : ∀ r ∈ registered, among r.target) (gathered : ∀ r ∈ g.mixins, among r.target)
    (enough : unexpanded among v g < m) (enough' : unexpanded among v g < n) :
    Together v w (Continues among g) (gather m g registered) (gather n g registered) := by
  induction m generalizing n g registered with
  | zero => exact absurd enough (Nat.not_lt_zero _)
  | succ m ih =>
    cases n with
    | zero => exact absurd enough' (Nat.not_lt_zero _)
    | succ n =>
    unfold gather
    apply Together.foldlM (Continues among g) registered
    case start => exact .refl gathered
    rintro r member x _ ⟨rfl, grown, found⟩
    apply Together.get_bind
    intro a b left right
    have target := targets r member
    rw [left.isClass, right.isClass, alongside.isClass _ target, alongside.isClass_after target]
    apply (alongside.precedenceOrder before after target).bind
    rintro order _ ⟨rfl, inside⟩
    apply Together.foldlM (Continues among g) order
    case start => exact ⟨rfl, grown, found⟩
    rintro c listed x _ ⟨rfl, grown, found⟩
    have here := inside c listed
    have places : ∀ p q, Continues among g p q → Together v w (Continues among g)
        (pure { p with mixins := p.mixins ++ [⟨c, r.guard⟩] } : Update Gathered)
        (pure { q with mixins := q.mixins ++ [⟨c, r.guard⟩] }) := by
      rintro p _ ⟨rfl, grown, found⟩
      refine .pure ⟨rfl, grown, fun m member => ?_⟩
      rcases List.mem_append.1 member with old | new
      · exact found m old
      · rw [List.mem_singleton.1 new]
        exact here
    apply Together.get_bind
    intro a b left right
    rw [left.isRoot, right.isRoot, alongside.isRoot here]
    refine .ite (fun _ => .pure ⟨rfl, grown, found⟩) fun _ => ?_
    apply (alongside.classPart here).bind
    intro part part' parts
    rw [parts.mixins]
    have stays : Together v w (Continues among g) (pure x : Update Gathered) (pure x) := .pure ⟨rfl, grown, found⟩
    refine .ite (fun _ => stays.bind places) fun expand => ?_
    have fresh : c ∉ x.expanded := fun old => expand (by simp [old])
    have fewer := unexpanded_cons_lt alongside here fresh
    have most : unexpanded among v x ≤ unexpanded among v g := unexpanded_mono grown
    have deeper := ih n { x with expanded := c :: x.expanded } _ parts.targets found (by omega) (by omega)
    apply deeper.bind
    rintro p _ ⟨rfl, kept, more⟩
    exact places p p ⟨rfl, fun k old => kept k (List.mem_cons_of_mem c (grown k old)), more⟩

omit alongside before after in
theorem mem_of_mem_flatten {all : List Mixin} {own : List Handle} {mixins : List Mixin} {m : Mixin}
    (member : m ∈ flatten all own mixins) : ∃ m' ∈ mixins, m'.target = m.target := by
  induction mixins with
  | nil => cases member
  | cons first later ih =>
    unfold flatten at member
    split at member
    · obtain ⟨m', there, same⟩ := ih member
      exact ⟨m', List.mem_cons_of_mem first there, same⟩
    · rcases List.mem_cons.1 member with rfl | later
      · exact ⟨first, List.mem_cons_self, rfl⟩
      · obtain ⟨m', there, same⟩ := ih later
        exact ⟨m', List.mem_cons_of_mem first there, same⟩

/-- Both worlds come to the same mixin order, of classes among `among`. -/
theorem together_computeMixinOrder (registered : List Mixin) (cls : Handle)
    (targets : ∀ r ∈ registered, among r.target) (start : among cls) :
    Together v w (fun x y => x = y ∧ ∀ m ∈ x, among m.target) (computeMixinOrder registered cls)
      (computeMixinOrder registered cls) := by
  unfold computeMixinOrder
  apply (alongside.precedenceOrder before after start).bind
  rintro order _ ⟨rfl, inside⟩
  apply Together.get_bind
  intro a b left right
  have slots : ∀ g : Gathered, unexpanded among v g < a.totalSlots + 1 ∧ unexpanded among v g < b.totalSlots + 1 := by
    rw [left.totalSlots, right.totalSlots]
    exact fun g => unexpanded_lt alongside g
  let grouped (x y : Gathered) : Prop := x = y ∧ ∀ m ∈ x.mixins, among m.target
  have gathers : ∀ (g : Gathered) registered, (∀ r ∈ registered, among r.target) →
      (∀ m ∈ g.mixins, among m.target) → Together v w grouped
        (gather (a.totalSlots + 1) g registered) (gather (b.totalSlots + 1) g registered) := by
    intro g registered targets gathered
    exact (together_gather alongside before after _ _ g registered targets gathered (slots g).1 (slots g).2).mono
      fun _ _ both => ⟨both.same, both.inside⟩
  apply (gathers {} registered targets (by simp)).bind
  rintro g _ ⟨rfl, gathered⟩
  have along : Together v w grouped
      (order.foldlM (fun gathered c => do
        gather (a.totalSlots + 1) gathered (← Update.classPart c).registrations.mixins) g)
      (order.foldlM (fun gathered c => do
        gather (b.totalSlots + 1) gathered (← Update.classPart c).registrations.mixins) g) := by
    apply Together.foldlM grouped order
    case start => exact ⟨rfl, gathered⟩
    rintro c listed x _ ⟨rfl, found⟩
    apply (alongside.classPart (inside c listed)).bind
    intro part part' parts
    rw [parts.mixins]
    exact gathers x _ parts.targets found
  apply along.bind
  rintro x _ ⟨rfl, found⟩
  refine .pure ⟨rfl, fun m member => ?_⟩
  obtain ⟨m', there, same⟩ := mem_of_mem_flatten member
  exact same ▸ found m' there

theorem together_classImplementations {c : Handle} (member : among c) {name : String} (known : names name) :
    Together v w Eq (classImplementations c name) (classImplementations c name) := by
  unfold classImplementations
  refine (alongside.precedenceOrder before after member).bind fun order order' ⟨same, inside⟩ => ?_
  subst same
  refine .foldlM Eq order (fun k listed x y same => ?_) rfl
  subst same
  refine (alongside.classPart (inside k listed)).bind fun part part' parts => ?_
  rw [parts.get?_methods known]
  cases part.methods.get? name with
  | none => exact .pure rfl
  | some method => exact .pure rfl

omit before after in
theorem together_firstDefiner {name : String} (known : names name) (classes : List Handle)
    (inside : ∀ c ∈ classes, among c) :
    Together v w Eq (firstDefiner name classes) (firstDefiner name classes) := by
  induction classes with
  | nil => exact .pure rfl
  | cons c rest ih =>
    have member := inside c List.mem_cons_self
    unfold firstDefiner
    refine (alongside.classPart member).bind fun part part' parts => ?_
    unfold NameTable.contains
    rw [parts.get?_methods known]
    exact .ite (fun _ => .pure rfl) fun _ => ih fun k later => inside k (List.mem_cons_of_mem c later)

theorem together_classHead {c : Handle} (member : among c) {name : String} (known : names name) :
    Together v w Eq (classHead c name) (classHead c name) := by
  unfold classHead
  refine (alongside.precedenceOrder before after member).bind fun order order' ⟨same, inside⟩ => ?_
  subst same
  exact (together_firstDefiner alongside known order inside).bind fun p q same => .pure (by rw [same])

end Interception

/-- The filter order of an object, computed as if no order were kept. -/
def Interception.freshFilterOrder (h : Handle) : Update (List FilterEntry) := do
  let o ← Update.object h
  let mixins ← computeMixinOrder o.registrations.mixins o.cls
  computeFilterOrder h (mixins.map (·.target))

/-- Besides, `h` looks alike in both worlds, and the names include those of all filters it may meet. -/
structure Likewise (names : String → Prop) (among : Handle → Prop) (v w : World) (h : Handle) : Prop where
  named : ∀ c part, among c → v.classPart? c = some part → ∀ f ∈ part.registrations.filters, names f.target
  object : ∃ o p, v.live? h = some o ∧ w.live? h = some p ∧ p.station names = o.station names ∧ among o.cls ∧
    (∀ m ∈ o.registrations.mixins, among m.target) ∧ ∀ f ∈ o.registrations.filters, names f.target

/-- `x` and `y` are read as the object that is looked at, one in each world. -/
structure ObjectsOf (names : String → Prop) (among : Handle → Prop) (x y : Object) : Prop where
  station : y.station names = x.station names
  drawn : among x.cls
  targets : ∀ m ∈ x.registrations.mixins, among m.target
  named : ∀ f ∈ x.registrations.filters, names f.target

namespace ObjectsOf

variable {names : String → Prop} {among : Handle → Prop} {x y : Object} (objects : ObjectsOf names among x y)

include objects

theorem cls : y.cls = x.cls :=
  congrArg (·.1) objects.station

theorem mixins : y.registrations.mixins = x.registrations.mixins :=
  congrArg (·.2.1) objects.station

theorem filters : y.registrations.filters = x.registrations.filters :=
  congrArg (·.2.2.1) objects.station

theorem get?_methods {n : String} (known : names n) : y.methods.get? n = x.methods.get? n :=
  congrFun (congrArg (·.2.2.2) objects.station) ⟨n, known⟩

end ObjectsOf

section likewise

variable {h : Handle} (likewise : Likewise names among v w h)

include likewise

omit alongside in
theorem Likewise.filterNamed {c : Handle} (member : among c) {x y : ClassPart} (parts : PartsOf names among v c x y)
    (f : Filter) (registered : f ∈ x.registrations.filters) : names f.target := by
  obtain ⟨part, here, registrations⟩ := parts.registered
  exact likewise.named c part member here f (registrations ▸ registered)

omit alongside in
theorem Likewise.objects : Together v w (ObjectsOf names among) (Update.object h) (Update.object h) := by
  intro a b left right
  obtain ⟨o, p, live, live', station, member, targets, named⟩ := likewise.object
  obtain ⟨x, liveX, sameX⟩ := left.exists_live live
  obtain ⟨y, liveY, sameY⟩ := right.exists_live live'
  have clsX : x.cls = o.cls := (congrArg Object.cls sameX :)
  have registrationsX : x.registrations = o.registrations := (congrArg Object.registrations sameX :)
  have stationX : x.station names = o.station names := (congrArg (Object.station names) sameX :)
  have stationY : y.station names = p.station names := (congrArg (Object.station names) sameY :)
  refine ⟨x, y, a, b, Update.exec_object_of_live liveX, left, Update.exec_object_of_live liveY, right, ?_⟩
  exact {
    station := by rw [stationY, station, stationX]
    drawn := clsX ▸ member
    targets := by rwa [registrationsX]
    named := by rwa [registrationsX] }

namespace Interception

include alongside

variable (before : WellFormed loose v) (after : WellFormed tight w)

include before after

theorem together_objectImplementations {name : String} (known : names name) :
    Together v w Eq (objectImplementations h name) (objectImplementations h name) := by
  unfold objectImplementations
  refine likewise.objects.bind fun x y objects => ?_
  simp only [objects.cls, objects.get?_methods known]
  refine (together_classImplementations alongside before after objects.drawn known).bind fun p q same => ?_
  exact .pure (by rw [same])

theorem together_objectHead {name : String} (known : names name) :
    Together v w Eq (objectHead h name) (objectHead h name) := by
  unfold objectHead
  refine likewise.objects.bind fun x y objects => ?_
  unfold NameTable.contains
  rw [objects.cls, objects.get?_methods known]
  exact .ite (fun _ => .pure rfl) fun _ => together_classHead alongside before after objects.drawn known

omit likewise alongside before after in
theorem together_guardAmong (entry : FilterEntry) {head : String → Update (Option (Option Handle))}
    (heads : ∀ name, names name → Together v w Eq (head name) (head name)) (filters : List Filter)
    (known : ∀ f ∈ filters, names f.target) :
    Together v w Eq (guardAmong entry head filters) (guardAmong entry head filters) := by
  induction filters with
  | nil => exact .pure rfl
  | cons f rest ih =>
    have later := ih fun g member => known g (List.mem_cons_of_mem f member)
    unfold guardAmong
    refine .ite (fun _ => (heads f.target (known f List.mem_cons_self)).bind fun p q same => ?_) fun _ => later
    subst same
    exact .ite (fun _ => .pure rfl) fun _ => later

theorem together_guardAlong (entry : FilterEntry) (classes : List Handle) (inside : ∀ c ∈ classes, among c) :
    Together v w Eq (guardAlong entry classes) (guardAlong entry classes) := by
  induction classes with
  | nil => exact .pure rfl
  | cons c rest ih =>
    have member := inside c List.mem_cons_self
    unfold guardAlong
    refine (alongside.classPart member).bind fun part part' parts => ?_
    rw [parts.filters]
    refine (together_guardAmong entry (fun name known =>
      together_classHead alongside before after member known) part.registrations.filters
      fun f registered => likewise.filterNamed member parts f registered).bind fun p q same => ?_
    subst same
    cases p with
    | none => exact ih fun k later => inside k (List.mem_cons_of_mem c later)
    | some guard => exact .pure rfl

theorem together_entryGuard (entry : FilterEntry) {mixins classOrder : List Handle} (inside : ∀ c ∈ mixins, among c)
    (inside' : ∀ c ∈ classOrder, among c) (earlier : List FilterEntry) :
    Together v w Eq (entryGuard h entry mixins classOrder earlier) (entryGuard h entry mixins classOrder earlier) := by
  unfold entryGuard
  refine (together_guardAlong alongside likewise before after entry mixins inside).bind fun p q same => ?_
  subst same
  cases p with
  | some guard => exact .pure rfl
  | none =>
    refine likewise.objects.bind fun x y objects => ?_
    rw [objects.filters]
    refine (together_guardAmong entry (fun name known =>
      together_objectHead alongside likewise before after known) _ objects.named).bind fun p q same => ?_
    subst same
    cases p with
    | some guard => exact .pure rfl
    | none =>
      refine (together_guardAlong alongside likewise before after entry classOrder inside').bind fun p q same => ?_
      subst same
      cases p with
      | some guard => exact .pure rfl
      | none => exact .pure rfl

theorem together_keepLast {mixins classOrder : List Handle} (inside : ∀ c ∈ mixins, among c)
    (inside' : ∀ c ∈ classOrder, among c) (earlier entries : List FilterEntry) :
    Together v w Eq (keepLast h mixins classOrder earlier entries)
      (keepLast h mixins classOrder earlier entries) := by
  induction entries generalizing earlier with
  | nil => exact .pure rfl
  | cons entry later ih =>
    unfold keepLast
    refine .ite (fun _ => ih earlier) fun _ => ?_
    refine (together_entryGuard alongside likewise before after entry inside inside' earlier).bind fun p q same => ?_
    rw [same]
    exact ih _

theorem together_registeredAlong (classes : List Handle) (inside : ∀ c ∈ classes, among c) :
    Together v w Eq (registeredAlong classes) (registeredAlong classes) := by
  unfold registeredAlong
  refine .foldlM Eq classes (fun c listed x y same => ?_) rfl
  refine (alongside.classPart (inside c listed)).bind fun part part' parts => ?_
  rw [parts.filters]
  refine .foldlM Eq _ (fun f registered x y same => ?_) same
  refine (together_classImplementations alongside before after (inside c listed)
    (likewise.filterNamed (inside c listed) parts f registered)).bind fun p q same' => .pure ?_
  rw [same, same']

/-- Both worlds come to the same filter order. -/
theorem together_computeFilterOrder (mixins : List Handle) (inside : ∀ c ∈ mixins, among c) :
    Together v w Eq (computeFilterOrder h mixins) (computeFilterOrder h mixins) := by
  unfold computeFilterOrder
  refine likewise.objects.bind fun x y objects => ?_
  rw [objects.cls, objects.filters]
  refine (alongside.precedenceOrder before after objects.drawn).bind fun order order' ⟨same, inside'⟩ => ?_
  subst same
  refine (together_registeredAlong alongside likewise before after mixins inside).bind fun p q same => ?_
  subst same
  refine (Together.foldlM Eq _ (fun f registered x y same => ?_) rfl).bind fun own own' same => ?_
  · refine (together_objectImplementations alongside likewise before after
      (objects.named f registered)).bind fun p q same' => .pure ?_
    rw [same, same']
  subst same
  refine (together_registeredAlong alongside likewise before after order inside').bind fun p q same => ?_
  subst same
  exact together_keepLast alongside likewise before after inside inside' [] _

/-- Both worlds come to the same filter order when they come to the mixin order first. -/
theorem together_freshFilterOrder : Together v w Eq (freshFilterOrder h) (freshFilterOrder h) := by
  unfold freshFilterOrder
  apply likewise.objects.bind
  intro x y objects
  rw [objects.cls, objects.mixins]
  apply (together_computeMixinOrder alongside before after _ _ objects.targets objects.drawn).bind
  rintro mixins _ ⟨rfl, inside⟩
  apply together_computeFilterOrder alongside likewise before after
  intro c member
  obtain ⟨m, listed, rfl⟩ := List.mem_map.1 member
  exact inside m listed

end Interception

end likewise

end alongside

end DynamicObjects
