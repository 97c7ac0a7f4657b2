import DynamicObjects.Proofs.Interception.Distinctness
import DynamicObjects.Proofs.Interception.Outcomes

/-!
# Gathering mixins

A registered mixin contributes the classes of its precedence order, all under its guard. Before a class that is
contributed counts, what its own class mixins contribute is gathered, once for every class. Nothing that can be reached
this way is missed, however the class mixins form cycles, and no class is gathered for the last time before one that
inherits from it.
-/
namespace DynamicObjects

open Hierarchy (givenOrder Leads Strictly)

namespace World

/-- What a registered mixin contributes: the classes of its precedence order, the root classes apart, under its
guard. -/
def contribution (w : World) (m : Mixin) : List Mixin :=
  ((givenOrder w.objects m.target).filter fun c => !w.isRoot c).map fun c => ⟨c, m.guard⟩

def contributions (w : World) (registered : List Mixin) : List Mixin :=
  registered.flatMap w.contribution

/-- The order in which contributed classes are gathered: with the classes in `expanded` done, what is `pending` leads to
what is `found`, and then those in `expanded'` are done. The class mixins of a class are gathered right before the class
itself when it is met for the first time. -/
inductive Gathers (w : World) : (expanded : List Handle) → (pending : List Mixin) → (expanded' : List Handle) →
    (found : List Mixin) → Prop
  | nil (expanded : List Handle) : Gathers w expanded [] expanded []
  | enter {expanded expanded' : List Handle} {m : Mixin} {rest found : List Mixin}
      (nothing : w.mixinsOf .instances m.target = [] ∨ m.target ∈ expanded)
      (onward : Gathers w expanded rest expanded' found) : Gathers w expanded (m :: rest) expanded' (m :: found)
  | expand {expanded between expanded' : List Handle} {m : Mixin} {rest inner found : List Mixin}
      (something : w.mixinsOf .instances m.target ≠ []) (fresh : m.target ∉ expanded)
      (deeper : Gathers w (m.target :: expanded) (w.contributions (w.mixinsOf .instances m.target)) between inner)
      (onward : Gathers w between rest expanded' found) :
      Gathers w expanded (m :: rest) expanded' (inner ++ m :: found)

/-- The mixins registered for an object: those of its own, then those along its class order. -/
def mixinsFor (w : World) (registered : List Mixin) (cls : Handle) : List Mixin :=
  registered ++ (givenOrder w.objects cls).flatMap (w.mixinsOf .instances)

/-- The classes that are mixed in: those contributed by mixins registered for an object, and with every class those
contributed by its class mixins. -/
inductive MixesIn (w : World) (registered : List Mixin) (cls : Handle) : Handle → Prop
  | registered {r : Mixin} {c : Handle} (here : r ∈ w.mixinsFor registered cls)
      (inside : c ∈ givenOrder w.objects r.target) (inner : w.isRoot c = false) : MixesIn w registered cls c
  | nested {m c : Handle} {r : Mixin} (outer : MixesIn w registered cls m) (here : r ∈ w.mixinsOf .instances m)
      (inside : c ∈ givenOrder w.objects r.target) (inner : w.isRoot c = false) : MixesIn w registered cls c

variable {w : World} {expanded between expanded' : List Handle} {pending pending' found found' registered : List Mixin}

theorem mem_contribution {m r : Mixin} :
    m ∈ w.contribution r ↔ m.target ∈ givenOrder w.objects r.target ∧ w.isRoot m.target = false ∧ m.guard = r.guard := by
  obtain ⟨target, guard⟩ := m
  simp only [contribution, List.mem_map, List.mem_filter, Bool.not_eq_true', GuardedOf.mk.injEq]
  constructor
  · rintro ⟨c, ⟨listed, inner⟩, rfl, rfl⟩
    exact ⟨listed, inner, rfl⟩
  · rintro ⟨listed, inner, rfl⟩
    exact ⟨target, ⟨listed, inner⟩, rfl, rfl⟩

theorem mem_contributions {m : Mixin} : m ∈ w.contributions registered ↔ ∃ r ∈ registered, m ∈ w.contribution r :=
  List.mem_flatMap

namespace Gathers

theorem append (first : w.Gathers expanded pending between found)
    (second : w.Gathers between pending' expanded' found') :
    w.Gathers expanded (pending ++ pending') expanded' (found ++ found') := by
  induction first with
  | nil => exact second
  | enter nothing _ ih => exact .enter nothing (ih second)
  | expand something fresh deeper _ _ ih =>
    rw [List.append_assoc, List.cons_append]
    exact .expand something fresh deeper (ih second)

/-- There is one order in which to gather. -/
theorem unique {other : List Handle} (first : w.Gathers expanded pending expanded' found)
    (second : w.Gathers expanded pending other found') : other = expanded' ∧ found' = found := by
  induction first generalizing other found' with
  | nil =>
    cases second
    exact ⟨rfl, rfl⟩
  | enter nothing _ ih =>
    cases second with
    | enter _ onward =>
      obtain ⟨rfl, rfl⟩ := ih onward
      exact ⟨rfl, rfl⟩
    | expand something fresh => exact (nothing.elim something fresh).elim
  | expand something fresh _ _ ihDeeper ihOnward =>
    cases second with
    | enter nothing => exact (nothing.elim something fresh).elim
    | expand _ _ deeper onward =>
      obtain ⟨rfl, rfl⟩ := ihDeeper deeper
      obtain ⟨rfl, rfl⟩ := ihOnward onward
      exact ⟨rfl, rfl⟩

theorem pending_subset (gathers : w.Gathers expanded pending expanded' found) : pending ⊆ found := by
  induction gathers with
  | nil => exact List.Subset.refl _
  | enter _ _ ih => exact List.cons_subset_cons _ ih
  | expand _ _ _ _ _ ih => exact List.Subset.trans (List.cons_subset_cons _ ih) (List.subset_append_right _ _)

theorem expanded_subset (gathers : w.Gathers expanded pending expanded' found) : expanded ⊆ expanded' := by
  induction gathers with
  | nil => exact List.Subset.refl _
  | enter _ _ ih => exact ih
  | expand _ _ _ _ ihDeeper ihOnward =>
    exact fun c old => ihOnward (ihDeeper (List.mem_cons_of_mem _ old))

/-- Nothing is found but what is pending and what its class mixins lead to. -/
theorem forall_found {p : Mixin → Prop} (gathers : w.Gathers expanded pending expanded' found)
    (closed : ∀ m, p m → ∀ m' ∈ w.contributions (w.mixinsOf .instances m.target), p m')
    (start : ∀ m ∈ pending, p m) : ∀ m ∈ found, p m := by
  induction gathers with
  | nil => exact start
  | enter _ _ ih =>
    obtain ⟨head, tail⟩ := List.forall_mem_cons.1 start
    exact List.forall_mem_cons.2 ⟨head, ih tail⟩
  | expand _ _ _ _ ihDeeper ihOnward =>
    obtain ⟨head, tail⟩ := List.forall_mem_cons.1 start
    exact List.forall_mem_append.2 ⟨ihDeeper (closed _ head), List.forall_mem_cons.2 ⟨head, ihOnward tail⟩⟩

/-- What the class mixins of a class contribute is found while the class becomes expanded. -/
theorem contributions_subset (gathers : w.Gathers expanded pending expanded' found) {c : Handle}
    (done : c ∈ expanded') : c ∈ expanded ∨ w.contributions (w.mixinsOf .instances c) ⊆ found := by
  induction gathers with
  | nil => exact .inl done
  | enter _ _ ih => exact (ih done).imp_right fun inside m given => List.mem_cons_of_mem _ (inside given)
  | expand _ _ deeper _ ihDeeper ihOnward =>
    rcases ihOnward done with before | inside
    · rcases ihDeeper before with last | inside
      · rcases List.mem_cons.1 last with rfl | old
        · exact .inr fun m given => List.mem_append_left _ (deeper.pending_subset given)
        · exact .inl old
      · exact .inr fun m given => List.mem_append_left _ (inside given)
    · exact .inr fun m given => List.mem_append_right _ (List.mem_cons_of_mem _ (inside given))

/-- Whatever has class mixins is expanded in the end. -/
theorem expanded_of_mem_found (gathers : w.Gathers expanded pending expanded' found) :
    ∀ m ∈ found, w.mixinsOf .instances m.target = [] ∨ m.target ∈ expanded' := by
  induction gathers with
  | nil => simp
  | enter nothing onward ih =>
    exact List.forall_mem_cons.2 ⟨nothing.imp_right fun old => onward.expanded_subset old, ih⟩
  | expand _ _ deeper onward ihDeeper ihOnward =>
    have here := onward.expanded_subset (deeper.expanded_subset List.mem_cons_self)
    refine List.forall_mem_append.2 ⟨fun m inside => ?_, List.forall_mem_cons.2 ⟨.inr here, ihOnward⟩⟩
    exact (ihDeeper m inside).imp_right fun old => onward.expanded_subset old

/-- From the start, everything that class mixins lead to is found, in spite of cycles. -/
theorem closed (gathers : w.Gathers [] pending expanded' found) {m : Mixin} (member : m ∈ found) :
    w.contributions (w.mixinsOf .instances m.target) ⊆ found := by
  rcases gathers.expanded_of_mem_found m member with nothing | done
  · rw [nothing]
    exact List.nil_subset _
  · exact (gathers.contributions_subset done).resolve_left List.not_mem_nil

/-- The classes that are found are those that are mixed in. -/
theorem mem_iff_mixesIn {cls : Handle}
    (gathers : w.Gathers [] (w.contributions (w.mixinsFor registered cls)) expanded' found) {c : Handle} :
    c ∈ found.map (·.target) ↔ w.MixesIn registered cls c := by
  constructor
  · intro member
    obtain ⟨m, inside, rfl⟩ := List.mem_map.1 member
    refine gathers.forall_found (p := fun m => w.MixesIn registered cls m.target) ?_ ?_ m inside
    · intro m outer m' inside
      obtain ⟨r, here, given⟩ := mem_contributions.1 inside
      obtain ⟨listed, inner, -⟩ := mem_contribution.1 given
      exact .nested outer here listed inner
    · intro m inside
      obtain ⟨r, here, given⟩ := mem_contributions.1 inside
      obtain ⟨listed, inner, -⟩ := mem_contribution.1 given
      exact .registered here listed inner
  · intro mixed
    induction mixed with
    | @registered r c here inside inner =>
      have given : ⟨c, r.guard⟩ ∈ w.contributions (w.mixinsFor registered cls) :=
        mem_contributions.2 ⟨r, here, mem_contribution.2 ⟨inside, inner, rfl⟩⟩
      exact List.mem_map.2 ⟨_, gathers.pending_subset given, rfl⟩
    | @nested _ c r _ here inside inner ih =>
      obtain ⟨m, member, rfl⟩ := List.mem_map.1 ih
      have given : ⟨c, r.guard⟩ ∈ w.contributions (w.mixinsOf .instances m.target) :=
        mem_contributions.2 ⟨r, here, mem_contribution.2 ⟨inside, inner, rfl⟩⟩
      exact List.mem_map.2 ⟨_, gathers.closed member given, rfl⟩

/-- If every class mixin keeps `x` before `y`, then so does all that is gathered. -/
theorem leads {x y : Handle} (gathers : w.Gathers expanded pending expanded' found)
    (nested : ∀ c, Leads x y ((w.contributions (w.mixinsOf .instances c)).map (·.target)))
    (start : Leads x y (pending.map (·.target))) : Leads x y (found.map (·.target)) := by
  have later : ∀ {rest found : List Mixin}, rest ⊆ found → y ∈ rest.map (·.target) → y ∈ found.map (·.target) :=
    fun inside member => List.map_subset _ inside member
  induction gathers with
  | nil => exact start
  | enter _ onward ih => exact ⟨fun same => later onward.pending_subset (start.1 same), ih start.2⟩
  | expand _ _ _ onward ihDeeper ihOnward =>
    rw [List.map_append, List.map_cons]
    exact (ihDeeper (nested _)).append
      ⟨fun same => later onward.pending_subset (start.1 same), ihOnward start.2⟩

end Gathers

end World

/-! ## What gathering comes to -/

namespace Interception

variable {loose : Handle → Prop} {w : World}

/-- All live classes, seen from the world itself. -/
theorem alongside_classes (well : WellFormed loose w) : Alongside (fun _ => True) (fun c => w.isClass c = true) w w where
  isClass _ cls := cls
  closed _ _ _ link := well.isClass_of_source link
  lineage _ _ := rfl

/-- Going on from `start` with what is `pending`, `gathered` was reached. -/
def GathersFrom (w : World) (start : Gathered) (pending : List Mixin) (gathered : Gathered) : Prop :=
  ∃ found, w.Gathers start.expanded pending gathered.expanded found ∧ gathered.mixins = start.mixins ++ found

namespace GathersFrom

variable {start x y : Gathered} {pending pending' : List Mixin} {m : Mixin}

theorem refl (start : Gathered) : GathersFrom w start [] start :=
  ⟨[], .nil _, (List.append_nil _).symm⟩

theorem expanded_subset (gathers : GathersFrom w start pending x) : start.expanded ⊆ x.expanded :=
  gathers.elim fun _ found => found.1.expanded_subset

theorem append (first : GathersFrom w start pending x) (second : GathersFrom w x pending' y) :
    GathersFrom w start (pending ++ pending') y := by
  obtain ⟨found, gathers, mixins⟩ := first
  obtain ⟨found', gathers', mixins'⟩ := second
  exact ⟨found ++ found', gathers.append gathers', by rw [mixins', mixins, List.append_assoc]⟩

theorem enter (gathers : GathersFrom w start pending x)
    (nothing : w.mixinsOf .instances m.target = [] ∨ m.target ∈ x.expanded) :
    GathersFrom w start (pending ++ [m]) { x with mixins := x.mixins ++ [m] } :=
  gathers.append ⟨[m], .enter nothing (.nil _), rfl⟩

theorem expand (gathers : GathersFrom w start pending x) (something : w.mixinsOf .instances m.target ≠ [])
    (fresh : m.target ∉ x.expanded)
    (deeper : GathersFrom w { x with expanded := m.target :: x.expanded }
      (w.contributions (w.mixinsOf .instances m.target)) y) :
    GathersFrom w start (pending ++ [m]) { y with mixins := y.mixins ++ [m] } := by
  obtain ⟨inner, gathers', mixins⟩ := deeper
  exact gathers.append ⟨inner ++ [m], .expand something fresh gathers' (.nil _), by rw [mixins, List.append_assoc]⟩

end GathersFrom

/-- Class mixins are classes. -/
theorem isClass_of_mem_mixinsOf (well : WellFormed loose w) (c : Handle) :
    ∀ r ∈ w.mixinsOf .instances c, w.isClass r.target = true :=
  fun r here => (well.mixed .instances).target c r.target (List.mem_map.2 ⟨r, here, rfl⟩)

/-- With fuel for the classes that are left, by induction on the fuel. -/
theorem comesTo_gather (well : WellFormed loose w) (fuel : Nat) (start : Gathered) (registered : List Mixin)
    (targets : ∀ r ∈ registered, w.isClass r.target = true)
    (enough : unexpanded (fun c => w.isClass c = true) w start < fuel) :
    ComesTo w (GathersFrom w start (w.contributions registered)) (gather fuel start registered) := by
  induction fuel generalizing start registered with
  | zero => exact absurd enough (Nat.not_lt_zero _)
  | succ fuel ih =>
    unfold gather
    refine .foldlM (fun before x => GathersFrom w start (w.contributions before) x) registered (.refl start) ?_
    intro before r member x gathered
    apply ComesTo.get_bind
    intro a filled
    rw [filled.isClass, targets r member]
    refine (ComesTo.precedenceOrder well (targets r member)).bind ?_
    rintro order rfl
    -- of the order of this mixin, the classes in `passed` have been gone through
    let sofar (passed : List Handle) : List Mixin :=
      w.contributions before ++ (passed.filter fun c => !w.isRoot c).map fun c => ⟨c, r.guard⟩
    have whole : w.contributions (before ++ [r]) = sofar (givenOrder w.objects r.target) := by
      simp [sofar, World.contributions, World.contribution]
    rw [whole]
    refine .foldlM (fun passed x => GathersFrom w start (sofar passed) x) _ ?_ ?_
    · simpa [sofar] using gathered
    intro passed c listed x gathered
    have cls := well.isClass_of_mem_givenOrder (targets r member) listed
    apply ComesTo.get_bind
    intro a filled
    rw [filled.isRoot]
    refine .ite (fun root => .pure ?_) fun inner => ?_
    · simpa [sofar, root] using gathered
    have more : sofar (passed ++ [c]) = sofar passed ++ [⟨c, r.guard⟩] := by simp [sofar, inner]
    rw [more]
    refine (ComesTo.classPart cls).bind fun part reads => ?_
    rw [reads.mixins]
    refine .ite (fun nothing => .pure (gathered.enter ?_)) fun begins => ?_
    · simpa using nothing
    rw [Bool.not_eq_true, Bool.or_eq_false_iff, List.isEmpty_eq_false_iff, List.contains_eq_mem,
      decide_eq_false_iff_not] at begins
    obtain ⟨something, fresh⟩ := begins
    have fewer := unexpanded_cons_lt (alongside_classes well) cls fresh
    have most : unexpanded (fun c => w.isClass c = true) w x ≤ unexpanded _ w start :=
      unexpanded_mono fun _ old => gathered.expanded_subset old
    have nested := isClass_of_mem_mixinsOf well c
    refine (ih { x with expanded := c :: x.expanded } _ nested (by omega)).bind fun y deeper => .pure ?_
    exact gathered.expand (m := ⟨c, r.guard⟩) something fresh deeper

/-! ## Mixin orders -/

/-- Of every class the last place is kept, unless the object has the class anyway. -/
theorem targets_flatten (all : List Mixin) (own : List Handle) (mixins : List Mixin) :
    (flatten all own mixins).map (·.target) = (mixins.map (·.target)).dedup.filter (· ∉ own) := by
  induction mixins with
  | nil => rfl
  | cons m later ih =>
    have again : later.any (·.target == m.target) = true ↔ m.target ∈ later.map (·.target) := by
      simp [List.mem_map]
    unfold flatten
    rw [List.map_cons]
    by_cases repeated : m.target ∈ later.map (·.target)
    · rw [List.dedup_cons_of_mem repeated, if_pos (by rw [again.2 repeated, Bool.true_or]), ih]
    · rw [List.dedup_cons_of_notMem repeated, List.filter_cons]
      have last : later.any (·.target == m.target) = false := by
        rw [← Bool.not_eq_true, again]
        exact repeated
      rw [last, Bool.false_or, List.contains_eq_mem]
      by_cases had : m.target ∈ own
      · simp [had, ih]
      · simp [had, ih]

theorem guard_of_mem_flatten {all mixins : List Mixin} {own : List Handle} {m : Mixin}
    (inside : m ∈ flatten all own mixins) : m.guard = (all.find? (·.target == m.target)).bind (·.guard) := by
  induction mixins with
  | nil => cases inside
  | cons first later ih =>
    unfold flatten at inside
    split at inside
    · exact ih inside
    · rcases List.mem_cons.1 inside with rfl | later
      · rfl
      · exact ih later

end Interception

/-- What the mixin order of an object is that has some mixins registered for itself and is of some class. -/
structure World.OrdersMixins (w : World) (registered : List Mixin) (cls : Handle) (order : List Mixin) : Prop where
  nodup : (order.map (·.target)).Nodup
  /-- It holds the classes that are mixed in, without those that the object has anyway. -/
  mem_iff : ∀ c, c ∈ order.map (·.target) ↔ w.MixesIn registered cls c ∧ c ∉ givenOrder w.objects cls
  /-- No class comes behind one that it inherits from. -/
  sorted : ∀ x ∈ order.map (·.target), ∀ y ∈ order.map (·.target), Strictly w.objects.supersOf x y →
    [x, y].Sublist (order.map (·.target))
  /-- Every class has the guard under which it is found first. -/
  guarded : ∃ expanded found, w.Gathers [] (w.contributions (w.mixinsFor registered cls)) expanded found ∧
    ∀ m ∈ order, ∃ first, found.find? (·.target == m.target) = some first ∧ m.guard = first.guard

namespace Interception

variable {loose : Handle → Prop} {w : World}

/-- The classes that a mixin contributes are in the order in which they inherit from each other. -/
theorem leads_contributions (well : WellFormed loose w) {registered : List Mixin}
    (targets : ∀ r ∈ registered, w.isClass r.target = true) {x y : Handle}
    (above : Strictly w.objects.supersOf x y) (inner : w.isRoot y = false) :
    Leads x y ((w.contributions registered).map (·.target)) := by
  rw [World.contributions, List.map_flatMap, List.flatMap_def]
  refine Hierarchy.leads_flatten fun classes listed => ?_
  obtain ⟨r, here, rfl⟩ := List.mem_map.1 listed
  have plain : (w.contribution r).map (·.target) = (givenOrder w.objects r.target).filter fun c => !w.isRoot c := by
    simp [World.contribution, Function.comp_def]
  rw [plain]
  exact (well.leads_givenOrder (targets r here) above).filter (by simp [inner])

theorem ordersMixins_flatten (well : WellFormed loose w) {registered found : List Mixin} {cls : Handle}
    {expanded : List Handle} (targets : ∀ r ∈ w.mixinsFor registered cls, w.isClass r.target = true)
    (gathers : w.Gathers [] (w.contributions (w.mixinsFor registered cls)) expanded found) :
    w.OrdersMixins registered cls (flatten found (givenOrder w.objects cls) found) := by
  have mem_iff : ∀ c, c ∈ (flatten found (givenOrder w.objects cls) found).map (·.target) ↔
      w.MixesIn registered cls c ∧ c ∉ givenOrder w.objects cls := by
    intro c
    rw [targets_flatten, List.mem_filter, List.mem_dedup, decide_eq_true_iff, gathers.mem_iff_mixesIn]
  refine ⟨nodup_flatten _ _ _, mem_iff, fun x first y second above => ?_, expanded, found, gathers, fun m inside => ?_⟩
  · obtain ⟨mixed, apart⟩ := (mem_iff y).1 second
    have inner : w.isRoot y = false := by
      cases mixed with
      | registered _ _ inner => exact inner
      | nested _ _ _ inner => exact inner
    have nested : ∀ c, Leads x y ((w.contributions (w.mixinsOf .instances c)).map (·.target)) := fun c =>
      leads_contributions well (isClass_of_mem_mixinsOf well c) above inner
    have leads := gathers.leads nested (leads_contributions well targets above inner)
    rw [targets_flatten] at first ⊢
    exact (leads.dedup.filter (by simpa using apart)).sublist first
  · have listed := ((mem_iff m.target).1 (List.mem_map.2 ⟨m, inside, rfl⟩)).1
    rw [← gathers.mem_iff_mixesIn] at listed
    obtain ⟨other, member, same⟩ := List.mem_map.1 listed
    have listed : (found.find? (·.target == m.target)).isSome = true :=
      List.find?_isSome.2 ⟨other, member, beq_iff_eq.2 same⟩
    obtain ⟨first, here⟩ := Option.isSome_iff_exists.1 listed
    refine ⟨first, here, ?_⟩
    rw [guard_of_mem_flatten inside, here, Option.bind_some]

theorem isClass_of_mem_mixinsFor (well : WellFormed loose w) {registered : List Mixin} {cls : Handle}
    (targets : ∀ r ∈ registered, w.isClass r.target = true) :
    ∀ r ∈ w.mixinsFor registered cls, w.isClass r.target = true := by
  intro r here
  rcases List.mem_append.1 here with own | inherited
  · exact targets r own
  · obtain ⟨c, -, here⟩ := List.mem_flatMap.1 inherited
    exact isClass_of_mem_mixinsOf well c r here

/-- Only classes are mixed in. -/
theorem isClass_of_mixesIn (well : WellFormed loose w) {registered : List Mixin} {cls c : Handle}
    (targets : ∀ r ∈ registered, w.isClass r.target = true) (mixed : w.MixesIn registered cls c) :
    w.isClass c = true := by
  cases mixed with
  | registered here inside => exact well.isClass_of_mem_givenOrder (isClass_of_mem_mixinsFor well targets _ here) inside
  | nested _ here inside => exact well.isClass_of_mem_givenOrder (isClass_of_mem_mixinsOf well _ _ here) inside

/-- A mixin order can be computed whatever is mixed in, and it is what it should be. -/
theorem comesTo_computeMixinOrder (well : WellFormed loose w) {registered : List Mixin} {cls : Handle}
    (isClass : w.isClass cls = true) (targets : ∀ r ∈ registered, w.isClass r.target = true) :
    ComesTo w (w.OrdersMixins registered cls) (computeMixinOrder registered cls) := by
  unfold computeMixinOrder
  apply (ComesTo.precedenceOrder well isClass).bind
  rintro classOrder rfl
  apply ComesTo.get_bind
  intro a filled
  have enough : ∀ g : Gathered, unexpanded (fun c => w.isClass c = true) w g < a.totalSlots + 1 := by
    rw [filled.totalSlots]
    exact fun g => (unexpanded_lt (alongside_classes well) g).1
  apply (comesTo_gather well _ {} registered targets (enough _)).bind
  intro g gathered
  have along : ComesTo w (GathersFrom w {} (w.contributions (w.mixinsFor registered cls)))
      ((givenOrder w.objects cls).foldlM (fun gathered c => do
        gather (a.totalSlots + 1) gathered (← Update.classPart c).registrations.mixins) g) := by
    have whole : w.contributions (w.mixinsFor registered cls) = w.contributions registered ++
        (givenOrder w.objects cls).flatMap fun c => w.contributions (w.mixinsOf .instances c) := by
      simp [World.contributions, World.mixinsFor, List.flatMap_assoc]
    rw [whole]
    refine .foldlM (fun before x => GathersFrom w {} (w.contributions registered ++
      before.flatMap fun c => w.contributions (w.mixinsOf .instances c)) x) _ (by simpa using gathered) ?_
    intro before c listed x gathered
    apply (ComesTo.classPart (well.isClass_of_mem_givenOrder isClass listed)).bind
    intro part reads
    rw [reads.mixins]
    refine (comesTo_gather well _ x _ (isClass_of_mem_mixinsOf well c) (enough x)).mono fun y more => ?_
    simpa using gathered.append more
  refine along.bind fun x gathered => .pure ?_
  obtain ⟨found, gathers, mixins⟩ := gathered
  rw [mixins, List.nil_append]
  exact ordersMixins_flatten well (isClass_of_mem_mixinsFor well targets) gathers

end Interception

end DynamicObjects
