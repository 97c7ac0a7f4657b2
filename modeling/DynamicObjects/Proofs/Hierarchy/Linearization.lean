import DynamicObjects.Proofs.Hierarchy.Merge
import DynamicObjects.Proofs.Hierarchy.Walk

/-!
# Linearizations

The precedence order of a class as a relation on the superclass links alone: the class in front of the merged orders of
its superclasses. Every class from which no cycle is reached has exactly one. What is computed, and kept in the class
parts on the way, is this order.
-/
namespace DynamicObjects.Hierarchy

/-- Whether `b` has to come before `a`, where `order` lists the orders of the classes above. -/
def ranks (order : Handle → List Handle) (supers : List Handle) (b a : Handle) : Bool :=
  (order b).contains a ||
    match supers.idxOf? b, supers.idxOf? a with
    | some i, some j => i < j
    | _, _ => false

/-- `l` is the precedence order of a class. -/
inductive Linearizes (supers : Handle → List Handle) : Handle → List Handle → Prop
  | intro {c : Handle} (order : Handle → List Handle)
      (above : ∀ a, Strictly supers c a → Linearizes supers a (order a)) :
      Linearizes supers c (c :: mergeAll (ranks order (supers c)) ((supers c).map order))

section linearizes

variable {supers : Handle → List Handle} {c : Handle} {l : List Handle}

theorem Linearizes.grounded (lin : Linearizes supers c l) : Grounded supers c := by
  induction lin with
  | intro order _ ih => exact Acc.intro _ fun s link => ih s (.single link)

theorem Linearizes.head? (lin : Linearizes supers c l) : l.head? = some c := by
  cases lin with
  | intro => rfl

theorem Linearizes.mem_iff (lin : Linearizes supers c l) {k : Handle} : k ∈ l ↔ Reaches supers c k := by
  induction lin generalizing k with
  | @intro c order _ ih =>
    have merged : k ∈ mergeAll (ranks order (supers c)) ((supers c).map order) ↔
        ∃ s ∈ supers c, Reaches supers s k := by
      rw [mem_mergeAll]
      constructor
      · rintro ⟨_, listed, member⟩
        obtain ⟨s, link, rfl⟩ := List.mem_map.1 listed
        exact ⟨s, link, (ih s (.single link)).1 member⟩
      · rintro ⟨s, link, path⟩
        exact ⟨order s, List.mem_map_of_mem link, (ih s (.single link)).2 path⟩
    rw [List.mem_cons, merged]
    constructor
    · rintro (rfl | ⟨s, link, path⟩)
      · exact .refl
      · exact .head link path
    · intro path
      rcases Relation.ReflTransGen.cases_head path with rfl | ⟨s, link, onward⟩
      · exact .inl rfl
      · exact .inr ⟨s, link, onward⟩

theorem Linearizes.nodup (lin : Linearizes supers c l) : l.Nodup := by
  have ground := lin.grounded
  induction lin with
  | @intro c order above ih =>
    refine List.nodup_cons.2 ⟨fun inside => ?_, nodup_mergeAll fun one listed => ?_⟩
    · obtain ⟨_, listed, member⟩ := mem_mergeAll.1 inside
      obtain ⟨s, link, rfl⟩ := List.mem_map.1 listed
      have back := (above s (.single link)).mem_iff.1 member
      exact ground.not_strictly (Relation.TransGen.head' link back)
    · obtain ⟨s, link, rfl⟩ := List.mem_map.1 listed
      exact ih s (.single link) (ground.inv link)

/-- Every class comes before each of its superclasses. -/
theorem Linearizes.leads (lin : Linearizes supers c l) {x s : Handle} (link : s ∈ supers x) : Leads x s l := by
  induction lin with
  | @intro c order above ih =>
    refine ⟨fun same => ?_, leads_mergeAll fun one listed => ?_⟩
    · subst same
      exact mem_mergeAll.2 ⟨order s, List.mem_map_of_mem link, (above s (.single link)).mem_iff.2 .refl⟩
    · obtain ⟨t, up, rfl⟩ := List.mem_map.1 listed
      exact ih t (.single up)

/-- Where all orders of the superclasses agree, so do the merged ones. -/
private theorem mergeAll_order_congr {order other : Handle → List Handle}
    (first : ∀ a, Strictly supers c a → Linearizes supers a (order a))
    (same : ∀ a, Strictly supers c a → order a = other a) :
    mergeAll (ranks order (supers c)) ((supers c).map order) =
      mergeAll (ranks other (supers c)) ((supers c).map other) := by
  have orders : (supers c).map order = (supers c).map other :=
    List.map_congr_left fun s link => same s (.single link)
  rw [← orders]
  refine mergeAll_congr fun one listed y member x _ => ?_
  obtain ⟨s, link, rfl⟩ := List.mem_map.1 listed
  have path := (first s (.single link)).mem_iff.1 member
  unfold ranks
  rw [same y (Relation.TransGen.head' link path)]

theorem Linearizes.unique {m : List Handle} (lin : Linearizes supers c l) (other : Linearizes supers c m) :
    l = m := by
  induction lin generalizing m with
  | intro order above ih =>
    cases other with
    | intro order' above' =>
      rw [mergeAll_order_congr above fun a path => ih a path (above' a path)]

theorem exists_linearizes (ground : Grounded supers c) : ∃ l, Linearizes supers c l := by
  have swapped : (fun b a => Strictly supers a b) = Relation.TransGen fun b a => b ∈ supers a := by
    funext b a
    exact propext Relation.transGen_swap
  have transitive : Acc (fun b a => Strictly supers a b) c := by
    rw [swapped]
    exact Acc.transGen ground
  induction transitive with
  | intro c _ ih =>
    have each : ∀ a, ∃ l, Strictly supers c a → Linearizes supers a l := fun a => by
      by_cases path : Strictly supers c a
      · obtain ⟨l, lin⟩ := ih a path (ground.of_reaches path.to_reflTransGen)
        exact ⟨l, fun _ => lin⟩
      · exact ⟨[], fun absurd_path => absurd absurd_path path⟩
    choose order above using each
    exact ⟨_, .intro order above⟩

/-- The order depends on nothing but the links of the classes above. -/
theorem Linearizes.congr {other : Handle → List Handle} (lin : Linearizes supers c l)
    (agree : ∀ x, Reaches supers c x → other x = supers x) : Linearizes other c l := by
  induction lin with
  | @intro c order above ih =>
    have path_back : ∀ a, Strictly other c a → Strictly supers c a := by
      intro a path
      induction path with
      | single link => exact .single (agree c .refl ▸ link)
      | tail _ link up => exact up.tail (agree _ up.to_reflTransGen ▸ link)
    have linearized : Linearizes other c (c :: mergeAll (ranks order (other c)) ((other c).map order)) :=
      .intro order fun a path =>
        ih a (path_back a path) fun x onward => agree x ((path_back a path).to_reflTransGen.trans onward)
    rwa [agree c .refl] at linearized

theorem Linearizes.eq_singleton (lin : Linearizes supers c l) (top : supers c = []) : l = [c] := by
  cases lin with
  | intro order => rw [top]; rfl

/-- The last class of an order has no superclasses. -/
theorem Linearizes.getLast? (lin : Linearizes supers c l) : ∃ top, l.getLast? = some top ∧ supers top = [] := by
  obtain ⟨front, top, split⟩ : ∃ front top, l = front ++ [top] := by
    have some : l ≠ [] := fun none => by
      rw [none] at lin
      cases lin
    exact ⟨_, _, (List.dropLast_append_getLast some).symm⟩
  refine ⟨top, by simp [split], ?_⟩
  by_contra more
  obtain ⟨s, link⟩ := List.exists_mem_of_ne_nil _ more
  have leads := lin.leads link
  rw [split] at leads
  exact List.not_mem_nil (leads.append_left.1 rfl)

end linearizes

/-! ## What is computed -/

end DynamicObjects.Hierarchy

namespace DynamicObjects

/-- An object without the precedence order kept for it. -/
def Object.withoutPrecedence (o : Object) : Object :=
  { o with classPart := o.classPart.map fun c => { c with order := none } }

namespace Heap

variable {a b : Objects}

@[simp] theorem class?_modifyClass (objects : Objects) (h k : Handle) (f : ClassPart → ClassPart) :
    (objects.modifyClass h f).class? k = if k = h then (objects.class? k).map f else objects.class? k := by
  unfold class? modifyClass
  rw [get?_modify]
  split
  · cases objects.get? k <;> simp
  · rfl

theorem Alike.class? (alike : Alike Object.withoutPrecedence a b) (h : Handle) :
    (b.class? h).map (fun c => { c with order := none }) = (a.class? h).map fun c => { c with order := none } := by
  have same := congrArg (fun o => o.bind (·.classPart)) (alike.view h)
  simpa only [Heap.class?, Option.bind_map, Option.map_bind, Object.withoutPrecedence, Function.comp_def] using same

theorem Alike.supersOf (alike : Alike Object.withoutPrecedence a b) : b.supersOf = a.supersOf := by
  funext h
  have same := congrArg (Option.map (·.supers)) (alike.class? h)
  unfold Heap.supersOf
  simp only [Option.map_map, Function.comp_def] at same
  rw [same]

theorem Alike.isSome_class? (alike : Alike Object.withoutPrecedence a b) (h : Handle) :
    (b.class? h).isSome = (a.class? h).isSome := by
  simpa using congrArg Option.isSome (alike.class? h)

theorem alike_keepOrder (objects : Objects) (h : Handle) (f : Option (List Handle) → Option (List Handle)) :
    Alike Object.withoutPrecedence objects (objects.modifyClass h fun c => { c with order := f c.order }) :=
  .modify objects h fun o => by simp only [Object.withoutPrecedence, Option.map_map, Function.comp_def]

end Heap

namespace Hierarchy

/-- Every order that is kept is the order of its class, and comes with the orders of the superclasses. -/
structure OrdersKept (objects : Objects) : Prop where
  linearizes : ∀ c l, objects.cachedOrder? c = some l → Linearizes objects.supersOf c l
  above : ∀ c l, objects.cachedOrder? c = some l → ∀ s ∈ objects.supersOf c, (objects.class? s).isSome →
    (objects.cachedOrder? s).isSome

theorem isSome_class?_of_mem {objects : Objects} {c s : Handle} (link : s ∈ objects.supersOf c) :
    (objects.class? c).isSome := by
  unfold Heap.supersOf at link
  cases found : objects.class? c with
  | none => rw [found] at link; cases link
  | some part => rfl

/-- The orders of all classes above a class with a kept order are kept. -/
theorem OrdersKept.of_reaches {objects : Objects} (kept : OrdersKept objects) {c k : Handle}
    (here : (objects.cachedOrder? c).isSome) (path : Reaches objects.supersOf c k)
    (cls : (objects.class? k).isSome) : (objects.cachedOrder? k).isSome := by
  induction path with
  | refl => exact here
  | tail _ link ih =>
    obtain ⟨l, found⟩ := Option.isSome_iff_exists.1 (ih (isSome_class?_of_mem link))
    exact kept.above _ l found _ link cls

/-- What a computation of the order of `c` leads to. -/
structure Computed (before : Objects) (c : Handle) (order : List Handle) (after : Objects) : Prop where
  linearizes : Linearizes before.supersOf c order
  alike : Heap.Alike Object.withoutPrecedence before after
  kept : OrdersKept after
  stays : ∀ k, (before.cachedOrder? k).isSome → (after.cachedOrder? k).isSome
  here : (before.class? c).isSome → (after.cachedOrder? c).isSome

theorem mustPrecede_eq_ranks {objects : Objects} (kept : OrdersKept objects) {order : Handle → List Handle}
    {supers : List Handle} {b a : Handle} (lin : Linearizes objects.supersOf b (order b))
    (known : (objects.class? b).isSome → (objects.cachedOrder? b).isSome) (different : a ≠ b) :
    mustPrecede objects supers b a = ranks order supers b a := by
  have same : ((objects.cachedOrder? b).getD []).contains a = (order b).contains a := by
    cases found : objects.cachedOrder? b with
    | some l => rw [lin.unique (kept.linearizes b l found)]; rfl
    | none =>
      have no_class : objects.class? b = none := by
        by_contra some
        have cached := known (Option.ne_none_iff_isSome.1 some)
        rw [found] at cached
        cases cached
      have top : objects.supersOf b = [] := by
        unfold Heap.supersOf
        rw [no_class]
        rfl
      rw [lin.eq_singleton top]
      simp [different]
  unfold mustPrecede ranks
  exact congrArg₂ or same rfl

theorem orderFrom_eq {objects : Objects} (kept : OrdersKept objects) {c : Handle} {order : Handle → List Handle}
    (above : ∀ a, Strictly objects.supersOf c a → Linearizes objects.supersOf a (order a))
    (known : ∀ s ∈ objects.supersOf c, (objects.class? s).isSome → (objects.cachedOrder? s).isSome) :
    orderFrom objects c (objects.supersOf c) ((objects.supersOf c).map order) =
      c :: mergeAll (ranks order (objects.supersOf c)) ((objects.supersOf c).map order) := by
  have lin : Linearizes objects.supersOf c _ := .intro order above
  have merged : mergeAll (mustPrecede objects (objects.supersOf c)) ((objects.supersOf c).map order) =
      mergeAll (ranks order (objects.supersOf c)) ((objects.supersOf c).map order) := by
    refine mergeAll_congr fun one listed y member x different => ?_
    obtain ⟨s, link, rfl⟩ := List.mem_map.1 listed
    have path := (above s (.single link)).mem_iff.1 member
    refine mustPrecede_eq_ranks kept (above y (Relation.TransGen.head' link path)) (fun cls => ?_) different
    have below : (objects.class? s).isSome := by
      rcases Relation.ReflTransGen.cases_head path with rfl | ⟨t, up, -⟩
      · exact cls
      · exact isSome_class?_of_mem up
    exact kept.of_reaches (known s link below) path cls
  obtain ⟨absent, nodup⟩ := List.nodup_cons.1 lin.nodup
  unfold orderFrom
  split
  · next none => rw [none]; rfl
  · next one single => rw [single]; rfl
  · rw [merged, foldl_place_eq_append nodup]
    · rfl
    · intro k member same
      exact absent (List.mem_singleton.1 same ▸ member)

theorem Computed.keep {before after : Objects} {c : Handle} {l : List Handle}
    (alike : Heap.Alike Object.withoutPrecedence before after) (kept : OrdersKept after)
    (stays : ∀ k, (before.cachedOrder? k).isSome → (after.cachedOrder? k).isSome)
    (lin : Linearizes before.supersOf c l)
    (known : ∀ s ∈ before.supersOf c, (before.class? s).isSome → (after.cachedOrder? s).isSome) :
    Computed before c l (after.modifyClass c fun p => { p with order := some l }) := by
  have last := Heap.alike_keepOrder after c fun _ => some l
  have all := alike.trans last
  have cached : ∀ k, (after.modifyClass c fun p => { p with order := some l }).cachedOrder? k =
      if k = c then (after.class? k).map fun _ => l else after.cachedOrder? k := by
    intro k
    unfold Heap.cachedOrder?
    rw [Heap.class?_modifyClass]
    split
    · cases after.class? k <;> rfl
    · rfl
  have grows : ∀ k, (after.cachedOrder? k).isSome →
      ((after.modifyClass c fun p => { p with order := some l }).cachedOrder? k).isSome := by
    intro k some
    rw [cached]
    split
    · next same =>
      obtain ⟨m, found⟩ := Option.isSome_iff_exists.1 some
      unfold Heap.cachedOrder? at found
      obtain ⟨part, isClass, -⟩ := Option.bind_eq_some_iff.1 found
      rw [isClass]
      rfl
    · exact some
  refine ⟨lin, all, ⟨fun k m found => ?_, fun k m found s link cls => ?_⟩, fun k some => grows k (stays k some), ?_⟩
  · rw [all.supersOf]
    rw [cached] at found
    split at found
    · next same =>
      obtain ⟨part, -, eq⟩ := Option.map_eq_some_iff.1 found
      rw [same, ← eq]
      exact lin
    · rw [← alike.supersOf]
      exact kept.linearizes k m found
  · rw [all.supersOf] at link
    rw [all.isSome_class?] at cls
    rw [cached] at found
    split at found
    · next same =>
      subst same
      exact grows s (known s link cls)
    · exact grows s (kept.above k m found s (alike.supersOf ▸ link) (by rwa [alike.isSome_class?]))
  · intro cls
    rw [cached, if_pos rfl, Option.isSome_map, alike.isSome_class?]
    exact cls

/-- The orders of several superclasses, computed one after the other. -/
private theorem foldl_computeOrder {fuel : Nat} {before : Objects} {order : Handle → List Handle} {supers : List Handle}
    (step : ∀ s ∈ supers, ∀ objects, Heap.Alike Object.withoutPrecedence before objects → OrdersKept objects →
      Computed objects s (order s) (computeOrder fuel objects s).2 ∧ (computeOrder fuel objects s).1 = order s)
    (done : List (List Handle)) (objects : Objects) (alike : Heap.Alike Object.withoutPrecedence before objects)
    (kept : OrdersKept objects) :
    let result := supers.foldl (fun (r : List (List Handle) × Objects) s =>
      (r.1 ++ [(computeOrder fuel r.2 s).1], (computeOrder fuel r.2 s).2)) (done, objects)
    result.1 = done ++ supers.map order ∧ Heap.Alike Object.withoutPrecedence before result.2 ∧
      OrdersKept result.2 ∧ (∀ k, (objects.cachedOrder? k).isSome → (result.2.cachedOrder? k).isSome) ∧
      ∀ s ∈ supers, (before.class? s).isSome → (result.2.cachedOrder? s).isSome := by
  induction supers generalizing done objects with
  | nil => exact ⟨by simp, alike, kept, fun _ some => some, by simp⟩
  | cons s supers ih =>
    obtain ⟨computed, same⟩ := step s List.mem_cons_self objects alike kept
    obtain ⟨orders, looks, keeps, stays, known⟩ := ih (fun t member => step t (List.mem_cons_of_mem _ member))
      (done ++ [(computeOrder fuel objects s).1]) (computeOrder fuel objects s).2 (alike.trans computed.alike)
      computed.kept
    refine ⟨?_, looks, keeps, fun k some => stays k (computed.stays k some), fun t member cls => ?_⟩
    · rw [List.foldl_cons, orders, same, List.map_cons, List.append_assoc, List.singleton_append]
    · rcases List.mem_cons.1 member with rfl | later
      · exact stays t (computed.here (by rwa [alike.isSome_class?]))
      · exact known t later cls

theorem computed_computeOrder (fuel : Nat) (objects : Objects) (c : Handle) (path : Finset Handle)
    (kept : OrdersKept objects) (ground : Grounded objects.supersOf c)
    (before : ∀ p ∈ path, Strictly objects.supersOf p c) (bound : (objects.handles \ path).card < fuel) :
    Computed objects c (computeOrder fuel objects c).1 (computeOrder fuel objects c).2 := by
  induction fuel generalizing objects c path with
  | zero => exact absurd bound (Nat.not_lt_zero _)
  | succ fuel ih =>
    unfold computeOrder
    split
    · next order found =>
      exact ⟨kept.linearizes c order found, .refl _, kept, fun _ some => some, fun _ => by rw [found]; rfl⟩
    · have each : ∀ a, ∃ l, Strictly objects.supersOf c a → Linearizes objects.supersOf a l := fun a => by
        by_cases up : Strictly objects.supersOf c a
        · obtain ⟨l, lin⟩ := exists_linearizes (ground.of_reaches up.to_reflTransGen)
          exact ⟨l, fun _ => lin⟩
        · exact ⟨[], fun no => absurd no up⟩
      choose order above using each
      have step : ∀ s ∈ objects.supersOf c, ∀ now, Heap.Alike Object.withoutPrecedence objects now → OrdersKept now →
          Computed now s (order s) (computeOrder fuel now s).2 ∧ (computeOrder fuel now s).1 = order s := by
        intro s link now alike keeps
        have member : c ∈ objects.handles := mem_handles_of_supersOf_ne_nil c (List.ne_nil_of_mem link)
        have fresh : c ∉ path := fun inside => ground.not_strictly (before c inside)
        have smaller : (now.handles \ insert c path).card < fuel := by
          have removed : objects.handles \ insert c path = (objects.handles \ path).erase c := by
            ext x
            simp only [Finset.mem_sdiff, Finset.mem_insert, Finset.mem_erase]
            tauto
          have inside : c ∈ objects.handles \ path := Finset.mem_sdiff.2 ⟨member, fresh⟩
          have positive := Finset.card_pos.2 ⟨c, inside⟩
          rw [Heap.handles_eq_of_layout alike.layout, removed, Finset.card_erase_of_mem inside]
          omega
        have below : ∀ p ∈ insert c path, Strictly now.supersOf p s := by
          rw [alike.supersOf]
          intro p inside
          rcases Finset.mem_insert.1 inside with rfl | inside
          · exact .single link
          · exact (before p inside).tail link
        have computed := ih now s (insert c path) keeps (by rw [alike.supersOf]; exact ground.inv link) below smaller
        have same : (computeOrder fuel now s).1 = order s := by
          have lin := computed.linearizes
          rw [alike.supersOf] at lin
          exact lin.unique (above s (.single link))
        exact ⟨same ▸ computed, same⟩
      obtain ⟨orders, alike, keeps, stays, known⟩ := foldl_computeOrder step [] objects (.refl _) kept
      have linearized := @orderFrom_eq _ keeps c order (by rw [alike.supersOf]; exact above)
        (by
          rw [alike.supersOf]
          exact fun s link cls => known s link (by rwa [← alike.isSome_class?]))
      rw [alike.supersOf] at linearized
      simp only [List.nil_append] at orders
      simp only [orders, linearized]
      exact .keep alike keeps stays (.intro order above) known

/-- A class from which no cycle is reached gets its order; no other class does. -/
theorem computed_precedenceOrder {objects : Objects} {c : Handle} (kept : OrdersKept objects)
    (cls : (objects.class? c).isSome) (ground : Grounded objects.supersOf c) :
    ∃ order after, precedenceOrder objects c = .ok (order, after) ∧ Computed objects c order after := by
  obtain ⟨part, found⟩ := Option.isSome_iff_exists.1 cls
  unfold precedenceOrder
  rw [found]
  simp only []
  cases cached : part.order with
  | some order =>
    have known : objects.cachedOrder? c = some order := by
      unfold Heap.cachedOrder?
      rw [found]
      exact cached
    exact ⟨order, objects, rfl, kept.linearizes c order known, .refl _, kept, fun _ some => some,
      fun _ => by rw [known]; rfl⟩
  | none =>
    simp only [cycle?_eq_none_iff.2 ground]
    have slots := objects.card_handles_le
    have bound : (objects.handles \ ∅).card < objects.totalSlots + 1 := by
      rw [Finset.sdiff_empty]
      omega
    exact ⟨_, _, rfl, computed_computeOrder (objects.totalSlots + 1) objects c ∅ kept ground (by simp) bound⟩

theorem precedenceOrder_eq_error {objects : Objects} {c : Handle} (kept : OrdersKept objects)
    (cls : (objects.class? c).isSome) (endless : ¬Grounded objects.supersOf c) :
    ∃ closing, precedenceOrder objects c = .error (.cycle (objects.nameOf c) (objects.nameOf closing)) := by
  obtain ⟨part, found⟩ := Option.isSome_iff_exists.1 cls
  unfold precedenceOrder
  rw [found]
  simp only []
  cases cached : part.order with
  | some order =>
    have known : objects.cachedOrder? c = some order := by
      unfold Heap.cachedOrder?
      rw [found]
      exact cached
    exact absurd (kept.linearizes c order known).grounded endless
  | none =>
    cases closes : cycle? objects c with
    | none => exact absurd (cycle?_eq_none_iff.1 closes) endless
    | some closing => exact ⟨closing, rfl⟩

end Hierarchy

end DynamicObjects
