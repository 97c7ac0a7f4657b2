import DynamicObjects.Proofs.Hierarchy.Linearization

/-!
# Agreement with what is declared

A merge decides between two heads and never looks behind them. Its result nevertheless agrees with the declared list of
superclasses, and with the order of each superclass, where the superclasses share their ancestors without gaps: what
both an earlier and a later one lead up to, those between them lead up to as well.
-/
namespace DynamicObjects.Hierarchy

/-! ## Leading -/

section leads

variable {a b x : Handle}

theorem Leads.trans {xs : List Handle} (first : Leads a b xs) (second : Leads b x xs) : Leads a x xs := by
  induction xs with
  | nil => trivial
  | cons y ys ih =>
    refine ⟨fun same => ?_, ih first.2 second.2⟩
    have later := second.2.sublist (first.1 same)
    exact later.subset (by simp)

theorem leads_append_of_not_mem {xs ys : List Handle} (absent : a ∉ xs) (leads : Leads a b ys) :
    Leads a b (xs ++ ys) := by
  induction xs with
  | nil => exact leads
  | cons y xs ih =>
    rw [List.mem_cons, not_or] at absent
    exact ⟨fun same => absurd same.symm absent.1, ih absent.2⟩

/-- In a list without repetitions nothing leads what stands in front of it. -/
theorem Leads.not_sublist {xs : List Handle} (leads : Leads a b xs) (nodup : xs.Nodup) : ¬[b, a].Sublist xs := by
  induction xs with
  | nil => exact fun before => nomatch before
  | cons y ys ih =>
    obtain ⟨fresh, rest⟩ := List.nodup_cons.1 nodup
    intro before
    cases before with
    | cons _ later => exact ih leads.2 rest later
    | cons_cons _ tail =>
      have member := List.singleton_sublist.1 tail
      obtain back := (leads.2.sublist member).subset (List.mem_cons_of_mem _ List.mem_cons_self)
      exact fresh back

theorem sublist_of_leads {chosen xs : List Handle} (members : ∀ s ∈ chosen, s ∈ xs)
    (leads : chosen.Pairwise (Leads · · xs)) : chosen.Sublist xs := by
  induction chosen generalizing xs with
  | nil => exact List.nil_sublist xs
  | cons s chosen ih =>
    obtain ⟨front, back, rfl⟩ := List.append_of_mem (members s List.mem_cons_self)
    obtain ⟨first, others⟩ := List.pairwise_cons.1 leads
    refine List.Sublist.trans ?_ (List.sublist_append_right front _)
    refine .cons_cons s (ih (fun t later => ?_) (others.imp fun pair => pair.append_left.2))
    exact (first t later).append_left.1 rfl

theorem sublist_of_sublist_append {xs ys : List Handle} (order : [a, b].Sublist (xs ++ ys)) (absent : a ∉ xs) :
    [a, b].Sublist ys := by
  induction xs with
  | nil => exact order
  | cons x xs ih =>
    rw [List.mem_cons, not_or] at absent
    cases order with
    | cons _ later => exact ih later absent.2
    | cons_cons _ _ => exact absurd rfl absent.1

theorem sublist_or_sublist_of_mem {xs : List Handle} (left : a ∈ xs) (right : b ∈ xs) (different : a ≠ b) :
    [a, b].Sublist xs ∨ [b, a].Sublist xs := by
  obtain ⟨front, back, rfl⟩ := List.append_of_mem left
  rcases List.mem_append.1 right with before | after
  · exact .inr ((List.singleton_sublist.2 before).append (List.singleton_sublist.2 List.mem_cons_self))
  · refine .inl ((List.Sublist.cons_cons a ?_).trans (List.sublist_append_right front _))
    exact List.singleton_sublist.2 ((List.mem_cons.1 after).resolve_left different.symm)

end leads

/-! ## Merges one by one -/

section merge

variable {precedes : Handle → Handle → Bool}

theorem mergeAll_concat {orders : List (List Handle)} (some : orders ≠ []) (last : List Handle) :
    mergeAll precedes (orders ++ [last]) = mergeTwo precedes [] (mergeAll precedes orders) last := by
  obtain ⟨first, rest, rfl⟩ := List.exists_cons_of_ne_nil some
  simp [mergeAll]

/-- What the head of the other order neither is nor has to precede goes first. -/
theorem interleave_append {front : List Handle} {y : Handle}
    (free : ∀ x ∈ front, x ≠ y ∧ precedes y x = false) (back ys : List Handle) :
    interleave precedes (front ++ back) (y :: ys) = front ++ interleave precedes back (y :: ys) := by
  induction front with
  | nil => rfl
  | cons x front ih =>
    obtain ⟨different, other⟩ := free x List.mem_cons_self
    rw [List.cons_append, interleave, if_neg different, if_neg (by simp [other]),
      ih fun z member => free z (List.mem_cons_of_mem _ member), List.cons_append]

/-- Orders are kept by a merge that finds no shared element behind one that is not shared, unless that one has to
precede it. -/
theorem sublist_interleave {xs ys : List Handle} (left : xs.Nodup) (right : ys.Nodup)
    (ahead : ∀ x ∈ xs, ∀ m, [m, x].Sublist ys → [m, x].Sublist xs ∨ precedes m x = true)
    (behind : ∀ y ∈ ys, ∀ u, [u, y].Sublist xs → precedes y u = false) :
    (interleave precedes xs ys).Nodup ∧ xs.Sublist (interleave precedes xs ys) ∧
      ys.Sublist (interleave precedes xs ys) := by
  fun_induction interleave precedes xs ys with
  | case1 ys => exact ⟨right, List.nil_sublist _, .refl _⟩
  | case2 x xs => exact ⟨left, .refl _, List.nil_sublist _⟩
  | case3 xs x ys ih =>
    obtain ⟨freshLeft, left⟩ := List.nodup_cons.1 left
    obtain ⟨freshRight, right⟩ := List.nodup_cons.1 right
    obtain ⟨nodup, one, two⟩ := ih left right
      (fun z member m before => by
        have inside := before.subset List.mem_cons_self
        refine (ahead z (List.mem_cons_of_mem _ member) m (.cons _ before)).imp_left fun order => ?_
        cases order with
        | cons _ later => exact later
        | cons_cons _ _ => exact absurd inside freshRight)
      fun y member u before => behind y (List.mem_cons_of_mem _ member) u (.cons _ before)
    refine ⟨List.nodup_cons.2 ⟨fun inside => ?_, nodup⟩, .cons_cons x one, .cons_cons x two⟩
    exact (mem_interleave.1 inside).elim freshLeft freshRight
  | case4 x xs y ys different first ih =>
    obtain ⟨fresh, rest⟩ := List.nodup_cons.1 right
    obtain ⟨nodup, one, two⟩ := ih left rest (fun z member m before => ahead z member m (.cons _ before))
      fun z member u before => behind z (List.mem_cons_of_mem _ member) u before
    refine ⟨List.nodup_cons.2 ⟨fun inside => ?_, nodup⟩, .cons _ one, .cons_cons y two⟩
    refine (mem_interleave.1 inside).elim (fun shared => ?_) fresh
    have later := (List.mem_cons.1 shared).resolve_left (Ne.symm different)
    have kept := behind y List.mem_cons_self x (.cons_cons x (List.singleton_sublist.2 later))
    rw [first] at kept
    cases kept
  | case5 x xs y ys different other ih =>
    obtain ⟨fresh, rest⟩ := List.nodup_cons.1 left
    have absent : x ∉ y :: ys := fun shared => by
      have later := (List.mem_cons.1 shared).resolve_left different
      rcases ahead x List.mem_cons_self y (.cons_cons y (List.singleton_sublist.2 later)) with order | first
      · cases order with
        | cons _ later => exact fresh (later.subset (by simp))
        | cons_cons _ _ => exact different rfl
      · exact other first
    obtain ⟨nodup, one, two⟩ := ih rest right
      (fun z member m before => by
        have inside := before.subset List.mem_cons_self
        refine (ahead z (List.mem_cons_of_mem _ member) m before).imp_left fun order => ?_
        cases order with
        | cons _ later => exact later
        | cons_cons _ _ => exact absurd inside absent)
      fun z member u before => behind z member u (.cons _ before)
    refine ⟨List.nodup_cons.2 ⟨fun inside => ?_, nodup⟩, .cons_cons x one, .cons _ two⟩
    exact (mem_interleave.1 inside).elim fresh absent

end merge

/-! ## Superclasses in declared order -/

section declared

variable {supers : Handle → List Handle} {c : Handle} {l : List Handle}

theorem Linearizes.leads_of_strictly (lin : Linearizes supers c l) {a b : Handle} (path : Strictly supers a b) :
    Leads a b l := by
  induction path with
  | single link => exact lin.leads link
  | tail _ link ih => exact ih.trans (lin.leads link)

/-- No superclass is declared before one that it inherits from, nor twice. -/
def DependenceKept (supers : Handle → List Handle) (c : Handle) : Prop :=
  (supers c).Pairwise fun a b => ¬Reaches supers b a

theorem DependenceKept.nodup (dependence : DependenceKept supers c) : (supers c).Nodup := by
  refine List.Pairwise.imp ?_ dependence
  intro a b unrelated same
  exact unrelated (same ▸ .refl)

/-- What both an earlier and a later superclass lead up to, those declared between them lead up to as well. -/
def SharedThroughout (supers : Handle → List Handle) (c : Handle) : Prop :=
  ∀ a m b k, [a, m, b].Sublist (supers c) → Reaches supers a k → Reaches supers b k → Reaches supers m k

theorem sublist_of_idxOf? {declared : List Handle} {a b : Handle} {i j : Nat} (first : declared.idxOf? b = some i)
    (second : declared.idxOf? a = some j) (before : i < j) : [b, a].Sublist declared := by
  induction declared generalizing i j with
  | nil => cases first
  | cons d declared ih =>
    rw [List.idxOf?_cons] at first second
    split at second
    · cases second
      exact absurd before (Nat.not_lt_zero _)
    · obtain ⟨n, later, rfl⟩ := Option.map_eq_some_iff.1 second
      split at first
      · next same =>
        rw [beq_iff_eq.1 same]
        refine .cons_cons b (List.singleton_sublist.2 ?_)
        exact List.isSome_idxOf?.1 (by rw [later]; rfl)
      · obtain ⟨m, early, rfl⟩ := Option.map_eq_some_iff.1 first
        exact .cons _ (ih early later (Nat.lt_of_succ_lt_succ before))

/-- A class has to come before what its order holds and before the superclasses declared after it. -/
theorem ranks_eq_true {order : Handle → List Handle} {declared : List Handle} {b a : Handle}
    (ranked : ranks order declared b a = true) : a ∈ order b ∨ [b, a].Sublist declared := by
  unfold ranks at ranked
  rcases Bool.or_eq_true_iff.1 ranked with inside | before
  · exact .inl (by simpa using inside)
  · refine .inr ?_
    split at before
    · next i j first second => exact sublist_of_idxOf? first second (of_decide_eq_true before)
    · cases before

/-- The merged orders of the superclasses in `pre`, some of those that are declared. -/
def merged (order : Handle → List Handle) (declared pre : List Handle) : List Handle :=
  mergeAll (ranks order declared) (pre.map order)

theorem merged_concat {order : Handle → List Handle} {declared pre : List Handle} (some : pre ≠ []) (b : Handle) :
    merged order declared (pre ++ [b]) =
      (interleave (ranks order declared) (merged order declared pre) (order b)).foldl place [] := by
  unfold merged
  rw [List.map_append, List.map_singleton, mergeAll_concat (by simpa using some), mergeTwo_eq_foldl_place]

section merged

variable {order : Handle → List Handle} (above : ∀ a, Strictly supers c a → Linearizes supers a (order a))
  {pre : List Handle} (listed : ∀ s ∈ pre, s ∈ supers c)

include above

theorem mem_order {s x : Handle} (link : s ∈ supers c) : x ∈ order s ↔ Reaches supers s x :=
  (above s (.single link)).mem_iff

include listed

theorem mem_merged {x : Handle} : x ∈ merged order (supers c) pre ↔ ∃ s ∈ pre, Reaches supers s x := by
  unfold merged
  rw [mem_mergeAll]
  constructor
  · rintro ⟨_, member, inside⟩
    obtain ⟨s, here, rfl⟩ := List.mem_map.1 member
    exact ⟨s, here, (mem_order above (listed s here)).1 inside⟩
  · rintro ⟨s, here, path⟩
    exact ⟨order s, List.mem_map_of_mem here, (mem_order above (listed s here)).2 path⟩

theorem nodup_merged : (merged order (supers c) pre).Nodup := by
  refine nodup_mergeAll fun one member => ?_
  obtain ⟨s, here, rfl⟩ := List.mem_map.1 member
  exact (above s (.single (listed s here))).nodup

theorem leads_merged {a b : Handle} (path : Strictly supers a b) : Leads a b (merged order (supers c) pre) := by
  refine leads_mergeAll fun one member => ?_
  obtain ⟨s, here, rfl⟩ := List.mem_map.1 member
  exact (above s (.single (listed s here))).leads_of_strictly path

/-- What stands in front of a class in merged orders is not above that class. -/
theorem not_reaches_of_sublist {x s : Handle} (ahead : [x, s].Sublist (merged order (supers c) pre)) :
    ¬Reaches supers s x := by
  have nodup := nodup_merged above listed
  intro path
  rcases Relation.reflTransGen_iff_eq_or_transGen.1 path with rfl | strict
  · exact (List.nodup_cons.1 (nodup.sublist ahead)).1 List.mem_cons_self
  · exact (leads_merged above listed strict).not_sublist nodup ahead

end merged

section next

variable {order : Handle → List Handle} (above : ∀ a, Strictly supers c a → Linearizes supers a (order a))
  (dependence : DependenceKept supers c) (shared : SharedThroughout supers c)
  {pre post : List Handle} {b : Handle} (declared : supers c = pre ++ b :: post)
  (leads : pre.Pairwise (Leads · · (merged order (supers c) pre)))

include dependence declared in
theorem not_reaches_merged {s t : Handle} (member : s ∈ pre) (later : t ∈ b :: post) : ¬Reaches supers t s := by
  unfold DependenceKept at dependence
  rw [declared] at dependence
  exact (List.pairwise_append.1 dependence).2.2 s member t later

include above shared declared leads

/-- What stands in front of a superclass in merged orders belongs to no superclass that is declared later. -/
theorem not_reaches_of_ahead {s t x : Handle} (member : s ∈ pre) (later : t ∈ b :: post)
    (ahead : [x, s].Sublist (merged order (supers c) pre)) : ¬Reaches supers t x := by
  have listed : ∀ x ∈ pre, x ∈ supers c := fun x here => declared ▸ List.mem_append_left _ here
  have nodup := nodup_merged above listed
  have below := not_reaches_of_sublist above listed ahead
  intro path
  obtain ⟨l, here, down⟩ := (mem_merged above listed).1 (ahead.subset List.mem_cons_self)
  obtain ⟨front, back, rfl⟩ := List.append_of_mem member
  rcases List.mem_append.1 here with earlier | here
  · refine below (shared l s t x ?_ down path)
    rw [declared, List.append_assoc]
    refine (List.singleton_sublist.2 earlier).append (.cons_cons s ?_)
    exact List.singleton_sublist.2 (List.mem_append_right back later)
  rcases List.mem_cons.1 here with rfl | after
  · exact below down
  · have toward := (List.pairwise_cons.1 (List.pairwise_append.1 leads).2.1).1 l after
    rcases Relation.reflTransGen_iff_eq_or_transGen.1 down with rfl | strict
    · exact toward.not_sublist nodup ahead
    · exact (toward.trans (leads_merged above listed strict)).not_sublist nodup ahead

include dependence

/-- A superclass that is merged already leads the one whose order is merged next: nothing up to it makes room for that
order. -/
theorem leads_merged_concat {s : Handle} (member : s ∈ pre) : Leads s b (merged order (supers c) (pre ++ [b])) := by
  have listed : ∀ x ∈ pre, x ∈ supers c := fun x here => declared ▸ List.mem_append_left _ here
  have next : b ∈ supers c := declared ▸ List.mem_append_right pre List.mem_cons_self
  have nodup := nodup_merged above listed
  obtain ⟨ys, heads⟩ := List.head?_eq_some_iff.1 (above b (.single next)).head?
  obtain ⟨front, back, split⟩ := List.append_of_mem ((mem_merged above listed).2 ⟨s, member, .refl⟩)
  have free : ∀ t ∈ b :: post, ∀ x ∈ front ++ [s], ¬Reaches supers t x := by
    intro t later x ahead
    rcases List.mem_append.1 ahead with early | last
    · refine not_reaches_of_ahead above shared declared leads member later ?_
      rw [split]
      exact (List.singleton_sublist.2 early).append (List.singleton_sublist.2 List.mem_cons_self)
    · rw [List.mem_singleton.1 last]
      exact not_reaches_merged dependence declared member later
  have unranked : ∀ x ∈ front ++ [s], x ≠ b ∧ ranks order (supers c) b x = false := by
    intro x ahead
    refine ⟨fun same => free b List.mem_cons_self x ahead (same ▸ .refl), Bool.eq_false_iff.2 fun ranked => ?_⟩
    rcases ranks_eq_true ranked with inside | before
    · exact free b List.mem_cons_self x ahead ((mem_order above next).1 inside)
    · have leads := leads_of_sublist dependence.nodup before
      rw [declared] at leads
      have behind : x ∈ post := leads.append_left.1 rfl
      exact free x (List.mem_cons_of_mem _ behind) x ahead .refl
  have fresh : s ∉ front ∧ s ∉ back := by
    rw [split, List.nodup_middle, List.nodup_cons, List.mem_append, not_or] at nodup
    exact nodup.1
  have absent : s ∉ b :: ys := fun inside => by
    rw [← heads, mem_order above next] at inside
    exact not_reaches_merged dependence declared member List.mem_cons_self inside
  rw [merged_concat (List.ne_nil_of_mem member), split, heads, List.append_cons,
    interleave_append unranked]
  refine leads_foldl_place ?_
  rw [List.nil_append, List.append_assoc, List.singleton_append]
  refine leads_append_of_not_mem fresh.1 ⟨fun _ => mem_interleave.2 (.inr List.mem_cons_self), leads_of_not_mem ?_⟩
  exact fun inside => (mem_interleave.1 inside).elim fresh.2 absent

end next

/-- Superclasses stand in declared order where what some of them share is shared throughout. -/
theorem Linearizes.declared_sublist (lin : Linearizes supers c l) (dependence : DependenceKept supers c)
    (shared : SharedThroughout supers c) : (supers c).Sublist l := by
  cases lin with
  | intro order above =>
    have leads : ∀ pre, pre <+: supers c → pre.Pairwise (Leads · · (merged order (supers c) pre)) := by
      intro pre declared
      induction pre using List.reverseRecOn with
      | nil => exact .nil
      | append_singleton pre b ih =>
        obtain ⟨post, split⟩ := declared
        rw [List.append_assoc, List.singleton_append] at split
        replace ih := ih ⟨b :: post, split⟩
        refine List.pairwise_append.2 ⟨?_, List.pairwise_singleton _ _, fun s member t last => ?_⟩
        · refine ih.imp_of_mem fun {s t} one _ pair => ?_
          have unrelated : s ∉ order b := fun inside =>
            not_reaches_merged dependence split.symm one List.mem_cons_self
              ((mem_order above (split ▸ List.mem_append_right pre List.mem_cons_self)).1 inside)
          rw [merged_concat (List.ne_nil_of_mem one)]
          exact leads_foldl_place (leads_interleave pair (leads_of_not_mem unrelated))
        · rw [List.mem_singleton.1 last]
          exact leads_merged_concat above dependence shared split.symm ih member
    refine .cons c (sublist_of_leads (fun s link => ?_) (leads _ List.prefix_rfl))
    exact mem_mergeAll.2 ⟨order s, List.mem_map_of_mem link, (mem_order above link).2 .refl⟩

end declared

/-! ## The orders of the superclasses -/

section monotone

variable {supers : Handle → List Handle} {c : Handle} {l : List Handle} {order : Handle → List Handle}

/-- A superclass declared between one and another that it inherits from inherits from that as well. -/
def InheritedThroughout (supers : Handle → List Handle) (c : Handle) : Prop :=
  ∀ a m b, [a, m, b].Sublist (supers c) → Reaches supers a b → Reaches supers m b

/-- Whatever stands in the order of a superclass in front of a class that is shared with an earlier superclass is shared
with that as well, or inherits from the class. -/
def SharedFromFront (supers : Handle → List Handle) (order : Handle → List Handle) (c : Handle) : Prop :=
  ∀ s t m x, [s, t].Sublist (supers c) → x ∈ order s → [m, x].Sublist (order t) → m ∈ order s ∨ Reaches supers m x

/-- One list in which no class stands twice holds the declared superclasses and the order of each of them. -/
structure Agrees (supers : Handle → List Handle) (order : Handle → List Handle) (c : Handle) (total : List Handle) :
    Prop where
  nodup : total.Nodup
  declared : (supers c).Sublist total
  orders : ∀ s ∈ supers c, (order s).Sublist total

/-- No two classes stand in opposite orders in parts of a list without repetitions. -/
theorem not_sublist_of_sublist {total xs ys : List Handle} (nodup : total.Nodup) (one : xs.Sublist total)
    (two : ys.Sublist total) {a b : Handle} (before : [a, b].Sublist xs) : ¬[b, a].Sublist ys := fun after =>
  (leads_of_sublist nodup (before.trans one)).not_sublist nodup (after.trans two)

section next

variable (above : ∀ a, Strictly supers c a → Linearizes supers a (order a)) {total : List Handle}
  (agrees : Agrees supers order c total) {pre post : List Handle} {b : Handle}
  (declared : supers c = pre ++ b :: post)

include above agrees declared

theorem ahead_merged (front : SharedFromFront supers order c)
    (kept : ∀ s ∈ pre, (order s).Sublist (merged order (supers c) pre)) {m x : Handle}
    (member : x ∈ merged order (supers c) pre) (before : [m, x].Sublist (order b)) :
    [m, x].Sublist (merged order (supers c) pre) ∨ ranks order (supers c) m x = true := by
  have listed : ∀ s ∈ pre, s ∈ supers c := fun s here => declared ▸ List.mem_append_left _ here
  have next : b ∈ supers c := declared ▸ List.mem_append_right pre List.mem_cons_self
  obtain ⟨s, here, path⟩ := (mem_merged above listed).1 member
  have pair : [s, b].Sublist (supers c) := by
    rw [declared]
    exact (List.singleton_sublist.2 here).append (List.singleton_sublist.2 List.mem_cons_self)
  have inside := (mem_order above (listed s here)).2 path
  rcases front s b m x pair inside before with shared | down
  · refine .inl (List.Sublist.trans ?_ (kept s here))
    have different : m ≠ x := fun same => by
      have nodup := (above b (.single next)).nodup.sublist before
      rw [same] at nodup
      exact (List.nodup_cons.1 nodup).1 List.mem_cons_self
    refine (sublist_or_sublist_of_mem shared inside different).resolve_right ?_
    exact not_sublist_of_sublist agrees.nodup (agrees.orders b next) (agrees.orders s (listed s here)) before
  · have up := (mem_order above next).1 (before.subset List.mem_cons_self)
    refine .inr ?_
    simp [ranks, (above m (Relation.TransGen.head' next up)).mem_iff.2 down]

theorem behind_merged (through : InheritedThroughout supers c) {y u : Handle} (member : y ∈ order b)
    (before : [u, y].Sublist (merged order (supers c) pre)) : ranks order (supers c) y u = false := by
  have listed : ∀ s ∈ pre, s ∈ supers c := fun s here => declared ▸ List.mem_append_left _ here
  have next : b ∈ supers c := declared ▸ List.mem_append_right pre List.mem_cons_self
  have path := (mem_order above next).1 member
  have unrelated := not_reaches_of_sublist above listed before
  refine Bool.eq_false_iff.2 fun ranked => ?_
  rcases ranks_eq_true ranked with inside | pair
  · exact unrelated ((above y (Relation.TransGen.head' next path)).mem_iff.1 inside)
  obtain ⟨s, here, down⟩ := (mem_merged above listed).1 (before.subset List.mem_cons_self)
  have nodup := agrees.declared.nodup agrees.nodup
  have later : y ∉ pre := fun early => by
    have first : [y, b].Sublist (supers c) := by
      rw [declared]
      exact (List.singleton_sublist.2 early).append (List.singleton_sublist.2 List.mem_cons_self)
    rcases Relation.reflTransGen_iff_eq_or_transGen.1 path with rfl | strict
    · exact (List.nodup_cons.1 (nodup.sublist first)).1 List.mem_cons_self
    · have lin := above b (.single next)
      refine not_sublist_of_sublist agrees.nodup agrees.declared (agrees.orders b next) first ?_
      exact (lin.leads_of_strictly strict).sublist (lin.mem_iff.2 .refl)
  refine unrelated (through s y u ?_ down)
  rw [declared] at pair ⊢
  exact (List.singleton_sublist.2 here).append (sublist_of_sublist_append pair later)

end next

/-- Where one list holds the declared superclasses and their orders, and what is shared is shared from the front, the
order of each superclass is kept. -/
theorem sublist_of_agrees (above : ∀ a, Strictly supers c a → Linearizes supers a (order a)) {total : List Handle}
    (agrees : Agrees supers order c total) (through : InheritedThroughout supers c)
    (front : SharedFromFront supers order c) (lin : Linearizes supers c l) {s : Handle} (link : s ∈ supers c) :
    (order s).Sublist l := by
  have kept : ∀ pre, pre <+: supers c → ∀ s ∈ pre, (order s).Sublist (merged order (supers c) pre) := by
    intro pre declared
    induction pre using List.reverseRecOn with
    | nil => exact fun s here => nomatch here
    | append_singleton pre b ih =>
      obtain ⟨post, split⟩ := declared
      rw [List.append_assoc, List.singleton_append] at split
      replace ih := ih ⟨b :: post, split⟩
      have listed : ∀ s ∈ pre, s ∈ supers c := fun s here => split ▸ List.mem_append_left _ here
      have next : b ∈ supers c := split ▸ List.mem_append_right pre List.mem_cons_self
      by_cases first : pre = []
      · subst first
        exact fun s here => by rw [List.mem_singleton.1 here]; exact .refl _
      · obtain ⟨nodup, one, two⟩ := sublist_interleave (nodup_merged above listed) (above b (.single next)).nodup
          (fun x member m before => ahead_merged above agrees split.symm front ih member before)
          fun y member u before => behind_merged above agrees split.symm through member before
        rw [merged_concat first, foldl_place_eq_append nodup fun _ _ => List.not_mem_nil, List.nil_append]
        intro s here
        rcases List.mem_append.1 here with early | last
        · exact (ih s early).trans one
        · rw [List.mem_singleton.1 last]
          exact two
  rw [lin.unique (.intro order above)]
  exact .cons c (kept _ List.prefix_rfl s link)

end monotone

end DynamicObjects.Hierarchy
