import Mathlib.Logic.Relation
import DynamicObjects.Hierarchy.Walk
import DynamicObjects.Proofs.Heap

/-!
# What walks find

A walk finishes exactly the handles that it reaches, each once and the start of the walk last of all. The search for a
cycle fails exactly where one can be reached. Both carry fuel, which is more than the number of handles with links.
-/
namespace DynamicObjects.Hierarchy

/-- `b` is reached from `a` along links. -/
abbrev Reaches (links : Handle → List Handle) : Handle → Handle → Prop :=
  Relation.ReflTransGen fun a b => b ∈ links a

/-- `b` is reached from `a` along at least one link. -/
abbrev Strictly (links : Handle → List Handle) : Handle → Handle → Prop :=
  Relation.TransGen fun a b => b ∈ links a

/-- All paths that leave `c` end. -/
abbrev Grounded (links : Handle → List Handle) (c : Handle) : Prop :=
  Acc (fun b a => b ∈ links a) c

/-- A cycle is reached from `c`. -/
def OnCycle (links : Handle → List Handle) (c : Handle) : Prop :=
  ∃ x, Reaches links c x ∧ Strictly links x x

section ground

variable {links : Handle → List Handle} {a b c : Handle}

theorem Grounded.of_reaches (ground : Grounded links a) (path : Reaches links a b) : Grounded links b := by
  induction path with
  | refl => exact ground
  | tail _ link ih => exact ih.inv link

theorem Grounded.not_strictly (ground : Grounded links a) : ¬Strictly links a a := by
  induction ground with
  | intro a _ ih =>
    intro cycle
    obtain ⟨b, link, path⟩ := Relation.TransGen.head'_iff.1 cycle
    exact ih b link (Relation.TransGen.tail' path link)

theorem Grounded.not_onCycle (ground : Grounded links c) : ¬OnCycle links c := by
  rintro ⟨x, path, cycle⟩
  exact (ground.of_reaches path).not_strictly cycle

/-- Handles with links are among `domain`, so a path that repeats none of them has at most as many. -/
theorem grounded_of_not_onCycle {domain : Finset Handle} (linked : ∀ h, links h ≠ [] → h ∈ domain)
    (free : ¬OnCycle links c) : Grounded links c := by
  suffices all : ∀ (n : Nat) (path : Finset Handle) (c : Handle), (domain \ path).card < n →
      (∀ p ∈ path, Strictly links p c) → ¬OnCycle links c → Grounded links c from
    all _ ∅ c (Nat.lt_succ_self _) (by simp) free
  intro n
  induction n with
  | zero => intro _ _ bound; exact absurd bound (Nat.not_lt_zero _)
  | succ n ih =>
    intro path c bound before free
    refine Acc.intro c fun b link => ?_
    have member : c ∈ domain := linked c (List.ne_nil_of_mem link)
    have fresh : c ∉ path := fun inside => free ⟨c, .refl, before c inside⟩
    have smaller : (domain \ insert c path).card < n := by
      have removed : domain \ insert c path = (domain \ path).erase c := by
        ext x
        simp only [Finset.mem_sdiff, Finset.mem_insert, Finset.mem_erase]
        tauto
      rw [removed, Finset.card_erase_of_mem (Finset.mem_sdiff.2 ⟨member, fresh⟩)]
      have positive : 0 < (domain \ path).card := Finset.card_pos.2 ⟨c, Finset.mem_sdiff.2 ⟨member, fresh⟩⟩
      omega
    refine ih (insert c path) b smaller (fun p inside => ?_) ?_
    · rcases Finset.mem_insert.1 inside with rfl | inside
      · exact .single link
      · exact (before p inside).tail link
    · rintro ⟨x, onward, cycle⟩
      exact free ⟨x, .head link onward, cycle⟩

end ground

/-! ## Walks -/

/-- A walk without fuel: from where it stands `before`, the handles in `starts` are walked from one after the other, and
it then stands at `after`. -/
inductive Walks (links : Handle → List Handle) : (before : Walk) → (starts : List Handle) → (after : Walk) → Prop
  | nil (w : Walk) : Walks links w [] w
  | skip {w after : Walk} {h : Handle} {hs : List Handle} (begun : h ∈ w.begun) (onward : Walks links w hs after) :
      Walks links w (h :: hs) after
  | enter {w inner after : Walk} {h : Handle} {hs : List Handle} (fresh : h ∉ w.begun)
      (deeper : Walks links { w with begun := h :: w.begun } (links h) inner)
      (onward : Walks links { inner with finished := h :: inner.finished } hs after) : Walks links w (h :: hs) after

/-- What a walk from `starts` adds: `new` is finished in front of what was finished before. -/
structure Grows (links : Handle → List Handle) (starts : List Handle) (before after : Walk)
    (new : List Handle) : Prop where
  finished : after.finished = new ++ before.finished
  begun : ∀ k, k ∈ after.begun ↔ k ∈ before.begun ∨ k ∈ new
  nodup : new.Nodup
  fresh : ∀ k ∈ new, k ∉ before.begun
  reached : ∀ k ∈ new, ∃ h ∈ starts, Reaches links h k
  closed : ∀ k ∈ new, ∀ x ∈ links k, x ∈ after.begun
  starts : ∀ h ∈ starts, h ∈ after.begun

section walks

variable {links : Handle → List Handle} {w between after : Walk} {h : Handle} {hs more : List Handle}

theorem Grows.append {first second : List Handle} (one : Grows links hs w between first)
    (rest : Grows links more between after second) : Grows links (hs ++ more) w after (second ++ first) := by
  have grown : ∀ k ∈ w.begun, k ∈ between.begun := fun k begun => (one.begun k).2 (.inl begun)
  have kept : ∀ k ∈ between.begun, k ∈ after.begun := fun k begun => (rest.begun k).2 (.inl begun)
  refine ⟨?_, ?_, ?_, ?_, ?_, ?_, ?_⟩
  · rw [rest.finished, one.finished, List.append_assoc]
  · intro k
    rw [rest.begun, one.begun, List.mem_append]
    tauto
  · refine List.nodup_append.2 ⟨rest.nodup, one.nodup, ?_⟩
    rintro k late _ early rfl
    exact rest.fresh k late ((one.begun k).2 (.inr early))
  · intro k member
    rcases List.mem_append.1 member with late | early
    · exact fun begun => rest.fresh k late (grown k begun)
    · exact one.fresh k early
  · intro k member
    rcases List.mem_append.1 member with late | early
    · obtain ⟨start, inside, path⟩ := rest.reached k late
      exact ⟨start, List.mem_append_right _ inside, path⟩
    · obtain ⟨start, inside, path⟩ := one.reached k early
      exact ⟨start, List.mem_append_left _ inside, path⟩
  · intro k member x link
    rcases List.mem_append.1 member with late | early
    · exact rest.closed k late x link
    · exact kept x (one.closed k early x link)
  · intro start member
    rcases List.mem_append.1 member with inside | inside
    · exact kept start (one.starts start inside)
    · exact rest.starts start inside

theorem Grows.enter {inner : Walk} {new : List Handle} (fresh : h ∉ w.begun)
    (grown : Grows links (links h) { w with begun := h :: w.begun } inner new) :
    Grows links [h] w { inner with finished := h :: inner.finished } (h :: new) := by
  refine ⟨?_, ?_, ?_, ?_, ?_, ?_, ?_⟩
  · exact congrArg (h :: ·) grown.finished
  · intro k
    rw [grown.begun, List.mem_cons, List.mem_cons]
    tauto
  · exact List.nodup_cons.2 ⟨fun inside => grown.fresh h inside List.mem_cons_self, grown.nodup⟩
  · intro k member
    rcases List.mem_cons.1 member with rfl | inside
    · exact fresh
    · exact fun begun => grown.fresh k inside (List.mem_cons_of_mem _ begun)
  · intro k member
    refine ⟨h, List.mem_cons_self, ?_⟩
    rcases List.mem_cons.1 member with rfl | inside
    · exact .refl
    · obtain ⟨start, link, path⟩ := grown.reached k inside
      exact .head link path
  · intro k member x link
    rcases List.mem_cons.1 member with rfl | inside
    · exact grown.starts x link
    · exact grown.closed k inside x link
  · intro start member
    rw [List.mem_singleton.1 member]
    exact (grown.begun h).2 (.inl List.mem_cons_self)

namespace Walks

theorem grows (walks : Walks links w hs after) : ∃ new, Grows links hs w after new := by
  induction walks with
  | nil => exact ⟨[], by constructor <;> simp⟩
  | @skip w _ h _ begun _ ih =>
    obtain ⟨new, grown⟩ := ih
    have standing : Grows links [h] w w [] := by constructor <;> simp [begun]
    exact ⟨_, standing.append grown⟩
  | enter fresh _ _ ihDeeper ihOnward =>
    obtain ⟨new, deeper⟩ := ihDeeper
    obtain ⟨more, onward⟩ := ihOnward
    exact ⟨_, (deeper.enter fresh).append onward⟩

theorem append (first : Walks links w hs between) (second : Walks links between more after) :
    Walks links w (hs ++ more) after := by
  induction first with
  | nil => exact second
  | skip begun _ ih => exact .skip begun (ih second)
  | enter fresh deeper _ _ ih => exact .enter fresh deeper (ih second)

/-- There is one way to walk. -/
theorem unique {other : Walk} (first : Walks links w hs after) (second : Walks links w hs other) : other = after := by
  induction first generalizing other with
  | nil =>
    cases second
    rfl
  | skip begun _ ih =>
    cases second with
    | skip _ onward => exact ih onward
    | enter fresh => exact absurd begun fresh
  | enter fresh _ _ ihDeeper ihOnward =>
    cases second with
    | skip begun => exact absurd begun fresh
    | enter _ deeper onward =>
      obtain rfl := ihDeeper deeper
      exact ihOnward onward

end Walks

end walks

/-- The handles with links that a walk has not begun; each step begins one of them. -/
def pending (domain : Finset Handle) (w : Walk) : Nat :=
  (domain.filter (· ∉ w.begun)).card

theorem pending_mono {domain : Finset Handle} {v w : Walk} (grown : ∀ k ∈ v.begun, k ∈ w.begun) :
    pending domain w ≤ pending domain v := by
  refine Finset.card_le_card fun k member => ?_
  have parts := Finset.mem_filter.1 member
  exact Finset.mem_filter.2 ⟨parts.1, fun begun => parts.2 (grown k begun)⟩

theorem pending_cons_lt {domain : Finset Handle} {w : Walk} {h : Handle} (member : h ∈ domain)
    (fresh : h ∉ w.begun) : pending domain { w with begun := h :: w.begun } < pending domain w := by
  refine Finset.card_lt_card (Finset.ssubset_iff_subset_ne.2 ⟨fun k inside => ?_, fun same => ?_⟩)
  · have parts := Finset.mem_filter.1 inside
    exact Finset.mem_filter.2 ⟨parts.1, fun begun => parts.2 (List.mem_cons_of_mem _ begun)⟩
  · have inside : h ∈ domain.filter (· ∉ w.begun) := Finset.mem_filter.2 ⟨member, fresh⟩
    rw [← same] at inside
    exact (Finset.mem_filter.1 inside).2 List.mem_cons_self

section walk

variable {links : Handle → List Handle} {domain : Finset Handle}

/-- A walk from several handles one after the other, once walks from single handles have enough fuel. -/
private theorem walks_foldl {fuel : Nat}
    (step : ∀ w h, pending domain w < fuel → Walks links w [h] (walkFrom links fuel w h))
    (hs : List Handle) (w : Walk) (bound : hs ≠ [] → pending domain w < fuel) :
    Walks links w hs (hs.foldl (walkFrom links fuel) w) := by
  induction hs generalizing w with
  | nil => exact .nil w
  | cons h hs ih =>
    have one := step w h (bound (by simp))
    obtain ⟨new, grown⟩ := one.grows
    have smaller := @pending_mono domain _ _ fun k begun => (grown.begun k).2 (.inl begun)
    exact one.append (ih (walkFrom links fuel w h) fun _ => lt_of_le_of_lt smaller (bound (by simp)))

/-- With more fuel than handles that have links and are not begun, fuel plays no part. -/
theorem walks_walkFrom (linked : ∀ h, links h ≠ [] → h ∈ domain) (fuel : Nat) (w : Walk) (h : Handle)
    (bound : pending domain w < fuel) : Walks links w [h] (walkFrom links fuel w h) := by
  induction fuel generalizing w h with
  | zero => exact absurd bound (Nat.not_lt_zero _)
  | succ fuel ih =>
    unfold walkFrom
    split
    · next begun => exact .skip begun (.nil w)
    · next fresh =>
      refine .enter fresh (walks_foldl ih (links h) _ fun some => ?_) (.nil _)
      have smaller := pending_cons_lt (linked h some) fresh
      omega

/-- A walk from a handle that is not begun finishes that handle last. -/
theorem head?_finished_walkFrom (fuel : Nat) (w : Walk) (h : Handle) (fresh : h ∉ w.begun) :
    (walkFrom links (fuel + 1) w h).finished.head? = some h := by
  unfold walkFrom
  rw [if_neg fresh]
  rfl

end walk

section heap

variable {objects : Objects} {links : Handle → List Handle}

private theorem pending_empty_lt : pending objects.handles {} < objects.totalSlots + 1 := by
  have few : pending objects.handles {} ≤ objects.handles.card := Finset.card_filter_le _ _
  have slots := objects.card_handles_le
  omega

/-- Only handles that resolve have links. -/
theorem walks_walk (linked : ∀ h, links h ≠ [] → objects.contains h) (h : Handle) {fuel : Nat}
    (enough : objects.totalSlots < fuel) : Walks links {} [h] (walkFrom links fuel {} h) := by
  have domain : ∀ h, links h ≠ [] → h ∈ objects.handles := fun h some => by
    obtain ⟨o, found⟩ := Option.isSome_iff_exists.1 (linked h some)
    exact Heap.mem_handles found
  have few := @pending_empty_lt objects
  exact walks_walkFrom domain fuel {} h (by omega)

theorem mem_finished_walk (linked : ∀ h, links h ≠ [] → objects.contains h) (h k : Handle) :
    k ∈ (walk objects links h).finished ↔ Reaches links h k := by
  obtain ⟨new, grown⟩ := (walks_walk linked h (Nat.lt_succ_self objects.totalSlots)).grows
  have finished : (walk objects links h).finished = new := by
    rw [walk, grown.finished]
    exact List.append_nil new
  have begun : ∀ x, x ∈ (walkFrom links (objects.totalSlots + 1) {} h).begun ↔ x ∈ new := fun x => by
    rw [grown.begun]
    exact or_iff_right List.not_mem_nil
  rw [finished]
  constructor
  · intro member
    obtain ⟨start, inside, path⟩ := grown.reached k member
    rwa [List.mem_singleton.1 inside] at path
  · intro path
    induction path with
    | refl => exact (begun h).1 (grown.starts h List.mem_cons_self)
    | tail _ link ih => exact (begun _).1 (grown.closed _ ih _ link)

theorem head?_finished_walk (h : Handle) : (walk objects links h).finished.head? = some h :=
  head?_finished_walkFrom _ _ _ List.not_mem_nil

end heap

/-! ## The search for a cycle -/

section seek

variable {supers : Handle → List Handle}

/-- The step of the search at one superclass. -/
private def visit (supers : Handle → List Handle) (fuel : Nat) (path : List Handle) (h : Handle)
    (done : List Handle) (sup : Handle) : Except Handle (List Handle) :=
  if sup ∈ h :: path then .error sup
  else if sup ∈ done then .ok done
  else seekCycle supers fuel (h :: path) done sup

private theorem seekCycle_succ (fuel : Nat) (path done : List Handle) (h : Handle) :
    seekCycle supers (fuel + 1) path done h =
      match (supers h).reverse.foldlM (visit supers fuel path h) done with
      | .ok done => .ok (h :: done)
      | .error closing => .error closing := by
  unfold seekCycle
  change (List.foldlM (visit supers fuel path h) done (supers h).reverse >>= fun done => pure (h :: done)) = _
  cases (supers h).reverse.foldlM (visit supers fuel path h) done <;> rfl

private theorem foldlM_cons_eq {α β ε : Type} (f : β → α → Except ε β) (b : β) (a : α) (as : List α) :
    (a :: as).foldlM f b =
      match f b a with
      | .ok b => as.foldlM f b
      | .error e => .error e := by
  rw [List.foldlM_cons]
  cases f b a <;> rfl

/-- An error names a class on a cycle. -/
private theorem onCycle_of_seekCycle_error {fuel : Nat} {path done : List Handle} {h closing : Handle}
    (before : ∀ p ∈ path, Strictly supers p h) (failed : seekCycle supers fuel path done h = .error closing) :
    Reaches supers h closing ∧ Strictly supers closing closing := by
  induction fuel generalizing path done h with
  | zero => cases failed
  | succ fuel ih =>
    rw [seekCycle_succ] at failed
    have along : ∀ (l : List Handle) (done : List Handle), (∀ s ∈ l, s ∈ supers h) →
        l.foldlM (visit supers fuel path h) done = .error closing →
        Reaches supers h closing ∧ Strictly supers closing closing := by
      intro l
      induction l with
      | nil => intro _ _ ended; cases ended
      | cons s l rest =>
        intro done links ended
        have link := links s List.mem_cons_self
        rw [foldlM_cons_eq] at ended
        cases first : visit supers fuel path h done s with
        | ok next =>
          rw [first] at ended
          exact rest next (fun x inside => links x (List.mem_cons_of_mem _ inside)) ended
        | error at_once =>
          rw [first] at ended
          cases ended
          unfold visit at first
          split at first
          · next closes =>
            cases first
            refine ⟨.single link, ?_⟩
            rcases List.mem_cons.1 closes with rfl | inside
            · exact .single link
            · exact (before _ inside).tail link
          · split at first
            · cases first
            · have deeper : ∀ p ∈ h :: path, Strictly supers p s := by
                intro p inside
                rcases List.mem_cons.1 inside with rfl | inside
                · exact .single link
                · exact (before p inside).tail link
              obtain ⟨onward, cycle⟩ := ih deeper first
              exact ⟨.head link onward, cycle⟩
    cases result : (supers h).reverse.foldlM (visit supers fuel path h) done with
    | ok next => rw [result] at failed; cases failed
    | error e =>
      rw [result] at failed
      cases failed
      exact along _ _ (fun s inside => List.mem_reverse.1 inside) result

/-- Without an error all paths from what is done end. -/
private theorem grounded_of_seekCycle_ok {domain : Finset Handle} (linked : ∀ h, supers h ≠ [] → h ∈ domain)
    {fuel : Nat} {path done result : List Handle} {h : Handle} (fresh : h ∉ path)
    (bound : (domain.filter (· ∉ path)).card < fuel) (ground : ∀ x ∈ done, Grounded supers x)
    (ended : seekCycle supers fuel path done h = .ok result) :
    h ∈ result ∧ (∀ x ∈ done, x ∈ result) ∧ ∀ x ∈ result, Grounded supers x := by
  induction fuel generalizing path done result h with
  | zero => exact absurd bound (Nat.not_lt_zero _)
  | succ fuel ih =>
    rw [seekCycle_succ] at ended
    have along : ∀ (l : List Handle) (done result : List Handle), (∀ s ∈ l, s ∈ supers h) →
        (∀ x ∈ done, Grounded supers x) → l.foldlM (visit supers fuel path h) done = .ok result →
        (∀ s ∈ l, s ∈ result) ∧ (∀ x ∈ done, x ∈ result) ∧ ∀ x ∈ result, Grounded supers x := by
      intro l
      induction l with
      | nil =>
        intro done result _ ground same
        cases same
        exact ⟨by simp, fun _ inside => inside, ground⟩
      | cons s l rest =>
        intro done result links ground ended
        rw [foldlM_cons_eq] at ended
        cases first : visit supers fuel path h done s with
        | error e => rw [first] at ended; cases ended
        | ok next =>
          rw [first] at ended
          have one : s ∈ next ∧ (∀ x ∈ done, x ∈ next) ∧ ∀ x ∈ next, Grounded supers x := by
            unfold visit at first
            split at first
            · cases first
            · next open_path =>
              split at first
              · next already =>
                cases first
                exact ⟨already, fun _ inside => inside, ground⟩
              · have member : h ∈ domain := linked h (List.ne_nil_of_mem (links s List.mem_cons_self))
                have smaller := pending_cons_lt (w := ⟨path, []⟩) member fresh
                unfold pending at smaller
                exact ih open_path (by simp only [] at smaller; omega) ground first
          obtain ⟨inside, kept, grounded⟩ := one
          obtain ⟨others, more, all⟩ :=
            rest next result (fun x late => links x (List.mem_cons_of_mem _ late)) grounded ended
          refine ⟨fun x member => ?_, fun x before => more x (kept x before), all⟩
          rcases List.mem_cons.1 member with rfl | late
          · exact more x inside
          · exact others x late
    cases folded : (supers h).reverse.foldlM (visit supers fuel path h) done with
    | error e => rw [folded] at ended; cases ended
    | ok next =>
      rw [folded] at ended
      cases ended
      obtain ⟨inside, kept, grounded⟩ :=
        along _ _ _ (fun s member => List.mem_reverse.1 member) ground folded
      have here : Grounded supers h := Acc.intro h fun s link => grounded s (inside s (List.mem_reverse.2 link))
      refine ⟨List.mem_cons_self, fun x before => List.mem_cons_of_mem _ (kept x before), fun x member => ?_⟩
      rcases List.mem_cons.1 member with rfl | later
      · exact here
      · exact grounded x later

end seek

theorem supersOf_ne_nil {objects : Objects} {h : Handle} (some : objects.supersOf h ≠ []) : objects.contains h := by
  unfold Heap.supersOf Heap.class? at some
  unfold Heap.contains
  cases found : objects.get? h with
  | none => rw [found] at some; exact absurd rfl some
  | some o => rfl

theorem mem_handles_of_supersOf_ne_nil {objects : Objects} (h : Handle) (some : objects.supersOf h ≠ []) :
    h ∈ objects.handles := by
  obtain ⟨o, found⟩ := Option.isSome_iff_exists.1 (supersOf_ne_nil some)
  exact Heap.mem_handles found

/-- Where the search finds no cycle, all paths to superclasses end. -/
theorem cycle?_eq_none_iff {objects : Objects} {cls : Handle} :
    cycle? objects cls = none ↔ Grounded objects.supersOf cls := by
  unfold cycle?
  cases sought : seekCycle objects.supersOf (objects.totalSlots + 1) [] [] cls with
  | error closing =>
    obtain ⟨path, cycle⟩ := onCycle_of_seekCycle_error (by simp) sought
    refine ⟨nofun, fun ground => ?_⟩
    exact absurd cycle (ground.of_reaches path).not_strictly
  | ok result =>
    have bound : (objects.handles.filter (· ∉ ([] : List Handle))).card < objects.totalSlots + 1 :=
      @pending_empty_lt objects
    obtain ⟨inside, -, grounded⟩ := grounded_of_seekCycle_ok mem_handles_of_supersOf_ne_nil
      List.not_mem_nil bound (by simp) sought
    exact ⟨fun _ => grounded cls inside, fun _ => rfl⟩

theorem onCycle_iff_not_grounded {objects : Objects} {cls : Handle} :
    OnCycle objects.supersOf cls ↔ ¬Grounded objects.supersOf cls := by
  constructor
  · exact fun cycle ground => ground.not_onCycle cycle
  · intro endless
    by_contra free
    exact endless (grounded_of_not_onCycle mem_handles_of_supersOf_ne_nil free)

end DynamicObjects.Hierarchy
