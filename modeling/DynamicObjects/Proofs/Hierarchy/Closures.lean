import DynamicObjects.Proofs.Hierarchy.Agreement
import DynamicObjects.Proofs.Hierarchy.Replacement

/-!
# The classes below a class

The classes that a change of a class concerns are found by walks from it: along subclasses, or along subclasses and
classes that mix it in. A walk ends however the links form cycles, and lists what it reaches once, its start first.
Where subclasses form no cycle, every class comes before all those below it.
-/
namespace DynamicObjects.Hierarchy

section ordered

variable {links : Handle → List Handle} {w after : Walk} {hs : List Handle} {a b : Handle}

/-- What is begun is finished after a walk, unless the walk found it begun and not finished. -/
theorem Walks.finished_of_begun (walks : Walks links w hs after) (done : b ∈ w.begun → b ∈ w.finished)
    (begun : b ∈ after.begun) : b ∈ after.finished := by
  obtain ⟨new, grown⟩ := walks.grows
  rw [grown.finished, List.mem_append]
  exact ((grown.begun b).1 begun).symm.imp_right done

/-- What is linked from `a` is finished before `a` is, so it stands behind `a`. It would not if it were begun and not
finished: then the walk is on its way from there, and `a` is on a cycle. -/
theorem Walks.leads (walks : Walks links w hs after) (ground : ∀ h ∈ hs, Grounded links h) (link : b ∈ links a)
    (done : b ∈ w.begun → b ∈ w.finished) (before : Leads a b w.finished) : Leads a b after.finished := by
  induction walks with
  | nil => exact before
  | skip _ _ ih => exact ih (fun h member => ground h (List.mem_cons_of_mem _ member)) done before
  | @enter w inner after h hs fresh deeper _ ihDeeper ihOnward =>
    have here : Grounded links h := ground h List.mem_cons_self
    have below : ∀ k ∈ links h, Grounded links k := fun k inside => here.inv inside
    have later : ∀ k ∈ hs, Grounded links k := fun k member => ground k (List.mem_cons_of_mem _ member)
    obtain ⟨new, grown⟩ := deeper.grows
    by_cases same : b = h
    · subst same
      have outside : a ∉ new := by
        intro inside
        obtain ⟨start, first, path⟩ := grown.reached a inside
        exact here.not_strictly ((Relation.TransGen.head' first path).tail link)
      have different : b ≠ a := fun equal => here.not_strictly (.single (equal ▸ link))
      have kept : Leads a b inner.finished := by
        rw [grown.finished]
        exact (leads_of_not_mem outside).append before
      exact ihOnward later (fun _ => List.mem_cons_self) ⟨fun equal => absurd equal different, kept⟩
    · have started : b ∈ h :: w.begun → b ∈ w.finished := fun member =>
        done ((List.mem_cons.1 member).resolve_left same)
      have kept : Leads a b inner.finished := ihDeeper below started before
      have finished : b ∈ inner.begun → b ∈ inner.finished := deeper.finished_of_begun started
      have behind : h = a → b ∈ inner.finished := by
        rintro rfl
        exact finished (grown.starts b link)
      exact ihOnward later (fun begun => List.mem_cons_of_mem _ (finished begun)) ⟨behind, kept⟩

/-- Leading passes along paths. -/
theorem leads_of_strictly {listed : List Handle} (direct : ∀ a b, b ∈ links a → Leads a b listed)
    (path : Strictly links a b) : Leads a b listed := by
  induction path with
  | single link => exact direct _ _ link
  | tail _ link ih => exact ih.trans (direct _ _ link)

end ordered

/-- What a list of a class and everything behind it along `links` is to be. The walk that makes it ends by itself: it is
a walk without fuel, and with any fuel above the number of slots it is the same. -/
structure Closure (objects : Objects) (links : Handle → List Handle) (cls : Handle) (listed : List Handle) : Prop where
  ends : ∃ after, Walks links {} [cls] after ∧ after.finished = listed
  settled : ∀ fuel, objects.totalSlots < fuel → (walkFrom links fuel {} cls).finished = listed
  nodup : listed.Nodup
  mem_iff : ∀ k, k ∈ listed ↔ Reaches links cls k
  head? : listed.head? = some cls

section heap

variable {objects : Objects} {links : Handle → List Handle} {cls c : Handle}

theorem contains_of_subsOf_ne_nil (some : objects.subsOf c ≠ []) : objects.contains c := by
  unfold Heap.subsOf at some
  cases found : objects.class? c with
  | none => rw [found] at some; exact absurd rfl some
  | some part => exact contains_of_class? found

theorem closure_walk (linked : ∀ h, links h ≠ [] → objects.contains h) :
    Closure objects links cls (walk objects links cls).finished := by
  have ended := walks_walk linked cls (Nat.lt_succ_self objects.totalSlots)
  refine ⟨⟨_, ended, rfl⟩, fun fuel enough => ?_, ?_, mem_finished_walk linked cls, head?_finished_walk cls⟩
  · exact congrArg Walk.finished (ended.unique (walks_walk linked cls enough))
  · obtain ⟨new, grown⟩ := ended.grows
    rw [walk, grown.finished]
    exact (List.append_nil new).symm ▸ grown.nodup

/-- A walk that meets no cycle lists everything before what is behind it. -/
theorem sublist_finished_walk (linked : ∀ h, links h ≠ [] → objects.contains h) (free : ¬OnCycle links cls)
    {a b : Handle} (member : a ∈ (walk objects links cls).finished) (path : Strictly links a b) :
    [a, b].Sublist (walk objects links cls).finished := by
  have ended := walks_walk linked cls (Nat.lt_succ_self objects.totalSlots)
  have domain : ∀ h, links h ≠ [] → h ∈ objects.handles := fun h some => by
    obtain ⟨o, found⟩ := Option.isSome_iff_exists.1 (linked h some)
    exact Heap.mem_handles found
  have ground : ∀ h ∈ [cls], Grounded links h := by
    simpa using grounded_of_not_onCycle domain free
  have direct : ∀ a b, b ∈ links a → Leads a b (walk objects links cls).finished := fun a b link =>
    ended.leads ground link (fun begun => absurd begun List.not_mem_nil) trivial
  exact (leads_of_strictly direct path).sublist member

end heap

/-- A class leads the list of its transitive subclasses, and the list of the classes that depend on it. Each holds
exactly the classes that are reached, once; where no subclass is below itself, the first lists every class before those
below it. -/
theorem subclassClosures (objects : Objects) (cls : Handle) :
    Closure objects objects.subsOf cls (transitiveSubclasses objects cls) ∧
      Closure objects (dependentsOf objects) cls (dependentSubclasses objects cls) ∧
      (¬OnCycle objects.subsOf cls → ∀ a ∈ transitiveSubclasses objects cls, ∀ b,
        Strictly objects.subsOf a b → [a, b].Sublist (transitiveSubclasses objects cls)) := by
  refine ⟨closure_walk fun _ => contains_of_subsOf_ne_nil,
    closure_walk fun _ => contains_of_dependentsOf_ne_nil, fun free a member b path => ?_⟩
  exact sublist_finished_walk (fun _ => contains_of_subsOf_ne_nil) free member path

def topClass : Handle := ⟨0, 0⟩

def midClass : Handle := ⟨1, 0⟩

def lowClass : Handle := ⟨2, 0⟩

/-- Three classes in a line, the last of them declared below both others. Each mixes in the one that follows it, so that
all three depend on each other. -/
def tangledObjects : Objects where
  slots := #[
    .taken 0 { name := "Top", cls := topClass, system := 0,
               classPart := some { subs := [lowClass, midClass] } },
    .taken 0 { name := "Mid", cls := topClass, system := 0,
               classPart := some { supers := [topClass], subs := [lowClass], classUsers := [topClass] } },
    .taken 0 { name := "Low", cls := topClass, system := 0,
               classPart := some { supers := [midClass, topClass], classUsers := [midClass] } }]

theorem grounded_tangledObjects : Grounded tangledObjects.subsOf topClass := by
  have low : Grounded tangledObjects.subsOf lowClass := Acc.intro _ fun _ link => nomatch link
  have mid : Grounded tangledObjects.subsOf midClass := by
    refine Acc.intro _ fun k link => ?_
    rwa [List.mem_singleton.1 (show k ∈ [lowClass] from link)]
  refine Acc.intro _ fun k link => ?_
  rcases List.mem_cons.1 (show k ∈ [lowClass, midClass] from link) with rfl | last
  · exact low
  · rwa [List.mem_singleton.1 last]

theorem subclassClosures_tangled :
    ¬OnCycle tangledObjects.subsOf topClass ∧ midClass ∈ tangledObjects.subsOf topClass ∧
      [midClass, lowClass].Sublist (transitiveSubclasses tangledObjects topClass) ∧
      OnCycle (dependentsOf tangledObjects) lowClass ∧
      dependentSubclasses tangledObjects lowClass = [lowClass, midClass, topClass] := by
  have free := grounded_tangledObjects.not_onCycle
  obtain ⟨-, -, ordered⟩ := subclassClosures tangledObjects topClass
  have listed : transitiveSubclasses tangledObjects topClass = [topClass, midClass, lowClass] := by decide
  have link : lowClass ∈ tangledObjects.subsOf midClass := by decide
  have up : midClass ∈ dependentsOf tangledObjects lowClass := by decide
  have down : lowClass ∈ dependentsOf tangledObjects midClass := by decide
  refine ⟨free, by decide, ordered free midClass (by simp [listed]) lowClass (.single link), ?_, by decide⟩
  exact ⟨lowClass, .refl, .head up (.single down)⟩

end DynamicObjects.Hierarchy
