import DynamicObjects.Proofs.Runs.OpenCalls

/-!
# Slots are reclaimed

Between the steps of a session no frame is open, so nothing is held. What was unlinked during a step has lost its slot by
the end of it: the slots that are taken are those of the objects that the table of names lists.
-/
namespace DynamicObjects

variable {good : Objects → Prop} {w : World}

namespace NameTable

variable {α : Type}

theorem mem_entries_iff {t : NameTable α} {name : String} {a : α} : (name, a) ∈ t.entries ↔ t.get? name = some a := by
  obtain ⟨entries, sorted⟩ := t
  change (name, a) ∈ entries ↔ find name entries = some a
  induction entries with
  | nil => simp [find]
  | cons e rest ih =>
    obtain ⟨n, b⟩ := e
    obtain ⟨after, sorted⟩ := List.pairwise_cons.1 sorted
    rw [find, List.mem_cons, Prod.mk.injEq, ih sorted]
    by_cases here : n = name
    · subst here
      -- Later entries have later names.
      have last : find n rest ≠ some a := fun found =>
        String.lt_irrefl n (after (n, a) ((ih sorted).2 found))
      simp [last, eq_comm]
    · simp [here, Ne.symm here]

theorem nodup_entries (t : NameTable α) : t.entries.Nodup := by
  refine t.sorted.imp ?_
  rintro e _ before rfl
  exact String.lt_irrefl e.1 before

end NameTable

namespace Heap

variable {α : Type}

theorem HandlesRemain.get?_of_taken {heap : Heap α} (remain : heap.HandlesRemain) {i : Nat} {g : UInt32} {a : α}
    (taken : heap.slots[i]? = some (.taken g a)) : ∃ h, heap.get? h = some a ∧ h.index.toNat = i := by
  have inside : i < heap.totalSlots := (Array.getElem?_eq_some_iff.1 taken).1
  have bound := remain.slots
  have index : (UInt32.ofNat i).toNat = i := UInt32.toNat_ofNat_of_lt' (by omega)
  exact ⟨⟨UInt32.ofNat i, g⟩, get?_eq_some_iff.2 (index.symm ▸ taken), index⟩

end Heap

/-- Where everything that resolves is live, the table of names lists an object for each slot that is taken. -/
theorem card_takenSlots_of_live (named : Named w) (remain : w.objects.HandlesRemain)
    (live : ∀ h o, w.objects.get? h = some o → o.deleted = false) : w.objects.takenSlots.card = w.names.size := by
  have listed : ∀ {n h}, (n, h) ∈ w.names.entries ↔ ∃ o, w.objects.get? h = some o ∧ o.name = n := by
    intro n h
    rw [NameTable.mem_entries_iff, named.name]
    refine exists_congr fun o => and_congr_left' ?_
    rw [World.live?_eq_some_iff]
    exact and_iff_left_of_imp (live h o)
  have slots : w.objects.takenSlots = (w.names.entries.map (·.2.index.toNat)).toFinset := by
    ext i
    rw [Heap.mem_takenSlots, List.mem_toFinset, List.mem_map]
    constructor
    · rintro ⟨g, o, taken⟩
      obtain ⟨h, found, here⟩ := remain.get?_of_taken taken
      exact ⟨(o.name, h), listed.2 ⟨o, found, rfl⟩, here⟩
    · rintro ⟨⟨n, h⟩, member, rfl⟩
      obtain ⟨o, found, -⟩ := listed.1 member
      exact ⟨h.generation, o, Heap.get?_eq_some_iff.1 found⟩
  have nodup : (w.names.entries.map (·.2.index.toNat)).Nodup := by
    refine w.names.nodup_entries.map_on ?_
    rintro ⟨n, h⟩ first ⟨m, k⟩ second same
    obtain ⟨o, here, rfl⟩ := listed.1 first
    obtain ⟨p, there, rfl⟩ := listed.1 second
    obtain rfl : h = k := Heap.eq_of_get?_of_index_eq here there (UInt32.toNat_inj.1 same)
    cases here.symm.trans there
    rfl
  rw [slots, List.toFinset_card_of_nodup nodup, List.length_map]
  rfl

/-! ## Between the steps of a session -/

namespace Session

theorem reachable (session : Session good w) : Reachable good w := by
  induction session with
  | start settings => exact .start settings
  | next _ ih => exact .next ih
  | @ended w v depth e r _ done ih =>
    have performed : ((hostWithin good depth).perform (.eval .none e)).exec w = some (r, v) := done
    exact .ended ih performed

theorem ends_good (start : good {}) (session : Session good w) : good w.objects := by
  induction session with
  | start => exact start
  | next _ ih => exact ih
  | @ended w v depth e r _ done _ =>
    cases depth with
    | zero => cases done
    | succ depth =>
      have done : (((Host.ofTasks fun task => (interpret (hostWithin _ depth) task).within _).perform
          (.eval .none e)).exec w) = some (r, v) := done
      rw [Host.perform_ofTasks] at done
      exact (Action.exec_within_eq_some.1 done).2.1

/-- Nothing has a mark of an open call. -/
theorem unheld (remain : ∀ a, good a → a.HandlesRemain) (session : Session good w) (h : Handle) :
    w.objects.openCalls h = {} := by
  cases found : w.objects.get? h with
  | none => exact Heap.openCalls_of_get?_eq_none found
  | some o =>
    rw [Heap.openCalls_of_get? found, (session.balanced remain).objects.openCalls h o found]
    rfl

/-- What resolves is live: what is unlinked keeps its slot only while it is held. -/
theorem live (remain : ∀ a, good a → a.HandlesRemain) (session : Session good w) {h : Handle} {o : Object}
    (found : w.objects.get? h = some o) : o.deleted = false ∧ o.holders = 0 := by
  have none : o.holders = 0 := by
    have unheld := session.unheld remain h
    rw [Heap.openCalls_of_get? found] at unheld
    exact congrArg OpenCalls.holders unheld
  have orderly := (session.reachable.orderly remain).1 h o found
  refine ⟨?_, none⟩
  cases gone : o.deleted with
  | false => rfl
  | true => exact absurd (orderly.2 gone) (by omega)

end Session

/-- A session in which an object destroys itself and its class in a method that fails. -/
def farewellSession : List Expr :=
  [foundation, Trial.createClass "C", Trial.define .instances "C" (Trial.method "work" (.sequence
    [.ofObject .destroy (.computed .self), .ofObject .destroy (.name "C"), .fail (Trial.text "broken")])),
    Trial.createObject "o" "C", .dispatch (.name "o") (.list []) (Trial.text "work") {}]

def farewellWorld : World :=
  (sessionWithin Heap.HandlesRemain 6 farewellSession).get (by decide +kernel)

theorem session_farewellWorld : Session Heap.HandlesRemain farewellWorld :=
  of_sessionWithin (.start {}) (fun _ _ _ _ session done => .ended session done) (Option.some_get _).symm

/-- Between the steps of a session, whether they succeeded or failed, every slot that is taken has a live object that
nothing holds, and there are as many of them as names. -/
theorem Session.slotsReclaimed (session : Session Heap.HandlesRemain w) :
    (∀ (i : Nat) g o, w.objects.slots[i]? = some (.taken g o) → o.deleted = false ∧ o.holders = 0) ∧
      w.objects.takenSlots.card = w.objects.size ∧ w.objects.size = w.names.size := by
  have remain : ∀ a : Objects, a.HandlesRemain → a.HandlesRemain := fun _ remain => remain
  have proper := session.reachable.proper remain
  have counted := Heap.card_takenSlots proper.sound (session.reachable.orderly remain).2
  have ends := session.ends_good (by decide)
  refine ⟨fun i g o taken => ?_, counted, ?_⟩
  · obtain ⟨h, found, -⟩ := ends.get?_of_taken taken
    exact session.live remain found
  · rw [← counted]
    exact card_takenSlots_of_live proper.named ends fun h o found => (session.live remain found).1

/-- Of the two slots that the object and its class had, none is taken. -/
theorem slotsReclaimed_farewell : Session Heap.HandlesRemain farewellWorld ∧ farewellWorld.objects.totalSlots = 4 ∧
    farewellWorld.objects.takenSlots.card = 2 ∧ farewellWorld.names.size = 2 := by
  obtain ⟨-, counted, named⟩ := Session.slotsReclaimed session_farewellWorld
  have listed : farewellWorld.names.size = 2 := by decide +kernel
  exact ⟨session_farewellWorld, by decide +kernel, counted.trans (named.trans listed), listed⟩

end DynamicObjects
