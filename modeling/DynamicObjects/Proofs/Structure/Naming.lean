import Mathlib.Data.List.Nodup
import Mathlib.Data.List.Perm.Subperm
import Mathlib.Data.List.Range
import DynamicObjects.Lifecycle.Naming
import DynamicObjects.Proofs.Updates

/-!
# Free names

A name that was claimed is free, and so is an automatic name: among one more automatic names than there are names, one
is free.
-/
namespace DynamicObjects.Lifecycle

/-- The automatic name with a number. -/
def numbered (start : String) (n : Nat) : String :=
  "::" ++ start ++ "::__#" ++ toString n

theorem numbered_injective (start : String) : Function.Injective (numbered start) := by
  intro m n same
  have digits : m.repr = n.repr := (String.append_right_inj _).1 same
  have chars := congrArg (fun s => Nat.ofDigitChars 10 s.toList 0) digits
  simpa [Nat.toList_repr, Nat.ofDigitChars_ten_toDigits] using chars

/-- Some of the automatic names that follow `n` is not among fewer names. -/
theorem exists_numbered_not_mem (start : String) (names : List String) {tries : Nat} (few : names.length < tries)
    (n : Nat) : ∃ i < tries, numbered start (n + i) ∉ names := by
  by_contra taken
  simp only [not_exists, not_and, not_not] at taken
  have nodup : ((List.range tries).map fun i => numbered start (n + i)).Nodup :=
    List.Nodup.map (fun i j same => Nat.add_left_cancel (numbered_injective start same)) List.nodup_range
  have inside : ((List.range tries).map fun i => numbered start (n + i)) ⊆ names := by
    intro name member
    obtain ⟨i, small, rfl⟩ := List.mem_map.1 member
    exact taken i (List.mem_range.1 small)
  have lengths := (List.subperm_of_subset nodup inside).length_le
  simp only [List.length_map, List.length_range] at lengths
  omega

theorem mem_names_of_contains {α : Type u} {t : NameTable α} {name : String} (taken : t.contains name = true) :
    name ∈ t.names := by
  have found : ∀ entries : List (String × α), (NameTable.find name entries).isSome = true →
      name ∈ entries.map Prod.fst := by
    intro entries
    induction entries with
    | nil => exact nofun
    | cons e rest ih =>
      unfold NameTable.find
      intro some
      split at some
      · next same => exact same ▸ List.mem_cons_self
      · exact List.mem_cons_of_mem _ (ih some)
  exact found t.entries taken

theorem contains_eq_false {α : Type u} {t : NameTable α} {name : String} (outside : name ∉ t.names) :
    t.contains name = false :=
  Bool.eq_false_iff.2 fun taken => outside (mem_names_of_contains taken)

/-- The next number of the automatic names of anonymous objects. -/
def nextNumber (w : World) : Nat :=
  (w.nameCounters.get? anonymousStart).getD 0

/-- The world after `n` automatic names were taken. -/
theorem exec_autoname (w : World) : ∃ counters, (autoname anonymousStart).exec w =
    (.ok (numbered anonymousStart (nextNumber w)), { w with nameCounters := counters }) ∧
      (counters.get? anonymousStart).getD 0 = nextNumber w + 1 :=
  ⟨_, rfl, by rw [NameTable.get?_insert, if_pos rfl]; rfl⟩

/-- The search ends at a name that is free, provided that one of the next names is. -/
theorem exec_firstFree (tries : Nat) (w : World)
    (free : ∃ i ≤ tries, numbered anonymousStart (nextNumber w + i) ∉ w.names.names) :
    ∃ name counters, (firstFree tries).exec w = (.ok name, { w with nameCounters := counters }) ∧
      w.names.contains name = false := by
  induction tries generalizing w with
  | zero =>
    obtain ⟨counters, done, -⟩ := exec_autoname w
    obtain ⟨i, bound, outside⟩ := free
    rw [Nat.le_zero.1 bound] at outside
    exact ⟨_, counters, done, contains_eq_false outside⟩
  | succ tries ih =>
    obtain ⟨counters, done, next⟩ := exec_autoname w
    unfold firstFree
    rw [Update.exec_bind_of_ok done, Update.exec_bind_of_ok (Update.exec_get _)]
    cases taken : w.names.contains (numbered anonymousStart (nextNumber w)) with
    | false =>
      simp only [Bool.false_eq_true, if_false]
      exact ⟨_, counters, rfl, taken⟩
    | true =>
      simp only [if_true]
      obtain ⟨i, bound, outside⟩ := free
      have later : 0 < i := by
        refine Nat.pos_of_ne_zero fun zero => ?_
        subst zero
        exact Bool.false_ne_true ((contains_eq_false outside).symm.trans taken)
      refine ih { w with nameCounters := counters } ⟨i - 1, by omega, ?_⟩
      have number : nextNumber { w with nameCounters := counters } + (i - 1) = nextNumber w + i := by
        have advanced : nextNumber { w with nameCounters := counters } = nextNumber w + 1 := next
        omega
      rw [number]
      exact outside

theorem exec_freshName (w : World) : ∃ name counters,
    freshName.exec w = (.ok name, { w with nameCounters := counters }) ∧ w.names.get? name = none := by
  obtain ⟨i, small, outside⟩ := exists_numbered_not_mem anonymousStart w.names.names
    (Nat.lt_succ_self _) (nextNumber w)
  have size : w.names.names.length = w.names.size := List.length_map _
  obtain ⟨name, counters, done, untaken⟩ :=
    exec_firstFree w.names.size w ⟨i, by omega, outside⟩
  exact ⟨name, counters, done, by simpa [NameTable.contains] using untaken⟩

/-- A claimed name is free. -/
theorem exec_claimName (name : String) (w : World) :
    (∃ e, (claimName name).exec w = (.error e, w)) ∨
      ((claimName name).exec w = (.ok (Definition.qualify name), w) ∧
        w.names.get? (Definition.qualify name) = none) := by
  unfold claimName
  rw [Update.exec_bind_of_ok (Update.exec_get w)]
  cases taken : w.names.contains (Definition.qualify name) with
  | true => exact .inl ⟨_, rfl⟩
  | false => exact .inr ⟨rfl, by simpa [NameTable.contains] using taken⟩

end DynamicObjects.Lifecycle
