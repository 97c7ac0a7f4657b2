import DynamicObjects.Proofs.Structure.Registration

/-!
# The dates of definitions

Every definition has a number of its own, the later the larger. So of the methods that are registered and those that
aliases are remembered to have led to, two are the same as soon as their numbers are, and what is remembered of an alias
is used only while it is still what is registered.
-/
namespace DynamicObjects

/-- A method that is registered, or that an alias is remembered to have led to. -/
inductive World.Knows (w : World) : Method → Prop where
  | registered {path : String} {r : Registration} (found : w.registry.get? path = some r) : w.Knows r.method
  | remembered {link : Nat} {m : Method} (listed : (link, m) ∈ w.aliasTargets) : w.Knows m

/-- No method is known that is still to be numbered, and no two of them have one number. -/
structure World.Dated (w : World) : Prop where
  past : ∀ m, w.Knows m → m.epoch ≤ w.epoch
  apart : ∀ m n, w.Knows m → w.Knows n → m.epoch = n.epoch → m = n

namespace World.Dated

variable {v w : World}

theorem of_knows (dated : v.Dated) (knows : ∀ m, w.Knows m → v.Knows m) (epoch : v.epoch ≤ w.epoch) : w.Dated :=
  ⟨fun m known => (dated.past m (knows m known)).trans epoch,
    fun m n first second => dated.apart m n (knows m first) (knows n second)⟩

/-- Numbers go on, and nothing more is known. -/
theorem of_registry (dated : v.Dated) (registry : ∀ path r, w.registry.get? path = some r → v.registry.get? path = some r)
    (aliasTargets : w.aliasTargets = v.aliasTargets) (epoch : v.epoch ≤ w.epoch) : w.Dated := by
  refine dated.of_knows (fun m known => ?_) epoch
  cases known with
  | registered found => exact .registered (registry _ _ found)
  | remembered listed => exact .remembered (aliasTargets ▸ listed)

/-- A method is registered under the next number. -/
theorem register (dated : v.Dated) {path : String} {r : Registration} (date : r.method.epoch = v.epoch + 1)
    (registry : w.registry = v.registry.insert path r) (aliasTargets : w.aliasTargets = v.aliasTargets)
    (epoch : w.epoch = v.epoch + 1) : w.Dated := by
  have either : ∀ m, w.Knows m → m = r.method ∨ v.Knows m := by
    intro m known
    cases known with
    | @registered q s found =>
      rw [registry, NameTable.get?_insert] at found
      split at found
      · exact .inl (congrArg Registration.method (Option.some.inj found).symm)
      · exact .inr (.registered found)
    | remembered listed => exact .inr (.remembered (aliasTargets ▸ listed))
  have fresh : ∀ m, v.Knows m → m.epoch ≠ r.method.epoch := fun m known same =>
    absurd (dated.past m known) (by rw [same, date]; exact Nat.not_succ_le_self _)
  refine ⟨fun m known => ?_, fun m n first second same => ?_⟩
  · rcases either m known with rfl | before
    · exact (date.trans epoch.symm).le
    · exact (dated.past m before).trans (epoch ▸ Nat.le_succ _)
  · rcases either m first with rfl | before <;> rcases either n second with rfl | earlier
    · rfl
    · exact absurd same.symm (fresh n earlier)
    · exact absurd same (fresh m before)
    · exact dated.apart m n before earlier same

/-- In an empty world nothing is known. -/
theorem start (settings : Settings) : World.Dated { settings } := by
  have unknown : ∀ m, ¬World.Knows { settings } m := by
    rintro m (found | listed)
    · cases found
    · cases listed
  exact ⟨fun m known => absurd known (unknown m), fun m _ known => absurd known (unknown m)⟩

theorem defineMethod (dated : v.Dated) (reach : Reach) (on : Handle) (method : Method) :
    World.Dated ((Definition.defineMethod reach on method).exec v).2 := by
  rcases Definition.exec_defineMethod reach on method v with ⟨e, failed⟩ | ⟨o, table, b, -, -, done, -⟩
  · rw [failed]
    exact dated
  · rw [done]
    exact dated.register (r := ⟨some on, reach == .object, { method with epoch := v.epoch + 1 }⟩) rfl rfl rfl rfl

theorem removeMethod (dated : v.Dated) (reach : Reach) (on : Handle) (name : String) :
    World.Dated ((Definition.removeMethod reach on name).exec v).2 := by
  rcases Definition.exec_removeMethod reach on name v with ⟨r, failed⟩ | ⟨o, table, b, -, -, -, done, -⟩
  · rw [failed]
    exact dated
  · rw [done]
    refine dated.of_registry (fun path r found => ?_) rfl (Nat.le_succ _)
    change (v.registry.erase _).get? path = some r at found
    rw [NameTable.get?_erase] at found
    split at found
    · cases found
    · exact found

end World.Dated

namespace Definition

/-- A link leads to what is registered at its path, and at most that is remembered anew. -/
theorem exec_followOnce {path : String} {w : World} {r : Registration} (link : Method)
    (found : w.registry.get? path = some r) : ∃ m targets,
      (followOnce link path).exec w = (.ok m, { w with aliasTargets := targets }) ∧
        (∀ n, World.Knows { w with aliasTargets := targets } n → w.Knows n) ∧ (w.Dated → m = r.method) := by
  have forgetful : ∀ n, World.Knows { w with
      aliasTargets := (link.epoch, r.method) :: w.aliasTargets.filter (·.1 ≠ link.epoch) } n → w.Knows n := by
    intro n known
    cases known with
    | registered there => exact .registered there
    | remembered listed =>
      rcases List.mem_cons.1 listed with new | old
      · cases new
        exact .registered found
      · exact .remembered (List.mem_of_mem_filter old)
  unfold followOnce
  rw [Update.exec_bind_of_ok (Update.exec_get w), found]
  cases seen : w.aliasTargets.lookup link.epoch with
  | none => exact ⟨_, _, rfl, forgetful, fun _ => rfl⟩
  | some n =>
    by_cases same : n.epoch = r.method.epoch
    · obtain ⟨before, rest, is, -⟩ := List.lookup_eq_some_iff.1 seen
      have listed : (link.epoch, n) ∈ w.aliasTargets := is ▸ List.mem_append_right before List.mem_cons_self
      refine ⟨n, w.aliasTargets, by simp only [same]; rfl, fun _ known => known, fun dated => ?_⟩
      exact dated.apart n r.method (.remembered listed) (.registered found) same
    · exact ⟨_, _, by simp only [if_neg same]; rfl, forgetful, fun _ => rfl⟩

/-- There may be nothing at the path. -/
theorem exec_followOnce_of_missing {path : String} {w : World} (link : Method) (missing : w.registry.get? path = none) :
    (followOnce link path).exec w = (.error (.structural (.aliasTargetMissing path link.name)), w) := by
  unfold followOnce
  rw [Update.exec_bind_of_ok (Update.exec_get w), missing]
  rfl

end Definition

end DynamicObjects
