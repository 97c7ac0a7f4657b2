import DynamicObjects.Proofs.Runs.Scripts

/-!
# Reachable worlds

Whatever sessions do, as long as handles remain, their worlds evolve from an empty one by the changes that are listed,
and so they are well-formed.
-/
namespace DynamicObjects

variable {good : Objects → Prop}

/-- Carrying a task out, from a good heap on, develops the world, leaves it balanced and keeps what is held. -/
theorem brings_interpret {terms : Terms} {host : Host} (task : Task) {w : World} (begins : terms.good w.objects) :
    Brings terms host (task.Tallied w) (Within (task.opened w) (task.closed w)) (· = w) (fun k => interpret k task)
      fun _ v => Poised (task.closed w) v := by
  cases task with
  | eval surroundings e => exact (Script.acts_evaluate surroundings e w begins).mono (fun _ met => met) fun _ _ met => met.1
  | call h name args mods =>
    exact (Invocation.steady_call h name args mods w trivial).mono (fun _ met => met) fun _ _ met => met.1
  | run frame method mods => exact Invocation.brings_run frame method mods w

variable (remain : ∀ a, good a → a.HandlesRemain)

include remain

/-- By induction on the depth, the interpreter develops worlds, with care, and leaves them balanced. -/
theorem faithful_of_hostWithin (careful : Prop) (depth : Nat) : Faithful ⟨good, careful⟩ (hostWithin good depth) := by
  refine ⟨remain, fun task w r v proper done => ?_⟩
  induction depth generalizing task w r v with
  | zero => cases task <;> cases done
  | succ depth ih =>
    rw [hostWithin, Host.perform_ofTasks] at done
    obtain ⟨begins, ends, done⟩ := Action.exec_within_eq_some.1 done
    have faithful : Faithful ⟨good, careful⟩ (hostWithin good depth) := ⟨remain, ih⟩
    obtain ⟨path, poised⟩ := (brings_interpret task begins faithful w proper rfl).2 r v done
    exact ⟨path, poised.toBalanced, .inl ends, poised.shelters⟩

theorem faithful_hostWithin (depth : Nat) : Faithful ⟨good, False⟩ (hostWithin good depth) :=
  faithful_of_hostWithin remain False depth

/-- Tasks are only begun in worlds that have developed. -/
theorem proceeds_of_asks {careful : Prop} {depth : Nat} {task : Task} {v w : World} (proper : Proper w)
    (begins : good w.objects) (asks : Asks (hostWithin good depth) task w v) : Proceeds ⟨good, careful⟩ w v := by
  obtain ⟨other, agrees, differs⟩ := asks
  by_contra apart
  refine differs ((brings_interpret task begins (faithful_of_hostWithin remain careful depth) w proper rfl).1 other
    fun task u path _ _ => ?_)
  exact agrees task u fun same => apart (same ▸ path)

omit remain in
/-- An empty world is well-formed. -/
theorem proper_start (settings : Settings) : Proper { settings } := by
  obtain ⟨w, start⟩ : ∃ w : World, w = { settings } := ⟨_, rfl⟩
  have vacant : ∀ h, w.objects.get? h = none := fun h => start ▸ rfl
  have dead : ∀ h, w.live? h = none := fun h => by rw [World.live?, vacant]; rfl
  have blank : ∀ h, w.objects.class? h = none := fun h => by rw [Heap.class?, vacant]; rfl
  have supers : ∀ c, w.objects.supersOf c = [] := fun c => Heap.supersOf_eq_nil (blank c)
  have subs : ∀ c, w.objects.subsOf c = [] := fun c => Heap.subsOf_eq_nil (blank c)
  have systems : w.systems = [] := start ▸ rfl
  have targets : ∀ reach u, w.targetsOf reach u = [] := fun reach u => by
    simp [World.targetsOf, World.mixinsOf, World.registrations?, dead]
  have users : ∀ reach c, w.usersOf reach c = [] := fun reach c => by simp [World.usersOf, World.classPart?, dead]
  rw [← start]
  exact {
    sound := start ▸ ⟨List.nodup_nil, fun i member => absurd member List.not_mem_nil⟩
    named := ⟨fun n h => by
      have untaken : w.names.get? n = none := start ▸ rfl
      simp [dead, untaken]⟩
    classed := {
      cls := by simp [dead]
      instances := fun c h => by
        rw [World.mem_instancesOf]
        simp [dead] }
    linked := {
      mirrored := ⟨by simp [supers, subs], by simp [supers], by simp [subs]⟩
      live := by simp [supers]
      grounded := fun c => .intro _ fun s link => by
        rw [supers] at link
        cases link }
    rooted := {
      system := by simp [dead]
      root := by simp [systems]
      metaclass := by simp [systems]
      rootOnly := by simp [dead]
      metaclassOnly := by simp [dead]
      top := by simp [dead] }
    mixed := fun reach => ⟨by simp [targets], by simp [targets, users], by simp [users]⟩
    kept := by
      refine ⟨fun c l found => ?_, fun c l found => ?_⟩ <;>
      · rw [Heap.cachedOrder?, blank] at found
        cases found }

/-- What is reachable has developed from an empty world, with care. -/
theorem Reachable.proceeds {w : World} (reached : Reachable good w) :
    ∃ settings : Settings, Proceeds ⟨good, True⟩ { settings } w := by
  induction reached with
  | start settings => exact ⟨settings, .refl⟩
  | next _ ih =>
    obtain ⟨settings, path⟩ := ih
    exact ⟨settings, path.tail (.aside (.of_objects rfl rfl rfl rfl rfl rfl le_rfl))⟩
  | @ended w v depth task r _ done ih =>
    obtain ⟨settings, path⟩ := ih
    have proper : Proper w := (proper_start settings).evolves remain path.evolves
    exact ⟨settings, path.trans ((faithful_of_hostWithin remain True depth).task task w r v proper done).1⟩
  | @begun w v depth task _ begins asks ih =>
    obtain ⟨settings, path⟩ := ih
    have proper : Proper w := (proper_start settings).evolves remain path.evolves
    exact ⟨settings, path.trans (proceeds_of_asks remain proper begins asks)⟩

theorem Reachable.develops {w : World} (reached : Reachable good w) :
    ∃ settings : Settings, Develops ⟨good, True⟩ { settings } w := by
  obtain ⟨settings, path⟩ := reached.proceeds remain
  exact ⟨settings, path.develops⟩

theorem Reachable.evolves {w : World} (reached : Reachable good w) :
    ∃ settings : Settings, Evolves good { settings } w := by
  obtain ⟨settings, path⟩ := reached.develops remain
  exact ⟨settings, path.evolves⟩

/-- In every reachable world the marks of destruction fit together, and all vacant slots are listed. -/
theorem Reachable.orderly {w : World} (reached : Reachable good w) : w.objects.Orderly ∧ w.objects.Listed := by
  obtain ⟨settings, path⟩ := reached.develops remain
  have fares := (proper_start settings).fares_of_develops remain path
  refine ⟨fares.orderly fun h o found => ?_, fares.listed fun i g vacant => ?_⟩
  · cases found
  · cases vacant

/-- Every reachable world is well-formed. -/
theorem Reachable.proper {w : World} (reached : Reachable good w) : Proper w := by
  obtain ⟨settings, path⟩ := reached.evolves remain
  exact (proper_start settings).evolves remain path

end DynamicObjects
