import DynamicObjects.World

/-!
# Running updates

The outcome of an update and the world after it, for each way in which updates are put together. An update that only
reads leaves the world as it is, whatever its outcome.
-/
namespace DynamicObjects

namespace World

theorem live?_eq_some_iff {w : World} {h : Handle} {o : Object} :
    w.live? h = some o ↔ w.objects.get? h = some o ∧ o.deleted = false := by
  simp [live?, Option.filter_eq_some_iff]

/-- Whether a live class inherits from the root metaclass of its system. -/
def isMetaclass (w : World) (h : Handle) : Bool :=
  match (w.live? h).bind fun o => w.systems[o.system]? with
  | some system => w.isClass h && Hierarchy.inheritsFrom w.objects h system.rootMetaclass
  | none => false

theorem isClass_iff {w : World} {h : Handle} :
    w.isClass h = true ↔ ∃ o part, w.live? h = some o ∧ o.classPart = some part := by
  simp only [isClass, Object.isClass, Option.any_eq_true, Option.isSome_iff_exists, exists_and_left]

end World

namespace Update

variable {α β : Type}

/-- The outcome of an update, and the world after it. -/
def exec (u : Update α) (w : World) : Except Failure α × World :=
  u.run w

@[simp] theorem exec_pure (a : α) (w : World) : (pure a : Update α).exec w = (.ok a, w) := rfl

@[simp] theorem exec_throw (f : Failure) (w : World) : (throw f : Update α).exec w = (.error f, w) := rfl

@[simp] theorem exec_get (w : World) : (get : Update World).exec w = (.ok w, w) := rfl

@[simp] theorem exec_set (v w : World) : (set v : Update PUnit).exec w = (.ok ⟨⟩, v) := rfl

@[simp] theorem exec_modify (f : World → World) (w : World) : (modify f : Update PUnit).exec w = (.ok ⟨⟩, f w) := rfl

@[simp] theorem exec_modifyGet (f : World → α × World) (w : World) :
    (modifyGet f : Update α).exec w = (.ok (f w).1, (f w).2) := rfl

@[simp] theorem exec_changeObjects (f : Objects → Objects) (w : World) :
    (changeObjects f).exec w = (.ok ⟨⟩, { w with objects := f w.objects }) := rfl

theorem exec_bind (u : Update α) (f : α → Update β) (w : World) :
    (u >>= f).exec w = match u.exec w with
      | (.ok a, v) => (f a).exec v
      | (.error e, v) => (.error e, v) := by
  change (u >>= f).run w = match u.run w with
      | (.ok a, v) => (f a).run v
      | (.error e, v) => (.error e, v)
  rw [ExceptT.run_bind]
  change (StateT.bind u.run _ : StateM World _) w = _
  unfold StateT.bind
  change (match u.run w with | (r, v) => _) = _
  rcases u.run w with ⟨r, v⟩
  cases r <;> rfl

theorem exec_bind_of_ok {u : Update α} {w v : World} {a : α} (done : u.exec w = (.ok a, v)) (f : α → Update β) :
    (u >>= f).exec w = (f a).exec v := by
  rw [exec_bind, done]

theorem exec_bind_of_error {u : Update α} {w v : World} {e : Failure} (failed : u.exec w = (.error e, v))
    (f : α → Update β) : (u >>= f).exec w = (.error e, v) := by
  rw [exec_bind, failed]

/-- What is only returned changes nothing. -/
theorem exec_bind_pure_snd (u : Update α) (f : α → β) (w : World) :
    ((u >>= fun a => pure (f a)).exec w).2 = (u.exec w).2 := by
  rw [exec_bind]
  rcases u.exec w with ⟨r, v⟩
  cases r <;> rfl

/-- Where a sequence ends well, so does its first part. -/
theorem exec_bind_eq_ok {u : Update α} {f : α → Update β} {w v : World} {b : β}
    (done : (u >>= f).exec w = (.ok b, v)) : ∃ a t, u.exec w = (.ok a, t) ∧ (f a).exec t = (.ok b, v) := by
  rw [exec_bind] at done
  split at done
  · next a t first => exact ⟨a, t, first, done⟩
  · cases done

/-- What is seen of the outcome of an update shows that it ended well. -/
theorem exec_eq_ok_of_toOption {u : Update α} {f : α → β} {w : World} {b : β}
    (seen : (u.exec w).1.toOption.map f = some b) : ∃ a v, u.exec w = (.ok a, v) ∧ f a = b := by
  rcases done : u.exec w with ⟨_ | a, v⟩
  · rw [done] at seen
    cases seen
  · rw [done] at seen
    exact ⟨a, v, rfl, Option.some.inj seen⟩

@[simp] theorem exec_map (f : α → β) (u : Update α) (w : World) :
    (f <$> u).exec w = ((u.exec w).1.map f, (u.exec w).2) := by
  rw [← bind_pure_comp, exec_bind]
  rcases u.exec w with ⟨r, v⟩
  cases r <;> rfl

theorem exec_tryCatch (u : Update α) (recover : Failure → Update α) (w : World) :
    (tryCatch u recover).exec w = match u.exec w with
      | (.ok a, v) => (.ok a, v)
      | (.error e, v) => (recover e).exec v := by
  unfold exec
  rw [ExceptT.run_tryCatch]
  change (StateT.bind u.run _ : StateM World _) w = _
  unfold StateT.bind
  change (match u.run w with | (r, v) => _) = _
  rcases u.run w with ⟨r, v⟩
  cases r <;> rfl

@[simp] theorem exec_ite (c : Prop) [Decidable c] (t e : Update α) (w : World) :
    (if c then t else e).exec w = if c then t.exec w else e.exec w :=
  apply_ite (fun u : Update α => u.exec w) c t e

/-! ## Loops -/

section loops

variable {ι : Type}

@[simp] theorem exec_forM_nil (f : ι → Update PUnit) (w : World) : (([] : List ι).forM f).exec w = (.ok ⟨⟩, w) := rfl

theorem exec_forM_cons (f : ι → Update PUnit) (x : ι) (xs : List ι) (w : World) :
    ((x :: xs).forM f).exec w = (f x >>= fun _ => xs.forM f).exec w := rfl

theorem exec_forM_changeObjects (change : ι → Objects → Objects) (xs : List ι) (w : World) :
    (xs.forM fun x => changeObjects (change x)).exec w =
      (.ok ⟨⟩, { w with objects := xs.foldl (fun objects x => change x objects) w.objects }) := by
  induction xs generalizing w with
  | nil => rfl
  | cons x xs ih =>
    rw [exec_forM_cons, exec_bind_of_ok (exec_changeObjects (change x) w), ih]
    rfl

theorem exec_forIn_changeObjects (change : ι → Objects → Objects) (xs : List ι) (w : World) :
    (forIn xs PUnit.unit fun x _ => do
      changeObjects (change x)
      pure (ForInStep.yield PUnit.unit) : Update PUnit).exec w =
      (.ok ⟨⟩, { w with objects := xs.foldl (fun objects x => change x objects) w.objects }) := by
  induction xs generalizing w with
  | nil => rfl
  | cons x xs ih =>
    rw [List.forIn_cons, exec_bind, exec_bind_of_ok (exec_changeObjects (change x) w)]
    exact ih _

/-- A loop that only checks stops at the first element that does not pass. -/
theorem exec_forIn_check (check : ι → World → Bool) {f : ι → Update (ForInStep PUnit)} (xs : List ι) {w : World}
    (pass : ∀ x ∈ xs, check x w = true → (f x).exec w = (.ok (.yield ⟨⟩), w))
    (stop : ∀ x ∈ xs, check x w = false → ∃ e, (f x).exec w = (.error e, w)) :
    (xs.all (check · w) = true ∧ (forIn xs PUnit.unit fun x _ => f x : Update PUnit).exec w = (.ok ⟨⟩, w)) ∨
      ∃ e, (forIn xs PUnit.unit fun x _ => f x : Update PUnit).exec w = (.error e, w) := by
  induction xs with
  | nil => exact .inl ⟨rfl, rfl⟩
  | cons x xs ih =>
    rw [List.forIn_cons]
    cases passes : check x w with
    | true =>
      rw [exec_bind_of_ok (pass x List.mem_cons_self passes), List.all_cons, passes, Bool.true_and]
      exact ih (fun y member => pass y (List.mem_cons_of_mem x member))
        fun y member => stop y (List.mem_cons_of_mem x member)
    | false =>
      obtain ⟨e, failed⟩ := stop x List.mem_cons_self passes
      exact .inr ⟨e, exec_bind_of_error failed _⟩

end loops

/-! ## Live objects -/

section live

variable {w : World} {h : Handle} {o : Object} {part : ClassPart}

theorem exec_object (h : Handle) (w : World) :
    (object h).exec w = ((w.live? h).elim (.error (.destroyed h.text)) .ok, w) := by
  unfold object
  rw [exec_bind_of_ok (exec_get w)]
  cases w.live? h <;> rfl

theorem exec_object_of_live (live : w.live? h = some o) : (object h).exec w = (.ok o, w) := by
  rw [exec_object, live]
  rfl

theorem exec_object_of_dead (dead : w.live? h = none) : (object h).exec w = (.error (.destroyed h.text), w) := by
  rw [exec_object, dead]
  rfl

theorem exec_object_eq_ok {v : World} (done : (object h).exec w = (.ok o, v)) : w.live? h = some o ∧ v = w := by
  rw [exec_object] at done
  cases found : w.live? h with
  | none => rw [found] at done; cases done
  | some x =>
    rw [found] at done
    cases done
    exact ⟨rfl, rfl⟩

theorem exec_classPart_of_live (live : w.live? h = some o) (cls : o.classPart = some part) :
    (classPart h).exec w = (.ok part, w) := by
  unfold classPart
  rw [exec_bind_of_ok (exec_object_of_live live), cls]
  rfl

theorem exec_classPart_snd (h : Handle) (w : World) : ((classPart h).exec w).2 = w := by
  unfold classPart
  cases live : w.live? h with
  | none => exact congrArg Prod.snd (exec_bind_of_error (exec_object_of_dead live) _)
  | some o =>
    rw [exec_bind_of_ok (exec_object_of_live live)]
    cases o.classPart <;> rfl

theorem exec_classPart_eq_ok {v : World} (done : (classPart h).exec w = (.ok part, v)) :
    (∃ o, w.live? h = some o ∧ o.classPart = some part) ∧ v = w := by
  unfold classPart at done
  obtain ⟨o, t, first, last⟩ := exec_bind_eq_ok done
  obtain ⟨live, rfl⟩ := exec_object_eq_ok first
  cases cls : o.classPart with
  | none => rw [cls] at last; cases last
  | some part' =>
    rw [cls] at last
    cases last
    exact ⟨⟨o, live, cls⟩, rfl⟩

theorem exec_changeObject_of_live (live : w.live? h = some o) (f : Object → Object) :
    (changeObject h f).exec w = (.ok ⟨⟩, { w with objects := w.objects.modify h f }) := by
  unfold changeObject
  rw [exec_bind_of_ok (exec_object_of_live live)]
  rfl

theorem exec_changeClass_of_isClass (cls : w.isClass h = true) (f : ClassPart → ClassPart) :
    (changeClass h f).exec w = (.ok ⟨⟩, { w with objects := w.objects.modifyClass h f }) := by
  obtain ⟨o, part, live, some⟩ := World.isClass_iff.1 cls
  unfold changeClass
  rw [exec_bind_of_ok (exec_classPart_of_live live some)]
  rfl

theorem exec_isMetaclass (h : Handle) (w : World) : (isMetaclass h).exec w = (.ok (w.isMetaclass h), w) := by
  unfold isMetaclass World.isMetaclass
  rw [exec_bind_of_ok (exec_get w)]
  cases (w.live? h).bind fun o => w.systems[o.system]? <;> rfl

theorem exec_systemOf_of_live {s : ObjectSystem} (live : w.live? h = some o) (system : w.systems[o.system]? = some s) :
    (systemOf h).exec w = (.ok s, w) := by
  unfold systemOf
  rw [exec_bind_of_ok (exec_object_of_live live), exec_bind_of_ok (exec_get w), system]
  rfl

end live

end Update

end DynamicObjects
