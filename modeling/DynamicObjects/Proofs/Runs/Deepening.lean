import DynamicObjects.Proofs.Runs.Evaluations
import DynamicObjects.Proofs.Runs.Openings

/-!
# More depth

What a task comes to within some depth, it comes to within more of it. So it comes to one end only, whatever the depth,
and for what is begun by it the depth can be taken to be enough.
-/
namespace DynamicObjects

open Invocation

/-! ## Actions that come to more -/

namespace Action

variable {α β : Type} {a b : Action α}

/-- Whatever the first action comes to, the second one comes to. -/
def CoveredBy (a b : Action α) : Prop :=
  ∀ w result, a.exec w = some result → b.exec w = some result

theorem CoveredBy.refl (a : Action α) : a.CoveredBy a :=
  fun _ _ done => done

theorem CoveredBy.bind {f g : α → Action β} (first : a.CoveredBy b) (rest : ∀ x, (f x).CoveredBy (g x)) :
    (a >>= f).CoveredBy (b >>= g) := by
  intro w result done
  rw [exec_bind] at done ⊢
  obtain ⟨⟨r, v⟩, begins, ends⟩ := Option.bind_eq_some_iff.1 done
  rw [first w _ begins, Option.bind_some]
  cases r with
  | ok x => exact rest x v result ends
  | error e => exact ends

theorem CoveredBy.settle (covered : a.CoveredBy b) : (settle a).CoveredBy (settle b) := by
  intro w result done
  rw [exec_settle] at done ⊢
  obtain ⟨ended, begins, same⟩ := Option.map_eq_some_iff.1 done
  rw [covered w _ begins, Option.map_some, same]

theorem exec_throw_bind (e : Failure) (f : α → Action β) (w : World) :
    ((throw e : Action α) >>= f).exec w = some (.error e, w) := rfl

/-- Behind a failure it does not matter what would come. -/
theorem CoveredBy.throw_bind (e : Failure) (f g : α → Action β) : (throw e >>= f).CoveredBy (throw e >>= g) := by
  intro w result done
  rw [exec_throw_bind] at done ⊢
  exact done

end Action

/-- Whatever tasks come to on the first host, they come to on the second one. -/
def Host.CoveredBy (j k : Host) : Prop :=
  ∀ task, (j.perform task).CoveredBy (k.perform task)

variable {j k : Host}

theorem Composed.covered {speaks passes : Prop} {α : Type} {f : Host → Action α} (composed : Composed speaks passes f)
    (covered : j.CoveredBy k) (goesOn : passes → ∀ args, (Invocation.next j args).CoveredBy (Invocation.next k args)) : (f j).CoveredBy (f k) := by
  induction composed with
  | update => exact .refl _
  | bind _ _ first rest => exact first.bind rest
  | settle _ part => exact part.settle
  | guard _ h name guard =>
    refine (Action.CoveredBy.refl _).bind fun _ => (covered (.eval .none guard.test)).settle.bind fun outcome => ?_
    exact (Action.CoveredBy.refl _).bind fun _ => .refl _
  | eval _ surroundings e => exact covered (.eval surroundings e)
  | call _ h name args mods => exact covered (.call h name args mods)
  | next may args => exact goesOn may args

namespace Invocation

/-! ## Frames and next calls -/

section covered

variable (covered : j.CoveredBy k)

include covered

theorem covered_enter (h : Handle) (called : String) (resolved : Resolved) (args : List Value) (mods : CallModifiers) :
    (enter j h called resolved args mods).CoveredBy (enter k h called resolved args mods) := by
  refine (Action.CoveredBy.refl _).bind fun outcome => ?_
  cases outcome with
  | ok method => exact covered (.run _ method mods)
  | error f => exact .refl _

theorem covered_passOn (i : Nat) (frame : Frame) (args : Option (List Value)) (fromSub : Bool) :
    (passOn j i frame args fromSub).CoveredBy (passOn k i frame args fromSub) := by
  refine ((composed_continuation frame).covered covered False.elim).bind fun found => ?_
  cases found.resolved with
  | none => exact .refl _
  | some resolved =>
    have entered := covered_enter covered frame.object frame.called resolved (args.getD frame.arguments) {}
    have during : (duringNext i frame.kind (enter j frame.object frame.called resolved (args.getD frame.arguments) {})).CoveredBy
        (duringNext i frame.kind (enter k frame.object frame.called resolved (args.getD frame.arguments) {})) :=
      (Action.CoveredBy.refl _).bind fun _ => entered.settle.bind fun outcome => .refl _
    exact during.bind fun _ => .refl _

theorem covered_nextFrom (i : Nat) (args : Option (List Value)) (fromSub : Bool) :
    (nextFrom j i args fromSub).CoveredBy (nextFrom k i args fromSub) := by
  intro w result done
  cases here : w.stack.get? i with
  | none =>
    unfold nextFrom at done ⊢
    rw [Action.exec_bind_of_ok (Action.exec_get w), here] at done ⊢
    exact done
  | some frame =>
    rw [exec_nextFrom here] at done ⊢
    obtain ⟨ended, passed, same⟩ := Option.map_eq_some_iff.1 done
    rw [covered_passOn covered i frame args fromSub w ended passed, Option.map_some, same]

theorem covered_next (args : Option (List Value)) : (next j args).CoveredBy (next k args) := by
  intro w result done
  rw [exec_next] at done ⊢
  cases goesOn : w.stack.nextIndex? with
  | none =>
    rw [goesOn] at done
    exact done
  | some i =>
    rw [goesOn] at done
    exact covered_nextFrom covered i args _ w result done

/-! ## Runs and calls -/

theorem covered_distribute (i : Nat) (h container : Handle) (args : List Value) (mods : CallModifiers) :
    (distribute j i h container args mods).CoveredBy (distribute k i h container args mods) := by
  refine (Action.CoveredBy.refl _).bind fun w => (Action.CoveredBy.refl _).bind fun meant => ?_
  cases meant with
  | none => exact .refl _
  | some meant =>
    refine (Action.CoveredBy.refl _).bind fun found => ?_
    cases found with
    | none => exact (covered_nextFrom covered i (some args) false).bind fun _ => .refl _
    | some found =>
      refine (Action.CoveredBy.refl _).bind fun o => ?_
      cases o.keepsCallerSelf with
      | false => exact covered (.call container _ _ {})
      | true => exact (Action.CoveredBy.refl _).bind fun method => covered (.run _ method {})

theorem covered_implement (i : Nat) (h : Handle) (method : Method) (args : List Value) (mods : CallModifiers) :
    (implement j i h method args mods).CoveredBy (implement k i h method args mods) := by
  by_cases splits : ∃ container, method.implementation = .ensemble container
  · obtain ⟨container, ensemble⟩ := splits
    intro w result done
    simp only [implement, ensemble] at done ⊢
    rw [exec_runEnsemble] at done ⊢
    exact covered_distribute covered i h container args mods _ result done
  · exact (composed_implement i h args mods (not_exists.1 splits)).covered covered False.elim

theorem covered_close (outcome : Except Failure Value) : (close j outcome).CoveredBy (close k outcome) := by
  refine (Action.CoveredBy.refl _).bind fun w => ?_
  cases w.stack.top? with
  | none => exact .refl _
  | some frame =>
    refine (Action.CoveredBy.refl _).bind fun _ => (Action.CoveredBy.refl _).bind fun _ => ?_
    exact ((composed_conclude frame outcome).covered covered False.elim).settle.bind fun _ => .refl _

theorem covered_run (frame : Frame) (method : Method) (mods : CallModifiers) :
    (run j frame method mods).CoveredBy (run k frame method mods) := by
  refine (Action.CoveredBy.refl _).bind fun w => (Action.CoveredBy.refl _).bind fun _ => (Action.CoveredBy.refl _).bind fun _ => ?_
  exact (covered_implement covered _ _ _ _ _).settle.bind fun outcome => covered_close covered outcome

theorem covered_call (h : Handle) (name : String) (args : List Value) (mods : CallModifiers) :
    (call j h name args mods).CoveredBy (call k h name args mods) := by
  have found : ∀ found : Option Resolved,
      (found.elim (answerNotFound j h name args mods) (enter j h name · args mods)).CoveredBy
        (found.elim (answerNotFound k h name args mods) (enter k h name · args mods)) := by
    intro found
    cases found with
    | some resolved => exact covered_enter covered h name resolved args mods
    | none => exact (composed_answerNotFound h name args mods).covered covered False.elim
  refine (Action.CoveredBy.refl _).bind fun w => ?_
  by_cases limit : w.settings.maxDepth ≤ w.stack.depth
  · simp only [if_pos limit]
    exact .throw_bind _ _ _
  · simp only [if_neg limit]
    refine (Action.CoveredBy.refl _).bind fun _ => ?_
    refine ((composed_resolve h name mods).covered covered False.elim).bind fun resolved => ?_
    cases resolved with
    | some resolved => exact found (some resolved)
    | none => exact found none

end covered

end Invocation

/-! ## Hosts of some depth -/

/-- Interpreters are ordered as their hosts are. -/
theorem covered_interpret (covered : j.CoveredBy k) (task : Task) : (interpret j task).CoveredBy (interpret k task) := by
  cases task with
  | eval surroundings e => exact (Script.composed_evaluate surroundings e).covered covered fun _ => covered_next covered
  | call h name args mods => exact covered_call covered h name args mods
  | run frame method mods => exact covered_run covered frame method mods

theorem coveredBy_succ (depth : Nat) : (Script.hostOfDepth depth).CoveredBy (Script.hostOfDepth (depth + 1)) := by
  induction depth with
  | zero =>
    intro task w result done
    cases task <;> cases done
  | succ depth ih =>
    intro task
    rw [hostOfDepth_succ, hostOfDepth_succ, Host.perform_ofTasks, Host.perform_ofTasks]
    exact covered_interpret ih task

/-- What tasks come to within some depth, they come to within more of it. -/
theorem coveredBy_of_le {depth more : Nat} (within : depth ≤ more) :
    (Script.hostOfDepth depth).CoveredBy (Script.hostOfDepth more) := by
  induction more, within using Nat.le_induction with
  | base => exact fun _ => .refl _
  | succ more _ ih => exact fun task w result done => coveredBy_succ more task w result (ih task w result done)

/-! ## Where depth is enough -/

section ends

variable {α β : Type}

/-- What an action of hosts comes to, given enough depth. -/
def Ends (f : Host → Action α) (w : World) (r : Except Failure α) (v : World) : Prop :=
  ∃ depth, (f (Script.hostOfDepth depth)).exec w = some (r, v)

/-- An action that comes to more as its host does. -/
def Deepens (f : Host → Action α) : Prop :=
  ∀ j k : Host, j.CoveredBy k → (f j).CoveredBy (f k)

variable {f : Host → Action α} {g g' : Host → Action β} {u w v v' : World}

theorem Deepens.exec (deepens : Deepens f) {depth more : Nat} (within : depth ≤ more) {result : Except Failure α × World}
    (done : (f (Script.hostOfDepth depth)).exec w = some result) : (f (Script.hostOfDepth more)).exec w = some result :=
  deepens _ _ (coveredBy_of_le within) w result done

/-- An action comes to one end only. -/
theorem Ends.unique (deepens : Deepens f) {r r' : Except Failure α} (one : Ends f w r v) (other : Ends f w r' v') :
    r = r' ∧ v = v' := by
  obtain ⟨depth, done⟩ := one
  obtain ⟨depth', done'⟩ := other
  have same := (deepens.exec (Nat.le_max_left depth depth') done).symm.trans
    (deepens.exec (Nat.le_max_right depth depth') done')
  exact Prod.mk.inj (Option.some.inj same)

/-- Whatever either of two actions comes to, the other one comes to as well, in a world that is related. -/
structure Agree (related : World → World → Prop) (f : Host → Action β) (u : World) (g : Host → Action β) (v : World) :
    Prop where
  forth : ∀ r u', Ends f u r u' → ∃ v', Ends g v r v' ∧ related u' v'
  back : ∀ r v', Ends g v r v' → ∃ u', Ends f u r u' ∧ related u' v'

variable {related related' : World → World → Prop} {f' : Host → Action β} {u' : World} {enough : Nat}

theorem Agree.mono (agree : Agree related g u g' v) (relates : ∀ x y, related x y → related' x y) :
    Agree related' g u g' v where
  forth r x ended := (agree.forth r x ended).imp fun _ both => ⟨both.1, relates _ _ both.2⟩
  back r y ended := (agree.back r y ended).imp fun _ both => ⟨both.1, relates _ _ both.2⟩

theorem Agree.symm (agree : Agree related f' u g v) : Agree (fun y x => related x y) g v f' u :=
  ⟨agree.back, agree.forth⟩

/-- Actions agree that come to the same on any host. -/
theorem Agree.of_exec (agree : Agree related f' u' g v) (left : ∀ k, (g' k).exec u = (f' k).exec u')
    {g'' : Host → Action β} (right : ∀ k, (g'' k).exec v' = (g k).exec v) : Agree related g' u g'' v' where
  forth r x ended := by
    obtain ⟨depth, done⟩ := ended
    obtain ⟨y, ⟨more, done'⟩, relates⟩ := agree.forth r x ⟨depth, left _ ▸ done⟩
    exact ⟨y, ⟨more, (right _).trans done'⟩, relates⟩
  back r y ended := by
    obtain ⟨depth, done⟩ := ended
    obtain ⟨x, ⟨more, done'⟩, relates⟩ := agree.back r y ⟨depth, right _ ▸ done⟩
    exact ⟨x, ⟨more, (left _).trans done'⟩, relates⟩

/-- Actions agree that end with the same outcome on any host. -/
theorem Agree.ended {r : Except Failure β} (left : ∀ k, (f' k).exec u = some (r, u'))
    (right : ∀ k, (g k).exec v = some (r, v')) (relates : related u' v') : Agree related f' u g v where
  forth r' x ended := by
    obtain ⟨depth, done⟩ := ended
    cases (left _).symm.trans done
    exact ⟨v', ⟨0, right _⟩, relates⟩
  back r' y ended := by
    obtain ⟨depth, done⟩ := ended
    cases (right _).symm.trans done
    exact ⟨u', ⟨0, left _⟩, relates⟩

/-- The first action may begin with what does not show at its end. -/
theorem Agree.of_left (agree : Agree related f' u' g v) (deepens : Deepens g') (deepens' : Deepens f')
    (begins : ∀ depth, enough ≤ depth → (g' (Script.hostOfDepth depth)).exec u = (f' (Script.hostOfDepth depth)).exec u') :
    Agree related g' u g v := by
  have same : ∀ r x, Ends g' u r x ↔ Ends f' u' r x := by
    refine fun r x => ⟨fun ⟨depth, done⟩ => ⟨max enough depth, ?_⟩, fun ⟨depth, done⟩ => ⟨max enough depth, ?_⟩⟩
    · rw [← begins _ (Nat.le_max_left ..)]
      exact deepens.exec (Nat.le_max_right ..) done
    · rw [begins _ (Nat.le_max_left ..)]
      exact deepens'.exec (Nat.le_max_right ..) done
  exact ⟨fun r x ended => agree.forth r x ((same r x).1 ended),
    fun r y ended => (agree.back r y ended).imp fun x both => ⟨(same r x).2 both.1, both.2⟩⟩

/-- Both actions may begin with what does not show at their ends. -/
theorem Agree.of_begins {f g : Host → Action β} {more : Nat} (agree : Agree related f' u' g' v') (deepens : Deepens f)
    (deepens' : Deepens f')
    (begins : ∀ depth, enough ≤ depth → (f (Script.hostOfDepth depth)).exec u = (f' (Script.hostOfDepth depth)).exec u')
    (deepensRight : Deepens g) (deepensRight' : Deepens g')
    (beginsRight : ∀ depth, more ≤ depth →
      (g (Script.hostOfDepth depth)).exec v = (g' (Script.hostOfDepth depth)).exec v') : Agree related f u g v := by
  have left : Agree related f u g' v' := agree.of_left deepens deepens' begins
  exact (left.symm.of_left deepensRight deepensRight' beginsRight).symm

/-- The second action may be another one that something is done around, deeper inside. Where that one ends, what is done
afterwards ends, too, with the same outcome. -/
theorem Agree.of_right (agree : Agree related' f' u g v) (deepens : Deepens g') (deepens' : Deepens g) {inside : Nat}
    {after : Nat → Except Failure β × World → Option (Except Failure β × World)}
    (around : ∀ depth, enough ≤ depth → (g' (Script.hostOfDepth (depth + inside))).exec v' =
      ((g (Script.hostOfDepth depth)).exec v).bind (after depth))
    (closes : ∀ depth r x y, related' x y → ∃ z, after depth (r, y) = some (r, z) ∧ related x z) :
    Agree related f' u g' v' := by
  constructor
  case forth =>
    intro r x ended
    obtain ⟨y, ⟨depth, done⟩, relates⟩ := agree.forth r x ended
    obtain ⟨z, closed, relates'⟩ := closes (max enough depth) r x y relates
    refine ⟨z, ⟨max enough depth + inside, ?_⟩, relates'⟩
    rw [around _ (Nat.le_max_left ..), deepens'.exec (Nat.le_max_right ..) done]
    exact closed
  case back =>
    intro r z ⟨depth, done⟩
    have more := deepens.exec (Nat.le_trans (Nat.le_max_right enough depth) (Nat.le_add_right _ inside)) done
    rw [around _ (Nat.le_max_left ..)] at more
    obtain ⟨⟨r', y⟩, ended, closed⟩ := Option.bind_eq_some_iff.1 more
    obtain ⟨x, ended', relates⟩ := agree.back r' y ⟨_, ended⟩
    obtain ⟨z', closed', relates'⟩ := closes (max enough depth) r' x y relates
    cases closed.symm.trans closed'
    exact ⟨x, ended', relates'⟩

end ends

end DynamicObjects
