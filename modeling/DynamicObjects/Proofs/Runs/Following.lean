import DynamicObjects.Proofs.Runs.Fates
import DynamicObjects.Proofs.Runs.Tasks

/-!
# Following actions

What an action does when the host it runs on develops worlds and leaves them poised: it develops the world as well, and of
the host it only notices what that does in worlds that have developed and lie inside of what goes on. Most actions leave
the world poised themselves; what the others leave behind is said world by world. The rules follow the way actions are put
together.
-/
namespace DynamicObjects

/-- A well-formed world without exceptions. -/
abbrev Proper (w : World) : Prop :=
  WellFormed (fun _ => False) w

namespace Task

/-- A task leaves the marks of open calls as they are, but a method that runs in a frame pops the positions that were
pushed for it. -/
def closed : Task → World → World
  | .run frame _ _, w => w.lowered frame.object frame.pushedFilterPosition frame.pushedMixinPosition
  | .eval _ _, w | .call _ _ _ _, w => w

/-- The world in which a task runs; a method runs in its frame. -/
def opened : Task → World → World
  | .run frame _ _, w => w.opened frame
  | .eval _ _, w | .call _ _ _ _, w => w

/-- Whether a task runs a method in a frame. -/
def isRun : Task → Bool
  | .run .. => true
  | .eval .. | .call .. => false

/-- The world is tallied in which a task runs; a method runs in its frame. -/
def Tallied : Task → World → Prop
  | .run frame _ _, w => frame.isGuard = false ∧ (w.opened frame).Tallied
  | .eval _ _, w | .call _ _ _ _, w => w.Tallied

end Task

/-- The tasks of a host develop the world, leave it balanced and keep what is held. They end with good heaps, in which
handles remain, or fail with next to nothing done. -/
structure Faithful (terms : Terms) (host : Host) : Prop where
  remain : ∀ a, terms.good a → a.HandlesRemain
  task : ∀ task w r v, Proper w → (host.perform task).exec w = some (r, v) →
    Proceeds terms w v ∧ Balanced (task.closed w) v ∧
      (terms.good v.objects ∨ (∃ e, r = .error e) ∧ Heap.Alike Object.bare w.objects v.objects) ∧
        Shelters (task.closed w).objects v.objects

/-- Where a task can be asked for inside of what began in `base`: what was held is kept, and no more frames are open but
those of guards. Evaluations and calls, unless in a guard, are asked for with positions where they were in `base`, or in
`last`. -/
structure Within (base last : World) (task : Task) (v : World) : Prop extends Inside base v where
  positions : task.isRun = false → PositionsRest base v ∨ PositionsRest last v

/-- Further in. -/
theorem Within.outside {base last w v : World} {task : Task} (further : Within w w task v) (inside : Inside base w)
    (positions : PositionsRest base w ∨ PositionsRest last w) : Within base last task v where
  toInside := inside.trans further.toInside
  positions plain := by
    have still : PositionsRest w v := (further.positions plain).elim id id
    exact positions.imp (·.trans still) (·.trans still)

theorem Poised.within {base last w : World} (poised : Poised base w) (task : Task) (v : World)
    (further : Within w w task v) : Within base last task v :=
  further.outside poised.inside (.inl poised.positionsRest)

/-- On a faithful host, and from a world that meets `pre`, an action only notices what the host does with tasks that begin
where they may according to `within`, in worlds that develop from there and, as far as `tallied` holds, are tallied; it
develops the world, and `post` is met at its end. -/
def Brings {α : Type} (terms : Terms) (host : Host) (tallied : Prop) (within : Task → World → Prop) (pre : World → Prop)
    (f : Host → Action α) (post : Except Failure α → World → Prop) : Prop :=
  Faithful terms host → ∀ w, Proper w → pre w →
    (∀ other : Host, (∀ task v, Proceeds terms w v → within task v → (tallied → task.Tallied v) →
        (other.perform task).exec v = (host.perform task).exec v) → (f other).exec w = (f host).exec w) ∧
    ∀ r v, (f host).exec w = some (r, v) → Proceeds terms w v ∧ post r v

/-- From a world that meets `pre`, an action develops the world, leaves it balanced and keeps what is held; the host does
what the action notices in worlds that lie inside and are tallied if the first one is. At its end `post` is met. -/
def Settles {α : Type} (terms : Terms) (host : Host) (pre : World → Prop) (f : Host → Action α)
    (post : Except Failure α → World → Prop) : Prop :=
  ∀ w, pre w → Brings terms host w.Tallied (Within w w) (· = w) f fun r v => Poised w v ∧ post r v

/-- The same, with `post` met where the action ends well. -/
def Follows {α : Type} (terms : Terms) (host : Host) (pre : World → Prop) (f : Host → Action α)
    (post : α → World → Prop) : Prop :=
  Settles terms host pre f fun r v => ∀ a, r = .ok a → post a v

/-- What holds before an action holds afterwards, even if it fails. -/
abbrev Maintains {α : Type} (terms : Terms) (host : Host) (inv : World → Prop) (f : Host → Action α) : Prop :=
  Settles terms host inv f fun _ => inv

/-- Nothing is asked of the world, and nothing is known afterwards. -/
abbrev Steady {α : Type} (terms : Terms) (host : Host) (f : Host → Action α) : Prop :=
  Follows terms host (fun _ => True) f fun _ _ => True

/-- From a good heap to a good heap. -/
abbrev Keeps {α : Type} (terms : Terms) (host : Host) (f : Host → Action α) : Prop :=
  Follows terms host (fun w => terms.good w.objects) f fun _ w => terms.good w.objects

/-! ## What actions bring -/

namespace Brings

variable {α β : Type} {terms : Terms} {host : Host} {tallied : Prop} {within : Task → World → Prop} {pre : World → Prop}
  {f : Host → Action α} {post : Except Failure α → World → Prop}

theorem mono {pre' : World → Prop} {post' : Except Failure α → World → Prop}
    (brings : Brings terms host tallied within pre f post) (fewer : ∀ w, pre' w → pre w)
    (more : ∀ r w, post r w → post' r w) : Brings terms host tallied within pre' f post' := by
  intro faithful w proper met
  obtain ⟨unseen, ends⟩ := brings faithful w proper (fewer w met)
  exact ⟨unseen, fun r v done => (ends r v done).imp id (more r v)⟩

/-- What goes on inside may begin further in. -/
theorem outside {inner : Task → World → Prop} (inside : ∀ task v, inner task v → within task v)
    (brings : Brings terms host tallied inner pre f post) : Brings terms host tallied within pre f post := by
  intro faithful w proper met
  obtain ⟨unseen, ends⟩ := brings faithful w proper met
  exact ⟨fun other agrees => unseen other fun task v path further => agrees task v path (inside task v further), ends⟩

/-- It is enough to look at one world at a time. -/
theorem of_each (each : Faithful terms host → ∀ w, Proper w → pre w → Brings terms host tallied within (· = w) f post) :
    Brings terms host tallied within pre f post :=
  fun faithful w proper met => each faithful w proper met faithful w proper rfl

theorem pure (a : α) (holds : ∀ w, pre w → post (.ok a) w) :
    Brings terms host tallied within pre (fun _ => pure a) post := by
  refine fun _ w _ met => ⟨fun _ _ => rfl, fun r v done => ?_⟩
  cases done
  exact ⟨.refl, holds w met⟩

theorem throw (e : Failure) (holds : ∀ w, pre w → post (.error e) w) :
    Brings terms host tallied within pre (fun _ => (throw e : Action α)) post := by
  refine fun _ w _ met => ⟨fun _ _ => rfl, fun r v done => ?_⟩
  cases done
  exact ⟨.refl, holds w met⟩

theorem get : Brings terms host tallied within pre (fun _ => (get : Action World)) fun r w => r = .ok w ∧ pre w := by
  refine fun _ w _ met => ⟨fun _ _ => rfl, fun r v done => ?_⟩
  cases done
  exact ⟨.refl, rfl, met⟩

theorem resume (r : Except Failure α) (holds : ∀ w, pre w → post r w) :
    Brings terms host tallied within pre (fun _ => Action.resume r) post := by
  cases r with
  | ok a => exact pure a holds
  | error e => exact throw e holds

/-- An update, from worlds in which all it does are changes. -/
theorem lift {u : Update α} (develops : ∀ w, pre w → Proceeds terms w (u.exec w).2)
    (ends : ∀ w, Proper w → pre w → post (u.exec w).1 (u.exec w).2) :
    Brings terms host tallied within pre (fun _ => liftM u) post := by
  refine fun _ w proper met => ⟨fun _ _ => rfl, fun r v done => ?_⟩
  rw [Action.exec_liftM] at done
  have same := Option.some.inj done
  have path := develops w met
  have holds := ends w proper met
  rw [same] at path holds
  exact ⟨path, holds⟩

theorem bind {g : Host → α → Action β} {mid : Except Failure α → World → Prop} {post : Except Failure β → World → Prop}
    (first : Brings terms host tallied within pre f mid)
    (rest : ∀ a, Brings terms host tallied within (mid (.ok a)) (fun k => g k a) post)
    (fails : ∀ e w, mid (.error e) w → post (.error e) w) :
    Brings terms host tallied within pre (fun k => f k >>= g k) post := by
  intro faithful w proper met
  obtain ⟨unseen, ends⟩ := first faithful w proper met
  constructor
  · intro other agrees
    rw [Action.exec_bind, Action.exec_bind, unseen other agrees]
    cases done : (f host).exec w with
    | none => rfl
    | some result =>
      obtain ⟨r, v⟩ := result
      cases r with
      | error e => rfl
      | ok a =>
        obtain ⟨path, holds⟩ := ends _ _ done
        exact (rest a faithful v (proper.evolves faithful.remain path.evolves) holds).1 other fun task u further =>
          agrees task u (path.trans further)
  · intro r v done
    rw [Action.exec_bind] at done
    obtain ⟨⟨s, u⟩, start, finish⟩ := Option.bind_eq_some_iff.1 done
    obtain ⟨path, holds⟩ := ends _ _ start
    cases s with
    | error e =>
      cases finish
      exact ⟨path, fails e _ holds⟩
    | ok a =>
      obtain ⟨further, ended⟩ := (rest a faithful u (proper.evolves faithful.remain path.evolves) holds).2 _ _ finish
      exact ⟨path.trans further, ended⟩

theorem settle (brings : Brings terms host tallied within pre f post) :
    Brings terms host tallied within pre (fun k => Action.settle (f k)) fun r w => ∃ s, r = .ok s ∧ post s w := by
  intro faithful w proper met
  obtain ⟨unseen, ends⟩ := brings faithful w proper met
  constructor
  · intro other agrees
    rw [Action.exec_settle, Action.exec_settle, unseen other agrees]
  · intro r v done
    rw [Action.exec_settle] at done
    obtain ⟨⟨s, u⟩, start, same⟩ := Option.map_eq_some_iff.1 done
    cases same
    exact (ends _ _ start).imp id fun holds => ⟨s, rfl, holds⟩

/-- An action that does the same on all hosts. -/
theorem of_exec {w v : World} {r : Except Failure α} (exec : ∀ k, (f k).exec w = some (r, v)) (path : Proceeds terms w v)
    (ends : post r v) : Brings terms host tallied within (· = w) f post := by
  rintro _ w _ rfl
  refine ⟨fun other _ => (exec other).trans (exec host).symm, fun s u done => ?_⟩
  rw [exec host] at done
  cases done
  exact ⟨path, ends⟩

/-- After an action that is run to its end, failed or not. -/
theorem settle_bind {g : Host → Except Failure α → Action β} {m : Except Failure α → World → Prop}
    {post : Except Failure β → World → Prop} (first : Brings terms host tallied within pre f m)
    (rest : ∀ r, Brings terms host tallied within (m r) (fun k => g k r) post) :
    Brings terms host tallied within pre (fun k => Action.settle (f k) >>= g k) post := by
  refine first.settle.bind (fun r => (rest r).mono (fun w ended => ?_) fun _ _ met => met) fun e w ended => ?_
  · obtain ⟨s, same, met⟩ := ended
    cases same
    exact met
  · obtain ⟨s, same, -⟩ := ended
    cases same

/-- After a look at the world. -/
theorem get_bind {w : World} {g : Host → World → Action β} {post : Except Failure β → World → Prop}
    (rest : Brings terms host tallied within (· = w) (fun k => g k w) post) :
    Brings terms host tallied within (· = w) (fun k => MonadState.get >>= g k) post := by
  refine Brings.bind Brings.get (fun v => .of_each fun _ u _ both => ?_) fun e u both => nomatch both.1
  obtain ⟨same, rfl⟩ := both
  cases same
  exact rest

/-- After a change aside of the world. -/
theorem change_bind {u : Update PUnit} {step : World → World} {g : Host → PUnit → Action β} {m : World → Prop}
    {post : Except Failure β → World → Prop} (steps : ∀ w, u.exec w = (.ok ⟨⟩, step w)) (sober : ∀ w, Mindful w (step w))
    (ends : ∀ w, pre w → m (step w)) (rest : Brings terms host tallied within m (fun k => g k ⟨⟩) post) :
    Brings terms host tallied within pre (fun k => liftM u >>= g k) post := by
  have changes : Brings terms host tallied within pre (fun _ => (liftM u : Action PUnit)) fun r w => r = .ok ⟨⟩ ∧ m w := by
    refine lift (fun w _ => ?_) fun w _ met => ?_
    · rw [steps]
      exact .single (.aside (sober w))
    · rw [steps]
      exact ⟨rfl, ends w met⟩
  exact changes.bind (fun _ => rest.mono (fun w both => both.2) fun _ _ met => met) fun e w both => nomatch both.1

theorem modify_bind {step : World → World} {g : Host → PUnit → Action β} {m : World → Prop}
    {post : Except Failure β → World → Prop} (sober : ∀ w, Mindful w (step w)) (ends : ∀ w, pre w → m (step w))
    (rest : Brings terms host tallied within m (fun k => g k ⟨⟩) post) :
    Brings terms host tallied within pre (fun k => (modify step : Action PUnit) >>= g k) post :=
  change_bind (u := modify step) (fun _ => rfl) sober ends rest

/-- After a change at an object that may be unlinked already. -/
theorem changeHeld_bind {h : Handle} {change : Object → Object} {g : Host → PUnit → Action β} {m : World → Prop}
    {post : Except Failure β → World → Prop} (keeps : ∀ o, (change o).core = o.core)
    (ages : ∀ o : Object, o.Ages (change o)) (ends : ∀ w, pre w → m { w with objects := w.objects.modify h change })
    (rest : Brings terms host tallied within m (fun k => g k ⟨⟩) post) :
    Brings terms host tallied within pre (fun k => liftM (Invocation.changeHeld h change) >>= g k) post :=
  change_bind (fun _ => rfl) (fun w => .modify w h keeps fun o _ => ages o) ends rest

theorem ite {c : Prop} [Decidable c] {g : Host → Action α} (yes : c → Brings terms host tallied within pre f post)
    (no : ¬c → Brings terms host tallied within pre g post) :
    Brings terms host tallied within pre (fun k => if c then f k else g k) post := by
  by_cases holds : c
  · simpa only [if_pos holds] using yes holds
  · simpa only [if_neg holds] using no holds

theorem perform (task : Task) (w : World) (inside : within task w) (begins : tallied → task.Tallied w) :
    Brings terms host tallied within (· = w) (fun k => k.perform task) fun r v => Poised (task.closed w) v ∧
      (terms.good v.objects ∨ (∃ e, r = .error e) ∧ Heap.Alike Object.bare w.objects v.objects) := by
  rintro faithful w proper rfl
  refine ⟨fun other agrees => agrees task w .refl inside begins, fun r v done => ?_⟩
  obtain ⟨path, balanced, either, shelters⟩ := faithful.task task w r v proper done
  exact ⟨path, ⟨balanced, shelters⟩, either⟩

end Brings

/-- What leaves worlds poised can come in between: whatever that preserves is met afterwards. -/
theorem Settles.brings {α : Type} {terms : Terms} {host : Host} {tallied : Prop} {within : Task → World → Prop}
    {pre pre' : World → Prop} {f : Host → Action α} {post post' : Except Failure α → World → Prop}
    (settles : Settles terms host pre f post)
    (begins : ∀ w, pre' w → pre w ∧ (∀ task v, Within w w task v → within task v) ∧ (tallied → w.Tallied))
    (ends : ∀ w r v, pre' w → Poised w v → post r v → post' r v) : Brings terms host tallied within pre' f post' := by
  intro faithful w proper met
  obtain ⟨holds, inside, tally⟩ := begins w met
  obtain ⟨unseen, after⟩ := settles w holds faithful w proper rfl
  refine ⟨fun other agrees => unseen other fun task v path further seen =>
    agrees task v path (inside task v further) fun known => seen (tally known), fun r v done => ?_⟩
  obtain ⟨path, poised, ended⟩ := after r v done
  exact ⟨path, ends w r v met poised ended⟩

theorem Follows.brings {α : Type} {terms : Terms} {host : Host} {tallied : Prop} {within : Task → World → Prop}
    {pre pre' : World → Prop} {f : Host → Action α} {post : α → World → Prop} {post' : Except Failure α → World → Prop}
    (follows : Follows terms host pre f post)
    (begins : ∀ w, pre' w → pre w ∧ (∀ task v, Within w w task v → within task v) ∧ (tallied → w.Tallied))
    (ends : ∀ w r v, pre' w → Poised w v → (∀ a, r = .ok a → post a v) → post' r v) :
    Brings terms host tallied within pre' f post' :=
  Settles.brings follows begins ends

/-- From worlds that are poised after one that is tallied, what leaves worlds poised goes on so. -/
theorem Brings.steadily {α : Type} {terms : Terms} {host : Host} {tallied : Prop} {w last : World}
    {f : Host → Action α} (tally : tallied → w.Tallied) (steady : Follows terms host (fun _ => True) f fun _ _ => True) :
    Brings terms host tallied (Within w last) (Poised w) f fun _ => Poised w :=
  steady.brings
    (fun _ poised => ⟨trivial, poised.within, fun known => (tally known).of_balanced poised.toBalanced⟩)
    fun _ _ _ poised further _ => poised.trans further

/-- An update whose changes leave open calls alone. -/
theorem Brings.calmly {α : Type} {terms : Terms} {host : Host} {tallied : Prop} {within : Task → World → Prop}
    {u : Update α} (w : World) (along : u.Along (Deed Hushed terms)) :
    Brings terms host tallied within (· = w) (fun _ => liftM u) fun _ v => Poised w v := by
  refine .of_each fun faithful v _ same => .lift (fun u is => ?_) fun u proper is => ?_
  · subst is
    exact Calmly.proceeds (along u)
  · rw [← same, ← is]
    exact proper.poised_of_calmly faithful.remain (along u)

/-! ## Rules of following -/

namespace Follows

variable {α β ι : Type} {terms : Terms} {host : Host} {pre pre' : World → Prop} {f : Host → Action α}
  {post : α → World → Prop}

theorem mono {post' : α → World → Prop} (follows : Follows terms host pre f post) (fewer : ∀ w, pre' w → pre w)
    (more : ∀ a w, post a w → post' a w) : Follows terms host pre' f post' :=
  fun w holds => (follows w (fewer w holds)).mono (fun _ same => same) fun _ v both =>
    ⟨both.1, fun a same => more a v (both.2 a same)⟩

theorem weaken (steady : Follows terms host (fun _ => True) f post) : Follows terms host pre f fun _ _ => True :=
  steady.mono (fun _ _ => trivial) fun _ _ _ => trivial

theorem forget (follows : Follows terms host pre f post) : Follows terms host pre f fun _ _ => True :=
  follows.mono (fun _ holds => holds) fun _ _ _ => trivial

theorem absurd (never : ∀ w, ¬pre w) : Follows terms host pre f post :=
  fun w met => (never w met).elim

/-- It is enough to look at one world at a time. -/
theorem of_each (each : Faithful terms host → ∀ w, Proper w → pre w → Follows terms host (· = w) f post) :
    Follows terms host pre f post := by
  rintro w met faithful w proper rfl
  exact each faithful w proper met w rfl faithful w proper rfl

theorem pure (a : α) (holds : ∀ w, pre w → post a w) : Follows terms host pre (fun _ => pure a) post := by
  refine fun w met => .pure a fun v same => ?_
  subst same
  exact ⟨.refl v, fun b same => by cases same; exact holds v met⟩

theorem throw (e : Failure) : Follows terms host pre (fun _ => (throw e : Action α)) post := by
  refine fun w _ => .throw e fun v same => ?_
  subst same
  exact ⟨.refl v, nofun⟩

theorem get : Follows terms host pre (fun _ => (get : Action World)) fun u w => u = w ∧ pre w := by
  refine fun w met => Brings.get.mono (fun _ same => same) fun r v both => ?_
  obtain ⟨rfl, rfl⟩ := both
  exact ⟨.refl v, fun _ same => by cases same; exact ⟨rfl, met⟩⟩

/-- An update, from worlds in which all it does are changes that leave open calls alone. -/
theorem lift {u : Update α} (calmly : ∀ w, Proper w → pre w → Calmly terms w (u.exec w).2)
    (ends : ∀ w a v, pre w → u.exec w = (.ok a, v) → post a v) : Follows terms host pre (fun _ => liftM u) post := by
  rintro w met faithful w proper rfl
  have path := calmly w proper met
  refine Brings.lift (fun v (same : v = w) => ?_) (fun v _ same => ?_) faithful w proper rfl
  · subst same
    exact Calmly.proceeds path
  · subst same
    exact ⟨proper.poised_of_calmly faithful.remain path, fun a ok => ends v a _ met (Prod.ext ok rfl)⟩

theorem reads {u : Update α} (same : ∀ w, (u.exec w).2 = w) : Follows terms host pre (fun _ => liftM u) fun _ => pre := by
  refine lift (fun w _ _ => by rw [same]) fun w a v met done => ?_
  have last := same w
  rw [done] at last
  cases last
  exact met

theorem bind {f : Host → Action α} {g : Host → α → Action β} {mid : α → World → Prop} {post : β → World → Prop}
    (first : Follows terms host pre f mid)
    (rest : ∀ a, Follows terms host (mid a) (fun k => g k a) post) :
    Follows terms host pre (fun k => f k >>= g k) post := by
  intro w met
  refine (first w met).bind (fun a => (rest a).brings (fun v both => ?_) fun v r u both further ended => ?_)
    fun e v both => ⟨both.1, nofun⟩
  · exact ⟨both.2 a rfl, both.1.within, fun tallied => tallied.of_balanced both.1.toBalanced⟩
  · exact ⟨both.1.trans further, ended⟩

theorem settle (follows : Follows terms host pre f post) :
    Follows terms host pre (fun k => Action.settle (f k)) fun r w => ∀ a, r = .ok a → post a w := by
  intro w met
  refine (follows w met).settle.mono (fun _ same => same) fun r v ended => ?_
  obtain ⟨s, rfl, poised, holds⟩ := ended
  exact ⟨poised, fun t same => by cases same; exact holds⟩

theorem ite {c : Prop} [Decidable c] {g : Host → Action α} (yes : c → Follows terms host pre f post)
    (no : ¬c → Follows terms host pre g post) : Follows terms host pre (fun k => if c then f k else g k) post :=
  fun w met => .ite (fun holds => yes holds w met) fun fails => no fails w met

/-- What a task gives comes with a good heap. -/
theorem perform (task : Task) (closed : ∀ w, task.closed w = w) (tallied : ∀ w, w.Tallied → task.Tallied w) :
    Follows terms host (fun _ => True) (fun k => k.perform task) fun _ w => terms.good w.objects := by
  intro w _
  have within : Within w w task w := ⟨.refl w, fun _ => .inl (Balanced.refl w).positionsRest⟩
  refine (Brings.perform task w within (tallied w)).mono (fun _ same => same) fun r v ended => ?_
  obtain ⟨poised, either⟩ := ended
  rw [closed] at poised
  refine ⟨poised, fun a same => either.resolve_right fun fails => ?_⟩
  obtain ⟨⟨e, failed⟩, -⟩ := fails
  rw [same] at failed
  cases failed

theorem eval (surroundings : Surroundings) (e : Expr) :
    Follows terms host (fun _ => True) (fun k => k.eval surroundings e) fun _ w => terms.good w.objects :=
  .perform (.eval surroundings e) (fun _ => rfl) fun _ tallied => tallied

theorem call (h : Handle) (name : String) (args : List Value) (mods : CallModifiers) :
    Follows terms host (fun _ => True) (fun k => k.call h name args mods) fun _ w => terms.good w.objects :=
  .perform (.call h name args mods) (fun _ => rfl) fun _ tallied => tallied

theorem mapM {g : Host → ι → Action α} {inv : World → Prop}
    (each : ∀ i, Follows terms host inv (fun k => g k i) fun _ => inv) (is : List ι) :
    Follows terms host inv (fun k => is.mapM (g k)) fun _ => inv := by
  induction is with
  | nil =>
    simp only [List.mapM_nil]
    exact pure [] fun _ met => met
  | cons i is ih =>
    simp only [List.mapM_cons]
    exact (each i).bind fun a => ih.bind fun as => pure _ fun _ met => met

theorem forM {g : Host → ι → Action PUnit} {inv : World → Prop}
    (each : ∀ i, Follows terms host inv (fun k => g k i) fun _ => inv) (is : List ι) :
    Follows terms host inv (fun k => is.forM (g k)) fun _ => inv := by
  induction is with
  | nil => exact pure PUnit.unit fun _ met => met
  | cons i is ih => exact (each i).bind fun _ => ih

end Follows

/-! ## Rules for failures as well -/

namespace Maintains

variable {α β : Type} {terms : Terms} {host : Host} {inv : World → Prop} {f : Host → Action α}

theorem follows (maintains : Maintains terms host inv f) : Follows terms host inv f fun _ => inv :=
  fun w met => (maintains w met).mono (fun _ same => same) fun _ _ both => ⟨both.1, fun _ _ => both.2⟩

theorem pure (a : α) : Maintains terms host inv (fun _ => (pure a : Action α)) :=
  fun _ met => .pure a fun v same => ⟨same ▸ .refl v, same ▸ met⟩

theorem bind {g : Host → α → Action β} (first : Maintains terms host inv f)
    (rest : ∀ a, Maintains terms host inv fun k => g k a) : Maintains terms host inv fun k => f k >>= g k := by
  intro w met
  refine (first w met).bind (fun a => (rest a).brings (fun v both => ?_) fun v r u both further ended => ?_)
    fun _ _ both => both
  · exact ⟨both.2, both.1.within, fun tallied => tallied.of_balanced both.1.toBalanced⟩
  · exact ⟨both.1.trans further, ended⟩

theorem settle (maintains : Maintains terms host inv f) : Maintains terms host inv fun k => Action.settle (f k) := by
  refine fun w met => (maintains w met).settle.mono (fun _ same => same) fun r v ended => ?_
  obtain ⟨s, -, both⟩ := ended
  exact both

theorem ite {c : Prop} [Decidable c] {g : Host → Action α} (yes : c → Maintains terms host inv f)
    (no : ¬c → Maintains terms host inv g) : Maintains terms host inv fun k => if c then f k else g k :=
  fun w met => .ite (fun holds => yes holds w met) fun fails => no fails w met

/-- An update, from worlds in which all it does leaves open calls alone. -/
theorem lift {u : Update α} (calmly : ∀ w, Proper w → inv w → Calmly terms w (u.exec w).2)
    (ends : ∀ w, Proper w → inv w → inv (u.exec w).2) : Maintains terms host inv (fun _ => liftM u) := by
  rintro w met faithful w proper rfl
  have path := calmly w proper met
  refine Brings.lift (fun v (same : v = w) => ?_) (fun v _ (same : v = w) => ?_) faithful w proper rfl
  · subst same
    exact Calmly.proceeds path
  · subst same
    exact ⟨proper.poised_of_calmly faithful.remain path, ends v proper met⟩

/-- What has developed from a world goes on to do so. -/
theorem developed {w : World} (maintains : Maintains terms host inv f) :
    Maintains terms host (fun v => Proceeds terms w v ∧ inv v) f := by
  rintro v ⟨path, met⟩ faithful v proper rfl
  obtain ⟨unseen, ends⟩ := maintains v met faithful v proper rfl
  refine ⟨unseen, fun r u done => ?_⟩
  obtain ⟨further, poised, still⟩ := ends r u done
  exact ⟨further, poised, path.trans further, still⟩

end Maintains

section steady

variable {α β : Type} {terms : Terms} {host : Host} {pre : World → Prop} {f : Host → Action α}

theorem Steady.pure (a : α) : Follows terms host pre (fun _ => (pure a : Action α)) fun _ _ => True :=
  .pure a fun _ _ => trivial

/-- Nothing comes after a failure. -/
theorem Steady.never (e : Failure) : Follows terms host pre (fun _ => (throw e : Action α)) fun _ _ => False :=
  .throw e

theorem Steady.throw (e : Failure) : Follows terms host pre (fun _ => (throw e : Action α)) fun _ _ => True :=
  .throw e

theorem Steady.lift {u : Update α} (along : u.Along (Deed Hushed terms)) :
    Follows terms host pre (fun _ => liftM u) fun _ _ => True :=
  .lift (fun w _ _ => along w) fun _ _ _ _ _ => trivial

theorem Steady.get : Follows terms host pre (fun _ => (get : Action World)) fun _ _ => True :=
  Follows.get.forget

theorem Steady.modify {f : World → World} (hushed : ∀ w, Hushed w (f w)) :
    Follows terms host pre (fun _ => (modify f : Action PUnit)) fun _ _ => True :=
  .lift (u := modifyGet fun w => (PUnit.unit, f w)) (fun w _ _ => .single (.aside (hushed w))) fun _ _ _ _ _ => trivial

/-- What a frame is doing may change. -/
theorem Steady.changeFrame (i : Nat) {f : Frame → Frame} (settled : ∀ frame, (f frame).settled = frame.settled) :
    Follows terms host pre (fun _ => liftM (Invocation.changeFrame i f)) fun _ _ => True := by
  intro w _
  refine .lift (fun v _ => .single (.aside (.of_objects rfl rfl rfl rfl rfl rfl le_rfl))) fun v _ same => ?_
  rw [← show v = w from same]
  have frames := (v.stack.settled_modify i (g := id) settled).trans (List.modify_id i _)
  exact ⟨⟨⟨.refl _, frames, rfl, rfl⟩, .refl _⟩, fun _ _ => trivial⟩

theorem Steady.resume (r : Except Failure α) : Follows terms host pre (fun _ => Action.resume r) fun _ _ => True := by
  cases r with
  | ok a => exact Steady.pure a
  | error e => exact .throw e

theorem Steady.settle (steady : Follows terms host pre f fun _ _ => True) :
    Follows terms host pre (fun k => Action.settle (f k)) fun _ _ => True :=
  (Follows.settle steady).forget

theorem Keeps.pure (a : α) : Keeps terms host (fun _ => (pure a : Action α)) :=
  Follows.pure a fun _ met => met

theorem Keeps.get : Keeps terms host (fun _ => (get : Action World)) :=
  Follows.get.mono (fun _ met => met) fun _ _ both => both.2

theorem Keeps.eval (surroundings : Surroundings) (e : Expr) :
    Follows terms host pre (fun k => k.eval surroundings e) fun _ w => terms.good w.objects :=
  (Follows.eval surroundings e).mono (fun _ _ => trivial) fun _ _ met => met

theorem Steady.eval (surroundings : Surroundings) (e : Expr) :
    Follows terms host pre (fun k => k.eval surroundings e) fun _ _ => True :=
  (Follows.eval surroundings e).weaken

theorem Steady.call (h : Handle) (name : String) (args : List Value) (mods : CallModifiers) :
    Follows terms host pre (fun k => k.call h name args mods) fun _ _ => True :=
  (Follows.call h name args mods).weaken

end steady

end DynamicObjects
