import DynamicObjects.Proofs.Runs.Level
import DynamicObjects.Proofs.Runs.Tasks

/-!
# How actions are put together

Searches are put together of updates and guards. Everything else that the interpreter does, apart from opening frames
and passing calls on, is put together of updates, guards, evaluations and calls, and of next calls where an expression
is one. So what these five keep is kept by all of it.
-/
namespace DynamicObjects

open Update (Along)

/-- An action put together of updates that leave the frames alone; of evaluations and calls if it speaks, of guards if it does
not; and of next calls if it passes calls on. -/
inductive Composed (speaks passes : Prop) : ∀ {α : Type}, (Host → Action α) → Prop where
  | update {α : Type} {u : Update α} (level : u.Along Level) : Composed speaks passes fun _ => (liftM u : Action α)
  | bind {α β : Type} {f : Host → Action α} {g : Host → α → Action β} (first : Composed speaks passes f)
      (rest : ∀ a, Composed speaks passes fun k => g k a) : Composed speaks passes fun k => f k >>= g k
  | settle {α : Type} {f : Host → Action α} (part : Composed speaks passes f) :
      Composed speaks passes fun k => Action.settle (f k)
  | guard (searches : ¬speaks) (h : Handle) (name : String) (guard : Predicate) :
      Composed speaks passes fun k => Invocation.evalGuard k h name guard
  | eval (may : speaks) (surroundings : Surroundings) (e : Expr) : Composed speaks passes fun k => k.eval surroundings e
  | call (may : speaks) (h : Handle) (name : String) (args : List Value) (mods : CallModifiers) :
      Composed speaks passes fun k => k.call h name args mods
  | next (may : passes) (args : Option (List Value)) : Composed speaks passes fun k => Invocation.next k args

namespace Composed

variable {speaks passes : Prop} {α β ι : Type} {f : Host → Action α}

theorem deeds {u : Update α} (along : u.Along (Deed Hushed ⟨fun _ => True, False⟩)) :
    Composed speaks passes fun _ => (liftM u : Action α) :=
  update (Level.of_deeds along)

theorem consults {u : Update α} (along : u.Along Consults) : Composed speaks passes fun _ => (liftM u : Action α) :=
  update (Level.of_consults along)

theorem pure (a : α) : Composed speaks passes fun _ => (pure a : Action α) :=
  update (u := Pure.pure a) (.pure a)

theorem throw (e : Failure) : Composed speaks passes fun _ => (throw e : Action α) :=
  update (u := MonadExcept.throw e) (.throw e)

theorem get : Composed speaks passes fun _ => (get : Action World) :=
  update (u := MonadState.get) .get

theorem change {step : World → World} (level : ∀ w, Level w (step w)) :
    Composed speaks passes fun _ => (modify step : Action PUnit) :=
  update (u := modify step) (Level.along_modify level)

theorem resume (r : Except Failure α) : Composed speaks passes fun _ => Action.resume r := by
  cases r with
  | ok a => exact pure a
  | error e => exact throw e

theorem map (part : Composed speaks passes f) (g : α → β) : Composed speaks passes fun k => g <$> f k := by
  simp only [← bind_pure_comp]
  exact part.bind fun _ => pure _

theorem ite {c : Prop} [Decidable c] {g : Host → Action α} (yes : c → Composed speaks passes f)
    (no : ¬c → Composed speaks passes g) : Composed speaks passes fun k => if c then f k else g k := by
  by_cases holds : c
  · simpa only [if_pos holds] using yes holds
  · simpa only [if_neg holds] using no holds

theorem mapM {g : Host → ι → Action α} (each : ∀ i, Composed speaks passes fun k => g k i) (is : List ι) :
    Composed speaks passes fun k => is.mapM (g k) := by
  induction is with
  | nil =>
    simp only [List.mapM_nil]
    exact pure []
  | cons i is ih =>
    simp only [List.mapM_cons]
    exact (each i).bind fun a => ih.bind fun as => pure _

theorem forM {g : Host → ι → Action PUnit} (each : ∀ i, Composed speaks passes fun k => g k i) (is : List ι) :
    Composed speaks passes fun k => is.forM (g k) := by
  induction is with
  | nil => exact pure PUnit.unit
  | cons i is ih => exact (each i).bind fun _ => ih

/-- On hosts that evaluate and call alike, actions that pass no calls on are the same. -/
theorem congr {k host : Host} (composed : Composed speaks passes f) (never : ¬passes) (eval : k.eval = host.eval)
    (call : k.call = host.call) :
    f k = f host := by
  induction composed with
  | update => rfl
  | @bind _ _ f g _ _ first rest =>
    have same : g k = g host := funext rest
    change f k >>= g k = f host >>= g host
    rw [first, same]
  | settle _ ih => exact congrArg Action.settle ih
  | guard _ h name guard =>
    simp only [Invocation.evalGuard, eval]
  | eval _ surroundings e => exact congrArg (fun evaluate => evaluate surroundings e) eval
  | call _ h name args mods => exact congrArg (fun calls => calls h name args mods) call
  | next may => exact absurd may never

end Composed

namespace Invocation

variable {speaks passes : Prop}

/-! ## Searches -/

theorem composed_passes (h : Handle) (name : String) (guard : Option Predicate) :
    Composed False passes fun k => Invocation.passes k h name guard := by
  cases guard with
  | none => exact .pure true
  | some guard => exact .guard not_false h name guard

theorem composed_searchFilters (h : Handle) (isClass : Bool) (entries : List FilterEntry) :
    Composed False passes fun k => searchFilters k h isClass entries := by
  induction entries with
  | nil => exact .pure none
  | cons entry rest ih =>
    unfold searchFilters
    refine .ite (fun _ => ih) fun _ => ?_
    exact (composed_passes h entry.name entry.guard).bind fun _ => .ite (fun _ => .pure _) fun _ => ih

theorem composed_searchMixins (h : Handle) (name : String) (mixins : List Mixin) :
    Composed False passes fun k => searchMixins k h name mixins := by
  induction mixins with
  | nil => exact .pure none
  | cons m rest ih =>
    unfold searchMixins
    refine Composed.get.bind fun w => ?_
    cases ((w.objects.class? m.target).bind (·.methods.get? name)).filter (!·.isPrivate) with
    | none => exact ih
    | some method => exact (composed_passes h name _).bind fun _ => .ite (fun _ => .pure _) fun _ => ih

theorem composed_firstFilter (h : Handle) : Composed False passes fun k => firstFilter k h := by
  unfold firstFilter
  refine Composed.get.bind fun w => .ite (fun _ => ?_) fun _ => .pure _
  exact (Composed.deeds (Deed.along_filterOrder h)).bind fun _ => Composed.get.bind fun _ => composed_searchFilters h _ _

theorem composed_changeHeld (h : Handle) (f : Object → Object) : Composed speaks passes fun _ => liftM (changeHeld h f) :=
  .update (Level.along_changeObjects _)

theorem composed_resolvePlain (h : Handle) (name : String) (mods : CallModifiers) :
    Composed speaks passes fun _ => liftM (resolvePlain h name mods) :=
  .consults (Consults.along_resolvePlain h name mods)

theorem composed_resolveUnfiltered (h : Handle) (name : String) (mods : CallModifiers) (mixins : List Mixin) :
    Composed False passes fun k => resolveUnfiltered k h name mods mixins := by
  unfold resolveUnfiltered
  refine (composed_searchMixins h name mixins).bind fun found => ?_
  cases found with
  | none => exact composed_resolvePlain h name mods
  | some found =>
    refine Composed.get.bind fun w => .ite (fun _ => .pure _) fun _ => ?_
    exact (composed_changeHeld h _).bind fun _ => .pure _

theorem composed_resolve (h : Handle) (name : String) (mods : CallModifiers) :
    Composed False passes fun k => resolve k h name mods := by
  unfold resolve
  refine .ite (fun _ => composed_resolvePlain h name mods) fun _ => ?_
  refine (composed_firstFilter h).bind fun filter => (Composed.deeds (Deed.along_mixinOrder h)).bind fun mixins => ?_
  cases filter with
  | none => exact composed_resolveUnfiltered h name mods mixins
  | some entry =>
    refine (composed_changeHeld h _).bind fun _ => .ite (fun _ => ?_) fun _ => .pure _
    exact (composed_changeHeld h _).bind fun _ => .pure _

theorem composed_nextFilter (h : Handle) : Composed False passes fun k => nextFilter k h := by
  unfold nextFilter
  refine (Composed.deeds (Deed.along_filterOrder h)).bind fun order => Composed.get.bind fun w => ?_
  refine (composed_searchFilters h _ _).bind fun found => ?_
  cases found with
  | none => exact .pure _
  | some entry => exact (composed_changeHeld h _).bind fun _ => .pure _

theorem composed_nextMixin (h : Handle) (name : String) : Composed False passes fun k => nextMixin k h name := by
  unfold nextMixin
  refine (Composed.deeds (Deed.along_mixinOrder h)).bind fun order => Composed.get.bind fun w => ?_
  refine (composed_searchMixins h name _).bind fun found => ?_
  cases found with
  | none => exact .pure _
  | some found => exact (composed_changeHeld h _).bind fun _ => .pure _

theorem composed_continueUnfiltered (frame : Frame) (state : SearchState) :
    Composed False passes fun k => continueUnfiltered k frame state := by
  unfold continueUnfiltered
  refine Composed.get.bind fun w => .ite (fun _ => ?_) fun _ => .deeds (Deed.along_nextPlain frame state)
  refine (composed_nextMixin frame.object state.name).bind fun found => ?_
  cases found with
  | none => exact .deeds (Deed.along_nextPlain frame _)
  | some resolved => exact .pure _

theorem composed_continuation (frame : Frame) : Composed False passes fun k => continuation k frame := by
  unfold continuation
  refine .ite (fun _ => Composed.get.bind fun w => ?_) fun _ => (composed_continueUnfiltered frame _).bind fun _ => .pure _
  refine (composed_nextFilter frame.object).bind fun found => ?_
  cases found with
  | none => exact (composed_continueUnfiltered frame _).bind fun _ => .pure _
  | some resolved => exact .pure _

/-! ## Implementations -/

theorem composed_assertAll (h : Handle) (method : Method) (predicates : List Predicate) :
    Composed True passes fun k => assertAll k h method predicates := by
  induction predicates with
  | nil => exact .pure _
  | cons p rest ih =>
    unfold assertAll
    refine (Composed.eval trivial .none p.test).bind fun _ => .ite (fun _ => ih) fun _ => ?_
    exact (Composed.update (.nameOf h)).bind fun _ => .throw _

theorem composed_checkAssertions (h : Handle) (method : Method) (phase : Phase) :
    Composed True passes fun k => checkAssertions k h method phase := by
  unfold checkAssertions
  refine Composed.get.bind fun w => .ite (fun _ => .pure _) fun _ => ?_
  cases w.live? h with
  | none => exact .pure _
  | some o =>
    refine (Composed.consults (Consults.along_assertions o method phase)).bind fun predicates => ?_
    refine .ite (fun _ => .pure _) fun _ => (Composed.change (by intro _; exact ⟨rfl, rfl⟩)).bind fun _ => ?_
    refine (composed_assertAll h method predicates).settle.bind fun outcome => ?_
    exact (Composed.change (by intro _; exact ⟨rfl, rfl⟩)).bind fun _ => .resume outcome

theorem composed_runScript (h : Handle) (method : Method) (parameters : List Parameter) (body : Expr)
    (args : List Value) : Composed True passes fun k => runScript k h method parameters body args := by
  unfold runScript
  refine Composed.get.bind fun w => ?_
  cases Parsing.parse w.accepts parameters args with
  | error fault => exact .throw _
  | ok arguments =>
    refine (composed_checkAssertions h method .before).bind fun _ => (Composed.eval trivial _ body).bind fun result => ?_
    exact (composed_checkAssertions h method .after).bind fun _ => .pure _

theorem composed_ingredient (h : Handle) (name : String) (argument : ForwardArgument) :
    Composed True passes fun k => ingredient k h name argument := by
  induction argument with
  | computed body => exact (Composed.eval trivial _ body).bind fun _ => .pure _
  | placed placement argument ih => exact ih.bind fun _ => .pure _
  | _ => exact .pure _

theorem composed_sendForward (h : Handle) (name : String) (spec : Forward) (args : List Value) :
    Composed True passes fun k => sendForward k h name spec args := by
  unfold sendForward
  cases spec.target with
  | command path => exact .call trivial _ _ _ _
  | receiver =>
    simp only
    split
    · exact .call trivial _ _ _ _
    · exact .call trivial _ _ _ _
  | object target =>
    simp only
    split
    · exact .call trivial _ _ _ _
    · exact .call trivial _ _ _ _

theorem composed_runForward (h : Handle) (name : String) (spec : Forward) (args : List Value) :
    Composed True passes fun k => runForward k h name spec args := by
  unfold runForward
  refine (Composed.mapM (composed_ingredient h name) spec.template).bind fun ingredients => ?_
  refine (composed_sendForward h name spec _).settle.bind fun outcome => ?_
  split
  · exact .throw _
  · exact .call trivial _ _ _ _
  · exact .resume _

theorem composed_unknownSubMethod (h container : Handle) (path sub : String) :
    Composed speaks passes fun _ => unknownSubMethod h container path sub := by
  unfold unknownSubMethod
  refine (Composed.consults (Consults.along_visibleNames container)).settle.bind fun outcome => ?_
  cases outcome with
  | ok names => exact (Composed.update (.nameOf h)).bind fun _ => .pure _
  | error f => exact (Composed.update (.nameOf h)).bind fun _ => .pure _

/-- Only ensembles open further frames. -/
theorem composed_implement (i : Nat) (h : Handle) {method : Method} (args : List Value) (mods : CallModifiers)
    (single : ∀ container, method.implementation ≠ .ensemble container) :
    Composed True passes fun k => implement k i h method args mods := by
  unfold implement
  cases implementation : method.implementation with
  | scripted parameters body => exact composed_runScript h method parameters body args
  | native body leaf => exact .eval trivial _ body
  | setter p => exact .deeds (Deed.along_runSetter h method.name p args)
  | forward spec => exact composed_runForward h method.name spec args
  | ensemble container => exact absurd implementation (single container)
  | aliased path => exact .throw _

/-! ## Unknown methods -/

theorem composed_askHandler (h : Handle) (name : String) (args : List Value) :
    Composed True passes fun k => askHandler k h name args := by
  unfold askHandler
  refine Composed.get.bind fun w => ?_
  cases w.unknownHandler with
  | none => exact .pure _
  | some body =>
    refine (Composed.eval trivial _ body).bind fun answer => ?_
    split
    · exact .pure _
    · exact .pure _

theorem composed_answerUnknown (h : Handle) (name : String) (args : List Value) :
    Composed True passes fun k => answerUnknown k h name args := by
  unfold answerUnknown
  refine (composed_askHandler h name args).bind fun answer => ?_
  have fails : Composed True passes fun _ => (do
      throw (.unknown (← Update.nameOf h) name) : Action Value) :=
    (Composed.update (.nameOf h)).bind fun _ => .throw _
  cases answer with
  | some answer => exact .pure _
  | none =>
    refine Composed.get.bind fun w => ?_
    cases (unknownMethod? w h).filter (· ≠ name) with
    | none => exact fails
    | some unknown =>
      refine (Composed.deeds (Deed.along_searchObject h unknown)).bind fun _ => .ite (fun _ => ?_) fun _ => fails
      exact .call trivial _ _ _ _

theorem composed_conclude (frame : Frame) (outcome : Except Failure Value) :
    Composed True passes fun k => conclude k frame outcome := by
  unfold conclude
  refine (Composed.resume outcome).bind fun value => Composed.get.bind fun w => (Composed.resume _).bind fun value => ?_
  exact .ite (fun _ => composed_answerUnknown _ _ _) fun _ => .pure _

end Invocation

namespace Lifecycle

variable {passes : Prop}

/-! ## Creation and destruction -/

theorem composed_callDestroy (h : Handle) : Composed True passes fun k => callDestroy k h := by
  unfold callDestroy
  refine (Composed.update (Level.along_changeObject h _)).bind fun _ => (Composed.update (.systemOf h)).bind fun system => ?_
  cases system.methods.destroy with
  | none => exact .pure _
  | some destroy =>
    refine (Composed.deeds (Deed.along_implements h destroy)).bind fun _ => .ite (fun _ => ?_) fun _ => .pure _
    exact (Composed.call trivial _ _ _ _).settle.bind fun _ => .pure _

theorem composed_destroy (h : Handle) : Composed True passes fun k => destroy k h := by
  have ends : ∀ outcome : Except Failure Unit, Composed True passes fun _ => (do
      unless isGone (← get) h do unlink h
      Action.resume outcome : Action Unit) := by
    refine fun outcome => Composed.get.bind fun w => .ite (fun _ => .resume outcome) fun _ => ?_
    exact (Composed.update (Level.along_unlink h)).bind fun _ => .resume outcome
  have rest : ∀ o : Object, Composed True passes fun k => (do
      if o.duringDelete then return ()
      let outcome ← if o.destroyCalled then Pure.pure (.ok ()) else callDestroy k h
      unless isGone (← get) h do unlink h
      Action.resume outcome : Action Unit) := by
    refine fun o => .ite (fun _ => .pure _) fun _ => .ite (fun _ => ?_) fun _ => (composed_callDestroy h).bind ends
    exact (Composed.pure _).bind ends
  unfold destroy
  refine (Composed.update (.object h)).bind fun o => .ite (fun _ => ?_) fun _ => rest o
  exact (Composed.throw _).bind fun _ => rest o

theorem composed_callInit (h : Handle) (args : List Value) : Composed True passes fun k => callInit k h args := by
  unfold callInit
  refine (Composed.update (.systemOf h)).bind fun system => ?_
  cases system.methods.init with
  | none => exact .pure _
  | some init =>
    refine (Composed.deeds (Deed.along_implements h init)).bind fun _ => ?_
    refine .ite (fun _ => (Composed.call trivial _ _ _ _).settle.bind fun outcome => ?_) fun _ => .pure _
    cases outcome with
    | ok value => exact .pure _
    | error f => exact (composed_destroy h).settle.bind fun _ => .throw f

theorem composed_createClass (name : String) (metaclass : Handle) (supers : List Handle) (args : List Value) :
    Composed True passes fun k => createClass k name metaclass supers args :=
  (Composed.update (Level.along_enrollClass name metaclass supers)).bind fun h =>
    (composed_callInit h args).bind fun _ => .pure _

theorem composed_createObject (cls : Handle) (name : Option String) (args : List Value) :
    Composed True passes fun k => createObject k cls name args := by
  have enrolls : ∀ name, Composed True passes fun k => (do
      if ← Update.isMetaclass cls then createClass k name cls [] args
      else
        let h ← enroll (.ofClass name cls (← Update.object cls).system)
        callInit k h args
        return h : Action Handle) := by
    refine fun name => (Composed.update (.isMetaclass cls)).bind fun _ => .ite (fun _ => composed_createClass ..) fun _ => ?_
    refine (Composed.update (.object cls)).bind fun o => (Composed.update (Level.along_enroll _)).bind fun h => ?_
    exact (composed_callInit h args).bind fun _ => .pure _
  have checked : ∀ {rest : Host → Action Handle}, Composed True passes rest → Composed True passes fun k => (do
      unless (← get).isClass cls do throw (.structural (.notClass (← Update.nameOf cls)))
      rest k : Action Handle) :=
    fun rest => Composed.get.bind fun w => .ite (fun _ => rest) fun _ =>
      (Composed.update (.nameOf cls)).bind fun _ => (Composed.throw _).bind fun _ => rest
  unfold createObject
  cases name with
  | some name => exact checked ((Composed.update (Level.along_claimName name)).bind enrolls)
  | none => exact checked ((Composed.update Level.along_freshName).bind enrolls)

end Lifecycle

end DynamicObjects
