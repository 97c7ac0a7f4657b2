import DynamicObjects.Proofs.Runs.Calm
import DynamicObjects.Script.Evaluation

/-!
# What updates do to a world

Every update of the interpreter is a sequence of deeds, some of them only where the heap is good.
-/
namespace DynamicObjects

namespace Deed

open Update

variable {α β : Type} {terms : Terms}

/-! ## Changes beside the links -/

theorem along_modify {f : World → World} (hushed : ∀ w, Hushed w (f w)) :
    Along (Deed Hushed terms) (modify f : Update PUnit) :=
  .of_step fun w => .aside (hushed w)

theorem along_modifyGet {f : World → α × World} (hushed : ∀ w, Hushed w (f w).2) :
    Along (Deed Hushed terms) (modifyGet f : Update α) :=
  .of_step fun w => .aside (hushed w)

theorem along_changeObject (h : Handle) {f : Object → Object} (keeps : ∀ o, (f o).core = o.core)
    (marks : ∀ o, (f o).openCalls = o.openCalls) (ages : ∀ o : Object, o.Ages (f o)) :
    Along (Deed Hushed terms) (Update.changeObject h f) :=
  (Along.object h).bind fun _ => along_modify fun w => .modify w h keeps marks ages

theorem along_addInvariant (reach : Reach) (on : Handle) (f : List Predicate → List Predicate) :
    Along (Deed Hushed terms)
      (Interception.changeRegistrations reach on fun r => { r with invariants := f r.invariants }) := by
  cases reach with
  | object => exact along_changeObject on (fun _ => rfl) (fun _ => rfl) fun _ => .of_fate rfl
  | instances =>
    refine (Along.classPart on).bind fun _ => along_modify fun w =>
      .modify w on (fun o => ?_) (fun _ => rfl) fun _ => .of_fate rfl
    simp [Object.core, Function.comp_def]

/-- A command takes its path over from whatever is registered there. -/
theorem along_defineCommand (path : String) (method : Method) :
    Along (Deed Hushed terms) (Definition.defineCommand path method) := by
  intro w
  by_cases absolute : Definition.isQualified path = true
  · have done : (Definition.defineCommand path method).exec w = (.ok ⟨⟩, { w with
        epoch := w.epoch + 1
        registry := w.registry.insert path ⟨none, false, { method with epoch := w.epoch + 1 }⟩ }) := by
      unfold Definition.defineCommand
      rw [if_pos absolute]
      rfl
    rw [done]
    refine .single (.aside ⟨⟨⟨⟨.refl _, rfl, rfl, rfl, Nat.le_succ _⟩, fun other => ?_, fun h o p here there => ?_⟩,
      fun dated => dated.register rfl rfl rfl rfl⟩, .refl _, rfl, rfl, rfl⟩)
    · change (w.registry.insert path _).get? other = _ ∨ ∃ r, (w.registry.insert path _).get? other = some r ∧ _
      rw [NameTable.get?_insert]
      by_cases same : other = path
      · exact .inr ⟨_, if_pos same, rfl⟩
      · exact .inl (if_neg same)
    · cases here.symm.trans there
      exact .refl o
  · have failed : (Definition.defineCommand path method).exec w = (.error (.structural (.unqualifiedCommand path)), w) := by
      unfold Definition.defineCommand
      rw [if_neg absolute]
      rfl
    rw [failed]

/-- Following an alias changes at most where aliases are remembered to have led. -/
theorem along_followOnce (link : Method) (path : String) : Along (Deed Hushed terms) (Definition.followOnce link path) := by
  intro w
  cases found : w.registry.get? path with
  | none =>
    rw [Definition.exec_followOnce_of_missing link found]
  | some r =>
    obtain ⟨m, targets, done, forgetful, -⟩ := Definition.exec_followOnce link found
    rw [done]
    refine .single (.aside ⟨⟨.of_objects rfl rfl rfl rfl rfl le_rfl, fun dated => ?_⟩, .refl _, rfl, rfl, rfl⟩)
    exact dated.of_knows forgetful le_rfl

theorem along_follow (hops : Nat) (method : Method) : Along (Deed Hushed terms) (Definition.follow hops method) :=
  .follow along_followOnce hops method

theorem along_autoname (start : String) : Along (Deed Hushed terms) (Lifecycle.autoname start) :=
  along_modifyGet fun _ => .of_objects rfl rfl rfl rfl rfl rfl le_rfl rfl rfl rfl

theorem along_setVariable (h : Handle) (name : String) (value : Value) :
    Along (Deed Hushed terms) (Invocation.setVariable h name value) :=
  along_changeObject h (fun _ => rfl) (fun _ => rfl) fun _ => .of_fate rfl

theorem along_readVariable (h : Handle) (name : String) : Along (Deed Hushed terms) (Invocation.readVariable h name) :=
  (Along.object h).bind fun _ => .pure _

theorem along_runSetter (h : Handle) (name : String) (p : Parameter) (args : List Value) :
    Along (Deed Hushed terms) (Invocation.runSetter h name p args) := by
  match args with
  | [] =>
    refine (along_readVariable h p.name).bind fun found => ?_
    cases found with
    | some value => exact .pure _
    | none => exact (Along.nameOf h).bind fun _ => .throw _
  | [value] =>
    refine Along.get.bind fun w => ?_
    cases Parsing.validate w.accepts p value with
    | error fault => exact .throw _
    | ok u => exact (along_setVariable h p.name value).bind fun _ => .pure _
  | _ :: extra :: _ => exact (Along.nameOf h).bind fun _ => .throw _

theorem along_unsetVariable (h : Handle) (name : String) : Along (Deed Hushed terms) (Script.unsetVariable h name) :=
  (Along.object h).bind fun _ =>
    (along_changeObject h (by intro _; rfl) (by intro _; rfl) (by intro _; exact .of_fate rfl)).bind fun _ => .pure _

theorem along_configure (field : Settings.Field) (value : Value) :
    Along (Deed Hushed terms) (Script.configure field value) :=
  along_modify fun _ => .of_objects rfl rfl rfl rfl rfl rfl le_rfl rfl rfl rfl

theorem along_log (value : Value) : Along (Deed Hushed terms) (Script.log value) :=
  along_modify fun _ => .of_objects rfl rfl rfl rfl rfl rfl le_rfl rfl rfl rfl

theorem along_bindKey (key : String) (h : Handle) : Along (Deed Hushed terms) (Script.bindKey key h) :=
  along_modify fun _ => .of_objects rfl rfl rfl rfl rfl rfl le_rfl rfl rfl rfl

theorem along_bindNew (key : Option String) (h : Handle) : Along (Deed Hushed terms) (Script.bindNew key h) := by
  cases key with
  | none => exact .pure _
  | some key => exact (along_bindKey key h).bind fun _ => .pure _

/-! ## Orders and searches -/

theorem of_consults {u : Update α} (along : Along Consults u) : Along (Deed Hushed terms) u :=
  along.mono fun _ _ ⟨c, here⟩ => here ▸ .single (.precedenceOrder c)

theorem along_mixinOrder (h : Handle) : Along (Deed Hushed terms) (Interception.mixinOrder h) :=
  .of_step fun _ => .mixinOrder h

theorem along_filterOrder (h : Handle) : Along (Deed Hushed terms) (Interception.filterOrder h) :=
  .of_step fun _ => .filterOrder h

theorem along_precedenceOrder (c : Handle) : Along (Deed Hushed terms) (Update.precedenceOrder c) :=
  of_consults (Consults.along_precedenceOrder c)

theorem along_searchObject (h : Handle) (name : String) : Along (Deed Hushed terms) (Invocation.searchObject h name) :=
  of_consults (Consults.along_searchObject h name)

theorem along_implements (h : Handle) (name : String) : Along (Deed Hushed terms) (Lifecycle.implements h name) := by
  unfold Lifecycle.implements
  refine (along_mixinOrder h).bind fun mixins => Along.get.bind fun w => .ite (fun _ => .pure _) fun _ => ?_
  exact (along_searchObject h name).bind fun _ => .pure _

theorem along_nextPlain (frame : Frame) (state : Invocation.SearchState) :
    Along (Deed Hushed terms) (Invocation.nextPlain frame state) :=
  of_consults (Consults.along_nextPlain frame state)

theorem along_subMethod (h : Handle) (args : List Value) (mods : CallModifiers) :
    Along (Deed Hushed terms) (Invocation.subMethod h args mods) :=
  .subMethod h args mods

theorem along_isType (h cls : Handle) : Along (Deed Hushed terms) (Inspection.isType h cls) := by
  unfold Inspection.isType
  refine (Along.object h).bind fun o => (along_precedenceOrder o.cls).bind fun _ => .ite (fun _ => .pure _) fun _ => ?_
  exact (along_mixinOrder h).bind fun _ => .pure _

theorem along_instances (cls : Handle) (pattern : Option String) (closure : Bool) :
    Along (Deed Hushed terms) (Inspection.instances cls pattern closure) :=
  (Along.readPattern pattern).bind fun _ => (Along.classPart cls).bind fun _ => Along.get.bind fun _ => .pure _

theorem along_methodNames (h : Handle) (pattern : Option String) :
    Along (Deed Hushed terms) (Inspection.methodNames h pattern) :=
  (Along.readPattern pattern).bind fun _ => (of_consults (Consults.along_visibleNames h)).bind fun _ => .pure _

theorem along_mixinEntries (h : Handle) (pattern : Option String) :
    Along (Deed Hushed terms) (Inspection.mixinEntries h pattern) :=
  (Along.readPattern pattern).bind fun _ => (along_mixinOrder h).bind fun _ => Along.get.bind fun _ => .pure _

theorem along_filterEntries (h : Handle) (pattern : Option String) (guards : Bool) :
    Along (Deed Hushed terms) (Inspection.filterEntries h pattern guards) :=
  (Along.readPattern pattern).bind fun _ => (along_filterOrder h).bind fun _ => Along.get.bind fun _ => .pure _

theorem along_precedence (cls : Handle) (pattern : Option String) (mixins roots : Bool) :
    Along (Deed Hushed terms) (Inspection.precedence cls pattern mixins roots) := by
  unfold Inspection.precedence
  refine (Along.readPattern pattern).bind fun _ => .ite (fun _ => ?_) fun _ => ?_
  · refine (of_consults (Consults.along_classMixinOrder cls)).bind fun _ => ?_
    exact (along_precedenceOrder cls).bind fun _ => Along.get.bind fun _ => .pure _
  · exact (Along.pure _).bind fun _ => (along_precedenceOrder cls).bind fun _ => Along.get.bind fun _ => .pure _

theorem along_namesOf (hs : List Handle) : Along (Deed Hushed terms) (Script.namesOf hs) :=
  Along.get.bind fun _ => .pure _

/-! ## Definitions and registrations -/

theorem along_setSuperclasses (c : Handle) (supers : List Handle) :
    Along (Deed Hushed terms) (Hierarchy.setSuperclasses c supers) :=
  .of_step fun _ => .setSuperclasses c supers

theorem along_defineMethod (reach : Reach) (on : Handle) (method : Method) :
    Along (Deed Hushed terms) (Definition.defineMethod reach on method) :=
  .of_step fun _ => .defineMethod reach on method

theorem along_defineEnsemble (cls : Handle) (name : String) (container : Handle) :
    Along (Deed Hushed terms) (Definition.defineEnsemble cls name container) :=
  (Along.object container).bind fun _ => along_defineMethod _ _ _

theorem along_setMixins (reach : Reach) (on : Handle) (mixins : List Mixin) :
    Along (Deed Hushed terms) (Interception.setMixins reach on mixins) :=
  .of_step fun _ => .setMixins reach on mixins

theorem along_addMixin (reach : Reach) (on : Handle) (mixin : Mixin) :
    Along (Deed Hushed terms) (Interception.addMixin reach on mixin) :=
  (Along.registrations reach on).bind fun _ => along_setMixins reach on _

theorem along_removeMixin (reach : Reach) (on cls : Handle) :
    Along (Deed Hushed terms) (Interception.removeMixin reach on cls) := by
  unfold Interception.removeMixin
  refine (Along.registrations reach on).bind fun r => .ite (fun _ => .pure _) fun _ => ?_
  exact (along_setMixins reach on _).bind fun _ => .pure _

theorem along_setMixinGuard (reach : Reach) (on cls : Handle) (guard : Option Predicate) :
    Along (Deed Hushed terms) (Interception.setMixinGuard reach on cls guard) :=
  .of_step fun _ => .setMixinGuard reach on cls guard

theorem along_setFilterGuard (reach : Reach) (on : Handle) (name : String) (guard : Option Predicate) :
    Along (Deed Hushed terms) (Interception.setFilterGuard reach on name guard) :=
  .of_step fun _ => .setFilterGuard reach on name guard

/-! ## Steps of scripts -/

theorem along_worldStep (step : WorldStep) : Along (Deed Hushed terms) (Script.worldStep step) := by
  cases step with
  | systems | heapUse | callDepth | context => exact Along.get.bind fun _ => .pure _
  | currentSelf | currentClass | currentMethod | currentArguments | currentFrameKind =>
    exact Along.activeFrame.bind fun _ => .pure _
  | calledMethod => exact Along.calledMethod.bind fun _ => .pure _

/-! ## Where the heap is good -/

section permits

variable {w : World} (permits : terms.good w.objects)

include permits

theorem calmly_removeFilter (reach : Reach) (on : Handle) (name : String) :
    Calmly terms w ((Interception.removeFilter reach on name).exec w).2 := by
  unfold Interception.removeFilter
  rcases found : w.registrations? reach on with _ | r
  · obtain ⟨e, failed⟩ := Interception.exec_registrations_of_none found
    rw [exec_bind_of_error failed]
  · rw [exec_bind_of_ok (Interception.exec_registrations_of_some found)]
    by_cases same : (r.filters.filter (·.target ≠ name)).length = r.filters.length
    · simp only [if_pos same]
      exact .refl
    · simp only [if_neg same]
      rw [exec_bind_pure_snd]
      exact .single (.setFilters reach on _ permits)

theorem calmly_addFilter (reach : Reach) (on : Handle) (filter : Filter) :
    Calmly terms w ((Interception.addFilter reach on filter).exec w).2 := by
  unfold Interception.addFilter
  rcases found : w.registrations? reach on with _ | r
  · obtain ⟨e, failed⟩ := Interception.exec_registrations_of_none found
    rw [exec_bind_of_error failed]
  · rw [exec_bind_of_ok (Interception.exec_registrations_of_some found)]
    exact .single (.setFilters reach on _ permits)

theorem calmly_pairStep (h other : Handle) (step : PairStep) :
    Calmly terms w ((Script.pairStep h other step).exec w).2 := by
  cases step with
  | changeClass =>
    unfold Script.pairStep
    rw [exec_bind_pure_snd]
    exact .single (.changeClass h other fun _ => permits)
  | isInstanceOf => exact (Along.get.bind fun _ => .pure _) w
  | isType => exact ((along_isType h other).bind fun _ => .pure _) w
  | removeMixin reach => exact ((along_removeMixin reach h other).bind fun _ => .pure _) w

theorem calmly_nameStep (h : Handle) (name : String) (step : NameStep) :
    Calmly terms w ((Script.nameStep h name step).exec w).2 := by
  cases step with
  | removeMethod reach =>
    unfold Script.nameStep
    rw [exec_bind_pure_snd]
    exact .single (.removeMethod reach h name fun _ => permits)
  | resolve =>
    refine ((of_consults (Consults.along_methodHandle? h name)).bind fun found => ?_) w
    cases found with
    | none => exact .pure _
    | some m => exact .pure _
  | «variable» => exact ((along_readVariable h name).bind fun _ => .pure _) w
  | unsetVariable => exact ((along_unsetVariable h name).bind fun _ => .pure _) w
  | removeFilter reach =>
    unfold Script.nameStep
    rw [exec_bind_pure_snd]
    exact calmly_removeFilter permits reach h name

end permits

end Deed

end DynamicObjects
