import DynamicObjects.Inspection
import DynamicObjects.Interception.Registration
import DynamicObjects.Invocation.Implementation
import DynamicObjects.Proofs.Updates
import Mathlib.Logic.Relation

/-!
# Updates in steps

An update that is put together from others takes the steps that its parts take. Many updates ask for precedence orders
and change nothing else.
-/
namespace DynamicObjects

namespace Update

variable {α β ι : Type} {step : World → World → Prop}

/-- An update that only takes steps of a relation, whatever its outcome. -/
def Along (step : World → World → Prop) (u : Update α) : Prop :=
  ∀ w, Relation.ReflTransGen step w (u.exec w).2

namespace Along

theorem of_reads {u : Update α} (reads : ∀ w, (u.exec w).2 = w) : Along step u := by
  intro w
  rw [reads]

theorem of_step {u : Update α} (takes : ∀ w, step w (u.exec w).2) : Along step u :=
  fun w => .single (takes w)

theorem mono {more : World → World → Prop} {u : Update α} (along : Along step u)
    (includes : ∀ v w, step v w → Relation.ReflTransGen more v w) : Along more u := by
  intro w
  have path := along w
  generalize (u.exec w).2 = v at path
  induction path with
  | refl => exact .refl
  | tail _ last ih => exact ih.trans (includes _ _ last)

theorem pure (a : α) : Along step (pure a : Update α) :=
  of_reads fun _ => rfl

theorem throw (f : Failure) : Along step (throw f : Update α) :=
  of_reads fun _ => rfl

theorem get : Along step (get : Update World) :=
  of_reads fun _ => rfl

theorem bind {u : Update α} {f : α → Update β} (first : Along step u) (rest : ∀ a, Along step (f a)) :
    Along step (u >>= f) := by
  intro w
  have start := first w
  rcases done : u.exec w with ⟨r, v⟩
  rw [done] at start
  cases r with
  | error e => rwa [exec_bind_of_error done]
  | ok a =>
    rw [exec_bind_of_ok done]
    exact start.trans (rest a v)

theorem ite {c : Prop} [Decidable c] {t e : Update α} (yes : c → Along step t) (no : ¬c → Along step e) :
    Along step (if c then t else e) := by
  split
  · next holds => exact yes holds
  · next fails => exact no fails

theorem foldlM {f : β → ι → Update β} (each : ∀ b i, Along step (f b i)) (is : List ι) (b : β) :
    Along step (is.foldlM f b) := by
  induction is generalizing b with
  | nil => exact pure b
  | cons i is ih =>
    rw [List.foldlM_cons]
    exact (each b i).bind ih

theorem forM {f : ι → Update PUnit} (each : ∀ i, Along step (f i)) (is : List ι) : Along step (is.forM f) := by
  induction is with
  | nil => exact pure PUnit.unit
  | cons i is ih => exact (each i).bind fun _ => ih

theorem forIn {f : ι → β → Update (ForInStep β)} (each : ∀ i b, Along step (f i b)) (is : List ι) (b : β) :
    Along step (forIn is b f) := by
  induction is generalizing b with
  | nil => exact pure b
  | cons i is ih =>
    rw [List.forIn_cons]
    refine (each i b).bind fun next => ?_
    cases next with
    | done b => exact pure b
    | yield b => exact ih b

theorem tryCatch {u : Update α} {recover : Failure → Update α} (tries : Along step u)
    (recovers : ∀ e, Along step (recover e)) : Along step (tryCatch u recover) := by
  intro w
  have start := tries w
  rw [exec_tryCatch]
  rcases done : u.exec w with ⟨r, v⟩
  rw [done] at start
  cases r with
  | ok a => exact start
  | error e => exact start.trans (recovers e v)

/-! ## Updates that only read -/

theorem object (h : Handle) : Along step (object h) :=
  of_reads fun w => by rw [exec_object]

theorem classPart (h : Handle) : Along step (classPart h) :=
  of_reads fun w => exec_classPart_snd h w

theorem nameOf (h : Handle) : Along step (nameOf h) :=
  of_reads fun _ => rfl

theorem isMetaclass (h : Handle) : Along step (isMetaclass h) :=
  of_reads fun w => by rw [exec_isMetaclass]

theorem systemOf (h : Handle) : Along step (systemOf h) := by
  unfold Update.systemOf
  refine (object h).bind fun o => get.bind fun w => ?_
  cases w.systems[o.system]? with
  | none => exact throw _
  | some s => exact pure s

theorem registrations (reach : Reach) (on : Handle) : Along step (Interception.registrations reach on) := by
  cases reach with
  | object => exact (object on).bind fun o => pure _
  | instances => exact (classPart on).bind fun c => pure _

theorem activeFrame : Along step Invocation.activeFrame := by
  unfold Invocation.activeFrame
  refine get.bind fun w => ?_
  cases w.stack.active? with
  | none => exact throw _
  | some frame => exact pure frame

theorem calledMethod : Along step Invocation.calledMethod :=
  activeFrame.bind fun _ => get.bind fun _ => pure _

theorem searchClasses (name : String) (classes : List Handle) :
    Along step (Invocation.searchClasses name classes) := by
  induction classes with
  | nil => exact pure none
  | cons c rest ih =>
    unfold Invocation.searchClasses
    refine (classPart c).bind fun part => ?_
    cases (part.methods.get? name).filter (!·.isPrivate) with
    | none => exact ih
    | some method => exact pure _

theorem searchNamespace (h : Handle) (name : String) : Along step (Invocation.searchNamespace h name) := by
  unfold Invocation.searchNamespace
  refine get.bind fun w => ?_
  cases w.stack.active?.bind (·.definer) with
  | none => exact (object h).bind fun _ => pure _
  | some c => exact (classPart c).bind fun _ => pure _

theorem searchSystem (h : Handle) (name : String) : Along step (Invocation.searchSystem h name) :=
  (systemOf h).bind fun _ => (classPart _).bind fun _ => pure _

theorem subMethod (h : Handle) (args : List Value) (mods : CallModifiers) :
    Along step (Invocation.subMethod h args mods) := by
  unfold Invocation.subMethod
  split
  · exact pure _
  · exact (systemOf h).bind fun _ => pure _

theorem classInvariants (classes : List Handle) : Along step (Invocation.classInvariants classes) :=
  foldlM (fun _ c => (classPart c).bind fun _ => pure _) classes []

theorem readPattern (pattern : Option String) : Along step (Inspection.readPattern pattern) := by
  cases pattern with
  | none => exact pure none
  | some pattern =>
    simp only [Inspection.readPattern]
    cases Glob.read pattern with
    | ok glob => exact pure _
    | error e => exact throw _

theorem firstDefiner (name : String) (classes : List Handle) :
    Along step (Interception.firstDefiner name classes) := by
  induction classes with
  | nil => exact pure none
  | cons c rest ih =>
    unfold Interception.firstDefiner
    refine (classPart c).bind fun part => ?_
    exact ite (fun _ => pure _) fun _ => ih

/-! ## Aliases -/

/-- Following a chain of aliases takes the steps of following one. -/
theorem follow (once : ∀ link path, Along step (Definition.followOnce link path)) (hops : Nat) (method : Method) :
    Along step (Definition.follow hops method) := by
  induction hops generalizing method with
  | zero => exact throw _
  | succ hops ih =>
    unfold Definition.follow
    cases method.implementation with
    | aliased path => exact (once method path).bind ih
    | _ => exact pure _

end Along

end Update

/-! ## Asking for precedence orders -/

/-- The first class behind the defining one that has the method. -/
def Invocation.nextClass (cls : Handle) (state : SearchState) : Update (Option Resolved) := do
  return (← searchClassOrder cls state.name state.definer).map fun (method, definer) =>
    { method, definer, kind := .plain, name := state.name }

/-- One precedence order is asked for. -/
def Consults (v w : World) : Prop :=
  ∃ c, w = ((Update.precedenceOrder c).exec v).2

namespace Consults

open Update

variable {α : Type}

theorem along_precedenceOrder (c : Handle) : Along Consults (Update.precedenceOrder c) :=
  .of_step fun _ => ⟨c, rfl⟩

theorem along_searchClassOrder (cls : Handle) (name : String) (after : Option Handle) :
    Along Consults (Invocation.searchClassOrder cls name after) :=
  (along_precedenceOrder cls).bind fun _ => .searchClasses name _

theorem along_searchObject (h : Handle) (name : String) : Along Consults (Invocation.searchObject h name) := by
  unfold Invocation.searchObject
  refine (Along.object h).bind fun o => ?_
  cases Invocation.ownMethod? o name with
  | none => exact along_searchClassOrder o.cls name none
  | some method => exact .pure _

theorem along_assertions (o : Object) (method : Method) (phase : Invocation.Phase) :
    Along Consults (Invocation.assertions o method phase) := by
  unfold Invocation.assertions
  refine Along.ite (fun _ => ?_) fun _ => ?_
  · exact (along_precedenceOrder o.cls).bind fun _ => (Along.classInvariants _).bind fun _ => .pure _
  · exact (Along.pure _).bind fun _ => .pure _

theorem along_visibleNames (h : Handle) : Along Consults (Definition.visibleNames h) := by
  unfold Definition.visibleNames
  refine (Along.object h).bind fun o => (along_precedenceOrder o.cls).bind fun classes => ?_
  refine (Along.foldlM (fun names c => Along.get.bind fun w => ?_) classes _).bind fun _ => .pure _
  exact .ite (fun _ => .pure _) fun _ => (Along.classPart c).bind fun _ => .pure _

theorem along_methodHandle? (h : Handle) (name : String) : Along Consults (Inspection.methodHandle? h name) := by
  unfold Inspection.methodHandle?
  refine Along.get.bind fun w => .ite (fun _ => .pure _) fun _ => (along_searchObject h name).bind fun found => ?_
  match found with
  | none => exact .pure _
  | some (_, some _) => exact .pure _
  | some (_, none) => exact .pure _

theorem along_resolvePlain (h : Handle) (name : String) (mods : CallModifiers) :
    Along Consults (Invocation.resolvePlain h name mods) := by
  have rest : ∀ found, Along Consults (match found with
      | none => pure none
      | some (method, definer) => do
        let exempt := Definition.isQualified name || mods.localOnly || mods.ignorePermissions
        if !exempt && !Invocation.permitted (← get) h method then return none
        return some { method, definer, kind := .plain, name } : Update (Option Invocation.Resolved)) := by
    intro found
    match found with
    | none => exact .pure _
    | some (method, definer) => exact Along.get.bind fun _ => .ite (fun _ => .pure _) fun _ => .pure _
  unfold Invocation.resolvePlain
  refine .ite (fun _ => Along.get.bind fun w => (Along.pure _).bind rest) fun _ => ?_
  refine .ite (fun _ => (Along.searchNamespace h name).bind rest) fun _ => ?_
  exact .ite (fun _ => (Along.searchSystem h name).bind rest) fun _ => (along_searchObject h name).bind rest

theorem along_nextClass (cls : Handle) (state : Invocation.SearchState) :
    Along Consults (Invocation.nextClass cls state) :=
  (along_searchClassOrder cls state.name state.definer).bind fun _ => .pure _

theorem along_nextPlain (frame : Frame) (state : Invocation.SearchState) :
    Along Consults (Invocation.nextPlain frame state) := by
  unfold Invocation.nextPlain
  refine (Along.object frame.object).bind fun o => ?_
  refine .ite (fun _ => ?_) fun _ => along_nextClass o.cls state
  cases (o.methods.get? state.name).filter (!·.isPrivate) with
  | none => exact along_nextClass o.cls state
  | some method => exact .pure _

/-! ## Mixin and filter orders -/

theorem along_gather (fuel : Nat) (gathered : Interception.Gathered) (registered : List Mixin) :
    Along Consults (Interception.gather fuel gathered registered) := by
  induction fuel generalizing gathered registered with
  | zero => exact .pure gathered
  | succ fuel ih =>
    unfold Interception.gather
    refine .foldlM (fun gathered reg => Along.get.bind fun w => .ite (fun _ => .pure _) fun _ => ?_) registered gathered
    refine (along_precedenceOrder reg.target).bind fun order => .foldlM (fun gathered c => ?_) order gathered
    refine Along.get.bind fun w => .ite (fun _ => .pure _) fun _ => (Along.classPart c).bind fun part => ?_
    exact .ite (fun _ => (Along.pure _).bind fun _ => .pure _) fun _ => (ih _ _).bind fun _ => .pure _

theorem along_computeMixinOrder (registered : List Mixin) (cls : Handle) :
    Along Consults (Interception.computeMixinOrder registered cls) := by
  unfold Interception.computeMixinOrder
  refine (along_precedenceOrder cls).bind fun order => Along.get.bind fun w => (along_gather _ _ _).bind fun _ => ?_
  refine (Along.foldlM (fun _ c => ?_) order _).bind fun _ => .pure _
  exact (Along.classPart c).bind fun _ => along_gather _ _ _

theorem along_classMixinOrder (cls : Handle) : Along Consults (Interception.classMixinOrder cls) :=
  (along_computeMixinOrder [] cls).bind fun _ => .pure _

theorem along_classImplementations (cls : Handle) (name : String) :
    Along Consults (Interception.classImplementations cls name) := by
  unfold Interception.classImplementations
  refine (along_precedenceOrder cls).bind fun order => .foldlM (fun found c => ?_) order []
  refine (Along.classPart c).bind fun part => ?_
  cases part.methods.get? name with
  | none => exact .pure _
  | some method => exact .pure _

theorem along_objectImplementations (h : Handle) (name : String) :
    Along Consults (Interception.objectImplementations h name) :=
  (Along.object h).bind fun _ => (along_classImplementations _ name).bind fun _ => .pure _

theorem along_classHead (cls : Handle) (name : String) : Along Consults (Interception.classHead cls name) :=
  (along_precedenceOrder cls).bind fun _ => (Along.firstDefiner name _).bind fun _ => .pure _

theorem along_objectHead (h : Handle) (name : String) : Along Consults (Interception.objectHead h name) :=
  (Along.object h).bind fun o => .ite (fun _ => .pure _) fun _ => along_classHead o.cls name

theorem along_guardAmong (entry : FilterEntry) {head : String → Update (Option (Option Handle))}
    (heads : ∀ name, Along Consults (head name)) (filters : List Filter) :
    Along Consults (Interception.guardAmong entry head filters) := by
  induction filters with
  | nil => exact .pure none
  | cons f rest ih =>
    unfold Interception.guardAmong
    refine .ite (fun _ => (heads f.target).bind fun found => ?_) fun _ => ih
    exact .ite (fun _ => .pure _) fun _ => ih

theorem along_guardAlong (entry : FilterEntry) (classes : List Handle) :
    Along Consults (Interception.guardAlong entry classes) := by
  induction classes with
  | nil => exact .pure none
  | cons c rest ih =>
    unfold Interception.guardAlong
    refine (Along.classPart c).bind fun part => (along_guardAmong entry (along_classHead c) _).bind fun found => ?_
    cases found with
    | none => exact ih
    | some guard => exact .pure _

theorem along_entryGuard (h : Handle) (entry : FilterEntry) (mixins classOrder : List Handle)
    (before : List FilterEntry) : Along Consults (Interception.entryGuard h entry mixins classOrder before) := by
  unfold Interception.entryGuard
  refine (along_guardAlong entry mixins).bind fun first => ?_
  cases first with
  | some guard => exact .pure _
  | none =>
    refine (Along.object h).bind fun o => (along_guardAmong entry (along_objectHead h) _).bind fun second => ?_
    cases second with
    | some guard => exact .pure _
    | none =>
      refine (along_guardAlong entry classOrder).bind fun third => ?_
      cases third with
      | some guard => exact .pure _
      | none => exact .pure _

theorem along_keepLast (h : Handle) (mixins classOrder : List Handle) (before entries : List FilterEntry) :
    Along Consults (Interception.keepLast h mixins classOrder before entries) := by
  induction entries generalizing before with
  | nil => exact .pure before
  | cons entry later ih =>
    unfold Interception.keepLast
    exact .ite (fun _ => ih before) fun _ =>
      (along_entryGuard h entry mixins classOrder before).bind fun _ => ih _

theorem along_registeredAlong (classes : List Handle) : Along Consults (Interception.registeredAlong classes) := by
  unfold Interception.registeredAlong
  refine .foldlM (fun found c => (Along.classPart c).bind fun part => ?_) classes []
  refine .foldlM (fun found f => ?_) part.registrations.filters found
  exact (along_classImplementations c f.target).bind fun _ => .pure _

theorem along_computeFilterOrder (h : Handle) (mixins : List Handle) :
    Along Consults (Interception.computeFilterOrder h mixins) := by
  unfold Interception.computeFilterOrder
  refine (Along.object h).bind fun o => (along_precedenceOrder o.cls).bind fun order => ?_
  refine (along_registeredAlong mixins).bind fun _ => ?_
  refine (Along.foldlM (fun found f => ?_) o.registrations.filters []).bind fun _ => ?_
  · exact (along_objectImplementations h f.target).bind fun _ => .pure _
  · exact (along_registeredAlong order).bind fun _ => along_keepLast h mixins order [] _

end Consults

end DynamicObjects
