import DynamicObjects.Proofs.Runs.Reachability

/-!
# Runs that can be carried out

Where it is decidable that a heap is good, the runs that stay among good heaps can be carried out, and what they come
to is reachable.
-/
namespace DynamicObjects

/-- Vacant slots are looked for among those there are: going through all shapes that a slot can have takes too long. -/
instance {α : Type u} (heap : Heap α) : Decidable heap.HandlesRemain :=
  let _ : Decidable (∀ shape ∈ heap.layout.1, shape.2 = false → shape.1.toNat + 1 < UInt32.size) :=
    List.decidableBAll _ _
  decidable_of_iff (heap.totalSlots + 2 ≤ UInt32.size ∧
      ∀ shape ∈ heap.layout.1, shape.2 = false → shape.1.toNat + 1 < UInt32.size) <| by
    constructor
    · rintro ⟨slots, vacant⟩
      exact ⟨slots, fun i g found => vacant _ (List.mem_of_getElem? found) rfl⟩
    · rintro ⟨slots, generations⟩
      refine ⟨slots, fun (g, taken) member empty => ?_⟩
      obtain ⟨i, found⟩ := List.getElem?_of_mem member
      cases empty
      exact generations i g found

section trials

variable (good : Objects → Prop) [DecidablePred good]

/-- The host of `hostWithin`, carried out. -/
def hostChecking : Nat → Host
  | 0 => Script.hostOfDepth 0
  | depth + 1 => .ofTasks fun task => ExceptT.mk fun w =>
      if good w.objects then ((interpret (hostChecking depth) task).exec w).filter fun result => good result.2.objects
      else none

theorem hostWithin_eq_hostChecking (depth : Nat) : hostWithin good depth = hostChecking good depth := by
  induction depth with
  | zero => rfl
  | succ depth ih =>
    rw [hostWithin, hostChecking, ih]
    congr 1
    funext task w
    refine Option.ext fun result => Action.exec_within_eq_some.trans ?_
    change _ ↔ (if good w.objects then Option.filter _ _ else none) = some result
    by_cases begins : good w.objects <;> simp [begins, Option.filter_eq_some_iff, and_comm]

/-- The world after a step of a session, if it is carried out within this depth. -/
def stepWithin (depth : Nat) (w : World) (step : Expr) : Option World :=
  (((hostChecking good depth).eval .none step).exec w).map (·.2)

/-- The world after the steps of a session, one after the other, in a new world. -/
def sessionWithin (depth : Nat) (steps : List Expr) : Option World :=
  steps.foldlM (stepWithin good depth) {}

variable {good}

theorem exec_of_stepWithin {w v : World} {depth : Nat} {step : Expr} (carried : stepWithin good depth w step = some v) :
    ∃ r, ((hostWithin good depth).eval .none step).exec w = some (r, v) := by
  obtain ⟨⟨r, after⟩, ran, rfl⟩ := Option.map_eq_some_iff.1 carried
  rw [hostWithin_eq_hostChecking]
  exact ⟨r, ran⟩

/-- What holds of an empty world and is kept by every step holds after a session. -/
theorem of_sessionWithin {p : World → Prop} {v : World} {depth : Nat} {steps : List Expr} (start : p {})
    (step : ∀ w v e r, p w → ((hostWithin good depth).eval .none e).exec w = some (r, v) → p v)
    (carried : sessionWithin good depth steps = some v) : p v := by
  suffices all : ∀ w, p w → steps.foldlM (stepWithin good depth) w = some v → p v from all {} start carried
  clear carried
  induction steps with
  | nil =>
    intro w holds ended
    cases ended
    exact holds
  | cons e steps ih =>
    intro w holds ended
    rw [List.foldlM_cons] at ended
    obtain ⟨u, first, rest⟩ := Option.bind_eq_some_iff.1 ended
    obtain ⟨r, done⟩ := exec_of_stepWithin first
    exact ih u (step w u e r holds done) rest

theorem Reachable.stepWithin {w v : World} {depth : Nat} {step : Expr} (reached : Reachable good w)
    (carried : stepWithin good depth w step = some v) : Reachable good v := by
  obtain ⟨r, done⟩ := exec_of_stepWithin carried
  have performed : ((hostWithin good depth).perform (.eval .none step)).exec w = some (r, v) := done
  exact .ended reached performed

theorem Reachable.sessionWithin {v : World} {depth : Nat} {steps : List Expr}
    (carried : sessionWithin good depth steps = some v) : Reachable good v := by
  refine of_sessionWithin (.start {}) (fun w u e r reached done => ?_) carried
  have performed : ((hostWithin good depth).perform (.eval .none e)).exec w = some (r, u) := done
  exact .ended reached performed

end trials

/-! ## Steps to try -/

namespace Trial

def text (s : String) : Expr :=
  .literal (.text s)

def createClass (name : String) : Expr :=
  .createClass (text name) (.name "Class") [] none

def createSubclass (name : String) (supers : List String) : Expr :=
  .createClass (text name) (.name "Class") (supers.map .name) none

def createObject (name cls : String) : Expr :=
  .createObject (some (text name)) (.name cls) (.list []) none

/-- A public scripted method that takes any arguments. -/
def method (name : String) (body : Expr) : MethodSpec where
  name := name
  implementation := .scripted [.ofKind "args" .rest] body
  visibility := .everyone
  classOnly := false
  returns := none
  pre := []
  post := []
  epoch := 0

def define (reach : Reach) (on : String) (method : MethodSpec) : Expr :=
  .change (.defineMethod reach (.name on) method)

def addMixin (reach : Reach) (on mixin : String) : Expr :=
  .change (.addMixin reach (.name on) ⟨.name mixin, none⟩)

def addFilter (reach : Reach) (on filter : String) : Expr :=
  .change (.addFilter reach (.name on) ⟨text filter, none⟩)

def removeFilter (reach : Reach) (on filter : String) : Expr :=
  .ofName (.removeFilter reach) (.name on) (text filter)

def mixinOrder (of : String) : Expr :=
  .listing .mixinOrder (.name of) none

def filterOrder (of : String) : Expr :=
  .ofObject .filterOrder (.name of)

end Trial

end DynamicObjects
