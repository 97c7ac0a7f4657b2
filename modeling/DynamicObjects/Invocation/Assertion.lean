import DynamicObjects.Invocation.Host

/-!
# Assertions

Predicates checked before and after scripted bodies: those of the method, the invariants of the receiver and those
along its class order, as far as the receiver asks for them. No checks are made while checks are made.
-/
namespace DynamicObjects.Invocation

inductive Phase where
  | before
  | after
  deriving DecidableEq, Repr

/-- The predicates of a method for one phase, if the options ask for them. -/
def conditions (method : Method) (options : CheckOptions) : Phase → List Predicate
  | .before => if options.pre then method.pre else []
  | .after => if options.post then method.post else []

/-- The invariants along some classes. -/
def classInvariants (classes : List Handle) : Update (List Predicate) :=
  classes.foldlM (fun found c => return found ++ (← Update.classPart c).registrations.invariants) []

/-- What has to hold for a live receiver. -/
def assertions (o : Object) (method : Method) (phase : Phase) : Update (List Predicate) := do
  let own := if o.checks.objectInvariants then o.registrations.invariants else []
  let inherited ←
    if o.checks.classInvariants then classInvariants (← Update.precedenceOrder o.cls) else pure []
  return conditions method o.checks phase ++ own ++ inherited

/-- Fails at the first predicate that does not hold. -/
def assertAll (host : Host) (h : Handle) (method : Method) : List Predicate → Action Unit
  | [] => return ()
  | p :: rest => do
    if (← host.eval .none p.test).truthy then assertAll host h method rest
    else throw (.assertion (← Update.nameOf h) method.name p.source)

/-- Checks the assertions of a call. A receiver that was destroyed meanwhile has none. -/
def checkAssertions (host : Host) (h : Handle) (method : Method) (phase : Phase) : Action Unit := do
  let w ← get
  if !w.settings.assertionsEnabled || 0 < w.assertionDepth then return ()
  match w.live? h with
  | none => return ()
  | some o =>
    let predicates ← assertions o method phase
    if predicates.isEmpty then return ()
    modify fun w => { w with assertionDepth := w.assertionDepth + 1 }
    let outcome ← Action.settle (assertAll host h method predicates)
    modify fun w => { w with assertionDepth := w.assertionDepth - 1 }
    Action.resume outcome

end DynamicObjects.Invocation
