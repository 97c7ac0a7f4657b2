import DynamicObjects.Script.Expression

/-!
# Frames

A frame is an open call or an open guard. Visible frames are those a method body can ask about; leaf methods run in
frames that are not visible.
-/
namespace DynamicObjects

inductive FrameKind where
  | plain
  /-- A mixin's method; inactive while it runs a next call. -/
  | mixin (active : Bool)
  /-- A filter; inactive while it runs a next call. -/
  | filter (active : Bool)
  /-- A sub-method that runs on behalf of the caller of its ensemble. -/
  | ensemble
  deriving DecidableEq, Repr

namespace FrameKind

def isInactive : FrameKind → Bool
  | mixin active | filter active => !active
  | plain | ensemble => false

/-- The kind while the frame runs a next call. -/
def deactivated : FrameKind → FrameKind
  | mixin _ => mixin false
  | filter _ => filter false
  | kind => kind

def isMixin : FrameKind → Bool
  | mixin _ => true
  | _ => false

def isFilter : FrameKind → Bool
  | filter _ => true
  | _ => false

/-- All kinds. -/
def kinds : List FrameKind :=
  [plain, mixin true, filter true, mixin false, filter false, ensemble]

def name : FrameKind → String
  | plain => "Plain"
  | mixin true => "ActiveMixin"
  | filter true => "ActiveFilter"
  | mixin false => "InactiveMixin"
  | filter false => "InactiveFilter"
  | ensemble => "Ensemble"

end FrameKind

structure Frame where
  object : Handle
  /-- The class whose method runs, or none for a method of the object itself. -/
  definer : Option Handle := none
  /-- What runs, with aliases followed; guards have none. -/
  method : Option Method := none
  /-- The name under which the method was found. -/
  methodName : String
  /-- The name the caller asked for. -/
  called : String := methodName
  /-- The name shown in failures; for sub-methods it starts with the ensemble. -/
  path : String := methodName
  kind : FrameKind := .plain
  arguments : List Value := []
  visible : Bool := true
  /-- The frame is running a next call. -/
  runsNext : Bool := false
  /-- The method is an ensemble that runs a sub-method. -/
  runsEnsemble : Bool := false
  isGuard : Bool := false
  /-- A next call found nothing; unknown handling is due when the frame closes. -/
  unknownDue : Bool := false
  pushedMixinPosition : Bool := false
  pushedFilterPosition : Bool := false

end DynamicObjects
