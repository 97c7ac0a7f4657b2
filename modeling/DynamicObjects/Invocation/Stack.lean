import DynamicObjects.Invocation.Frame

/-!
# The frame stack

Open frames, the outermost first. A frame is known by its index, which stays the same while it is open.
-/
namespace DynamicObjects

/-- The last index at which `p` holds. -/
def lastIndex? {α : Type u} (p : α → Bool) : List α → Option Nat
  | [] => none
  | a :: rest =>
    match lastIndex? p rest with
    | some i => some (i + 1)
    | none => if p a then some 0 else none

/-- The index behind the entry `last` of a list: the start if there is no last entry, the end if the list no longer
has it. -/
def indexAfter {α κ : Type} (entries : List α) (last : Option κ) (is : α → κ → Bool) : Nat :=
  match last with
  | none => 0
  | some key =>
    match entries.findIdx? (is · key) with
    | some i => i + 1
    | none => entries.length

structure FrameStack where
  frames : List Frame := []
  deriving Inhabited

namespace FrameStack

def depth (stack : FrameStack) : Nat :=
  stack.frames.length

def get? (stack : FrameStack) (i : Nat) : Option Frame :=
  stack.frames[i]?

def push (stack : FrameStack) (frame : Frame) : FrameStack :=
  ⟨stack.frames ++ [frame]⟩

def top? (stack : FrameStack) : Option Frame :=
  stack.frames.getLast?

def pop (stack : FrameStack) : FrameStack :=
  ⟨stack.frames.dropLast⟩

def modify (stack : FrameStack) (i : Nat) (f : Frame → Frame) : FrameStack :=
  ⟨stack.frames.modify i f⟩

/-- The frames below an index. -/
def below (stack : FrameStack) (i : Nat) : List Frame :=
  stack.frames.take i

/-- The innermost visible frame: that of the running method. -/
def activeIndex? (stack : FrameStack) : Option Nat :=
  lastIndex? (·.visible) stack.frames

def active? (stack : FrameStack) : Option Frame :=
  stack.activeIndex?.bind stack.get?

/-- Whether a frame counts as the call that the running method came from. -/
def isInvocation (frame : Frame) : Bool :=
  frame.visible && !frame.isGuard && !frame.runsNext && !frame.runsEnsemble && !frame.kind.isInactive

/-- The innermost invocation below the running method. -/
def callerIndex? (stack : FrameStack) : Option Nat :=
  stack.activeIndex?.bind fun i => lastIndex? isInvocation (stack.below i)

def caller? (stack : FrameStack) : Option Frame :=
  stack.callerIndex?.bind stack.get?

/-- The number of visible frames up to the caller; zero for a call from outside. -/
def callerLevel (stack : FrameStack) : Nat :=
  match stack.callerIndex? with
  | some i => (stack.below (i + 1)).countP (·.visible)
  | none => 0

/-- The innermost ensemble below an index. -/
def ensembleIndex? (stack : FrameStack) (i : Nat) : Option Nat :=
  lastIndex? (·.runsEnsemble) (stack.below i)

/-- Whether the running method was reached by a next call. -/
def reachedByNext (stack : FrameStack) : Bool :=
  match stack.activeIndex? with
  | some i =>
    match lastIndex? (fun f => f.visible && !f.isGuard) (stack.below i) with
    | some j => (stack.get? j).any (·.runsNext)
    | none => false
  | none => false

end FrameStack

end DynamicObjects
