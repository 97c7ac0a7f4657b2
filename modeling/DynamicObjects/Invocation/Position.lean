import DynamicObjects.Invocation.Host

/-!
# Chain positions and the running method

Where open calls on an object stand in its filter and mixin orders, and what a running method can ask about itself and
its caller. Objects are held by the frames of their methods, so that an object that is destroyed meanwhile keeps its
slot until its last frame closes.
-/
namespace DynamicObjects.Invocation

/-- Changes an object that may be unlinked already; does nothing once its slot is reclaimed. -/
def changeHeld (h : Handle) (f : Object → Object) : Update Unit :=
  Update.changeObjects (·.modify h f)

def pushMixinPosition (h : Handle) (position : Option Handle) : Update Unit :=
  changeHeld h fun o => { o with mixinPositions := position :: o.mixinPositions }

def popMixinPosition (h : Handle) : Update Unit :=
  changeHeld h fun o => { o with mixinPositions := o.mixinPositions.tail }

/-- Replaces the innermost position, if there is one. -/
def setMixinPosition (h : Handle) (position : Option Handle) : Update Unit :=
  changeHeld h fun o => { o with mixinPositions := o.mixinPositions.modifyHead fun _ => position }

/-- The mixin positions of an object, the innermost first. -/
def mixinPositions (w : World) (h : Handle) : List (Option Handle) :=
  ((w.objects.get? h).map (·.mixinPositions)).getD []

def mixinPosition (w : World) (h : Handle) : Option Handle :=
  (mixinPositions w h).head?.join

def pushFilterPosition (h : Handle) (position : FilterPosition) : Update Unit :=
  changeHeld h fun o => { o with filterPositions := position :: o.filterPositions }

def popFilterPosition (h : Handle) : Update Unit :=
  changeHeld h fun o => { o with filterPositions := o.filterPositions.tail }

/-- Moves the innermost position, if there is one. -/
def setFilterPosition (h : Handle) (current : Option FilterKey) : Update Unit :=
  changeHeld h fun o => { o with filterPositions := o.filterPositions.modifyHead ({ · with current }) }

def filterPosition? (w : World) (h : Handle) : Option FilterPosition :=
  (w.objects.get? h).bind (·.filterPositions.head?)

/-- Pops the positions that were pushed when a method was found. -/
def popPositions (h : Handle) (filter mixin : Bool) : Update Unit := do
  if filter then popFilterPosition h
  if mixin then popMixinPosition h

def hold (h : Handle) : Update Unit :=
  changeHeld h fun o => { o with holders := o.holders + 1 }

/-- Lets go of an object, and reclaims its slot if it was destroyed and nothing else holds it. -/
def letGo (h : Handle) : Update Unit := do
  changeHeld h fun o => { o with holders := o.holders - 1 }
  if ((← get).objects.get? h).any fun o => o.holders == 0 && o.deleted then
    Update.changeObjects (·.release h)

def changeFrame (i : Nat) (f : Frame → Frame) : Update Unit :=
  modify fun w => { w with stack := w.stack.modify i f }

/-- The frame of the running method. -/
def activeFrame : Update Frame := do
  match (← get).stack.active? with
  | some frame => return frame
  | none => throw (.noActiveFrame "current")

/-- The receiver of the running method, if there is one. -/
def callerSelf? (w : World) : Option Handle :=
  w.stack.active?.map (·.object)

/-- The method the caller asked for; inside a filter this is the filtered method. -/
def calledMethod : Update String := do
  let frame ← activeFrame
  let w ← get
  let position := if frame.kind.isFilter then filterPosition? w frame.object else none
  return (position.map (·.called)).getD frame.called

end DynamicObjects.Invocation
