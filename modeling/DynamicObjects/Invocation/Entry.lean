import DynamicObjects.Invocation.Search

/-!
# Entering a method

From what a search found to a frame that runs it. Leaf methods are not visible, unless a frame is asked for or they
run as filter or mixin.
-/
namespace DynamicObjects.Invocation

/-- The frame of a call of `called` on `h` for which `method` was found, with aliases followed. -/
def frameFor (h : Handle) (called : String) (resolved : Resolved) (method : Method) (args : List Value)
    (mods : CallModifiers) : Frame where
  object := h
  definer := resolved.definer
  method := some method
  methodName := resolved.name
  called := called
  path := called
  kind := resolved.kind
  arguments := args
  visible := !method.isLeaf || mods.forceFrame || resolved.kind != .plain
  pushedMixinPosition := resolved.pushedMixinPosition
  pushedFilterPosition := resolved.pushedFilterPosition

/-- Runs what was found for a call. If it is an alias that leads nowhere, the positions pushed for it are popped. -/
def enter (host : Host) (h : Handle) (called : String) (resolved : Resolved) (args : List Value)
    (mods : CallModifiers) : Action Value := do
  match ← Action.settle (Definition.followAliases resolved.method) with
  | .ok method => host.run (frameFor h called resolved method args mods) method mods
  | .error f =>
    popPositions h resolved.pushedFilterPosition resolved.pushedMixinPosition
    throw f

end DynamicObjects.Invocation
