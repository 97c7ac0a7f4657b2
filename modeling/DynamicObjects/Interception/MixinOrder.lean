import DynamicObjects.World

/-!
# Mixin orders

The mixins of an object: those registered on it, then those registered along its class order, each with its precedence
order and behind its own class mixins. Of repeated classes the last place counts, with the guard of the first; classes
the object has anyway do not count.
-/
namespace DynamicObjects.Interception

/-- Mixins gathered so far, and the classes whose own class mixins are gathered. -/
structure Gathered where
  mixins : List Mixin := []
  expanded : List Handle := []

/-- Gathers registered mixins. A class is expanded once, which also cuts cycles of class mixins; `fuel` above the
number of slots suffices. -/
def gather : Nat → Gathered → List Mixin → Update Gathered
  | 0, gathered, _ => return gathered
  | fuel + 1, gathered, registered =>
    registered.foldlM (fun gathered reg => do
      if !(← get).isClass reg.target then return gathered
      let order ← Update.precedenceOrder reg.target
      order.foldlM (fun gathered c => do
        if (← get).isRoot c then return gathered
        let own := (← Update.classPart c).registrations.mixins
        let gathered ←
          if own.isEmpty || gathered.expanded.contains c then pure gathered
          else gather fuel { gathered with expanded := c :: gathered.expanded } own
        return { gathered with mixins := gathered.mixins ++ [⟨c, reg.guard⟩] }) gathered) gathered

/-- Keeps the last place of each class, and no class in `own`; the guard is that of the first place in `all`. -/
def flatten (all : List Mixin) (own : List Handle) : List Mixin → List Mixin
  | [] => []
  | m :: later =>
    if later.any (·.target == m.target) || own.contains m.target then flatten all own later
    else ⟨m.target, (all.find? (·.target == m.target)).bind (·.guard)⟩ :: flatten all own later

/-- The mixin order that follows from registered mixins and a class. -/
def computeMixinOrder (registered : List Mixin) (cls : Handle) : Update (List Mixin) := do
  let classOrder ← Update.precedenceOrder cls
  let fuel := (← get).objects.totalSlots + 1
  let gathered ← gather fuel {} registered
  let gathered ← classOrder.foldlM (fun gathered c => do
    gather fuel gathered (← Update.classPart c).registrations.mixins) gathered
  return flatten gathered.mixins classOrder gathered.mixins

/-- The mixin order of an object, computed if it is not kept. -/
def mixinOrder (h : Handle) : Update (List Mixin) := do
  let o ← Update.object h
  match o.mixinOrder with
  | some order => return order
  | none =>
    let order ← computeMixinOrder o.registrations.mixins o.cls
    Update.changeObject h ({ · with mixinOrder := some order })
    return order

/-- The mixins of the instances of a class. -/
def classMixinOrder (cls : Handle) : Update (List Handle) :=
  return (← computeMixinOrder [] cls).map (·.target)

end DynamicObjects.Interception
