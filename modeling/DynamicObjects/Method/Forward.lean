/-!
# Forwarding specifications

A forwarder sends its call elsewhere, with arguments built from a template.
-/
namespace DynamicObjects

/-- Where a forwarded call goes. -/
inductive ForwardTargetOf (ref : Type) where
  | receiver
  | object (target : ref)
  | command (path : String)
  deriving DecidableEq, Repr, Inhabited

/-- Where a placed argument goes in the finished list. -/
inductive Placement where
  | last
  | index (i : Nat)
  deriving DecidableEq, Repr

inductive ForwardArgumentOf (value code : Type) where
  | literal (v : value)
  /-- The receiver of the forwarder. -/
  | receiver
  /-- The name of the forwarder. -/
  | methodName
  /-- The next argument of the caller that is not used yet. -/
  | positional (default : Option value)
  /-- A flag of the caller and the value behind it. -/
  | flag (name : String) (default : Option value)
  | computed (body : code)
  /-- Put at its place after all others are in place. -/
  | placed (placement : Placement) (argument : ForwardArgumentOf value code)
  deriving Inhabited

structure ForwardOf (value ref code : Type) where
  target : ForwardTargetOf ref
  template : List (ForwardArgumentOf value code)
  /-- Put before the name of the method sent to an object. -/
  methodStart : Option String
  /-- The receiver's method that gets the message of a failure. -/
  onFailure : Option String

end DynamicObjects
