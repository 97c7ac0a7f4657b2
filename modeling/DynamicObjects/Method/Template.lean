import DynamicObjects.Script.Expression

/-!
# Filling forward templates

A template takes flags out of the caller's arguments first, then positional arguments in order; what it does not take
follows behind. Placed arguments are put in last, one after the other.

A template is filled once its computed arguments are known, so filling runs no code.
-/
namespace DynamicObjects

/-- An argument of a template whose own values are known. -/
inductive Ingredient where
  | fixed (v : Value)
  | positional (default : Option Value)
  | flag (name : String) (default : Option Value)
  | placed (placement : Placement) (ingredient : Ingredient)
  deriving Inhabited

namespace Template

/-- An argument of the caller, and whether the template has taken it. -/
structure Offered where
  value : Value
  taken : Bool := false

/-- Takes a flag and the argument behind it. No value if the flag is absent or nothing is left behind it. -/
def takeFlag (flag : String) : List Offered → Option Value × List Offered
  | [] => (none, [])
  | a :: rest =>
    if !a.taken && a.value.asText? == some flag then
      match rest with
      | b :: rest =>
        if b.taken then (none, { a with taken := true } :: b :: rest)
        else (some b.value, { a with taken := true } :: { b with taken := true } :: rest)
      | [] => (none, [{ a with taken := true }])
    else
      let (value, rest) := takeFlag flag rest
      (value, a :: rest)

/-- Takes the first argument that is left. -/
def takeNext : List Offered → Option Value × List Offered
  | [] => (none, [])
  | a :: rest =>
    if a.taken then
      let (value, rest) := takeNext rest
      (value, a :: rest)
    else (some a.value, { a with taken := true } :: rest)

def remaining (offered : List Offered) : List Value :=
  (offered.filter (!·.taken)).map (·.value)

def Ingredient.flags : Ingredient → List String
  | .flag name _ => [name]
  | .placed _ ingredient => Ingredient.flags ingredient
  | .fixed _ | .positional _ => []

/-- Takes all flags of a template. Of a flag that comes twice the later value counts, even if there is none. -/
def takeFlags (flags : List String) (offered : List Offered) : List (String × Option Value) × List Offered :=
  flags.foldl (fun (taken, offered) flag =>
    let (value, offered) := takeFlag flag offered
    ((flag, value) :: taken, offered)) ([], offered)

/-- The value a flag was taken with. -/
def flagValue (taken : List (String × Option Value)) (flag : String) : Option Value :=
  (taken.find? (·.1 == flag)).bind (·.2)

/-- The values of one ingredient, and what the caller's arguments are afterwards. -/
def expand (taken : List (String × Option Value)) : Ingredient → List Offered → List Value × List Offered
  | .fixed v, offered => ([v], offered)
  | .positional default, offered =>
    let (value, offered) := takeNext offered
    ((value.or default).toList, offered)
  | .flag name default, offered =>
    match (flagValue taken name).or default with
    | some v => ([.text name, v], offered)
    | none => ([], offered)
  | .placed _ ingredient, offered => expand taken ingredient offered

/-- What an expanded template consists of. -/
structure Expanded where
  values : List Value := []
  placed : List (Placement × List Value) := []
  offered : List Offered

def expandNext (taken : List (String × Option Value)) (e : Expanded) (ingredient : Ingredient) : Expanded :=
  let (values, offered) := expand taken ingredient e.offered
  match ingredient with
  | .placed placement _ => { e with placed := e.placed ++ [(placement, values)], offered }
  | _ => { e with values := e.values ++ values, offered }

/-- Puts values in at their place, or at the end if the list is too short. -/
def insertAt (values : List Value) (placement : Placement) (extra : List Value) : List Value :=
  match placement with
  | .last => values ++ extra
  | .index i => values.take i ++ extra ++ values.drop i

/-- The arguments of the forwarded call. -/
def fill (template : List Ingredient) (args : List Value) : List Value :=
  let (taken, offered) := takeFlags (template.flatMap Ingredient.flags) (args.map ({ value := · }))
  let e := template.foldl (expandNext taken) { offered }
  e.placed.foldl (fun values (placement, extra) => insertAt values placement extra)
    (e.values ++ remaining e.offered)

end Template

end DynamicObjects
