import DynamicObjects.Invocation.Implementation
import DynamicObjects.Proofs.Runs.Tasks

/-!
# From a forwarder to its filled template

A forwarder finds out what its template arguments are, one after the other; the filled template is all that the rest of
it depends on. Filling itself takes the flags first, expands the arguments in order, and puts in what is placed.
-/
namespace DynamicObjects

namespace Invocation

variable {host : Host} {h : Handle} {name : String}

/-- A forwarder with its template filled. -/
def deliver (host : Host) (h : Handle) (name : String) (spec : Forward) (args : List Value) : Action Value := do
  let outcome ← Action.settle (sendForward host h name spec args)
  match outcome, spec.onFailure with
  | .error (.recursion depth), _ => throw (.recursion depth)
  | .error f, some handler => host.call h handler [.text f.message] {}
  | outcome, _ => Action.resume outcome

/-- What a template argument is known to be once it has been computed. -/
inductive Known (host : Host) (h : Handle) (name : String) : ForwardArgument → Ingredient → Prop where
  | literal (v : Value) : Known host h name (.literal v) (.fixed v)
  | receiver : Known host h name .receiver (.fixed (.object h))
  | methodName : Known host h name .methodName (.fixed (.text name))
  | positional (default : Option Value) : Known host h name (.positional default) (.positional default)
  | flag (flag : String) (default : Option Value) : Known host h name (.flag flag default) (.flag flag default)
  | computed {body : Expr} {v : Value} {w x : World} (done : (host.eval (.receiver h) body).exec w = some (.ok v, x)) :
      Known host h name (.computed body) (.fixed v)
  | placed {argument : ForwardArgument} {ingredient : Ingredient} (placement : Placement)
      (known : Known host h name argument ingredient) :
      Known host h name (.placed placement argument) (.placed placement ingredient)

theorem Known.of_exec {argument : ForwardArgument} {i : Ingredient} {w x : World}
    (done : (ingredient host h name argument).exec w = some (.ok i, x)) : Known host h name argument i := by
  induction argument generalizing i x with
  | literal v =>
    cases done
    exact .literal v
  | receiver =>
    cases done
    exact .receiver
  | methodName =>
    cases done
    exact .methodName
  | positional default =>
    cases done
    exact .positional default
  | flag flag default =>
    cases done
    exact .flag flag default
  | computed body =>
    rw [ingredient, Action.exec_bind] at done
    obtain ⟨⟨r, u⟩, computed, done⟩ := Option.bind_eq_some_iff.mp done
    cases r with
    | error f => cases done
    | ok v =>
      cases done
      exact .computed computed
  | placed placement argument ih =>
    rw [ingredient, Action.exec_bind] at done
    obtain ⟨⟨r, u⟩, inner, done⟩ := Option.bind_eq_some_iff.mp done
    cases r with
    | error f => cases done
    | ok i =>
      cases done
      exact .placed placement (ih inner)

theorem forall₂_known {template : List ForwardArgument} {ingredients : List Ingredient} {w x : World}
    (done : (template.mapM (ingredient host h name)).exec w = some (.ok ingredients, x)) :
    List.Forall₂ (Known host h name) template ingredients := by
  induction template generalizing ingredients w with
  | nil =>
    cases done
    exact .nil
  | cons argument template ih =>
    rw [List.mapM_cons, Action.exec_bind] at done
    obtain ⟨⟨r, u⟩, first, done⟩ := Option.bind_eq_some_iff.mp done
    cases r with
    | error f => cases done
    | ok i =>
      simp only [Action.exec_bind] at done
      obtain ⟨⟨r, y⟩, others, done⟩ := Option.bind_eq_some_iff.mp done
      cases r with
      | error f => cases done
      | ok rest =>
        cases done
        exact .cons (.of_exec first) (ih others)

/-- The filled template is all a forwarder goes on with. -/
theorem exec_runForward {spec : Forward} {ingredients : List Ingredient} {w x : World}
    (known : (spec.template.mapM (ingredient host h name)).exec w = some (.ok ingredients, x)) (args : List Value) :
    (runForward host h name spec args).exec w = (deliver host h name spec (Template.fill ingredients args)).exec x :=
  Action.exec_bind_of_ok known _

end Invocation

namespace Template

open scoped List

/-- What the flags of a template were taken with. -/
def flagsTaken (template : List Ingredient) (args : List Value) : List (String × Option Value) :=
  (takeFlags (template.flatMap Ingredient.flags) (args.map ({ value := · }))).1

/-- The arguments as the flags of a template leave them. -/
def afterFlags (template : List Ingredient) (args : List Value) : List Offered :=
  (takeFlags (template.flatMap Ingredient.flags) (args.map ({ value := · }))).2

/-- A template after all its arguments are expanded. -/
def expanded (template : List Ingredient) (args : List Value) : Expanded :=
  template.foldl (expandNext (flagsTaken template args)) { offered := afterFlags template args }

/-- The arguments before anything is put in at its place. -/
def unplaced (template : List Ingredient) (args : List Value) : List Value :=
  (expanded template args).values ++ remaining (expanded template args).offered

/-- Puts one after the other in at its place. -/
def insertAll (values : List Value) (placed : List (Placement × List Value)) : List Value :=
  placed.foldl (fun values (placement, extra) => insertAt values placement extra) values

theorem fill_eq (template : List Ingredient) (args : List Value) :
    fill template args = insertAll (unplaced template args) (expanded template args).placed := rfl

@[simp] theorem insertAll_nil (values : List Value) : insertAll values [] = values := rfl

@[simp] theorem insertAll_cons (values extra : List Value) (placement : Placement)
    (placed : List (Placement × List Value)) :
    insertAll values ((placement, extra) :: placed) = insertAll (insertAt values placement extra) placed := rfl

theorem insertAll_append (values : List Value) (before after : List (Placement × List Value)) :
    insertAll values (before ++ after) = insertAll (insertAll values before) after :=
  List.foldl_append

@[simp] theorem insertAt_last (values extra : List Value) : insertAt values .last extra = values ++ extra := rfl

@[simp] theorem insertAt_index (values extra : List Value) (i : Nat) :
    insertAt values (.index i) extra = values.take i ++ extra ++ values.drop i := rfl

/-- What is put in is there afterwards, and nothing else. -/
theorem insertAt_perm (values extra : List Value) (placement : Placement) :
    insertAt values placement extra ~ values ++ extra := by
  cases placement with
  | last => exact .refl _
  | index i =>
    rw [insertAt_index, List.append_assoc]
    calc
      values.take i ++ (extra ++ values.drop i) ~ values.take i ++ (values.drop i ++ extra) :=
        List.perm_append_comm.append_left _
      _ = values ++ extra := by rw [← List.append_assoc, List.take_append_drop]

theorem insertAll_perm (values : List Value) (placed : List (Placement × List Value)) :
    insertAll values placed ~ values ++ placed.flatMap (·.2) := by
  induction placed generalizing values with
  | nil => simp
  | cons first placed ih =>
    rw [insertAll_cons, List.flatMap_cons, ← List.append_assoc]
    exact (ih _).trans ((insertAt_perm values first.2 first.1).append_right _)

theorem length_insertAll (values : List Value) (placed : List (Placement × List Value)) :
    (insertAll values placed).length = values.length + (placed.flatMap (·.2)).length := by
  rw [(insertAll_perm values placed).length_eq, List.length_append]

end Template

end DynamicObjects
