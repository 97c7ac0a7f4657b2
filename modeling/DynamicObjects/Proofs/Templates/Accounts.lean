import Mathlib.Algebra.Order.Group.Multiset
import Mathlib.Tactic.Abel
import DynamicObjects.Proofs.Templates.Filling

/-!
# Accounts of a filled template

Every argument of the caller is taken by a flag, taken as a positional argument, or left for the end. What a flag takes
comes back where the template has the flag, if the flag was taken with a value and no other of its name with another
result: a flag word without a value behind it is taken and does not come back, and of a flag that stands twice in the
template only the second result comes back.
-/
namespace DynamicObjects

namespace Template

open scoped List

/-! ## What flags take -/

/-- The arguments that are taken. -/
def claimed (offered : List Offered) : List Value :=
  (offered.filter (·.taken)).map (·.value)

/-- A flag with its value, if it has one. -/
def handed (flag : String) : Option Value → List Value
  | some v => [.text flag, v]
  | none => []

/-- A flag that is taken although no value is left behind it. -/
def stray (flag : String) (offered : List Offered) : List Value :=
  if (takeFlag flag offered).1.isNone && (remaining offered).any (·.asText? == some flag) then [.text flag] else []

/-- The strays of several flags that are taken one after the other. -/
def strays : List String → List Offered → List Value
  | [], _ => []
  | flag :: flags, offered => stray flag offered ++ strays flags (takeFlag flag offered).2

theorem eq_text_of_asText? {v : Value} {s : String} (is : v.asText? = some s) : v = .text s := by
  cases v <;> cases is
  rfl

@[simp] theorem claimed_cons (a : Offered) (offered : List Offered) :
    claimed (a :: offered) = if a.taken then a.value :: claimed offered else claimed offered := by
  unfold claimed
  cases taken : a.taken <;> simp [taken]

@[simp] theorem remaining_cons (a : Offered) (offered : List Offered) :
    remaining (a :: offered) = if a.taken then remaining offered else a.value :: remaining offered := by
  unfold remaining
  cases taken : a.taken <;> simp [taken]

theorem claimed_append_remaining (offered : List Offered) :
    claimed offered ++ remaining offered ~ offered.map (·.value) := by
  unfold claimed remaining
  rw [← List.map_append]
  exact (List.filter_append_perm (·.taken) offered).map _

theorem claimed_fresh (args : List Value) : claimed (args.map ({ value := · })) = [] := by
  induction args with
  | nil => rfl
  | cons v args ih => simp [ih]

/-- Where a flag stands, and where it does not. -/
theorem takeFlag_cons (flag : String) (a : Offered) (rest : List Offered) :
    (a.taken = false ∧ a.value = .text flag ∧
      ((∃ b others, rest = b :: others ∧ b.taken = false ∧ takeFlag flag (a :: rest) =
          (some b.value, { a with taken := true } :: { b with taken := true } :: others)) ∨
        takeFlag flag (a :: rest) = (none, { a with taken := true } :: rest))) ∨
    ((a.taken = true ∨ a.value.asText? ≠ some flag) ∧
      takeFlag flag (a :: rest) = ((takeFlag flag rest).1, a :: (takeFlag flag rest).2)) := by
  by_cases here : (!a.taken && a.value.asText? == some flag) = true
  · obtain ⟨free, is⟩ : a.taken = false ∧ a.value.asText? = some flag := by simpa using here
    refine .inl ⟨free, eq_text_of_asText? is, ?_⟩
    unfold takeFlag
    rw [if_pos here]
    cases rest with
    | nil => exact .inr rfl
    | cons b others =>
      cases behind : b.taken
      · exact .inl ⟨b, others, rfl, behind, by simp [behind]⟩
      · exact .inr (by simp [behind])
  · refine .inr ⟨?_, by conv => lhs; unfold takeFlag; rw [if_neg here]⟩
    cases free : a.taken
    · exact .inr (by simpa [free] using here)
    · exact .inl rfl

/-- A flag marks arguments and leaves them in their places. -/
theorem map_value_takeFlag (flag : String) (offered : List Offered) :
    (takeFlag flag offered).2.map (·.value) = offered.map (·.value) := by
  induction offered with
  | nil => rfl
  | cons a rest ih =>
    obtain ⟨-, -, ⟨b, others, rfl, -, found⟩ | found⟩ | ⟨-, passed⟩ := takeFlag_cons flag a rest
    · simp [found]
    · simp [found]
    · simp [passed, ih]

/-- What is taken after a flag: what was before, the flag with its value, or the flag alone. -/
theorem claimed_takeFlag (flag : String) (offered : List Offered) :
    claimed (takeFlag flag offered).2 ~
      claimed offered ++ (handed flag (takeFlag flag offered).1 ++ stray flag offered) := by
  induction offered with
  | nil => exact .refl _
  | cons a rest ih =>
    obtain ⟨free, word, ⟨b, others, rfl, behind, found⟩ | found⟩ | ⟨other, passed⟩ := takeFlag_cons flag a rest
    · -- the flag goes out with the value behind it
      simp only [stray, found, handed, claimed_cons, free, behind, word]
      exact @List.perm_append_comm _ [.text flag, b.value] _
    · -- the flag goes out alone
      simp only [stray, found, handed, claimed_cons, remaining_cons, free, word]
      simpa [Value.asText?] using @List.perm_append_comm _ [Value.text flag] (claimed rest)
    · have same : stray flag (a :: rest) = stray flag rest := by
        unfold stray
        rw [passed, remaining_cons]
        rcases other with taken | other
        · simp [taken]
        · cases taken : a.taken <;> simp [other]
      rw [passed, same, claimed_cons, claimed_cons]
      cases taken : a.taken
      · simpa using ih
      · simpa using ih.cons a.value

/-- One flag more is taken. -/
def takeOne (state : List (String × Option Value) × List Offered) (flag : String) :
    List (String × Option Value) × List Offered :=
  ((flag, (takeFlag flag state.2).1) :: state.1, (takeFlag flag state.2).2)

theorem takeFlags_eq (flags : List String) (offered : List Offered) :
    takeFlags flags offered = flags.foldl takeOne ([], offered) := rfl

/-- What flags took with them, each as it was taken. -/
def handedAll (taken : List (String × Option Value)) : List Value :=
  taken.flatMap fun entry => handed entry.1 entry.2

theorem claimed_foldl_takeOne (flags : List String) (taken : List (String × Option Value)) (offered : List Offered) :
    (claimed (flags.foldl takeOne (taken, offered)).2 : Multiset Value) + handedAll taken =
      claimed offered + handedAll (flags.foldl takeOne (taken, offered)).1 + strays flags offered := by
  induction flags generalizing taken offered with
  | nil => simp [strays]
  | cons flag flags ih =>
    rw [List.foldl_cons, takeOne]
    have later := ih ((flag, (takeFlag flag offered).1) :: taken) (takeFlag flag offered).2
    have now : (claimed (takeFlag flag offered).2 : Multiset Value) = claimed offered +
        (handed flag (takeFlag flag offered).1 + stray flag offered) :=
      Multiset.coe_eq_coe.mpr (claimed_takeFlag flag offered)
    have head : (handedAll ((flag, (takeFlag flag offered).1) :: taken) : Multiset Value) =
        handed flag (takeFlag flag offered).1 + handedAll taken := rfl
    rw [head, now] at later
    refine add_left_cancel (a := (handed flag (takeFlag flag offered).1 : Multiset Value)) ?_
    calc
      _ = _ + (_ + (handedAll taken : Multiset Value)) := by rw [add_left_comm]
      _ = _ := later
      _ = _ := by
        simp only [strays, ← Multiset.coe_add]
        abel

theorem map_value_foldl_takeOne (flags : List String) (state : List (String × Option Value) × List Offered) :
    (flags.foldl takeOne state).2.map (·.value) = state.2.map (·.value) := by
  induction flags generalizing state with
  | nil => rfl
  | cons flag flags ih => exact (ih _).trans (map_value_takeFlag flag state.2)

theorem map_fst_foldl_takeOne (flags : List String) (state : List (String × Option Value) × List Offered) :
    (flags.foldl takeOne state).1.map (·.1) = flags.reverse ++ state.1.map (·.1) := by
  induction flags generalizing state with
  | nil => rfl
  | cons flag flags ih => simp [ih, takeOne]

/-- The flag words of the caller that a template takes and has no use for. -/
def lost (template : List Ingredient) (args : List Value) : List Value :=
  strays (template.flatMap Ingredient.flags) (args.map ({ value := · }))

theorem claimed_afterFlags (template : List Ingredient) (args : List Value) :
    (claimed (afterFlags template args) : Multiset Value) =
      handedAll (flagsTaken template args) + lost template args := by
  have all := claimed_foldl_takeOne (template.flatMap Ingredient.flags) [] (args.map ({ value := · }))
  rw [claimed_fresh] at all
  simpa [handedAll, flagsTaken, afterFlags, takeFlags_eq, lost] using all

/-- The flags leave what they do not take. -/
theorem claimed_add_remaining (template : List Ingredient) (args : List Value) :
    (claimed (afterFlags template args) : Multiset Value) + remaining (afterFlags template args) = args := by
  have same : (afterFlags template args).map (·.value) = args := by
    rw [afterFlags, takeFlags_eq, map_value_foldl_takeOne, List.map_map]
    exact List.map_id args
  calc
    _ = (((afterFlags template args).map (·.value) : List Value) : Multiset Value) :=
      Multiset.coe_eq_coe.mpr (claimed_append_remaining _)
    _ = _ := by rw [same]

/-! ## What the template puts in -/

/-- How many arguments of the caller a template argument takes by their position. -/
def Ingredient.appetite : Ingredient → Nat
  | .positional _ => 1
  | .placed _ ingredient => Ingredient.appetite ingredient
  | .fixed _ | .flag _ _ => 0

/-- What a template argument adds of its own while `left` arguments of the caller are left: its value, a default in the
place of an argument that is not there, or a flag with the default of its value. -/
def contribution (taken : List (String × Option Value)) (left : Nat) : Ingredient → List Value
  | .fixed v => [v]
  | .positional default => if left = 0 then default.toList else []
  | .flag flag default => if (flagValue taken flag).isNone then handed flag default else []
  | .placed _ ingredient => contribution taken left ingredient

def contributions (taken : List (String × Option Value)) : Nat → List Ingredient → List Value
  | _, [] => []
  | left, ingredient :: template =>
    contribution taken left ingredient ++ contributions taken (left - Ingredient.appetite ingredient) template

/-- The flags of a template argument as they come back with the values they were taken with. -/
def returns (taken : List (String × Option Value)) (ingredient : Ingredient) : List Value :=
  (Ingredient.flags ingredient).flatMap fun flag => handed flag (flagValue taken flag)

theorem takeNext_fst (offered : List Offered) : (takeNext offered).1 = (remaining offered).head? := by
  induction offered with
  | nil => rfl
  | cons a rest ih => cases taken : a.taken <;> simp [takeNext, taken, ih]

theorem remaining_takeNext (offered : List Offered) : remaining (takeNext offered).2 = (remaining offered).tail := by
  induction offered with
  | nil => rfl
  | cons a rest ih => cases taken : a.taken <;> simp [takeNext, taken, ih]

theorem expand_flag (taken : List (String × Option Value)) (flag : String) (default : Option Value)
    (offered : List Offered) :
    expand taken (.flag flag default) offered = (handed flag ((flagValue taken flag).or default), offered) := by
  rw [expand]
  cases (flagValue taken flag).or default <;> rfl

theorem length_remaining_expand (taken : List (String × Option Value)) (ingredient : Ingredient)
    (offered : List Offered) :
    (remaining (expand taken ingredient offered).2).length =
      (remaining offered).length - Ingredient.appetite ingredient := by
  induction ingredient with
  | fixed v => rfl
  | positional default => simp [expand, remaining_takeNext, Ingredient.appetite]
  | flag flag default =>
    rw [expand_flag]
    rfl
  | placed placement ingredient ih => exact ih

/-- What one argument of a template gives, and what it leaves of the caller's. -/
theorem expand_balanced (taken : List (String × Option Value)) (ingredient : Ingredient) (offered : List Offered) :
    ((expand taken ingredient offered).1 : Multiset Value) + remaining (expand taken ingredient offered).2 =
      remaining offered + contribution taken (remaining offered).length ingredient + returns taken ingredient := by
  induction ingredient with
  | fixed v =>
    simp only [expand, contribution, returns, Ingredient.flags, List.flatMap_nil, Multiset.coe_nil, add_zero]
    exact add_comm _ _
  | positional default =>
    simp only [expand, remaining_takeNext, takeNext_fst, contribution, returns, Ingredient.flags]
    cases remaining offered <;> simp
  | flag flag default =>
    rw [expand_flag, contribution, returns, Ingredient.flags, List.flatMap_singleton]
    cases flagValue taken flag with
    | some v => simp [add_comm]
    | none => simp [handed, add_comm]
  | placed placement ingredient ih => exact ih

/-- All that is on its way into the filled template. -/
def Expanded.total (e : Expanded) : Multiset Value :=
  e.values + e.placed.flatMap (·.2) + remaining e.offered

theorem offered_expandNext (taken : List (String × Option Value)) (e : Expanded) (ingredient : Ingredient) :
    (expandNext taken e ingredient).offered = (expand taken ingredient e.offered).2 := by
  cases ingredient <;> rfl

theorem total_expandNext (taken : List (String × Option Value)) (e : Expanded) (ingredient : Ingredient) :
    (expandNext taken e ingredient).total =
      e.total + contribution taken (remaining e.offered).length ingredient + returns taken ingredient := by
  have gathered : (expandNext taken e ingredient).total = e.values + e.placed.flatMap (·.2) +
      ((expand taken ingredient e.offered).1 + remaining (expand taken ingredient e.offered).2) := by
    cases ingredient with
    | placed placement ingredient =>
      simp only [expandNext, Expanded.total, List.flatMap_append, List.flatMap_singleton, ← Multiset.coe_add, expand]
      abel
    | _ =>
      simp only [expandNext, Expanded.total, ← Multiset.coe_add]
      abel
  rw [gathered, expand_balanced, Expanded.total]
  abel

theorem total_foldl_expandNext (taken : List (String × Option Value)) (template : List Ingredient) (e : Expanded) :
    (template.foldl (expandNext taken) e).total = e.total +
      contributions taken (remaining e.offered).length template + template.flatMap (returns taken) := by
  induction template generalizing e with
  | nil => simp [contributions]
  | cons ingredient template ih =>
    rw [List.foldl_cons, ih, total_expandNext, offered_expandNext, length_remaining_expand, contributions,
      List.flatMap_cons]
    simp only [← Multiset.coe_add]
    abel

/-! ## The balance -/

/-- What a template adds of its own. -/
def contributed (template : List Ingredient) (args : List Value) : List Value :=
  contributions (flagsTaken template args) (remaining (afterFlags template args)).length template

/-- What comes back of what the flags of a template took. -/
def returned (template : List Ingredient) (args : List Value) : List Value :=
  template.flatMap (returns (flagsTaken template args))

/-- Each flag has been taken with one result only. -/
def Consistent (taken : List (String × Option Value)) : Prop :=
  ∀ entry ∈ taken, flagValue taken entry.1 = entry.2

theorem fill_eq_total (template : List Ingredient) (args : List Value) :
    (fill template args : Multiset Value) = (expanded template args).total := by
  rw [fill_eq, Multiset.coe_eq_coe.mpr (insertAll_perm _ _), unplaced, Expanded.total]
  simp only [← Multiset.coe_add]
  abel

/-- What is in a filled template besides what its flags took, and what they took besides what came back. -/
theorem fill_balanced (template : List Ingredient) (args : List Value) :
    (fill template args : Multiset Value) + claimed (afterFlags template args) =
      args + contributed template args + returned template args := by
  have filled : (fill template args : Multiset Value) = remaining (afterFlags template args) +
      contributed template args + returned template args := by
    rw [fill_eq_total, expanded, total_foldl_expandNext]
    simp [Expanded.total, contributed, returned]
  rw [filled, ← claimed_add_remaining template args]
  abel

theorem returned_of_consistent {template : List Ingredient} {args : List Value}
    (consistent : Consistent (flagsTaken template args)) :
    (returned template args : Multiset Value) = handedAll (flagsTaken template args) := by
  let handedBack flag := handed flag (flagValue (flagsTaken template args) flag)
  have named : (flagsTaken template args).map (·.1) = (template.flatMap Ingredient.flags).reverse := by
    rw [flagsTaken, takeFlags_eq, map_fst_foldl_takeOne, List.map_nil, List.append_nil]
  refine Multiset.coe_eq_coe.mpr ?_
  calc
    returned template args = (template.flatMap Ingredient.flags).flatMap handedBack := List.flatMap_assoc.symm
    _ ~ ((flagsTaken template args).map (·.1)).flatMap handedBack := by
      rw [named]
      exact (List.reverse_perm _).symm.flatMap_right _
    _ = handedAll (flagsTaken template args) := by
      rw [List.flatMap_map]
      exact List.flatMap_congr fun entry member => congrArg (handed entry.1) (consistent entry member)

/-- With flags taken with one result only, the flag words that have no value behind them are all that is lost. -/
theorem fill_of_consistent {template : List Ingredient} {args : List Value}
    (consistent : Consistent (flagsTaken template args)) :
    (fill template args : Multiset Value) + lost template args = args + contributed template args := by
  have all := fill_balanced template args
  rw [claimed_afterFlags, returned_of_consistent consistent] at all
  refine add_right_cancel (b := (handedAll (flagsTaken template args) : Multiset Value)) ?_
  rw [← all]
  abel

theorem flagValue_of_mem {taken : List (String × Option Value)} (distinct : (taken.map (·.1)).Nodup)
    {entry : String × Option Value} (member : entry ∈ taken) : flagValue taken entry.1 = entry.2 := by
  induction taken with
  | nil => cases member
  | cons first taken ih =>
    rw [List.map_cons, List.nodup_cons] at distinct
    rcases List.mem_cons.mp member with rfl | later
    · simp [flagValue]
    · have other : first.1 ≠ entry.1 := fun same => distinct.1 (same ▸ List.mem_map_of_mem later)
      simpa [flagValue, other] using ih distinct.2 later

theorem consistent_of_nodup {template : List Ingredient} (distinct : (template.flatMap Ingredient.flags).Nodup)
    (args : List Value) : Consistent (flagsTaken template args) := by
  refine fun entry member => flagValue_of_mem ?_ member
  rw [flagsTaken, takeFlags_eq, map_fst_foldl_takeOne, List.map_nil, List.append_nil]
  exact List.nodup_reverse.mpr distinct

end Template

namespace Invocation

open Template

/-- Arguments come through a forwarder in full, along with what its template adds, as far as the flags of the template
bring back what they take: flags that are taken with one result each do, unless nothing is left behind one of them. -/
theorem runForward_balanced {host : Host} {h : Handle} {name : String} {spec : Forward} {ingredients : List Ingredient}
    {args : List Value} {w x : World}
    (known : (spec.template.mapM (ingredient host h name)).exec w = some (.ok ingredients, x)) :
    ∃ out : List Value, (runForward host h name spec args).exec w = (deliver host h name spec out).exec x ∧
      List.Forall₂ (Known host h name) spec.template ingredients ∧
      (out : Multiset Value) + handedAll (flagsTaken ingredients args) + lost ingredients args =
        args + contributed ingredients args + returned ingredients args ∧
      (Consistent (flagsTaken ingredients args) →
        ((out : Multiset Value) = args + contributed ingredients args ↔ lost ingredients args = [])) := by
  refine ⟨fill ingredients args, exec_runForward known args, forall₂_known known, ?_, fun consistent => ?_⟩
  · rw [add_assoc, ← claimed_afterFlags]
    exact fill_balanced ingredients args
  · rw [← fill_of_consistent consistent]
    exact left_eq_add.trans (Multiset.coe_eq_zero _)

/-- Two flags, one of them with a default, the name of the forwarder, a text it computes and an argument. -/
def levelForward : Forward where
  target := .command "::log"
  template := [.flag "-level" none, .placed .last (.flag "-mode" (some (.text "fast"))), .methodName,
    .computed (.literal (.text "now")), .positional (some (.text "none"))]
  methodStart := none
  onFailure := none

theorem runForward_balanced_level :
    ∃ out : List Value, (runForward (Script.hostOfDepth 1) ⟨4, 0⟩ "log" levelForward
        [.text "x", .text "-level", .word 3]).exec {} =
        (deliver (Script.hostOfDepth 1) ⟨4, 0⟩ "log" levelForward out).exec {} ∧
      (out : Multiset Value) = ↑[Value.text "x", .text "-level", .word 3] +
        ↑[Value.text "-mode", .text "fast", .text "log", .text "now"] := by
  obtain ⟨out, delivered, -, -, complete⟩ := @runForward_balanced (Script.hostOfDepth 1) ⟨4, 0⟩ "log" levelForward
    [.flag "-level" none, .placed .last (.flag "-mode" (some (.text "fast"))), .fixed (.text "log"),
      .fixed (.text "now"), .positional (some (.text "none"))]
    [.text "x", .text "-level", .word 3] {} {} rfl
  exact ⟨out, delivered, (complete (consistent_of_nodup (by decide) _)).mpr rfl⟩

/-- A flag that stands twice in the template takes two arguments that do not come back, a flag without a value one. -/
theorem not_fill_eq_args_add_contributed :
    ¬ ((fill [.flag "-x" none, .flag "-x" none] [.text "-x", .word 1] : Multiset Value) =
        ↑[Value.text "-x", .word 1] + contributed [.flag "-x" none, .flag "-x" none] [.text "-x", .word 1]) ∧
    ¬ ((fill [.flag "-x" none] [.text "a", .text "-x"] : Multiset Value) =
        ↑[Value.text "a", .text "-x"] + contributed [.flag "-x" none] [.text "a", .text "-x"]) := by
  constructor <;> intro balanced
  · exact absurd (congrArg Multiset.card balanced) (by decide)
  · exact absurd (congrArg Multiset.card balanced) (by decide)

end Invocation

end DynamicObjects
