import DynamicObjects.Proofs.Templates.Filling

/-!
# Places in a filled template

Placed arguments are put in one after the other, so what is put in later moves what stands behind it. A value put in at
a place of the finished list stands there if the list reached as far when it was put in and nothing came in front of it
afterwards: in a template that declares its places in ascending order.
-/
namespace DynamicObjects

namespace Template

open scoped List

variable {values extra : List Value} {placed : List (Placement × List Value)}

/-! ## Where a value comes to stand -/

/-- Where the first of some values comes to stand when they are put into a list of `n` values. -/
def entryPoint (n : Nat) : Placement → Nat
  | .last => n
  | .index i => min i n

/-- Where a value that stands at `k` is after more has been put in. -/
def landing (k : Nat) : List (Placement × List Value) → Nat
  | [] => k
  | (.last, _) :: later => landing k later
  | (.index i, more) :: later => landing (if i ≤ k then k + more.length else k) later

theorem insertAt_eq (values extra : List Value) (placement : Placement) :
    insertAt values placement extra =
      values.take (entryPoint values.length placement) ++ (extra ++ values.drop (entryPoint values.length placement)) := by
  cases placement with
  | last => simp [entryPoint]
  | index i =>
    rw [insertAt_index, List.append_assoc, entryPoint]
    rcases Nat.le_total i values.length with within | beyond
    · rw [Nat.min_eq_left within]
    · rw [Nat.min_eq_right beyond, List.take_of_length_le beyond, List.drop_of_length_le beyond, List.take_length,
        List.drop_length]

theorem entryPoint_le (n : Nat) (placement : Placement) : entryPoint n placement ≤ n := by
  cases placement with
  | last => exact Nat.le_refl n
  | index i => exact Nat.min_le_right i n

/-- What is put in begins at its entry point. -/
theorem getElem?_insertAt_entryPoint (placement : Placement) {k : Nat} (inside : k < extra.length) :
    (insertAt values placement extra)[entryPoint values.length placement + k]? = extra[k]? := by
  have before : (values.take (entryPoint values.length placement)).length = entryPoint values.length placement :=
    List.length_take_of_le (entryPoint_le _ _)
  rw [insertAt_eq, List.getElem?_append_right (by omega), before, Nat.add_sub_cancel_left,
    List.getElem?_append_left inside]

/-- What was there before moves back if something is put in front of it, and stays otherwise. -/
theorem getElem?_insertAt (values extra : List Value) (placement : Placement) {k : Nat} (there : k < values.length) :
    (insertAt values placement extra)[landing k [(placement, extra)]]? = values[k]? := by
  cases placement with
  | last => exact List.getElem?_append_left there
  | index i =>
    rw [insertAt_index, List.append_assoc, landing, landing]
    split
    case isTrue front =>
      rw [List.getElem?_append_right (by simp; omega), List.getElem?_append_right (by simp; omega),
        List.getElem?_drop]
      congr 1
      simp only [List.length_take]
      omega
    case isFalse behind =>
      rw [List.getElem?_append_left (by simp; omega), List.getElem?_take_of_lt (by omega)]

theorem landing_cons (k : Nat) (first : Placement × List Value) (later : List (Placement × List Value)) :
    landing k (first :: later) = landing (landing k [first]) later := by
  obtain ⟨placement, more⟩ := first
  cases placement <;> rfl

theorem getElem?_insertAll {k : Nat} {v : Value} (there : values[k]? = some v) :
    (insertAll values placed)[landing k placed]? = some v := by
  induction placed generalizing values k with
  | nil => exact there
  | cons first placed ih =>
    obtain ⟨placement, more⟩ := first
    obtain ⟨inside, -⟩ := List.getElem?_eq_some_iff.mp there
    rw [landing_cons, insertAll_cons]
    exact ih ((getElem?_insertAt values more placement inside).trans there)

/-- Each value put in stands where it came in, moved by what is put in front of it afterwards. -/
theorem getElem?_insertAll_of_placed {before after : List (Placement × List Value)} {placement : Placement}
    (is : placed = before ++ (placement, extra) :: after) {k : Nat} (inside : k < extra.length) :
    (insertAll values placed)[landing (entryPoint (insertAll values before).length placement + k) after]? =
      some extra[k] := by
  rw [is, insertAll_append, insertAll_cons]
  refine getElem?_insertAll ?_
  rw [getElem?_insertAt_entryPoint placement inside, List.getElem?_eq_getElem inside]

theorem sublist_insertAt (values extra : List Value) (placement : Placement) :
    values <+ insertAt values placement extra := by
  rw [insertAt_eq]
  calc
    values = values.take (entryPoint values.length placement) ++ values.drop (entryPoint values.length placement) :=
      (List.take_append_drop _ _).symm
    _ <+ _ := (List.sublist_append_right _ _).append_left _

/-- What is put in leaves the others in their order. -/
theorem sublist_insertAll (values : List Value) (placed : List (Placement × List Value)) :
    values <+ insertAll values placed := by
  induction placed generalizing values with
  | nil => exact .refl _
  | cons first placed ih => exact (sublist_insertAt values first.2 first.1).trans (ih _)

/-! ## Places in ascending order -/

/-- The values that are put at the end. -/
def ends : List (Placement × List Value) → List Value
  | [] => []
  | (.last, extra) :: placed => extra ++ ends placed
  | (.index _, _) :: placed => ends placed

/-- The values that are put in at an index. -/
def indexed : List (Placement × List Value) → List Value
  | [] => []
  | (.last, _) :: placed => indexed placed
  | (.index _, extra) :: placed => extra ++ indexed placed

/-- A list of `n` values, to which values are added at the end besides, reaches as far as each place at the time. -/
def Fits : Nat → List (Placement × List Value) → Prop
  | _, [] => True
  | n, (.last, _) :: placed => Fits n placed
  | n, (.index i, extra) :: placed => (extra ≠ [] → i ≤ n) ∧ Fits (n + extra.length) placed

/-- Each index is greater than those declared before it, those aside where nothing is put in. -/
def Ascending (placed : List (Placement × List Value)) : Prop :=
  placed.Pairwise fun a b => ∀ i j, a.1 = .index i → a.2 ≠ [] → b.1 = .index j → b.2 ≠ [] → i < j

theorem length_insertAll_eq (values : List Value) (placed : List (Placement × List Value)) :
    (insertAll values placed).length = values.length + (indexed placed).length + (ends placed).length := by
  rw [length_insertAll, Nat.add_assoc, Nat.add_left_cancel_iff]
  induction placed with
  | nil => rfl
  | cons first placed ih =>
    obtain ⟨_ | i, extra⟩ := first <;> simp only [List.flatMap_cons, List.length_append, indexed, ends, ih] <;> omega

/-- What is put at the end stays there if nothing is put in behind it. -/
theorem suffix_insertAll {front back : List Value} (fits : Fits front.length placed) :
    back ++ ends placed <:+ insertAll (front ++ back) placed := by
  induction placed generalizing front back with
  | nil => exact ⟨front, by simp [ends]⟩
  | cons first placed ih =>
    obtain ⟨placement, extra⟩ := first
    rw [insertAll_cons]
    cases placement with
    | last =>
      rw [insertAt_last, List.append_assoc, ends, ← List.append_assoc]
      exact ih fits
    | index i =>
      obtain ⟨reaches, fits⟩ := fits
      rw [ends]
      have inFront : insertAt (front ++ back) (.index i) extra = insertAt front (.index i) extra ++ back := by
        rcases eq_or_ne extra [] with rfl | some
        · simp
        · rw [insertAt_index, insertAt_index, List.take_append_of_le_length (reaches some),
            List.drop_append_of_le_length (reaches some), List.append_assoc _ _ back]
      rw [inFront]
      refine ih ?_
      rw [(insertAt_perm front extra (.index i)).length_eq, List.length_append]
      exact fits

theorem Fits.reaches {n i : Nat} {before after : List (Placement × List Value)}
    (fits : Fits n (before ++ (.index i, extra) :: after)) (some : extra ≠ []) :
    i ≤ n + (indexed before).length := by
  induction before generalizing n with
  | nil => exact fits.1 some
  | cons first before ih =>
    obtain ⟨placement, more⟩ := first
    cases placement with
    | last => exact ih fits
    | index j =>
      have later := ih fits.2
      rw [indexed, List.length_append]
      omega

/-- A value stays at an index if all that is put in later is put in behind it. -/
theorem landing_of_behind {k : Nat} {after : List (Placement × List Value)}
    (behind : ∀ entry ∈ after, ∀ j, entry.1 = .index j → entry.2 ≠ [] → k < j) : landing k after = k := by
  induction after with
  | nil => rfl
  | cons first after ih =>
    have later := ih fun entry member => behind entry (List.mem_cons_of_mem _ member)
    obtain ⟨placement, more⟩ := first
    cases placement with
    | last => exact later
    | index j =>
      rw [landing]
      rcases eq_or_ne more [] with rfl | some
      · simpa using later
      · have beyond : k < j := behind _ List.mem_cons_self j rfl some
        rw [if_neg (by omega)]
        exact later

/-- In ascending order each value stands at its index. -/
theorem getElem?_insertAll_of_ascending (ascending : Ascending placed) (fits : Fits values.length placed) {i : Nat}
    {v : Value} (member : (.index i, [v]) ∈ placed) : (insertAll values placed)[i]? = some v := by
  obtain ⟨before, after, is⟩ := List.append_of_mem member
  have stands := @getElem?_insertAll_of_placed values [v] placed before after (.index i) is 0 Nat.zero_lt_one
  subst is
  have reached : i ≤ (insertAll values before).length := by
    rw [length_insertAll_eq]
    have := fits.reaches (List.cons_ne_nil v [])
    omega
  have kept : landing i after = i := by
    refine landing_of_behind fun entry member j is some => ?_
    have pairs := (List.pairwise_cons.mp (List.pairwise_append.mp ascending).2.1).1
    exact pairs entry member i j rfl (List.cons_ne_nil v []) is some
  rw [entryPoint, Nat.min_eq_left reached, Nat.add_zero, kept] at stands
  exact stands

theorem Fits.indexed_eq_nil_or {n : Nat} (fits : Fits n placed) :
    indexed placed = [] ∨ ∃ i more, (.index i, more) ∈ placed ∧ more ≠ [] ∧ i ≤ n := by
  induction placed generalizing n with
  | nil => exact .inl rfl
  | cons first placed ih =>
    obtain ⟨_ | i, extra⟩ := first
    · rcases ih fits with empty | ⟨i, more, member, first⟩
      · exact .inl empty
      · exact .inr ⟨i, more, List.mem_cons_of_mem _ member, first⟩
    · rcases eq_or_ne extra [] with rfl | some
      · rcases ih fits.2 with empty | ⟨i, more, member, first⟩
        · exact .inl (by simpa [indexed] using empty)
        · exact .inr ⟨i, more, List.mem_cons_of_mem _ member, first⟩
      · exact .inr ⟨i, extra, List.mem_cons_self, some, fits.1 some⟩

/-- Ascending indices within the list that comes out, up to what is put at its end, are all reached. -/
theorem fits_of_ascending {n : Nat} (ascending : Ascending placed)
    (within : ∀ i more, (.index i, more) ∈ placed → more.length ≤ 1 ∧ i < n + (indexed placed).length) :
    Fits n placed := by
  induction placed generalizing n with
  | nil => trivial
  | cons first placed ih =>
    obtain ⟨placement, extra⟩ := first
    obtain ⟨above, ascending'⟩ := List.pairwise_cons.mp ascending
    cases placement with
    | last => exact ih ascending' fun i more member => within i more (List.mem_cons_of_mem _ member)
    | index i =>
      have fits : Fits (n + extra.length) placed := by
        refine ih ascending' fun j more member => ?_
        obtain ⟨single, inside⟩ := within j more (List.mem_cons_of_mem _ member)
        rw [indexed, List.length_append] at inside
        exact ⟨single, by omega⟩
      refine ⟨fun some => ?_, fits⟩
      obtain ⟨single, inside⟩ := within i extra List.mem_cons_self
      rw [indexed, List.length_append] at inside
      -- the next index bounds this one, or there is none and this is the last value put in
      rcases fits.indexed_eq_nil_or with none | ⟨j, more, member, next, reached⟩
      · rw [none, List.length_nil] at inside
        omega
      · have less : i < j := above _ member i j rfl some rfl next
        omega

/-! ## The places of a template -/

/-- Where a template argument is put, if it is placed. -/
def Ingredient.placement? : Ingredient → Option Placement
  | .placed placement _ => some placement
  | .fixed _ | .positional _ | .flag _ _ => none

theorem map_fst_placed_foldl (taken : List (String × Option Value)) (template : List Ingredient) (e : Expanded) :
    (template.foldl (expandNext taken) e).placed.map (·.1) =
      e.placed.map (·.1) ++ template.filterMap Ingredient.placement? := by
  induction template generalizing e with
  | nil => simp
  | cons ingredient template ih =>
    rw [List.foldl_cons, ih]
    cases ingredient <;> simp [expandNext, Ingredient.placement?, List.filterMap_cons]

/-- The placed arguments of a template are put in in the order they are declared in. -/
theorem map_fst_placed (template : List Ingredient) (args : List Value) :
    (expanded template args).placed.map (·.1) = template.filterMap Ingredient.placement? :=
  map_fst_placed_foldl _ template _

/-- How the values of a template stand in the list that comes out. -/
structure Arranged (unplaced : List Value) (placed : List (Placement × List Value)) (out : List Value) : Prop where
  complete : out ~ unplaced ++ placed.flatMap (·.2)
  /-- The values that are not placed keep their order. -/
  inOrder : unplaced <+ out
  /-- A placed value stands where it came in, moved by what is put in front of it later. -/
  stands : ∀ before placement extra after, placed = before ++ (placement, extra) :: after →
    ∀ k (inside : k < extra.length),
      out[landing (entryPoint (insertAll unplaced before).length placement + k) after]? = some extra[k]
  /-- In ascending order, with each index reached when its turn comes, a value with an index stands there. -/
  atIndex : Ascending placed → Fits unplaced.length placed → ∀ i v, (.index i, [v]) ∈ placed → out[i]? = some v
  /-- What is put at the end is the end. -/
  atEnd : Fits unplaced.length placed → ends placed <:+ out
  /-- Single values with ascending indices in front of the end are reached when their turns come. -/
  reached : Ascending placed →
    (∀ i more, (.index i, more) ∈ placed → more.length ≤ 1 ∧ i < out.length - (ends placed).length) →
    Fits unplaced.length placed

theorem arranged_insertAll (values : List Value) (placed : List (Placement × List Value)) :
    Arranged values placed (insertAll values placed) where
  complete := insertAll_perm values placed
  inOrder := sublist_insertAll values placed
  stands _ _ _ _ is _ inside := getElem?_insertAll_of_placed is inside
  atIndex ascending fits _ _ member := getElem?_insertAll_of_ascending ascending fits member
  atEnd fits := by simpa using @suffix_insertAll placed values [] fits
  reached ascending within := by
    refine fits_of_ascending ascending fun i more member => ?_
    obtain ⟨single, inside⟩ := within i more member
    rw [length_insertAll_eq, Nat.add_sub_cancel] at inside
    exact ⟨single, inside⟩

end Template

namespace Invocation

open Template
open scoped List

/-- Where the values of a template come to stand in the arguments of a forwarded call. -/
theorem runForward_placed {host : Host} {h : Handle} {name : String} {spec : Forward} {ingredients : List Ingredient}
    {args : List Value} {w x : World}
    (known : (spec.template.mapM (ingredient host h name)).exec w = some (.ok ingredients, x)) :
    (runForward host h name spec args).exec w = (deliver host h name spec (fill ingredients args)).exec x ∧
      List.Forall₂ (Known host h name) spec.template ingredients ∧
      (expanded ingredients args).placed.map (·.1) = ingredients.filterMap Ingredient.placement? ∧
      Arranged (unplaced ingredients args) (expanded ingredients args).placed (fill ingredients args) :=
  ⟨exec_runForward known args, forall₂_known known, map_fst_placed _ _, arranged_insertAll _ _⟩

/-- Places of a name, a text and two arguments, the end declared first. -/
def placingForward : Forward where
  target := .command "::log"
  template := [.placed .last (.literal (.text "last")), .placed (.index 0) .methodName, .literal (.text "mid"),
    .placed (.index 2) (.positional none), .placed .last .receiver]
  methodStart := none
  onFailure := none

/-- What the template of `placingForward` is for the method `log` of `#4:0`. -/
def placingIngredients : List Ingredient :=
  [.placed .last (.fixed (.text "last")), .placed (.index 0) (.fixed (.text "log")), .fixed (.text "mid"),
    .placed (.index 2) (.positional none), .placed .last (.fixed (.object ⟨4, 0⟩))]

theorem runForward_placed_ascending :
    ∃ out : List Value,
      (runForward (Script.hostOfDepth 1) ⟨4, 0⟩ "log" placingForward [.text "a", .text "b"]).exec {} =
        (deliver (Script.hostOfDepth 1) ⟨4, 0⟩ "log" placingForward out).exec {} ∧
      out[0]? = some (.text "log") ∧ out[2]? = some (.text "a") ∧ [.text "mid", .text "b"] <+ out ∧
      [.text "last", .object ⟨4, 0⟩] <:+ out := by
  obtain ⟨sent, -, -, arranged⟩ := @runForward_placed (Script.hostOfDepth 1) ⟨4, 0⟩ "log" placingForward
    placingIngredients [.text "a", .text "b"] {} {} rfl
  have placed : (expanded placingIngredients [.text "a", .text "b"]).placed =
      [(.last, [.text "last"]), (.index 0, [.text "log"]), (.index 2, [.text "a"]), (.last, [.object ⟨4, 0⟩])] := rfl
  rw [placed] at arranged
  have six : (fill placingIngredients [.text "a", .text "b"]).length = 6 := rfl
  have fits := arranged.reached (by simp [Ascending]) fun i more member => by
    rw [six]
    simp only [List.mem_cons, Prod.mk.injEq, Placement.index.injEq, reduceCtorEq, false_and, false_or, or_false,
      List.not_mem_nil] at member
    rcases member with ⟨rfl, rfl⟩ | ⟨rfl, rfl⟩ <;> simp [ends]
  exact ⟨_, sent, arranged.atIndex (by simp [Ascending]) fits 0 _ (by simp),
    arranged.atIndex (by simp [Ascending]) fits 2 _ (by simp), arranged.inOrder, arranged.atEnd fits⟩

/-- A value put in at a place in front of another moves that one away from its own. -/
theorem not_atIndex_of_nodup :
    ¬ ∀ (template : List Ingredient) (args : List Value),
      ((expanded template args).placed.map (·.1)).Nodup →
      (∀ i more, (.index i, more) ∈ (expanded template args).placed → i < (fill template args).length) →
      ∀ i v, (.index i, [v]) ∈ (expanded template args).placed → (fill template args)[i]? = some v := by
  intro atIndex
  let crossed : List Ingredient := [.placed (.index 1) (.fixed (.text "x")), .placed (.index 0) (.fixed (.text "y"))]
  have placed : (expanded crossed [.text "a", .text "b"]).placed = [(.index 1, [.text "x"]), (.index 0, [.text "y"])] :=
    rfl
  have filled : fill crossed [.text "a", .text "b"] = [.text "y", .text "a", .text "x", .text "b"] := rfl
  have stands := atIndex crossed [.text "a", .text "b"]
  rw [placed, filled] at stands
  have moved := stands (by decide) (fun i more member => by simp at member ⊢; omega) 1 (.text "x") (by simp)
  simp at moved

end Invocation

end DynamicObjects
