import DynamicObjects.Invocation.Search
import DynamicObjects.Proofs.Structure.Orders

/-!
# Lineups

What a call of a name on an object can run: the filters of the object, then its mixins, its own method and its classes.
Each of them is searched behind the place where the call stands, and a place is known by what stands there.
-/
namespace DynamicObjects

open Invocation

/-! ## What comes behind -/

section behind

variable {α κ : Type}

/-- In a list without repetitions, what comes behind an entry is what comes behind its key. -/
theorem drop_indexAfter {entries before after : List α} {a : α} {key : α → κ} [DecidableEq κ]
    (nodup : (entries.map key).Nodup) (split : entries = before ++ a :: after) :
    entries.drop (indexAfter entries (some (key a)) (key · == ·)) = after := by
  have absent : before.findIdx? (key · == key a) = none := by
    rw [List.findIdx?_eq_none_iff]
    intro b member
    rw [split, List.map_append, List.map_cons] at nodup
    have apart := (List.nodup_append.1 nodup).2.2 (key b) (List.mem_map_of_mem member) (key a) List.mem_cons_self
    exact beq_false_of_ne apart
  have here : entries.findIdx? (key · == key a) = some before.length := by
    rw [split, List.findIdx?_append, absent, List.findIdx?_cons]
    simp
  rw [indexAfter, here]
  dsimp only
  rw [split, List.drop_append, List.drop_eq_nil_of_le (Nat.le_succ _), Nat.add_sub_cancel_left]
  rfl

/-- What comes behind a link comes behind the entry that it was made of. -/
theorem exists_of_getElem?_filterMap {β : Type} {f : α → Option β} {l : List α} {k : Nat} {b : β}
    (found : (l.filterMap f)[k]? = some b) : ∃ before a after, l = before ++ a :: after ∧ f a = some b ∧
      (l.filterMap f).drop (k + 1) = after.filterMap f := by
  induction l generalizing k with
  | nil => cases found
  | cons x l ih =>
    cases link : f x with
    | none =>
      rw [List.filterMap_cons_none link] at found ⊢
      obtain ⟨before, a, after, rfl, made, behind⟩ := ih found
      exact ⟨x :: before, a, after, rfl, made, behind⟩
    | some c =>
      rw [List.filterMap_cons_some link] at found ⊢
      cases k with
      | zero =>
        cases found
        exact ⟨[], x, l, rfl, link, rfl⟩
      | succ k =>
        obtain ⟨before, a, after, rfl, made, behind⟩ := ih found
        exact ⟨x :: before, a, after, rfl, made, behind⟩

/-- An element of two lists in a row stands in the first one, in front of the second, or in the second one. -/
theorem getElem?_append_cases {xs ys : List α} {k : Nat} {a : α} (found : (xs ++ ys)[k]? = some a) :
    (xs[k]? = some a ∧ (xs ++ ys).drop (k + 1) = xs.drop (k + 1) ++ ys) ∨
      ∃ j, ys[j]? = some a ∧ (xs ++ ys).drop (k + 1) = ys.drop (j + 1) := by
  by_cases first : k < xs.length
  · rw [List.getElem?_append_left first] at found
    exact .inl ⟨found, List.drop_append_of_le_length first⟩
  · rw [List.getElem?_append_right (Nat.le_of_not_lt first)] at found
    refine .inr ⟨k - xs.length, found, ?_⟩
    have shift : k + 1 = xs.length + (k - xs.length + 1) := by omega
    rw [shift, List.drop_append, List.drop_eq_nil_of_le (Nat.le_add_right _ _), List.nil_append,
      Nat.add_sub_cancel_left]

end behind

/-! ## Chains -/

/-- Where a call of a simple name on an object is searched. -/
structure Lineup where
  receiver : Handle
  name : String
  /-- Whether the receiver is a class. -/
  isClass : Bool
  cls : Handle
  filters : List FilterEntry
  mixins : List Mixin
  /-- The receiver's own method of this name. -/
  own : Option Method
  /-- The precedence order of the class. -/
  classes : List Handle
  /-- The methods of this name that classes give to their instances. -/
  taught : Handle → Option Method

namespace Lineup

variable (line : Lineup) (lets : Predicate → Bool)

/-- A filter takes part if it is not private, not for classes only on what is no class, and if its guard lets the call
pass. -/
def admits (entry : FilterEntry) : Bool :=
  !entry.method.isPrivate && (!entry.method.classOnly || line.isClass) && entry.guard.all lets

def filterLink (entry : FilterEntry) : Option Resolved :=
  if line.admits lets entry then
    some { method := entry.method, definer := entry.definer, kind := .filter true, name := entry.name }
  else none

/-- The method of a class, if it is not private. -/
def teaches (c : Handle) : Option Method :=
  (line.taught c).filter (!·.isPrivate)

/-- A mixin takes part if it teaches the name and if its guard lets the call pass. -/
def mixesIn (m : Mixin) : Option (Handle × Method) :=
  if m.guard.all lets then (line.teaches m.target).map (m.target, ·) else none

def mixinLink (m : Mixin) : Option Resolved :=
  (line.mixesIn lets m).map fun (c, method) => { method, definer := some c, kind := .mixin true, name := line.name }

/-- The receiver's own method, if it is not private. -/
def ownLink : Option Resolved :=
  (line.own.filter (!·.isPrivate)).map fun method => { method, definer := none, kind := .plain, name := line.name }

def classLink (c : Handle) : Option Resolved :=
  (line.teaches c).map fun method => { method, definer := some c, kind := .plain, name := line.name }

/-- What is left of the chain where filters and mixins are done. -/
def plainChain : List Resolved :=
  line.ownLink.toList ++ line.classes.filterMap line.classLink

/-- What is left of the chain where filters are done. -/
def unfilteredChain : List Resolved :=
  line.mixins.filterMap (line.mixinLink lets) ++ line.plainChain

/-- What a call runs, and what the next calls inside of it run, one after the other. -/
def chain : List Resolved :=
  line.filters.filterMap (line.filterLink lets) ++ line.unfilteredChain lets

/-- Where an element of the chain comes from, and what the rest of the chain is behind it. -/
inductive Place : Resolved → List Resolved → Prop where
  | filter {before after : List FilterEntry} {entry : FilterEntry} {e : Resolved}
      (split : line.filters = before ++ entry :: after) (link : line.filterLink lets entry = some e) :
      Place e (after.filterMap (line.filterLink lets) ++ line.unfilteredChain lets)
  | mixin {before after : List Mixin} {m : Mixin} {e : Resolved} (split : line.mixins = before ++ m :: after)
      (link : line.mixinLink lets m = some e) : Place e (after.filterMap (line.mixinLink lets) ++ line.plainChain)
  | own {e : Resolved} (link : line.ownLink = some e) : Place e (line.classes.filterMap line.classLink)
  | cls {before after : List Handle} {c : Handle} {e : Resolved} (split : line.classes = before ++ c :: after)
      (link : line.classLink c = some e) : Place e (after.filterMap line.classLink)

variable {line lets}

theorem place_of_getElem? {k : Nat} {e : Resolved} (found : (line.chain lets)[k]? = some e) :
    line.Place lets e ((line.chain lets).drop (k + 1)) := by
  unfold chain at found ⊢
  rcases getElem?_append_cases found with ⟨here, behind⟩ | ⟨k, found, behind⟩
  · obtain ⟨before, entry, after, split, link, rest⟩ := exists_of_getElem?_filterMap here
    rw [behind, rest]
    exact .filter split link
  rw [behind]
  clear behind
  unfold unfilteredChain at found ⊢
  rcases getElem?_append_cases found with ⟨here, behind⟩ | ⟨k, found, behind⟩
  · obtain ⟨before, m, after, split, link, rest⟩ := exists_of_getElem?_filterMap here
    rw [behind, rest]
    exact .mixin split link
  rw [behind]
  clear behind
  unfold plainChain at found ⊢
  rcases getElem?_append_cases found with ⟨here, behind⟩ | ⟨k, found, behind⟩
  · cases link : line.ownLink with
    | none =>
      rw [link] at here
      cases here
    | some own =>
      rw [link] at here behind
      cases k with
      | zero =>
        cases here
        rw [behind]
        exact .own link
      | succ k => cases here
  · obtain ⟨before, c, after, split, link, rest⟩ := exists_of_getElem?_filterMap found
    rw [behind, rest]
    exact .cls split link

/-! ## Finding links -/

theorem head?_filterLinks (entries : List FilterEntry) : (entries.filterMap (line.filterLink lets)).head? =
    (entries.find? (line.admits lets)).map fun entry =>
      { method := entry.method, definer := entry.definer, kind := .filter true, name := entry.name } := by
  rw [List.head?_filterMap]
  induction entries with
  | nil => rfl
  | cons entry rest ih =>
    cases admitted : line.admits lets entry <;> simp [filterLink, admitted, ih]

theorem head?_mixinLinks (mixins : List Mixin) : (mixins.filterMap (line.mixinLink lets)).head? =
    (mixins.findSome? (line.mixesIn lets)).map fun (c, method) =>
      { method, definer := some c, kind := .mixin true, name := line.name } := by
  rw [List.head?_filterMap, List.map_findSome?]
  rfl

theorem head?_classLinks (classes : List Handle) : (classes.filterMap line.classLink).head? =
    (classes.findSome? fun c => (line.teaches c).map fun method => (method, some c)).map fun (method, definer) =>
      { method, definer, kind := .plain, name := line.name } := by
  rw [List.head?_filterMap, List.map_findSome?]
  congr 1
  funext c
  simp [classLink, Function.comp_def]

end Lineup

end DynamicObjects
