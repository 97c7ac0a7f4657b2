import DynamicObjects.Proofs.Interception.Lineup

/-!
# Stations

Every frame of a call runs at one station of the lineup: at an entry of the filter order, at a mixin, at the receiver's own
method, or at a class. What moves on from station to station, each behind the one before, comes to none of them twice.
-/
namespace DynamicObjects

open Invocation

/-! ## One behind the other -/

section behind

variable {α κ : Type} {l : List α} {a b c : α} {rest : List α}

/-- In a list, `b` comes behind `a`. -/
def Behind (l : List α) (a b : α) : Prop :=
  [a, b].Sublist l

namespace Behind

theorem mem_left (behind : Behind l a b) : a ∈ l :=
  behind.subset List.mem_cons_self

theorem mem_right (behind : Behind l a b) : b ∈ l :=
  behind.subset (List.mem_cons_of_mem _ List.mem_cons_self)

theorem ne (behind : Behind l a b) (nodup : l.Nodup) : a ≠ b := by
  have apart := nodup.sublist behind
  simpa using apart

theorem map {β : Type} (f : α → β) (behind : Behind l a b) : Behind (l.map f) (f a) (f b) :=
  List.Sublist.map f behind

theorem of_append {first second : List α} (left : a ∈ first) (right : b ∈ second) : Behind (first ++ second) a b :=
  (List.singleton_sublist.2 left).append (List.singleton_sublist.2 right)

theorem append_left {second : List α} (behind : Behind second a b) (first : List α) : Behind (first ++ second) a b :=
  List.Sublist.trans behind (List.sublist_append_right first second)

theorem append_right {first : List α} (behind : Behind first a b) (second : List α) : Behind (first ++ second) a b :=
  List.Sublist.trans behind (List.sublist_append_left first second)

/-- In front of what begins a sublist, it can be continued. -/
theorem cons_sublist (nodup : l.Nodup) (behind : Behind l a b) (sublist : (b :: rest).Sublist l) :
    (a :: b :: rest).Sublist l := by
  unfold Behind at behind
  induction l with
  | nil => cases behind
  | cons x l ih =>
    have apart := List.nodup_cons.1 nodup
    have later : b ∈ l → (b :: rest).Sublist l := by
      intro member
      cases sublist with
      | cons _ later => exact later
      | cons_cons _ _ => exact absurd member apart.1
    cases behind with
    | cons _ behind => exact (ih apart.2 behind (later (behind.subset (by simp)))).cons x
    | cons_cons _ behind => exact (later (List.singleton_sublist.1 behind)).cons_cons a

theorem trans (nodup : l.Nodup) (first : Behind l a b) (second : Behind l b c) : Behind l a c := by
  have three := first.cons_sublist nodup second
  exact List.Sublist.trans ((List.sublist_cons_self b [c]).cons_cons a) three

end Behind

/-- What is found behind the place of a key comes behind an entry of that key. -/
theorem exists_behind_of_mem_drop {key : κ} {is : α → κ → Bool} (member : b ∈ l.drop (indexAfter l (some key) is)) :
    ∃ a, is a key = true ∧ Behind l a b := by
  unfold indexAfter at member
  dsimp only at member
  split at member
  · next i found =>
    obtain ⟨within, holds, -⟩ := List.findIdx?_eq_some_iff_getElem.1 found
    refine ⟨l[i], holds, ?_⟩
    have from_here : (l[i] :: l.drop (i + 1)).Sublist l := by
      rw [← List.drop_eq_getElem_cons within]
      exact List.drop_sublist i l
    exact List.Sublist.trans ((List.singleton_sublist.2 member).cons_cons _) from_here
  · rw [List.drop_length] at member
    cases member

/-- What moves on from behind to behind is a part of the whole. -/
theorem sublist_of_isChain (nodup : l.Nodup) (moves : (a :: b :: rest).IsChain (Behind l)) :
    (a :: b :: rest).Sublist l := by
  induction rest generalizing a b with
  | nil => exact (List.isChain_cons_cons.1 moves).1
  | cons c rest ih =>
    obtain ⟨first, later⟩ := List.isChain_cons_cons.1 moves
    exact first.cons_sublist nodup (ih later)

/-- What moves on from behind to behind comes to nothing twice. -/
theorem nodup_of_isChain {moves : List α} (nodup : l.Nodup) (chain : moves.IsChain (Behind l)) : moves.Nodup := by
  match moves with
  | [] | [_] => simp
  | a :: b :: rest => exact nodup.sublist (sublist_of_isChain nodup chain)

theorem length_le_of_isChain {moves : List α} (nodup : l.Nodup) (some : l ≠ []) (chain : moves.IsChain (Behind l)) :
    moves.length ≤ l.length := by
  match moves with
  | [] => exact Nat.zero_le _
  | [_] => exact List.length_pos_iff.2 some
  | a :: b :: rest => exact (sublist_of_isChain nodup chain).length_le

end behind

/-- In a list, `b` is at `a` or behind it. -/
def AtOrBehind {α : Type} (l : List α) (a b : α) : Prop :=
  a = b ∨ Behind l a b

theorem AtOrBehind.behind {α : Type} {l : List α} {a b c : α} (first : AtOrBehind l a b) (nodup : l.Nodup)
    (second : Behind l b c) : Behind l a c := by
  rcases first with rfl | first
  · exact second
  · exact first.trans nodup second

/-! ## Stations of a lineup -/

/-- Where in a lineup a method is registered. -/
inductive Station where
  | filter (key : FilterKey)
  | mixin (cls : Handle)
  /-- The receiver's own method. -/
  | own
  | cls (cls : Handle)
  deriving DecidableEq

/-- Where a method is registered that runs in a frame of this kind. -/
def stationOf (kind : FrameKind) (definer : Option Handle) (name : String) : Station :=
  match kind, definer with
  | .filter _, _ => .filter ⟨definer, name⟩
  | .mixin _, some c => .mixin c
  | _, some c => .cls c
  | _, none => .own

def Frame.station (f : Frame) : Station :=
  stationOf f.kind f.definer f.methodName

section stationOf

variable {kind : FrameKind} {c : Handle} {name : String}

theorem stationOf_of_isFilter (filter : kind.isFilter = true) (definer : Option Handle) :
    stationOf kind definer name = .filter ⟨definer, name⟩ := by
  cases kind <;> first | rfl | cases filter

theorem stationOf_of_isMixin (mixin : kind.isMixin = true) : stationOf kind (some c) name = .mixin c := by
  cases kind <;> first | rfl | cases mixin

theorem stationOf_deactivated (definer : Option Handle) : stationOf kind.deactivated definer name = stationOf kind definer name := by
  cases kind <;> cases definer <;> rfl

end stationOf

namespace Lineup

variable (line : Lineup)

/-- The stations that are left where filters and mixins are done. -/
def plainStations : List Station :=
  .own :: line.classes.map .cls

/-- The stations that are left where filters are done. -/
def unfilteredStations : List Station :=
  line.mixins.map (.mixin ·.target) ++ line.plainStations

/-- All stations of a call, in their order. -/
def stations : List Station :=
  line.filters.map (.filter ·.key) ++ line.unfilteredStations

theorem length_stations :
    line.stations.length = line.filters.length + line.mixins.length + 1 + line.classes.length := by
  simp only [stations, unfilteredStations, plainStations, List.length_append, List.length_map, List.length_cons]
  omega

variable {line}

@[simp] theorem filter_mem_stations {key : FilterKey} :
    .filter key ∈ line.stations ↔ key ∈ line.filters.map FilterEntry.key := by
  simp [stations, unfilteredStations, plainStations]

@[simp] theorem mixin_mem_stations {c : Handle} : .mixin c ∈ line.stations ↔ c ∈ line.mixins.map (·.target) := by
  simp [stations, unfilteredStations, plainStations]

/-- Stations are told apart if the entries of each order are. -/
theorem nodup_stations (filters : (line.filters.map FilterEntry.key).Nodup) (mixins : (line.mixins.map (·.target)).Nodup)
    (classes : line.classes.Nodup) : line.stations.Nodup := by
  have keys : (line.filters.map fun entry => Station.filter entry.key).Nodup := by
    have injective : Function.Injective Station.filter := fun _ _ same => Station.filter.inj same
    simpa only [List.map_map, Function.comp_def] using filters.map injective
  have targets : (line.mixins.map fun m => Station.mixin m.target).Nodup := by
    have injective : Function.Injective Station.mixin := fun _ _ same => Station.mixin.inj same
    simpa only [List.map_map, Function.comp_def] using mixins.map injective
  have plain : line.plainStations.Nodup := by
    have given : (line.classes.map Station.cls).Nodup := classes.map fun _ _ same => Station.cls.inj same
    exact List.nodup_cons.2 ⟨by simp, given⟩
  have unfiltered : line.unfilteredStations.Nodup := by
    refine List.nodup_append'.2 ⟨targets, plain, fun station left right => ?_⟩
    obtain ⟨m, -, rfl⟩ := List.mem_map.1 left
    simp [plainStations] at right
  refine List.nodup_append'.2 ⟨keys, unfiltered, fun station left right => ?_⟩
  obtain ⟨entry, -, rfl⟩ := List.mem_map.1 left
  simp [unfilteredStations, plainStations] at right

/-- Then the filters are told apart, and the mixins are. -/
theorem nodup_entries (nodup : line.stations.Nodup) :
    (line.filters.map FilterEntry.key).Nodup ∧ (line.mixins.map (·.target)).Nodup := by
  have filters := List.Nodup.of_append_left nodup
  have mixins := List.Nodup.of_append_left (List.Nodup.of_append_right nodup)
  refine ⟨List.Nodup.of_map Station.filter ?_, List.Nodup.of_map Station.mixin ?_⟩
  · rwa [List.map_map]
  · rwa [List.map_map]

section behind

variable {key key' : FilterKey} {c c' : Handle} {s t : Station}

theorem behind_filter (behind : Behind (line.filters.map FilterEntry.key) key key') :
    Behind line.stations (.filter key) (.filter key') := by
  have mapped := behind.map Station.filter
  rw [List.map_map] at mapped
  exact mapped.append_right _

theorem behind_of_filter (listed : key ∈ line.filters.map FilterEntry.key) (later : s ∈ line.unfilteredStations) :
    Behind line.stations (.filter key) s := by
  obtain ⟨entry, member, rfl⟩ := List.mem_map.1 listed
  exact .of_append (List.mem_map_of_mem (f := fun entry : FilterEntry => Station.filter entry.key) member) later

theorem behind_unfiltered (behind : Behind line.unfilteredStations s t) : Behind line.stations s t :=
  behind.append_left _

theorem behind_mixin (behind : Behind (line.mixins.map (·.target)) c c') :
    Behind line.unfilteredStations (.mixin c) (.mixin c') := by
  have mapped := behind.map Station.mixin
  rw [List.map_map] at mapped
  exact mapped.append_right _

theorem behind_of_mixin (listed : c ∈ line.mixins.map (·.target)) (later : s ∈ line.plainStations) :
    Behind line.unfilteredStations (.mixin c) s := by
  obtain ⟨m, member, rfl⟩ := List.mem_map.1 listed
  exact .of_append (List.mem_map_of_mem (f := fun m : Mixin => Station.mixin m.target) member) later

theorem behind_plain (behind : Behind line.plainStations s t) : Behind line.unfilteredStations s t :=
  behind.append_left _

theorem behind_own (listed : c ∈ line.classes) : Behind line.plainStations .own (.cls c) :=
  (List.singleton_sublist.2 (List.mem_map_of_mem listed)).cons_cons _

theorem behind_cls (behind : Behind line.classes c c') : Behind line.plainStations (.cls c) (.cls c') :=
  (behind.map Station.cls).append_left [.own]

end behind

end Lineup

end DynamicObjects
