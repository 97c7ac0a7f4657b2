import DynamicObjects.Definition.Registry
import DynamicObjects.Proofs.Interception.Forgetting

/-!
# Registrations and well-formed worlds

Replacing mixins changes the links of one kind at both ends. Guards, filters and methods have no links.
-/
namespace DynamicObjects

namespace Object

def mapRegistrations (reach : Reach) (f : Registrations → Registrations) (o : Object) : Object :=
  match reach with
  | .object => { o with registrations := f o.registrations }
  | .instances => o.mapClass fun c => { c with registrations := f c.registrations }

@[simp] theorem identity_mapRegistrations (reach : Reach) (f : Registrations → Registrations) (o : Object) :
    (o.mapRegistrations reach f).identity = o.identity := by
  cases reach with
  | object => rfl
  | instances => exact identity_mapClass _ o

theorem registrations?_mapRegistrations (reach other : Reach) (f : Registrations → Registrations) (o : Object) :
    (o.mapRegistrations reach f).registrations? other =
      if other = reach then (o.registrations? other).map f else o.registrations? other := by
  cases reach <;> cases other <;> simp [mapRegistrations, registrations?, mapClass, Function.comp_def]

/-! Registrations and users of one reach show in the mixin links of that reach only. -/

section views

variable (reach : Reach) (f : Registrations → Registrations) (g : List Handle → List Handle) (o : Object)

theorem ancestry_mapRegistrations : (o.mapRegistrations reach f).ancestry = o.ancestry := by
  cases reach <;> simp [ancestry, mapRegistrations, mapClass, identity, isClass, Function.comp_def]

theorem membership_mapRegistrations : (o.mapRegistrations reach f).membership = o.membership := by
  cases reach <;> simp [membership, mapRegistrations, mapClass, identity, isClass, Function.comp_def]

theorem precedence_mapRegistrations : (o.mapRegistrations reach f).precedence = o.precedence := by
  cases reach <;> simp [mapRegistrations, precedence, mapClass, Function.comp_def]

theorem mixing_mapRegistrations {other : Reach} (apart : other ≠ reach) :
    (o.mapRegistrations reach f).mixing other = o.mixing other := by
  cases reach <;> cases other <;> simp [mixing, registrations?, mapRegistrations, mapClass, ClassPart.users, identity,
    isClass, Function.comp_def] at apart ⊢

theorem ancestry_mapUsers : (o.mapClass (·.mapUsers reach g)).ancestry = o.ancestry := by
  cases reach <;> simp [ancestry, mapClass, ClassPart.mapUsers, identity, isClass, Function.comp_def]

theorem membership_mapUsers : (o.mapClass (·.mapUsers reach g)).membership = o.membership := by
  cases reach <;> simp [membership, mapClass, ClassPart.mapUsers, identity, isClass, Function.comp_def]

theorem precedence_mapUsers : (o.mapClass (·.mapUsers reach g)).precedence = o.precedence := by
  cases reach <;> simp [precedence, mapClass, ClassPart.mapUsers, Function.comp_def]

theorem mixing_mapUsers {other : Reach} (apart : other ≠ reach) :
    (o.mapClass (·.mapUsers reach g)).mixing other = o.mixing other := by
  cases reach <;> cases other <;> simp [mixing, registrations?, mapClass, ClassPart.mapUsers, ClassPart.users, identity,
    isClass, Function.comp_def] at apart ⊢

end views

end Object

namespace Interception

section exec

variable {reach : Reach} {on : Handle} {w : World}

theorem exec_registrations_of_some {r : Registrations} (found : w.registrations? reach on = some r) :
    (registrations reach on).exec w = (.ok r, w) := by
  obtain ⟨o, live, here⟩ := Option.bind_eq_some_iff.1 found
  cases reach with
  | object =>
    cases here
    exact Update.exec_bind_of_ok (Update.exec_object_of_live live) _
  | instances =>
    obtain ⟨part, cls, rfl⟩ := Option.map_eq_some_iff.1 here
    exact Update.exec_bind_of_ok (Update.exec_classPart_of_live live cls) _

theorem exec_registrations_of_none (missing : w.registrations? reach on = none) :
    ∃ e, (registrations reach on).exec w = (.error e, w) := by
  cases reach with
  | object =>
    have dead : w.live? on = none := by
      cases found : w.live? on with
      | none => rfl
      | some o => simp [World.registrations?, Object.registrations?, found] at missing
    exact ⟨_, Update.exec_bind_of_error (Update.exec_object_of_dead dead) _⟩
  | instances =>
    rcases result : (Update.classPart on).exec w with ⟨r, v⟩
    have same : v = w := by
      have unchanged := Update.exec_classPart_snd on w
      rwa [result] at unchanged
    subst same
    cases r with
    | error e => exact ⟨e, Update.exec_bind_of_error result _⟩
    | ok part =>
      obtain ⟨⟨o, live, cls⟩, -⟩ := Update.exec_classPart_eq_ok result
      simp [World.registrations?, Object.registrations?, live, cls] at missing

theorem exec_changeRegistrations {r : Registrations} (found : w.registrations? reach on = some r)
    (f : Registrations → Registrations) :
    (changeRegistrations reach on f).exec w =
      (.ok ⟨⟩, { w with objects := w.objects.modify on (Object.mapRegistrations reach f) }) := by
  obtain ⟨o, live, here⟩ := Option.bind_eq_some_iff.1 found
  cases reach with
  | object => exact Update.exec_changeObject_of_live live _
  | instances =>
    obtain ⟨part, cls, -⟩ := Option.map_eq_some_iff.1 here
    exact Update.exec_changeClass_of_isClass (World.isClass_iff.2 ⟨o, part, live, cls⟩) _

end exec

/-- What a change of one's registrations comes to. -/
theorem exec_changeRegistrations_forgetFor {reach : Reach} {on : Handle} {w : World} {r : Registrations}
    (found : w.registrations? reach on = some r) (f : Registrations → Registrations) :
    ∃ b, (changeRegistrations reach on f >>= fun _ => forgetFor reach on).exec w =
        (.ok ⟨⟩, { w with objects := b }) ∧
      Forgets (Spoiled reach on (w.objects.modify on (Object.mapRegistrations reach f)))
        (w.objects.modify on (Object.mapRegistrations reach f)) b := by
  rw [Update.exec_bind_of_ok (exec_changeRegistrations found f)]
  exact exec_forgetFor reach on { w with objects := _ }

/-! ## Mixins -/

/-- What replacing the mixins on `on` makes of an object. -/
def remixed (reach : Reach) (on : Handle) (old : List Handle) (mixins : List Mixin) (k : Handle) (o : Object) :
    Object :=
  let dropped := if k ∈ old then o.mapClass (·.mapUsers reach (·.filter (· ≠ on))) else o
  let entered := if k ∈ mixins.map (·.target) then dropped.mapClass (·.mapUsers reach (enterUser on)) else dropped
  if k = on then entered.mapRegistrations reach ({ · with mixins }) else entered

theorem enterUser_enterUser (user : Handle) (users : List Handle) :
    enterUser user (enterUser user users) = enterUser user users := by
  unfold enterUser
  by_cases member : user ∈ users <;> simp [member]

theorem mem_enterUser {user other : Handle} {users : List Handle} :
    other ∈ enterUser user users ↔ other ∈ users ∨ other = user := by
  unfold enterUser
  split
  · next member =>
    refine ⟨.inl, fun h => h.elim id fun same => ?_⟩
    exact same ▸ List.contains_iff_mem.1 member
  · simp

theorem nodup_enterUser {user : Handle} {users : List Handle} (nodup : users.Nodup) : (enterUser user users).Nodup := by
  unfold enterUser
  split
  · exact nodup
  · next absent =>
    have new : user ∉ users := fun member => absent (List.contains_iff_mem.2 member)
    exact nodup.append (List.nodup_singleton user) fun x member last => new (List.mem_singleton.1 last ▸ member)

theorem registrations?_mapUsers (reach other : Reach) (f : List Handle → List Handle) (o : Object) :
    (o.mapClass (·.mapUsers reach f)).registrations? other = o.registrations? other := by
  cases other with
  | object => rfl
  | instances => cases reach <;> simp [Object.registrations?, Object.mapClass, ClassPart.mapUsers, Function.comp_def]

theorem remade_mixins (reach : Reach) (on : Handle) (old mixins : List Mixin) (a : Objects) :
    Heap.Remade (remixed reach on (old.map (·.target)) mixins) a
      ((mixins.foldl (fun a m => a.modifyClass m.target (·.mapUsers reach (enterUser on)))
        (old.foldl (fun a m => a.modifyClass m.target (·.mapUsers reach (·.filter (· ≠ on)))) a)).modify on
          (Object.mapRegistrations reach ({ · with mixins }))) := by
  have dropped := Heap.Remade.foldl_modify (fun m : Mixin => m.target)
    (fun _ => Object.mapClass (·.mapUsers reach (·.filter (· ≠ on)))) (fun _ o => by
      cases reach <;> simp [Object.mapClass, ClassPart.mapUsers, Function.comp_def]) old a
  have entered := Heap.Remade.foldl_modify (fun m : Mixin => m.target)
    (fun _ => Object.mapClass (·.mapUsers reach (enterUser on))) (fun _ o => by
      cases reach <;> simp [Object.mapClass, ClassPart.mapUsers, Function.comp_def, enterUser_enterUser]) mixins
    (old.foldl (fun a m => a.modifyClass m.target (·.mapUsers reach (·.filter (· ≠ on)))) a)
  exact (dropped.trans entered).trans (.modify _ on _)

/-- Mixins are replaced as a whole or not at all. -/
theorem exec_setMixins (reach : Reach) (on : Handle) (mixins : List Mixin) (w : World) :
    (∃ e, (setMixins reach on mixins).exec w = (.error e, w)) ∨
      ∃ r a b, w.registrations? reach on = some r ∧ (∀ m ∈ mixins, w.isClass m.target = true) ∧
        (setMixins reach on mixins).exec w = (.ok ⟨⟩, { w with objects := b }) ∧
        Heap.Remade (remixed reach on (r.mixins.map (·.target)) mixins) w.objects a ∧
        Forgets (Spoiled reach on a) a b := by
  have loop := Update.exec_forIn_check (fun m v => v.isClass m.target) mixins (w := w)
    (f := fun m => do
      unless (← get).isClass m.target do
        throw (.structural (.mixinNotClass (← Update.nameOf m.target)))
      pure (.yield ⟨⟩))
    (fun m _ passes => by
      rw [Update.exec_bind_of_ok (Update.exec_get w), passes]
      rfl)
    (fun m _ fails => by
      rw [Update.exec_bind_of_ok (Update.exec_get w), fails]
      exact ⟨_, rfl⟩)
  unfold setMixins
  rcases loop with ⟨checked, passed⟩ | ⟨e, failed⟩
  · rw [Update.exec_bind_of_ok passed]
    cases found : w.registrations? reach on with
    | none =>
      obtain ⟨e, failed⟩ := exec_registrations_of_none found
      exact .inl ⟨e, Update.exec_bind_of_error failed _⟩
    | some r =>
      have alike : ∀ (f : List Handle → List Handle) (ms : List Mixin) (a : Objects),
          Heap.Alike (fun o => (o.deleted, o.registrations? reach)) a
            (ms.foldl (fun a m => a.modifyClass m.target (·.mapUsers reach f)) a) := fun f ms a =>
        .foldl (fun a m => .modifyClass a m.target fun o =>
          Prod.ext rfl (registrations?_mapUsers reach reach f o)) ms a
      have both := (alike (·.filter (· ≠ on)) r.mixins w.objects).trans (alike (enterUser on) mixins _)
      rw [Update.exec_bind_of_ok (exec_registrations_of_some found),
        Update.exec_bind_of_ok (Update.exec_forIn_changeObjects _ _ _),
        Update.exec_bind_of_ok (Update.exec_forIn_changeObjects _ _ _),
        Update.exec_bind_of_ok (exec_changeRegistrations (both.registrations?.trans found) _)]
      obtain ⟨b, done, forgets⟩ := exec_forgetFor reach on { w with objects := _ }
      exact .inr ⟨r, _, b, rfl, List.all_eq_true.1 checked, done, remade_mixins reach on r.mixins mixins w.objects,
        forgets⟩
  · exact .inl ⟨e, Update.exec_bind_of_error failed _⟩

section remixed

variable {reach : Reach} {on : Handle} {old : List Handle} {mixins : List Mixin}

theorem identity_remixed (k : Handle) (o : Object) : (remixed reach on old mixins k o).identity = o.identity := by
  unfold remixed
  split <;> split <;> split <;> simp

/-- A view of objects that sees neither the mixins of this reach nor their users sees no difference. -/
theorem view_remixed {β : Type v} {view : Object → β}
    (users : ∀ (f : List Handle → List Handle) o, view (o.mapClass (·.mapUsers reach f)) = view o)
    (registered : ∀ o, view (o.mapRegistrations reach ({ · with mixins })) = view o) (k : Handle) (o : Object) :
    view (remixed reach on old mixins k o) = view o := by
  unfold remixed
  split <;> split <;> split <;> simp only [users, registered]

theorem registrations?_remixed (k : Handle) (o : Object) :
    (remixed reach on old mixins k o).registrations? reach =
      if k = on then (o.registrations? reach).map ({ · with mixins }) else o.registrations? reach := by
  unfold remixed
  split <;> split <;> split <;> simp [Object.registrations?_mapRegistrations, registrations?_mapUsers]

/-- The users of a mixin class after the mixins of `on` were replaced. -/
def reentered (on : Handle) (old : List Handle) (mixins : List Mixin) (k : Handle) (users : List Handle) :
    List Handle :=
  let dropped := if k ∈ old then users.filter (· ≠ on) else users
  if k ∈ mixins.map (·.target) then enterUser on dropped else dropped

theorem users_remixed (k : Handle) (o : Object) :
    (remixed reach on old mixins k o).classPart.map (·.users reach) =
      o.classPart.map fun c => reentered on old mixins k (c.users reach) := by
  unfold remixed reentered
  split <;> split <;> split <;> cases reach <;>
    simp [Object.mapClass, Object.mapRegistrations, ClassPart.mapUsers, ClassPart.users, Function.comp_def]

theorem mem_reentered {k u : Handle} {users : List Handle} :
    u ∈ reentered on old mixins k users ↔
      (u ∈ users ∧ ¬(u = on ∧ k ∈ old)) ∨ (u = on ∧ k ∈ mixins.map (·.target)) := by
  unfold reentered
  by_cases dropped : k ∈ old <;> by_cases entered : k ∈ mixins.map (·.target) <;>
    simp [dropped, entered, mem_enterUser]

theorem nodup_reentered {k : Handle} {users : List Handle} (nodup : users.Nodup) :
    (reentered on old mixins k users).Nodup := by
  unfold reentered
  have dropped : (if k ∈ old then users.filter (· ≠ on) else users).Nodup := by
    split
    · exact nodup.filter _
    · exact nodup
  by_cases entered : k ∈ mixins.map (·.target)
  · simpa only [entered, if_true] using nodup_enterUser dropped
  · simpa only [entered, if_false] using dropped

end remixed

end Interception

section mixed

variable {reach : Reach} {on : Handle} {mixins : List Mixin} {v w : World}

theorem targetsOf_remixed {old : List Handle} {r : Registrations} (found : v.registrations? reach on = some r)
    (remade : Heap.Remade (Interception.remixed reach on old mixins) v.objects w.objects) (u : Handle) :
    w.targetsOf reach u = if u = on then mixins.map (·.target) else v.targetsOf reach u := by
  have live := remade.live? (fun k o => congrArg Identity.deleted (Interception.identity_remixed k o)) u
  have registered : w.registrations? reach u =
      if u = on then (v.registrations? reach u).map ({ · with mixins }) else v.registrations? reach u := by
    unfold World.registrations?
    rw [live]
    cases v.live? u with
    | none => simp
    | some o => simpa using Interception.registrations?_remixed u o
  unfold World.targetsOf World.mixinsOf
  rw [registered]
  split
  · next same =>
    subst same
    rw [found]
    rfl
  · rfl

theorem usersOf_remixed {old : List Handle}
    (remade : Heap.Remade (Interception.remixed reach on old mixins) v.objects w.objects) {c : Handle}
    (cls : v.isClass c = true) :
    w.usersOf reach c = Interception.reentered on old mixins c (v.usersOf reach c) := by
  have live := remade.live? (fun k o => congrArg Identity.deleted (Interception.identity_remixed k o)) c
  obtain ⟨o, part, here, some⟩ := World.isClass_iff.1 cls
  have users := @Interception.users_remixed reach on old mixins c o
  unfold World.usersOf World.classPart?
  rw [live, here]
  simp only [Option.map_some, Option.bind_some, some] at users ⊢
  rw [users]
  rfl

theorem usersOf_of_not_isClass {c : Handle} (other : w.isClass c = false) : w.usersOf reach c = [] := by
  unfold World.usersOf World.classPart?
  cases live : w.live? c with
  | none => rfl
  | some o =>
    cases cls : o.classPart with
    | none => simp [cls]
    | some part => exact absurd (World.isClass_iff.2 ⟨o, part, live, cls⟩) (by simp [other])

/-- Replacing mixins keeps both ends of the mixin links in step. -/
theorem Mixed.remixed {r : Registrations} (mixed : Mixed reach v) (found : v.registrations? reach on = some r)
    (classes : ∀ m ∈ mixins, v.isClass m.target = true)
    (remade : Heap.Remade (Interception.remixed reach on (r.mixins.map (·.target)) mixins) v.objects w.objects) :
    Mixed reach w := by
  have identity : Heap.Alike Object.identity v.objects w.objects :=
    remade.alike fun k o _ => Interception.identity_remixed k o
  have old : v.targetsOf reach on = r.mixins.map (·.target) := by
    unfold World.targetsOf World.mixinsOf
    rw [found]
    rfl
  have targets := targetsOf_remixed found remade
  have none : ∀ {c}, w.isClass c = false → w.usersOf reach c = [] := usersOf_of_not_isClass
  refine ⟨fun u c member => ?_, fun c u => ?_, fun c => ?_⟩
  · rw [targets] at member
    rw [identity.isClass]
    split at member
    · obtain ⟨m, listed, rfl⟩ := List.mem_map.1 member
      exact classes m listed
    · exact mixed.target u c member
  · cases cls : v.isClass c with
    | true =>
      rw [usersOf_remixed remade cls, Interception.mem_reentered, targets, mixed.users, ← old]
      by_cases same : u = on
      · subst same
        simp
      · simp [same]
    | false =>
      rw [none (identity.isClass.trans cls), targets]
      refine ⟨fun no => absurd no List.not_mem_nil, fun member => ?_⟩
      exfalso
      split at member
      · obtain ⟨m, listed, rfl⟩ := List.mem_map.1 member
        rw [classes m listed] at cls
        cases cls
      · rw [mixed.target u c member] at cls
        cases cls
  · cases cls : v.isClass c with
    | true =>
      rw [usersOf_remixed remade cls]
      exact Interception.nodup_reentered (mixed.nodup c)
    | false =>
      rw [none (identity.isClass.trans cls)]
      exact List.nodup_nil

end mixed

/-! ## Guards, filters and methods -/

namespace Object

theorem links_mapRegistrations {f : Registrations → Registrations}
    (keeps : ∀ r, (f r).mixins.map (·.target) = r.mixins.map (·.target)) (reach : Reach) (o : Object) :
    (o.mapRegistrations reach f).links = o.links := by
  have identity := identity_mapRegistrations reach f o
  unfold links ancestry membership mixing
  rw [identity]
  cases reach with
  | object =>
    refine Prod.ext rfl (Prod.ext rfl (funext fun other => ?_))
    cases other <;> simp [mapRegistrations, registrations?, keeps]
  | instances =>
    refine Prod.ext ?_ (Prod.ext ?_ (funext fun other => ?_))
    · simp [mapRegistrations, mapClass, Function.comp_def]
    · simp [mapRegistrations, mapClass, Function.comp_def]
    · cases other <;> simp [mapRegistrations, registrations?, mapClass, Function.comp_def, keeps, ClassPart.users]

def methods? (o : Object) : Reach → Option (NameTable Method)
  | .object => some o.methods
  | .instances => o.classPart.map (·.methods)

def mapMethods (reach : Reach) (f : NameTable Method → NameTable Method) (o : Object) : Object :=
  match reach with
  | .object => { o with methods := f o.methods }
  | .instances => o.mapClass fun c => { c with methods := f c.methods }

theorem links_mapMethods (reach : Reach) (f : NameTable Method → NameTable Method) (o : Object) :
    (o.mapMethods reach f).links = o.links := by
  cases reach with
  | object => rfl
  | instances =>
    unfold links ancestry membership mixing mapMethods
    rw [identity_mapClass]
    refine Prod.ext ?_ (Prod.ext ?_ (funext fun other => ?_))
    · simp [mapClass, Function.comp_def]
    · simp [mapClass, Function.comp_def]
    · cases other <;> simp [registrations?, mapClass, Function.comp_def, ClassPart.users]

theorem precedence_mapMethods (reach : Reach) (f : NameTable Method → NameTable Method) (o : Object) :
    (o.mapMethods reach f).precedence = o.precedence := by
  cases reach <;> simp [mapMethods, precedence, mapClass, Function.comp_def]

end Object

namespace Interception

theorem map_target_modifyFirst {α β : Type} {p : α → Bool} {f : α → α} {g : α → β} (keeps : ∀ a, g (f a) = g a)
    (as : List α) : (modifyFirst p f as).map g = as.map g := by
  induction as with
  | nil => rfl
  | cons a as ih =>
    unfold modifyFirst
    split <;> simp [keeps, ih]

/-- A guard is set on a registered mixin or not at all. -/
theorem exec_setMixinGuard (reach : Reach) (on cls : Handle) (guard : Option Predicate) (w : World) :
    (∃ e, (setMixinGuard reach on cls guard).exec w = (.error e, w)) ∨
      ∃ r b, w.registrations? reach on = some r ∧
        (setMixinGuard reach on cls guard).exec w = (.ok ⟨⟩, { w with objects := b }) ∧
        Forgets (Spoiled reach on (w.objects.modify on (Object.mapRegistrations reach fun r =>
            { r with mixins := modifyFirst (·.target == cls) ({ · with guard }) r.mixins })))
          (w.objects.modify on (Object.mapRegistrations reach fun r =>
            { r with mixins := modifyFirst (·.target == cls) ({ · with guard }) r.mixins })) b := by
  unfold setMixinGuard
  cases found : w.registrations? reach on with
  | none =>
    obtain ⟨e, failed⟩ := exec_registrations_of_none found
    exact .inl ⟨e, Update.exec_bind_of_error failed _⟩
  | some r =>
    rw [Update.exec_bind_of_ok (exec_registrations_of_some found)]
    cases registered : r.mixins.any (·.target == cls) with
    | false => exact .inl ⟨_, rfl⟩
    | true =>
      obtain ⟨b, done, forgets⟩ := exec_changeRegistrations_forgetFor found fun r =>
        { r with mixins := modifyFirst (·.target == cls) ({ · with guard }) r.mixins }
      exact .inr ⟨r, b, rfl, done, forgets⟩

theorem exec_setFilterGuard (reach : Reach) (on : Handle) (name : String) (guard : Option Predicate) (w : World) :
    (∃ e, (setFilterGuard reach on name guard).exec w = (.error e, w)) ∨
      ∃ r b, w.registrations? reach on = some r ∧
        (setFilterGuard reach on name guard).exec w = (.ok ⟨⟩, { w with objects := b }) ∧
        Forgets (Spoiled reach on (w.objects.modify on (Object.mapRegistrations reach fun r =>
            { r with filters := modifyFirst (·.target == name) ({ · with guard }) r.filters })))
          (w.objects.modify on (Object.mapRegistrations reach fun r =>
            { r with filters := modifyFirst (·.target == name) ({ · with guard }) r.filters })) b := by
  unfold setFilterGuard
  cases found : w.registrations? reach on with
  | none =>
    obtain ⟨e, failed⟩ := exec_registrations_of_none found
    exact .inl ⟨e, Update.exec_bind_of_error failed _⟩
  | some r =>
    rw [Update.exec_bind_of_ok (exec_registrations_of_some found)]
    cases registered : r.filters.any (·.target == name) with
    | false => exact .inl ⟨_, rfl⟩
    | true =>
      obtain ⟨b, done, forgets⟩ := exec_changeRegistrations_forgetFor found fun r =>
        { r with filters := modifyFirst (·.target == name) ({ · with guard }) r.filters }
      exact .inr ⟨r, b, rfl, done, forgets⟩

/-- The users of filters after `user` has replaced its filters. -/
def tracked (user : Handle) (old new : List Filter) (w : World) : NameTable HandleSet :=
  ((trackFilters user old new).exec w).2.filterUsers

theorem exec_trackFilters (user : Handle) (old new : List Filter) (w : World) :
    (trackFilters user old new).exec w = (.ok ⟨⟩, { w with filterUsers := tracked user old new w }) := rfl

theorem exec_setFilters (reach : Reach) (on : Handle) (filters : List Filter) (w : World) :
    (∃ e, (setFilters reach on filters).exec w = (.error e, w)) ∨
      ∃ r b, w.registrations? reach on = some r ∧
        (setFilters reach on filters).exec w =
          (.ok ⟨⟩, { w with filterUsers := tracked on r.filters filters w, objects := b }) ∧
        Forgets (Spoiled reach on (w.objects.modify on (Object.mapRegistrations reach ({ · with filters }))))
          (w.objects.modify on (Object.mapRegistrations reach ({ · with filters }))) b := by
  unfold setFilters
  cases found : w.registrations? reach on with
  | none =>
    obtain ⟨e, failed⟩ := exec_registrations_of_none found
    exact .inl ⟨e, Update.exec_bind_of_error failed _⟩
  | some r =>
    rw [Update.exec_bind_of_ok (exec_registrations_of_some found),
      Update.exec_bind_of_ok (exec_trackFilters on r.filters filters w)]
    have still : World.registrations? { w with filterUsers := tracked on r.filters filters w } reach on = some r :=
      found
    obtain ⟨b, done, forgets⟩ := exec_changeRegistrations_forgetFor still ({ · with filters })
    exact .inr ⟨r, b, rfl, done, forgets⟩

/-- Whether a change of a method of this name spoils the orders of `h`, as far as the users of filters tell. -/
def Listed (w : World) (name : String) (h : Handle) : Prop :=
  ∃ user ∈ (w.filterUsers.get? name).getD .empty, h = user ∨ (w.isClass user = true ∧ DependsOn w.objects user h)

end Interception

namespace Definition

/-- The world after a change of the method tables, before orders are forgotten. -/
def redefined (reach : Reach) (on : Handle) (f : NameTable Method → NameTable Method)
    (registry : NameTable Registration) (w : World) : World :=
  { w with
    objects := w.objects.modify on (Object.mapMethods reach f)
    registry := registry
    epoch := w.epoch + 1 }

theorem exec_methods (reach : Reach) (on : Handle) (w : World) :
    (∃ e, (methods reach on).exec w = (.error e, w)) ∨
      ∃ o table, w.live? on = some o ∧ o.methods? reach = some table ∧ (methods reach on).exec w = (.ok table, w) := by
  cases live : w.live? on with
  | none =>
    have dead := Update.exec_object_of_dead live
    cases reach with
    | object => exact .inl ⟨_, Update.exec_bind_of_error dead _⟩
    | instances => exact .inl ⟨_, Update.exec_bind_of_error (Update.exec_bind_of_error dead _) _⟩
  | some o =>
    cases reach with
    | object => exact .inr ⟨o, _, rfl, rfl, Update.exec_bind_of_ok (Update.exec_object_of_live live) _⟩
    | instances =>
      cases cls : o.classPart with
      | none =>
        refine .inl ⟨.structural (.notClass o.name), Update.exec_bind_of_error ?_ _⟩
        unfold Update.classPart
        rw [Update.exec_bind_of_ok (Update.exec_object_of_live live), cls]
        rfl
      | some part =>
        exact .inr ⟨o, part.methods, rfl, by simp [Object.methods?, cls],
          Update.exec_bind_of_ok (Update.exec_classPart_of_live live cls) _⟩

theorem exec_changeMethods {reach : Reach} {on : Handle} {w : World} {o : Object} {table : NameTable Method}
    (live : w.live? on = some o) (found : o.methods? reach = some table) (f : NameTable Method → NameTable Method) :
    (changeMethods reach on f).exec w =
      (.ok ⟨⟩, { w with objects := w.objects.modify on (Object.mapMethods reach f) }) := by
  cases reach with
  | object => exact Update.exec_changeObject_of_live live _
  | instances =>
    obtain ⟨part, cls, -⟩ := Option.map_eq_some_iff.1 found
    exact Update.exec_changeClass_of_isClass (World.isClass_iff.2 ⟨o, part, live, cls⟩) _

/-- The path of a method depends on the name of its object only. -/
theorem methodPath_of_alike {v w : World} (alike : Heap.Alike Object.name v.objects w.objects) :
    methodPath w = methodPath v := by
  have named : ∀ h, w.nameOf h = v.nameOf h := fun h => by rw [World.nameOf, World.nameOf, Heap.nameOf, alike.view]; rfl
  funext reach on name
  cases reach with
  | object => simp only [methodPath, objectMethodPath, named]
  | instances => simp only [methodPath, instanceMethodPath, named]

theorem exec_register (path : String) (r : Registration) (w : World) :
    (register path r).exec w = (.ok ⟨⟩, { w with registry := w.registry.insert path r }) := rfl

/-- A definition enters a method and forgets the orders of whoever is listed under its name. -/
theorem exec_defineMethod (reach : Reach) (on : Handle) (method : Method) (w : World) :
    (∃ e, (defineMethod reach on method).exec w = (.error e, w)) ∨
      ∃ o table b, w.live? on = some o ∧ o.methods? reach = some table ∧
        let defined := { method with epoch := w.epoch + 1 }
        let v := redefined reach on (·.insert method.name defined)
          (w.registry.insert (methodPath w reach on method.name) ⟨some on, reach == .object, defined⟩) w
        (defineMethod reach on method).exec w = (.ok ⟨⟩, { v with objects := b }) ∧
          Forgets (Interception.Listed v method.name) v.objects b := by
  unfold defineMethod
  rcases exec_methods reach on w with ⟨e, failed⟩ | ⟨o, table, live, found, done⟩
  · exact .inl ⟨e, Update.exec_bind_of_error failed _⟩
  · have counted : nextEpoch.exec w = (.ok (w.epoch + 1), { w with epoch := w.epoch + 1 }) := rfl
    have changed := exec_changeMethods (w := { w with epoch := w.epoch + 1 }) live found
      (·.insert method.name { method with epoch := w.epoch + 1 })
    have path : methodPath (redefined reach on (·.insert method.name { method with epoch := w.epoch + 1 }) w.registry w) =
        methodPath w :=
      methodPath_of_alike (.modify _ _ fun o => by cases reach <;> rfl)
    rw [Update.exec_bind_of_ok done, Update.exec_bind_of_ok counted, Update.exec_bind_of_ok changed,
      Update.exec_bind_of_ok (Update.exec_get _), Update.exec_bind_of_ok (exec_register _ _ _), ← path]
    obtain ⟨b, last, forgets⟩ := Interception.exec_forgetFilterUsers method.name
      (redefined reach on (·.insert method.name { method with epoch := w.epoch + 1 }) _ w)
    exact .inr ⟨o, table, b, live, found, last, forgets⟩

theorem exec_removeMethod (reach : Reach) (on : Handle) (name : String) (w : World) :
    (∃ r, (removeMethod reach on name).exec w = (r, w)) ∨
      ∃ o table b, w.live? on = some o ∧ o.methods? reach = some table ∧ table.contains name = true ∧
        let v := redefined reach on (·.erase name) (w.registry.erase (methodPath w reach on name)) w
        (removeMethod reach on name).exec w = (.ok true, { v with objects := b }) ∧
          Forgets (Interception.Listed v name) v.objects b := by
  unfold removeMethod
  rcases exec_methods reach on w with ⟨e, failed⟩ | ⟨o, table, live, found, done⟩
  · exact .inl ⟨_, Update.exec_bind_of_error failed _⟩
  · rw [Update.exec_bind_of_ok done]
    cases defined : table.contains name with
    | false => exact .inl ⟨_, rfl⟩
    | true =>
      have changed := exec_changeMethods live found (·.erase name)
      simp only [if_true]
      have path : methodPath { w with objects := w.objects.modify on (Object.mapMethods reach (·.erase name)) } =
          methodPath w :=
        methodPath_of_alike (.modify _ _ fun o => by cases reach <;> rfl)
      rw [Update.exec_bind_of_ok changed, Update.exec_bind_of_ok (Update.exec_modify _ _), ← path]
      have counted : ∀ v : World, nextEpoch.exec v = (.ok (v.epoch + 1), { v with epoch := v.epoch + 1 }) :=
        fun _ => rfl
      rw [Update.exec_bind_of_ok (counted _)]
      obtain ⟨b, last, forgets⟩ := Interception.exec_forgetFilterUsers name
        (redefined reach on (·.erase name) _ w)
      exact .inr ⟨o, table, b, live, found, defined, (Update.exec_bind_of_ok last _).trans rfl, forgets⟩

end Definition

/-! ## What stays well-formed -/

namespace WellFormed

variable {loose : Handle → Prop} {w : World}

/-- Changing one object in a way that no link and no kept order shows, and forgetting orders. -/
private theorem of_modify_forgets {v : World} {s : Handle → Prop} {on : Handle} {f : Object → Object}
    (well : WellFormed loose w) (links : ∀ o, (f o).links = o.links) (orders : ∀ o, (f o).precedence = o.precedence)
    (forgets : Forgets s (w.objects.modify on f) v.objects) (names : v.names = w.names)
    (systems : v.systems = w.systems) : WellFormed loose v :=
  well.of_alike ((Heap.Alike.modify _ _ links).trans (forgets.alike fun _ => rfl))
    ((Heap.Alike.modify _ _ orders).trans (forgets.alike fun _ => rfl)) names systems

theorem setMixins (well : WellFormed loose w) (reach : Reach) (on : Handle) (mixins : List Mixin) :
    WellFormed loose ((Interception.setMixins reach on mixins).exec w).2 := by
  rcases Interception.exec_setMixins reach on mixins w with
    ⟨e, failed⟩ | ⟨r, a, b, found, classes, done, remade, forgets⟩
  · rw [failed]
    exact well
  · rw [done]
    have looks : ∀ {β : Type} {view : Object → β},
        (∀ (f : List Handle → List Handle) o, view (o.mapClass (·.mapUsers reach f)) = view o) →
        (∀ o, view (o.mapRegistrations reach ({ · with mixins })) = view o) →
        (∀ o, view (Object.withoutOrders o) = view o) → Heap.Alike view w.objects b :=
      fun users registered blind => (remade.alike fun k o _ =>
        Interception.view_remixed users registered k o).trans (forgets.alike blind)
    have ancestry : Heap.Alike Object.ancestry w.objects b :=
      looks (Object.ancestry_mapUsers reach) (Object.ancestry_mapRegistrations reach _) fun _ => rfl
    have membership : Heap.Alike Object.membership w.objects b :=
      looks (Object.membership_mapUsers reach) (Object.membership_mapRegistrations reach _) fun _ => rfl
    have precedence : Heap.Alike Object.precedence w.objects b :=
      looks (Object.precedence_mapUsers reach) (Object.precedence_mapRegistrations reach _) fun _ => rfl
    refine {
      sound := well.sound.of_layout ancestry.layout
      named := well.named.of_alike ancestry.identity_of_ancestry rfl
      classed := well.classed.of_alike membership
      linked := well.linked.of_ancestry ancestry
      rooted := well.rooted.of_ancestry ancestry rfl
      mixed := fun other => ?_
      kept := well.kept.of_alike precedence }
    by_cases same : other = reach
    · subst same
      have mixed : Mixed other { w with objects := a } := (well.mixed other).remixed found classes remade
      exact mixed.of_alike (forgets.alike fun _ => rfl)
    · exact (well.mixed other).of_alike (looks (fun f o => Object.mixing_mapUsers reach f o same)
        (fun o => Object.mixing_mapRegistrations reach _ o same) fun _ => rfl)

theorem setMixinGuard (well : WellFormed loose w) (reach : Reach) (on cls : Handle) (guard : Option Predicate) :
    WellFormed loose ((Interception.setMixinGuard reach on cls guard).exec w).2 := by
  rcases Interception.exec_setMixinGuard reach on cls guard w with ⟨e, failed⟩ | ⟨r, b, -, done, forgets⟩
  · rw [failed]
    exact well
  · rw [done]
    have targets : ∀ r : Registrations, (Interception.modifyFirst (fun m : Mixin => m.target == cls)
        ({ · with guard }) r.mixins).map (·.target) = r.mixins.map (·.target) :=
      fun r => Interception.map_target_modifyFirst (by intro _; rfl) r.mixins
    exact well.of_modify_forgets (Object.links_mapRegistrations targets reach)
      (Object.precedence_mapRegistrations reach _) forgets rfl rfl

theorem setFilterGuard (well : WellFormed loose w) (reach : Reach) (on : Handle) (name : String)
    (guard : Option Predicate) : WellFormed loose ((Interception.setFilterGuard reach on name guard).exec w).2 := by
  rcases Interception.exec_setFilterGuard reach on name guard w with ⟨e, failed⟩ | ⟨r, b, -, done, forgets⟩
  · rw [failed]
    exact well
  · rw [done]
    exact well.of_modify_forgets (Object.links_mapRegistrations (by intro _; rfl) reach)
      (Object.precedence_mapRegistrations reach _) forgets rfl rfl

theorem setFilters (well : WellFormed loose w) (reach : Reach) (on : Handle) (filters : List Filter) :
    WellFormed loose ((Interception.setFilters reach on filters).exec w).2 := by
  rcases Interception.exec_setFilters reach on filters w with ⟨e, failed⟩ | ⟨r, b, -, done, forgets⟩
  · rw [failed]
    exact well
  · rw [done]
    exact well.of_modify_forgets (Object.links_mapRegistrations (by intro _; rfl) reach)
      (Object.precedence_mapRegistrations reach _) forgets rfl rfl

theorem defineMethod (well : WellFormed loose w) (reach : Reach) (on : Handle) (method : Method) :
    WellFormed loose ((Definition.defineMethod reach on method).exec w).2 := by
  rcases Definition.exec_defineMethod reach on method w with ⟨e, failed⟩ | ⟨o, table, b, -, -, done, forgets⟩
  · rw [failed]
    exact well
  · rw [done]
    exact well.of_modify_forgets (Object.links_mapMethods reach _) (Object.precedence_mapMethods reach _) forgets
      rfl rfl

theorem removeMethod (well : WellFormed loose w) (reach : Reach) (on : Handle) (name : String) :
    WellFormed loose ((Definition.removeMethod reach on name).exec w).2 := by
  rcases Definition.exec_removeMethod reach on name w with ⟨e, failed⟩ | ⟨o, table, b, -, -, -, done, forgets⟩
  · rw [failed]
    exact well
  · rw [done]
    exact well.of_modify_forgets (Object.links_mapMethods reach _) (Object.precedence_mapMethods reach _) forgets
      rfl rfl

end WellFormed

end DynamicObjects
