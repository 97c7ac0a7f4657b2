import DynamicObjects.Proofs.Runs.Population
import DynamicObjects.Proofs.Structure.Naming

/-!
# Sites of definitions

A method is defined at an object or at a class, under a name, and has a path that is put together from the names. What
is defined where, and under which path, depends on names and method tables only. Different definitions can have the same
path, but not where names are plain.
-/
namespace DynamicObjects

/-- Where a method is defined: at an object for itself, or at a class for its instances, under a name. -/
structure Site where
  reach : Reach
  on : Handle
  name : String
  deriving DecidableEq

/-- What is registered for a method. -/
def Site.entry (site : Site) (method : Method) : Registration :=
  ⟨some site.on, site.reach == .object, method⟩

namespace World

variable (w : World)

/-- The path of a site. -/
def pathOf (site : Site) : String :=
  Definition.methodPath w site.reach site.on site.name

/-- A live object or class has this method at the site. -/
def Defines (site : Site) (method : Method) : Prop :=
  ∃ o table, w.live? site.on = some o ∧ o.methods? site.reach = some table ∧ table.get? site.name = some method

end World

/-! ## Definitions of a heap -/

/-- What the paths of the methods of an object begin with. -/
def Object.methodSpace (o : Object) : Reach → String
  | .object => Definition.qualify o.name
  | .instances => "::classes" ++ Definition.qualify o.name

/-- The path of a method of an object. -/
def Object.methodPath (o : Object) (reach : Reach) (name : String) : String :=
  o.methodSpace reach ++ "::" ++ name

/-- A method of an object, and its path. -/
def Object.definition? (o : Object) (reach : Reach) (name : String) : Option (String × Method) :=
  ((o.methods? reach).bind (·.get? name)).map fun method => (o.methodPath reach name, method)

/-- The method at a site, and its path. -/
def Heap.definition? (objects : Objects) (site : Site) : Option (String × Method) :=
  ((objects.get? site.on).filter (!·.deleted)).bind fun o => o.definition? site.reach site.name

/-- No two methods have the same path. -/
def Heap.PathsApart (objects : Objects) : Prop :=
  ∀ s t path method other, objects.definition? s = some (path, method) → objects.definition? t = some (path, other) →
    s = t

/-- The sites of the methods of an object. -/
def Object.sites (o : Object) (h : Handle) : List Site :=
  [Reach.object, Reach.instances].flatMap fun reach => ((o.methods? reach).getD .empty).names.map (⟨reach, h, ·⟩)

theorem Heap.exists_site {objects : Objects} {site : Site} {path : String} {method : Method}
    (defined : objects.definition? site = some (path, method)) :
    site.on ∈ objects.handles ∧ ∃ o, objects.get? site.on = some o ∧ site ∈ o.sites site.on := by
  obtain ⟨o, live, found⟩ := Option.bind_eq_some_iff.1 defined
  obtain ⟨here, -⟩ := Option.filter_eq_some_iff.1 live
  obtain ⟨m, taught, -⟩ := Option.map_eq_some_iff.1 found
  obtain ⟨table, isTable, listed⟩ := Option.bind_eq_some_iff.1 taught
  refine ⟨Heap.mem_handles here, o, here, List.mem_flatMap.2 ⟨site.reach, by cases site.reach <;> simp, ?_⟩⟩
  have taken : table.contains site.name = true := by
    rw [NameTable.contains, listed]
    rfl
  have member := Lifecycle.mem_names_of_contains taken
  rw [isTable]
  exact List.mem_map.2 ⟨site.name, member, rfl⟩

instance (objects : Objects) : Decidable objects.PathsApart :=
  decidable_of_iff (∀ h ∈ objects.handles, ∀ o ∈ objects.get? h, ∀ s ∈ o.sites h,
      ∀ k ∈ objects.handles, ∀ p ∈ objects.get? k, ∀ t ∈ p.sites k,
        ∀ x ∈ objects.definition? s, ∀ y ∈ objects.definition? t, x.1 = y.1 → s = t) <| by
    constructor
    · intro apart s t path method other first second
      obtain ⟨slot, o, found, listed⟩ := Heap.exists_site first
      obtain ⟨slot', p, found', listed'⟩ := Heap.exists_site second
      exact apart _ slot o found s listed _ slot' p found' t listed' _ first _ second rfl
    · intro apart h _ o _ s _ k _ p _ t _ x first y second same
      obtain ⟨path, method⟩ := x
      obtain ⟨path', other⟩ := y
      cases same
      exact apart s t path method other first second

/-! ## What definitions depend on -/

/-- What an object is called, and its methods. -/
def Object.equipment (o : Object) :=
  (o.deleted, o.name, fun reach => o.methods? reach)

namespace Object

theorem equipment_bare (o : Object) : o.equipment = o.bare.equipment := by
  refine Prod.ext rfl (Prod.ext rfl (funext fun reach => ?_))
  cases reach <;> simp [equipment, methods?, bare, core, withoutPrecedence, withoutOrders, Function.comp_def]

theorem equipment_core (o : Object) : o.equipment = o.core.equipment := by
  refine Prod.ext rfl (Prod.ext rfl (funext fun reach => ?_))
  cases reach <;> simp [equipment, methods?, core, Function.comp_def]

theorem equipment_apart (o : Object) : o.equipment = o.apart.equipment := by
  refine Prod.ext rfl (Prod.ext rfl (funext fun reach => ?_))
  cases reach <;> simp [equipment, methods?, apart, Function.comp_def]

theorem equipment_alone (o : Object) : o.equipment = o.alone.equipment :=
  o.equipment_apart

theorem methods?_mapMethods (reach other : Reach) (f : NameTable Method → NameTable Method) (o : Object) :
    (o.mapMethods reach f).methods? other = if other = reach then (o.methods? other).map f else o.methods? other := by
  cases reach <;> cases other <;> simp [methods?, mapMethods, mapClass, Function.comp_def]

theorem methodPath_mapMethods (reach : Reach) (f : NameTable Method → NameTable Method) (o : Object) :
    (o.mapMethods reach f).methodPath = o.methodPath := by
  cases reach <;> rfl

theorem definition?_congr {o p : Object} (same : o.equipment = p.equipment) : o.definition? = p.definition? := by
  have name : o.name = p.name := congrArg (·.2.1) same
  have methods : ∀ reach, o.methods? reach = p.methods? reach := fun reach => congrFun (congrArg (·.2.2) same) reach
  funext reach name'
  rw [definition?, definition?, methods]
  cases reach <;> simp only [methodPath, methodSpace, name]

end Object

section definitions

variable {v w : World} {h : Handle} {o : Object}

theorem World.definition?_eq (w : World) (site : Site) :
    w.objects.definition? site = (w.live? site.on).bind fun o => o.definition? site.reach site.name := rfl

theorem World.pathOf_eq {site : Site} (live : w.live? site.on = some o) :
    w.pathOf site = o.methodPath site.reach site.name := by
  have named : w.nameOf site.on = o.name := by
    rw [World.nameOf, Heap.nameOf, (World.live?_eq_some_iff.1 live).1]
    rfl
  obtain ⟨reach, on, name⟩ := site
  cases reach <;> simp only [pathOf, Definition.methodPath, Definition.objectMethodPath, Definition.instanceMethodPath,
    Object.methodPath, Object.methodSpace] at * <;> rw [named]

theorem World.definition?_eq_some_iff {site : Site} {path : String} {method : Method} :
    w.objects.definition? site = some (path, method) ↔ w.Defines site method ∧ w.pathOf site = path := by
  rw [w.definition?_eq]
  constructor
  · intro defined
    obtain ⟨o, live, found⟩ := Option.bind_eq_some_iff.1 defined
    obtain ⟨m, taught, same⟩ := Option.map_eq_some_iff.1 found
    obtain ⟨rfl, rfl⟩ := Prod.mk.inj same
    obtain ⟨table, isTable, listed⟩ := Option.bind_eq_some_iff.1 taught
    exact ⟨⟨o, table, live, isTable, listed⟩, w.pathOf_eq live⟩
  · rintro ⟨⟨o, table, live, isTable, listed⟩, rfl⟩
    rw [live, Option.bind_some, Object.definition?, isTable, Option.bind_some, listed, w.pathOf_eq live]
    rfl

theorem Heap.Alike.definition? {a b : Objects} (alike : Heap.Alike Object.equipment a b) :
    b.definition? = a.definition? := by
  funext site
  have same := alike.live? (v := { objects := a }) (w := { objects := b }) (h := site.on)
    fun _ _ same => congrArg Prod.fst same
  change ((World.live? { objects := b } site.on).bind _) = ((World.live? { objects := a } site.on).bind _)
  cases before : World.live? { objects := a } site.on with
  | none =>
    rw [before] at same
    rw [Option.map_eq_none_iff.1 same]
  | some o =>
    rw [before] at same
    obtain ⟨p, after, looks⟩ := Option.map_eq_some_iff.1 same
    rw [after, Option.bind_some, Option.bind_some, Object.definition?_congr looks]

theorem Heap.PathsApart.of_alike {a b : Objects} (apart : a.PathsApart) (alike : Heap.Alike Object.bare a b) :
    b.PathsApart := by
  unfold PathsApart
  rw [(alike.comp Object.equipment Object.equipment_bare).definition?]
  exact apart

/-- Newcomers without methods define nothing. -/
theorem Turnover.definition? {new : Object → Prop} (turnover : Turnover Object.apart new Nobody v w)
    (blank : ∀ p, new p → ∀ reach name, p.definition? reach name = none) :
    w.objects.definition? = v.objects.definition? := by
  have looks : ∀ {o p : Object}, p.apart = o.apart → p.definition? = o.definition? := fun {o p} same =>
    Object.definition?_congr (by rw [p.equipment_apart, same, ← o.equipment_apart])
  funext site
  rw [w.definition?_eq, v.definition?_eq]
  cases after : w.live? site.on with
  | none =>
    cases before : v.live? site.on with
    | none => rfl
    | some o =>
      obtain ⟨p, now, -⟩ := turnover.stays site.on o before id
      rw [after] at now
      cases now
  | some p =>
    rcases turnover.came site.on p after with ⟨vacant, new⟩ | ⟨o, before, same⟩
    · rw [vacant, Option.bind_some, Option.bind_none, ← blank _ new site.reach site.name]
      exact congrFun (congrFun (Object.definition?_congr p.equipment_apart) _) _
    · rw [before, Option.bind_some, Option.bind_some, looks same]

/-- An object that goes takes its definitions with it. -/
theorem Turnover.definition?_of_gone (turnover : Turnover Object.alone (fun _ => False) (· = h) v w) (site : Site) :
    w.objects.definition? site = if site.on = h then none else v.objects.definition? site := by
  rw [w.definition?_eq, v.definition?_eq]
  split
  · next here => rw [turnover.left _ here, Option.bind_none]
  · next other =>
    cases before : v.live? site.on with
    | none =>
      cases after : w.live? site.on with
      | none => rfl
      | some p =>
        rcases turnover.came site.on p after with ⟨-, no⟩ | ⟨o, there, -⟩
        · exact no.elim
        · rw [before] at there
          cases there
    | some o =>
      obtain ⟨p, after, same⟩ := turnover.stays site.on o before other
      have looks : p.definition? = o.definition? :=
        Object.definition?_congr (by rw [p.equipment_alone, same, ← o.equipment_alone])
      rw [after, Option.bind_some, Option.bind_some, looks]

/-- A change of one method table. -/
theorem World.definition?_mapMethods {reach : Reach} {table : NameTable Method} (live : v.live? h = some o)
    (found : o.methods? reach = some table) (f : NameTable Method → NameTable Method)
    (objects : w.objects = v.objects.modify h (Object.mapMethods reach f)) (site : Site) :
    w.objects.definition? site = if site.reach = reach ∧ site.on = h then
        ((f table).get? site.name).map fun method => (o.methodPath reach site.name, method)
      else v.objects.definition? site := by
  have remade : Heap.Remade _ v.objects w.objects :=
    objects ▸ Heap.Remade.modify v.objects h (Object.mapMethods reach f)
  have kept : ∀ p : Object, (p.mapMethods reach f).deleted = p.deleted := fun p => by cases reach <;> rfl
  rw [w.definition?_eq, v.definition?_eq, remade.live? fun k p => by split; exacts [kept p, rfl]]
  by_cases here : site.on = h
  · rw [here, live, Option.map_some, if_pos rfl, Option.bind_some, Option.bind_some, Object.definition?,
      Object.methods?_mapMethods, Object.methodPath_mapMethods]
    by_cases same : site.reach = reach
    · rw [if_pos same, if_pos ⟨same, rfl⟩, same, found]
      rfl
    · rw [if_neg same, if_neg fun both => same both.1]
      rfl
  · rw [if_neg fun both => here both.2]
    simp [here]

/-- If it changes under one name only, no more than one definition changes. -/
theorem World.definition?_update {reach : Reach} {table : NameTable Method} (live : v.live? h = some o)
    (found : o.methods? reach = some table) {f : NameTable Method → NameTable Method} (name : String)
    (others : ∀ n, n ≠ name → (f table).get? n = table.get? n)
    (objects : w.objects = v.objects.modify h (Object.mapMethods reach f)) :
    w.objects.definition? = Function.update v.objects.definition? ⟨reach, h, name⟩
      (((f table).get? name).map fun method => (o.methodPath reach name, method)) := by
  funext site
  rw [World.definition?_mapMethods live found f objects]
  by_cases here : site = ⟨reach, h, name⟩
  · subst here
    rw [if_pos ⟨rfl, rfl⟩, Function.update_self]
  rw [Function.update_of_ne here]
  split
  · next both =>
    obtain ⟨other, on, n⟩ := site
    obtain ⟨rfl, rfl⟩ := both
    have apart : n ≠ name := fun same => here (by rw [same])
    rw [v.definition?_eq, others n apart]
    change _ = (v.live? on).bind _
    rw [live, Option.bind_some, Object.definition?, found, Option.bind_some]
  · rfl

end definitions

/-! ## Names that keep paths apart -/

/-- Objects have names of their own, none is called like a class under the prefix of classes, and no method has a colon
in its name. -/
structure Heap.PlainlyNamed (objects : Objects) : Prop where
  own : ∀ h k o p, objects.get? h = some o → objects.get? k = some p → o.deleted = false → p.deleted = false →
    Definition.qualify o.name = Definition.qualify p.name → h = k
  apart : ∀ h k o p, objects.get? h = some o → objects.get? k = some p → o.deleted = false → p.deleted = false →
    p.isClass = true → Definition.qualify o.name ≠ "::classes" ++ Definition.qualify p.name
  methods : ∀ site path method, objects.definition? site = some (path, method) → ':' ∉ site.name.toList

/-- Behind its last separator a path goes on with the name of the method. -/
private theorem eq_of_separated {a b m n : String} (plain : ':' ∉ m.toList) (plain' : ':' ∉ n.toList)
    (same : a ++ "::" ++ m = b ++ "::" ++ n) : a = b ∧ m = n := by
  have last : ∀ {a b m n : List Char}, ':' ∉ m → ':' ∉ n → a ++ ':' :: m = b ++ ':' :: n → a = b ∧ m = n := by
    intro a b m n plain plain' same
    rcases List.append_eq_append_iff.1 same with ⟨c, rfl, rest⟩ | ⟨c, rfl, rest⟩
    · cases c with
      | nil => exact ⟨(List.append_nil a).symm, (List.cons.inj rest).2⟩
      | cons x c =>
        obtain ⟨-, rfl⟩ := List.cons.inj rest
        exact absurd (List.mem_append_right c List.mem_cons_self) plain
    · cases c with
      | nil => exact ⟨List.append_nil b, (List.cons.inj rest).2.symm⟩
      | cons x c =>
        obtain ⟨-, rfl⟩ := List.cons.inj rest
        exact absurd (List.mem_append_right c List.mem_cons_self) plain'
  have chars : (a.toList ++ [':']) ++ ':' :: m.toList = (b.toList ++ [':']) ++ ':' :: n.toList := by
    have both := congrArg String.toList same
    simpa [String.toList_append] using both
  obtain ⟨front, back⟩ := last plain plain' chars
  exact ⟨String.toList_inj.1 (List.append_cancel_right front), String.toList_inj.1 back⟩

theorem Heap.PlainlyNamed.pathsApart {objects : Objects} (plain : objects.PlainlyNamed) : objects.PathsApart := by
  intro s t path method other first second
  have colons := plain.methods s path method first
  have colons' := plain.methods t path other second
  obtain ⟨⟨o, table, live, isTable, -⟩, rfl⟩ := (World.definition?_eq_some_iff (w := { objects })).1 first
  obtain ⟨⟨p, table', live', isTable', -⟩, same⟩ := (World.definition?_eq_some_iff (w := { objects })).1 second
  rw [World.pathOf_eq live, World.pathOf_eq live'] at same
  obtain ⟨found, here⟩ := World.live?_eq_some_iff.1 live
  obtain ⟨found', here'⟩ := World.live?_eq_some_iff.1 live'
  obtain ⟨reach, on, name⟩ := s
  obtain ⟨reach', on', name'⟩ := t
  have isClass : ∀ {x : Object} {table : NameTable Method}, x.methods? .instances = some table → x.isClass = true := by
    intro x table isTable
    obtain ⟨part, isPart, -⟩ := Option.map_eq_some_iff.1 isTable
    rw [Object.isClass, isPart]
    rfl
  have separated : p.methodSpace reach' ++ "::" ++ name' = o.methodSpace reach ++ "::" ++ name := same
  obtain ⟨spaces, rfl⟩ := eq_of_separated colons' colons separated
  cases reach with
  | object =>
    cases reach' with
    | object => rw [plain.own on on' o p found found' here here' spaces.symm]
    | instances => exact absurd spaces.symm (plain.apart on on' o p found found' here here' (isClass isTable'))
  | instances =>
    cases reach' with
    | object => exact absurd spaces (plain.apart on' on p o found' found here' here (isClass isTable))
    | instances => rw [plain.own on on' o p found found' here here' ((String.append_right_inj _).1 spaces).symm]

end DynamicObjects
