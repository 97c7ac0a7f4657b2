import DynamicObjects.Inspection
import DynamicObjects.Proofs.Runs.Privacy
import DynamicObjects.Proofs.Runs.Unanswered

/-!
# Listing method names

A name is listed for an object if the object itself has a method of this name that is not private, or one of its classes
has that is no root class. A call that no filter and no mixin takes part in goes by one definition, the first that is not
private, and asks whether the caller may use that one. So a name that is listed can be called from outside unless its first
definition is protected, or for classes only on what is no class; and what can be called without being listed is given by
a root class.
-/
namespace DynamicObjects

open Invocation

/-! ## Names of tables -/

namespace NameTable

variable {α : Type u} {t : NameTable α} {name : String}

/-- As names do not repeat, an entry is what is found under its name. -/
theorem mem_entries {a : α} : (name, a) ∈ t.entries ↔ t.get? name = some a := by
  obtain ⟨entries, sorted⟩ := t
  change _ ↔ find name entries = some a
  induction entries with
  | nil => simp [find]
  | cons e rest ih =>
    obtain ⟨n, b⟩ := e
    obtain ⟨after, sorted⟩ := List.pairwise_cons.1 sorted
    unfold find
    by_cases here : n = name
    · subst here
      have alone : ∀ a, (n, a) ∉ rest := fun a later => String.lt_irrefl n (after (n, a) later)
      simp [alone, eq_comm]
    · simp [here, ih sorted, Ne.symm here]

theorem mem_names : name ∈ t.names ↔ ∃ a, t.get? name = some a := by
  simp [names, mem_entries]

theorem pairwise_names (t : NameTable α) : t.names.Pairwise (· < ·) :=
  List.pairwise_map.2 t.sorted

end NameTable

namespace Definition

theorem mem_addVisible {methods : NameTable Method} {names : NameTable Unit} {name : String} :
    name ∈ (addVisible methods names).names ↔
      name ∈ names.names ∨ ∃ method, methods.get? name = some method ∧ method.isPrivate = false := by
  simp only [← NameTable.mem_entries]
  unfold addVisible
  induction methods.entries generalizing names with
  | nil => simp
  | cons e rest ih =>
    obtain ⟨n, method⟩ := e
    rw [List.foldl_cons, ih]
    cases isPrivate : method.isPrivate <;> by_cases here : name = n <;>
      simp [NameTable.mem_names, isPrivate, here]

/-- Adds the names of a class, unless it is a root class. -/
def collect (names : NameTable Unit) (c : Handle) : Update (NameTable Unit) := do
  if (← get).isRoot c then return names
  return addVisible (← Update.classPart c).methods names

end Definition

/-! ## What is listed -/

namespace World

variable {w : World} {h : Handle} {o : Object} {name : String} {loose : Handle → Prop}

/-- What an object and the classes of its order define under a name, in the order in which they are searched. -/
def definitionsOf (w : World) (o : Object) (name : String) : List Found :=
  ownDefinition o name ++ w.definitions name (Hierarchy.givenOrder w.objects o.cls)

/-- Private definitions and those of root classes are not listed. -/
def lists (w : World) (found : Found) : Bool :=
  !found.1.isPrivate && found.2.all (!w.isRoot ·)

theorem mem_definitions {classes : List Handle} {found : Found} : found ∈ w.definitions name classes ↔
    ∃ c ∈ classes, w.definedIn name c = some found.1 ∧ found.2 = some c := by
  obtain ⟨method, definer⟩ := found
  simp [definitions, Prod.ext_iff, eq_comm, and_left_comm]

theorem mem_ownDefinition {found : Found} :
    found ∈ ownDefinition o name ↔ o.methods.get? name = some found.1 ∧ found.2 = none := by
  obtain ⟨method, definer⟩ := found
  simp [ownDefinition, Prod.ext_iff, eq_comm]

theorem comesTo_collect {c : Handle} (cls : w.isClass c = true) (names : NameTable Unit) :
    ComesTo w (fun all => ∀ n, n ∈ all.names ↔ n ∈ names.names ∨ ∃ found ∈ w.definitions n [c], w.lists found = true)
      (Definition.collect names c) := by
  unfold Definition.collect
  refine .get_bind fun a filled => ?_
  rw [filled.isRoot]
  refine .ite (fun root => .pure fun n => ?_) fun inner => (ComesTo.classPart cls).bind fun part reads => .pure fun n => ?_
  · simp [mem_definitions, lists, root]
  · rw [Definition.mem_addVisible, reads.methods]
    simp [mem_definitions, lists, inner, and_assoc]

theorem comesTo_visibleNames (well : WellFormed loose w) (live : w.live? h = some o) :
    ComesTo w (fun names => names.Pairwise (· < ·) ∧
      ∀ n, n ∈ names ↔ ∃ found ∈ w.definitionsOf o n, w.lists found = true) (Definition.visibleNames h) := by
  have isClass : w.isClass o.cls = true := well.classed.cls h o live
  have steps : Definition.visibleNames h = (do
      let o ← Update.object h
      let classes ← Update.precedenceOrder o.cls
      let names ← classes.foldlM Definition.collect (Definition.addVisible o.methods {})
      return names.names) := rfl
  rw [steps]
  apply (ComesTo.object live).bind
  intro p reads
  rw [reads.cls, reads.methods]
  apply (ComesTo.precedenceOrder well isClass).bind
  rintro order rfl
  have collected := ComesTo.foldlM (w := w) (x := Definition.addVisible o.methods {}) (f := Definition.collect)
    (fun before all => ∀ n, n ∈ all.names ↔
      ∃ found ∈ ownDefinition o n ++ w.definitions n before, w.lists found = true)
    (Hierarchy.givenOrder w.objects o.cls) (fun n => ?start) ?each
  case start =>
    rw [Definition.mem_addVisible]
    simp [NameTable.names, definitions, mem_ownDefinition, lists]
  case each =>
    intro before c inside names so
    refine (comesTo_collect (well.isClass_of_mem_givenOrder isClass inside) names).mono fun all adds n => ?_
    rw [adds, so]
    simp only [definitions, List.filterMap_append, ← List.append_assoc, List.mem_append, or_and_right, exists_or]
  refine collected.bind fun all members => .pure ⟨all.pairwise_names, members⟩

end World

section users

variable {v w : World} {h : Handle} {names : List String} (done : (Definition.visibleNames h).exec w = (.ok names, v))

include done

/-- Without a pattern, everything is listed. -/
theorem exec_methodNames_of_visible : (Inspection.methodNames h none).exec w = (.ok names, v) := by
  unfold Inspection.methodNames Inspection.readPattern
  rw [Update.exec_bind_of_ok (Update.exec_pure _ w), Update.exec_bind_of_ok done]
  simp [Inspection.isListed]

theorem exec_unknownSubMethod_of_visible (receiver : Handle) (path sub : String) :
    (unknownSubMethod receiver h path sub).exec w =
      some (.ok (.unknownSubMethod (v.nameOf receiver) path sub (", ".intercalate names)), v) := by
  unfold unknownSubMethod
  rw [Action.exec_settle_bind, Action.exec_liftM, done]
  rfl

end users

/-! ## What can be called -/

theorem mem_of_firstPublic {definitions : List Found} {found : Found} (first : firstPublic definitions = some found) :
    found ∈ definitions ∧ found.1.isPrivate = false :=
  ⟨List.mem_of_find?_eq_some first, by simpa using List.find?_some first⟩

/-- A call that no filter and no mixin takes part in. -/
def CallModifiers.intrinsic : CallModifiers :=
  { intrinsicOnly := true }

namespace World

variable {w : World} {h : Handle} {o : Object} {name : String} {host : Host}

/-- Whether a method may be called on an object from outside. -/
def offers (w : World) (h : Handle) (method : Method) : Bool :=
  method.visibility == .everyone && (!method.classOnly || w.isClass h)

/-- Whether a call that no filter and no mixin takes part in finds a method. -/
def Resolves (w : World) (host : Host) (h : Handle) (name : String) : Prop :=
  ∃ found v, (resolve host h name .intrinsic).exec w = some (.ok (some found), v)

theorem offers_iff {method : Method} (isPublic : method.isPrivate = false) : w.offers h method = true ↔
    method.visibility ≠ .receiver ∧ (method.classOnly = true → w.isClass h = true) := by
  unfold offers
  revert isPublic
  unfold MethodOf.isPrivate
  cases method.visibility <;> cases method.classOnly <;> simp

/-- Where something is listed, there is a first definition. -/
theorem exists_firstPublic_of_lists {found : Found} (member : found ∈ w.definitionsOf o name)
    (shown : w.lists found = true) : ∃ first, firstPublic (w.definitionsOf o name) = some first :=
  Option.isSome_iff_exists.1 (List.find?_isSome.2 ⟨found, member, (Bool.and_eq_true_iff.1 shown).1⟩)

/-- Where nothing is listed, the first definition is that of a root class. -/
theorem isRoot_of_not_lists {method : Method} {definer : Option Handle}
    (first : firstPublic (w.definitionsOf o name) = some (method, definer))
    (hidden : ¬ ∃ found ∈ w.definitionsOf o name, w.lists found = true) :
    ∃ root, definer = some root ∧ w.isRoot root = true := by
  obtain ⟨member, isPublic⟩ := mem_of_firstPublic first
  have hides : w.lists (method, definer) = false := Bool.eq_false_iff.2 fun shown => hidden ⟨_, member, shown⟩
  unfold lists at hides
  rw [isPublic, Bool.not_false, Bool.true_and] at hides
  cases definer with
  | none => cases hides
  | some root => exact ⟨root, rfl, by simpa using hides⟩

/-- Outside of all methods, nobody is the receiver. -/
theorem permitted_eq_offers (outside : w.stack.active? = none) (h : Handle) (method : Method) :
    permitted w h method = w.offers h method := by
  unfold permitted offers callerSelf?
  rw [outside]
  cases method.visibility <;> simp [Bool.and_comm]

theorem permitted_consulted {v : World} (consulted : Consulted w v) (h : Handle) (method : Method) :
    permitted v h method = permitted w h method := by
  have isClass : v.isClass h = w.isClass h := Heap.Alike.isClass <| consulted.alike.comp Object.identity fun o => by
    simp [Object.identity, Object.isClass, Object.unordered, Object.withoutPrecedence]
  unfold permitted callerSelf?
  rw [isClass, consulted.aside]

theorem definitions_consulted {v : World} (consulted : Consulted w v) (name : String) (classes : List Handle) :
    v.definitions name classes = w.definitions name classes := by
  have teaching : Heap.Alike Object.teaching w.objects v.objects := consulted.alike.placing.comp (·.2.2.2) fun _ => rfl
  unfold definitions definedIn
  congr 1
  funext c
  rw [Heap.taught_of_teaching teaching]

/-- A qualified name is looked up in the registry, and nobody is asked. -/
theorem exec_resolve_qualified (qualified : Definition.isQualified name = true) (mods : CallModifiers) :
    (resolve host h name mods).exec w = some (.ok ((w.registry.get? name).map fun r =>
      { method := r.method, definer := if r.perObject then none else r.owner, kind := .plain, name }), w) := by
  have alone : interceptable name mods = false := by simp [interceptable, qualified]
  unfold resolve resolvePlain searchRegistry
  rw [alone]
  simp only [Bool.not_false, if_true, qualified, Bool.true_or, Bool.not_true, Bool.false_and, Bool.false_eq_true,
    if_false]
  rw [Action.exec_liftM, Update.exec_bind_of_ok (Update.exec_get w), Update.exec_bind_of_ok (Update.exec_pure _ w)]
  cases w.registry.get? name <;> rfl

/-- Permissions are asked for and change nothing. -/
theorem exists_exec_permit (mods : CallModifiers) (found : Option Found) (w : World) :
    ∃ resolved, (permit h name mods found).exec w = (.ok resolved, w) := by
  match found with
  | none => exact ⟨none, rfl⟩
  | some (method, definer) =>
    unfold permit
    rw [Update.exec_bind_of_ok (Update.exec_get w), Update.exec_ite]
    split
    · exact ⟨none, rfl⟩
    · exact ⟨_, rfl⟩

/-- Without filters and mixins, a call goes by the first definition that is not private. -/
theorem exec_resolve_intrinsic (proper : Proper w) (current : MixinOrdersCurrent w) (live : w.live? h = some o)
    (simple : Definition.isQualified name = false) : ∃ resolved v, Consulted w v ∧
      (resolve host h name .intrinsic).exec w = some (.ok resolved, v) ∧
      resolved.map (fun r => (r.method, r.definer)) =
        (firstPublic (w.definitionsOf o name)).filter fun found => permitted w h found.1 := by
  have alone : interceptable name .intrinsic = false := by simp [interceptable, CallModifiers.intrinsic]
  obtain ⟨b, found, filled, searched, -⟩ := (located_lineup proper live name).exec_searchObject proper
  change (searchObject h name).exec w = _ at searched
  obtain ⟨resolved, plain⟩ := @exists_exec_permit h name .intrinsic found { w with objects := b }
  have ended : (resolvePlain h name .intrinsic).exec w = (.ok resolved, { w with objects := b }) := by
    rw [resolvePlain_eq rfl simple]
    exact (Update.exec_bind_of_ok searched _).trans plain
  obtain ⟨order, a, ordered, drawn, rfl⟩ := (ComesTo.precedenceOrder proper (proper.classed.cls h o live)).exec proper.kept
  have first := firstPublic_of_resolvePlain live ordered simple rfl rfl ended
  rw [definitions_consulted (.filled proper current drawn)] at first
  simp only [permitted_consulted (.filled proper current filled)] at first
  refine ⟨resolved, _, .filled proper current filled, ?_, first⟩
  unfold resolve
  rw [alone]
  exact congrArg some ended

theorem resolves_iff (proper : Proper w) (current : MixinOrdersCurrent w) (live : w.live? h = some o)
    (simple : Definition.isQualified name = false) : w.Resolves host h name ↔
      ∃ found, firstPublic (w.definitionsOf o name) = some found ∧ permitted w h found.1 = true := by
  obtain ⟨resolved, v, -, ended, is⟩ := @exec_resolve_intrinsic w h o name host proper current live simple
  have some : w.Resolves host h name ↔ resolved.isSome = true := by
    unfold Resolves
    rw [ended]
    simp [Option.isSome_iff_exists]
  rw [some, ← Option.isSome_map, is, Option.isSome_iff_exists]
  simp [Option.filter_eq_some_iff]

end World

/-- The names that are listed for an object, and what calls of them come to that no filter and no mixin takes part in. -/
structure World.ListsMethods (w : World) (host : Host) (h : Handle) (o : Object) (names : List String) : Prop where
  /-- Every name is listed once, in order. -/
  given : names.Pairwise (· < ·) ∧ ∃ v, Consulted w v ∧ (Inspection.methodNames h none).exec w = (.ok names, v)
  /-- Where a call misses a sub-method of the object, the failure tells the same names. -/
  told : ∀ receiver path sub, ∃ v, Consulted w v ∧ (unknownSubMethod receiver h path sub).exec w =
    some (.ok (.unknownSubMethod (w.nameOf receiver) path sub (", ".intercalate names)), v)
  /-- A name is listed if the object or a class that is no root class has a definition of it that is not private. -/
  listed : ∀ name, name ∈ names ↔ ∃ found ∈ w.definitionsOf o name, w.lists found = true
  /-- A call looks for the first definition that is not private, and finds it if the caller may use it. -/
  finds : ∀ {name}, Definition.isQualified name = false → ∃ resolved v, Consulted w v ∧
    (resolve host h name .intrinsic).exec w = some (.ok resolved, v) ∧
    resolved.map (fun r => (r.method, r.definer)) =
      (firstPublic (w.definitionsOf o name)).filter fun found => permitted w h found.1
  /-- What is found is entered; a call that finds nothing is answered as one of an unknown method. -/
  calls : w.stack.depth < w.settings.maxDepth → ∀ {name resolved v} args,
    (resolve host h name .intrinsic).exec w = some (.ok resolved, v) → (call host h name args .intrinsic).exec w =
      (resolved.elim (answerNotFound host h name args .intrinsic) (enter host h name · args .intrinsic)).exec v
  /-- A qualified name means what is registered under it, whatever is defined. -/
  registered : ∀ {name}, Definition.isQualified name = true →
    (w.Resolves host h name ↔ (w.registry.get? name).isSome = true)
  /-- From outside, the first definition has to be one for everyone, and for all objects or on a class. -/
  resolves : w.stack.active? = none → ∀ {name}, Definition.isQualified name = false →
    (w.Resolves host h name ↔ ∃ found, firstPublic (w.definitionsOf o name) = some found ∧ w.offers h found.1 = true)
  /-- So a listed name can be called from outside unless its first definition is protected, or for classes only on what is
  no class. -/
  callable : w.stack.active? = none → ∀ {name}, Definition.isQualified name = false → name ∈ names →
    (w.Resolves host h name ↔ ∀ found, firstPublic (w.definitionsOf o name) = some found →
      found.1.visibility ≠ .receiver ∧ (found.1.classOnly = true → w.isClass h = true))
  /-- What can be called without being listed is given by a root class, behind private definitions if there are others. -/
  unlisted : ∀ {name}, Definition.isQualified name = false → name ∉ names → w.Resolves host h name →
    ∃ method root, firstPublic (w.definitionsOf o name) = some (method, some root) ∧ w.isRoot root = true

/-- A class `C` with a method for everyone, a protected one, one for classes only and a private one. The root class has a
method for everyone of the same name as the private one. -/
def listingSession : List Expr :=
  [foundation, Trial.createClass "C", Trial.define .instances "C" (Trial.method "open" (Trial.text "open")),
    Trial.define .instances "C" { Trial.method "guarded" (Trial.text "guarded") with visibility := .receiver },
    Trial.define .instances "C" { Trial.method "meta" (Trial.text "meta") with classOnly := true },
    Trial.define .instances "C" { Trial.method "base" (Trial.text "hidden") with visibility := .hidden },
    Trial.define .instances "Object" (Trial.method "base" (Trial.text "base")), Trial.createObject "o" "C"]

def listingWorld : World :=
  (sessionWithin Heap.HandlesRemain 3 listingSession).get (by decide +kernel)

theorem reachable_listingWorld : Reachable Heap.HandlesRemain listingWorld :=
  .sessionWithin (Option.some_get _).symm

/-- Wherever a reachable world has come to, the method names of a live object are listed by what is not private, while
calls also go by who may use the first definition. -/
theorem Reachable.listsMethods {v w : World} (reached : Reachable Heap.HandlesRemain v)
    (path : Evolves Heap.HandlesRemain v w) {h : Handle} {o : Object} (live : w.live? h = some o) (host : Host) :
    ∃ names, w.ListsMethods host h o names := by
  have remains : ∀ a : Objects, a.HandlesRemain → a.HandlesRemain := fun _ remain => remain
  have proper := (reached.proper remains).evolves remains path
  have current := reached.mixinOrdersCurrent.evolves remains (reached.proper remains) path
  obtain ⟨names, b, done, filled, sorted, listed⟩ := (World.comesTo_visibleNames proper live).exec proper.kept
  have consulted : Consulted w { w with objects := b } := .filled proper current filled
  have fromOutside : w.stack.active? = none → ∀ {name}, Definition.isQualified name = false →
      (w.Resolves host h name ↔
        ∃ found, firstPublic (w.definitionsOf o name) = some found ∧ w.offers h found.1 = true) := by
    intro outside name simple
    simp only [World.resolves_iff proper current live simple, World.permitted_eq_offers outside]
  refine ⟨names, ?_⟩
  constructor
  case given => exact ⟨sorted, _, consulted, exec_methodNames_of_visible done⟩
  case told =>
    intro receiver path sub
    rw [← consulted.nameOf]
    exact ⟨_, consulted, exec_unknownSubMethod_of_visible done receiver path sub⟩
  case listed => exact listed
  case finds => exact World.exec_resolve_intrinsic proper current live
  case calls => exact fun room name resolved x args => exec_call_of_resolve args live room
  case registered =>
    intro name qualified
    unfold World.Resolves
    rw [World.exec_resolve_qualified qualified]
    simp [Option.isSome_iff_exists]
  case resolves => exact fromOutside
  case callable =>
    intro outside name simple isListed
    obtain ⟨found, member, shown⟩ := (listed name).1 isListed
    obtain ⟨first, is⟩ := World.exists_firstPublic_of_lists member shown
    rw [fromOutside outside simple, is]
    simp [World.offers_iff (mem_of_firstPublic is).2]
  case unlisted =>
    intro name simple missing comes
    obtain ⟨⟨method, definer⟩, is, -⟩ := (World.resolves_iff proper current live simple).1 comes
    obtain ⟨root, rfl, isRoot⟩ := World.isRoot_of_not_lists is (missing ∘ (listed name).2)
    exact ⟨method, root, is, isRoot⟩

/-- The method for everyone is listed for the instance, and can be called. -/
theorem listsMethods_listing : ∃ names v, (Inspection.methodNames ⟨3, 0⟩ none).exec listingWorld = (.ok names, v) ∧
    "open" ∈ names ∧ listingWorld.Resolves (hostWithin Heap.HandlesRemain 1) ⟨3, 0⟩ "open" := by
  have defined : ((listingWorld.live? ⟨3, 0⟩).any fun o =>
      (listingWorld.definitionsOf o "open").any listingWorld.lists &&
        (firstPublic (listingWorld.definitionsOf o "open")).all fun found =>
          found.1.visibility == .everyone && !found.1.classOnly) = true := by
    decide +kernel
  have outside : listingWorld.stack.active?.isNone = true := by decide +kernel
  obtain ⟨o, live, holds⟩ := Option.any_eq_true .. |>.1 defined
  obtain ⟨shown, first⟩ := Bool.and_eq_true_iff.1 holds
  obtain ⟨names, lists⟩ := Reachable.listsMethods reachable_listingWorld .refl live (hostWithin Heap.HandlesRemain 1)
  have member : "open" ∈ names := (lists.listed "open").2 (List.any_eq_true.1 shown)
  obtain ⟨-, v, -, given⟩ := lists.given
  refine ⟨names, v, given, member, ?_⟩
  refine (lists.callable (Option.isNone_iff_eq_none.1 outside) (by decide +kernel) member).2 fun found is => ?_
  rw [is, Option.all_some, Bool.and_eq_true, beq_iff_eq, Bool.not_eq_true'] at first
  rw [first.1, first.2]
  exact ⟨nofun, nofun⟩

/-- The methods that are protected or for classes only are listed for the instance, but nobody can call them on it from
outside; that of the root class is not listed, but can be called. -/
theorem not_resolves_of_listed : Reachable Heap.HandlesRemain listingWorld ∧
    listingWorld.stack.active?.isNone = true ∧
    ((Inspection.methodNames ⟨3, 0⟩ none).exec listingWorld).1.toOption = some ["guarded", "meta", "open"] ∧
    (∀ name ∈ ["guarded", "meta"], ((resolve (hostWithin Heap.HandlesRemain 1) ⟨3, 0⟩ name .intrinsic).exec
      listingWorld).map (·.1.toOption.map Option.isSome) = some (some false)) ∧
    ((resolve (hostWithin Heap.HandlesRemain 1) ⟨3, 0⟩ "base" .intrinsic).exec listingWorld).map
      (·.1.toOption.map Option.isSome) = some (some true) := by
  rw [hostWithin_eq_hostChecking]
  refine ⟨reachable_listingWorld, by decide +kernel, by decide +kernel, by decide +kernel, by decide +kernel⟩

end DynamicObjects
