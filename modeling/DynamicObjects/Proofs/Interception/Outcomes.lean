import DynamicObjects.Proofs.Hierarchy.Agreement
import DynamicObjects.Proofs.Interception.Computation

/-!
# What computing orders comes to

Computing an order asks for precedence orders, which are then kept, and reads what is registered and defined. What it
comes to can therefore be told from the world it starts in, whatever precedence orders are kept at any moment. There is
one rule for each way in which such computations are put together.
-/
namespace DynamicObjects

variable {α β ι : Type} {loose : Handle → Prop} {w : World}

/-- Whatever precedence orders are kept, the update ends well, its outcome is as described, and it changes nothing but
which precedence orders are kept. -/
def ComesTo (w : World) (described : α → Prop) (u : Update α) : Prop :=
  ∀ a, Filled w.objects a → ∃ x b,
    u.exec { w with objects := a } = (.ok x, { w with objects := b }) ∧ Filled w.objects b ∧ described x

namespace ComesTo

variable {u : Update α} {p : α → Prop} {q : β → Prop}

theorem pure {x : α} (holds : p x) : ComesTo w p (Pure.pure x : Update α) :=
  fun a filled => ⟨x, a, rfl, filled, holds⟩

theorem bind {f : α → Update β} (first : ComesTo w p u) (rest : ∀ x, p x → ComesTo w q (f x)) :
    ComesTo w q (u >>= f) := by
  intro a filled
  obtain ⟨x, b, done, filled, holds⟩ := first a filled
  rw [Update.exec_bind_of_ok done]
  exact rest x holds b filled

theorem mono {weaker : α → Prop} (comes : ComesTo w p u) (less : ∀ x, p x → weaker x) : ComesTo w weaker u := by
  intro a filled
  obtain ⟨x, b, done, filled, holds⟩ := comes a filled
  exact ⟨x, b, done, filled, less x holds⟩

/-- The world at a moment is the one from the start, but for the precedence orders that are kept. -/
theorem get_bind {f : World → Update β}
    (rest : ∀ a, Filled w.objects a → ComesTo w q (f { w with objects := a })) : ComesTo w q (get >>= f) := by
  intro a filled
  rw [Update.exec_bind_of_ok (Update.exec_get _)]
  exact rest a filled a filled

theorem ite {c : Prop} [Decidable c] {v : Update α} (yes : c → ComesTo w p u) (no : ¬c → ComesTo w p v) :
    ComesTo w p (if c then u else v) := by
  split
  · next holds => exact yes holds
  · next fails => exact no fails

/-- What is described may mention the part of the list that is done. -/
theorem foldlM (described : List ι → α → Prop) {f : α → ι → Update α} (is : List ι) {x : α}
    (start : described [] x)
    (each : ∀ before i, i ∈ is → ∀ x, described before x → ComesTo w (described (before ++ [i])) (f x i)) :
    ComesTo w (described is) (is.foldlM f x) := by
  have onward : ∀ (rest before : List ι) x, rest ⊆ is → described before x →
      ComesTo w (described (before ++ rest)) (rest.foldlM f x) := by
    intro rest
    induction rest with
    | nil =>
      intro before x _ holds
      rw [List.append_nil]
      exact .pure holds
    | cons i rest ih =>
      intro before x inside holds
      rw [List.foldlM_cons, List.append_cons]
      exact (each before i (inside List.mem_cons_self) x holds).bind fun y holds =>
        ih (before ++ [i]) y (fun j later => inside (List.mem_cons_of_mem i later)) holds
  exact onward is [] x (List.Subset.refl is) start

/-- So the world itself is left with an outcome as described. -/
theorem exec (comes : ComesTo w p u) (kept : Hierarchy.OrdersKept w.objects) :
    ∃ x b, u.exec w = (.ok x, { w with objects := b }) ∧ Filled w.objects b ∧ p x :=
  comes w.objects (.refl kept)

end ComesTo

namespace World

/-- What a class defines under a name. -/
def definedIn (w : World) (name : String) (c : Handle) : Option Method :=
  (w.objects.class? c).bind (·.methods.get? name)

/-- The filters registered on an object or class. -/
def filtersOf (w : World) (reach : Reach) (h : Handle) : List Filter :=
  ((w.registrations? reach h).map (·.filters)).getD []

/-- `part` is read as the class part of `c`. -/
structure ReadsClass (w : World) (c : Handle) (part : ClassPart) : Prop where
  mixins : part.registrations.mixins = w.mixinsOf .instances c
  filters : part.registrations.filters = w.filtersOf .instances c
  methods : ∀ name, part.methods.get? name = w.definedIn name c

/-- `p` is read as the object `o`. -/
structure ReadsObject (o p : Object) : Prop where
  cls : p.cls = o.cls
  registrations : p.registrations = o.registrations
  methods : p.methods = o.methods

end World

namespace ComesTo

theorem object {h : Handle} {o : Object} (live : w.live? h = some o) :
    ComesTo w (World.ReadsObject o) (Update.object h) := by
  intro a filled
  obtain ⟨p, here, same⟩ := filled.exists_live live
  exact ⟨p, a, Update.exec_object_of_live here, filled,
    ⟨(congrArg Object.cls same :), (congrArg Object.registrations same :), (congrArg Object.methods same :)⟩⟩

theorem classPart {c : Handle} (cls : w.isClass c = true) : ComesTo w (w.ReadsClass c) (Update.classPart c) := by
  intro a filled
  obtain ⟨o, part, live, isPart⟩ := World.isClass_iff.1 cls
  obtain ⟨part', done, same⟩ := filled.exec_classPart live isPart
  have registrations : part'.registrations = part.registrations := (congrArg ClassPart.registrations same :)
  have methods : part'.methods = part.methods := (congrArg ClassPart.methods same :)
  refine ⟨part', a, done, filled, ?_⟩
  constructor
  case mixins =>
    simp [registrations, World.mixinsOf, World.registrations?, live, Object.registrations?, isPart]
  case filters =>
    simp [registrations, World.filtersOf, World.registrations?, live, Object.registrations?, isPart]
  case methods =>
    intro name
    rw [methods, World.definedIn, Heap.class?, (World.live?_eq_some_iff.1 live).1, Option.bind_some, isPart,
      Option.bind_some]

theorem precedenceOrder (well : WellFormed loose w) {c : Handle} (cls : w.isClass c = true) :
    ComesTo w (· = Hierarchy.givenOrder w.objects c) (Update.precedenceOrder c) := by
  intro a filled
  have well' : WellFormed loose { w with objects := a } := well.filled filled rfl rfl
  obtain ⟨order, b, done, lin, more⟩ := well'.exec_precedenceOrder ((filled.isClass c).trans cls)
  have supers : a.supersOf = w.objects.supersOf := filled.alike.supersOf
  change Hierarchy.Linearizes a.supersOf c order at lin
  rw [supers] at lin
  exact ⟨order, b, done, filled.trans more, lin.unique (well.linearizes_givenOrder cls)⟩

end ComesTo

namespace WellFormed

variable (well : WellFormed loose w) {c k : Handle} (cls : w.isClass c = true)

include well cls

theorem mem_givenOrder : k ∈ Hierarchy.givenOrder w.objects c ↔ Hierarchy.Reaches w.objects.supersOf c k :=
  (well.linearizes_givenOrder cls).mem_iff

theorem isClass_of_mem_givenOrder (member : k ∈ Hierarchy.givenOrder w.objects c) : w.isClass k = true :=
  well.isClass_of_reaches cls ((well.mem_givenOrder cls).1 member)

/-- In the precedence order of a class, every class comes before the classes above it. -/
theorem leads_givenOrder {x y : Handle} (above : Hierarchy.Strictly w.objects.supersOf x y) :
    Hierarchy.Leads x y (Hierarchy.givenOrder w.objects c) := by
  induction above with
  | single link => exact (well.linearizes_givenOrder cls).leads link
  | tail _ link ih => exact ih.trans ((well.linearizes_givenOrder cls).leads link)

end WellFormed

end DynamicObjects
