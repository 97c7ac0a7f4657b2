import DynamicObjects.Proofs.Structure.WellFormed

/-!
# Precedence orders of well-formed worlds

In a well-formed world every live class has a precedence order. Asking for it changes nothing but the orders that are
kept.
-/
namespace DynamicObjects

/-- `b` is `a` with other precedence orders kept, all of them right. -/
structure Filled (a b : Objects) : Prop where
  alike : Heap.Alike Object.withoutPrecedence a b
  kept : Hierarchy.OrdersKept b

namespace Filled

variable {a b c : Objects}

theorem refl (kept : Hierarchy.OrdersKept a) : Filled a a :=
  ⟨.refl a, kept⟩

theorem trans (first : Filled a b) (second : Filled b c) : Filled a c :=
  ⟨first.alike.trans second.alike, second.kept⟩

theorem links (filled : Filled a b) : Heap.Alike Object.links a b :=
  filled.alike.comp Object.links fun o => by
    refine Prod.ext ?_ (Prod.ext ?_ (funext fun reach => ?_))
    · simp [Object.links, Object.ancestry, Object.withoutPrecedence, Object.identity, Object.isClass,
        Function.comp_def]
    · simp [Object.links, Object.membership, Object.withoutPrecedence, Object.identity, Object.isClass,
        Function.comp_def]
    · cases reach <;> simp [Object.links, Object.mixing, Object.registrations?, Object.withoutPrecedence,
        Object.identity, Object.isClass, Function.comp_def, ClassPart.users]

theorem identity (filled : Filled a b) : Heap.Alike Object.identity a b :=
  filled.links.comp (·.1.1) fun _ => rfl

end Filled

/-- The precedence order that is given for a class; nothing where none is. -/
def Hierarchy.givenOrder (objects : Objects) (c : Handle) : List Handle :=
  match Hierarchy.precedenceOrder objects c with
  | .ok (order, _) => order
  | .error _ => []

namespace World

theorem isSome_class? {w : World} {h : Handle} (cls : w.isClass h = true) : (w.objects.class? h).isSome := by
  obtain ⟨o, part, live, some⟩ := isClass_iff.1 cls
  unfold Heap.class?
  rw [(live?_eq_some_iff.1 live).1, Option.bind_some, some]
  rfl

end World

namespace WellFormed

variable {loose : Handle → Prop} {w : World}

theorem filled {v : World} (well : WellFormed loose w) (filled : Filled w.objects v.objects)
    (names : v.names = w.names) (systems : v.systems = w.systems) : WellFormed loose v where
  sound := well.sound.of_layout filled.alike.layout
  named := well.named.of_alike filled.identity names
  classed := well.classed.of_alike (filled.links.comp (·.2.1) fun _ => rfl)
  linked := well.linked.of_ancestry (filled.links.comp (·.1) fun _ => rfl)
  rooted := well.rooted.of_ancestry (filled.links.comp (·.1) fun _ => rfl) systems
  mixed reach := (well.mixed reach).of_alike (filled.links.comp (fun l => l.2.2 reach) fun _ => rfl)
  kept := filled.kept

theorem exec_precedenceOrder (well : WellFormed loose w) {c : Handle} (cls : w.isClass c = true) :
    ∃ order b, (Update.precedenceOrder c).exec w = (.ok order, { w with objects := b }) ∧
      Hierarchy.Linearizes w.objects.supersOf c order ∧ Filled w.objects b := by
  obtain ⟨o, part, live, some⟩ := World.isClass_iff.1 cls
  obtain ⟨order, b, done, computed⟩ := Hierarchy.computed_precedenceOrder well.kept (World.isSome_class? cls)
    (well.linked.grounded c)
  refine ⟨order, b, ?_, computed.linearizes, computed.alike, computed.kept⟩
  unfold Update.precedenceOrder
  rw [Update.exec_bind_of_ok (Update.exec_classPart_of_live live some),
    Update.exec_bind_of_ok (Update.exec_get w), done]
  rfl

/-- The precedence order that is given for a live class is its linearization. -/
theorem linearizes_givenOrder (well : WellFormed loose w) {c : Handle} (cls : w.isClass c = true) :
    Hierarchy.Linearizes w.objects.supersOf c (Hierarchy.givenOrder w.objects c) := by
  obtain ⟨order, after, done, computed⟩ := Hierarchy.computed_precedenceOrder well.kept (World.isSome_class? cls)
    (well.linked.grounded c)
  unfold Hierarchy.givenOrder
  rw [done]
  exact computed.linearizes

/-- What is no class has no order, and nothing changes. -/
theorem exec_precedenceOrder_of_not_isClass {c : Handle} (other : w.isClass c = false) :
    ∃ e, (Update.precedenceOrder c).exec w = (.error e, w) := by
  rcases result : (Update.classPart c).exec w with ⟨r, v⟩
  have same : v = w := by
    have unchanged := Update.exec_classPart_snd c w
    rwa [result] at unchanged
  subst same
  cases r with
  | error e => exact ⟨e, Update.exec_bind_of_error result _⟩
  | ok part =>
    obtain ⟨⟨o, live, cls⟩, -⟩ := Update.exec_classPart_eq_ok result
    exact absurd (World.isClass_iff.2 ⟨o, part, live, cls⟩) (by simp [other])

theorem filled_precedenceOrder (well : WellFormed loose w) (c : Handle) :
    ∃ b, ((Update.precedenceOrder c).exec w).2 = { w with objects := b } ∧ Filled w.objects b := by
  cases cls : w.isClass c with
  | true =>
    obtain ⟨order, b, done, -, filled⟩ := well.exec_precedenceOrder cls
    exact ⟨b, by rw [done], filled⟩
  | false =>
    obtain ⟨e, failed⟩ := exec_precedenceOrder_of_not_isClass cls
    exact ⟨w.objects, by rw [failed], .refl well.kept⟩

theorem precedenceOrder (well : WellFormed loose w) (c : Handle) :
    WellFormed loose ((Update.precedenceOrder c).exec w).2 := by
  obtain ⟨b, after, filled⟩ := well.filled_precedenceOrder c
  rw [after]
  exact well.filled filled rfl rfl

/-- Everything above a live class is a live class. -/
theorem isClass_of_reaches (well : WellFormed loose w) {c k : Handle} (cls : w.isClass c = true)
    (path : Hierarchy.Reaches w.objects.supersOf c k) : w.isClass k = true := by
  induction path with
  | refl => exact cls
  | tail _ link _ =>
    obtain ⟨o, p, -, live, -⟩ := well.linked.live _ _ link
    have some := Heap.isSome_class?_of_mem_subsOf ((well.linked.mirrored.subs _ _).2 link)
    obtain ⟨part, found⟩ := Option.isSome_iff_exists.1 some
    rw [Heap.class?, (World.live?_eq_some_iff.1 live).1, Option.bind_some] at found
    exact World.isClass_iff.2 ⟨p, part, live, found⟩

end WellFormed

end DynamicObjects
