import DynamicObjects.Proofs.Runs.Searches

/-!
# Leaving

An object leaves where the heap is good but for orders and what is changed aside, or while nothing belongs to it. Asking
for orders and tasks of a faithful host do not take that away, and newcomers begin with nothing.
-/
namespace DynamicObjects

/-! ## Worlds that differ in orders and aside -/

theorem Object.bare_withoutPrecedence (o : Object) : o.withoutPrecedence.bare = o.bare := by
  simp [bare, core, withoutPrecedence, withoutOrders, Function.comp_def]

theorem Object.IsBlank.of_bare {o p : Object} (blank : o.IsBlank) (same : p.bare = o.bare) : p.IsBlank := by
  refine ⟨(congrArg Object.methods same).trans blank.methods, fun part isPart => ?_⟩
  have parts : p.bare.classPart = o.bare.classPart := congrArg Object.classPart same
  simp only [bare, core, withoutPrecedence, withoutOrders, isPart, Option.map_map, Option.map_some] at parts
  obtain ⟨before, isBefore, alike⟩ := Option.map_eq_some_iff.1 parts.symm
  obtain ⟨methods, instances, subs⟩ := blank.classPart before isBefore
  exact ⟨(congrArg ClassPart.methods alike).symm.trans methods,
    (congrArg ClassPart.instances alike).symm.trans instances, (congrArg ClassPart.subs alike).symm.trans subs⟩

theorem MayLeave.of_alike {good : Objects → Prop} {a b : Objects} {h : Handle} (leaves : MayLeave good a h)
    (alike : Heap.Alike Object.bare a b) : MayLeave good b h := by
  cases leaves with
  | settled here before => exact .settled here (before.trans alike)
  | blank found blank =>
    obtain ⟨o, found, same⟩ := alike.exists_of_get? found
    exact .blank found (blank.of_bare same)

/-- A world stays proper, and no more than orders and what is aside is changed. -/
def Idle (v w : World) : Prop :=
  Proper v → Proper w ∧ Heap.Alike Object.bare v.objects w.objects

namespace Idle

theorem of_path {v w : World} (path : Relation.ReflTransGen Idle v w) : Idle v w := by
  intro proper
  induction path with
  | refl => exact ⟨proper, .refl _⟩
  | tail _ last ih =>
    obtain ⟨kept, alike⟩ := ih
    obtain ⟨still, further⟩ := last kept
    exact ⟨still, alike.trans further⟩

theorem precedenceOrder (v : World) (c : Handle) : Idle v ((Update.precedenceOrder c).exec v).2 := by
  intro proper
  obtain ⟨b, done, filled⟩ := proper.filled_precedenceOrder c
  rw [done]
  exact ⟨proper.filled filled rfl rfl, filled.alike.comp _ fun o => o.bare_withoutPrecedence.symm⟩

theorem mixinOrder (v : World) (h : Handle) : Idle v ((Interception.mixinOrder h).exec v).2 := by
  intro proper
  obtain ⟨b, done, alike⟩ := alike_mixinOrder Object.bare_withoutPrecedence (fun _ _ => rfl) proper h
  refine ⟨proper.mixinOrder h, ?_⟩
  rw [done]
  exact alike

theorem along_changeObject (h : Handle) {f : Object → Object} (keeps : ∀ o, (f o).core = o.core) :
    (Update.changeObject h f).Along Idle := by
  refine (Update.Along.object h).bind fun _ => .of_step fun w proper => ⟨proper.beside (.modify w h keeps), ?_⟩
  exact .modify _ h fun o => congrArg (fun core => core.withoutPrecedence.withoutOrders) (keeps o)

theorem along_implements (h : Handle) (name : String) : (Lifecycle.implements h name).Along Idle := by
  have search : (Invocation.searchObject h name).Along Idle :=
    (Consults.along_searchObject h name).mono fun v w ⟨c, here⟩ => here ▸ .single (precedenceOrder v c)
  unfold Lifecycle.implements
  refine (Update.Along.of_step fun v => mixinOrder v h).bind fun mixins => Update.Along.get.bind fun w => ?_
  exact .ite (fun _ => .pure _) fun _ => search.bind fun _ => .pure _

end Idle

/-! ## What leaves it at that -/

section maintains

variable {terms : Terms} {host : Host} {h : Handle}

/-- Where care is taken, the object may leave. -/
def Leaving (terms : Terms) (h : Handle) (w : World) : Prop :=
  terms.careful → MayLeave terms.good w.objects h

theorem Leaving.of_alike {v w : World} (leaving : Leaving terms h v)
    (alike : Heap.Alike Object.bare v.objects w.objects) : Leaving terms h w :=
  fun care => (leaving care).of_alike alike

theorem Leaving.of_good {w : World} (permits : terms.good w.objects) : Leaving terms h w :=
  fun _ => .settled permits (.refl _)

/-- A call ends in a good heap, or it fails with next to nothing done. -/
theorem Maintains.call (on : Handle) (name : String) (args : List Value) (mods : CallModifiers) :
    Maintains terms host (Leaving terms h) fun k => k.call on name args mods := by
  intro w met
  have here : Within w w (.call on name args mods) w := ⟨.refl w, fun _ => .inl (Balanced.refl w).positionsRest⟩
  refine (Brings.perform (.call on name args mods) w here id).mono (fun _ same => same) fun r v ended => ?_
  obtain ⟨poised, permits | ⟨-, alike⟩⟩ := ended
  · exact ⟨poised, .of_good permits⟩
  · exact ⟨poised, met.of_alike alike⟩

theorem Maintains.reads {α : Type} {inv : World → Prop} {u : Update α} (same : ∀ w, (u.exec w).2 = w) :
    Maintains terms host inv fun _ => liftM u :=
  .lift (fun w _ _ => by rw [same]) fun w _ met => by rwa [same]

theorem Maintains.idle {α : Type} {u : Update α} (along : u.Along (Deed Hushed terms)) (idle : u.Along Idle) :
    Maintains terms host (Leaving terms h) fun _ => liftM u :=
  .lift (fun w _ _ => along w) fun w proper met => met.of_alike (Idle.of_path (idle w) proper).2

theorem Maintains.systemOf {inv : World → Prop} (on : Handle) :
    Maintains terms host inv fun _ => liftM (Update.systemOf on) := by
  refine .reads fun w => ?_
  have path : Relation.ReflTransGen (fun _ _ => False) w ((Update.systemOf on).exec w).2 := Update.Along.systemOf on w
  exact (Relation.reflTransGen_iff_eq fun _ => id).1 path

end maintains

/-! ## Newcomers -/

theorem Object.isBlank_ofClass (name : String) (cls : Handle) (system : Nat) : (ofClass name cls system).IsBlank :=
  ⟨rfl, nofun⟩

/-- A new object without a class part is blank once it is enrolled. -/
theorem Lifecycle.leaving_enroll {terms : Terms} {w v : World} {name : String} {cls h : Handle} {c : Object}
    (proper : Proper w) (room : w.objects.HasRoom) (live : w.live? cls = some c) (isClass : w.isClass cls = true)
    (free : w.names.get? name = none) (done : (enroll (.ofClass name cls c.system)).exec w = (.ok h, v)) :
    Leaving terms h v := by
  obtain ⟨k, a, arrives, different, entered, -⟩ := proper.exec_enroll room (Object.unlinked_ofClass name cls c.system)
    isClass free (proper.rooted.system cls c live) rfl
  rw [entered] at done
  cases done
  exact fun _ => .blank (arrives.get?_join different) (Object.isBlank_ofClass _ _ _)

/-- What is left of a new class that no class can have come below. -/
private theorem isBlank_of_withoutAncestry {a : Objects} {h : Handle} {o : Object} {name : String} {metaclass : Handle}
    {system : Nat} (found : a.get? h = some o) (subs : a.subsOf h = [])
    (looks : o.withoutAncestry = (Object.newClass name metaclass system).withoutAncestry) : o.IsBlank := by
  refine ⟨congrArg Object.methods looks, fun part isPart => ?_⟩
  have same : o.withoutAncestry.classPart = _ := congrArg Object.classPart looks
  rw [Object.withoutAncestry, isPart] at same
  have parts := Option.some.inj same
  refine ⟨congrArg ClassPart.methods parts, congrArg ClassPart.instances parts, ?_⟩
  rwa [Heap.subsOf, Heap.class?, found, Option.bind_some, isPart] at subs

/-- A new class is blank once it is linked to its superclasses. -/
theorem Lifecycle.leaving_enrollClass {terms : Terms} {w t : World} {name : String} {metaclass h : Handle}
    {supers : List Handle} (proper : Proper w) (room : w.objects.HasRoom)
    (done : (enrollClass name metaclass supers).exec w = (.ok h, t)) : Leaving terms h t := by
  rcases proper.exec_enrolledClass room name metaclass supers with ⟨e, failed⟩ |
    ⟨p, k, a, v, -, -, arrives, different, -, is, wellAfter, ⟨u, placed, ended⟩ | ⟨e, u, -, -, -, ended⟩⟩
  · rw [failed] at done
    cases done
  swap
  · rw [ended] at done
    cases done
  rw [ended] at done
  cases done
  have unlinked := Object.unlinked_newClass (Definition.qualify name) metaclass p.system
  rcases wellAfter.exec_setSuperclasses h supers with ⟨e, b, refused, -⟩ |
    ⟨o, new, a', b, -, -, -, -, -, set, replaced, grounded, forgets⟩
  · rw [placed] at refused
    cases refused
  rw [placed] at set
  have now : t.objects = b := congrArg (fun result => World.objects result.2) set
  have here : v.objects.get? h = some (.newClass (Definition.qualify name) metaclass p.system) := by
    rw [is]
    exact arrives.get?_join different
  have before : v.objects.supersOf = w.objects.supersOf := by
    rw [is]
    exact (Heap.Alike.supersOf_of_ancestry (.modify a metaclass fun o => Object.ancestry_mapInstances _ o)).trans
      (arrives.supersOf unlinked)
  have apart : ∀ c, h ∉ a'.supersOf c := by
    intro c link
    by_cases same : c = h
    · subst same
      rw [replaced.supers] at link
      exact (grounded c).not_strictly (.single link)
    · rw [replaced.supers, Function.update_of_ne same, before] at link
      obtain ⟨-, q, -, above, -⟩ := proper.linked.live c h link
      rw [World.live?, arrives.vacant] at above
      cases above
  have subs : a'.subsOf h = [] :=
    List.eq_nil_iff_forall_not_mem.2 fun c sub => apart c ((replaced.mirrored.subs c h).1 sub)
  obtain ⟨q, found, looks⟩ := replaced.alike.exists_of_get? here
  have blank := isBlank_of_withoutAncestry found subs looks
  rw [Leaving, now]
  rcases forgets.get? h with same | without
  · exact fun _ => .blank (same.trans found) blank
  · rw [found] at without
    exact fun _ => .blank without ⟨blank.methods, blank.classPart⟩

end DynamicObjects
