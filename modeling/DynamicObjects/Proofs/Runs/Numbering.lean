import DynamicObjects.Proofs.Interception.Distinctness
import DynamicObjects.Proofs.Runs.Calm
import DynamicObjects.Proofs.Runs.Coherence

/-!
# Numbers of own methods

No two own methods of an object have the same number, not even if one of them is only left in a filter order that is
kept. No two entries of a kept filter order have the same key.
-/
namespace DynamicObjects

open Interception

/-- Numbers tell the own methods of an object apart, those in its kept filter order included. -/
structure Numbered (w : World) : Prop where
  method : ∀ h o n m, w.objects.get? h = some o → o.methods.get? n = some m → m.epoch ≤ w.epoch
  name : ∀ h o n n' m m', w.objects.get? h = some o → o.methods.get? n = some m → o.methods.get? n' = some m' →
    m.epoch = m'.epoch → n = n'
  keys : ∀ h o order, w.live? h = some o → o.filterOrder = some order → (order.map FilterEntry.key).Nodup
  entry : ∀ h o order, w.live? h = some o → o.filterOrder = some order → ∀ e ∈ order, e.definer = none →
    e.method.epoch ≤ w.epoch ∧ ∀ n m, o.methods.get? n = some m → m.epoch = e.method.epoch → n = e.name
  mixed : ∀ h o, w.live? h = some o → o.filterOrder ≠ none → o.mixinOrder ≠ none

variable {loose : Handle → Prop} {v w : World} {good : Objects → Prop} {h : Handle} {o : Object}

namespace Numbered

/-- Numbers tell methods apart as long as only the latest definition is new. -/
theorem step (numbered : Numbered v) (newest : String) (epoch : v.epoch ≤ w.epoch)
    (methods : ∀ h p n m, w.objects.get? h = some p → p.methods.get? n = some m →
      (∃ o, v.objects.get? h = some o ∧ o.methods.get? n = some m) ∨
        n = newest ∧ m.epoch = v.epoch + 1 ∧ v.epoch < w.epoch)
    (mixed : ∀ h p, w.live? h = some p → p.filterOrder ≠ none → p.mixinOrder ≠ none)
    (orders : ∀ h p order, w.live? h = some p → p.filterOrder = some order →
      (∃ o, v.live? h = some o ∧ o.filterOrder = some order) ∨
        (order.map FilterEntry.key).Nodup ∧ ∀ e ∈ order, OwnIn p e) : Numbered w := by
  have method : ∀ h p n m, w.objects.get? h = some p → p.methods.get? n = some m → m.epoch ≤ w.epoch := by
    intro h p n m found taught
    rcases methods h p n m found taught with ⟨o, before, same⟩ | ⟨-, newer, more⟩
    · exact (numbered.method h o n m before same).trans epoch
    · omega
  have name : ∀ h p n n' m m', w.objects.get? h = some p → p.methods.get? n = some m → p.methods.get? n' = some m' →
      m.epoch = m'.epoch → n = n' := by
    intro h p n n' m m' found taught taught' same
    rcases methods h p n m found taught with ⟨o, before, old⟩ | ⟨rfl, newer, -⟩ <;>
      rcases methods h p n' m' found taught' with ⟨o', before', old'⟩ | ⟨rfl, newer', -⟩
    · rw [before] at before'
      cases before'
      exact numbered.name h o n n' m m' before old old' same
    · have bound := numbered.method h o n m before old
      omega
    · have bound := numbered.method h o' n' m' before' old'
      omega
    · rfl
  refine ⟨method, name, fun h p order live kept => ?_, fun h p order live kept e member noDefiner => ?_, mixed⟩
  · rcases orders h p order live kept with ⟨o, before, same⟩ | ⟨keys, -⟩
    · exact numbered.keys h o order before same
    · exact keys
  · have found := (World.live?_eq_some_iff.1 live).1
    rcases orders h p order live kept with ⟨o, before, same⟩ | ⟨-, own⟩
    · obtain ⟨bound, names⟩ := numbered.entry h o order before same e member noDefiner
      refine ⟨bound.trans epoch, fun n m taught equal => ?_⟩
      rcases methods h p n m found taught with ⟨o', before', old⟩ | ⟨-, newer, -⟩
      · rw [(World.live?_eq_some_iff.1 before).1] at before'
        cases before'
        exact names n m old equal
      · omega
    · have taught := own e member noDefiner
      exact ⟨method h p _ _ found taught, fun n m other equal => name h p n e.name m e.method found other taught equal⟩

/-- What keeps its own methods and the orders that are kept. -/
theorem of_alike (numbered : Numbered v) (epoch : v.epoch ≤ w.epoch)
    (alike : Heap.Alike (fun o : Object => (o.deleted, o.methods, o.mixinOrder, o.filterOrder)) v.objects w.objects) :
    Numbered w := by
  have before : ∀ h p, w.live? h = some p → ∃ o, v.live? h = some o ∧ o.mixinOrder = p.mixinOrder ∧
      o.filterOrder = p.filterOrder := by
    intro h p live
    obtain ⟨o, live', same⟩ := alike.symm.exists_of_live? (v := w) (w := v) (fun _ _ same => congrArg (·.1) same) live
    exact ⟨o, live', congrArg (·.2.2.1) same, congrArg (·.2.2.2) same⟩
  refine numbered.step "" epoch (fun h p n m found taught => .inl ?_) (fun h p live kept => ?_)
    fun h p order live kept => .inl ?_
  · obtain ⟨o, here, same⟩ := alike.symm.exists_of_get? found
    have methods : o.methods = p.methods := congrArg (·.2.1) same
    exact ⟨o, here, methods ▸ taught⟩
  · obtain ⟨o, live', mixins, filters⟩ := before h p live
    rw [← mixins]
    exact numbered.mixed h o live' (filters ▸ kept)
  · obtain ⟨o, live', -, filters⟩ := before h p live
    exact ⟨o, live', filters.trans kept⟩

theorem filled (numbered : Numbered v) {b : Objects} (filled : Filled v.objects b) :
    Numbered { v with objects := b } :=
  numbered.of_alike le_rfl
    (filled.alike.comp (fun o => (o.deleted, o.methods, o.mixinOrder, o.filterOrder)) fun _ => rfl)

/-- Asking for a mixin order keeps it beside the filter order. -/
theorem mixinOrder (numbered : Numbered v) (well : WellFormed loose v) (h : Handle) :
    Numbered ((Interception.mixinOrder h).exec v).2 := by
  rcases exec_mixinOrder well h with ⟨r, kept, -⟩ | ⟨o, r, b, -, -, -, filled, ⟨e, -, done⟩ | ⟨order, -, done⟩⟩
  · rw [kept]
    exact numbered
  · rw [done]
    exact numbered.filled filled
  rw [done]
  have alike : Heap.Alike (fun o : Object => (o.deleted, o.methods, o.filterOrder)) b
      (b.modify h fun o => { o with mixinOrder := some order }) := .modify _ _ fun _ => rfl
  have mid := numbered.filled filled
  refine mid.step "" le_rfl (fun k p n m found taught => .inl ?_) (fun k p live kept => ?_)
    fun k p order' live kept => .inl ?_
  · obtain ⟨o, here, same⟩ := alike.symm.exists_of_get? found
    have methods : o.methods = p.methods := congrArg (·.2.1) same
    exact ⟨o, here, methods ▸ taught⟩
  · obtain ⟨found, present⟩ := World.live?_eq_some_iff.1 live
    rw [Heap.get?_modify] at found
    split at found
    · obtain ⟨q, -, rfl⟩ := Option.map_eq_some_iff.1 found
      exact Option.some_ne_none order
    · exact mid.mixed k p (World.live?_eq_some_iff.2 ⟨found, present⟩) kept
  · obtain ⟨o, live', same⟩ := alike.symm.exists_of_live? (v := { v with objects := b.modify h _ })
      (w := { v with objects := b }) (fun _ _ same => congrArg (·.1) same) live
    exact ⟨o, live', (congrArg (·.2.2) same).trans kept⟩

/-- Asking for a filter order keeps one that is computed from the methods of the moment. -/
theorem filterOrder (numbered : Numbered v) (well : WellFormed loose v) (h : Handle) :
    Numbered ((Interception.filterOrder h).exec v).2 := by
  rcases exec_filterOrder well h with ⟨r, kept, -⟩ | ⟨o, r, u, -, -, mixed, rest⟩
  · rw [kept]
    exact numbered
  have wellMid := well.mixinOrder h
  have mid := numbered.mixinOrder well h
  rw [mixed] at wellMid mid
  rcases rest with ⟨e, -, done⟩ | ⟨mixins, s, b, rfl, computed, filled, ⟨e, -, done⟩ | ⟨order, rfl, done⟩⟩
  · rw [done]
    exact mid
  · rw [done]
    exact mid.filled filled
  rw [done]
  have alike : Heap.Alike (fun o : Object => (o.deleted, o.methods, o.mixinOrder)) u.objects
      (b.modify h fun o => { o with filterOrder := some order }) :=
    (filled.alike.comp (fun o => (o.deleted, o.methods, o.mixinOrder)) fun _ => rfl).trans (.modify b h fun _ => rfl)
  have before : ∀ k p,
      World.live? { u with objects := b.modify h fun o => { o with filterOrder := some order } } k = some p → ∃ o, u.live? k = some o ∧ o.methods = p.methods ∧ o.mixinOrder = p.mixinOrder := by
    intro k p live
    obtain ⟨o, live', same⟩ := alike.symm.exists_of_live? (v := { u with objects := b.modify h _ }) (w := u)
      (fun _ _ same => congrArg (·.1) same) live
    exact ⟨o, live', congrArg (·.2.1) same, congrArg (·.2.2) same⟩
  have elsewhere : ∀ k p,
      World.live? { u with objects := b.modify h fun o => { o with filterOrder := some order } } k = some p →
      k ≠ h → ∃ o, u.live? k = some o ∧ o.filterOrder = p.filterOrder := by
    intro k p live other
    obtain ⟨found, present⟩ := World.live?_eq_some_iff.1 live
    rw [Heap.get?_modify, if_neg other] at found
    obtain ⟨o, here, same⟩ := filled.alike.symm.exists_of_get? found
    exact ⟨o, World.live?_eq_some_iff.2 ⟨here, (congrArg Object.deleted same).trans present⟩,
      (congrArg Object.filterOrder same :)⟩
  obtain ⟨x, liveX, keeps⟩ := FilterOrdersCurrent.kept_of_mixinOrder well mixed
  refine mid.step "" le_rfl (fun k p n m found taught => .inl ?_) (fun k p live kept => ?_)
    fun k p order' live kept => ?_
  · obtain ⟨o, here, same⟩ := alike.symm.exists_of_get? found
    have methods : o.methods = p.methods := congrArg (·.2.1) same
    exact ⟨o, here, methods ▸ taught⟩
  · obtain ⟨o, live', -, same⟩ := before k p live
    rw [← same]
    by_cases here : k = h
    · subst here
      rw [liveX] at live'
      cases live'
      rw [keeps]
      exact Option.some_ne_none mixins
    · obtain ⟨o', live'', filters⟩ := elsewhere k p live here
      rw [live'] at live''
      cases live''
      exact mid.mixed k o live' (filters ▸ kept)
  · by_cases here : k = h
    · subst here
      have is : order' = order := by
        have found := (World.live?_eq_some_iff.1 live).1
        rw [Heap.get?_modify, if_pos rfl] at found
        obtain ⟨q, -, rfl⟩ := Option.map_eq_some_iff.1 found
        exact (Option.some.inj kept).symm
      subst is
      obtain ⟨o, live', methods, -⟩ := before k p live
      obtain ⟨keys, stems⟩ := spec_of_computeFilterOrder wellMid live' computed
      exact .inr ⟨keys, fun e member noDefiner => methods ▸ (stems e member).own noDefiner⟩
    · obtain ⟨o, live', filters⟩ := elsewhere k p live here
      exact .inl ⟨o, live', filters.trans kept⟩

end Numbered

/-! ## Every change -/

/-- Orders that are kept after a change of links or tables were kept before. -/
theorem Leaves.orders {names : String → Prop} (leaves : Leaves names v w) {p : Object} (live : w.live? h = some p)
    (kept : p.filterOrder ≠ none) :
    ∃ o, v.live? h = some o ∧ o.filterOrder = p.filterOrder ∧ o.mixinOrder = p.mixinOrder := by
  obtain ⟨o, untouched, same⟩ := leaves h p live fun blank => kept (congrArg Prod.snd blank)
  exact ⟨o, untouched.before, (congrArg Prod.snd same).symm, (congrArg Prod.fst same).symm⟩

theorem Numbered.of_leaves {names : String → Prop} (numbered : Numbered v) (leaves : Leaves names v w) (newest : String)
    (epoch : v.epoch ≤ w.epoch)
    (methods : ∀ h p n m, w.objects.get? h = some p → p.methods.get? n = some m →
      (∃ o, v.objects.get? h = some o ∧ o.methods.get? n = some m) ∨
        n = newest ∧ m.epoch = v.epoch + 1 ∧ v.epoch < w.epoch) : Numbered w := by
  refine numbered.step newest epoch methods (fun h p live kept => ?_) fun h p order live kept => .inl ?_
  · obtain ⟨o, live', filters, mixins⟩ := leaves.orders live kept
    exact mixins ▸ numbered.mixed h o live' (filters ▸ kept)
  · obtain ⟨o, live', filters, -⟩ := leaves.orders live (kept ▸ Option.some_ne_none order)
    exact ⟨o, live', filters.trans kept⟩

/-- After a change of a method table, the table is that of before, but for the newest definition. -/
private theorem methods_of_redefined {reach : Reach} {on : Handle} {f : NameTable Method → NameTable Method}
    {registry : NameTable Registration} {newest : String} {s : Handle → Prop} {b : Objects}
    (forgets : Forgets s (Definition.redefined reach on f registry v).objects b)
    (changes : ∀ (t : NameTable Method) n m, (f t).get? n = some m →
      t.get? n = some m ∨ n = newest ∧ m.epoch = v.epoch + 1) :
    ∀ h p n m, b.get? h = some p → p.methods.get? n = some m →
      (∃ o, v.objects.get? h = some o ∧ o.methods.get? n = some m) ∨
        n = newest ∧ m.epoch = v.epoch + 1 ∧ v.epoch < v.epoch + 1 := by
  intro h p n m found taught
  have alike : Heap.Alike Object.methods (v.objects.modify on (Object.mapMethods reach f)) b := forgets.alike fun _ => rfl
  obtain ⟨q, there, same⟩ := alike.symm.exists_of_get? found
  rw [← same] at taught
  rw [Heap.get?_modify] at there
  split at there
  · obtain ⟨o, here, rfl⟩ := Option.map_eq_some_iff.1 there
    cases reach with
    | object =>
      rcases changes o.methods n m taught with old | ⟨is, newer⟩
      · exact .inl ⟨o, here, old⟩
      · exact .inr ⟨is, newer, Nat.lt_succ_self _⟩
    | instances => exact .inl ⟨o, here, taught⟩
  · exact .inl ⟨q, there, taught⟩

theorem Numbered.redefines (numbered : Numbered v) (redefines : Redefines v w) : Numbered w := by
  cases redefines with
  | define reach on method =>
    have leaves : Leaves (fun _ => False) v ((Definition.defineMethod reach on method).exec v).2 :=
      .defineMethod reach on method id
    rcases Definition.exec_defineMethod reach on method v with ⟨e, failed⟩ | ⟨o, table, b, -, -, done, forgets⟩
    · rw [failed]
      exact numbered
    · rw [done] at leaves ⊢
      refine numbered.of_leaves leaves method.name (Nat.le_succ _) (methods_of_redefined forgets fun t n m found => ?_)
      rw [NameTable.get?_insert] at found
      split at found
      · cases found
        exact .inr ⟨‹_›, rfl⟩
      · exact .inl found
  | remove reach on name =>
    have leaves : Leaves (fun _ => False) v ((Definition.removeMethod reach on name).exec v).2 :=
      .removeMethod reach on name id
    rcases Definition.exec_removeMethod reach on name v with ⟨e, failed⟩ | ⟨o, table, b, -, -, -, done, forgets⟩
    · rw [failed]
      exact numbered
    · rw [done] at leaves ⊢
      refine numbered.of_leaves leaves "" (Nat.le_succ _) (methods_of_redefined forgets fun t n m found => ?_)
      rw [NameTable.get?_erase] at found
      split at found
      · cases found
      · exact .inl found

/-- Where nothing happens to what objects hold, own methods are there already. -/
theorem Retains.methods {a b : Objects} (retains : Retains a b) {p : Object} {n : String} {m : Method}
    (found : b.get? h = some p) (taught : p.methods.get? n = some m) :
    ∃ o, a.get? h = some o ∧ o.methods.get? n = some m := by
  cases here : a.get? h with
  | none =>
    rw [(retains.new h p here found).2] at taught
    cases taught
  | some o =>
    obtain ⟨o', here', same⟩ := retains.before h p (Heap.spent_of_get? here) found
    have methods : p.methods = o'.methods := congrArg Prod.snd same
    exact ⟨o', here.symm.trans here', methods ▸ taught⟩

theorem Numbered.change (remain : ∀ a, good a → a.HandlesRemain) (numbered : Numbered v) (well : WellFormed loose v)
    (change : Change Beside good v w) : Numbered w := by
  have after := well.ordersAfter remain change
  rcases well.quiet_or remain change with beside | redefines | quiet
  · exact numbered.of_alike beside.epoch (beside.core.comp
      (fun o => (o.deleted, o.methods, o.mixinOrder, o.filterOrder)) fun _ => rfl)
  · exact numbered.redefines redefines
  · cases after with
    | leaves leaves =>
      exact numbered.of_leaves leaves "" quiet.epoch.ge fun h p n m found taught =>
        .inl (quiet.objects.methods found taught)
    | mixinOrder h => exact numbered.mixinOrder well h
    | filterOrder h => exact numbered.filterOrder well h
    | defineMethod reach on method => exact numbered.redefines (.define reach on method)
    | removeMethod reach on name => exact numbered.redefines (.remove reach on name)

theorem Numbered.evolves (remain : ∀ a, good a → a.HandlesRemain) (numbered : Numbered v) (well : WellFormed loose v)
    (path : Evolves good v w) : Numbered w := by
  induction path with
  | refl => exact numbered
  | tail path last ih => exact ih.change remain (well.evolves remain path) last

theorem numbered_start (settings : Settings) : Numbered { settings } := by
  constructor
  case method => intro h o n m found; cases found
  case name => intro h o n n' m m' found; cases found
  case keys => intro h o order live; cases live
  case entry => intro h o order live; cases live
  case mixed => intro h o live; cases live

/-- In every world that sessions come to, numbers tell own methods apart. -/
theorem Reachable.numbered (remain : ∀ a, good a → a.HandlesRemain) (reached : Reachable good w) : Numbered w := by
  obtain ⟨settings, path⟩ := reached.evolves remain
  exact (numbered_start settings).evolves remain (proper_start settings) path

end DynamicObjects
