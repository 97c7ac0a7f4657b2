import DynamicObjects.Proofs.Runs.Handover
import DynamicObjects.Proofs.Runs.Refusals
import DynamicObjects.Proofs.Runs.Visibility

/-!
# Calls along chains

A call of a simple name starts the first element of the chain that is made of the orders of its receiver, and every
next call inside of it starts the element behind the running one.
-/
namespace DynamicObjects

open Invocation

/-- Where filters take part, the filter order is searched from its start. -/
theorem Invocation.exec_firstFilter_of_filterOrder {host : Host} {h : Handle} {filters : List FilterEntry}
    {v w : World} (filtered : w.settings.filtersEnabled = true) (unguarded : w.guardDepth = 0)
    (outside : insideFilterOf w h = false) (asked : (Interception.filterOrder h).exec w = (.ok filters, v)) :
    (firstFilter host h).exec w = (searchFilters host h (v.isClass h) filters).exec v := by
  have takes : (w.settings.filtersEnabled && w.guardDepth == 0 && !insideFilterOf w h) = true := by
    rw [filtered, unguarded, outside]
    rfl
  unfold firstFilter
  rw [Action.exec_bind_of_ok (Action.exec_get w), if_pos takes, Action.exec_liftM_bind_of_ok asked,
    Action.exec_bind_of_ok (Action.exec_get v)]

namespace Lineup

variable {line : Lineup} {lets : Predicate → Bool} {host : Host} {v w : World} {e : Resolved} {mods : CallModifiers}

/-! ## The first element -/

/-- Without filters and mixins, a call that ignores permissions finds the first element of what is left. -/
theorem Located.exec_resolvePlain {loose : Handle → Prop} (located : line.Located w.objects) (well : WellFormed loose w)
    (ignores : mods.ignorePermissions = true) (simple : interceptable line.name mods = true) : ∃ b, Filled w.objects b ∧
      (resolvePlain line.receiver line.name mods).exec w = (.ok line.plainChain.head?, { w with objects := b }) := by
  simp only [interceptable, Bool.and_eq_true, Bool.not_eq_true', Bool.or_eq_false_iff] at simple
  obtain ⟨unqualified, ⟨wide, system⟩, -⟩ := simple
  obtain ⟨b, found, filled, searched, head⟩ := located.exec_searchObject well
  refine ⟨b, filled, ?_⟩
  rw [resolvePlain_eq wide unqualified, system, if_neg Bool.false_ne_true, Update.exec_bind_of_ok searched,
    exec_permit_of_ignores ignores, head]

/-- A call starts a chain where its search finds the first element, with positions pushed for it, and where the call
stands at that element then. -/
def Begins (line : Lineup) (search : Action (Option Resolved)) (w : World) (rest : List Resolved) : Prop :=
  ∃ found u, search.exec w = some (.ok found, u) ∧ u.stack = w.stack ∧
    (∀ e, rest.head? = some e → line.At e u ∧ ∃ filter mixin,
      found = some { e with pushedFilterPosition := filter, pushedMixinPosition := mixin }) ∧
    (rest.head? = none → found = none ∧ ∃ b, Filled w.objects b ∧ u = { w with objects := b })

/-- After a change of the receiver's positions, the call stands where they say. -/
theorem Ready.at_modify (ready : line.Ready w) {f : Object → Object} (core : ∀ o, (f o).core = o.core)
    (lining : ∀ o, (f o).lining = o.lining)
    (places : ∀ o, w.objects.get? line.receiver = some o → line.Places e (f o)) :
    line.At e { w with objects := w.objects.modify line.receiver f } := by
  refine ⟨ready.modify _ core lining, fun o found => ?_⟩
  rw [Heap.get?_modify, if_pos rfl] at found
  obtain ⟨p, there, rfl⟩ := Option.map_eq_some_iff.1 found
  exact places p there

section begins

variable (ready : line.Ready w) (constant : line.GuardsConstant host lets)
  (ignores : mods.ignorePermissions = true) (simple : interceptable line.name mods = true)

include ready ignores simple

theorem Ready.begins_plain : line.Begins (liftM (resolvePlain line.receiver line.name mods)) w line.plainChain := by
  obtain ⟨b, filled, done⟩ := ready.keeps.2.located.exec_resolvePlain ready.proper ignores simple
  refine ⟨_, _, (Action.exec_liftM _ w).trans (congrArg some done), rfl, fun e first => ⟨⟨ready.filled filled, ?_⟩, ?_⟩,
    fun last => ⟨last, b, filled, rfl⟩⟩
  · intro o _
    rw [Places, kind_of_plainChain e (List.mem_of_mem_head? first)]
    trivial
  · exact ⟨e.pushedFilterPosition, e.pushedMixinPosition, first⟩

include constant

theorem Ready.begins_unfiltered :
    line.Begins (resolveUnfiltered host line.receiver line.name mods line.mixins) w (line.unfilteredChain lets) := by
  have searched := exec_searchMixins (constant.judges ready.keeps) ready.keeps.2.located ready.unguarded
    fun m member => member
  unfold Begins resolveUnfiltered
  rw [Action.exec_bind_of_ok searched, unfilteredChain, List.head?_append, head?_mixinLinks]
  cases line.mixins.findSome? (line.mixesIn lets) with
  | none => exact ready.begins_plain ignores simple
  | some found =>
    obtain ⟨c, method⟩ := found
    refine ⟨_, _, exec_permitMixin_of_ignores ignores c method w, rfl, fun e first => ?_, fun last => by cases last⟩
    cases first
    exact ⟨ready.at_modify (fun _ => rfl) (fun _ => rfl) fun o _ => rfl, false, true, rfl⟩

omit ignores simple in
/-- The first filter that takes part is found where filters do. -/
theorem Ready.exec_firstFilter (filtered : w.settings.filtersEnabled = true)
    (outside : insideFilterOf w line.receiver = false) :
    (firstFilter host line.receiver).exec w = some (.ok (line.filters.find? (line.admits lets)), w) := by
  rw [exec_firstFilter_of_filterOrder filtered ready.unguarded outside ready.keeps.2.exec_filterOrder,
    ready.keeps.2.isClass]
  exact exec_searchFilters (constant.judges ready.keeps) fun _ member => member

theorem Ready.begins (filtered : w.settings.filtersEnabled = true) (outside : insideFilterOf w line.receiver = false) :
    line.Begins (resolve host line.receiver line.name mods) w (line.chain lets) := by
  have first := ready.exec_firstFilter constant filtered outside
  unfold Begins resolve
  rw [simple]
  simp only [Bool.not_true, Bool.false_eq_true, if_false]
  rw [Action.exec_bind_of_ok first, Action.exec_liftM_bind_of_ok ready.keeps.2.exec_mixinOrder, chain,
    List.head?_append, head?_filterLinks]
  cases line.filters.find? (line.admits lets) with
  | none => exact ready.begins_unfiltered constant ignores simple
  | some entry =>
    cases mixed : line.mixins with
    | nil =>
      refine ⟨_, _, rfl, rfl, fun e first => ?_, fun last => by cases last⟩
      cases first
      refine ⟨ready.at_modify (fun _ => rfl) (fun _ => rfl) fun o _ => ?_, true, false, rfl⟩
      exact ⟨rfl, fun some => absurd mixed some⟩
    | cons m rest =>
      refine ⟨_, _, rfl, rfl, fun e first => ?_, fun last => by cases last⟩
      cases first
      have pushed := ready.modify line.receiver (f := fun o =>
        { o with filterPositions := ⟨some entry.key, line.name⟩ :: o.filterPositions }) (fun _ => rfl) fun _ => rfl
      refine ⟨pushed.at_modify (fun _ => rfl) (fun _ => rfl) fun o there => ?_, true, true, rfl⟩
      rw [Heap.get?_modify, if_pos rfl] at there
      obtain ⟨p, -, rfl⟩ := Option.map_eq_some_iff.1 there
      exact ⟨rfl, fun _ => rfl⟩

/-- A call that ignores permissions starts the first element of the chain; without one it ends as one that finds no
method. -/
theorem Ready.exec_call (filtered : w.settings.filtersEnabled = true) (outside : insideFilterOf w line.receiver = false)
    (room : w.stack.depth < w.settings.maxDepth) (direct : line.Direct lets) (args : List Value) :
    (∀ e, (line.chain lets).head? = some e →
      line.Starts host e args (call host line.receiver line.name args mods) w) ∧
    ((line.chain lets).head? = none → ∃ b, Filled w.objects b ∧
      (call host line.receiver line.name args mods).exec w =
        (answerNotFound host line.receiver line.name args mods).exec { w with objects := b }) := by
  obtain ⟨found, u, resolved, stack, starts, ends⟩ := ready.begins constant ignores simple filtered outside
  obtain ⟨o, -, live, -⟩ := ready.exists_live
  have calls := exec_call_of_resolve args live room resolved
  refine ⟨fun e first => ?_, fun last => ?_⟩
  · obtain ⟨stands, filter, mixin, is⟩ := starts e first
    obtain ⟨e', marks⟩ : ∃ e', e' = { e with pushedFilterPosition := filter, pushedMixinPosition := mixin } := ⟨_, rfl⟩
    have same : e' = { e with
        pushedFilterPosition := e'.pushedFilterPosition, pushedMixinPosition := e'.pushedMixinPosition } := by rw [marks]
    have depth : u.stack.depth = w.stack.depth := by rw [stack]
    have method : e'.method = e.method := by rw [marks]
    have alone : e'.method.kind ≠ .aliased := method ▸ direct e (List.mem_of_mem_head? first)
    refine ⟨frameFor line.receiver line.name e' e.method args mods, mods, u, stands.opens depth same, id,
      fun _ keeps => keeps, ?_⟩
    rw [is, ← marks] at calls
    have entered := @exec_enter host u line.receiver line.name e' args mods alone
    rw [method] at entered
    exact calls.trans (entered.trans Option.map_id'.symm)
  · obtain ⟨rfl, b, filled, rfl⟩ := ends last
    exact ⟨b, filled, calls⟩

end begins

end Lineup

/-! ## The lineup of a reachable world -/

/-- Where a call of a simple name is searched, from the orders that are given in a world. -/
def World.lineup (w : World) (h : Handle) (name : String) : Lineup where
  receiver := h
  name := name
  isClass := w.isClass h
  cls := ((w.live? h).map (·.cls)).getD h
  filters := ((Interception.filterOrder h).exec w).1.toOption.getD []
  mixins := ((Interception.mixinOrder h).exec w).1.toOption.getD []
  own := (w.live? h).bind (·.methods.get? name)
  classes := ((Update.precedenceOrder (((w.live? h).map (·.cls)).getD h)).exec w).1.toOption.getD []
  taught c := (w.objects.class? c).bind (·.methods.get? name)

theorem Object.setting_unordered (o : Object) : o.unordered.setting = o.setting := by
  simp [unordered, setting, station, lineage, withoutPrecedence, Function.comp_def]

theorem Object.isClass_unordered (o : Object) : o.unordered.isClass = o.isClass := by
  simp [unordered, isClass, withoutPrecedence]

theorem Object.teaching_unordered (o : Object) : o.unordered.teaching = o.teaching := by
  simp [unordered, teaching, withoutPrecedence, Function.comp_def]

section lineup

variable {h : Handle} {o p : Object} {name : String} {filters : List FilterEntry} {host : Host} {args : List Value}
  {mods : CallModifiers} {v w : World}

/-- Asking for a filter order keeps it, and only fills in orders. -/
theorem kept_of_filterOrder (well : Proper w) (asked : (Interception.filterOrder h).exec w = (.ok filters, v)) :
    v = { w with objects := v.objects } ∧ Heap.Alike Object.unordered w.objects v.objects ∧
      ∃ p, v.live? h = some p ∧ p.filterOrder = some filters := by
  obtain ⟨b, after, alike⟩ := alike_filterOrder Object.unordered_withoutPrecedence (fun _ _ => rfl) (fun _ _ => rfl) well h
  have is : v = { w with objects := b } := (congrArg Prod.snd asked).symm.trans after
  refine ⟨by rw [is], by rw [is]; exact alike, ?_⟩
  rcases exec_filterOrder well h with ⟨r, same, kept⟩ | ⟨o, r, u, -, -, mixed, rest⟩
  · have ends : w = v := congrArg Prod.snd (same.symm.trans asked)
    rw [← ends]
    exact kept filters (congrArg Prod.fst (same.symm.trans asked))
  rcases rest with ⟨e, -, ended⟩ | ⟨mixins, s, a, rfl, -, filled, ⟨e, -, ended⟩ | ⟨order, -, ended⟩⟩
  · cases ended.symm.trans asked
  · cases ended.symm.trans asked
  obtain ⟨y, live, -⟩ := FilterOrdersCurrent.kept_of_mixinOrder well mixed
  obtain ⟨z, there, -⟩ := filled.exists_live live
  obtain ⟨found, alive⟩ := World.live?_eq_some_iff.1 there
  cases ended.symm.trans asked
  refine ⟨{ z with filterOrder := some filters }, World.live?_eq_some_iff.2 ⟨?_, alive⟩, rfl⟩
  rw [Heap.get?_modify, if_pos rfl, found, Option.map_some]

/-- A live object is given a filter order. -/
theorem MixinOrdersCurrent.exists_filterOrder (current : MixinOrdersCurrent w) (well : Proper w)
    (live : w.live? h = some o) : ∃ filters v, (Interception.filterOrder h).exec w = (.ok filters, v) := by
  cases kept : o.filterOrder with
  | some order => exact ⟨order, w, exec_filterOrder_of_kept live kept⟩
  | none =>
    obtain ⟨order, fresh, -⟩ :=
      (@Untouched.refl (fun _ => True) _ _ _ live).freshFilterOrder well well (.any w h)
    exact ⟨order, _, Prod.ext ((current.fst_filterOrder well live kept).trans fresh) rfl⟩

/-- Once the filter order of an object has been asked for, it is kept beside the mixin order that was given before. -/
theorem kept_mixinOrder_of_filterOrder (well : Proper w) (current : MixinOrdersCurrent w) (numbered : Numbered w)
    (live : w.live? h = some o) (asked : (Interception.filterOrder h).exec w = (.ok filters, v)) : ∃ p mixins,
      v.live? h = some p ∧ p.unordered = o.unordered ∧ p.filterOrder = some filters ∧ p.mixinOrder = some mixins ∧
      ((Interception.mixinOrder h).exec w).1 = .ok mixins := by
  obtain ⟨-, alike, p, there, keptFilters⟩ := kept_of_filterOrder well asked
  have wellAfter : Proper v := by simpa only [asked] using well.filterOrder h
  have currentAfter : MixinOrdersCurrent v := by simpa only [asked] using current.filterOrder well h
  have numberedAfter : Numbered v := by simpa only [asked] using numbered.filterOrder well h
  obtain ⟨mixins, keptMixins⟩ := Option.ne_none_iff_exists'.1
    (numberedAfter.mixed h p there (keptFilters ▸ Option.some_ne_none filters))
  obtain ⟨x, untouched⟩ := Untouched.of_setting (v := w)
    (alike.comp Object.setting fun o => (Object.setting_unordered o).symm) there
  have same := untouched.before
  rw [live] at same
  cases same
  obtain ⟨order, first, second⟩ := untouched.computeMixinOrder well wellAfter
  rw [currentAfter h p mixins there keptMixins] at second
  cases second
  have view := alike.view h
  rw [(World.live?_eq_some_iff.1 live).1, (World.live?_eq_some_iff.1 there).1] at view
  exact ⟨p, mixins, there, Option.some.inj view, keptFilters, keptMixins, (current.fst_mixinOrder well live).trans first⟩

/-- Once the filter order of an object has been asked for, what its calls are searched in stands. -/
theorem stands_lineup (well : Proper w) (current : MixinOrdersCurrent w) (numbered : Numbered w)
    (live : w.live? h = some o) (name : String) : ∃ v,
      (Interception.filterOrder h).exec w = (.ok (w.lineup h name).filters, v) ∧
      ((Interception.mixinOrder h).exec w).1 = .ok (w.lineup h name).mixins ∧
      ((Update.precedenceOrder o.cls).exec w).1 = .ok (w.lineup h name).classes ∧
      v = { w with objects := v.objects } ∧ Heap.Alike Object.unordered w.objects v.objects ∧
      (w.lineup h name).Stands v.objects := by
  obtain ⟨filters, v, asked⟩ := current.exists_filterOrder well live
  obtain ⟨is, alike, -⟩ := kept_of_filterOrder well asked
  obtain ⟨p, mixins, there, looks, keptFilters, keptMixins, mixed⟩ :=
    kept_mixinOrder_of_filterOrder well current numbered live asked
  obtain ⟨classes, b, done, lin, -⟩ := well.exec_precedenceOrder (well.classed.cls h o live)
  have classed : ((Update.precedenceOrder o.cls).exec w).1 = .ok classes := congrArg Prod.fst done
  have teaching : Heap.Alike Object.teaching w.objects v.objects :=
    alike.comp Object.teaching fun o => (Object.teaching_unordered o).symm
  have line : w.lineup h name = ⟨h, name, o.isClass, o.cls, filters, mixins, o.methods.get? name, classes,
      fun c => (w.objects.class? c).bind (·.methods.get? name)⟩ := by
    unfold World.lineup
    rw [World.isClass, live, asked, mixed]
    simp only [Option.map_some, Option.getD_some, classed]
    rfl
  rw [line]
  refine ⟨v, asked, mixed, classed, is, alike, ?_⟩
  constructor
  case receiver =>
    obtain ⟨found, alive⟩ := World.live?_eq_some_iff.1 there
    have isClass : p.isClass = o.isClass := by rw [← Object.isClass_unordered, looks, Object.isClass_unordered]
    have methods : p.methods = o.methods := (congrArg Object.methods looks :)
    exact ⟨p, found, alive, isClass, (congrArg Object.cls looks :), by rw [methods], keptFilters, keptMixins⟩
  case classes =>
    rw [Heap.supersOf_of_teaching teaching]
    exact lin
  case taught => exact fun c _ => Heap.taught_of_teaching teaching c name

/-- The entries of a lineup that stands are told apart, if no filter is the receiver's own method of the name. -/
theorem Lineup.Stands.distinct {line : Lineup} (stands : line.Stands v.objects) (current : MixinOrdersCurrent v)
    (numbered : Numbered v) (apart : ∀ entry ∈ line.filters, entry.definer = none → entry.name ≠ line.name) :
    line.Distinct := by
  obtain ⟨p, live, -, -, own, filters, mixins⟩ := stands.exists_live
  constructor
  case filters => exact numbered.keys _ p _ live filters
  case mixins => exact Interception.nodup_of_computeMixinOrder (Prod.ext (current _ p _ live mixins) rfl)
  case own =>
    intro entry member noDefiner method is same
    rw [is] at own
    exact apart entry member noDefiner
      ((numbered.entry _ p _ live filters entry member noDefiner).2 line.name method own same.symm).symm

/-- A call in which filters take part asks for the filter order anyhow. -/
theorem Invocation.exec_call_of_filterOrder (live : w.live? h = some o) (there : v.live? h = some p)
    (is : v = { w with objects := v.objects }) (asked : (Interception.filterOrder h).exec w = (.ok filters, v))
    (again : (Interception.filterOrder h).exec v = (.ok filters, v)) (simple : interceptable name mods = true)
    (filtered : w.settings.filtersEnabled = true) (unguarded : w.guardDepth = 0) (outside : insideFilterOf w h = false)
    (room : w.stack.depth < w.settings.maxDepth) :
    (call host h name args mods).exec w = (call host h name args mods).exec v := by
  have stack : v.stack = w.stack := (congrArg World.stack is :)
  have settings : v.settings = w.settings := (congrArg World.settings is :)
  have guardDepth : v.guardDepth = w.guardDepth := (congrArg World.guardDepth is :)
  have outsideAfter : insideFilterOf v h = false := by
    unfold insideFilterOf at outside ⊢
    rwa [stack]
  have first : (firstFilter host h).exec w = (firstFilter host h).exec v := by
    rw [exec_firstFilter_of_filterOrder filtered unguarded outside asked,
      exec_firstFilter_of_filterOrder (settings ▸ filtered) (guardDepth ▸ unguarded) outsideAfter again]
  have resolves : (resolve host h name mods).exec w = (resolve host h name mods).exec v := by
    unfold resolve
    rw [simple]
    simp only [Bool.not_true, Bool.false_eq_true, if_false]
    rw [Action.exec_bind, first, ← Action.exec_bind]
  unfold call
  rw [Action.exec_bind_of_ok (Action.exec_get _), Action.exec_bind_of_ok (Action.exec_get _), stack, settings,
    if_neg (Nat.not_le.2 room), Action.exec_liftM_bind_of_ok (Update.exec_object_of_live live),
    Action.exec_liftM_bind_of_ok (Update.exec_object_of_live there), Action.exec_bind, resolves, ← Action.exec_bind]

end lineup

/-! ## Whole chains -/

namespace Lineup

/-- Calls of a name on an object follow a chain, whatever host they have in which guards are constant. -/
structure Followed (line : Lineup) (lets : Predicate → Bool) (w : World) : Prop where
  /-- A call starts the first element. -/
  starts : ∀ {host e args mods}, line.GuardsConstant host lets → mods.ignorePermissions = true →
    interceptable line.name mods = true → w.stack.depth < w.settings.maxDepth → (line.chain lets).head? = some e →
      line.Starts host e args (call host line.receiver line.name args mods) w
  /-- Without any element, a call ends as one that finds no method. -/
  unknown : ∀ {host args mods}, line.GuardsConstant host lets → mods.ignorePermissions = true →
    interceptable line.name mods = true → w.stack.depth < w.settings.maxDepth → (line.chain lets).head? = none →
      ∃ v, v = { w with objects := v.objects } ∧ Heap.Alike Object.unordered w.objects v.objects ∧
        (call host line.receiver line.name args mods).exec w =
          (answerNotFound host line.receiver line.name args mods).exec v
  /-- From a running element, a next call starts the element behind it. -/
  continues : ∀ {host} {k : Nat} {e i v frame e' args}, line.GuardsConstant host lets → (line.chain lets)[k]? = some e →
    line.Active e i v → v.stack.get? i = some frame → (line.chain lets)[k + 1]? = some e' →
      line.Starts host e' (args.getD frame.arguments) (next host args) v
  /-- From the last element, a next call ends in nil. -/
  ends : ∀ {host} {k : Nat} {e i v args}, line.GuardsConstant host lets → (line.chain lets)[k]? = some e →
    line.Active e i v → (line.chain lets)[k + 1]? = none → ∃ x, (next host args).exec v = some (.ok .nil, x)
  /-- However a running element goes on, it stays the running element, so that a further next call does the same. -/
  stays : ∀ {k : Nat} {e i v x}, (line.chain lets)[k]? = some e → line.Active e i v →
    Relation.ReflTransGen (line.Step lets) v x → line.Active e i x

variable {line : Lineup} {lets : Predicate → Bool} {v w : World}

/-- Where a lineup stands whose entries are told apart, its chain is followed. -/
theorem Ready.followed (ready : line.Ready w) (distinct : line.Distinct) (direct : line.Direct lets)
    (filtered : w.settings.filtersEnabled = true) (outside : insideFilterOf w line.receiver = false) :
    line.Followed lets w := by
  have behind : ∀ {k : Nat} {e}, (line.chain lets)[k]? = some e → ∃ rest, line.Place lets e rest ∧
      rest.head? = (line.chain lets)[k + 1]? ∧ ∀ e' ∈ rest, e'.method.kind ≠ .aliased := by
    intro k e found
    exact ⟨_, place_of_getElem? found, by rw [List.head?_drop], fun e' member => direct e' (List.mem_of_mem_drop member)⟩
  constructor
  case starts =>
    intro host e args mods constant ignores simple room first
    exact (ready.exec_call constant ignores simple filtered outside room direct args).1 e first
  case unknown =>
    intro host args mods constant ignores simple room none
    obtain ⟨b, filled, ran⟩ := (ready.exec_call constant ignores simple filtered outside room direct args).2 none
    exact ⟨_, rfl, filled.alike.comp Object.unordered fun o => o.unordered_withoutPrecedence.symm, ran⟩
  case continues =>
    intro host k e i x frame e' args constant found active here second
    obtain ⟨rest, place, head, plain⟩ := behind found
    exact (active.exec_next constant distinct here place plain args).1 e' (head.trans second)
  case ends =>
    intro host k e i x args constant found active last
    obtain ⟨rest, place, head, plain⟩ := behind found
    obtain ⟨frame, here, -⟩ := active.frame
    obtain ⟨y, -, ran⟩ := (active.exec_next constant distinct here place plain args).2 (head.trans last)
    exact ⟨y, ran⟩
  case stays =>
    intro k e i x y found active steps
    obtain ⟨rest, place, -, plain⟩ := behind found
    exact active.steps distinct place plain steps

/-- It is followed before orders are filled in as it is afterwards, where calls do not tell the difference. -/
theorem Followed.of_calls (followed : line.Followed lets v) (is : v = { w with objects := v.objects })
    (alike : Heap.Alike Object.unordered w.objects v.objects)
    (calls : ∀ {host args mods}, interceptable line.name mods = true → w.stack.depth < w.settings.maxDepth →
      (call host line.receiver line.name args mods).exec w = (call host line.receiver line.name args mods).exec v) :
    line.Followed lets w := by
  have stack : v.stack = w.stack := (congrArg World.stack is :)
  have settings : v.settings = w.settings := (congrArg World.settings is :)
  refine { followed with starts := ?_, unknown := ?_ }
  · intro host e args mods constant ignores simple room first
    obtain ⟨frame, mods', u, opens, back, stays, ran⟩ :=
      @followed.starts _ e args mods constant ignores simple (by rwa [stack, settings]) first
    exact ⟨frame, mods', u, stack ▸ opens, back, stays, (calls simple room).trans ran⟩
  · intro host args mods constant ignores simple room none
    obtain ⟨x, filled, more, ran⟩ :=
      @followed.unknown _ args mods constant ignores simple (by rwa [stack, settings]) none
    exact ⟨x, by rw [filled, is], alike.trans more, (calls simple room).trans ran⟩

end Lineup

/-- A name that two classes, one of them a mixin, and an object define. Two filters are registered on the object, and the
guard of one of them lets no call pass. -/
def layeredSession : List Expr :=
  [foundation, Trial.createClass "M", Trial.define .instances "M" (Trial.method "f" (.next none)), Trial.createClass "C",
    Trial.define .instances "C" (Trial.method "f" (Trial.text "done")),
    Trial.define .instances "C" (Trial.method "g" (.next none)),
    Trial.define .instances "C" (Trial.method "k" (.next none)), Trial.createObject "o" "C",
    Trial.define .object "o" (Trial.method "f" (.next none)), Trial.addMixin .object "o" "M",
    .change (.addFilter .object (.name "o") ⟨Trial.text "k", some ⟨"shut", .literal (.bool false)⟩⟩),
    .change (.addFilter .object (.name "o") ⟨Trial.text "g", some ⟨"open", .literal (.bool true)⟩⟩)]

def layeredWorld : World :=
  (sessionWithin Heap.HandlesRemain 3 layeredSession).get (by decide +kernel)

/-- The object has the handle 4. -/
def layeredLine : Lineup :=
  layeredWorld.lineup ⟨4, 0⟩ "f"

/-- Once the filter order is asked for, the lineup stands in a world that is the same but for orders. -/
theorem exists_ready (well : Proper w) (current : MixinOrdersCurrent w) (numbered : Numbered w)
    (remain : w.objects.HandlesRemain) (live : w.live? h = some o) (unguarded : w.guardDepth = 0) {name : String}
    (apart : ∀ entry ∈ (w.lineup h name).filters, entry.definer = none → entry.name ≠ name) : ∃ v,
      (Interception.filterOrder h).exec w = (.ok (w.lineup h name).filters, v) ∧
      ((Interception.mixinOrder h).exec w).1 = .ok (w.lineup h name).mixins ∧
      ((Update.precedenceOrder o.cls).exec w).1 = .ok (w.lineup h name).classes ∧
      v = { w with objects := v.objects } ∧ Heap.Alike Object.unordered w.objects v.objects ∧
      (w.lineup h name).Ready v ∧ (w.lineup h name).Distinct := by
  obtain ⟨v, asked, mixed, classed, is, alike, stands⟩ := stands_lineup well current numbered live name
  have wellAfter : Proper v := by simpa only [asked] using well.filterOrder h
  have currentAfter : MixinOrdersCurrent v := by simpa only [asked] using current.filterOrder well h
  have numberedAfter : Numbered v := by simpa only [asked] using numbered.filterOrder well h
  have guardDepth : v.guardDepth = w.guardDepth := (congrArg World.guardDepth is :)
  exact ⟨v, asked, mixed, classed, is, alike,
    ⟨wellAfter, ⟨remain.of_layout alike.layout, stands⟩, guardDepth.trans unguarded⟩,
    stands.distinct currentAfter numberedAfter apart⟩

/-- In a reachable world, the orders of a live object are given. Outside of guards and of active filters of the object,
calls of a simple name follow the chain that these orders make, as long as no element of it is an alias and no filter is
the object's own method of that name. -/
theorem Reachable.calls_follow_chain {w : World} (reached : Reachable Heap.HandlesRemain w)
    (remain : w.objects.HandlesRemain) {h : Handle} {o : Object} (live : w.live? h = some o)
    (filtered : w.settings.filtersEnabled = true) (unguarded : w.guardDepth = 0) (outside : insideFilterOf w h = false)
    {name : String} {lets : Predicate → Bool} (direct : (w.lineup h name).Direct lets)
    (apart : ∀ entry ∈ (w.lineup h name).filters, entry.definer = none → entry.name ≠ name) :
    ((Interception.filterOrder h).exec w).1 = .ok (w.lineup h name).filters ∧
    ((Interception.mixinOrder h).exec w).1 = .ok (w.lineup h name).mixins ∧
    ((Update.precedenceOrder o.cls).exec w).1 = .ok (w.lineup h name).classes ∧
    (w.lineup h name).Followed lets w := by
  have remains : ∀ a : Objects, a.HandlesRemain → a.HandlesRemain := fun _ remain => remain
  have well := reached.proper remains
  have current := MixinOrdersCurrent.of_reachable remains reached
  have numbered := reached.numbered remains
  obtain ⟨v, asked, mixed, classed, is, alike, ready, distinct⟩ :=
    exists_ready well current numbered remain live unguarded apart
  refine ⟨congrArg Prod.fst asked, mixed, classed, ?_⟩
  have stack : v.stack = w.stack := (congrArg World.stack is :)
  have settings : v.settings = w.settings := (congrArg World.settings is :)
  have followed : (w.lineup h name).Followed lets v := by
    refine ready.followed distinct direct (settings ▸ filtered) ?_
    unfold insideFilterOf at outside ⊢
    rwa [stack]
  obtain ⟨p, -, there, -⟩ := ready.exists_live
  exact followed.of_calls is alike fun simple room =>
    exec_call_of_filterOrder live there is asked ready.keeps.2.exec_filterOrder simple filtered unguarded outside room

/-- One filter is skipped. A call starts the other one, and from there a next call starts the method of the mixin. -/
theorem calls_follow_chain_layered :
    (layeredLine.chain fun p => p.source == "open").map (fun e => (e.kind, e.definer, e.name)) =
      [(.filter true, some ⟨3, 0⟩, "g"), (.mixin true, some ⟨2, 0⟩, "f"), (.plain, none, "f"),
        (.plain, some ⟨3, 0⟩, "f")] ∧
    ∃ e e' v, (layeredLine.chain fun p => p.source == "open")[0]? = some e ∧
      (layeredLine.chain fun p => p.source == "open")[1]? = some e' ∧
      layeredLine.Starts (hostWithin layeredLine.Keeps 2) e []
        (call (hostWithin layeredLine.Keeps 2) ⟨4, 0⟩ "f" [] { ignorePermissions := true }) layeredWorld ∧
      layeredLine.Active e 0 v ∧
      layeredLine.Starts (hostWithin layeredLine.Keeps 2) e' [] (next (hostWithin layeredLine.Keeps 2) (some [])) v := by
  have links : (layeredLine.chain fun p => p.source == "open").map (fun e => (e.kind, e.definer, e.name)) =
      [(.filter true, some ⟨3, 0⟩, "g"), (.mixin true, some ⟨2, 0⟩, "f"), (.plain, none, "f"),
        (.plain, some ⟨3, 0⟩, "f")] := by
    decide +kernel
  refine ⟨links, ?_⟩
  obtain ⟨o, live⟩ := Option.isSome_iff_exists.1 (by decide +kernel : (layeredWorld.live? ⟨4, 0⟩).isSome = true)
  obtain ⟨-, -, -, followed⟩ := @Reachable.calls_follow_chain layeredWorld (.sessionWithin (Option.some_get _).symm)
    (by decide +kernel) ⟨4, 0⟩ o live (by decide +kernel) (by decide +kernel) (by decide +kernel) "f"
    (fun p => p.source == "open") (by unfold Lineup.Direct; decide +kernel) (by decide +kernel)
  have literal : ∀ p ∈ layeredLine.guards, literally (fun p => p.source == "open") p = true := by decide +kernel
  have constant : layeredLine.GuardsConstant (hostWithin layeredLine.Keeps 2) fun p => p.source == "open" :=
    fun p member => guardConstant_of_literally 1 (literal p member)
  have links0 := congrArg (·[0]?) links
  have links1 := congrArg (·[1]?) links
  simp only [List.getElem?_map] at links0 links1
  obtain ⟨e, first, is⟩ := Option.map_eq_some_iff.1 links0
  obtain ⟨e', second, -⟩ := Option.map_eq_some_iff.1 links1
  have kind : e.kind = .filter true := congrArg Prod.fst is
  have starts := @followed.starts _ e [] { ignorePermissions := true } constant rfl (by decide +kernel) (by decide +kernel)
    (by rw [List.head?_eq_getElem?]; exact first)
  have ⟨frame, _, u, opens, _⟩ := starts
  have bottom : layeredWorld.stack.depth = 0 := by decide +kernel
  rw [bottom] at opens
  have active := opens.active (opens.visible (.inr (by rw [kind]; exact FrameKind.noConfusion)))
  obtain ⟨f, here, -⟩ := active.frame
  exact ⟨e, e', _, first, second, starts, active,
    @followed.continues _ 0 e _ _ f e' (some []) constant first active here second⟩

end DynamicObjects
