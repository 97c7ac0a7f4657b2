import DynamicObjects.Proofs.Runs.Openings
import DynamicObjects.Proofs.Runs.Registry
import DynamicObjects.Proofs.Runs.Visibility

/-!
# Aliases

An alias leads to what is registered at its path, and from there on if that is an alias as well. Where it led last is
remembered, but what is remembered is used only while it is what is registered, so an alias comes to what the registry
alone leads to. What is registered for an object is the method that the object has there. Chains that break off or do
not end within so many hops fail, and the call with them.
-/
namespace DynamicObjects

open Invocation

/-! ## Hops -/

theorem MethodOf.exists_aliased (m : Method) (isAlias : m.kind = .aliased) : ∃ path, m.implementation = .aliased path := by
  cases implementation : m.implementation <;> rw [kind, implementation] at isAlias <;> cases isAlias
  exact ⟨_, rfl⟩

theorem MethodOf.kind_of_aliased {m : Method} {path : String} (aliased : m.implementation = .aliased path) :
    m.kind = .aliased := by
  rw [kind, aliased]

namespace World

/-- Where the registry alone leads from a method in so many hops. -/
def after (w : World) : Nat → Method → Option Method
  | 0, m => some m
  | n + 1, m =>
    match m.implementation with
    | .aliased path => (w.registry.get? path).bind fun r => w.after n r.method
    | _ => none

/-- What a method comes to from which the registry leads nowhere else: itself, unless it is an alias of nothing. -/
inductive Stops (w : World) (m : Method) : Except Failure Method → Prop where
  | direct (direct : m.kind ≠ .aliased) : w.Stops m (.ok m)
  | missing {path : String} (aliased : m.implementation = .aliased path) (vacant : w.registry.get? path = none) :
    w.Stops m (.error (.structural (.aliasTargetMissing path m.name)))

/-- What a method comes to by the registry alone, if that takes less than `limit` hops. -/
inductive Ends (w : World) (limit : Nat) (m : Method) : Except Failure Method → Prop where
  | within {n : Nat} {last : Method} {r : Except Failure Method} (hops : w.after n m = some last) (few : n < limit)
      (stops : w.Stops last r) : w.Ends limit m r
  | tooLong {link : Method} (hops : w.after limit m = some link) :
    w.Ends limit m (.error (.structural (.aliasChainTooLong link.name)))

section after

variable {v w : World} {m : Method} {path : String} {e : Registration}

theorem after_congr (same : w.registry = v.registry) : w.after = v.after := by
  funext n m
  induction n generalizing m with
  | zero => rfl
  | succ n ih => simp only [after, same, ih]

theorem after_hop (aliased : m.implementation = .aliased path) (found : w.registry.get? path = some e) (n : Nat) :
    w.after (n + 1) m = w.after n e.method := by
  simp only [after, aliased, found, Option.bind_some]

theorem after_add (n k : Nat) (m : Method) : w.after (n + k) m = (w.after n m).bind (w.after k) := by
  induction n generalizing m with
  | zero => rw [Nat.zero_add, after, Option.bind_some]
  | succ n ih =>
    rw [Nat.add_right_comm]
    simp only [after]
    split
    · rw [Option.bind_assoc]
      exact congrArg _ (funext fun r => ih r.method)
    · rfl

/-- What a hop leads to is registered. -/
theorem exists_registered {n : Nat} {target : Method} (hops : w.after (n + 1) m = some target) :
    ∃ path r, w.registry.get? path = some r ∧ r.method = target := by
  rw [after_add] at hops
  obtain ⟨link, -, last⟩ := Option.bind_eq_some_iff.1 hops
  simp only [after] at last
  split at last
  · obtain ⟨r, found, is⟩ := Option.bind_eq_some_iff.1 last
    exact ⟨_, r, found, Option.some.inj is⟩
  · cases last

/-- From a method on a cycle the registry leads on and on. -/
theorem exists_after_of_cycle {k : Nat} (cycle : w.after (k + 1) m = some m) (n : Nat) : ∃ b, w.after n m = some b := by
  have rounds : ∀ i, w.after (i * (k + 1)) m = some m := by
    intro i
    induction i with
    | zero => rw [Nat.zero_mul, after]
    | succ i ih => rw [Nat.succ_mul, after_add, ih, Option.bind_some, cycle]
  obtain ⟨i, same⟩ := Nat.exists_eq_add_of_le (Nat.le_mul_of_pos_right n (Nat.succ_pos k))
  have around := rounds n
  rw [same, after_add] at around
  obtain ⟨b, here, -⟩ := Option.bind_eq_some_iff.1 around
  exact ⟨b, here⟩

end after

namespace Stops

variable {v w : World} {n k : Nat} {a b c m : Method} {r s : Except Failure Method}

theorem of_registry (stops : v.Stops m r) (same : w.registry = v.registry) : w.Stops m r := by
  cases stops with
  | direct direct => exact .direct direct
  | missing aliased vacant => exact .missing aliased (same ▸ vacant)

theorem after_eq_none (stops : w.Stops m r) (k : Nat) : w.after (k + 1) m = none := by
  cases stops with
  | direct direct =>
    unfold after
    split
    · next aliased => exact absurd (MethodOf.kind_of_aliased aliased) direct
    · rfl
  | missing aliased vacant => simp only [after, aliased, vacant, Option.bind_none]

/-- An alias that does not lead anywhere leads to nothing. -/
theorem of_after_eq_none (isAlias : m.kind = .aliased) (nowhere : w.after 1 m = none) :
    ∃ e, w.Stops m (.error e) := by
  obtain ⟨path, aliased⟩ := m.exists_aliased isAlias
  cases found : w.registry.get? path with
  | none => exact ⟨_, .missing aliased found⟩
  | some r =>
    rw [after_hop aliased found] at nowhere
    cases nowhere

theorem unique (first : w.Stops m r) (second : w.Stops m s) : r = s := by
  cases first with
  | direct direct =>
    cases second with
    | direct => rfl
    | missing aliased => exact absurd (MethodOf.kind_of_aliased aliased) direct
  | missing aliased =>
    cases second with
    | direct direct => exact absurd (MethodOf.kind_of_aliased aliased) direct
    | missing aliased' =>
      cases aliased.symm.trans aliased'
      rfl

/-- No chain is longer than one that stops. -/
theorem le (stops : w.Stops b r) (hops : w.after n a = some b) (other : w.after k a = some c) : k ≤ n := by
  by_contra further
  obtain ⟨i, rfl⟩ := Nat.exists_eq_add_of_lt (Nat.not_le.1 further)
  rw [Nat.add_assoc, after_add, hops, Option.bind_some, stops.after_eq_none] at other
  cases other

end Stops

namespace Ends

variable {v w : World} {limit : Nat} {m : Method} {r s : Except Failure Method}

theorem of_registry (ends : v.Ends limit m r) (same : w.registry = v.registry) : w.Ends limit m r := by
  cases ends with
  | within hops few stops => exact .within (after_congr same ▸ hops) few (stops.of_registry same)
  | tooLong hops => exact .tooLong (after_congr same ▸ hops)

/-- One hop before. -/
theorem hop {path : String} {e : Registration} (aliased : m.implementation = .aliased path)
    (found : w.registry.get? path = some e) (ends : w.Ends limit e.method r) : w.Ends (limit + 1) m r := by
  cases ends with
  | within hops few stops => exact .within ((after_hop aliased found _).trans hops) (Nat.succ_lt_succ few) stops
  | tooLong hops => exact .tooLong ((after_hop aliased found _).trans hops)

theorem unique (first : w.Ends limit m r) (second : w.Ends limit m s) : r = s := by
  cases first with
  | within hops few stops =>
    cases second with
    | within hops' few' stops' =>
      cases Nat.le_antisymm (stops'.le hops' hops) (stops.le hops hops')
      cases hops.symm.trans hops'
      exact stops.unique stops'
    | tooLong hops' => exact absurd (stops.le hops hops') (Nat.not_le.2 few)
  | tooLong hops =>
    cases second with
    | within hops' few stops => exact absurd (stops.le hops' hops) (Nat.not_le.2 few)
    | tooLong hops' =>
      cases hops.symm.trans hops'
      rfl

/-- Where the registry leads on to the limit or beyond it, the chain is too long. -/
theorem of_long {n : Nat} {target : Method} (long : limit ≤ n) (hops : w.after n m = some target) :
    ∃ name, w.Ends limit m (.error (.structural (.aliasChainTooLong name))) := by
  obtain ⟨k, rfl⟩ := Nat.exists_eq_add_of_le long
  rw [after_add] at hops
  obtain ⟨link, first, -⟩ := Option.bind_eq_some_iff.1 hops
  exact ⟨link.name, .tooLong first⟩

/-- A chain that runs into a cycle is too long. -/
theorem of_cycle {n k : Nat} {link : Method} (hops : w.after n m = some link) (cycle : w.after (k + 1) link = some link) :
    ∃ name, w.Ends limit m (.error (.structural (.aliasChainTooLong name))) := by
  obtain ⟨target, rest⟩ := exists_after_of_cycle cycle limit
  have all : w.after (n + limit) m = some target := by rw [after_add, hops, Option.bind_some, rest]
  exact of_long (Nat.le_add_left limit n) all

end Ends

end World

/-! ## Following aliases -/

/-- What is remembered of aliases makes no difference to what they lead to, and nothing else changes. -/
theorem Definition.exec_follow {w : World} (dated : w.Dated) (limit : Nat) (m : Method) :
    ∃ r targets, w.Ends limit m r ∧ (follow limit m).exec w = (r, { w with aliasTargets := targets }) := by
  induction limit generalizing w m with
  | zero => exact ⟨_, w.aliasTargets, .tooLong rfl, rfl⟩
  | succ limit ih =>
    unfold follow
    split
    · next path aliased =>
      cases found : w.registry.get? path with
      | none =>
        refine ⟨_, w.aliasTargets, .within rfl (Nat.succ_pos limit) (.missing aliased found), ?_⟩
        exact Update.exec_bind_of_error (exec_followOnce_of_missing m found) _
      | some e =>
        obtain ⟨n, targets, done, forgetful, is⟩ := exec_followOnce m found
        cases is dated
        obtain ⟨r, targets', ends, rest⟩ := ih (dated.of_knows forgetful le_rfl) e.method
        have here : w.Ends limit e.method r := ends.of_registry rfl
        exact ⟨r, targets', here.hop aliased found, (Update.exec_bind_of_ok done _).trans rest⟩
    · next other =>
      have direct : m.kind ≠ .aliased := by
        intro isAlias
        obtain ⟨path, aliased⟩ := m.exists_aliased isAlias
        exact other path aliased
      exact ⟨.ok m, w.aliasTargets, .within rfl (Nat.succ_pos limit) (.direct direct), rfl⟩

/-- A method that is registered. If it is so for an object, that is live and has the method at the path. -/
def World.IsCurrent (w : World) (m : Method) : Prop :=
  ∃ path r, w.registry.get? path = some r ∧ r.method = m ∧
    ∀ d, r.owner = some d → ∃ site : Site, site.on = d ∧ w.pathOf site = path ∧ w.Defines site m

/-- A proper world in which what is known of methods is dated and what is registered is defined. -/
structure Tidy (w : World) : Prop where
  proper : Proper w
  dated : w.Dated
  entries : EntriesSound w

namespace Tidy

variable {terms : Terms} {u v w : World} (tidy : Tidy v)

include tidy

theorem proceeds (remain : ∀ a, terms.good a → a.HandlesRemain) (path : Proceeds terms v w) : Tidy w :=
  ⟨tidy.proper.evolves remain path.evolves, tidy.proper.dated remain path tidy.dated,
    tidy.entries.develops tidy.proper remain path.develops⟩

/-- What is changed aside leaves a world tidy. -/
theorem mindful (mindful : Mindful v w) : Tidy w := by
  have path : Proceeds ⟨fun _ => False, False⟩ v w := .single (.aside mindful)
  exact tidy.proceeds (fun _ => False.elim) path

theorem along {α : Type} {f : Update α} {r : Except Failure α} (along : f.Along (Deed Hushed ⟨fun _ => False, False⟩))
    (done : f.exec v = (r, w)) : Tidy w := by
  have path : Calmly ⟨fun _ => False, False⟩ v (f.exec v).2 := along v
  rw [done] at path
  exact tidy.proceeds (fun _ => False.elim) path.proceeds

theorem brings {α : Type} {host : Host} {tallied : Prop} {within : Task → World → Prop} {pre : World → Prop}
    {f : Host → Action α} {post : Except Failure α → World → Prop} (faithful : Faithful terms host)
    (brings : Brings terms host tallied within pre f post) (met : pre v) {r : Except Failure α}
    (done : (f host).exec v = some (r, w)) : Tidy w :=
  tidy.proceeds faithful.remain ((brings faithful v tidy.proper met).2 r w done).1

theorem restack (stack : FrameStack) : Tidy { v with stack } :=
  tidy.mindful (.of_objects rfl rfl rfl rfl rfl rfl le_rfl)

theorem opened (frame : Frame) : Tidy (v.opened frame) :=
  (tidy.restack (v.stack.push frame)).mindful (.modify _ frame.object (fun _ => rfl) fun o _ => .held o)

/-- Where an alias leads to a method, less than the greatest number of hops leads there. -/
theorem hops {m target : Method} (leads : (Definition.followAliases m).exec v = (.ok target, w)) :
    ∃ n, n < Definition.maxHops ∧ w.after n m = some target ∧ target.kind ≠ .aliased := by
  obtain ⟨r, targets, ends, done⟩ := Definition.exec_follow tidy.dated Definition.maxHops m
  cases done.symm.trans leads
  cases ends with
  | within hops few stops =>
    cases stops with
    | direct direct =>
      have same : World.after { v with aliasTargets := targets } = v.after := World.after_congr rfl
      exact ⟨_, few, same ▸ hops, direct⟩

/-- What an alias leads to is current. -/
theorem isCurrent {n : Nat} {m target : Method} (hops : v.after (n + 1) m = some target) : v.IsCurrent target := by
  obtain ⟨path, r, found, rfl⟩ := World.exists_registered hops
  exact ⟨path, r, found, rfl, fun d owned => tidy.entries.exists_site found owned⟩

end Tidy

theorem Reachable.tidy {good : Objects → Prop} (remain : ∀ a, good a → a.HandlesRemain) {w : World}
    (reached : Reachable good w) : Tidy w := by
  obtain ⟨settings, path⟩ := reached.proceeds remain
  exact Tidy.proceeds ⟨proper_start settings, .start settings, .start settings⟩ remain path

/-! ## Runs -/

section runs

variable {terms : Terms} {host : Host} {h : Handle} {frame : Frame} {registered method : Method} {asked : CallModifiers}
  {v w : World} (faithful : Faithful terms host) (tidy : Tidy w)

include tidy

/-- What is found is run as the method it leads to. -/
theorem Invocation.Enters.hops {called : String} {resolved : Resolved} {args : List Value} {mods : CallModifiers}
    (enters : Enters h called resolved args mods w (.run frame method asked) v) :
    ∃ n, n < Definition.maxHops ∧ v.after n resolved.method = some method ∧ method.kind ≠ .aliased := by
  cases enters with
  | run leads => exact tidy.hops leads

include faithful

theorem Invocation.Continues.hops {i : Nat} {args : Option (List Value)}
    (continues : Continues host i args w registered (.run frame method asked) v) :
    ∃ n, n < Definition.maxHops ∧ v.after n registered = some method ∧ method.kind ≠ .aliased := by
  cases continues with
  | @found above _ _ u _ _ here behind enters =>
    have after : Tidy u := tidy.brings faithful (brings_continuation (Shifted.start w above.object) rfl) (.refl w) behind
    exact enters.hops (after.restack _)

/-- However a task comes to a run, it is one of the method that what was found leads to. -/
theorem Opening.hops (begins : terms.good w.objects) {task : Task}
    (opening : Opening host task w registered (.run frame method asked) v) :
    ∃ n, n < Definition.maxHops ∧ v.after n registered = some method ∧ method.kind ≠ .aliased := by
  have remain := faithful.remain
  cases opening with
  | @called h name _ mods _ u _ resolved _ found enters =>
    have after : Tidy u := tidy.brings faithful (brings_resolve False.elim h name mods) (.refl w) found
    exact enters.hops after
  | @passedOn s given args i _ u _ _ _ evaluated stands follows =>
    have after : Tidy u := tidy.brings faithful (Script.keeps_givenTo s given w begins) rfl evaluated
    exact follows.hops faithful after
  | @distributed above target mods container _ _ _ _ ensemble distributes =>
    have marked : Tidy (asEnsemble w.stack.depth (w.opened above)) := (tidy.opened above).restack _
    have searched : ∀ {name rest u x} {found : Option (Method × Option Handle)},
        (subMethod above.object above.arguments mods).exec (asEnsemble w.stack.depth (w.opened above)) =
          (.ok (some (name, rest)), u) → (searchObject container name).exec u = (.ok found, x) → Tidy x :=
      fun {name _ _ _ _} means found =>
        (marked.along (Deed.along_subMethod above.object above.arguments mods) means).along
          (Deed.along_searchObject container name) found
    cases distributes with
    | sub means found keeps leads => exact (searched means found).hops leads
    | behind means missing follows => exact follows.hops faithful (searched means missing)

end runs

/-! ## Calls that fail -/

section fails

variable {host : Host} {h : Handle} {w : World} {e : Failure}

/-- What was found is run as what it comes to; where that is a failure, the positions pushed for it are popped. -/
theorem Invocation.exec_enter_of_ends (dated : w.Dated) {called : String} {resolved : Resolved} (args : List Value)
    (mods : CallModifiers) {r : Except Failure Method} (ends : w.Ends Definition.maxHops resolved.method r) :
    ∃ targets, (enter host h called resolved args mods).exec w = match r with
      | .ok method => (host.run (frameFor h called resolved method args mods) method mods).exec
          { w with aliasTargets := targets }
      | .error e => some (.error e, World.lowered { w with aliasTargets := targets } h resolved.pushedFilterPosition
          resolved.pushedMixinPosition) := by
  obtain ⟨s, targets, ended, done⟩ := Definition.exec_follow dated Definition.maxHops resolved.method
  cases ended.unique ends
  refine ⟨targets, ?_⟩
  unfold enter
  rw [Action.exec_settle_bind, Action.exec_liftM]
  change Option.bind (some ((Definition.follow _ _).exec w)) _ = _
  rw [done]
  cases r with
  | ok method => rfl
  | error e => exact Action.exec_liftM_bind_of_ok (exec_popPositions _ _ _ _) _

/-- A next call ends as entering what it found does. -/
theorem Invocation.exec_next_of_enter {i : Nat} {frame : Frame} {resolved : Resolved} {done : Bool}
    {args : Option (List Value)} {u x : World} (stands : w.stack.nextIndex? = some i)
    (here : w.stack.get? i = some frame) (behind : (continuation host frame).exec w = some (.ok ⟨some resolved, done⟩, u))
    {r : Except Failure Value}
    (enters : (enter host frame.object frame.called resolved (args.getD frame.arguments) {}).exec (offTo i frame.kind u) =
      some (r, x)) : ∃ v, (next host args).exec w = some (r, v) := by
  have passes : (passOn host i frame args w.stack.inSubMethod).exec w = some (r, backFrom i frame.kind x) := by
    unfold passOn
    rw [Action.exec_bind_of_ok behind]
    dsimp only
    rw [exec_duringNext, enters]
    rfl
  rw [exec_next]
  simp only [stands]
  rw [exec_nextFrom here, passes]
  exact ⟨_, rfl⟩

end fails

/-! ## Aliases in reachable worlds -/

/-- Following an alias comes to what the registry alone leads to, whatever is remembered, and only what is remembered
changes. Chains that are too long fail, as all do that run into a cycle. -/
structure World.AliasesLead (w : World) : Prop where
  ends : ∀ m r, ((Definition.followAliases m).exec w).1 = r ↔ w.Ends Definition.maxHops m r
  still : ∀ m, ∃ targets, ((Definition.followAliases m).exec w).2 = { w with aliasTargets := targets }
  long : ∀ n m target, Definition.maxHops ≤ n → w.after n m = some target →
    ∃ name, ((Definition.followAliases m).exec w).1 = .error (.structural (.aliasChainTooLong name))
  cyclic : ∀ n k m link, w.after n m = some link → w.after (k + 1) link = some link →
    ∃ name, ((Definition.followAliases m).exec w).1 = .error (.structural (.aliasChainTooLong name))

/-- Whatever is done, by calls, next calls or ensembles, a run that comes of it is one of the method that what was found
leads to, and if that was an alias, of a current one. -/
def World.RunsCurrent (w : World) (host : Host) : Prop :=
  ∀ task frame method asked v, AsksFor host task w (.run frame method asked) v →
    ∃ registered n, Opening host task w registered (.run frame method asked) v ∧ n < Definition.maxHops ∧
      v.after n registered = some method ∧ method.kind ≠ .aliased ∧ (0 < n → v.IsCurrent method)

/-- Calls run what the method they found comes to. Where that is a failure, calls and next calls fail with it, and the
marks of open calls are left as they were. -/
structure World.CallsFollow (w : World) (host : Host) : Prop where
  runs : ∀ h o name args mods resolved u method, w.live? h = some o → w.stack.depth < w.settings.maxDepth →
    (resolve host h name mods).exec w = some (.ok (some resolved), u) →
    u.Ends Definition.maxHops resolved.method (.ok method) →
    ∃ targets, (call host h name args mods).exec w =
      (host.run (frameFor h name resolved method args mods) method mods).exec { u with aliasTargets := targets }
  fails : ∀ h o name args mods resolved u e, w.live? h = some o → w.stack.depth < w.settings.maxDepth →
    (resolve host h name mods).exec w = some (.ok (some resolved), u) →
    u.Ends Definition.maxHops resolved.method (.error e) →
    ∃ v, (call host h name args mods).exec w = some (.error e, v) ∧ Balanced w v
  nextFails : ∀ i frame args resolved done u e, w.stack.nextIndex? = some i → w.stack.get? i = some frame →
    (continuation host frame).exec w = some (.ok ⟨some resolved, done⟩, u) →
    u.Ends Definition.maxHops resolved.method (.error e) →
    ∃ v, (next host args).exec w = some (.error e, v) ∧ Balanced w v

theorem Tidy.aliasesLead {w : World} (tidy : Tidy w) : w.AliasesLead := by
  have ends : ∀ m, w.Ends Definition.maxHops m ((Definition.followAliases m).exec w).1 := by
    intro m
    obtain ⟨r, targets, ends, done⟩ := Definition.exec_follow tidy.dated Definition.maxHops m
    rwa [Definition.followAliases, done]
  refine ⟨fun m r => ⟨fun same => same ▸ ends m, fun other => (ends m).unique other⟩, fun m => ?_,
    fun n m target long hops => ?_, fun n k m link hops cycle => ?_⟩
  · obtain ⟨r, targets, -, done⟩ := Definition.exec_follow tidy.dated Definition.maxHops m
    exact ⟨targets, by rw [Definition.followAliases, done]⟩
  · obtain ⟨name, tooLong⟩ := World.Ends.of_long long hops
    exact ⟨name, (ends m).unique tooLong⟩
  · obtain ⟨name, tooLong⟩ := World.Ends.of_cycle hops cycle
    exact ⟨name, (ends m).unique tooLong⟩

section reachable

variable {good : Objects → Prop} (remain : ∀ a, good a → a.HandlesRemain) {w : World} (tidy : Tidy w) (depth : Nat)

include remain tidy

theorem Tidy.runsCurrent (begins : good w.objects) : w.RunsCurrent (hostWithin good depth).failing := by
  intro task frame method asked v asks
  have path : Proceeds ⟨good, False⟩ w v := (asks.inside remain tidy.proper begins).1
  have after : Tidy v := tidy.proceeds remain path
  obtain ⟨registered, opening⟩ := asks.opens
  obtain ⟨n, few, hops, direct⟩ := opening.hops (faithful_hostWithin remain depth).failing tidy begins
  refine ⟨registered, n, opening, few, hops, direct, fun further => ?_⟩
  obtain ⟨n, rfl⟩ := Nat.exists_eq_add_of_lt further
  exact after.isCurrent (Nat.zero_add n ▸ hops)

theorem Tidy.callsFollow : w.CallsFollow (hostWithin good depth) := by
  have faithful := faithful_hostWithin remain depth
  have searched : ∀ {h name mods resolved u},
      (resolve (hostWithin good depth) h name mods).exec w = some (.ok (some resolved), u) → Tidy u :=
    fun {h name mods _ _} found => tidy.brings faithful (brings_resolve False.elim h name mods) (.refl w) found
  refine ⟨fun h o name args mods resolved u method live room found ends => ?_,
    fun h o name args mods resolved u e live room found ends => ?_,
    fun i frame args resolved done u e stands here behind ends => ?_⟩
  · obtain ⟨targets, enters⟩ := exec_enter_of_ends (searched found).dated args mods ends
    exact ⟨targets, (exec_call_of_resolve args live room found).trans enters⟩
  · obtain ⟨targets, enters⟩ := exec_enter_of_ends (searched found).dated args mods ends
    have called := (exec_call_of_resolve args live room found).trans enters
    exact ⟨_, called, tidy.proper.balanced remain (steady_call h name args mods) trivial called⟩
  · have after : Tidy u := tidy.brings faithful (brings_continuation (Shifted.start w frame.object) rfl) (.refl w) behind
    have marked : Tidy (offTo i frame.kind u) := after.restack _
    have ended : (offTo i frame.kind u).Ends Definition.maxHops resolved.method (.error e) := ends.of_registry rfl
    obtain ⟨targets, enters⟩ := exec_enter_of_ends marked.dated (args.getD frame.arguments) {} ended
    obtain ⟨v, passed⟩ := exec_next_of_enter stands here behind enters
    exact ⟨v, passed, tidy.proper.balanced remain (steady_next args) trivial passed⟩

end reachable

/-- An alias of what is registered at a path. -/
def Trial.aliasOf (name path : String) : MethodSpec :=
  { Trial.method name (.literal .nil) with implementation := .aliased path }

/-- An alias is followed, and then what it led to is defined anew. Another alias leads to nothing. -/
def renewedSession : List Expr :=
  [foundation, Trial.createClass "C", Trial.define .instances "C" (Trial.method "version" (Trial.text "v1")),
    Trial.define .instances "C" (Trial.aliasOf "ver" "::classes::C::version"),
    Trial.define .instances "C" (Trial.aliasOf "lost" "::classes::C::nothing"), Trial.createObject "o" "C",
    .dispatch (.name "o") (.list []) (Trial.text "ver") {},
    Trial.define .instances "C" (Trial.method "version" (Trial.text "v2"))]

def renewedWorld : World :=
  (sessionWithin Heap.HandlesRemain 5 renewedSession).get (by decide +kernel)

/-- In a reachable world, following an alias comes to what the registry alone leads to, whatever is remembered of
aliases. What is registered for an object is the method that the object, which is live, has at that path. So what is run
for an alias is a method that is registered at that time, and if that is for an object, has still there. Chains that
break off or do not come to an end in less than the greatest number of hops, like those that run into a cycle, fail, and
with them the calls that found them, which leave the marks of open calls as they were. -/
theorem Reachable.aliasesCurrent {w : World} (reached : Reachable Heap.HandlesRemain w) : w.AliasesLead ∧
    (∀ path r d, w.registry.get? path = some r → r.owner = some d →
      ∃ site : Site, site.on = d ∧ w.pathOf site = path ∧ w.Defines site r.method) ∧
    (w.objects.HandlesRemain → ∀ depth, w.RunsCurrent (hostWithin Heap.HandlesRemain depth).failing) ∧
    ∀ depth, w.CallsFollow (hostWithin Heap.HandlesRemain depth) := by
  have remain : ∀ a : Objects, a.HandlesRemain → a.HandlesRemain := fun _ remain => remain
  have tidy := reached.tidy remain
  exact ⟨tidy.aliasesLead, fun path r d found owned => tidy.entries.exists_site found owned,
    fun begins depth => tidy.runsCurrent remain depth begins, fun depth => tidy.callsFollow remain depth⟩

/-- The alias led to the first definition, and now leads to the fourth. Whatever is run for an alias is current. A call
of the other alias, of the object with the handle 3, fails and leaves the marks of open calls as they were. -/
theorem aliasesCurrent_renewed : renewedWorld.aliasTargets.map (·.2.epoch) = [1] ∧
    (∃ ver version, renewedWorld.registry.get? "::classes::C::ver" = some ver ∧
      renewedWorld.after 1 ver.method = some version ∧ version.epoch = 4 ∧
      ((Definition.followAliases ver.method).exec renewedWorld).1 = .ok version) ∧
    renewedWorld.RunsCurrent (hostWithin Heap.HandlesRemain 4).failing ∧
    ∃ e v, (call (hostWithin Heap.HandlesRemain 4) ⟨3, 0⟩ "lost" [] {}).exec renewedWorld = some (.error e, v) ∧
      Balanced renewedWorld v := by
  obtain ⟨leads, -, runs, calls⟩ := Reachable.aliasesCurrent (w := renewedWorld) (.sessionWithin (Option.some_get _).symm)
  refine ⟨by decide +kernel, ?_, runs (by decide +kernel) 4, ?_⟩
  · have listed : ((renewedWorld.registry.get? "::classes::C::ver").bind fun ver =>
        (renewedWorld.after 1 ver.method).map fun version => (version.kind, version.epoch)) = some (.scripted, 4) := by
      decide +kernel
    obtain ⟨ver, found, rest⟩ := Option.bind_eq_some_iff.1 listed
    obtain ⟨version, hop, both⟩ := Option.map_eq_some_iff.1 rest
    obtain ⟨scripted, number⟩ := Prod.mk.inj both
    have direct : version.kind ≠ .aliased := by
      rw [scripted]
      exact nofun
    exact ⟨ver, version, found, hop, number, (leads.ends _ _).2 (.within hop (by decide) (.direct direct))⟩
  · have searched : ((resolve (hostWithin Heap.HandlesRemain 4) ⟨3, 0⟩ "lost" {}).exec renewedWorld).bind (fun (r, u) =>
        r.toOption.join.map fun found => (found.method.kind, (u.after 1 found.method).isNone)) = some (.aliased, true) := by
      rw [hostWithin_eq_hostChecking]
      decide +kernel
    obtain ⟨⟨r, u⟩, resolved, rest⟩ := Option.bind_eq_some_iff.1 searched
    obtain ⟨found, is, both⟩ := Option.map_eq_some_iff.1 rest
    obtain ⟨isAlias, nowhere⟩ := Prod.mk.inj both
    have same : r = .ok (some found) := by
      match r with
      | .error e => cases is
      | .ok f => exact congrArg Except.ok is
    rw [same] at resolved
    obtain ⟨o, live⟩ := Option.isSome_iff_exists.1 (by decide +kernel : (renewedWorld.live? ⟨3, 0⟩).isSome = true)
    obtain ⟨e, stops⟩ := World.Stops.of_after_eq_none isAlias (Option.isNone_iff_eq_none.1 nowhere)
    have here : u.after 0 found.method = some found.method := rfl
    exact ⟨e, (calls 4).fails _ o _ [] _ found u e live (by decide +kernel) resolved (.within here (by decide) stops)⟩

/-- A chain of aliases with as many hops as there are steps in which aliases are followed, behind one with one hop less. -/
def chainSession : List Expr :=
  [foundation, Trial.createClass "C", Trial.define .instances "C" (Trial.method "a0" (Trial.text "end"))] ++
    (List.range 16).map (fun n => Trial.define .instances "C"
      (Trial.aliasOf ("a" ++ toString (n + 1)) ("::classes::C::a" ++ toString n))) ++
    [Trial.createObject "o" "C"]

def chainWorld : World :=
  (sessionWithin Heap.HandlesRemain 3 chainSession).get (by decide +kernel)

/-- The longer chain ends with a method, but it fails as if it were too long, and the method is said to be at fault. So
does a call of its first alias on the object with the handle 3, while one of the next alias runs the method. -/
theorem not_aliasesCurrent_chain : Reachable Heap.HandlesRemain chainWorld ∧ Definition.maxHops = 16 ∧
    (∃ r target, chainWorld.registry.get? "::classes::C::a16" = some r ∧ chainWorld.after 16 r.method = some target ∧
      target.kind ≠ .aliased ∧ target.name = "a0" ∧
      ((Definition.followAliases r.method).exec chainWorld).1 = .error (.structural (.aliasChainTooLong "a0"))) ∧
    (((hostWithin Heap.HandlesRemain 5).call ⟨3, 0⟩ "a15" [] {}).exec chainWorld).map
      (·.1.toOption.map Value.toText) = some (some "end") ∧
    (((hostWithin Heap.HandlesRemain 5).call ⟨3, 0⟩ "a16" [] {}).exec chainWorld).map (fun
      | (.error (.structural (.aliasChainTooLong name)), _) => name
      | _ => "") = some "a0" := by
  have reached : Reachable Heap.HandlesRemain chainWorld := .sessionWithin (Option.some_get _).symm
  have listed : ((chainWorld.registry.get? "::classes::C::a16").bind fun r =>
      (chainWorld.after 16 r.method).map fun target => (target.kind, target.name)) = some (.scripted, "a0") := by
    decide +kernel
  obtain ⟨r, found, rest⟩ := Option.bind_eq_some_iff.1 listed
  obtain ⟨target, hops, both⟩ := Option.map_eq_some_iff.1 rest
  obtain ⟨scripted, name⟩ := Prod.mk.inj both
  have direct : target.kind ≠ .aliased := by
    rw [scripted]
    exact nofun
  have leads := (reached.tidy fun _ remain => remain).aliasesLead
  refine ⟨reached, rfl, ⟨r, target, found, hops, direct, name, (leads.ends _ _).2 (name ▸ .tooLong hops)⟩, ?_⟩
  rw [hostWithin_eq_hostChecking]
  decide +kernel

end DynamicObjects
