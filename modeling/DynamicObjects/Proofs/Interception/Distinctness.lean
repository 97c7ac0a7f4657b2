import DynamicObjects.Proofs.Interception.Computation
import DynamicObjects.Proofs.Runs.Change

/-!
# The entries of computed orders

No two entries of a computed order have the same key. An entry without a defining class is a method of the object
itself; any other is defined by a mixin class, by the class of the object or by a class above one of these.
-/
namespace DynamicObjects.Interception

/-! ## Mixin orders -/

/-- Of every class the last place is kept. -/
theorem nodup_flatten (all : List Mixin) (own : List Handle) (mixins : List Mixin) :
    ((flatten all own mixins).map (·.target)).Nodup := by
  induction mixins with
  | nil => exact List.nodup_nil
  | cons m later ih =>
    unfold flatten
    split
    · exact ih
    · next kept =>
      simp only [Bool.or_eq_true, not_or, List.any_eq_true, beq_iff_eq, not_exists, not_and] at kept
      rw [List.map_cons, List.nodup_cons]
      refine ⟨fun member => ?_, ih⟩
      obtain ⟨m', listed, same⟩ := List.mem_map.1 member
      obtain ⟨m'', there, same'⟩ := mem_of_mem_flatten listed
      exact kept.1 m'' there (same'.trans same)

theorem nodup_of_computeMixinOrder {registered : List Mixin} {cls : Handle} {order : List Mixin} {w v : World}
    (done : (computeMixinOrder registered cls).exec w = (.ok order, v)) : (order.map (·.target)).Nodup := by
  unfold computeMixinOrder at done
  obtain ⟨classOrder, _, -, rest⟩ := Update.exec_bind_eq_ok done
  obtain ⟨_, _, -, rest⟩ := Update.exec_bind_eq_ok rest
  obtain ⟨_, _, -, rest⟩ := Update.exec_bind_eq_ok rest
  obtain ⟨gathered, _, -, rest⟩ := Update.exec_bind_eq_ok rest
  cases rest
  exact nodup_flatten _ _ _

/-! ## Filter orders -/

/-- Keeping the last places only changes guards. -/
theorem forall_keepLast {p : FilterEntry → Prop} (blind : ∀ entry guard, p entry → p { entry with guard }) {h : Handle}
    {mixins classOrder : List Handle} {before entries order : List FilterEntry} {w v : World}
    (kept : ∀ e ∈ before, p e) (all : ∀ e ∈ entries, p e)
    (done : (keepLast h mixins classOrder before entries).exec w = (.ok order, v)) : ∀ e ∈ order, p e := by
  induction entries generalizing before w with
  | nil =>
    cases done
    exact kept
  | cons entry later ih =>
    unfold keepLast at done
    rw [Update.exec_ite] at done
    have rest : ∀ e ∈ later, p e := fun e member => all e (List.mem_cons_of_mem entry member)
    split at done
    · exact ih kept rest done
    · obtain ⟨guard, u, -, done⟩ := Update.exec_bind_eq_ok done
      refine ih (fun e member => ?_) rest done
      rcases List.mem_append.1 member with earlier | last
      · exact kept e earlier
      · rw [List.mem_singleton.1 last]
        exact blind entry guard (all entry List.mem_cons_self)

/-- Of every key the last place is kept. -/
theorem nodup_keepLast {h : Handle} {mixins classOrder : List Handle} {before entries order : List FilterEntry}
    {w v : World} (distinct : (before.map FilterEntry.key).Nodup)
    (apart : ∀ e ∈ before, ∀ e' ∈ entries, e.key ≠ e'.key)
    (done : (keepLast h mixins classOrder before entries).exec w = (.ok order, v)) :
    (order.map FilterEntry.key).Nodup := by
  induction entries generalizing before w with
  | nil =>
    cases done
    exact distinct
  | cons entry later ih =>
    unfold keepLast at done
    rw [Update.exec_ite] at done
    have rest : ∀ e ∈ before, ∀ e' ∈ later, e.key ≠ e'.key :=
      fun e earlier e' member => apart e earlier e' (List.mem_cons_of_mem entry member)
    split at done
    · exact ih distinct rest done
    · next last =>
      simp only [List.any_eq_true, beq_iff_eq, not_exists, not_and] at last
      obtain ⟨guard, u, -, done⟩ := Update.exec_bind_eq_ok done
      have key : FilterEntry.key { entry with guard } = entry.key := rfl
      refine ih ?_ (fun e member e' after => ?_) done
      · rw [List.map_append, List.map_singleton, key]
        refine List.Nodup.append distinct (List.nodup_singleton _) fun k earlier here => ?_
        obtain ⟨e, member, same⟩ := List.mem_map.1 earlier
        exact apart e member entry List.mem_cons_self (same.trans (List.mem_singleton.1 here))
      · rcases List.mem_append.1 member with earlier | here
        · exact rest e earlier e' after
        · rw [List.mem_singleton.1 here, key]
          exact fun same => last e' after same.symm

/-- An entry without a defining class is a method of `o` itself. -/
def OwnIn (o : Object) (entry : FilterEntry) : Prop :=
  entry.definer = none → o.methods.get? entry.name = some entry.method

/-- The defining class of an entry is one of some classes or above one. -/
def Above (w : World) (starts : Handle → Prop) (entry : FilterEntry) : Prop :=
  ∀ c, entry.definer = some c → ∃ s, starts s ∧ Hierarchy.Reaches w.objects.supersOf s c

variable {loose : Handle → Prop} {w : World} {h cls : Handle} {o : Object} {starts : Handle → Prop} {name : String}
  {entries : List FilterEntry} {a : Objects} {v : World}

/-- What asks for precedence orders finds and leaves a world in which others may be kept. -/
theorem exists_filled_of_along {α : Type} {u : Update α} {r : Except Failure α} (well : WellFormed loose w)
    (along : u.Along Consults) (filled : Filled w.objects a) (ran : u.exec { w with objects := a } = (r, v)) :
    ∃ b, v = { w with objects := b } ∧ Filled w.objects b := by
  have well' : WellFormed loose { w with objects := a } := well.filled filled rfl rfl
  obtain ⟨_, b, same, more⟩ := well'.filled_of_along along
  rw [ran] at same
  cases same
  exact ⟨b, rfl, filled.trans more⟩

/-- What every round of a loop that asks for precedence orders keeps true of the entries is true of them at its end. -/
theorem forall_of_exec_foldlM {ι : Type} {p : FilterEntry → Prop} {f : List FilterEntry → ι → Update (List FilterEntry)}
    (well : WellFormed loose w) (xs : List ι) (along : ∀ found x, (f found x).Along Consults)
    (each : ∀ found, ∀ x ∈ xs, ∀ more a v, (∀ e ∈ found, p e) → Filled w.objects a →
      (f found x).exec { w with objects := a } = (.ok more, v) → ∀ e ∈ more, p e)
    {found : List FilterEntry} (holds : ∀ e ∈ found, p e) (filled : Filled w.objects a)
    (done : (xs.foldlM f found).exec { w with objects := a } = (.ok entries, v)) : ∀ e ∈ entries, p e := by
  induction xs generalizing found a with
  | nil =>
    cases done
    exact holds
  | cons x xs ih =>
    rw [List.foldlM_cons] at done
    obtain ⟨more, u, round, rest⟩ := Update.exec_bind_eq_ok done
    obtain ⟨b, rfl, filled'⟩ := exists_filled_of_along well (along found x) filled round
    exact ih (fun found y member => each found y (List.mem_cons_of_mem x member))
      (each found x List.mem_cons_self more a _ holds filled round) filled' rest

theorem forall_mem_append {p : FilterEntry → Prop} {found more : List FilterEntry} (holds : ∀ e ∈ found, p e)
    (later : ∀ e ∈ more, p e) : ∀ e ∈ found ++ more, p e := by
  intro e member
  exact (List.mem_append.1 member).elim (holds e) (later e)

/-- The precedence order of a class is given only if it is one, and lists what is above the class. -/
theorem reaches_of_exec_precedenceOrder {order : List Handle} (well : WellFormed loose w) (filled : Filled w.objects a)
    (done : (Update.precedenceOrder cls).exec { w with objects := a } = (.ok order, v)) :
    ∀ c ∈ order, Hierarchy.Reaches w.objects.supersOf cls c := by
  have well' : WellFormed loose { w with objects := a } := well.filled filled rfl rfl
  have supers : a.supersOf = w.objects.supersOf := (filled.links.comp (·.1) fun _ => rfl).supersOf_of_ancestry
  cases isClass : World.isClass { w with objects := a } cls with
  | true =>
    obtain ⟨order', b, given, lin, -⟩ := well'.exec_precedenceOrder isClass
    cases given.symm.trans done
    intro c member
    exact supers ▸ lin.mem_iff.1 member
  | false =>
    obtain ⟨e, failed⟩ := WellFormed.exec_precedenceOrder_of_not_isClass isClass
    cases failed.symm.trans done

theorem definer_of_classImplementations (well : WellFormed loose w) (filled : Filled w.objects a)
    (done : (classImplementations cls name).exec { w with objects := a } = (.ok entries, v)) :
    ∀ e ∈ entries, ∃ c, e.definer = some c ∧ Hierarchy.Reaches w.objects.supersOf cls c := by
  unfold classImplementations at done
  obtain ⟨order, u, given, done⟩ := Update.exec_bind_eq_ok done
  have above := reaches_of_exec_precedenceOrder well filled given
  obtain ⟨b, rfl, filled'⟩ := exists_filled_of_along well (Consults.along_precedenceOrder cls) filled given
  refine forall_of_exec_foldlM well order (fun found c => ?_) ?_ (by simp) filled' done
  · refine (Update.Along.classPart c).bind fun part => ?_
    cases part.methods.get? name <;> exact .pure _
  intro found c listed more a v holds filled round
  obtain ⟨part, u, -, round⟩ := Update.exec_bind_eq_ok round
  cases taught : part.methods.get? name with
  | none =>
    rw [taught] at round
    cases round
    exact holds
  | some method =>
    rw [taught] at round
    cases round
    refine forall_mem_append holds fun e last => ?_
    rw [List.mem_singleton.1 last]
    exact ⟨c, rfl, above c listed⟩

/-- Where an entry comes from: it is a method of `o` itself, or it is defined above one of some classes. -/
structure Stems (w : World) (o : Object) (starts : Handle → Prop) (entry : FilterEntry) : Prop where
  own : OwnIn o entry
  above : Above w starts entry

theorem stems_of_classImplementations (well : WellFormed loose w) (filled : Filled w.objects a) (start : starts cls)
    (done : (classImplementations cls name).exec { w with objects := a } = (.ok entries, v)) :
    ∀ e ∈ entries, Stems w o starts e := by
  intro e member
  obtain ⟨c, definer, path⟩ := definer_of_classImplementations well filled done e member
  refine ⟨fun noDefiner => absurd (definer.symm.trans noDefiner) (Option.some_ne_none c), fun c' definer' => ?_⟩
  cases definer.symm.trans definer'
  exact ⟨cls, start, path⟩

theorem stems_of_registeredAlong {classes : List Handle} (well : WellFormed loose w) (filled : Filled w.objects a)
    (are : ∀ c ∈ classes, starts c)
    (done : (registeredAlong classes).exec { w with objects := a } = (.ok entries, v)) :
    ∀ e ∈ entries, Stems w o starts e := by
  have along : ∀ c found (f : Filter), Update.Along Consults (do
      return found ++ (← classImplementations c f.target) : Update (List FilterEntry)) :=
    fun c found f => (Consults.along_classImplementations c f.target).bind fun _ => .pure _
  unfold registeredAlong at done
  refine forall_of_exec_foldlM well classes (fun found c => ?_) ?_ (by simp) filled done
  · exact (Update.Along.classPart c).bind fun part => .foldlM (along c) _ found
  intro found c listed more a v holds filled round
  obtain ⟨part, u, found', round⟩ := Update.exec_bind_eq_ok round
  obtain ⟨-, rfl⟩ := Update.exec_classPart_eq_ok found'
  refine forall_of_exec_foldlM well _ (along c) ?_ holds filled round
  intro found f _ more a v holds filled round
  obtain ⟨implementations, u, inner, round⟩ := Update.exec_bind_eq_ok round
  cases round
  exact forall_mem_append holds (stems_of_classImplementations well filled (are c listed) inner)

/-- While an order is computed, an object keeps its class and its own methods. -/
theorem own_of_filled (live : w.live? h = some o) (filled : Filled w.objects a) {p : Object}
    (done : (Update.object h).exec { w with objects := a } = (.ok p, v)) :
    p.methods = o.methods ∧ p.cls = o.cls ∧ v = { w with objects := a } := by
  obtain ⟨there, rfl⟩ := Update.exec_object_eq_ok done
  obtain ⟨q, there', same⟩ := filled.exists_live live
  rw [there] at there'
  cases there'
  exact ⟨(congrArg Object.methods same :), (congrArg Object.cls same :), rfl⟩

theorem stems_of_objectImplementations (well : WellFormed loose w) (live : w.live? h = some o)
    (filled : Filled w.objects a) (start : starts o.cls)
    (done : (objectImplementations h name).exec { w with objects := a } = (.ok entries, v)) :
    ∀ e ∈ entries, Stems w o starts e := by
  unfold objectImplementations at done
  obtain ⟨p, u, found, done⟩ := Update.exec_bind_eq_ok done
  obtain ⟨methods, cls, rfl⟩ := own_of_filled live filled found
  obtain ⟨inherited, t, inner, done⟩ := Update.exec_bind_eq_ok done
  cases done
  refine forall_mem_append (fun e own => ?_) (stems_of_classImplementations well filled (cls ▸ start) inner)
  rw [methods] at own
  cases taught : o.methods.get? name with
  | none =>
    rw [taught] at own
    cases own
  | some method =>
    rw [taught] at own
    rw [List.mem_singleton.1 own]
    exact ⟨fun _ => taught, nofun⟩

/-- What was computed for an object, from what it is now. -/
theorem spec_of_computeFilterOrder (well : WellFormed loose w) (live : w.live? h = some o) {mixins : List Handle}
    {order : List FilterEntry} (done : (computeFilterOrder h mixins).exec w = (.ok order, v)) :
    (order.map FilterEntry.key).Nodup ∧ ∀ e ∈ order, Stems w o (fun c => c ∈ mixins ∨ c = o.cls) e := by
  have start : Filled w.objects w.objects := .refl well.kept
  unfold computeFilterOrder at done
  obtain ⟨p, u, found, done⟩ := Update.exec_bind_eq_ok done
  obtain ⟨there, same⟩ := Update.exec_object_eq_ok found
  cases live.symm.trans there
  rw [same] at done
  obtain ⟨classOrder, u, first, done⟩ := Update.exec_bind_eq_ok done
  have above := reaches_of_exec_precedenceOrder well start first
  obtain ⟨a, rfl, filledA⟩ := exists_filled_of_along well (Consults.along_precedenceOrder _) start first
  obtain ⟨fromMixins, u, second, done⟩ := Update.exec_bind_eq_ok done
  obtain ⟨b, rfl, filledB⟩ := exists_filled_of_along well (Consults.along_registeredAlong _) filledA second
  have along : ∀ found (f : Filter), Update.Along Consults (do
      return found ++ (← objectImplementations h f.target) : Update (List FilterEntry)) :=
    fun found f => (Consults.along_objectImplementations h f.target).bind fun _ => .pure _
  obtain ⟨own, u, third, done⟩ := Update.exec_bind_eq_ok done
  obtain ⟨c, rfl, filledC⟩ := exists_filled_of_along well (.foldlM along _ []) filledB third
  obtain ⟨fromClasses, t, fourth, last⟩ := Update.exec_bind_eq_ok done
  have mixedIn : ∀ e ∈ fromMixins, Stems w o (fun c => c ∈ mixins ∨ c = o.cls) e :=
    stems_of_registeredAlong well filledA (fun c listed => .inl listed) second
  have itself : ∀ e ∈ own, Stems w o (fun c => c ∈ mixins ∨ c = o.cls) e := by
    refine forall_of_exec_foldlM well _ along ?_ (by simp) filledB third
    intro found f _ more a v holds filled round
    obtain ⟨implementations, u, inner, round⟩ := Update.exec_bind_eq_ok round
    cases round
    exact forall_mem_append holds (stems_of_objectImplementations well live filled (.inr rfl) inner)
  -- what is found along the class order is above a class that is above the object's own
  have inherited : ∀ e ∈ fromClasses, Stems w o (fun c => c ∈ mixins ∨ c = o.cls) e := by
    intro e member
    have stems : Stems w o (Hierarchy.Reaches w.objects.supersOf o.cls) e :=
      stems_of_registeredAlong well filledC above fourth e member
    refine ⟨stems.own, fun c definer => ?_⟩
    obtain ⟨s, path, rest⟩ := stems.above c definer
    exact ⟨o.cls, .inr rfl, path.trans rest⟩
  have blank : (([] : List FilterEntry).map FilterEntry.key).Nodup := List.nodup_nil
  exact ⟨nodup_keepLast blank (by simp) last, forall_keepLast (fun _ _ holds => ⟨holds.own, holds.above⟩) (by simp)
    (forall_mem_append (forall_mem_append mixedIn itself) inherited) last⟩

end DynamicObjects.Interception
