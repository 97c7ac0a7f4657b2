import DynamicObjects.Proofs.Runs.Invocations

/-!
# Expressions follow their host

Looking up references and evaluating specifications leads from good heaps to good heaps, as only tasks of the host
change anything. So every step finds a good heap when it comes to act.
-/
namespace DynamicObjects.Script

variable {terms : Terms} {host : Host}

/-! ## References and specifications -/

section bindings

variable (s : Surroundings)

theorem keeps_lookUp (r : Reference) : Keeps terms host fun k => lookUp k s r := by
  cases r with
  | handle h => exact Keeps.pure h
  | key key =>
    refine Keeps.get.bind fun w => ?_
    cases w.bindings.get? key with
    | none => exact .throw _
    | some h => exact Keeps.pure h
  | name name =>
    refine Keeps.get.bind fun w => ?_
    cases Lifecycle.objectNamed? w name with
    | none => exact .throw _
    | some h => exact Keeps.pure h
  | computed body =>
    refine (Keeps.eval s body).bind fun value => ?_
    cases value.asObject? with
    | none => exact .throw _
    | some h => exact Keeps.pure h

theorem keeps_lookUpAll (refs : List Reference) : Keeps terms host fun k => lookUpAll k s refs :=
  Follows.mapM (keeps_lookUp s) refs

theorem keeps_textOf (e : Expr) : Keeps terms host fun k => textOf k s e :=
  (Keeps.eval s e).bind fun _ => Keeps.pure _

theorem keeps_map {α β : Type} {f : Host → Action α} (keeps : Keeps terms host f) (g : α → β) :
    Keeps terms host fun k => g <$> f k := by
  simp only [← bind_pure_comp]
  exact keeps.bind fun _ => Keeps.pure _

theorem keeps_textOf? (e : Option Expr) : Keeps terms host fun k => textOf? k s e := by
  cases e with
  | none => exact Keeps.pure none
  | some e => exact keeps_map (keeps_textOf s e) some

theorem keeps_valueOf? (e : Option Expr) : Keeps terms host fun k => valueOf? k s e := by
  cases e with
  | none => exact Keeps.pure none
  | some e => exact keeps_map (Keeps.eval s e) some

theorem keeps_argumentsOf (e : Expr) : Keeps terms host fun k => argumentsOf k s e := by
  refine (Keeps.eval s e).bind fun value => ?_
  split
  · exact Keeps.pure _
  · exact Keeps.pure _
  · exact Keeps.pure _

theorem keeps_bindCheck (check : CheckSpec) : Keeps terms host fun k => bindCheck k s check := by
  cases check with
  | instanceOf r => exact (keeps_lookUp s r).bind fun _ => Keeps.pure _
  | _ => exact Keeps.pure _

theorem keeps_bindCheck? (check : Option CheckSpec) : Keeps terms host fun k => bindCheck? k s check := by
  cases check with
  | none => exact Keeps.pure none
  | some check => exact keeps_map (keeps_bindCheck s check) some

theorem keeps_bindParameter (p : ParameterSpec) : Keeps terms host fun k => bindParameter k s p :=
  (keeps_bindCheck? s p.check).bind fun _ => (keeps_valueOf? s p.default).bind fun _ => Keeps.pure _

theorem keeps_bindTarget (target : ForwardTargetOf Reference) : Keeps terms host fun k => bindTarget k s target := by
  cases target with
  | receiver => exact Keeps.pure _
  | object r => exact (keeps_lookUp s r).bind fun _ => Keeps.pure _
  | command path => exact Keeps.pure _

theorem keeps_bindForwardArgument (argument : ForwardArgumentOf Expr Expr) :
    Keeps terms host fun k => bindForwardArgument k s argument := by
  induction argument with
  | literal e => exact (Keeps.eval s e).bind fun _ => Keeps.pure _
  | positional default => exact (keeps_valueOf? s default).bind fun _ => Keeps.pure _
  | flag name default => exact (keeps_valueOf? s default).bind fun _ => Keeps.pure _
  | placed placement argument ih => exact ih.bind fun _ => Keeps.pure _
  | _ => exact Keeps.pure _

theorem keeps_bindImplementation (implementation : ImplementationOf Expr Reference Expr) :
    Keeps terms host fun k => bindImplementation k s implementation := by
  cases implementation with
  | scripted parameters body =>
    exact (Follows.mapM (keeps_bindParameter s) parameters).bind fun _ => Keeps.pure _
  | forward spec =>
    refine (keeps_bindTarget s spec.target).bind fun _ => ?_
    exact (Follows.mapM (keeps_bindForwardArgument s) spec.template).bind fun _ => Keeps.pure _
  | setter p => exact (keeps_bindParameter s p).bind fun _ => Keeps.pure _
  | ensemble container => exact (keeps_lookUp s container).bind fun _ => Keeps.pure _
  | _ => exact Keeps.pure _

theorem keeps_bindMethod (m : MethodSpec) : Keeps terms host fun k => bindMethod k s m :=
  (keeps_bindImplementation s m.implementation).bind fun _ => (keeps_bindCheck? s m.returns).bind fun _ => Keeps.pure _

theorem keeps_bindMixin (m : GuardedOf Reference Expr) : Keeps terms host fun k => bindMixin k s m :=
  (keeps_lookUp s m.target).bind fun _ => Keeps.pure _

theorem keeps_bindFilter (f : GuardedOf Expr Expr) : Keeps terms host fun k => bindFilter k s f :=
  (keeps_textOf s f.target).bind fun _ => Keeps.pure _

end bindings

/-! ## Steps -/

section steps

variable (s : Surroundings)

/-- What an expression does once its parts are evaluated: the heap is good when it begins. -/
abbrev Acts {α : Type} (terms : Terms) (host : Host) (f : Host → Action α) : Prop :=
  Follows terms host (fun w => terms.good w.objects) f fun _ _ => True

theorem acts_setFilters (reach : Reach) (on : Handle) (filters : List Filter) :
    Acts terms host fun _ => liftM (Interception.setFilters reach on filters) :=
  .lift (fun _ _ permits => .single (.setFilters reach on filters permits)) fun _ _ _ _ _ => trivial

theorem acts_addFilter (reach : Reach) (on : Handle) (filter : Filter) :
    Acts terms host fun _ => liftM (Interception.addFilter reach on filter) :=
  .lift (fun _ _ permits => Deed.calmly_addFilter permits reach on filter) fun _ _ _ _ _ => trivial

theorem acts_nameStep (h : Handle) (name : String) (step : NameStep) :
    Acts terms host fun _ => liftM (nameStep h name step) :=
  .lift (fun _ _ permits => Deed.calmly_nameStep permits h name step) fun _ _ _ _ _ => trivial

theorem acts_pairStep (h other : Handle) (step : PairStep) :
    Acts terms host fun _ => liftM (pairStep h other step) :=
  .lift (fun _ _ permits => Deed.calmly_pairStep permits h other step) fun _ _ _ _ _ => trivial

theorem acts_createSystem (root metaclass : String) (methods : SystemMethods) :
    Acts terms host fun _ => liftM (Lifecycle.createSystem root metaclass methods) :=
  .lift (fun _ _ permits => .single (.createSystem root metaclass methods permits)) fun _ _ _ _ _ => trivial

theorem acts_objectStep (h : Handle) (step : ObjectStep) : Acts terms host fun k => objectStep k h step := by
  cases step with
  | destroy =>
    have leaves : Acts terms host fun k => Lifecycle.destroy k h :=
      (Lifecycle.follows_destroy h).mono (fun _ permits => .of_good permits) fun _ _ _ => trivial
    exact leaves.bind fun _ => Steady.pure _
  | superclasses | subclasses =>
    exact (Steady.lift (.classPart h)).bind fun _ => Steady.lift (Deed.along_namesOf _)
  | nameOf => exact (Steady.lift (.nameOf h)).bind fun _ => Steady.pure _
  | classOf | checks => exact (Steady.lift (.object h)).bind fun _ => Steady.pure _
  | isObject | isClass => exact Steady.get.bind fun _ => Steady.pure _
  | isMetaclass => exact (Steady.lift (.isMetaclass h)).bind fun _ => Steady.pure _
  | classMethodNames => exact (Steady.lift (.classPart h)).bind fun _ => Steady.pure _
  | mixins reach =>
    exact (Steady.lift (.registrations reach h)).bind fun _ => Steady.lift (Deed.along_namesOf _)
  | filters reach => exact (Steady.lift (.registrations reach h)).bind fun _ => Steady.pure _
  | classMixinOrder =>
    refine (Steady.lift (Deed.of_consults (Consults.along_classMixinOrder h))).bind fun _ => ?_
    exact Steady.lift (Deed.along_namesOf _)
  | filterOrder => exact (Steady.lift (Deed.along_filterOrder h)).bind fun _ => Steady.pure _
  | precedenceOrder =>
    exact (Steady.lift (Deed.along_precedenceOrder h)).bind fun _ => Steady.lift (Deed.along_namesOf _)

theorem steady_listingStep (h : Handle) (pattern : Option String) (step : ListingStep Expr) :
    Steady terms host fun k => listingStep k s h pattern step := by
  cases step with
  | instances closure =>
    refine (Steady.eval s closure).bind fun _ => (Steady.lift (Deed.along_instances h pattern _)).bind fun _ => ?_
    exact Steady.lift (Deed.along_namesOf _)
  | methodNames => exact (Steady.lift (Deed.along_methodNames h pattern)).bind fun _ => Steady.pure _
  | mixinOrder => exact (Steady.lift (Deed.along_mixinEntries h pattern)).bind fun _ => Steady.pure _
  | filterOrder guards =>
    refine (Steady.eval s guards).bind fun _ => ?_
    exact (Steady.lift (Deed.along_filterEntries h pattern _)).bind fun _ => Steady.pure _
  | precedenceOrder mixins roots =>
    refine (Steady.eval s mixins).bind fun _ => (Steady.eval s roots).bind fun _ => ?_
    exact (Steady.lift (Deed.along_precedence h pattern _ _)).bind fun _ => Steady.lift (Deed.along_namesOf _)

theorem steady_sequence (steps : List Expr) : Steady terms host fun k => sequence (k.eval s) steps := by
  induction steps with
  | nil => exact Steady.pure _
  | cons e rest ih =>
    cases rest with
    | nil => exact Steady.eval s e
    | cons next rest => exact (Steady.eval s e).bind fun _ => ih

theorem acts_changeStep (step : ChangeStep Expr) : Acts terms host fun k => changeStep k s step := by
  cases step with
  | setSuperclasses on supers =>
    refine (keeps_lookUp s on).bind fun h => (keeps_lookUpAll s supers).bind fun supers => ?_
    exact Steady.lift (Deed.along_setSuperclasses h supers)
  | defineMethod reach on method =>
    refine (keeps_lookUp s on).bind fun h => (keeps_bindMethod s method).bind fun method => ?_
    exact Steady.lift (Deed.along_defineMethod reach h method)
  | defineCommand method path =>
    refine (keeps_bindMethod s method).bind fun method => (keeps_textOf s path).bind fun path => ?_
    exact Steady.lift (Deed.along_defineCommand path method)
  | defineEnsemble on name container =>
    refine (keeps_lookUp s on).bind fun h => (keeps_textOf s name).bind fun name => ?_
    exact (keeps_lookUp s container).bind fun c => Steady.lift (Deed.along_defineEnsemble h name c)
  | keepCallerSelf on keep =>
    refine (keeps_lookUp s on).bind fun h => (Keeps.eval s keep).bind fun keep => ?_
    exact Steady.lift (Deed.along_changeObject h (by intro _; rfl) (by intro _; rfl) (by intro _; exact .of_fate rfl))
  | setChecks on options =>
    refine (keeps_lookUp s on).bind fun h => ?_
    exact Steady.lift (Deed.along_changeObject h (by intro _; rfl) (by intro _; rfl) (by intro _; exact .of_fate rfl))
  | addInvariant reach on predicate =>
    refine (keeps_lookUp s on).bind fun h => ?_
    exact Steady.lift (Deed.along_addInvariant reach h (· ++ [predicate]))
  | setVariable on name value =>
    refine (keeps_lookUp s on).bind fun h => (keeps_textOf s name).bind fun name => ?_
    exact (Keeps.eval s value).bind fun value => Steady.lift (Deed.along_setVariable h name value)
  | configure changes =>
    refine Follows.weaken (Follows.forM (fun (field, e) => ?_) changes)
    exact (Steady.eval s e).bind fun value => Steady.lift (Deed.along_configure field value)
  | setUnknownHandler body => exact Steady.modify (by intro _; exact .of_objects rfl rfl rfl rfl rfl rfl le_rfl rfl rfl rfl)
  | setMixins reach on mixins =>
    refine (keeps_lookUp s on).bind fun h => (Follows.mapM (keeps_bindMixin s) mixins).bind fun mixins => ?_
    exact Steady.lift (Deed.along_setMixins reach h mixins)
  | addMixin reach on mixin =>
    refine (keeps_lookUp s on).bind fun h => (keeps_bindMixin s mixin).bind fun mixin => ?_
    exact Steady.lift (Deed.along_addMixin reach h mixin)
  | setMixinGuard reach on mixin =>
    refine (keeps_lookUp s on).bind fun h => (keeps_bindMixin s mixin).bind fun mixin => ?_
    exact Steady.lift (Deed.along_setMixinGuard reach h _ _)
  | setFilters reach on filters =>
    refine (keeps_lookUp s on).bind fun h => (Follows.mapM (keeps_bindFilter s) filters).bind fun filters => ?_
    exact acts_setFilters reach h filters
  | addFilter reach on filter =>
    refine (keeps_lookUp s on).bind fun h => (keeps_bindFilter s filter).bind fun filter => ?_
    exact acts_addFilter reach h filter
  | setFilterGuard reach on filter =>
    refine (keeps_lookUp s on).bind fun h => (keeps_bindFilter s filter).bind fun filter => ?_
    exact Steady.lift (Deed.along_setFilterGuard reach h _ _)

/-- Evaluating an expression evolves the world, from a good heap on. -/
theorem acts_evaluate (e : Expr) : Acts terms host fun k => evaluate k s e := by
  unfold evaluate
  cases e with
  | literal v => exact Steady.pure _
  | list items => exact (Follows.mapM (Keeps.eval s) items).bind fun _ => Steady.pure _
  | object r => exact (keeps_lookUp s r).bind fun _ => Steady.pure _
  | parameter | argument | arguments | receiver => exact Steady.pure _
  | self => exact (Steady.lift .activeFrame).bind fun _ => Steady.pure _
  | ownVariable name =>
    refine (Steady.lift .activeFrame).bind fun frame => ?_
    exact (Steady.lift (Deed.along_readVariable frame.object name)).bind fun _ => Steady.pure _
  | concat items => exact (Follows.mapM (Keeps.eval s) items).bind fun _ => Steady.pure _
  | sequence steps => exact (steady_sequence s steps).weaken
  | choose condition yes no => exact (Steady.eval s condition).bind fun _ => Steady.eval s _
  | attempt step =>
    refine (Steady.settle (Steady.eval s step)).bind fun outcome => ?_
    cases outcome with
    | ok value => exact Steady.pure _
    | error f => exact Steady.pure _
  | fail reason => exact (keeps_textOf s reason).bind fun _ => Steady.throw _
  | log e => exact (Steady.eval s e).bind fun v => (Steady.lift (Deed.along_log v)).bind fun _ => Steady.pure _
  | operate operator left right =>
    exact (Steady.eval s left).bind fun _ => (Steady.eval s right).bind fun _ => Steady.pure _
  | bind r key =>
    exact (keeps_lookUp s r).bind fun h => (Steady.lift (Deed.along_bindKey key h)).bind fun _ => Steady.pure _
  | createSystem root metaclass methods =>
    refine (keeps_textOf s root).bind fun root => (keeps_textOf s metaclass).bind fun metaclass => ?_
    refine (keeps_textOf? s methods.init).bind fun init => (keeps_textOf? s methods.destroy).bind fun destroy => ?_
    refine (keeps_textOf? s methods.unknown).bind fun unknown => (keeps_textOf? s methods.default).bind fun default => ?_
    exact (acts_createSystem root metaclass { init, destroy, unknown, default }).bind fun _ => Steady.pure _
  | createClass name metaclass supers key =>
    refine (keeps_textOf s name).bind fun name => (keeps_lookUp s metaclass).bind fun metaclass => ?_
    refine (keeps_lookUpAll s supers).bind fun supers => ?_
    exact (Lifecycle.follows_createClass name metaclass supers []).bind fun h =>
      Steady.lift (Deed.along_bindNew key h)
  | createObject name cls args key =>
    refine (keeps_textOf? s name).bind fun name => (keeps_lookUp s cls).bind fun cls => ?_
    refine (keeps_argumentsOf s args).bind fun args => ?_
    exact (Lifecycle.follows_createObject cls name args).bind fun h => Steady.lift (Deed.along_bindNew key h)
  | ofWorld step => exact Steady.lift (Deed.along_worldStep step)
  | ofObject step on => exact (keeps_lookUp s on).bind fun h => acts_objectStep h step
  | ofPair step on other =>
    exact (keeps_lookUp s on).bind fun h => (keeps_lookUp s other).bind fun other => acts_pairStep h other step
  | ofName step on name =>
    exact (keeps_lookUp s on).bind fun h => (keeps_textOf s name).bind fun name => acts_nameStep h name step
  | listing step on pattern =>
    refine (keeps_lookUp s on).bind fun h => (keeps_textOf? s pattern).bind fun pattern => ?_
    exact (steady_listingStep s h pattern step).weaken
  | objectNamed name => exact (keeps_textOf s name).bind fun _ => Steady.get.bind fun _ => Steady.pure _
  | autoname start =>
    exact (keeps_textOf s start).bind fun start => (Steady.lift (Deed.along_autoname start)).bind fun _ => Steady.pure _
  | methodInfo method => exact (keeps_bindMethod s method).bind fun _ => Steady.pure _
  | parseArguments parameters args =>
    refine (Follows.mapM (keeps_bindParameter s) parameters).bind fun _ => (keeps_argumentsOf s args).bind fun _ => ?_
    exact Steady.get.bind fun _ => Steady.pure _
  | checkValue check e =>
    refine (keeps_bindCheck s check).bind fun _ => (Steady.eval s e).bind fun _ => ?_
    exact Steady.get.bind fun _ => Steady.pure _
  | dispatch on args method modifiers =>
    refine (keeps_lookUp s on).bind fun h => (keeps_argumentsOf s args).bind fun args => ?_
    exact (keeps_textOf s method).bind fun method => Steady.call h method args modifiers
  | next args =>
    cases args with
    | none => exact (Invocation.steady_next none).weaken
    | some e => exact (keeps_argumentsOf s e).bind fun args => (Invocation.steady_next (some args)).weaken
  | change step => exact (acts_changeStep s step).bind fun _ => Steady.pure _

end steps

end DynamicObjects.Script
