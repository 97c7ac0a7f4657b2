import DynamicObjects.Proofs.Runs.Composition
import DynamicObjects.Script.Session

/-!
# How expressions are put together

Carrying an expression out means to evaluate its parts, to update the world and to call methods; only where the
expression is a next call, a call is passed on.
-/
namespace DynamicObjects


namespace Script

variable {passes : Prop}

/-! ## References and specifications -/

section bindings

variable (s : Surroundings)

theorem composed_lookUp (r : Reference) : Composed True passes fun k => lookUp k s r := by
  cases r with
  | handle h => exact .pure h
  | key key =>
    refine Composed.get.bind fun w => ?_
    cases w.bindings.get? key with
    | none => exact .throw _
    | some h => exact .pure h
  | name name =>
    refine Composed.get.bind fun w => ?_
    cases Lifecycle.objectNamed? w name with
    | none => exact .throw _
    | some h => exact .pure h
  | computed body =>
    refine (Composed.eval trivial s body).bind fun value => ?_
    cases value.asObject? with
    | none => exact .throw _
    | some h => exact .pure h

theorem composed_lookUpAll (refs : List Reference) : Composed True passes fun k => lookUpAll k s refs :=
  .mapM (composed_lookUp s) refs

theorem composed_textOf (e : Expr) : Composed True passes fun k => textOf k s e :=
  (Composed.eval trivial s e).bind fun _ => .pure _

theorem composed_textOf? (e : Option Expr) : Composed True passes fun k => textOf? k s e := by
  cases e with
  | none => exact .pure none
  | some e => exact (composed_textOf s e).map some

theorem composed_valueOf? (e : Option Expr) : Composed True passes fun k => valueOf? k s e := by
  cases e with
  | none => exact .pure none
  | some e => exact (Composed.eval trivial s e).map some

theorem composed_argumentsOf (e : Expr) : Composed True passes fun k => argumentsOf k s e := by
  refine (Composed.eval trivial s e).bind fun value => ?_
  split
  · exact .pure _
  · exact .pure _
  · exact .pure _

theorem composed_bindCheck (check : CheckSpec) : Composed True passes fun k => bindCheck k s check := by
  cases check with
  | instanceOf r => exact (composed_lookUp s r).bind fun _ => .pure _
  | _ => exact .pure _

theorem composed_bindCheck? (check : Option CheckSpec) : Composed True passes fun k => bindCheck? k s check := by
  cases check with
  | none => exact .pure none
  | some check => exact (composed_bindCheck s check).map some

theorem composed_bindParameter (p : ParameterSpec) : Composed True passes fun k => bindParameter k s p :=
  (composed_bindCheck? s p.check).bind fun _ => (composed_valueOf? s p.default).bind fun _ => .pure _

theorem composed_bindTarget (target : ForwardTargetOf Reference) :
    Composed True passes fun k => bindTarget k s target := by
  cases target with
  | receiver => exact .pure _
  | object r => exact (composed_lookUp s r).bind fun _ => .pure _
  | command path => exact .pure _

theorem composed_bindForwardArgument (argument : ForwardArgumentOf Expr Expr) :
    Composed True passes fun k => bindForwardArgument k s argument := by
  induction argument with
  | literal e => exact (Composed.eval trivial s e).bind fun _ => .pure _
  | positional default => exact (composed_valueOf? s default).bind fun _ => .pure _
  | flag name default => exact (composed_valueOf? s default).bind fun _ => .pure _
  | placed placement argument ih => exact ih.bind fun _ => .pure _
  | _ => exact .pure _

theorem composed_bindImplementation (implementation : ImplementationOf Expr Reference Expr) :
    Composed True passes fun k => bindImplementation k s implementation := by
  cases implementation with
  | scripted parameters body => exact (Composed.mapM (composed_bindParameter s) parameters).bind fun _ => .pure _
  | forward spec =>
    refine (composed_bindTarget s spec.target).bind fun _ => ?_
    exact (Composed.mapM (composed_bindForwardArgument s) spec.template).bind fun _ => .pure _
  | setter p => exact (composed_bindParameter s p).bind fun _ => .pure _
  | ensemble container => exact (composed_lookUp s container).bind fun _ => .pure _
  | _ => exact .pure _

theorem composed_bindMethod (m : MethodSpec) : Composed True passes fun k => bindMethod k s m :=
  (composed_bindImplementation s m.implementation).bind fun _ => (composed_bindCheck? s m.returns).bind fun _ => .pure _

theorem composed_bindMixin (m : GuardedOf Reference Expr) : Composed True passes fun k => bindMixin k s m :=
  (composed_lookUp s m.target).bind fun _ => .pure _

theorem composed_bindFilter (f : GuardedOf Expr Expr) : Composed True passes fun k => bindFilter k s f :=
  (composed_textOf s f.target).bind fun _ => .pure _

end bindings

/-! ## Steps -/

section steps

variable (s : Surroundings)

theorem composed_nameStep (h : Handle) (name : String) (step : NameStep) :
    Composed True passes fun _ => liftM (nameStep h name step) :=
  .deeds fun _ => Deed.calmly_nameStep trivial h name step

theorem composed_pairStep (h other : Handle) (step : PairStep) :
    Composed True passes fun _ => liftM (pairStep h other step) :=
  .deeds fun _ => Deed.calmly_pairStep trivial h other step

theorem composed_namesOf (hs : List Handle) : Composed True passes fun _ => liftM (namesOf hs) :=
  .deeds (Deed.along_namesOf hs)

theorem composed_objectStep (h : Handle) (step : ObjectStep) : Composed True passes fun k => objectStep k h step := by
  cases step with
  | destroy => exact (Lifecycle.composed_destroy h).bind fun _ => .pure _
  | superclasses | subclasses => exact (Composed.update (.classPart h)).bind fun _ => composed_namesOf _
  | nameOf => exact (Composed.update (.nameOf h)).bind fun _ => .pure _
  | classOf | checks => exact (Composed.update (.object h)).bind fun _ => .pure _
  | isObject | isClass => exact Composed.get.bind fun _ => .pure _
  | isMetaclass => exact (Composed.update (.isMetaclass h)).bind fun _ => .pure _
  | classMethodNames => exact (Composed.update (.classPart h)).bind fun _ => .pure _
  | mixins reach => exact (Composed.update (.registrations reach h)).bind fun _ => composed_namesOf _
  | filters reach => exact (Composed.update (.registrations reach h)).bind fun _ => .pure _
  | classMixinOrder => exact (Composed.consults (Consults.along_classMixinOrder h)).bind fun _ => composed_namesOf _
  | filterOrder => exact (Composed.deeds (Deed.along_filterOrder h)).bind fun _ => .pure _
  | precedenceOrder => exact (Composed.deeds (Deed.along_precedenceOrder h)).bind fun _ => composed_namesOf _

theorem composed_listingStep (h : Handle) (pattern : Option String) (step : ListingStep Expr) :
    Composed True passes fun k => listingStep k s h pattern step := by
  cases step with
  | instances closure =>
    refine (Composed.eval trivial s closure).bind fun _ => ?_
    exact (Composed.deeds (Deed.along_instances h pattern _)).bind fun _ => composed_namesOf _
  | methodNames => exact (Composed.deeds (Deed.along_methodNames h pattern)).bind fun _ => .pure _
  | mixinOrder => exact (Composed.deeds (Deed.along_mixinEntries h pattern)).bind fun _ => .pure _
  | filterOrder guards =>
    refine (Composed.eval trivial s guards).bind fun _ => ?_
    exact (Composed.deeds (Deed.along_filterEntries h pattern _)).bind fun _ => .pure _
  | precedenceOrder mixins roots =>
    refine (Composed.eval trivial s mixins).bind fun _ => (Composed.eval trivial s roots).bind fun _ => ?_
    exact (Composed.deeds (Deed.along_precedence h pattern _ _)).bind fun _ => composed_namesOf _

theorem composed_sequence (steps : List Expr) : Composed True passes fun k => sequence (k.eval s) steps := by
  induction steps with
  | nil => exact .pure _
  | cons e rest ih =>
    cases rest with
    | nil => exact .eval trivial s e
    | cons next rest => exact (Composed.eval trivial s e).bind fun _ => ih

theorem composed_changeStep (step : ChangeStep Expr) : Composed True passes fun k => changeStep k s step := by
  cases step with
  | setSuperclasses on supers =>
    refine (composed_lookUp s on).bind fun h => (composed_lookUpAll s supers).bind fun supers => ?_
    exact .deeds (Deed.along_setSuperclasses h supers)
  | defineMethod reach on method =>
    refine (composed_lookUp s on).bind fun h => (composed_bindMethod s method).bind fun method => ?_
    exact .deeds (Deed.along_defineMethod reach h method)
  | defineCommand method path =>
    refine (composed_bindMethod s method).bind fun method => (composed_textOf s path).bind fun path => ?_
    exact .deeds (Deed.along_defineCommand path method)
  | defineEnsemble on name container =>
    refine (composed_lookUp s on).bind fun h => (composed_textOf s name).bind fun name => ?_
    exact (composed_lookUp s container).bind fun c => .deeds (Deed.along_defineEnsemble h name c)
  | keepCallerSelf on keep =>
    refine (composed_lookUp s on).bind fun h => (Composed.eval trivial s keep).bind fun keep => ?_
    exact .update (Level.along_changeObject h _)
  | setChecks on options => exact (composed_lookUp s on).bind fun h => .update (Level.along_changeObject h _)
  | addInvariant reach on predicate =>
    exact (composed_lookUp s on).bind fun h => .deeds (Deed.along_addInvariant reach h (· ++ [predicate]))
  | setVariable on name value =>
    refine (composed_lookUp s on).bind fun h => (composed_textOf s name).bind fun name => ?_
    exact (Composed.eval trivial s value).bind fun value => .deeds (Deed.along_setVariable h name value)
  | configure changes =>
    refine .forM (fun (field, e) => ?_) changes
    exact (Composed.eval trivial s e).bind fun value => .deeds (Deed.along_configure field value)
  | setUnknownHandler body => exact .change (by intro _; exact ⟨rfl, rfl⟩)
  | setMixins reach on mixins =>
    refine (composed_lookUp s on).bind fun h => (Composed.mapM (composed_bindMixin s) mixins).bind fun mixins => ?_
    exact .deeds (Deed.along_setMixins reach h mixins)
  | addMixin reach on mixin =>
    refine (composed_lookUp s on).bind fun h => (composed_bindMixin s mixin).bind fun mixin => ?_
    exact .deeds (Deed.along_addMixin reach h mixin)
  | setMixinGuard reach on mixin =>
    refine (composed_lookUp s on).bind fun h => (composed_bindMixin s mixin).bind fun mixin => ?_
    exact .deeds (Deed.along_setMixinGuard reach h _ _)
  | setFilters reach on filters =>
    refine (composed_lookUp s on).bind fun h => (Composed.mapM (composed_bindFilter s) filters).bind fun filters => ?_
    exact .deeds (.of_step fun _ => .setFilters reach h filters trivial)
  | addFilter reach on filter =>
    refine (composed_lookUp s on).bind fun h => (composed_bindFilter s filter).bind fun filter => ?_
    exact .deeds fun _ => Deed.calmly_addFilter trivial reach h filter
  | setFilterGuard reach on filter =>
    refine (composed_lookUp s on).bind fun h => (composed_bindFilter s filter).bind fun filter => ?_
    exact .deeds (Deed.along_setFilterGuard reach h _ _)

/-- Only a next call passes a call on. -/
theorem composed_evaluate (e : Expr) : Composed True (∃ args, e = .next args) fun k => evaluate k s e := by
  unfold evaluate
  cases e with
  | literal v => exact .pure _
  | list items => exact (Composed.mapM (Composed.eval trivial s) items).bind fun _ => .pure _
  | object r => exact (composed_lookUp s r).bind fun _ => .pure _
  | parameter | argument | arguments | receiver => exact .pure _
  | self => exact (Composed.update .activeFrame).bind fun _ => .pure _
  | ownVariable name =>
    refine (Composed.update .activeFrame).bind fun frame => ?_
    exact (Composed.deeds (Deed.along_readVariable frame.object name)).bind fun _ => .pure _
  | concat items => exact (Composed.mapM (Composed.eval trivial s) items).bind fun _ => .pure _
  | sequence steps => exact composed_sequence s steps
  | choose condition yes no => exact (Composed.eval trivial s condition).bind fun _ => .eval trivial s _
  | attempt step =>
    refine (Composed.eval trivial s step).settle.bind fun outcome => ?_
    cases outcome with
    | ok value => exact .pure _
    | error f => exact .pure _
  | fail reason => exact (composed_textOf s reason).bind fun _ => .throw _
  | log e => exact (Composed.eval trivial s e).bind fun v => (Composed.deeds (Deed.along_log v)).bind fun _ => .pure _
  | operate operator left right =>
    exact (Composed.eval trivial s left).bind fun _ => (Composed.eval trivial s right).bind fun _ => .pure _
  | bind r key =>
    exact (composed_lookUp s r).bind fun h => (Composed.deeds (Deed.along_bindKey key h)).bind fun _ => .pure _
  | createSystem root metaclass methods =>
    refine (composed_textOf s root).bind fun root => (composed_textOf s metaclass).bind fun metaclass => ?_
    refine (composed_textOf? s methods.init).bind fun init => (composed_textOf? s methods.destroy).bind fun destroy => ?_
    refine (composed_textOf? s methods.unknown).bind fun unknown => (composed_textOf? s methods.default).bind fun d => ?_
    exact (Composed.update (Level.along_createSystem root metaclass _)).bind fun _ => .pure _
  | createClass name metaclass supers key =>
    refine (composed_textOf s name).bind fun name => (composed_lookUp s metaclass).bind fun metaclass => ?_
    refine (composed_lookUpAll s supers).bind fun supers => ?_
    exact (Lifecycle.composed_createClass name metaclass supers []).bind fun h => .deeds (Deed.along_bindNew key h)
  | createObject name cls args key =>
    refine (composed_textOf? s name).bind fun name => (composed_lookUp s cls).bind fun cls => ?_
    refine (composed_argumentsOf s args).bind fun args => ?_
    exact (Lifecycle.composed_createObject cls name args).bind fun h => .deeds (Deed.along_bindNew key h)
  | ofWorld step => exact .deeds (Deed.along_worldStep step)
  | ofObject step on => exact (composed_lookUp s on).bind fun h => composed_objectStep h step
  | ofPair step on other =>
    exact (composed_lookUp s on).bind fun h => (composed_lookUp s other).bind fun other => composed_pairStep h other step
  | ofName step on name =>
    exact (composed_lookUp s on).bind fun h => (composed_textOf s name).bind fun name => composed_nameStep h name step
  | listing step on pattern =>
    refine (composed_lookUp s on).bind fun h => (composed_textOf? s pattern).bind fun pattern => ?_
    exact composed_listingStep s h pattern step
  | objectNamed name => exact (composed_textOf s name).bind fun _ => Composed.get.bind fun _ => .pure _
  | autoname start =>
    refine (composed_textOf s start).bind fun start => (Composed.deeds (Deed.along_autoname start)).bind fun _ => .pure _
  | methodInfo method => exact (composed_bindMethod s method).bind fun _ => .pure _
  | parseArguments parameters args =>
    refine (Composed.mapM (composed_bindParameter s) parameters).bind fun _ => (composed_argumentsOf s args).bind fun _ => ?_
    exact Composed.get.bind fun _ => .pure _
  | checkValue check e =>
    refine (composed_bindCheck s check).bind fun _ => (Composed.eval trivial s e).bind fun _ => ?_
    exact Composed.get.bind fun _ => .pure _
  | dispatch on args method modifiers =>
    refine (composed_lookUp s on).bind fun h => (composed_argumentsOf s args).bind fun args => ?_
    exact (composed_textOf s method).bind fun method => .call trivial h method args modifiers
  | next args =>
    cases args with
    | none => exact .next ⟨_, rfl⟩ none
    | some e => exact (composed_argumentsOf s e).bind fun args => .next ⟨_, rfl⟩ (some args)
  | change step => exact (composed_changeStep s step).bind fun _ => .pure _

end steps

end Script

end DynamicObjects
