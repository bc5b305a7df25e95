import ResourceQuery.Type.Graph

set_option autoImplicit false

/-! # What holds throughout a resolution

A resolution reserves numbers, resolves parts and completes what it reserved itself; in between it may be
resolving any number of other types, some of them in cycles. What is shown of it step by step does not
depend on what is shown. A `Course` is a property of sessions. If the single steps keep to the course, then
so does a whole resolution, however deep it goes (`Course.along_run`).

The property may refer to two lists of numbers. `pending` has those that are reserved and not completed
yet: a type is completed long after its number was reserved, in a session which has moved on. `known` has
those that a step may mention, since it was given them.

Each function of the resolver has one lemma, which asks of `resolve` only that it keeps to the course for the
types that the function resolves. `mentioned` and `leads` say which these are. A list type *mentions* its
element: the element is resolved while a number is pending for the list. An optional type *leads* to
its inner type: there is no number yet while that is resolved.
-/

namespace ResourceQuery

/-! ## Numbers that a descriptor mentions -/

/-- The types that a property mentions. -/
def Property.mentions (p : Property) : List TypeId :=
  [p.type, p.declaringType]

/-- The types that a property table mentions. -/
def Property.allMentions (properties : List Property) : List TypeId :=
  properties.flatMap Property.mentions

/-- The types that the members of a type mention. -/
def Members.mentions (m : Members) : List TypeId :=
  m.base.toList ++ Property.allMentions m.properties

/-- The types that an address mentions. -/
def ResourceAddress.mentions (a : ResourceAddress) : List TypeId :=
  a.uriBase :: (a.parent.map (·.type)).toList

/-- The types that a shape mentions. -/
def TypeShape.mentions : TypeShape → List TypeId
  | .value _ => []
  | .enum _ => []
  | .collection element => [element]
  | .dictionary k v => [k, v]
  | .structured m => m.mentions
  | .resource m a => m.mentions ++ a.mentions

/-- The types that a descriptor mentions. -/
def Descriptor.mentions (d : Descriptor) : List TypeId :=
  d.arguments ++ d.shape.mentions

/-- What a resolution fails with that went too deep. -/
def Error.IsEndless (e : Error) : Prop :=
  ∃ type, e = .notSupported (.endlessType type)

namespace Resolution

variable {α β : Type}

/-! ## Types that a type mentions -/

/-- The declared type called `name`, unless it is the one under way. -/
def numberTypes (self name : String) : List NativeType :=
  if name = self then [] else [.named name]

/-- The types that the properties along a chain mention. -/
def chainTypes (arguments : List NativeType) (self : String) (chain : List SourceType) :
    List NativeType :=
  chain.flatMap fun source =>
    numberTypes self source.name ++ source.properties.map (propertyType arguments)

/-- The types that the address of a resource type mentions. -/
def addressTypes (source : SourceType) (chain : List SourceType) : List NativeType :=
  numberTypes source.name (collectionOwner source chain) ++
    ((parentDef? chain).map fun parent => NativeType.named parent.type).toList

/-- The types that a source type mentions. -/
def sourceTypes (source : SourceType) (chain : List SourceType) (arguments : List NativeType) :
    List NativeType :=
  (source.base.map NativeType.named).toList ++ argumentTypes source arguments ++
    chainTypes arguments source.name chain ++
    (if source.kind = .resource then addressTypes source chain else [])

/-- The types that an instance of a source type mentions. -/
def instanceTypes (registry : Registry) (source : SourceType) (arguments : List NativeType) :
    List NativeType :=
  match registry.inheritanceChain source.name with
  | .ok chain => sourceTypes source chain arguments
  | .error _ => []

/-- The types that are resolved while a number is pending for `native`. -/
def mentioned (registry : Registry) : (native : NativeType) → List NativeType
  | .list element => [element]
  | .map key value => if key = .value .string then [key, value] else []
  | .named name =>
    match registry.enumMembers? name, registry.sourceType? name with
    | none, some source => if source.isGeneric then [] else instanceTypes registry source []
    | _, _ => []
  | .generic definition arguments =>
    match registry.sourceType? definition with
    | some source =>
      if source.isGeneric ∧ source.typeParameters.length = arguments.length then
        instanceTypes registry source arguments
      else []
    | none => []
  | .value _ => []
  | .nullable _ => []
  | .parameter _ => []

/-- The type that is resolved to find out whether `native` gets a number at all. -/
def leads (registry : Registry) : (native : NativeType) → List NativeType
  | .nullable inner => [inner]
  | .named name =>
    match registry.enumMembers? name, registry.sourceType? name, registry.proxyTarget? name with
    | none, none, some target =>
      if (registry.sourceType? target).isSome then [.named target] else []
    | _, _, _ => []
  | _ => []

/-! ## Running the steps -/

section Steps

variable (s : Session)

theorem runOn_reserve (native : NativeType) (name : String) :
    (reserve native name).runOn s = (.ok (s.reserve native name).1, (s.reserve native name).2) := rfl

theorem runOn_settled (outcome : Except Error α) : (settled outcome).runOn s = (outcome, s) := rfl

theorem runOn_lookUp (native : NativeType) (build : Resolution TypeId) :
    (lookUp native build).runOn s =
      match s.table.byNative.lookup native with
      | some id => (.ok id, s)
      | none => build.runOn s := by
  unfold lookUp
  rw [Action.runOn_bind]
  show (match s.table.byNative.lookup native with
    | some id => (pure id : Resolution TypeId)
    | none => build).runOn s = _
  cases s.table.byNative.lookup native <;> rfl

end Steps

/-- A type that is known leads to its number at once. -/
theorem runOn_run_of_lookup {registry : Registry} {native : NativeType} {id : TypeId} {s : Session}
    (h : s.table.byNative.lookup native = some id) (depth : Nat) :
    (run registry depth native).runOn s = (.ok id, s) := by
  cases depth with
  | zero => rw [run, runOn_lookUp, h]
  | succ depth => rw [run, runOn_lookUp, h]

theorem exists_of_bind {s : Session} {x : Resolution α} {f : α → Resolution β} {s' : Session} {b : β}
    (h : (x >>= f).runOn s = (.ok b, s')) :
    ∃ a s₁, x.runOn s = (.ok a, s₁) ∧ (f a).runOn s₁ = (.ok b, s') := by
  rw [Action.runOn_bind] at h
  cases hx : x.runOn s with
  | mk outcome s₁ =>
      rw [hx] at h
      cases outcome with
      | error e => cases h
      | ok a => exact ⟨a, s₁, rfl, h⟩

theorem eq_of_settled {s : Session} {outcome : Except Error α} {a : α} {s' : Session}
    (h : (settled outcome).runOn s = (.ok a, s')) : outcome = .ok a ∧ s' = s := by
  rw [runOn_settled] at h
  cases h
  exact ⟨rfl, rfl⟩

/-! ## Facts about the functions of the resolver -/

theorem mentions_optionalShape? {d : Descriptor} {shape : TypeShape} (h : optionalShape? d = some shape) :
    shape.mentions = [] := by
  unfold optionalShape? at h
  split at h
  · split at h
    · cases h
    · cases h
      rfl
  · cases h
    rfl
  · cases h

theorem mem_putProperty {p q : Property} {table : List Property} (h : q ∈ putProperty p table) :
    q = p ∨ q ∈ table := by
  induction table with
  | nil => exact .inl (by simpa [putProperty] using h)
  | cons first rest ih =>
      unfold putProperty at h
      split at h
      · rcases List.mem_cons.mp h with hq | hq
        · exact .inl hq
        · exact .inr (List.mem_cons_of_mem _ hq)
      · rcases List.mem_cons.mp h with hq | hq
        · exact .inr (hq ▸ List.mem_cons_self)
        · exact (ih hq).imp_right (List.mem_cons_of_mem _)

theorem not_isEndless_of_chainAbove {registry : Registry} {fuel : Nat} {below : List SourceType}
    {name : String} {e : Error} (h : registry.chainAbove fuel below name = .error e) : ¬ e.IsEndless := by
  induction fuel generalizing below name with
  | zero =>
      cases h
      rintro ⟨type, htype⟩
      cases htype
  | succ fuel ih =>
      unfold Registry.chainAbove at h
      split at h
      · cases h
        rintro ⟨type, htype⟩
        cases htype
      · split at h
        · cases h
          rintro ⟨type, htype⟩
          cases htype
        · split at h
          · cases h
          · exact ih h

theorem not_isEndless_of_parameters {type : String} {table : List Property} {names : List String}
    {e : Error} (h : parameters type table names = .error e) : ¬ e.IsEndless := by
  induction names with
  | nil => cases h
  | cons name rest ih =>
      unfold parameters at h
      split at h
      · cases h
        rintro ⟨type, htype⟩
        cases htype
      · cases hrest : parameters type table rest with
        | error e' =>
            rw [hrest] at h
            cases h
            exact ih hrest
        | ok found =>
            rw [hrest] at h
            cases h

/-! ## Courses -/

/-- What is followed through a resolution. -/
structure Course where
  /-- What is true of a session in which `pending` are reserved and `known` are given out. -/
  Holds : (pending known : List TypeId) → Session → Prop
  /-- The expressions that a session may enter. -/
  Free : NativeType → Prop
  /-- What is true of a session that has failed. -/
  Fails : Error → Session → Prop

namespace Course

/-- The outcome keeps to the course: an answer gives out more numbers, while `pending` are left over. -/
def Ends (C : Course) (pending known : List TypeId) (gives : α → List TypeId)
    (outcome : Except Error α × Session) : Prop :=
  (∀ a, outcome.1 = .ok a → C.Holds pending (gives a ++ known) outcome.2) ∧
    ∀ e, outcome.1 = .error e → C.Fails e outcome.2

/-- Wherever the step starts, it keeps to the course. -/
def Along (C : Course) (pending known : List TypeId) (gives : α → List TypeId) (x : Resolution α) :
    Prop :=
  ∀ s, C.Holds pending known s → C.Ends pending known gives (x.runOn s)

/-- Resolving any of `natives` keeps to the course and gives out its number. -/
def Resolves (C : Course) (pending : List TypeId) (resolve : Resolver) (natives : List NativeType) :
    Prop :=
  ∀ native ∈ natives, ∀ known, C.Along pending known (fun id => [id]) (resolve native)

/-- What a course has to do with the single steps. -/
structure Allows (C : Course) : Prop where
  forget : ∀ {pending known known' s}, known ⊆ known' → C.Holds pending known' s →
    C.Holds pending known s
  found : ∀ {pending known s native id}, C.Holds pending known s →
    s.table.byNative.lookup native = some id → C.Holds pending (id :: known) s
  reserve : ∀ {pending known s native} name, C.Holds pending known s → C.Free native →
    s.table.byNative.lookup native = none →
    C.Holds ((s.reserve native name).1 :: pending) ((s.reserve native name).1 :: known)
      (s.reserve native name).2
  fill : ∀ {pending known s} (d : Descriptor), C.Holds (d.id :: pending) known s →
    d.id ∈ known → d.mentions ⊆ known → C.Holds pending known (s.fill d)
  enter : ∀ {pending known s native} name isNullable {arguments shape}, C.Holds pending known s →
    C.Free native → arguments ⊆ known → shape.mentions = [] →
    C.Holds pending ((s.reserve native name).1 :: known) ((s.reserve native name).2.fill
      ⟨(s.reserve native name).1, name, isNullable, arguments, shape⟩)
  identify : ∀ {pending known s native id}, C.Holds pending known s → C.Free native → id ∈ known →
    C.Holds pending known (s.identify native id)
  fails : ∀ {pending known s e}, C.Holds pending known s → ¬ e.IsEndless → C.Fails e s

variable {C : Course} {pending known : List TypeId} {gives : α → List TypeId}

theorem Resolves.of_subset {resolve : Resolver} {natives natives' : List NativeType}
    (h : C.Resolves pending resolve natives') (hsub : natives ⊆ natives') :
    C.Resolves pending resolve natives :=
  fun native hnative => h native (hsub hnative)

theorem ends_ok {a : α} {s : Session} (h : C.Holds pending (gives a ++ known) s) :
    C.Ends pending known gives (.ok a, s) := by
  refine ⟨fun b hb => ?_, fun e he => ?_⟩
  · cases hb
    exact h
  · cases he

theorem ends_error {e : Error} {s : Session} (h : C.Fails e s) :
    C.Ends pending known gives (.error e, s) := by
  refine ⟨fun b hb => ?_, fun e' he => ?_⟩
  · cases hb
  · cases he
    exact h

/-! ### Composition -/

section Composition

variable (hC : C.Allows)

include hC

theorem along_bind {given : α → List TypeId} {gives : β → List TypeId} {x : Resolution α}
    {f : α → Resolution β} (hx : C.Along pending known given x)
    (hf : ∀ a, C.Along pending (given a ++ known) gives (f a)) :
    C.Along pending known gives (x >>= f) := by
  intro s hs
  have hfirst := hx s hs
  rw [Action.runOn_bind]
  cases hrun : x.runOn s with
  | mk outcome s' =>
      rw [hrun] at hfirst
      cases outcome with
      | error e => exact ends_error (hfirst.2 e rfl)
      | ok a =>
          obtain ⟨hok, herror⟩ := hf a s' (hfirst.1 a rfl)
          refine ⟨fun b hb => hC.forget ?_ (hok b hb), herror⟩
          exact List.append_subset.mpr ⟨List.subset_append_left _ _,
            List.subset_append_of_subset_right _ (List.subset_append_right _ _)⟩

theorem along_pure {a : α} (ha : gives a ⊆ known) :
    C.Along pending known gives (pure a : Resolution α) :=
  fun _ hs => ends_ok (hC.forget (List.append_subset.mpr ⟨ha, List.Subset.refl _⟩) hs)

theorem along_settled {outcome : Except Error α}
    (herror : ∀ e, outcome = .error e → ¬ e.IsEndless) :
    C.Along pending known (fun _ => []) (settled outcome) := by
  intro s hs
  cases outcome with
  | error e => exact ends_error (hC.fails hs (herror e rfl))
  | ok a => exact ends_ok hs

theorem along_fail {e : Error} (he : ¬ e.IsEndless) :
    C.Along pending known gives (Action.fail e : Resolution α) :=
  fun _ hs => ends_error (hC.fails hs he)

omit hC in
theorem along_descriptor? (id : TypeId) :
    C.Along pending known (fun _ => []) (descriptor? id) :=
  fun _ hs => ends_ok hs

theorem along_identify {native : NativeType} {id : TypeId} (hfree : C.Free native) (hid : id ∈ known) :
    C.Along pending known (fun id => [id]) (identify native id) := by
  intro s hs
  refine ends_ok (hC.forget ?_ (hC.identify hs hfree hid))
  exact List.append_subset.mpr ⟨by simpa using hid, List.Subset.refl _⟩

/-- A type without parts of its own may be entered late. -/
theorem along_enter_pure {native : NativeType} {name : String} {isNullable : Bool}
    {arguments : List TypeId} {shape : TypeShape} (hfree : C.Free native) (harguments : arguments ⊆ known)
    (hshape : shape.mentions = []) :
    C.Along pending known (fun id => [id])
      (enter native name isNullable fun _ => pure ⟨arguments, shape⟩) :=
  fun _ hs => ends_ok (hC.enter name isNullable hs hfree harguments hshape)

/-- While the contents are resolved, the number of the type itself is pending. -/
theorem ends_enter {native : NativeType} {name : String} {isNullable : Bool}
    {contents : TypeId → Resolution Contents} {s : Session} (hs : C.Holds pending known s)
    (hfree : C.Free native) (hnew : s.table.byNative.lookup native = none)
    (hcontents : ∀ id, C.Along (id :: pending) (id :: known)
      (fun c => c.arguments ++ c.shape.mentions) (contents id)) :
    C.Ends pending known (fun id => [id]) ((enter native name isNullable contents).runOn s) := by
  have hinside := hcontents _ _ (hC.reserve name hs hfree hnew)
  unfold enter
  rw [Action.runOn_bind, runOn_reserve]
  dsimp only
  rw [Action.runOn_bind]
  cases hrun : (contents (s.reserve native name).1).runOn (s.reserve native name).2 with
  | mk outcome s' =>
      rw [hrun] at hinside
      cases outcome with
      | error e => exact ends_error (hinside.2 e rfl)
      | ok c =>
          have hfilled := hC.fill ⟨(s.reserve native name).1, name, isNullable, c.arguments, c.shape⟩
            (hinside.1 c rfl) (List.mem_append_right _ List.mem_cons_self) (List.subset_append_left _ _)
          exact ends_ok (hC.forget (List.subset_append_right _ _) hfilled)

end Composition

/-! ### The functions of the resolver -/

section Functions

variable (hC : C.Allows) {registry : Registry} {resolve : Resolver} {arguments : List NativeType}
  {id : TypeId}

include hC

theorem along_each {natives : List NativeType} (hresolve : C.Resolves pending resolve natives) :
    C.Along pending known (fun ids => ids) (each resolve natives) := by
  induction natives generalizing known with
  | nil => exact along_pure hC (List.nil_subset _)
  | cons native rest ih =>
      refine along_bind hC (hresolve native List.mem_cons_self known) fun id => ?_
      refine along_bind hC (ih (hresolve.of_subset (List.subset_cons_self _ _))) fun ids => ?_
      refine along_pure hC (List.cons_subset.mpr ⟨?_, List.subset_append_left _ _⟩)
      exact List.mem_append_right _ (List.mem_append_left _ List.mem_cons_self)

theorem along_numberOf {self name : String} (hresolve : C.Resolves pending resolve (numberTypes self name))
    (hid : id ∈ known) :
    C.Along pending known (fun id => [id]) (numberOf resolve self id name) := by
  unfold numberOf
  split
  · exact along_pure hC (by simpa using hid)
  · rename_i hname
    refine hresolve _ ?_ known
    rw [numberTypes, if_neg hname]
    exact List.mem_cons_self

theorem along_baseOf {base : Option String}
    (hresolve : C.Resolves pending resolve (base.map NativeType.named).toList) :
    C.Along pending known Option.toList (baseOf resolve base) := by
  cases base with
  | none => exact along_pure hC (List.nil_subset _)
  | some name =>
      refine along_bind hC (hresolve _ List.mem_cons_self known) fun id => along_pure hC ?_
      exact List.subset_append_left _ _

theorem along_declare {declaring : TypeId} {defs : List PropertyDef} {table : List Property}
    (hresolve : C.Resolves pending resolve (defs.map (propertyType arguments)))
    (hdeclaring : declaring ∈ known) (htable : Property.allMentions table ⊆ known) :
    C.Along pending known Property.allMentions (declare resolve arguments declaring defs table) := by
  induction defs generalizing table known with
  | nil => exact along_pure hC htable
  | cons d rest ih =>
      refine along_bind hC (hresolve _ List.mem_cons_self known) fun type => ?_
      refine ih (hresolve.of_subset (List.subset_cons_self _ _)) (List.mem_append_right _ hdeclaring) ?_
      intro i hi
      obtain ⟨p, hp, hip⟩ := List.mem_flatMap.mp hi
      rcases mem_putProperty hp with rfl | hp
      · rcases List.mem_cons.mp hip with rfl | hip
        · exact List.mem_append_left _ List.mem_cons_self
        · rw [List.mem_singleton.mp hip]
          exact List.mem_append_right _ hdeclaring
      · exact List.mem_append_right _ (htable (List.mem_flatMap.mpr ⟨p, hp, hip⟩))

theorem along_inherit {self : String} {chain : List SourceType} {table : List Property}
    (hresolve : C.Resolves pending resolve (chainTypes arguments self chain)) (hid : id ∈ known)
    (htable : Property.allMentions table ⊆ known) :
    C.Along pending known Property.allMentions (inherit resolve arguments self id chain table) := by
  induction chain generalizing table known with
  | nil => exact along_pure hC htable
  | cons source rest ih =>
      rw [chainTypes, List.flatMap_cons] at hresolve
      have hsource := hresolve.of_subset (List.subset_append_left _ _)
      have hself := hsource.of_subset (List.subset_append_left _ _)
      have hdefs := hsource.of_subset (List.subset_append_right _ _)
      refine along_bind hC (along_numberOf hC hself hid) fun declaring => ?_
      refine along_bind hC (along_declare hC hdefs List.mem_cons_self
        (List.subset_append_of_subset_right _ htable)) fun table' => ?_
      refine ih (hresolve.of_subset (List.subset_append_right _ _)) ?_ (List.subset_append_left _ _)
      exact List.mem_append_right _ (List.mem_append_right _ hid)

theorem along_parentOf {parent : Option ParentDef}
    (hresolve : C.Resolves pending resolve (parent.map fun parent => NativeType.named parent.type).toList) :
    C.Along pending known (fun parent => (parent.map (·.type)).toList) (parentOf resolve parent) := by
  cases parent with
  | none => exact along_pure hC (List.nil_subset _)
  | some parent =>
      refine along_bind hC (hresolve _ List.mem_cons_self known) fun type => along_pure hC ?_
      exact List.subset_append_left _ _

theorem along_address {source : SourceType} {chain : List SourceType}
    (hresolve : C.Resolves pending resolve (addressTypes source chain)) (hid : id ∈ known) :
    C.Along pending known ResourceAddress.mentions (address registry resolve source chain id) := by
  have howner := hresolve.of_subset (List.subset_append_left _ _)
  have hparent := hresolve.of_subset (List.subset_append_right _ _)
  refine along_bind hC (along_numberOf hC howner hid) fun uriBase => ?_
  refine along_bind hC (along_parentOf hC hparent) fun parent => along_pure hC ?_
  refine List.cons_subset.mpr ⟨?_, List.subset_append_left _ _⟩
  exact List.mem_append_right _ (List.mem_append_left _ List.mem_cons_self)

theorem along_shapeOf {source : SourceType} {chain : List SourceType} {members : Members}
    (hresolve : source.kind = .resource → C.Resolves pending resolve (addressTypes source chain))
    (hid : id ∈ known) (hmembers : members.mentions ⊆ known) :
    C.Along pending known TypeShape.mentions (shapeOf registry resolve source chain id members) := by
  unfold shapeOf
  split
  · exact along_pure hC hmembers
  · rename_i hkind
    refine along_bind hC (along_address hC (hresolve hkind) hid) fun address => along_pure hC ?_
    exact List.append_subset.mpr ⟨List.subset_append_of_subset_right _ hmembers,
      List.subset_append_left _ _⟩

theorem along_sourceContents {s : SourceType} {chain : List SourceType} {name : String}
    (hresolve : C.Resolves pending resolve (sourceTypes s chain arguments)) (hid : id ∈ known) :
    C.Along pending known (fun c => c.arguments ++ c.shape.mentions)
      (sourceContents registry resolve s chain arguments name id) := by
  have hshape := hresolve.of_subset (List.subset_append_right _ _)
  have hbefore := hresolve.of_subset (List.subset_append_left _ _)
  have hchain := hbefore.of_subset (List.subset_append_right _ _)
  have hfirst := hbefore.of_subset (List.subset_append_left _ _)
  have hbase := hfirst.of_subset (List.subset_append_left _ _)
  have harguments := hfirst.of_subset (List.subset_append_right _ _)
  refine along_bind hC (along_baseOf hC hbase) fun base => ?_
  refine along_bind hC (along_each hC harguments) fun argumentIds => ?_
  refine along_bind hC (along_inherit hC hchain
    (List.mem_append_right _ (List.mem_append_right _ hid)) (List.nil_subset _)) fun properties => ?_
  refine along_bind hC (along_settled hC fun e => not_isEndless_of_parameters) fun constructor => ?_
  refine along_bind hC (along_shapeOf hC ?_ ?_ ?_) fun shape => along_pure hC ?_
  · intro hkind
    rwa [if_pos hkind] at hshape
  · simp [hid]
  · -- the base and the properties were given out
    refine List.append_subset.mpr ⟨?_, ?_⟩
    · intro i hi
      have hbase : i ∈ base.toList := hi
      simp [hbase]
    · intro i hi
      have hproperties : i ∈ Property.allMentions properties := hi
      simp [hproperties]
  · refine List.append_subset.mpr ⟨?_, List.subset_append_left _ _⟩
    intro i hi
    simp [hi]

theorem along_listContents {element : NativeType} (hresolve : C.Resolves pending resolve [element]) :
    C.Along pending known (fun c => c.arguments ++ c.shape.mentions) (listContents resolve element) := by
  refine along_bind hC (hresolve _ List.mem_cons_self known) fun id => along_pure hC ?_
  simp [TypeShape.mentions]

theorem along_mapContents {key value : NativeType} (hresolve : C.Resolves pending resolve [key, value]) :
    C.Along pending known (fun c => c.arguments ++ c.shape.mentions)
      (mapContents resolve key value) := by
  refine along_bind hC (hresolve key (by simp) known) fun keyId => ?_
  refine along_bind hC (hresolve value (by simp) _) fun valueId => along_pure hC ?_
  simp [TypeShape.mentions]

theorem along_nullable {native inner : NativeType} (hresolve : C.Resolves pending resolve [inner])
    (hfree : C.Free native) :
    C.Along pending known (fun id => [id]) (nullable resolve native inner) := by
  refine along_bind hC (hresolve _ List.mem_cons_self known) fun innerId => ?_
  refine along_bind hC (along_descriptor? innerId) fun d => ?_
  cases hshape : d.bind optionalShape? with
  | none => exact along_identify hC hfree (by simp)
  | some shape =>
      obtain ⟨e, _, he⟩ := Option.bind_eq_some_iff.mp hshape
      exact along_enter_pure hC hfree (by simp) (mentions_optionalShape? he)

theorem ends_source {native : NativeType} {s : SourceType} {session : Session}
    (hs : C.Holds pending known session) (hfree : C.Free native)
    (hnew : session.table.byNative.lookup native = none)
    (hresolve : ∀ id, C.Resolves (id :: pending) resolve (instanceTypes registry s arguments)) :
    C.Ends pending known (fun id => [id])
      ((source registry resolve native s arguments).runOn session) := by
  unfold source
  rw [Action.runOn_bind, runOn_settled]
  unfold instanceTypes at hresolve
  cases hchain : registry.inheritanceChain s.name with
  | error e => exact ends_error (hC.fails hs (not_isEndless_of_chainAbove hchain))
  | ok chain =>
      rw [hchain] at hresolve
      exact ends_enter hC hs hfree hnew fun id => along_sourceContents hC (hresolve id) List.mem_cons_self

theorem ends_named {name : String} {s : Session} (hs : C.Holds pending known s)
    (hfree : C.Free (.named name)) (hnew : s.table.byNative.lookup (.named name) = none)
    (hleads : C.Resolves pending resolve (leads registry (.named name)))
    (hmentioned : ∀ id, C.Resolves (id :: pending) resolve (mentioned registry (.named name))) :
    C.Ends pending known (fun id => [id]) ((named registry resolve name).runOn s) := by
  unfold named
  cases henum : registry.enumMembers? name with
  | some members => exact along_enter_pure hC hfree (List.nil_subset _) rfl s hs
  | none =>
      cases hsource : registry.sourceType? name with
      | some source =>
          simp only [mentioned, henum, hsource] at hmentioned
          dsimp only
          split
          · exact along_fail hC (by simp [Error.IsEndless]) s hs
          · rename_i hgeneric
            rw [if_neg hgeneric] at hmentioned
            exact ends_source hC hs hfree hnew hmentioned
      | none =>
          dsimp only
          cases hproxy : registry.proxyTarget? name with
          | none => exact along_fail hC (by simp [Error.IsEndless]) s hs
          | some target =>
              simp only [leads, henum, hsource, hproxy] at hleads
              dsimp only [proxy]
              split
              · rename_i htarget
                rw [if_pos htarget] at hleads
                exact along_bind hC (hleads _ List.mem_cons_self known)
                  (fun id => along_identify hC hfree (by simp)) s hs
              · exact along_fail hC (by simp [Error.IsEndless]) s hs

theorem ends_instance_ {definition : String} {s : Session} (hs : C.Holds pending known s)
    (hfree : C.Free (.generic definition arguments))
    (hnew : s.table.byNative.lookup (.generic definition arguments) = none)
    (hmentioned : ∀ id,
      C.Resolves (id :: pending) resolve (mentioned registry (.generic definition arguments))) :
    C.Ends pending known (fun id => [id])
      ((instance_ registry resolve (.generic definition arguments) definition arguments).runOn s) := by
  unfold instance_
  cases hsource : registry.sourceType? definition with
  | none => exact along_fail hC (by simp [Error.IsEndless]) s hs
  | some source =>
      simp only [mentioned, hsource] at hmentioned
      dsimp only
      split
      · exact along_fail hC (by simp [Error.IsEndless]) s hs
      · split
        · exact along_fail hC (by simp [Error.IsEndless]) s hs
        · rename_i hgeneric hlength
          rw [if_pos ⟨by simpa using hgeneric, Classical.not_not.mp hlength⟩] at hmentioned
          exact ends_source hC hs hfree hnew hmentioned

theorem ends_build {native : NativeType} {s : Session} (hs : C.Holds pending known s)
    (hfree : C.Free native) (hnew : s.table.byNative.lookup native = none)
    (hleads : C.Resolves pending resolve (leads registry native))
    (hmentioned : ∀ id, C.Resolves (id :: pending) resolve (mentioned registry native)) :
    C.Ends pending known (fun id => [id]) ((build registry resolve native).runOn s) := by
  cases native with
  | value kind => exact along_enter_pure hC hfree (List.nil_subset _) rfl s hs
  | nullable inner => exact along_nullable hC hleads hfree s hs
  | list element => exact ends_enter hC hs hfree hnew fun id => along_listContents hC (hmentioned id)
  | map key value =>
      simp only [mentioned] at hmentioned
      unfold build
      dsimp only
      split
      · exact along_fail hC (by simp [Error.IsEndless]) s hs
      · rename_i hkey
        rw [if_pos (Classical.not_not.mp hkey)] at hmentioned
        exact ends_enter hC hs hfree hnew fun id => along_mapContents hC (hmentioned id)
  | named name => exact ends_named hC hs hfree hnew hleads hmentioned
  | generic definition arguments => exact ends_instance_ hC hs hfree hnew hmentioned
  | parameter index => exact along_fail hC (by simp [Error.IsEndless]) s hs

theorem along_lookUp {native : NativeType} {x : Resolution TypeId}
    (hbuild : ∀ s, C.Holds pending known s → s.table.byNative.lookup native = none →
      C.Ends pending known (fun id => [id]) (x.runOn s)) :
    C.Along pending known (fun id => [id]) (lookUp native x) := by
  intro s hs
  rw [runOn_lookUp]
  cases hlookup : s.table.byNative.lookup native with
  | some id => exact ends_ok (hC.found hs hlookup)
  | none => exact hbuild s hs hlookup

/-- **A resolution keeps to a course that allows each single step and any failure**, if whatever leads
nowhere yet may be entered. -/
theorem along_run (hmissed : ∀ {pending known s native}, C.Holds pending known s →
      s.table.byNative.lookup native = none → C.Free native)
    (hfails : ∀ {pending known s e}, C.Holds pending known s → C.Fails e s) (depth : Nat)
    (native : NativeType) :
    C.Along pending known (fun id => [id]) (run registry depth native) := by
  induction depth generalizing native pending known with
  | zero => exact along_lookUp hC fun s hs _ => ends_error (hfails hs)
  | succ depth ih =>
      exact along_lookUp hC fun s hs hnew => ends_build hC hs (hmissed hs hnew) hnew
        (fun native _ _ => ih native) fun _ native _ _ => ih native

end Functions

end Course

end Resolution

end ResourceQuery
