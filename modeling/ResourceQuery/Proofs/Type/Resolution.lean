import ResourceQuery.Proofs.Type.Consistency
import ResourceQuery.Proofs.Type.Inheritance
import ResourceQuery.Type.Address

set_option autoImplicit false

/-! # Resolutions keep the table sound

Each step of a resolution leads from a sound table to a sound one and leaves alone what is under way
around it (`resolved_run`). So the table of every graph that arises from a registry is sound
(`TypeGraph.Arises.sound`), however many types were resolved after the graph was made.

The step that carries the argument is `resolved_source`. It reserves a number, resolves everything that
the type mentions, and completes the number with a table of properties that has all names along the
inheritance chain and no others.
-/

namespace ResourceQuery

namespace Resolution

open TypeTable

variable {α β : Type} {registry : Registry} {resolve : Resolver} {t t' : TypeTable} {s s' : Session}

/-! ## Steps -/

/-- From a sound table the step leads to a sound one, and leaves alone what was under way. -/
def Keeps (registry : Registry) (x : Resolution α) : Prop :=
  ∀ s, s.table.Sound registry → ∀ a s', x.runOn s = (.ok a, s') →
    s'.table.Sound registry ∧ Frame registry s.table s'.table

theorem keeps_bind {x : Resolution α} {f : α → Resolution β} (hx : Keeps registry x)
    (hf : ∀ a, Keeps registry (f a)) : Keeps registry (x >>= f) := by
  intro s hs b s'' hrun
  obtain ⟨a, s', hfirst, hrest⟩ := exists_of_bind hrun
  obtain ⟨hsound, hframe⟩ := hx s hs a s' hfirst
  obtain ⟨hsound', hframe'⟩ := hf a s' hsound b s'' hrest
  exact ⟨hsound', hframe.trans hframe'⟩

theorem keeps_pure (a : α) : Keeps registry (pure a : Resolution α) := by
  intro s hs b s' hrun
  cases hrun
  exact ⟨hs, .refl _⟩

/-- The outcome of resolving `native`: the table is sound and kept what was under way, the number was
given out, and an expression that is pinned leads to it. -/
structure Resolved (registry : Registry) (t : TypeTable) (native : NativeType) (id : TypeId)
    (t' : TypeTable) : Prop where
  sound : t'.Sound registry
  frame : Frame registry t t'
  below : id.index < t'.slots.size
  leads : registry.Pins native → t'.byNative.lookup native = some id

/-- Resolves whatever it is asked for. -/
def Resolves (registry : Registry) (resolve : Resolver) : Prop :=
  ∀ native s id s', s.table.Sound registry → (resolve native).runOn s = (.ok id, s') →
    Resolved registry s.table native id s'.table

theorem Resolves.keeps (h : Resolves registry resolve) (native : NativeType) :
    Keeps registry (resolve native) := fun s hs id s' hrun =>
  let resolved := h native s id s' hs hrun
  ⟨resolved.sound, resolved.frame⟩

/-- A number that was reserved, and then completed. -/
theorem resolved_fill {native : NativeType} {name : String} {d : Descriptor} (h : t.Sound registry)
    (hfree : registry.Pins native → t.byNative.lookup native = none) (ht' : t'.Sound registry)
    (hframe : Frame registry (t.reserve native name).2 t') (hid : d.id = (t.reserve native name).1)
    (hname : d.name = name) (hcomplete : Complete registry t' native d) :
    Resolved registry t native d.id (t'.fill d) := by
  have hpending : Pending registry t' native d.name d.id := by
    rw [hid, hname]
    exact (pending_reserve h native name).frame hframe
  refine ⟨ht'.fill hpending hcomplete, ?_, ?_, hpending.pins⟩
  · refine ((frame_reserve name hfree).trans hframe).fill ?_
    rw [hid]
    exact Nat.le_refl _
  · simpa [TypeTable.fill] using hpending.below

/-- A further expression for a number, which is not pinned. -/
theorem resolved_identify {native : NativeType} {id : TypeId} (h : t.Sound registry)
    (hnative : ¬ registry.Pins native) (hid : id.index < t.slots.size) :
    Resolved registry t native id (t.identify native id) := by
  have hlookup : ∀ other, registry.Pins other →
      (t.identify native id).byNative.lookup other = t.byNative.lookup other := by
    intro other hother
    have hne : (other == native) = false := by
      rw [beq_eq_false_iff_ne]
      rintro rfl
      exact hnative hother
    simp [TypeTable.identify, List.lookup_cons, hne]
  have hframe : Frame registry t (t.identify native id) :=
    { extend := ⟨Nat.le_refl _, fun _ _ => rfl⟩
      natives := fun other id' hpin hid' => (hlookup other hpin).trans hid'
      nativesBack := fun other id' hpin hid' _ => (hlookup other hpin).symm.trans hid'
      names := fun _ _ hid' => hid'
      namesBack := fun _ _ hid' _ => hid' }
  refine ⟨h.of_frame hframe (fun _ => rfl) (fun other id' hid' => ?_) h.nameBelow, hframe,
    hid, fun hpin => absurd hpin hnative⟩
  simp only [TypeTable.identify, List.lookup_cons] at hid'
  split at hid'
  · cases hid'
    exact hid
  · exact h.nativeBelow other id' hid'

/-- A type whose contents are resolved while its number is pending. -/
theorem resolved_enter {native : NativeType} {name : String} {isNullable : Bool}
    {contents : TypeId → Resolution Contents} {id : TypeId} (h : s.table.Sound registry)
    (hfree : registry.Pins native → s.table.byNative.lookup native = none)
    (hcontents : ∀ new s₁ c s₂, s₁.table.Sound registry → (contents new).runOn s₁ = (.ok c, s₂) →
      (s₂.table.Sound registry ∧ Frame registry s₁.table s₂.table) ∧
        Complete registry s₂.table native ⟨new, name, isNullable, c.arguments, c.shape⟩)
    (hrun : (enter native name isNullable contents).runOn s = (.ok id, s')) :
    Resolved registry s.table native id s'.table := by
  obtain ⟨new, s₁, hreserve, hrest⟩ := exists_of_bind hrun
  cases hreserve
  obtain ⟨c, s₂, hinside, hfill⟩ := exists_of_bind hrest
  cases hfill
  obtain ⟨⟨hsound, hframe⟩, hcomplete⟩ := hcontents _ _ c s₂ (h.reserve name hfree) hinside
  exact resolved_fill h hfree hsound hframe rfl rfl hcomplete

/-! ## Types without members -/

/-- A type whose contents are settled. -/
theorem resolved_plain {native : NativeType} {name : String} {isNullable : Bool} {c : Contents}
    {id : TypeId} (h : s.table.Sound registry)
    (hfree : registry.Pins native → s.table.byNative.lookup native = none)
    (hplain : ∀ id, (Descriptor.mk id name isNullable c.arguments c.shape).members? = none)
    (hany : ∀ id, (Descriptor.mk id name isNullable c.arguments c.shape).isAny = true →
      isNullable = true ∧ native = .value .any)
    (hshaped : ∀ other, native = .named other →
      ∀ id, registry.Shapes other (.mk id name isNullable c.arguments c.shape))
    (hrun : (enter native name isNullable fun _ => pure c).runOn s = (.ok id, s')) :
    Resolved registry s.table native id s'.table := by
  refine resolved_enter h hfree (fun new s₁ c' s₂ hs₁ hinside => ?_) hrun
  cases hinside
  exact ⟨⟨hs₁, .refl _⟩, complete_of_plain _ _ _ (hplain new) (hany new) fun other hother =>
    hshaped other hother new⟩

/-- Values that get a descriptor of their own when they are made optional did not accept null. -/
theorem plain_of_optionalShape? {d : Descriptor} {shape : TypeShape} (h : optionalShape? d = some shape)
    (id : TypeId) (name : String) (isNullable : Bool) (arguments : List TypeId) :
    (Descriptor.mk id name isNullable arguments shape).members? = none ∧
      ((Descriptor.mk id name isNullable arguments shape).isAny = true →
        d.isAny = true ∧ d.nullable = false) := by
  obtain ⟨dId, dName, dNullable, dArguments, dShape⟩ := d
  cases dShape with
  | value kind =>
      cases dNullable with
      | true => cases h
      | false =>
          cases h
          exact ⟨rfl, fun hany => ⟨hany, rfl⟩⟩
  | enum members =>
      cases h
      exact ⟨rfl, fun hany => by cases hany⟩
  | collection element => cases h
  | dictionary key value => cases h
  | structured members => cases h
  | resource members address => cases h

theorem resolved_nullable (hresolve : Resolves registry resolve) {inner : NativeType} {id : TypeId}
    (h : s.table.Sound registry)
    (hrun : (nullable resolve (.nullable inner) inner).runOn s = (.ok id, s')) :
    Resolved registry s.table (.nullable inner) id s'.table := by
  obtain ⟨innerId, s₁, hinner, hrest⟩ := exists_of_bind hrun
  obtain ⟨d, s₂, hget, hmatch⟩ := exists_of_bind hrest
  cases hget
  have hstep := hresolve inner s innerId s₁ h hinner
  -- an optional type is never pinned, so what was known of it does not matter
  have hunpinned : ¬ registry.Pins (.nullable inner) := fun hpin => hpin
  have hlast : Resolved registry s₁.table (.nullable inner) id s'.table := by
    cases hshape : (s₁.table.get? innerId).bind optionalShape? with
    | none =>
        rw [hshape] at hmatch
        cases hmatch
        exact resolved_identify hstep.sound hunpinned hstep.below
    | some shape =>
        rw [hshape] at hmatch
        obtain ⟨e, he, hshape⟩ := Option.bind_eq_some_iff.mp hshape
        have hplain := plain_of_optionalShape? hshape
        refine resolved_plain hstep.sound (fun hpin => absurd hpin hunpinned)
          (fun new => (hplain new _ _ _).1) (fun new hany => ?_)
          (fun other hother => by cases hother) hmatch
        -- the untyped type accepts null and never gets a second descriptor
        obtain ⟨hanyInner, hnullable⟩ := (hplain new _ _ _).2 hany
        have hnull := (hstep.sound.untyped _ _ he hanyInner).1
        rw [hnullable] at hnull
        cases hnull
  exact ⟨hlast.sound, hstep.frame.trans hlast.frame, hlast.below, fun hpin => absurd hpin hunpinned⟩

theorem resolved_list (hresolve : Resolves registry resolve) {element : NativeType} {name : String}
    {id : TypeId} (h : s.table.Sound registry)
    (hrun : (enter (.list element) name true fun _ => listContents resolve element).runOn s =
      (.ok id, s')) : Resolved registry s.table (.list element) id s'.table := by
  refine resolved_enter h (fun hpin => hpin.elim) (fun new s₁ c s₂ hs₁ hinside => ?_) hrun
  obtain ⟨elementId, s₃, helement, hpure⟩ := exists_of_bind hinside
  cases hpure
  have hstep := hresolve element s₁ elementId s₂ hs₁ helement
  refine ⟨⟨hstep.sound, hstep.frame⟩, complete_of_plain _ _ _ rfl (fun hany => by cases hany) ?_⟩
  intro other hother
  cases hother

theorem resolved_map (hresolve : Resolves registry resolve) {key value : NativeType} {name : String}
    {id : TypeId} (h : s.table.Sound registry)
    (hrun : (enter (.map key value) name true fun _ => mapContents resolve key value).runOn s =
      (.ok id, s')) : Resolved registry s.table (.map key value) id s'.table := by
  refine resolved_enter h (fun hpin => hpin.elim) (fun new s₁ c s₂ hs₁ hinside => ?_) hrun
  obtain ⟨keyId, s₃, hkey, hrest⟩ := exists_of_bind hinside
  obtain ⟨valueId, s₄, hvalue, hpure⟩ := exists_of_bind hrest
  cases hpure
  have hfirst := hresolve key s₁ keyId s₃ hs₁ hkey
  have hsecond := hresolve value s₃ valueId s₂ hfirst.sound hvalue
  refine ⟨⟨hsecond.sound, hfirst.frame.trans hsecond.frame⟩,
    complete_of_plain _ _ _ rfl (fun hany => by cases hany) ?_⟩
  intro other hother
  cases hother

/-! ## Source types -/

theorem keeps_numberOf (hresolve : Resolves registry resolve) (self : String) (id : TypeId)
    (name : String) : Keeps registry (numberOf resolve self id name) := by
  unfold numberOf
  split
  · exact keeps_pure _
  · exact hresolve.keeps _

theorem keeps_declare (hresolve : Resolves registry resolve) {arguments : List NativeType}
    {declaring : TypeId} {defs : List PropertyDef} {table result : List Property}
    (h : s.table.Sound registry)
    (hrun : (declare resolve arguments declaring defs table).runOn s = (.ok result, s')) :
    (s'.table.Sound registry ∧ Frame registry s.table s'.table) ∧
      Extension table result (defs.map (·.name)) := by
  induction defs generalizing s table with
  | nil =>
      cases hrun
      exact ⟨⟨h, .refl _⟩, .refl _⟩
  | cons d rest ih =>
      obtain ⟨type, s₁, htype, hrest⟩ := exists_of_bind hrun
      have hstep := hresolve _ s type s₁ h htype
      obtain ⟨⟨hsound, hframe⟩, hextension⟩ := ih hstep.sound hrest
      exact ⟨⟨hsound, hstep.frame.trans hframe⟩, (extension_putProperty _ table).trans hextension⟩

theorem keeps_inherit (hresolve : Resolves registry resolve) {arguments : List NativeType}
    {self : String} {id : TypeId} {chain : List SourceType} {table result : List Property}
    (h : s.table.Sound registry)
    (hrun : (inherit resolve arguments self id chain table).runOn s = (.ok result, s')) :
    (s'.table.Sound registry ∧ Frame registry s.table s'.table) ∧
      Extension table result (Registry.namesAlong chain) := by
  induction chain generalizing s table with
  | nil =>
      cases hrun
      exact ⟨⟨h, .refl _⟩, .refl _⟩
  | cons source rest ih =>
      obtain ⟨declaring, s₁, hdeclaring, hrest⟩ := exists_of_bind hrun
      obtain ⟨middle, s₂, hdeclare, hinherit⟩ := exists_of_bind hrest
      obtain ⟨hsound₁, hframe₁⟩ := keeps_numberOf hresolve _ _ _ s h _ _ hdeclaring
      obtain ⟨⟨hsound₂, hframe₂⟩, hfirst⟩ := keeps_declare hresolve hsound₁ hdeclare
      obtain ⟨⟨hsound₃, hframe₃⟩, hsecond⟩ := ih hsound₂ hinherit
      exact ⟨⟨hsound₃, hframe₁.trans (hframe₂.trans hframe₃)⟩, hfirst.trans hsecond⟩

theorem keeps_each (hresolve : Resolves registry resolve) (natives : List NativeType) :
    Keeps registry (each resolve natives) := by
  induction natives with
  | nil => exact keeps_pure _
  | cons native rest ih =>
      exact keeps_bind (hresolve.keeps native) fun id => keeps_bind ih fun ids => keeps_pure _

theorem keeps_address (hresolve : Resolves registry resolve) (source : SourceType)
    (chain : List SourceType) (id : TypeId) :
    Keeps registry (address registry resolve source chain id) := by
  have hparent : ∀ parent, Keeps registry (parentOf resolve parent) := by
    intro parent
    cases parent with
    | none => exact keeps_pure _
    | some parent => exact keeps_bind (hresolve.keeps _) fun type => keeps_pure _
  exact keeps_bind (keeps_numberOf hresolve _ _ _) fun uriBase =>
    keeps_bind (hparent _) fun parent => keeps_pure _

/-- The shape of a source type has the members that were resolved for it. -/
theorem keeps_shapeOf (hresolve : Resolves registry resolve) {source : SourceType}
    {chain : List SourceType} {id : TypeId} {m : Members} {shape : TypeShape}
    (h : s.table.Sound registry)
    (hrun : (shapeOf registry resolve source chain id m).runOn s = (.ok shape, s')) :
    (s'.table.Sound registry ∧ Frame registry s.table s'.table) ∧
      ∀ d : Descriptor, d.shape = shape →
        d.members? = some m ∧ d.isAny = false ∧ d.isDeclared = true := by
  unfold shapeOf at hrun
  cases hkind : source.kind with
  | valueObject =>
      rw [hkind] at hrun
      cases hrun
      refine ⟨⟨h, .refl _⟩, fun d hd => ?_⟩
      unfold Descriptor.members? Descriptor.isAny Descriptor.isDeclared
      rw [hd]
      exact ⟨rfl, rfl, rfl⟩
  | resource =>
      rw [hkind] at hrun
      obtain ⟨place, s₁, haddress, hpure⟩ := exists_of_bind hrun
      cases hpure
      refine ⟨keeps_address hresolve _ _ _ s h _ _ haddress, fun d hd => ?_⟩
      unfold Descriptor.members? Descriptor.isAny Descriptor.isDeclared
      rw [hd]
      exact ⟨rfl, rfl, rfl⟩

/-- What a type with a chain inherits from: a declared name leads there, and the properties along the chain
of that name are among those of the chain at hand. -/
def IsBase (registry : Registry) (t : TypeTable) (chain : List SourceType) (base : Option TypeId) :
    Prop :=
  ∀ b, base = some b → ∃ name names, t.byNative.lookup (.named name) = some b ∧
    (registry.sourceType? name).isSome = true ∧ registry.declaredNames? name = some names ∧
      ∀ m ∈ names, m ∈ Registry.namesAlong chain

theorem IsBase.frame {chain : List SourceType} {base : Option TypeId} (h : IsBase registry t chain base)
    (hframe : Frame registry t t') : IsBase registry t' chain base := by
  intro b hb
  obtain ⟨name, names, hlookup, hsource, hnames, hall⟩ := h b hb
  have hpin : registry.Pins (.named name) := by
    show (registry.declaredNames? name).isSome = true
    rw [hnames]
    rfl
  exact ⟨name, names, hframe.natives _ b hpin hlookup, hsource, hnames, hall⟩

/-- The names that the chain of the base's name has are among those of the whole chain. -/
theorem exists_declaredNames_of_base {source : SourceType} {chain : List SourceType} {base : String}
    (hsource : registry.sourceType? source.name = some source) (hbase : source.base = some base)
    (hchain : registry.inheritanceChain source.name = .ok chain) :
    (registry.sourceType? base).isSome = true ∧ ∃ names, registry.declaredNames? base = some names ∧
      ∀ m ∈ names, m ∈ Registry.namesAlong chain := by
  obtain ⟨upper, hupper, rfl⟩ := Registry.inheritanceChain_base hsource hbase hchain
  refine ⟨Registry.isSome_of_inheritanceChain hupper, ?_⟩
  unfold Registry.declaredNames?
  cases registry.enumMembers? base with
  | some members => exact ⟨[], rfl, fun m hm => by cases hm⟩
  | none =>
      rw [hupper]
      refine ⟨_, rfl, fun m hm => ?_⟩
      unfold Registry.namesAlong at hm ⊢
      rw [List.flatMap_append]
      exact List.mem_append_left _ hm

theorem keeps_baseOf (hresolve : Resolves registry resolve) {source : SourceType}
    {chain : List SourceType} {base : Option TypeId} (h : s.table.Sound registry)
    (hsource : registry.sourceType? source.name = some source)
    (hchain : registry.inheritanceChain source.name = .ok chain)
    (hrun : (baseOf resolve source.base).runOn s = (.ok base, s')) :
    (s'.table.Sound registry ∧ Frame registry s.table s'.table) ∧
      IsBase registry s'.table chain base := by
  cases hbase : source.base with
  | none =>
      rw [hbase] at hrun
      cases hrun
      exact ⟨⟨h, .refl _⟩, fun b hb => by cases hb⟩
  | some name =>
      rw [hbase] at hrun
      obtain ⟨baseId, s₁, hresolveBase, hpure⟩ := exists_of_bind hrun
      cases hpure
      obtain ⟨hdeclared, names, hnames, hall⟩ := exists_declaredNames_of_base hsource hbase hchain
      have hpin : registry.Pins (.named name) := by
        show (registry.declaredNames? name).isSome = true
        rw [hnames]
        rfl
      have hstep := hresolve _ s baseId s' h hresolveBase
      refine ⟨⟨hstep.sound, hstep.frame⟩, fun b hb => ?_⟩
      cases hb
      exact ⟨name, names, hstep.leads hpin, hdeclared, hnames, hall⟩

/-- A descriptor with the members that were resolved along the chain is complete. -/
theorem complete_of_members {native : NativeType} {source : SourceType} {chain : List SourceType}
    {name : String} {names : List String} {base : Option TypeId} {properties : List Property}
    {constructor : List ConstructorParameter} {d : Descriptor}
    (hextension : Extension [] properties (Registry.namesAlong chain))
    (hparameters : parameters name properties names = .ok constructor)
    (hnamed : ∀ name names, native = .named name → registry.declaredNames? name = some names →
      names = Registry.namesAlong chain)
    (hbase : IsBase registry t chain base) (hany : d.isAny = false) (hdeclared : d.isDeclared = true)
    (hmembers : d.members? = some (members source base properties constructor)) :
    Complete registry t native d := by
  have hproperties : d.properties = properties := by
    unfold Descriptor.properties
    rw [hmembers]
    rfl
  refine ⟨?_, fun m hm => ?_, fun h => absurd (hany.symm.trans h) Bool.false_ne_true,
    fun other names hnative hnames => ?_, fun _ _ => ⟨hdeclared, fun _ => by rw [hmembers]; rfl⟩,
    fun b hb => ?_⟩
  · rw [hproperties]
    exact hextension.distinct List.Pairwise.nil
  · rw [hmembers] at hm
    cases hm
    exact parameters_declared hparameters
  · rw [hproperties, hnamed other names hnative hnames]
    intro p hp
    rcases hextension.origin p hp with hnil | hname
    · cases hnil
    · exact ⟨p.name, hname, Text.sameIgnoringCase_refl _⟩
  · unfold Descriptor.base? at hb
    rw [hmembers] at hb
    obtain ⟨baseName, names, hlookup, hsource, hnames, hall⟩ := hbase b hb
    refine ⟨baseName, names, hlookup, hsource, hnames, fun m hm => ?_⟩
    rw [hproperties]
    exact hextension.covers m (Or.inr (hall m hm))

/-- **A source type is completed with all properties along its inheritance chain, and no others.** -/
theorem resolved_source (hresolve : Resolves registry resolve) {native : NativeType}
    {declared : SourceType} {arguments : List NativeType} {id : TypeId} (h : s.table.Sound registry)
    (hsource : registry.sourceType? declared.name = some declared)
    (hfree : registry.Pins native → s.table.byNative.lookup native = none)
    (hnamed : ∀ name, native = .named name →
      name = declared.name ∧ registry.enumMembers? name = none)
    (hrun : (source registry resolve native declared arguments).runOn s = (.ok id, s')) :
    Resolved registry s.table native id s'.table := by
  obtain ⟨chain, s₀, hsettled, hrest⟩ := exists_of_bind hrun
  obtain ⟨hchain, rfl⟩ := eq_of_settled hsettled
  refine resolved_enter h hfree (fun new s₁ c s₂ hs₁ hinside => ?_) hrest
  obtain ⟨base, s₃, hrunBase, hrest₁⟩ := exists_of_bind hinside
  obtain ⟨⟨hsound₃, hframe₃⟩, hbase⟩ := keeps_baseOf hresolve hs₁ hsource hchain hrunBase
  obtain ⟨argumentIds, s₄, heach, hrest₂⟩ := exists_of_bind hrest₁
  obtain ⟨hsound₄, hframe₄⟩ := keeps_each hresolve _ s₃ hsound₃ _ _ heach
  obtain ⟨properties, s₅, hinherit, hrest₃⟩ := exists_of_bind hrest₂
  obtain ⟨⟨hsound₅, hframe₅⟩, hextension⟩ := keeps_inherit hresolve hsound₄ hinherit
  obtain ⟨constructor, s₆, hsettled, hrest₄⟩ := exists_of_bind hrest₃
  obtain ⟨hparameters, hsame⟩ := eq_of_settled hsettled
  rw [hsame] at hrest₄
  obtain ⟨shape, s₇, hshape, hpure⟩ := exists_of_bind hrest₄
  obtain ⟨⟨hsound₇, hframe₇⟩, hmembers⟩ := keeps_shapeOf hresolve hsound₅ hshape
  cases hpure
  have hafter : Frame registry s₃.table s₂.table := hframe₄.trans (hframe₅.trans hframe₇)
  refine ⟨⟨hsound₇, hframe₃.trans hafter⟩, ?_⟩
  obtain ⟨hall, hany, hshaped⟩ := hmembers ⟨new, _, true, argumentIds, shape⟩ rfl
  refine complete_of_members hextension hparameters ?_ (hbase.frame hafter) hany hshaped hall
  -- a name that leads here is that of the source type, so its chain is the one at hand
  intro name names hnative hdeclared
  obtain ⟨rfl, henum⟩ := hnamed name hnative
  unfold Registry.declaredNames? at hdeclared
  rw [henum, hchain] at hdeclared
  exact (Option.some.inj hdeclared).symm

theorem declaredNames?_of_proxy {name : String} (henum : registry.enumMembers? name = none)
    (hsource : registry.sourceType? name = none) : registry.declaredNames? name = none := by
  unfold Registry.declaredNames? Registry.inheritanceChain Registry.chainAbove
  rw [henum, hsource]

theorem resolved_named (hkeyed : registry.KeyedByName) (hresolve : Resolves registry resolve)
    {name : String} {id : TypeId} (h : s.table.Sound registry)
    (hfree : s.table.byNative.lookup (.named name) = none)
    (hrun : (named registry resolve name).runOn s = (.ok id, s')) :
    Resolved registry s.table (.named name) id s'.table := by
  unfold named at hrun
  cases henum : registry.enumMembers? name with
  | some members =>
      rw [henum] at hrun
      refine resolved_plain h (fun _ => hfree) (fun _ => rfl) (fun _ hany => by cases hany)
        (fun other hother _ => ⟨rfl, fun hnone => ?_⟩) hrun
      cases hother
      rw [henum] at hnone
      cases hnone
  | none =>
      rw [henum] at hrun
      dsimp only at hrun
      cases hsource : registry.sourceType? name with
      | some declared =>
          rw [hsource] at hrun
          dsimp only at hrun
          have hname := hkeyed name declared hsource
          split at hrun
          · cases hrun
          · refine resolved_source hresolve h (hname ▸ hsource) (fun _ => hfree) ?_ hrun
            intro other hother
            cases hother
            exact ⟨hname.symm, henum⟩
      | none =>
          rw [hsource] at hrun
          dsimp only at hrun
          have hunpinned : ¬ registry.Pins (.named name) := by
            intro hpin
            have hsome : (registry.declaredNames? name).isSome = true := hpin
            rw [declaredNames?_of_proxy henum hsource] at hsome
            cases hsome
          cases hproxy : registry.proxyTarget? name with
          | none =>
              rw [hproxy] at hrun
              cases hrun
          | some target =>
              rw [hproxy] at hrun
              dsimp only [proxy] at hrun
              split at hrun
              · obtain ⟨targetId, s₁, hfound, hidentify⟩ := exists_of_bind hrun
                have hstep := hresolve _ s targetId s₁ h hfound
                cases hidentify
                have hlast := resolved_identify hstep.sound hunpinned hstep.below
                exact ⟨hlast.sound, hstep.frame.trans hlast.frame, hlast.below, hlast.leads⟩
              · cases hrun

theorem resolved_instance_ (hkeyed : registry.KeyedByName) (hresolve : Resolves registry resolve)
    {definition : String} {arguments : List NativeType} {id : TypeId} (h : s.table.Sound registry)
    (hrun : (instance_ registry resolve (.generic definition arguments) definition arguments).runOn s =
      (.ok id, s')) : Resolved registry s.table (.generic definition arguments) id s'.table := by
  unfold instance_ at hrun
  cases hsource : registry.sourceType? definition with
  | none =>
      rw [hsource] at hrun
      cases hrun
  | some declared =>
      rw [hsource] at hrun
      dsimp only at hrun
      split at hrun
      · cases hrun
      · split at hrun
        · cases hrun
        · refine resolved_source hresolve h (hkeyed _ _ hsource ▸ hsource) (fun hpin => hpin.elim) ?_ hrun
          intro name hname
          cases hname

theorem resolved_build (hkeyed : registry.KeyedByName) (hresolve : Resolves registry resolve)
    {native : NativeType} {id : TypeId} (h : s.table.Sound registry)
    (hnew : s.table.byNative.lookup native = none)
    (hrun : (build registry resolve native).runOn s = (.ok id, s')) :
    Resolved registry s.table native id s'.table := by
  cases native with
  | value kind =>
      refine resolved_plain h (fun _ => hnew) (fun _ => rfl) (fun id hany => ?_)
        (fun other hother => by cases hother) hrun
      cases kind with
      | any => exact ⟨rfl, rfl⟩
      | boolean => cases hany
      | int32 => cases hany
      | int64 => cases hany
      | double => cases hany
      | string => cases hany
      | dateTime => cases hany
  | nullable inner => exact resolved_nullable hresolve h hrun
  | list element => exact resolved_list hresolve h hrun
  | map key value =>
      unfold build at hrun
      dsimp only at hrun
      split at hrun
      · cases hrun
      · exact resolved_map hresolve h hrun
  | named name => exact resolved_named hkeyed hresolve h hnew hrun
  | generic definition arguments => exact resolved_instance_ hkeyed hresolve h hrun
  | parameter index => cases hrun

theorem resolved_lookUp {native : NativeType} {x : Resolution TypeId} {id : TypeId}
    (h : s.table.Sound registry)
    (hbuild : s.table.byNative.lookup native = none → x.runOn s = (.ok id, s') →
      Resolved registry s.table native id s'.table)
    (hrun : (lookUp native x).runOn s = (.ok id, s')) :
    Resolved registry s.table native id s'.table := by
  rw [runOn_lookUp] at hrun
  cases hlookup : s.table.byNative.lookup native with
  | none =>
      rw [hlookup] at hrun
      exact hbuild hlookup hrun
  | some known =>
      rw [hlookup] at hrun
      cases hrun
      exact ⟨h, .refl _, h.nativeBelow native id hlookup, fun _ => hlookup⟩

/-- **A resolution leads from a sound table to a sound one.** -/
theorem resolved_run (hkeyed : registry.KeyedByName) (depth : Nat) :
    Resolves registry (run registry depth) := by
  induction depth with
  | zero => exact fun native s id s' h hrun => resolved_lookUp h (fun _ hfail => by cases hfail) hrun
  | succ depth ih =>
      exact fun native s id s' h hrun => resolved_lookUp h (resolved_build hkeyed ih h) hrun

end Resolution

/-! ## Graphs that arise from a registry -/

namespace TypeGraph

/-- `GrowsTo g g'` if `g'` is `g` after some types were resolved. -/
inductive GrowsTo (g : TypeGraph) : TypeGraph → Prop
  | refl : GrowsTo g g
  | resolve {g' : TypeGraph} (h : GrowsTo g g') (native : NativeType) : GrowsTo g (g'.resolve native).2

variable {g g' g'' : TypeGraph}

theorem GrowsTo.trans (h₁ : g.GrowsTo g') (h₂ : g'.GrowsTo g'') : g.GrowsTo g'' := by
  induction h₂ with
  | refl => exact h₁
  | resolve _ native ih => exact ih.resolve native

theorem GrowsTo.extends (h : g.GrowsTo g') : g.table.Extends g'.table := by
  induction h with
  | refl => exact .refl _
  | resolve _ native ih => exact ih.trans (extends_resolve _ native)

theorem registry_resolve (g : TypeGraph) (native : NativeType) :
    (g.resolve native).2.registry = g.registry :=
  registry_resolveWithin g _ native

/-- Looking a name up resolves at most one type. -/
theorem growsTo_byName (g : TypeGraph) (name : String) : g.GrowsTo (g.byName name).2 := by
  unfold byName
  rcases byNameWithin_snd g Resolution.depthLimit name with hsame | ⟨native, hresolve⟩
  · rw [hsame]
    exact .refl
  · rw [hresolve]
    exact .resolve .refl native

theorem get_eq_ok {type : TypeId} {d : Descriptor} :
    g.get type = .ok d ↔ g.table.get? type = some d := by
  unfold get
  cases g.table.get? type with
  | none => exact ⟨nofun, nofun⟩
  | some e => exact ⟨fun h => congrArg some (Except.ok.inj h), fun h => congrArg _ (Option.some.inj h)⟩

theorem requireResource_eq_ok {d : Descriptor} {a : ResourceAddress} :
    d.requireResource = .ok a ↔ d.address? = some a := by
  unfold Descriptor.requireResource
  cases d.address? with
  | none => exact ⟨nofun, nofun⟩
  | some b => exact ⟨fun h => congrArg some (Except.ok.inj h), fun h => congrArg _ (Option.some.inj h)⟩

theorem requirePrimaryId_eq_ok {d : Descriptor} {p : Property} :
    requirePrimaryId d = .ok p ↔ d.primaryId? = some p := by
  unfold requirePrimaryId
  cases d.primaryId? with
  | none => exact ⟨nofun, nofun⟩
  | some q => exact ⟨fun h => congrArg some (Except.ok.inj h), fun h => congrArg _ (Option.some.inj h)⟩

theorem childCollection_eq_ok {d : Descriptor} {parent : ResourceParent} {p : Property} :
    childCollection d parent = .ok p ↔ d.property? parent.parentToChild = some p := by
  unfold childCollection
  cases d.property? parent.parentToChild with
  | none => exact ⟨nofun, nofun⟩
  | some q => exact ⟨fun h => congrArg some (Except.ok.inj h), fun h => congrArg _ (Option.some.inj h)⟩

/-- What a name leads to stands at some number afterwards. -/
theorem exists_of_byName {name : String} {d : Descriptor} (h : (g.byName name).1 = .ok d) :
    ∃ id, (g.byName name).2.table.get? id = some d := by
  unfold byName byNameWithin at h ⊢
  split at h
  · exact ⟨_, get_eq_ok.mp h⟩
  · split at h
    · cases h
    · unfold resolveTypeWithin at h ⊢
      split at h
      · exact ⟨_, get_eq_ok.mp h⟩
      · cases h

theorem growsTo_resolveAll {natives : List NativeType} (h : g.resolveAll natives = .ok g') :
    g.GrowsTo g' :=
  resolveAll_induction (fun next => g.GrowsTo next) (fun _ native hnext => hnext.resolve native) .refl h

/-- The graph of a registry, after any types were resolved. -/
def Arises (g : TypeGraph) : Prop :=
  ∃ r g₀, r.KeyedByName ∧ ofRegistry r = .ok g₀ ∧ g₀.GrowsTo g

theorem Arises.grow (h : g.Arises) (hgrows : g.GrowsTo g') : g'.Arises := by
  obtain ⟨r, g₀, hkeyed, hmade, hgrown⟩ := h
  exact ⟨r, g₀, hkeyed, hmade, hgrown.trans hgrows⟩

theorem Arises.startsWithValues (h : g.Arises) : g.StartsWithValues := by
  obtain ⟨r, g₀, _, hmade, hgrown⟩ := h
  exact (startsWithValues_ofRegistry hmade).extend hgrown.extends

theorem sound_resolve {r : Registry} (hkeyed : r.KeyedByName) (hr : g.registry = r)
    (h : g.table.Sound r) (native : NativeType) : (g.resolve native).2.table.Sound r := by
  unfold resolve
  cases hrun : (Resolution.run g.registry Resolution.depthLimit native.canonical).runOn
      (.begin g.table) with
  | mk outcome s =>
      cases outcome with
      | error e =>
          rw [resolveWithin_of_error hrun]
          exact h
      | ok id =>
          rw [resolveWithin_of_ok hrun]
          rw [hr] at hrun
          exact (Resolution.resolved_run hkeyed _ _ (.begin g.table) id s h hrun).sound

theorem GrowsTo.sound {r : Registry} (hgrows : g.GrowsTo g') (hkeyed : r.KeyedByName)
    (hr : g.registry = r) (h : g.table.Sound r) : g'.registry = r ∧ g'.table.Sound r := by
  induction hgrows with
  | refl => exact ⟨hr, h⟩
  | resolve _ native ih =>
      exact ⟨(registry_resolve _ native).trans ih.1, sound_resolve hkeyed ih.1 ih.2 native⟩

/-- **The table of a graph that arises from a registry is sound.** -/
theorem Arises.sound (h : g.Arises) : g.table.Sound g.registry := by
  obtain ⟨r, g₀, hkeyed, hmade, hgrown⟩ := h
  have hstart : (⟨r, .empty⟩ : TypeGraph).GrowsTo g₀ := growsTo_resolveAll hmade
  obtain ⟨hr, hsound⟩ := (hstart.trans hgrown).sound hkeyed rfl (TypeTable.sound_empty r)
  rw [hr]
  exact hsound

theorem GrowsTo.tidy (h : g.GrowsTo g') (hg : g.table.Tidy [] []) : g'.table.Tidy [] [] := by
  induction h with
  | refl => exact hg
  | resolve _ native ih => exact tidy_resolveWithin ih _ native

/-- **Every number that was given out has a descriptor.** -/
theorem Arises.exists_descriptor (h : g.Arises) {id : TypeId} (hid : id.index < g.table.slots.size) :
    ∃ d, g.table.get? id = some d := by
  obtain ⟨r, g₀, _, hmade, hgrown⟩ := h
  exact ((hgrown.tidy (tidy_ofRegistry hmade)).complete id hid).resolve_left (by simp)

end TypeGraph

/-- The graph of a registry; one without types if a declaration cannot be resolved. It is evaluated
where that is asked for, and nowhere else. -/
@[irreducible]
def Registry.graph (r : Registry) : TypeGraph :=
  match TypeGraph.ofRegistry r with
  | .ok g => g
  | .error _ => ⟨r, .empty⟩

/-- Whether all declarations can be resolved. -/
def Registry.isResolvable (r : Registry) : Bool :=
  match TypeGraph.ofRegistry r with
  | .ok _ => true
  | .error _ => false

theorem Registry.arises_graph {r : Registry} (hkeyed : r.KeyedByName) (h : r.isResolvable = true) :
    r.graph.Arises := by
  unfold isResolvable at h
  unfold graph
  cases hmade : TypeGraph.ofRegistry r with
  | error e =>
      rw [hmade] at h
      cases h
  | ok g => exact ⟨r, g, hkeyed, hmade, .refl⟩

end ResourceQuery
