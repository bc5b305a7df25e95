import ResourceQuery.Proofs.Expr.Variables
import ResourceQuery.Proofs.Type.Growth

set_option autoImplicit false

/-! # What the descriptors of a graph have in common

Whatever is resolved, and in whatever order, the table of types stays **sound** (`TypeTable.Sound`): a
descriptor stands at its own number, the names of its properties differ by more than case, its
constructor takes properties it has, its name leads to a type of that name, and it has every property of
the type that it inherits from (`TypeTable.Sound.inherits`).

The last point is the one that needs an invariant. A type may be resolved in the middle of its base,
when the base has a number and no descriptor yet. So nothing is said of the base's descriptor at that
time. Instead each descriptor that a *declared name* leads to has only properties which are declared
along the chain of that name, and a descriptor with a base has all that are declared along the chain
of the base's name. Both hold as soon as the one descriptor is there, and together they say what is
wanted when both are.

A resolution keeps the invariant as long as it does not disturb the types that are under way around it.
`TypeTable.Frame` says what it leaves alone.
-/

namespace ResourceQuery

/-! ## Registries -/

namespace Registry

/-- Every type is registered under its own name. -/
def KeyedByName (r : Registry) : Prop :=
  ∀ name source, r.sourceType? name = some source → source.name = name

theorem keyedByName_empty : empty.KeyedByName := by
  intro name source h
  cases h

theorem KeyedByName.withType {r : Registry} (h : r.KeyedByName) (source : SourceType) :
    (r.withType source).KeyedByName := by
  intro name other hother
  unfold sourceType? Registry.withType at hother
  by_cases hname : name = source.name
  · rw [hname, Entries.get?_insert_self] at hother
    rw [hname, Option.some.inj hother]
  · rw [Entries.get?_insert_of_ne hname] at hother
    exact h name other hother

theorem KeyedByName.withEnum {r : Registry} (h : r.KeyedByName) (name : String)
    (members : List String) : (r.withEnum name members).KeyedByName :=
  h

theorem KeyedByName.withProxy {r : Registry} (h : r.KeyedByName) (name target : String) :
    (r.withProxy name target).KeyedByName :=
  h

/-- What is put below a chain does not matter for what is above. -/
theorem chainAbove_append {r : Registry} {fuel : Nat} {below rest chain : List SourceType}
    {name : String} (h : r.chainAbove fuel (below ++ rest) name = .ok chain) {fuel' : Nat}
    (hfuel : fuel ≤ fuel') :
    ∃ upper, r.chainAbove fuel' below name = .ok upper ∧ chain = upper ++ rest := by
  induction fuel generalizing below name fuel' with
  | zero => cases h
  | succ fuel ih =>
      obtain ⟨fuel'', rfl⟩ : ∃ k, fuel' = k + 1 := ⟨fuel' - 1, by omega⟩
      unfold chainAbove at h ⊢
      cases hsource : r.sourceType? name with
      | none =>
          rw [hsource] at h
          cases h
      | some source =>
          rw [hsource] at h
          dsimp only at h ⊢
          -- a name that is not passed below and in the rest is not passed below
          by_cases hpassed : (below ++ rest).any (·.name == source.name)
          · rw [if_pos hpassed] at h
            cases h
          · have hbelow : ¬ below.any (·.name == source.name) = true := by
              intro hany
              exact hpassed (by rw [List.any_append, hany]; rfl)
            rw [if_neg hpassed] at h
            rw [if_neg hbelow]
            cases hbase : source.base with
            | none =>
                rw [hbase] at h
                exact ⟨_, rfl, (Except.ok.inj h).symm⟩
            | some base =>
                rw [hbase] at h
                rw [← List.cons_append] at h
                exact ih h (by omega)

/-- The chain of a type is the chain of its base, and then the type. -/
theorem inheritanceChain_base {r : Registry} {name base : String} {source : SourceType}
    {chain : List SourceType} (hsource : r.sourceType? name = some source)
    (hbase : source.base = some base) (h : r.inheritanceChain name = .ok chain) :
    ∃ upper, r.inheritanceChain base = .ok upper ∧ chain = upper ++ [source] := by
  unfold inheritanceChain chainAbove at h
  rw [hsource] at h
  dsimp only at h
  rw [if_neg (by simp), hbase] at h
  rw [← List.nil_append [source]] at h
  exact chainAbove_append h (Nat.le_succ _)

/-- What has a chain is declared. -/
theorem isSome_of_inheritanceChain {r : Registry} {name : String} {chain : List SourceType}
    (h : r.inheritanceChain name = .ok chain) : (r.sourceType? name).isSome = true := by
  unfold inheritanceChain chainAbove at h
  cases hsource : r.sourceType? name with
  | none =>
      rw [hsource] at h
      cases h
  | some source => rfl

/-- The names of the properties that are declared along a chain. -/
def namesAlong (chain : List SourceType) : List String :=
  chain.flatMap fun source => source.properties.map (·.name)

/-- The names of the properties that the type called `name` declares or inherits; none if nothing is
declared under the name but a proxy. -/
def declaredNames? (r : Registry) (name : String) : Option (List String) :=
  match r.enumMembers? name with
  | some _ => some []
  | none =>
    match r.inheritanceChain name with
    | .ok chain => some (namesAlong chain)
    | .error _ => none

/-- The expressions that lead to one type from the time on at which it gets a number. -/
def Pins (r : Registry) : NativeType → Prop
  | .value _ => True
  | .named name => (r.declaredNames? name).isSome = true
  | _ => False

end Registry

/-! ## Property tables -/

namespace Resolution

/-- The names of the properties differ by more than case. -/
def Distinct (table : List Property) : Prop :=
  table.Pairwise fun p q => p.isNamed q.name = false

theorem isNamed_symm {p q : Property} (h : p.isNamed q.name = true) : q.isNamed p.name = true :=
  Text.sameIgnoringCase_symm h

theorem isNamed_trans {p q : Property} {name : String} (hp : p.isNamed q.name = true)
    (hq : q.isNamed name = true) : p.isNamed name = true :=
  Text.sameIgnoringCase_trans hp hq

/-- In a table with distinct names, properties that are both called `name` are the same. -/
theorem Distinct.eq_of_named {table : List Property} (h : Distinct table) {p q : Property}
    (hp : p ∈ table) (hq : q ∈ table) {name : String} (hpn : p.isNamed name = true)
    (hqn : q.isNamed name = true) : p = q := by
  have hpq : p.isNamed q.name = true := Text.sameIgnoringCase_trans hpn (Text.sameIgnoringCase_symm hqn)
  induction table with
  | nil => cases hp
  | cons first rest ih =>
      obtain ⟨hfirst, hrest⟩ := List.pairwise_cons.mp h
      rcases List.mem_cons.mp hp with hp' | hp' <;> rcases List.mem_cons.mp hq with hq' | hq'
      · rw [hp', hq']
      · have hdiffer := hfirst q hq'
        rw [← hp', hpq] at hdiffer
        cases hdiffer
      · have hdiffer := hfirst p hp'
        rw [← hq', isNamed_symm hpq] at hdiffer
        cases hdiffer
      · exact ih hrest hp' hq'

end Resolution

namespace Descriptor

variable {d : Descriptor} {p : Property} {name other : String}

/-- Whether the type is of a shape that a schema declares by name. -/
def isDeclared (d : Descriptor) : Bool :=
  match d.shape with
  | .enum _ => true
  | .structured _ => true
  | .resource .. => true
  | _ => false

theorem property?_eq_find? (d : Descriptor) (name : String) :
    d.property? name = d.properties.find? (·.isNamed name) := by
  unfold property? properties
  cases d.members? <;> rfl

theorem mem_of_property? (h : d.property? name = some p) : p ∈ d.properties := by
  rw [property?_eq_find?] at h
  exact List.mem_of_find?_eq_some h

theorem mem_of_primaryId? (h : d.primaryId? = some p) : p ∈ d.properties := by
  obtain ⟨m, hm, hplace⟩ := Option.bind_eq_some_iff.mp h
  obtain ⟨i, -, hi⟩ := Option.bind_eq_some_iff.mp hplace
  unfold properties
  rw [hm]
  exact List.mem_of_getElem? hi

/-- Only types with members have properties. -/
theorem exists_members?_of_mem (hp : p ∈ d.properties) : ∃ m, d.members? = some m ∧ p ∈ m.properties := by
  unfold properties at hp
  cases hm : d.members? with
  | none =>
      rw [hm] at hp
      cases hp
  | some m =>
      rw [hm] at hp
      exact ⟨m, rfl, hp⟩

theorem shape_of_members? {m : Members} (hm : d.members? = some m) :
    d.shape = .structured m ∨ ∃ address, d.shape = .resource m address := by
  unfold members? at hm
  split at hm
  · rename_i hshape
    exact .inl (Option.some.inj hm ▸ hshape)
  · rename_i address hshape
    exact .inr ⟨address, Option.some.inj hm ▸ hshape⟩
  · cases hm

theorem isNamed_of_property? (h : d.property? name = some p) : p.isNamed name = true := by
  rw [property?_eq_find?] at h
  have hfound := List.find?_some h
  exact hfound

/-- A property is found under each of its spellings. -/
theorem property?_congr (h : Text.sameIgnoringCase name other = true) :
    d.property? name = d.property? other := by
  have hsame : (fun q : Property => q.isNamed name) = fun q => q.isNamed other := by
    funext q
    unfold Property.isNamed
    rw [Bool.eq_iff_iff, Text.sameIgnoringCase_iff, Text.sameIgnoringCase_iff,
      Text.sameIgnoringCase_iff.mp h]
  rw [property?_eq_find?, property?_eq_find?, hsame]

/-- Where names are distinct, a property is the one that is found under its name. -/
theorem property?_of_mem (hdistinct : Resolution.Distinct d.properties) (hp : p ∈ d.properties)
    (hname : p.isNamed name = true) : d.property? name = some p := by
  rw [property?_eq_find?]
  cases hfind : d.properties.find? (·.isNamed name) with
  | none =>
      have hnone := List.find?_eq_none.mp hfind p hp
      exact absurd hname hnone
  | some q =>
      have hfound : q.isNamed name = true := by
        have hq := List.find?_some hfind
        exact hq
      rw [hdistinct.eq_of_named (List.mem_of_find?_eq_some hfind) hp hfound hname]

end Descriptor

/-- The type is of the shape that is declared under the name: an enum, or a type with members. -/
def Registry.Shapes (r : Registry) (name : String) (d : Descriptor) : Prop :=
  d.isDeclared = true ∧ (r.enumMembers? name = none → d.members?.isSome = true)

namespace Resolution

/-- `result` is the table `table` with the properties called `names` put into it. -/
structure Extension (table result : List Property) (names : List String) : Prop where
  distinct : Distinct table → Distinct result
  origin : ∀ p ∈ result, p ∈ table ∨ p.name ∈ names
  covers : ∀ name, (∃ p ∈ table, p.isNamed name = true) ∨ name ∈ names →
    ∃ p ∈ result, p.isNamed name = true

theorem Extension.refl (table : List Property) : Extension table table [] :=
  ⟨id, fun _ hp => Or.inl hp, fun _ h => h.resolve_right List.not_mem_nil⟩

theorem Extension.trans {table middle result : List Property} {xs ys : List String}
    (h₁ : Extension table middle xs) (h₂ : Extension middle result ys) :
    Extension table result (xs ++ ys) := by
  refine ⟨fun h => h₂.distinct (h₁.distinct h), fun p hp => ?_, fun name h => ?_⟩
  · rcases h₂.origin p hp with hmiddle | hy
    · rcases h₁.origin p hmiddle with htable | hx
      · exact Or.inl htable
      · exact Or.inr (List.mem_append_left _ hx)
    · exact Or.inr (List.mem_append_right _ hy)
  · apply h₂.covers
    rcases h with htable | hname
    · exact Or.inl (h₁.covers name (Or.inl htable))
    · rcases List.mem_append.mp hname with hx | hy
      · exact Or.inl (h₁.covers name (Or.inr hx))
      · exact Or.inr hy

theorem self_mem_putProperty (p : Property) (table : List Property) : p ∈ putProperty p table := by
  induction table with
  | nil => exact List.mem_singleton.mpr rfl
  | cons r rest ih =>
      unfold putProperty
      split
      · exact List.mem_cons_self
      · exact List.mem_cons_of_mem _ ih

theorem covers_putProperty (p : Property) {table : List Property} {name : String}
    (h : ∃ q ∈ table, q.isNamed name = true) :
    ∃ q ∈ putProperty p table, q.isNamed name = true := by
  induction table with
  | nil =>
      obtain ⟨q, hq, _⟩ := h
      cases hq
  | cons r rest ih =>
      obtain ⟨q, hq, hname⟩ := h
      unfold putProperty
      split
      · rename_i hrp
        rcases List.mem_cons.mp hq with hqr | hqrest
        · -- the property that gives way to `p` is called as `p` is
          rw [hqr] at hname
          exact ⟨p, List.mem_cons_self, isNamed_trans (isNamed_symm hrp) hname⟩
        · exact ⟨q, List.mem_cons_of_mem _ hqrest, hname⟩
      · rcases List.mem_cons.mp hq with hqr | hqrest
        · exact ⟨q, hqr ▸ List.mem_cons_self, hname⟩
        · obtain ⟨q', hq', hname'⟩ := ih ⟨q, hqrest, hname⟩
          exact ⟨q', List.mem_cons_of_mem _ hq', hname'⟩

theorem distinct_putProperty (p : Property) {table : List Property} (h : Distinct table) :
    Distinct (putProperty p table) := by
  induction table with
  | nil => exact List.pairwise_singleton _ _
  | cons r rest ih =>
      obtain ⟨hr, hrest⟩ := List.pairwise_cons.mp h
      unfold putProperty
      split
      · rename_i hrp
        refine List.pairwise_cons.mpr ⟨fun q hq => ?_, hrest⟩
        rw [Bool.eq_false_iff]
        intro hpq
        have hrq := hr q hq
        rw [isNamed_trans hrp hpq] at hrq
        cases hrq
      · rename_i hrp
        refine List.pairwise_cons.mpr ⟨fun q hq => ?_, ih hrest⟩
        rcases mem_putProperty hq with hqp | hqrest
        · rw [hqp]
          exact Bool.eq_false_iff.mpr hrp
        · exact hr q hqrest

theorem extension_putProperty (p : Property) (table : List Property) :
    Extension table (putProperty p table) [p.name] where
  distinct := distinct_putProperty p
  origin := fun q hq => by
    rcases mem_putProperty hq with hqp | hq
    · exact Or.inr (by rw [hqp]; exact List.mem_singleton.mpr rfl)
    · exact Or.inl hq
  covers := fun name h => by
    rcases h with htable | hname
    · exact covers_putProperty p htable
    · rw [List.mem_singleton.mp hname]
      exact ⟨p, self_mem_putProperty p table, Text.sameIgnoringCase_refl _⟩

theorem parameters_declared {type : String} {table : List Property} {names : List String}
    {parameters : List ConstructorParameter}
    (h : Resolution.parameters type table names = .ok parameters) :
    ∀ c ∈ parameters, ∃ p ∈ table, p.name = c.property ∧ p.default = c.default := by
  induction names generalizing parameters with
  | nil =>
      cases h
      intro c hc
      cases hc
  | cons name rest ih =>
      unfold Resolution.parameters at h
      cases hfind : table.find? (·.isNamed name) with
      | none =>
          rw [hfind] at h
          cases h
      | some p =>
          rw [hfind] at h
          dsimp only at h
          cases hrest : Resolution.parameters type table rest with
          | error e =>
              rw [hrest] at h
              cases h
          | ok others =>
              rw [hrest] at h
              cases h
              intro c hc
              rcases List.mem_cons.mp hc with hself | hother
              · rw [hself]
                exact ⟨p, List.mem_of_find?_eq_some hfind, rfl, rfl⟩
              · exact ih hrest c hother

end Resolution

/-! ## Sound tables -/

namespace TypeTable

/-- What the descriptors of a table have in common, while types may be under way. -/
structure Sound (r : Registry) (t : TypeTable) : Prop where
  /-- A descriptor stands at its own number. -/
  id : ∀ id d, t.get? id = some d → d.id = id
  distinct : ∀ id d, t.get? id = some d → Resolution.Distinct d.properties
  /-- A constructor takes properties that are there, and their defaults. -/
  parameters : ∀ id d m, t.get? id = some d → d.members? = some m → ∀ c ∈ m.constructor,
    ∃ p ∈ m.properties, p.name = c.property ∧ p.default = c.default
  /-- There is one untyped type, and it accepts null. -/
  untyped : ∀ id d, t.get? id = some d → d.isAny = true →
    d.nullable = true ∧ t.byNative.lookup (.value .any) = some id
  /-- Numbers that are led to were given out. -/
  nativeBelow : ∀ native id, t.byNative.lookup native = some id → id.index < t.slots.size
  nameBelow : ∀ key id, t.byName.lookup key = some id → id.index < t.slots.size
  /-- The name of a descriptor leads somewhere. -/
  nameKnown : ∀ id d, t.get? id = some d → ∃ id', t.byName.lookup (Text.asciiLower d.name) = some id'
  /-- A name leads to a type that has it. -/
  nameLeads : ∀ key id d, t.byName.lookup key = some id → t.get? id = some d →
    Text.asciiLower d.name = key
  /-- The type that a declared name leads to has no other properties than those of the name's chain. -/
  declared : ∀ name id d names, t.byNative.lookup (.named name) = some id → t.get? id = some d →
    r.declaredNames? name = some names → ∀ p ∈ d.properties, ∃ m ∈ names, p.isNamed m = true
  shaped : ∀ name id d, t.byNative.lookup (.named name) = some id → t.get? id = some d →
    (r.declaredNames? name).isSome = true → r.Shapes name d
  /-- A type with a base has all properties of the chain of the base's name. -/
  based : ∀ id d b, t.get? id = some d → d.base? = some b → ∃ name names,
    t.byNative.lookup (.named name) = some b ∧ (r.sourceType? name).isSome = true ∧
      r.declaredNames? name = some names ∧ ∀ m ∈ names, ∃ p ∈ d.properties, p.isNamed m = true

variable {r : Registry} {t t' t'' : TypeTable}

theorem sound_empty (r : Registry) : empty.Sound r := by
  have hnone : ∀ {id d}, empty.get? id = some d → False := fun h => nomatch h
  exact
    { id := fun _ _ h => (hnone h).elim
      distinct := fun _ _ h => (hnone h).elim
      parameters := fun _ _ _ h => (hnone h).elim
      untyped := fun _ _ h => (hnone h).elim
      nativeBelow := fun _ _ h => nomatch h
      nameBelow := fun _ _ h => nomatch h
      nameKnown := fun _ _ h => (hnone h).elim
      nameLeads := fun _ _ _ h => nomatch h
      declared := fun _ _ _ _ h => nomatch h
      shaped := fun _ _ _ h => nomatch h
      based := fun _ _ _ h => (hnone h).elim }

/-- **A type has every property of the type that it inherits from.** -/
theorem Sound.inherits (h : t.Sound r) {id b : TypeId} {d base : Descriptor}
    (hd : t.get? id = some d) (hb : d.base? = some b) (hbase : t.get? b = some base)
    {p : Property} (hp : p ∈ base.properties) : ∃ q ∈ d.properties, q.isNamed p.name = true := by
  obtain ⟨name, names, hlookup, _, hnames, hall⟩ := h.based id d b hd hb
  obtain ⟨m, hm, hpm⟩ := h.declared name b base names hlookup hbase hnames p hp
  obtain ⟨q, hq, hqm⟩ := hall m hm
  exact ⟨q, hq, Text.sameIgnoringCase_trans hqm (Text.sameIgnoringCase_symm hpm)⟩

/-- What is inherited from was declared by name. -/
theorem Sound.isDeclared_base (h : t.Sound r) {id b : TypeId} {d base : Descriptor}
    (hd : t.get? id = some d) (hb : d.base? = some b) (hbase : t.get? b = some base) :
    base.isDeclared = true := by
  obtain ⟨name, names, hlookup, _, hnames, _⟩ := h.based id d b hd hb
  exact (h.shaped name b base hlookup hbase (by rw [hnames]; rfl)).1

/-- What is inherited from is no enum, if no name is that of an enum and of a source type. -/
theorem Sound.hasMembers_base (h : t.Sound r)
    (hfree : ∀ name, (r.sourceType? name).isSome = true → r.enumMembers? name = none) {id b : TypeId}
    {d base : Descriptor} (hd : t.get? id = some d) (hb : d.base? = some b)
    (hbase : t.get? b = some base) : base.members?.isSome = true := by
  obtain ⟨name, names, hlookup, hsource, hnames, _⟩ := h.based id d b hd hb
  exact (h.shaped name b base hlookup hbase (by rw [hnames]; rfl)).2 (hfree name hsource)

/-! ### What a resolution leaves alone -/

/-- `t'` is `t` after a resolution: the slots of `t` are the same, what led somewhere leads there, and
nothing new leads to a number of `t`. -/
structure Frame (r : Registry) (t t' : TypeTable) : Prop where
  extend : t.Extends t'
  natives : ∀ native id, r.Pins native → t.byNative.lookup native = some id →
    t'.byNative.lookup native = some id
  nativesBack : ∀ native id, r.Pins native → t'.byNative.lookup native = some id →
    id.index < t.slots.size → t.byNative.lookup native = some id
  names : ∀ key id, t.byName.lookup key = some id → t'.byName.lookup key = some id
  namesBack : ∀ key id, t'.byName.lookup key = some id → id.index < t.slots.size →
    t.byName.lookup key = some id

theorem Frame.refl (t : TypeTable) : Frame r t t :=
  ⟨.refl t, fun _ _ _ h => h, fun _ _ _ h _ => h, fun _ _ h => h, fun _ _ h _ => h⟩

theorem Frame.trans (h₁ : Frame r t t') (h₂ : Frame r t' t'') : Frame r t t'' where
  extend := h₁.extend.trans h₂.extend
  natives := fun native id hpin h => h₂.natives native id hpin (h₁.natives native id hpin h)
  nativesBack := fun native id hpin h hid =>
    h₁.nativesBack native id hpin
      (h₂.nativesBack native id hpin h (Nat.lt_of_lt_of_le hid h₁.extend.1)) hid
  names := fun key id h => h₂.names key id (h₁.names key id h)
  namesBack := fun key id h hid =>
    h₁.namesBack key id (h₂.namesBack key id h (Nat.lt_of_lt_of_le hid h₁.extend.1)) hid

/-! ### Reserved numbers -/

theorem get?_eq_of_slots {id : TypeId} (h : t'.slots[id.index]? = t.slots[id.index]?) :
    t'.get? id = t.get? id := by
  unfold get?
  rw [h]

theorem lookup_names_reserve (t : TypeTable) (native : NativeType) (name key : String) :
    (t.reserve native name).2.byName.lookup key =
      if key = Text.asciiLower name then
        some ((t.byName.lookup (Text.asciiLower name)).getD ⟨t.slots.size⟩)
      else t.byName.lookup key := by
  unfold reserve
  dsimp only
  cases hknown : t.byName.lookup (Text.asciiLower name) with
  | some id =>
      by_cases hkey : key = Text.asciiLower name
      · rw [if_pos hkey, hkey]
        exact hknown
      · rw [if_neg hkey]
  | none =>
      by_cases hkey : key = Text.asciiLower name
      · rw [if_pos hkey, hkey]
        exact List.lookup_cons_self
      · have hbeq : (key == Text.asciiLower name) = false := by simpa using hkey
        rw [if_neg hkey]
        simp [List.lookup_cons, hbeq]

theorem lookup_natives_reserve (t : TypeTable) (native other : NativeType) (name : String) :
    (t.reserve native name).2.byNative.lookup other =
      if other = native then some ⟨t.slots.size⟩ else t.byNative.lookup other := by
  unfold reserve
  dsimp only
  rw [List.lookup_cons]
  by_cases h : other = native
  · rw [if_pos h, h, beq_self_eq_true]
  · have hbeq : (other == native) = false := by simpa using h
    rw [if_neg h, hbeq]

/-- A number may be reserved for an expression that leads nowhere yet, or that is not pinned. -/
theorem frame_reserve {native : NativeType} (name : String)
    (hfree : r.Pins native → t.byNative.lookup native = none) :
    Frame r t (t.reserve native name).2 := by
  refine ⟨⟨?_, fun i hi => ?_⟩, fun other id hpin hid => ?_, fun other id hpin hid hlt => ?_,
    fun key id hid => ?_, fun key id hid hlt => ?_⟩
  · simp [reserve]
  · simp only [reserve]
    exact (Array.getElem?_push_lt hi).trans (Array.getElem?_eq_getElem hi).symm
  · rw [lookup_natives_reserve]
    have hne : other ≠ native := by
      rintro rfl
      rw [hfree hpin] at hid
      cases hid
    rw [if_neg hne]
    exact hid
  · rw [lookup_natives_reserve] at hid
    split at hid
    · cases hid
      exact absurd hlt (Nat.lt_irrefl _)
    · exact hid
  · rw [lookup_names_reserve]
    split
    · rename_i hkey
      rw [hkey] at hid
      rw [hid]
      rfl
    · exact hid
  · rw [lookup_names_reserve] at hid
    split at hid
    · rename_i hkey
      rw [hkey]
      cases hknown : t.byName.lookup (Text.asciiLower name) with
      | some id' =>
          rw [hknown] at hid
          exact hid
      | none =>
          rw [hknown] at hid
          cases hid
          exact absurd hlt (Nat.lt_irrefl _)
    · exact hid

/-- Soundness is about descriptors and where they are found. -/
theorem Sound.of_frame (h : t.Sound r) (hframe : Frame r t t') (hget : ∀ id, t'.get? id = t.get? id)
    (hnative : ∀ native id, t'.byNative.lookup native = some id → id.index < t'.slots.size)
    (hname : ∀ key id, t'.byName.lookup key = some id → id.index < t'.slots.size) : t'.Sound r where
  id := fun id d hd => h.id id d (hget id ▸ hd)
  distinct := fun id d hd => h.distinct id d (hget id ▸ hd)
  parameters := fun id d m hd => h.parameters id d m (hget id ▸ hd)
  untyped := fun id d hd hany => by
    obtain ⟨hnull, hlookup⟩ := h.untyped id d (hget id ▸ hd) hany
    exact ⟨hnull, hframe.natives _ _ trivial hlookup⟩
  nativeBelow := hnative
  nameBelow := hname
  nameKnown := fun id d hd => by
    obtain ⟨id', hid'⟩ := h.nameKnown id d (hget id ▸ hd)
    exact ⟨id', hframe.names _ _ hid'⟩
  nameLeads := fun key id d hkey hd => by
    rw [hget] at hd
    exact h.nameLeads key id d (hframe.namesBack key id hkey (lt_of_get? hd)) hd
  declared := fun name id d names hlookup hd hnames => by
    rw [hget] at hd
    have hpin : r.Pins (.named name) := by
      show (r.declaredNames? name).isSome = true
      rw [hnames]
      rfl
    exact h.declared name id d names (hframe.nativesBack _ id hpin hlookup (lt_of_get? hd)) hd hnames
  shaped := fun name id d hlookup hd hpin => by
    rw [hget] at hd
    exact h.shaped name id d (hframe.nativesBack _ id hpin hlookup (lt_of_get? hd)) hd hpin
  based := fun id d b hd hb => by
    obtain ⟨name, names, hlookup, hsource, hnames, hall⟩ := h.based id d b (hget id ▸ hd) hb
    have hpin : r.Pins (.named name) := by
      show (r.declaredNames? name).isSome = true
      rw [hnames]
      rfl
    exact ⟨name, names, hframe.natives _ b hpin hlookup, hsource, hnames, hall⟩

theorem Sound.reserve (h : t.Sound r) {native : NativeType} (name : String)
    (hfree : r.Pins native → t.byNative.lookup native = none) :
    (t.reserve native name).2.Sound r := by
  have hsize : (t.reserve native name).2.slots.size = t.slots.size + 1 := by simp [TypeTable.reserve]
  refine h.of_frame (frame_reserve name hfree) (get?_reserve t native name)
    (fun other id hid => ?_) (fun key id hid => ?_)
  · rw [hsize]
    rw [lookup_natives_reserve] at hid
    split at hid
    · cases hid
      exact Nat.lt_succ_self _
    · exact Nat.lt_succ_of_lt (h.nativeBelow other id hid)
  · rw [hsize]
    rw [lookup_names_reserve] at hid
    split at hid
    · cases hknown : t.byName.lookup (Text.asciiLower name) with
      | some id' =>
          rw [hknown] at hid
          cases hid
          exact Nat.lt_succ_of_lt (h.nameBelow _ _ hknown)
      | none =>
          rw [hknown] at hid
          cases hid
          exact Nat.lt_succ_self _
    · exact Nat.lt_succ_of_lt (h.nameBelow key id hid)

/-- The number `id` is reserved for `native` under `name`, and has no descriptor yet. -/
structure Pending (r : Registry) (t : TypeTable) (native : NativeType) (name : String) (id : TypeId) :
    Prop where
  isOpen : t.get? id = none
  below : id.index < t.slots.size
  nameKnown : ∃ id', t.byName.lookup (Text.asciiLower name) = some id'
  nameLeads : ∀ key, t.byName.lookup key = some id → Text.asciiLower name = key
  pinned : ∀ other, r.Pins other → t.byNative.lookup other = some id → other = native
  pins : r.Pins native → t.byNative.lookup native = some id

theorem pending_reserve (h : t.Sound r) (native : NativeType) (name : String) :
    Pending r (t.reserve native name).2 native name (t.reserve native name).1 where
  isOpen := by
    rw [get?_reserve]
    unfold get? TypeTable.reserve
    dsimp only
    rw [Array.getElem?_eq_none (Nat.le_refl _)]
    rfl
  below := by simp [TypeTable.reserve]
  nameKnown := ⟨_, by rw [lookup_names_reserve, if_pos rfl]⟩
  nameLeads := fun key hkey => by
    rw [lookup_names_reserve] at hkey
    split at hkey
    · rename_i heq
      exact heq.symm
    · exact absurd (h.nameBelow _ _ hkey) (Nat.lt_irrefl _)
  pinned := fun other _ hother => by
    rw [lookup_natives_reserve] at hother
    split at hother
    · assumption
    · exact absurd (h.nativeBelow _ _ hother) (Nat.lt_irrefl _)
  pins := fun _ => by rw [lookup_natives_reserve, if_pos rfl]; rfl

/-- A type that is under way stays so. -/
theorem Pending.frame {native : NativeType} {name : String} {id : TypeId}
    (h : Pending r t native name id) (hframe : Frame r t t') : Pending r t' native name id where
  isOpen := (get?_eq_of_slots (hframe.extend.2 id.index h.below)).trans h.isOpen
  below := Nat.lt_of_lt_of_le h.below hframe.extend.1
  nameKnown := h.nameKnown.imp fun id' hid' => hframe.names _ id' hid'
  nameLeads := fun key hkey => h.nameLeads key (hframe.namesBack key id hkey h.below)
  pinned := fun other hpin hother => h.pinned other hpin (hframe.nativesBack other id hpin hother h.below)
  pins := fun hpin => hframe.natives native id hpin (h.pins hpin)

/-! ### Completed numbers -/

/-- What a descriptor for `native` must be like. -/
structure Complete (r : Registry) (t : TypeTable) (native : NativeType) (d : Descriptor) : Prop where
  distinct : Resolution.Distinct d.properties
  parameters : ∀ m, d.members? = some m → ∀ c ∈ m.constructor,
    ∃ p ∈ m.properties, p.name = c.property ∧ p.default = c.default
  untyped : d.isAny = true → d.nullable = true ∧ native = .value .any
  declared : ∀ name names, native = .named name → r.declaredNames? name = some names →
    ∀ p ∈ d.properties, ∃ m ∈ names, p.isNamed m = true
  shaped : ∀ name, native = .named name → r.Shapes name d
  based : ∀ b, d.base? = some b → ∃ name names,
    t.byNative.lookup (.named name) = some b ∧ (r.sourceType? name).isSome = true ∧
      r.declaredNames? name = some names ∧ ∀ m ∈ names, ∃ p ∈ d.properties, p.isNamed m = true

/-- A descriptor without members and not for the untyped type. -/
theorem complete_of_plain (r : Registry) (t : TypeTable) (native : NativeType) {d : Descriptor}
    (hmembers : d.members? = none) (hany : d.isAny = true → d.nullable = true ∧ native = .value .any)
    (hshaped : ∀ name, native = .named name → r.Shapes name d) : Complete r t native d := by
  have hproperties : d.properties = [] := by
    unfold Descriptor.properties
    rw [hmembers]
  refine ⟨?_, fun m hm => ?_, hany, fun name names _ _ p hp => ?_, hshaped, fun b hb => ?_⟩
  · rw [hproperties]
    exact List.Pairwise.nil
  · rw [hmembers] at hm
    cases hm
  · rw [hproperties] at hp
    cases hp
  · unfold Descriptor.base? at hb
    rw [hmembers] at hb
    cases hb

theorem Sound.fill (h : t.Sound r) {native : NativeType} {d : Descriptor}
    (hpending : Pending r t native d.name d.id) (hcomplete : Complete r t native d) :
    (t.fill d).Sound r := by
  have hget : ∀ id e, (t.fill d).get? id = some e → (id = d.id ∧ e = d) ∨ t.get? id = some e := by
    intro id e he
    by_cases hid : id = d.id
    · rw [hid, get?_fill_self hpending.below] at he
      exact Or.inl ⟨hid, (Option.some.inj he).symm⟩
    · rw [get?_fill_of_ne hid] at he
      exact Or.inr he
  have hsize : (t.fill d).slots.size = t.slots.size := by simp [TypeTable.fill]
  constructor
  case id =>
    intro id e he
    rcases hget id e he with ⟨rfl, rfl⟩ | he
    · rfl
    · exact h.id id e he
  case distinct =>
    intro id e he
    rcases hget id e he with ⟨rfl, rfl⟩ | he
    · exact hcomplete.distinct
    · exact h.distinct id e he
  case parameters =>
    intro id e m he
    rcases hget id e he with ⟨rfl, rfl⟩ | he
    · exact hcomplete.parameters m
    · exact h.parameters id e m he
  case untyped =>
    intro id e he hany
    rcases hget id e he with ⟨rfl, rfl⟩ | he
    · obtain ⟨hnull, hnative⟩ := hcomplete.untyped hany
      rw [hnative] at hpending
      exact ⟨hnull, hpending.pins trivial⟩
    · exact h.untyped id e he hany
  case nativeBelow =>
    intro other id hid
    rw [hsize]
    exact h.nativeBelow other id hid
  case nameBelow =>
    intro key id hid
    rw [hsize]
    exact h.nameBelow key id hid
  case nameKnown =>
    intro id e he
    rcases hget id e he with ⟨rfl, rfl⟩ | he
    · exact hpending.nameKnown
    · exact h.nameKnown id e he
  case nameLeads =>
    intro key id e hkey he
    rcases hget id e he with ⟨rfl, rfl⟩ | he
    · exact hpending.nameLeads key hkey
    · exact h.nameLeads key id e hkey he
  case declared =>
    intro name id e names hlookup he hnames
    rcases hget id e he with ⟨rfl, rfl⟩ | he
    · have hpin : r.Pins (.named name) := by
        show (r.declaredNames? name).isSome = true
        rw [hnames]
        rfl
      exact hcomplete.declared name names (hpending.pinned _ hpin hlookup).symm hnames
    · exact h.declared name id e names hlookup he hnames
  case shaped =>
    intro name id e hlookup he hpin
    rcases hget id e he with ⟨rfl, rfl⟩ | he
    · exact hcomplete.shaped name (hpending.pinned (.named name) hpin hlookup).symm
    · exact h.shaped name id e hlookup he hpin
  case based =>
    intro id e b he hb
    rcases hget id e he with ⟨rfl, rfl⟩ | he
    · exact hcomplete.based b hb
    · exact h.based id e b he hb

/-- Completing a number that was reserved on the way leaves the first table alone. -/
theorem Frame.fill (h : Frame r t t') {d : Descriptor} (hd : t.slots.size ≤ d.id.index) :
    Frame r t (t'.fill d) where
  extend := by
    refine ⟨?_, fun i hi => ?_⟩
    · simpa [TypeTable.fill] using h.extend.1
    · have hne : d.id.index ≠ i := by omega
      simp only [TypeTable.fill, Array.getElem?_setIfInBounds_ne hne]
      exact h.extend.2 i hi
  natives := h.natives
  nativesBack := h.nativesBack
  names := h.names
  namesBack := h.namesBack

end TypeTable

end ResourceQuery
