import ResourceQuery.Proofs.Type.Collections
import ResourceQuery.Proofs.Type.Labels

set_option autoImplicit false

/-! # What a type with members is made of

A type with members comes from a declared source type. Its properties are those that the types of the inheritance
chain declare, put into one table in the order of the chain; its base is what the name of the declared base leads
to. `TypeTable.IsMadeFrom` says this of a type of a table, and every type with members is made from some
declaration (`TypeTable.Explained.exists_isMadeFrom`). What a declared name leads to is made from the
declaration under that name (`TypeTable.Explained.isMadeFrom_of_definition`).

Two types that share a part of their chains may have other type arguments, and so other types of properties. But
for that, the tables that are made along the shared part are the same (`Resolution.agree_of_isDeclaredBy`).
-/

namespace ResourceQuery

/-! ## Registries -/

namespace Registry

/-- The registries that arise by declaring types, enums and proxies, each in place of one of its name. -/
inductive IsMade : Registry → Prop
  | empty : IsMade empty
  | withType {r : Registry} (h : IsMade r) (source : SourceType) : IsMade (r.withType source)
  | withEnum {r : Registry} (h : IsMade r) (name : String) (members : List String) :
      IsMade (r.withEnum name members)
  | withProxy {r : Registry} (h : IsMade r) (name target : String) : IsMade (r.withProxy name target)

variable {r : Registry}

theorem IsMade.keyedByName (h : r.IsMade) : r.KeyedByName := by
  induction h with
  | empty => exact keyedByName_empty
  | withType _ source ih => exact ih.withType source
  | withEnum _ name members ih => exact ih.withEnum name members
  | withProxy _ name target ih => exact ih.withProxy name target

/-- The chain of a type ends with the type. -/
theorem exists_upper_of_inheritanceChain {source : SourceType} {chain : List SourceType}
    (hsource : r.sourceType? source.name = some source) (h : r.inheritanceChain source.name = .ok chain) :
    ∃ upper, chain = upper ++ [source] ∧
      (∀ base, source.base = some base → r.inheritanceChain base = .ok upper) ∧
      (source.base = none → upper = []) := by
  cases hbase : source.base with
  | none =>
      unfold inheritanceChain chainAbove at h
      rw [hsource] at h
      dsimp only at h
      rw [if_neg (by simp), hbase] at h
      exact ⟨[], (Except.ok.inj h).symm, fun other hother => (by cases hother), fun _ => rfl⟩
  | some base =>
      obtain ⟨upper, hupper, hchain⟩ := inheritanceChain_base hsource hbase h
      exact ⟨upper, hchain, fun other hother => Option.some.inj hother ▸ hupper, fun hnone => by cases hnone⟩

end Registry

namespace Resolution

/-! ## Tables along a chain -/

section Tables

variable {registry : Registry} {resolve : Resolver} {arguments : List NativeType} {declaring id : TypeId}
  {defs : List PropertyDef} {chain : List SourceType} {table table' ps qs result : List Property}
  {p q : Property} {self : String} {s s' : Session}

/-- Properties put into a table one after another. -/
def putAll (ps table : List Property) : List Property :=
  ps.foldl (fun table p => putProperty p table) table

theorem putAll_append (ps qs table : List Property) :
    putAll (ps ++ qs) table = putAll qs (putAll ps table) :=
  List.foldl_append

theorem distinct_putAll (h : Distinct table) : Distinct (putAll ps table) := by
  induction ps generalizing table with
  | nil => exact h
  | cons p rest ih => exact ih (distinct_putProperty p h)

/-- The property is the declared one, with whatever types. -/
def IsDeclaredBy (d : PropertyDef) (p : Property) : Prop :=
  ∃ declaring type, p = property declaring d type

theorem exists_putAll_of_declare
    (hrun : (declare resolve arguments declaring defs table).runOn s = (.ok result, s')) :
    ∃ ps, List.Forall₂ IsDeclaredBy defs ps ∧ result = putAll ps table := by
  induction defs generalizing s table with
  | nil =>
      cases hrun
      exact ⟨[], .nil, rfl⟩
  | cons d rest ih =>
      obtain ⟨type, s₁, -, hrest⟩ := exists_of_bind hrun
      obtain ⟨ps, hps, hresult⟩ := ih hrest
      exact ⟨property declaring d type :: ps, .cons ⟨declaring, type, rfl⟩ hps, hresult⟩

/-- The table of a chain holds what the types of the chain declare, one type after another. -/
theorem exists_putAll_of_inherit
    (hrun : (inherit resolve arguments self id chain table).runOn s = (.ok result, s')) :
    ∃ ps, List.Forall₂ IsDeclaredBy (chain.flatMap (·.properties)) ps ∧ result = putAll ps table := by
  induction chain generalizing s table with
  | nil =>
      cases hrun
      exact ⟨[], .nil, rfl⟩
  | cons source rest ih =>
      obtain ⟨declaring, s₁, -, hrest⟩ := exists_of_bind hrun
      obtain ⟨middle, s₂, hdeclare, hinherit⟩ := exists_of_bind hrest
      obtain ⟨ps, hps, rfl⟩ := exists_putAll_of_declare hdeclare
      obtain ⟨qs, hqs, hresult⟩ := ih hinherit
      refine ⟨ps ++ qs, ?_, by rw [putAll_append, hresult]⟩
      rw [List.flatMap_cons]
      exact List.rel_append hps hqs

/-- The same but for types of whatever kind. -/
def SameButTypes : Property → Property → Prop :=
  Property.Agrees fun _ _ => True

theorem sameButTypes_of_isDeclaredBy {d : PropertyDef} (hp : IsDeclaredBy d p) (hq : IsDeclaredBy d q) :
    SameButTypes p q := by
  obtain ⟨_, _, rfl⟩ := hp
  obtain ⟨_, _, rfl⟩ := hq
  exact ⟨trivial, trivial, rfl⟩

theorem agree_putAll (hps : List.Forall₂ SameButTypes ps qs) (h : List.Forall₂ SameButTypes table table') :
    List.Forall₂ SameButTypes (putAll ps table) (putAll qs table') := by
  induction hps generalizing table table' with
  | nil => exact h
  | cons hp _ ih => exact ih (forall₂_putProperty hp h)

/-- Tables of the same declarations are the same but for types. -/
theorem agree_of_isDeclaredBy (hps : List.Forall₂ IsDeclaredBy defs ps) (hqs : List.Forall₂ IsDeclaredBy defs qs) :
    List.Forall₂ SameButTypes (putAll ps []) (putAll qs []) := by
  refine agree_putAll ?_ .nil
  induction hps generalizing qs with
  | nil =>
      cases hqs
      exact .nil
  | cons hp _ ih =>
      cases hqs with
      | cons hq hqs => exact .cons (sameButTypes_of_isDeclaredBy hp hq) (ih hqs)

end Tables

end Resolution

/-! ## Types and their declarations -/

/-- The name of the declaration that an expression names, or is an instance of. -/
def NativeType.definition? : NativeType → Option String
  | .named name => some name
  | .generic definition _ => some definition
  | _ => none

namespace Resolution

variable {registry : Registry} {native : NativeType} {key name : String} {isNullable : Bool}
  {contents : Resolver → TypeId → Resolution Contents} {source : SourceType} {id : TypeId} {c : Contents}
  {s s' : Session} {d : Descriptor}

/-- There is nothing to do for an instance of a source type but to make it, if it can be made. -/
theorem form_of_definition (hnative : native.definition? = some key)
    (hsource : registry.sourceType? key = some source) (henum : registry.enumMembers? key = none) :
    (∃ e, form registry native = .none e) ∨
      ∃ arguments, form registry native = sourceForm registry native source arguments := by
  cases native with
  | named other =>
      cases hnative
      simp only [form, namedForm, henum, hsource]
      split
      · exact .inl ⟨_, rfl⟩
      · exact .inr ⟨[], rfl⟩
  | generic other arguments =>
      cases hnative
      simp only [form, instanceForm, hsource]
      split
      · exact .inl ⟨_, rfl⟩
      · split
        · exact .inl ⟨_, rfl⟩
        · exact .inr ⟨arguments, rfl⟩
  | _ => cases hnative

/-- Only source types have members. -/
theorem exists_definition_of_form (hform : form registry native = .own name isNullable contents)
    (hrun : (contents (find registry) id).runOn s = (.ok c, s')) (hshape : d.shape = c.shape)
    (hmembers : d.members?.isSome = true) :
    ∃ key source arguments, native.definition? = some key ∧ registry.sourceType? key = some source ∧
      sourceForm registry native source arguments = .own name isNullable contents := by
  rw [Descriptor.members?, hshape] at hmembers
  cases native with
  | value kind =>
      cases hform
      cases hrun
      cases hmembers
  | nullable inner =>
      unfold form at hform
      dsimp only at hform
      cases hplain : plainShape? registry inner with
      | none =>
          rw [hplain] at hform
          cases hform
      | some shape =>
          rw [hplain] at hform
          cases hform
          obtain ⟨innerId, s₁, -, hpure⟩ := exists_of_bind hrun
          cases hpure
          rcases plainShape?_cases hplain with ⟨kind, rfl⟩ | ⟨members, rfl⟩ <;> cases hmembers
  | list element =>
      cases hform
      obtain ⟨elementId, s₁, -, hpure⟩ := exists_of_bind hrun
      cases hpure
      cases hmembers
  | map keyType value =>
      unfold form at hform
      dsimp only at hform
      split at hform
      · cases hform
      · cases hform
        obtain ⟨keyId, s₁, -, hrest⟩ := exists_of_bind hrun
        obtain ⟨valueId, s₂, -, hpure⟩ := exists_of_bind hrest
        cases hpure
        cases hmembers
  | named other =>
      unfold form namedForm at hform
      dsimp only at hform
      split at hform
      · cases hform
        cases hrun
        cases hmembers
      · split at hform
        · rename_i source hsource
          split at hform
          · cases hform
          · exact ⟨other, source, [], rfl, hsource, hform⟩
        · split at hform
          · split at hform <;> cases hform
          · cases hform
  | generic definition arguments =>
      unfold form instanceForm at hform
      dsimp only at hform
      split at hform
      · rename_i source hsource
        split at hform
        · cases hform
        · split at hform
          · cases hform
          · exact ⟨definition, source, arguments, rfl, hsource, hform⟩
      · cases hform
  | parameter index => cases hform

end Resolution

namespace TypeTable

open Resolution

/-- The members `m` are those of the source type `source` along its chain, when every expression leads where it
leads in the table. -/
structure IsMadeFrom (registry : Registry) (t : TypeTable) (m : Members) (source : SourceType)
    (chain : List SourceType) : Prop where
  inheritance : registry.inheritanceChain source.name = .ok chain
  /-- The base is what its name leads to. -/
  base : m.base.map some = source.base.map fun name => t.byNative.lookup (.named name)
  /-- The properties are those that are declared along the chain. -/
  properties : ∃ ps, List.Forall₂ IsDeclaredBy (chain.flatMap (·.properties)) ps ∧ m.properties = putAll ps []
  /-- The constructor takes the properties that the chain names for it. -/
  constructor : ∃ type, parameters type m.properties (constructorNames chain m.properties) = .ok m.constructor
  primaryId : m.primaryId = m.properties.findIdx? (·.isPrimaryId)

variable {registry : Registry} {t : TypeTable} {id : TypeId} {d : Descriptor} {m : Members}
  {native : NativeType} {source : SourceType} {chain : List SourceType} {arguments : List NativeType}
  {key name : String} {c : Contents} {s : Session}

/-- What a source type contains is made from the source type. -/
theorem isMadeFrom_of_sourceContents (hchain : registry.inheritanceChain source.name = .ok chain)
    (hrun : (sourceContents registry (find registry) source chain arguments name id).runOn (.begin t) = (.ok c, s))
    (hshape : d.shape = c.shape) : ∃ m, d.members? = some m ∧ t.IsMadeFrom registry m source chain := by
  obtain ⟨base, s₁, hbase, hrest⟩ := exists_of_bind hrun
  obtain ⟨ids, s₂, -, hrest⟩ := exists_of_bind hrest
  obtain ⟨properties, s₃, hproperties, hrest⟩ := exists_of_bind hrest
  obtain ⟨constructor, s₄, hconstructor, hrest⟩ := exists_of_bind hrest
  obtain ⟨shape, s₅, hmembers, hpure⟩ := exists_of_bind hrest
  cases hpure
  have hbase : base.map some = source.base.map fun name => t.byNative.lookup (.named name) := by
    cases hname : source.base with
    | none =>
        rw [hname] at hbase
        cases hbase
        rfl
    | some name =>
        rw [hname] at hbase
        obtain ⟨b, s', hb, hpure⟩ := exists_of_bind hbase
        cases hpure
        exact congrArg some (lookup_of_find hb).2.symm
  refine ⟨members source base properties constructor, ?_, hchain, hbase, exists_putAll_of_inherit hproperties,
    ⟨name, (eq_of_settled hconstructor).1⟩, rfl⟩
  -- a resource type has the members too
  unfold shapeOf at hmembers
  cases hkind : source.kind with
  | valueObject =>
      rw [hkind] at hmembers
      cases hmembers
      rw [Descriptor.members?, hshape]
  | resource =>
      rw [hkind] at hmembers
      obtain ⟨a, s₆, -, hpure⟩ := exists_of_bind hmembers
      cases hpure
      rw [Descriptor.members?, hshape]

theorem isMadeFrom_of_sourceForm {isNullable : Bool} {contents : Resolver → TypeId → Resolution Contents}
    (hform : sourceForm registry native source arguments = .own name isNullable contents)
    (hrun : (contents (find registry) id).runOn (.begin t) = (.ok c, s)) (hshape : d.shape = c.shape) :
    ∃ m chain, d.members? = some m ∧ t.IsMadeFrom registry m source chain := by
  unfold sourceForm at hform
  cases hchain : registry.inheritanceChain source.name with
  | error e =>
      rw [hchain] at hform
      cases hform
  | ok chain =>
      rw [hchain] at hform
      cases hform
      obtain ⟨m, hm, hmade⟩ := isMadeFrom_of_sourceContents hchain hrun hshape
      exact ⟨m, chain, hm, hmade⟩

/-- **A type with members is an instance of a source type, and made from it.** -/
theorem Explained.exists_isMadeFrom (ht : t.Explained registry) (hd : t.get? id = some d) (hm : d.members? = some m) :
    ∃ native key source chain, t.byNative.lookup native = some id ∧ native.definition? = some key ∧
      registry.sourceType? key = some source ∧ t.IsMadeFrom registry m source chain := by
  obtain ⟨native, name, isNullable, contents, hlookup, hform, -, -, hfinds⟩ := ht.exists_form hd
  have hrun := hfinds (.begin t) fun _ _ h => h
  obtain ⟨key, source, arguments, hnative, hsource, hsourceForm⟩ :=
    exists_definition_of_form hform hrun rfl (by rw [hm]; rfl)
  obtain ⟨m', chain, hm', hmade⟩ := isMadeFrom_of_sourceForm hsourceForm hrun rfl
  rw [hm] at hm'
  cases hm'
  exact ⟨native, key, source, chain, hlookup, hnative, hsource, hmade⟩

/-- **An instance of a source type has members, and is made from the source type.** -/
theorem Explained.isMadeFrom_of_definition (ht : t.Explained registry) (hnative : native.definition? = some key)
    (hsource : registry.sourceType? key = some source) (henum : registry.enumMembers? key = none)
    (hid : t.byNative.lookup native = some id) (hd : t.get? id = some d) :
    ∃ m chain, d.members? = some m ∧ t.IsMadeFrom registry m source chain := by
  have hexplains := ht.explains native id hid
  unfold Explains at hexplains
  rcases form_of_definition hnative hsource henum with ⟨e, hform⟩ | ⟨arguments, hform⟩
  · rw [hform] at hexplains
    exact hexplains.elim
  · rw [hform] at hexplains
    cases hsourceForm : sourceForm registry native source arguments with
    | none e =>
        rw [hsourceForm] at hexplains
        exact hexplains.elim
    | shared other => exact absurd hsourceForm (sourceForm_ne_shared _ _ _)
    | own name isNullable contents =>
        rw [hsourceForm] at hexplains
        obtain ⟨-, -, -, hfinds⟩ := hexplains d hd
        exact isMadeFrom_of_sourceForm hsourceForm (hfinds (.begin t) fun _ _ h => h) rfl

/-- What a name leads to is no enum, if it has members. -/
theorem Explained.enumMembers?_eq_none (ht : t.Explained registry)
    (hid : t.byNative.lookup (.named name) = some id) (hd : t.get? id = some d) (hm : d.members?.isSome = true) :
    registry.enumMembers? name = none := by
  cases henum : registry.enumMembers? name with
  | none => rfl
  | some members =>
      have hexplains := ht.explains _ _ hid
      have hform : form registry (.named name) = .own name false fun _ _ => pure ⟨[], .enum members⟩ := by
        simp only [form, namedForm, henum]
      rw [Explains, hform] at hexplains
      obtain ⟨-, -, -, hfinds⟩ := hexplains d hd
      have hrun := hfinds (.begin t) fun _ _ h => h
      have hshape : d.shape = .enum members := by
        have hcontents := congrArg (fun outcome => outcome.1.toOption.map (·.shape)) hrun
        exact (Option.some.inj hcontents).symm
      rw [Descriptor.members?, hshape] at hm
      cases hm

/-- A type has no base and nothing above it in its chain, or its base is what the name above it in the chain leads
to. -/
theorem IsMadeFrom.base_cases (hkeyed : registry.KeyedByName)
    (hsource : registry.sourceType? source.name = some source) (h : t.IsMadeFrom registry m source chain) :
    (m.base = none ∧ chain = [source]) ∨
      ∃ b root upper, m.base = some b ∧ chain = upper ++ [root] ++ [source] ∧
        registry.sourceType? root.name = some root ∧ registry.inheritanceChain root.name = .ok (upper ++ [root]) ∧
        t.byNative.lookup (.named root.name) = some b := by
  obtain ⟨upper, hchain, habove, htop⟩ := Registry.exists_upper_of_inheritanceChain hsource h.inheritance
  have hbase := h.base
  cases hname : source.base with
  | none =>
      rw [hname] at hbase
      rw [htop hname] at hchain
      exact .inl ⟨Option.map_eq_none_iff.mp hbase, hchain⟩
  | some name =>
      rw [hname] at hbase
      obtain ⟨b, hb, hlookup⟩ := Option.map_eq_some_iff.mp hbase
      have hupper := habove name hname
      obtain ⟨root, hroot⟩ := Option.isSome_iff_exists.mp (Registry.isSome_of_inheritanceChain hupper)
      obtain rfl := hkeyed name root hroot
      obtain ⟨rest, rfl, -⟩ := Registry.exists_upper_of_inheritanceChain hroot hupper
      exact .inr ⟨b, root, rest, hb, hchain, hroot, hupper, hlookup.symm⟩

end TypeTable

/-! ## Graphs -/

namespace TypeGraph

variable {g : TypeGraph} {r : Registry}

/-- The graph of a registry, after it was asked for any types. -/
def IsReached (r : Registry) (g : TypeGraph) : Prop :=
  ∃ g₀ calls, ofRegistry r = .ok g₀ ∧ g = g₀.after calls

theorem isReached_of_toOption (h : (ofRegistry r).toOption = some g) : g.IsReached r := by
  cases hmade : ofRegistry r with
  | error e =>
      rw [hmade] at h
      cases h
  | ok g₀ =>
      rw [hmade] at h
      cases h
      exact ⟨g, [], hmade, rfl⟩

theorem IsReached.explained (h : g.IsReached r) : g.table.Explained r := by
  obtain ⟨g₀, calls, hmade, rfl⟩ := h
  exact (explained_after hmade calls).2

theorem IsReached.consistent (h : g.IsReached r) : g.table.IsConsistent := by
  obtain ⟨g₀, calls, hmade, rfl⟩ := h
  exact (tidy_after (tidy_ofRegistry hmade) calls).isConsistent

theorem IsReached.startsWithValues (h : g.IsReached r) : g.StartsWithValues := by
  obtain ⟨g₀, calls, hmade, rfl⟩ := h
  exact (startsWithValues_ofRegistry hmade).extend (extends_after g₀ calls)

theorem IsReached.lookup_value (h : g.IsReached r) (kind : ValueKind) :
    g.table.byNative.lookup (.value kind) = some (valueType kind) := by
  obtain ⟨g₀, calls, hmade, rfl⟩ := h
  exact lookup_after (lookup_value_ofRegistry hmade kind) calls

theorem IsReached.sound (hkeyed : r.KeyedByName) (h : g.IsReached r) : g.table.Sound r := by
  obtain ⟨g₀, calls, hmade, rfl⟩ := h
  have hlabels := after_induction (fun g => g.HasLabels r) (fun _ depth native h => h.resolveWithin hkeyed depth native)
    (hasLabels_ofRegistry hkeyed hmade) calls
  exact hlabels.2.1

/-- The names of properties differ by more than case. -/
theorem IsReached.distinct (h : g.IsReached r) {id : TypeId} {d : Descriptor} (hd : g.table.get? id = some d) :
    Resolution.Distinct d.properties := by
  unfold Descriptor.properties
  cases hm : d.members? with
  | none => exact List.Pairwise.nil
  | some m =>
      obtain ⟨_, _, _, _, -, -, -, hmade⟩ := h.explained.exists_isMadeFrom hd hm
      obtain ⟨ps, -, hps⟩ := hmade.properties
      dsimp only
      rw [hps]
      exact Resolution.distinct_putAll List.Pairwise.nil

end TypeGraph

end ResourceQuery
