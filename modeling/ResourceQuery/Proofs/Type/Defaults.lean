import ResourceQuery.Proofs.Type.Collections
import ResourceQuery.Proofs.Value.Renaming

set_option autoImplicit false

/-! # Where defaults come from

A constructor parameter that a document leaves out takes the default that was declared for its property. So the
defaults in a graph are those in its registry, whatever types were resolved
(`TypeGraph.Arises.exists_default`). What is plain holds no objects: every object that is made with a
plain default is made with the same one, and shares no object through it.
-/

namespace ResourceQuery

/-- No declared default holds an object. -/
def Registry.HasPlainDefaults (r : Registry) : Prop :=
  ∀ entry ∈ r.types, ∀ p ∈ entry.2.properties, ∀ v ∈ p.default, v.Over fun _ => False

/-- No default of a constructor parameter holds an object. -/
def Descriptor.HasPlainDefaults (d : Descriptor) : Prop :=
  ∀ m ∈ d.members?, ∀ parameter ∈ m.constructor, ∀ v ∈ parameter.default, v.Over fun _ => False

/-! ## Properties -/

namespace Resolution

variable {registry : Registry} {resolve : Resolver} {s s' : Session} {id declaring : TypeId}
  {source : SourceType} {chain : List SourceType} {arguments : List NativeType} {self name : String}
  {table properties : List Property}

theorem exists_default_of_declare {defs : List PropertyDef}
    (hrun : (declare resolve arguments declaring defs table).runOn s = (.ok properties, s')) :
    ∀ p ∈ properties, p ∈ table ∨ ∃ d ∈ defs, d.default = p.default := by
  induction defs generalizing table s with
  | nil =>
      cases hrun
      exact fun p hp => .inl hp
  | cons d rest ih =>
      obtain ⟨type, s₁, -, hrest⟩ := exists_of_bind hrun
      intro p hp
      rcases ih hrest p hp with hput | ⟨other, hother, hdefault⟩
      · rcases mem_putProperty hput with rfl | hp
        · exact .inr ⟨d, List.mem_cons_self, rfl⟩
        · exact .inl hp
      · exact .inr ⟨other, List.mem_cons_of_mem _ hother, hdefault⟩

theorem exists_default_of_inherit
    (hrun : (inherit resolve arguments self id chain table).runOn s = (.ok properties, s')) :
    ∀ p ∈ properties, p ∈ table ∨ ∃ source ∈ chain, ∃ d ∈ source.properties, d.default = p.default := by
  induction chain generalizing table s with
  | nil =>
      cases hrun
      exact fun p hp => .inl hp
  | cons source rest ih =>
      obtain ⟨declaring, s₁, -, hrest⟩ := exists_of_bind hrun
      obtain ⟨declared, s₂, hdeclare, hrest⟩ := exists_of_bind hrest
      intro p hp
      rcases ih hrest p hp with hdeclared | ⟨other, hother, h⟩
      · rcases exists_default_of_declare hdeclare p hdeclared with hp | h
        · exact .inl hp
        · exact .inr ⟨source, List.mem_cons_self, h⟩
      · exact .inr ⟨other, List.mem_cons_of_mem _ hother, h⟩

/-- The default of a constructor parameter was declared somewhere along the chain. -/
theorem exists_default_of_sourceContents {c : Contents} {m : Members}
    (hrun : (sourceContents registry resolve source chain arguments name id).runOn s = (.ok c, s'))
    (hm : c.shape = .structured m ∨ ∃ a, c.shape = .resource m a) :
    ∀ parameter ∈ m.constructor, ∃ source ∈ chain, ∃ d ∈ source.properties,
      d.default = parameter.default := by
  obtain ⟨base, s₁, -, hrest⟩ := exists_of_bind hrun
  obtain ⟨ids, s₂, -, hrest⟩ := exists_of_bind hrest
  obtain ⟨properties, s₃, hproperties, hrest⟩ := exists_of_bind hrest
  obtain ⟨constructor, s₄, hconstructor, hrest⟩ := exists_of_bind hrest
  obtain ⟨shape, s₅, hshape, hpure⟩ := exists_of_bind hrest
  cases hpure
  have hmembers : m = members source base properties constructor := by
    unfold shapeOf at hshape
    cases hkind : source.kind with
    | valueObject =>
        rw [hkind] at hshape
        cases hshape
        rcases hm with hm | ⟨a, hm⟩ <;> cases hm
        rfl
    | resource =>
        rw [hkind] at hshape
        obtain ⟨address, s₆, -, hpure⟩ := exists_of_bind hshape
        cases hpure
        rcases hm with hm | ⟨a, hm⟩ <;> cases hm
        rfl
  intro parameter hparameter
  rw [hmembers] at hparameter
  obtain ⟨p, hp, -, hdefault⟩ :=
    parameters_declared (eq_of_settled hconstructor).1 parameter hparameter
  rcases exists_default_of_inherit hproperties p hp with hnone | ⟨other, hother, d, hd, hsame⟩
  · cases hnone
  · exact ⟨other, hother, d, hd, hsame.trans hdefault⟩

end Resolution

/-! ## Graphs -/

open Resolution

/-- The default of a constructor parameter is one that is declared. -/
theorem TypeTable.Explained.exists_default {registry : Registry} {t : TypeTable} {id : TypeId}
    {d : Descriptor} (ht : t.Explained registry) (hd : t.get? id = some d) :
    ∀ m ∈ d.members?, ∀ parameter ∈ m.constructor, ∀ v ∈ parameter.default,
      ∃ entry ∈ registry.types, ∃ p ∈ entry.2.properties, v ∈ p.default := by
  obtain ⟨native, hnative⟩ := ht.led id.index (lt_of_get? hd)
  obtain ⟨own, ⟨name, isNullable, contents, hform⟩, hown, -⟩ := exists_own ht ht hnative hnative
  have hexplains := ht.explains own id hown
  unfold Explains at hexplains
  rw [hform] at hexplains
  obtain ⟨-, -, -, hfinds⟩ := hexplains d hd
  have hrun := hfinds (.begin t) fun _ _ h => h
  intro m hm parameter hparameter v hv
  have hshape : d.shape = .structured m ∨ ∃ a, d.shape = .resource m a := Descriptor.shape_of_members? hm
  -- types of other shapes have no parameters
  have hother : ∀ shape, shape = d.shape → ({ d with shape } : Descriptor).members? = none → False := by
    rintro shape rfl hnone
    cases hm.symm.trans hnone
  cases owns_of_form hform with
  | source _ hsource hchain =>
      obtain ⟨source, hsource, p, hp, hdefault⟩ := exists_default_of_sourceContents hrun hshape parameter hparameter
      obtain ⟨key, hkey⟩ := mem_types_of_chainAbove hchain (List.forall_mem_nil _) source hsource
      exact ⟨_, hkey, p, hp, hdefault ▸ hv⟩
  | value kind =>
      have hvalue : TypeShape.value kind = d.shape := congrArg Contents.shape (Except.ok.inj (congrArg Prod.fst hrun))
      exact (hother _ hvalue rfl).elim
  | enum _ =>
      have henum := congrArg Contents.shape (Except.ok.inj (congrArg Prod.fst hrun))
      exact (hother _ henum rfl).elim
  | optional hinner =>
      obtain ⟨innerId, s₁, -, hpure⟩ := exists_of_bind hrun
      have hoptional := congrArg Contents.shape (Except.ok.inj (congrArg Prod.fst hpure))
      rcases plainShape?_cases hinner with ⟨kind, rfl⟩ | ⟨members, rfl⟩
      · exact (hother _ hoptional rfl).elim
      · exact (hother _ hoptional rfl).elim
  | list element =>
      obtain ⟨elementId, s₁, -, hpure⟩ := exists_of_bind hrun
      have hlist := congrArg Contents.shape (Except.ok.inj (congrArg Prod.fst hpure))
      exact (hother _ hlist rfl).elim
  | map value =>
      obtain ⟨keyId, s₁, -, hrest⟩ := exists_of_bind hrun
      obtain ⟨valueId, s₂, -, hpure⟩ := exists_of_bind hrest
      have hmap := congrArg Contents.shape (Except.ok.inj (congrArg Prod.fst hpure))
      exact (hother _ hmap rfl).elim

theorem TypeGraph.GrowsTo.registry {g g' : TypeGraph} (h : g.GrowsTo g') : g'.registry = g.registry := by
  induction h with
  | refl => rfl
  | resolve _ native ih => exact (registry_resolve _ native).trans ih

theorem TypeGraph.Arises.exists_default {g : TypeGraph} {id : TypeId} {d : Descriptor} (hg : g.Arises)
    (hd : g.table.get? id = some d) : ∀ m ∈ d.members?, ∀ parameter ∈ m.constructor,
      ∀ v ∈ parameter.default, ∃ entry ∈ g.registry.types, ∃ p ∈ entry.2.properties, v ∈ p.default := by
  obtain ⟨r, g₀, hkeyed, hmade, hgrown⟩ := hg
  obtain ⟨rfl, hexplained⟩ := (explained_after hmade []).grow hgrown
  exact hexplained.exists_default hd

/-- **The defaults in a graph are plain if those in its registry are.** -/
theorem TypeGraph.Arises.hasPlainDefaults {g : TypeGraph} {id : TypeId} {d : Descriptor} (hg : g.Arises)
    (hplain : g.registry.HasPlainDefaults) (hd : g.table.get? id = some d) : d.HasPlainDefaults := by
  intro m hm parameter hparameter v hv
  obtain ⟨entry, hentry, p, hp, hdefault⟩ := hg.exists_default hd m hm parameter hparameter v hv
  exact hplain entry hentry p hp v hdefault

theorem Registry.registry_graph (r : Registry) : r.graph.registry = r := by
  unfold graph
  cases hmade : TypeGraph.ofRegistry r with
  | error e => rfl
  | ok g => exact TypeGraph.registry_ofRegistry hmade

theorem Registry.hasPlainDefaults_of_isNone {r : Registry}
    (h : ∀ entry ∈ r.types, ∀ p ∈ entry.2.properties, p.default.isNone = true) : r.HasPlainDefaults := by
  intro entry hentry p hp v hv
  have hnone := Option.isNone_iff_eq_none.mp (h entry hentry p hp)
  rw [hnone] at hv
  cases hv

end ResourceQuery
