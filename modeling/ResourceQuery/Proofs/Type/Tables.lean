import ResourceQuery.Proofs.Type.Assignability
import ResourceQuery.Proofs.Type.Declarations

set_option autoImplicit false

/-! # The tables of subtypes

A type inherits by making its table of properties anew: it goes along the inheritance chain and puts in what each
type declares, a property of a name that is there already in the place of the old one, another one behind all
others. So nothing moves. Whatever is overridden on the way, in whatever spelling, the table of a base is there
again at the start of the table, place by place and up to the case of names
(`TypeTable.Explained.keepsPlaces_base`), and so is the table of each type further up
(`TypeGraph.IsReached.keepsPlaces_of_climb`).

What a type refers to by place or by name is therefore looked up in its own table: the primary id, what its
constructor takes, and each property of a type that it inherits from (`TypeGraph.tables_start_with_bases`).
-/

namespace ResourceQuery

namespace Resolution

variable {table between result ps : List Property} {p : Property} {name : String}

/-! ## Places -/

/-- At each place of `table`, `result` has a property of the same name. -/
def KeepsPlaces (table result : List Property) : Prop :=
  ∀ (i : Nat) (p : Property), table[i]? = some p → ∃ q, result[i]? = some q ∧ q.isNamed p.name = true

theorem KeepsPlaces.refl (table : List Property) : KeepsPlaces table table :=
  fun _ p hp => ⟨p, hp, Text.sameIgnoringCase_refl p.name⟩

theorem KeepsPlaces.trans (h₁ : KeepsPlaces table between) (h₂ : KeepsPlaces between result) :
    KeepsPlaces table result := by
  intro i p hp
  obtain ⟨q, hq, hqp⟩ := h₁ i p hp
  obtain ⟨q', hq', hqq⟩ := h₂ i q hq
  exact ⟨q', hq', isNamed_trans hqq hqp⟩

theorem KeepsPlaces.length_le (h : KeepsPlaces table result) : table.length ≤ result.length := by
  by_contra hshort
  -- else `table` has a property at the place behind the last one of `result`
  have hlt : result.length < table.length := by omega
  obtain ⟨q, hq, -⟩ := h _ _ (List.getElem?_eq_getElem hlt)
  rw [List.getElem?_eq_none (Nat.le_refl _)] at hq
  cases hq

theorem KeepsPlaces.isNamed (h : KeepsPlaces table result) {i : Nat} {q : Property} (hp : table[i]? = some p)
    (hq : result[i]? = some q) : q.isNamed p.name = true := by
  obtain ⟨q', hq', hnamed⟩ := h i p hp
  rw [hq] at hq'
  cases hq'
  exact hnamed

/-- Where names are distinct, a name is in one place. -/
theorem Distinct.index_eq (h : Distinct table) {i j : Nat} {p q : Property} (hp : table[i]? = some p)
    (hq : table[j]? = some q) (hsame : p.isNamed q.name = true) : i = j := by
  obtain ⟨hi, rfl⟩ := List.getElem?_eq_some_iff.mp hp
  obtain ⟨hj, rfl⟩ := List.getElem?_eq_some_iff.mp hq
  have happart := List.pairwise_iff_getElem.mp h
  rcases Nat.lt_trichotomy i j with hlt | heq | hgt
  · exact absurd hsame (Bool.eq_false_iff.mp (happart i j hi hj hlt))
  · exact heq
  · exact absurd (isNamed_symm hsame) (Bool.eq_false_iff.mp (happart j i hj hi hgt))

/-- A property that comes in takes the place of one of its name, and moves no other. -/
theorem keepsPlaces_putProperty (p : Property) (table : List Property) :
    KeepsPlaces table (putProperty p table) := by
  induction table with
  | nil =>
      intro i q hq
      cases hq
  | cons first rest ih =>
      intro i q hq
      unfold putProperty
      split
      · rename_i hsame
        cases i with
        | zero =>
            cases hq
            exact ⟨p, rfl, isNamed_symm hsame⟩
        | succ i => exact ⟨q, hq, Text.sameIgnoringCase_refl q.name⟩
      · cases i with
        | zero =>
            cases hq
            exact ⟨first, rfl, Text.sameIgnoringCase_refl first.name⟩
        | succ i => exact ih i q hq

theorem keepsPlaces_putAll (ps table : List Property) : KeepsPlaces table (putAll ps table) := by
  induction ps generalizing table with
  | nil => exact .refl table
  | cons p rest ih => exact (keepsPlaces_putProperty p table).trans (ih (putProperty p table))

/-- Tables that are the same but for types have the same names in the same places. -/
theorem keepsPlaces_of_forall₂ (h : List.Forall₂ SameButTypes table result) : KeepsPlaces table result := by
  induction h with
  | nil => exact .refl []
  | @cons first first' rest rest' hfirst _ ih =>
      intro i p hp
      cases i with
      | zero =>
          cases hp
          refine ⟨first', rfl, ?_⟩
          rw [Property.isNamed, name_eq_of_agrees hfirst]
          exact Text.sameIgnoringCase_refl _
      | succ i => exact ih i p hp

end Resolution

/-! ## Bases -/

namespace TypeTable

open Resolution

variable {registry : Registry} {t : TypeTable} {id b : TypeId} {d base : Descriptor} {m n : Members}
  {source : SourceType} {chain : List SourceType}

/-- A base with members is made from the declaration above, along the chain of the type without its end. -/
theorem Explained.isMadeFrom_base (ht : t.Explained registry) (hkeyed : registry.KeyedByName)
    (hsource : registry.sourceType? source.name = some source) (hmade : t.IsMadeFrom registry m source chain)
    (hb : m.base = some b) (hbase : t.get? b = some base) (hn : base.members? = some n) :
    ∃ root upper, chain = upper ++ [source] ∧ t.IsMadeFrom registry n root upper := by
  rcases hmade.base_cases hkeyed hsource with ⟨hnone, -⟩ | ⟨b', root, upper, hb', hchain, hroot, hupper, hlookup⟩
  · rw [hb] at hnone
    cases hnone
  · rw [hb] at hb'
    cases hb'
    have henum : registry.enumMembers? root.name = none := ht.enumMembers?_eq_none hlookup hbase (by rw [hn]; rfl)
    obtain ⟨n', chain', hn', hmade'⟩ := ht.isMadeFrom_of_definition rfl hroot henum hlookup hbase
    rw [hn] at hn'
    cases hn'
    have hsame := hmade'.inheritance
    rw [hupper] at hsame
    cases hsame
    exact ⟨root, upper ++ [root], hchain, hmade'⟩

/-- **The table of a type starts with the table of its base**, up to overrides. -/
theorem Explained.keepsPlaces_base (ht : t.Explained registry) (hkeyed : registry.KeyedByName)
    (hd : t.get? id = some d) (hm : d.members? = some m) (hb : m.base = some b) (hbase : t.get? b = some base)
    (hn : base.members? = some n) : KeepsPlaces n.properties m.properties := by
  obtain ⟨native, key, source, chain, -, -, hsource, hmade⟩ := ht.exists_isMadeFrom hd hm
  rw [← hkeyed key source hsource] at hsource
  obtain ⟨root, upper, rfl, habove⟩ := ht.isMadeFrom_base hkeyed hsource hmade hb hbase hn
  obtain ⟨ps, hps, hproperties⟩ := hmade.properties
  obtain ⟨qs, hqs, hinherited⟩ := habove.properties
  -- what the types above declare is put in first
  rw [List.flatMap_append] at hps
  have hfirst := (List.forall₂_take_append _ _ _ hps.flip).flip
  rw [hproperties, hinherited, ← List.take_append_drop (upper.flatMap (·.properties)).length ps, putAll_append]
  exact (keepsPlaces_of_forall₂ (agree_of_isDeclaredBy hqs hfirst)).trans (keepsPlaces_putAll _ _)

end TypeTable

namespace TypeGraph

open Resolution

variable {g : TypeGraph} {r : Registry} {id above : TypeId} {d e : Descriptor} {m n : Members}

/-- There is a descriptor wherever a way up starts that leads to one. -/
theorem exists_get?_of_climb {steps : Nat} (h : g.climb steps id = some above) (he : g.table.get? above = some e) :
    ∃ d, g.table.get? id = some d := by
  cases steps with
  | zero =>
      cases h
      exact ⟨e, he⟩
  | succ steps =>
      rw [climb] at h
      obtain ⟨b, hb, -⟩ := Option.bind_eq_some_iff.mp h
      obtain ⟨d, hd, -⟩ := Option.bind_eq_some_iff.mp hb
      exact ⟨d, hd⟩

/-- The table of a type starts with the table of each type that it inherits from. -/
theorem IsReached.keepsPlaces_of_climb (hr : r.IsMade) (h : g.IsReached r) {steps : Nat}
    (hd : g.table.get? id = some d) (hclimb : g.climb steps id = some above) (he : g.table.get? above = some e)
    (hn : e.members? = some n) : KeepsPlaces n.properties d.properties := by
  induction steps generalizing id d with
  | zero =>
      cases hclimb
      rw [hd] at he
      cases he
      rw [Descriptor.properties, hn]
      exact .refl _
  | succ steps ih =>
      rw [climb] at hclimb
      obtain ⟨b, hb, hrest⟩ := Option.bind_eq_some_iff.mp hclimb
      rw [above?, hd, Option.bind_some, Descriptor.base?] at hb
      obtain ⟨m, hm, hbase⟩ := Option.bind_eq_some_iff.mp hb
      obtain ⟨base, hgetBase⟩ := exists_get?_of_climb hrest he
      have hfurther := ih hgetBase hrest
      rw [Descriptor.properties, hm]
      cases hmembers : base.members? with
      | some k =>
          rw [Descriptor.properties, hmembers] at hfurther
          exact hfurther.trans (h.explained.keepsPlaces_base hr.keyedByName hd hm hbase hgetBase hmembers)
      | none =>
          -- nothing has a place in the empty table
          rw [Descriptor.properties, hmembers] at hfurther
          intro i p hp
          obtain ⟨q, hq, -⟩ := hfurther i p hp
          cases hq

/-- **The table of a type starts with the tables of the types that it inherits from.** The names in it differ by
more than case; it is no shorter than the table of the base and has a property of the same name at each place of
that; so each property of a type further up, however far, is found under its name. The primary id and what the
constructor takes are properties of the table. -/
theorem tables_start_with_bases (hr : r.IsMade) (h : g.IsReached r) (hd : g.table.get? id = some d)
    (hm : d.members? = some m) :
    (∀ (i j : Nat) (p q : Property), m.properties[i]? = some p → m.properties[j]? = some q →
      Text.sameIgnoringCase p.name q.name = true → i = j) ∧
    (∀ b base n, m.base = some b → g.table.get? b = some base → base.members? = some n →
      n.properties.length ≤ m.properties.length ∧
        ∀ (i : Nat) (p q : Property), n.properties[i]? = some p → m.properties[i]? = some q →
          Text.sameIgnoringCase q.name p.name = true) ∧
    (∀ a above, g.isAssignable a id = true → g.table.get? a = some above → ∀ p ∈ above.properties,
      ∃ q ∈ m.properties, d.property? p.name = some q) ∧
    (∀ i, m.primaryId = some i → ∃ p, m.properties[i]? = some p ∧ p.isPrimaryId = true) ∧
    ∀ c ∈ m.constructor, ∃ p ∈ m.properties, p.name = c.property ∧ d.property? c.property = some p := by
  have hproperties : d.properties = m.properties := by rw [Descriptor.properties, hm]
  have hdistinct : Distinct m.properties := hproperties ▸ h.distinct hd
  obtain ⟨native, key, source, chain, -, -, -, hmade⟩ := h.explained.exists_isMadeFrom hd hm
  refine ⟨fun i j p q hp hq hsame => ?_, fun b base n hb hbase hn => ?_, fun a e ha he p hp => ?_,
    fun i hi => ?_, fun c hc => ?_⟩
  · exact hdistinct.index_eq hp hq hsame
  · have hkeeps := h.explained.keepsPlaces_base hr.keyedByName hd hm hb hbase hn
    exact ⟨hkeeps.length_le, fun i p q hp hq => hkeeps.isNamed hp hq⟩
  · obtain ⟨n, hn, hpn⟩ := Descriptor.exists_members?_of_mem hp
    rcases isAssignable_iff.mp ha with hany | ⟨steps, hclimb⟩
    · -- an untyped slot has no properties
      rw [he, Option.any_some] at hany
      rw [Descriptor.members?, Descriptor.shape_of_isAny hany] at hn
      cases hn
    · obtain ⟨i, hi⟩ := List.mem_iff_getElem?.mp hpn
      obtain ⟨q, hq, hnamed⟩ := h.keepsPlaces_of_climb hr hd hclimb he hn i p hi
      have hqmem : q ∈ d.properties := List.mem_of_getElem? hq
      exact ⟨q, hproperties ▸ hqmem, Descriptor.property?_of_mem (h.distinct hd) hqmem hnamed⟩
  · rw [hmade.primaryId] at hi
    obtain ⟨hlt, hprimary, -⟩ := List.findIdx?_eq_some_iff_getElem.mp hi
    exact ⟨m.properties[i], List.getElem?_eq_getElem hlt, hprimary⟩
  · obtain ⟨type, hparameters⟩ := hmade.constructor
    obtain ⟨p, hp, hname, -⟩ := parameters_declared hparameters c hc
    refine ⟨p, hp, hname, Descriptor.property?_of_mem (h.distinct hd) (hproperties ▸ hp) ?_⟩
    rw [← hname]
    exact Text.sameIgnoringCase_refl p.name

/-- A tool, a saw and a chain saw, each of which spells what it inherits in its own way. -/
def tools : Registry :=
  let tool : SourceType :=
    { SourceType.bare "Tool" .resource with
      properties := [.primaryId "Id" (.value .int32), .ofType "Name" (.value .string)] }
  let saw : SourceType :=
    { SourceType.bare "Saw" .resource with
      base := some "Tool"
      properties := [.ofType "Teeth" (.value .int32), .ofType "NAME" (.value .string)] }
  let chainSaw : SourceType :=
    { SourceType.bare "ChainSaw" .resource with
      base := some "Saw"
      constructor := some ["fuel", "Name"]
      properties := [.ofType "name" (.value .string), .ofType "Fuel" (.value .string),
        .ofType "TEETH" (.value .int64)] }
  ((Registry.empty.withType tool).withType saw).withType chainSaw

theorem chainSaw_starts_with_saw : ∃ (g : TypeGraph) (id b : TypeId) (d base : Descriptor) (m n : Members),
    tools.IsMade ∧ g.IsReached tools ∧ g.table.get? id = some d ∧ d.members? = some m ∧
      m.base = some b ∧ g.table.get? b = some base ∧ base.members? = some n ∧
      m.properties.map (·.name) = ["Id", "name", "TEETH", "Fuel"] ∧
      n.properties.map (·.name) = ["Id", "NAME", "Teeth"] ∧ n.properties.length ≤ m.properties.length := by
  have hmade : tools.IsMade := ((Registry.IsMade.empty.withType _).withType _).withType _
  have hnames : ((ofRegistry tools).toOption.bind fun g =>
      ((g.table.byNative.lookup (.named "ChainSaw")).bind g.table.get?).bind fun d => d.members?.bind fun m =>
        m.base.bind fun b => (g.table.get? b).bind fun base => base.members?.map fun n =>
          (m.properties.map (·.name), n.properties.map (·.name))) =
      some (["Id", "name", "TEETH", "Fuel"], ["Id", "NAME", "Teeth"]) := by decide +kernel
  obtain ⟨g, hg, hnames⟩ := Option.bind_eq_some_iff.mp hnames
  obtain ⟨d, hd, hnames⟩ := Option.bind_eq_some_iff.mp hnames
  obtain ⟨id, -, hd⟩ := Option.bind_eq_some_iff.mp hd
  obtain ⟨m, hm, hnames⟩ := Option.bind_eq_some_iff.mp hnames
  obtain ⟨b, hb, hnames⟩ := Option.bind_eq_some_iff.mp hnames
  obtain ⟨base, hbase, hnames⟩ := Option.bind_eq_some_iff.mp hnames
  obtain ⟨n, hn, hnames⟩ := Option.map_eq_some_iff.mp hnames
  obtain ⟨hown, habove⟩ := Prod.mk.inj hnames
  have hreached : g.IsReached tools := isReached_of_toOption hg
  exact ⟨g, id, b, d, base, m, n, hmade, hreached, hd, hm, hb, hbase, hn, hown, habove,
    ((tables_start_with_bases hmade hreached hd hm).2.1 b base n hb hbase hn).1⟩

end TypeGraph

end ResourceQuery
