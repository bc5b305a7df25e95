import ResourceQuery.Proofs.Type.Description
import ResourceQuery.Proofs.Type.Resolution

set_option autoImplicit false

/-! # Types at the root of a collection

The instances of a resource type are in the collection of the highest resource type that it inherits from, if no
other is declared. That type is at the root of its own collection (`TypeGraph.Arises.exists_root`), which a
graph does not store but makes out for each type anew: so it follows from what the chains of the two types have in
common. The chain of a type that is passed on the way to the root is the part of the chain above it
(`Registry.inheritanceChain_of_append`).

No type and no enum may share their names, or the name of the root may not lead there.
-/

namespace ResourceQuery

/-! ## Chains -/

namespace Registry

variable {r : Registry} {chain before after : List SourceType} {source : SourceType} {name : String}

theorem exists_upper_of_chainAbove (hkeyed : r.KeyedByName) {fuel : Nat} {below : List SourceType}
    (hfuel : fuel ≤ r.types.length + 1) (h : r.chainAbove fuel below name = .ok chain) :
    ∃ upper, chain = upper ++ below ∧ ∀ before source after, upper = before ++ source :: after →
      r.sourceType? source.name = some source ∧ r.inheritanceChain source.name = .ok (before ++ [source]) := by
  induction fuel generalizing below name with
  | zero => cases h
  | succ fuel ih =>
      have hwhole := h
      unfold chainAbove at h
      cases hsource : r.sourceType? name with
      | none =>
          rw [hsource] at h
          cases h
      | some source =>
          rw [hsource] at h
          dsimp only at h
          have hname : source.name = name := hkeyed name source hsource
          -- the chain of the type itself, without what is below
          have hself : ∀ upper, chain = upper ++ below → r.inheritanceChain source.name = .ok upper := by
            intro upper hupper
            rw [← List.nil_append below] at hwhole
            obtain ⟨upper', hchain, happend⟩ := chainAbove_append hwhole hfuel
            have hsame : upper' = upper := List.append_cancel_right (happend.symm.trans hupper)
            rw [hname, inheritanceChain, hchain, hsame]
          by_cases hpassed : (below.any (·.name == source.name)) = true
          · rw [if_pos hpassed] at h
            cases h
          · rw [if_neg hpassed] at h
            cases hbase : source.base with
            | none =>
                rw [hbase] at h
                cases h
                refine ⟨[source], rfl, fun before other after hsplit => ?_⟩
                obtain ⟨rfl, rfl, rfl⟩ : before = [] ∧ source = other ∧ [] = after := by
                  cases before with
                  | nil =>
                      cases hsplit
                      exact ⟨rfl, rfl, rfl⟩
                  | cons first rest => cases rest <;> cases hsplit
                exact ⟨hname ▸ hsource, hself [source] rfl⟩
            | some base =>
                rw [hbase] at h
                obtain ⟨upper, rfl, hupper⟩ := ih (Nat.le_of_succ_le hfuel) h
                refine ⟨upper ++ [source], by rw [List.append_assoc]; rfl, fun before other after hsplit => ?_⟩
                rcases List.eq_nil_or_concat after with rfl | ⟨rest, last, rfl⟩
                · obtain ⟨hbefore, hlast⟩ := List.append_inj' hsplit rfl
                  cases hlast
                  rw [← hbefore]
                  exact ⟨hname ▸ hsource, hself _ (by rw [List.append_assoc]; rfl)⟩
                · refine hupper before other rest ?_
                  have happend : upper ++ [source] = (before ++ other :: rest) ++ [last] := by
                    rw [hsplit, List.concat_eq_append, List.append_assoc, List.cons_append]
                  exact (List.append_inj' happend rfl).1

/-- A type that is passed on the way to the root is registered, and its chain ends with it. -/
theorem inheritanceChain_of_append (hkeyed : r.KeyedByName)
    (h : r.inheritanceChain name = .ok (before ++ source :: after)) :
    r.sourceType? source.name = some source ∧ r.inheritanceChain source.name = .ok (before ++ [source]) := by
  obtain ⟨upper, hchain, hupper⟩ := exists_upper_of_chainAbove hkeyed (Nat.le_refl _) h
  exact hupper before source after (by rw [← hchain.symm, List.append_nil])

end Registry

namespace Resolution

open TypeTable

/-! ## Addresses as they are looked up -/

/-- The first step changes nothing. -/
def still : Comparison where
  Related A x _ := ∀ s a s', x.runOn s = (.ok a, s') → s' = s ∧ ∃ b, A a b
  related_pure {_ _ _ b} hab := by
    intro s a s' hrun
    cases hrun
    exact ⟨rfl, b, hab⟩
  related_bind hx hf := by
    intro s c s' hrun
    obtain ⟨a, s₁, ha, hrest⟩ := exists_of_bind hrun
    obtain ⟨rfl, b, hab⟩ := hx s a s₁ ha
    exact hf a b hab s₁ c s' hrest
  related_settled outcome := by
    intro s a s' hrun
    obtain ⟨-, rfl⟩ := eq_of_settled hrun
    exact ⟨rfl, a, rfl⟩

section Address

variable {registry : Registry} {t : TypeTable} {s s' : Session} {native : NativeType} {id : TypeId}
  {source : SourceType} {chain : List SourceType} {arguments : List NativeType} {name : String}
  {isNullable : Bool} {contents : Resolver → TypeId → Resolution Contents} {c : Contents} {a : ResourceAddress}

theorem related_still (registry : Registry) (native : NativeType) :
    still.Related Eq (find registry native) (find registry native) :=
  fun _ id _ hrun => ⟨(lookup_of_find hrun).1, id, rfl⟩

/-- A source type is addressed as its address is looked up, if it is a resource type at all. -/
theorem shape_of_sourceContents
    (hrun : (sourceContents registry (find registry) source chain arguments name id).runOn s = (.ok c, s')) :
    (source.kind = .valueObject ∧ ∃ m, c.shape = .structured m) ∨
      (source.kind = .resource ∧ ∃ m a, c.shape = .resource m a ∧
        ∃ s'', (address registry (find registry) source chain id).runOn s = (.ok a, s'')) := by
  have hfind := related_still registry
  obtain ⟨base, s₁, hbase, hrest⟩ := exists_of_bind hrun
  obtain ⟨hsame, -⟩ := still.related_baseOf hfind _ _ _ _ hbase
  obtain ⟨ids, s₂, hids, hrest⟩ := exists_of_bind hrest
  obtain ⟨hsame₂, -⟩ := still.related_each hfind _ _ _ _ hids
  obtain ⟨properties, s₃, hproperties, hrest⟩ := exists_of_bind hrest
  obtain ⟨hsame₃, -⟩ := still.related_inherit hfind _ (rfl : id = id) _ .nil _ _ _ hproperties
  obtain ⟨constructor, s₄, hconstructor, hrest⟩ := exists_of_bind hrest
  obtain ⟨-, hsame₄⟩ := eq_of_settled hconstructor
  obtain ⟨shape, s₅, hshape, hpure⟩ := exists_of_bind hrest
  rw [hsame₄, hsame₃, hsame₂, hsame] at hshape
  cases hpure
  unfold shapeOf at hshape
  cases hkind : source.kind with
  | valueObject =>
      rw [hkind] at hshape
      cases hshape
      exact .inl ⟨rfl, _, rfl⟩
  | resource =>
      rw [hkind] at hshape
      obtain ⟨a, s₆, haddress, hpure⟩ := exists_of_bind hshape
      cases hpure
      exact .inr ⟨rfl, _, a, rfl, _, haddress⟩

/-- The collection is that of the type itself, or of the type that its owner's name leads to. -/
theorem uriBase_of_address
    (hrun : (address registry (find registry) source chain id).runOn s = (.ok a, s')) :
    (collectionOwner source chain = source.name ∧ a.uriBase = id) ∨
      (collectionOwner source chain ≠ source.name ∧
        s.table.byNative.lookup (.named (collectionOwner source chain)) = some a.uriBase) := by
  obtain ⟨uriBase, s₁, hbase, hrun⟩ := exists_of_bind hrun
  obtain ⟨parent, s₂, -, hpure⟩ := exists_of_bind hrun
  cases hpure
  unfold numberOf at hbase
  split at hbase
  · rename_i howner
    cases hbase
    exact .inl ⟨howner, rfl⟩
  · rename_i howner
    exact .inr ⟨howner, (lookup_of_find hbase).2⟩

/-- A resource type is a source type, and addressed as its address is looked up. -/
theorem Owns.exists_address (howns : Owns registry native name isNullable contents)
    (hrun : (contents (find registry) id).runOn s = (.ok c, s')) {m : Members} (hshape : c.shape = .resource m a) :
    ∃ source chain, (∃ key, registry.sourceType? key = some source) ∧
      registry.inheritanceChain source.name = .ok chain ∧
      ∃ s'', (address registry (find registry) source chain id).runOn s = (.ok a, s'') := by
  cases howns with
  | value kind =>
      cases hrun
      cases hshape
  | enum henum =>
      cases hrun
      cases hshape
  | optional hplain =>
      obtain ⟨innerId, s₁, -, hpure⟩ := exists_of_bind hrun
      cases hpure
      rcases plainShape?_cases hplain with ⟨kind, rfl⟩ | ⟨members, rfl⟩ <;> cases hshape
  | list element =>
      obtain ⟨elementId, s₁, -, hpure⟩ := exists_of_bind hrun
      cases hpure
      cases hshape
  | map value =>
      obtain ⟨keyId, s₁, -, hrest⟩ := exists_of_bind hrun
      obtain ⟨valueId, s₂, -, hpure⟩ := exists_of_bind hrest
      cases hpure
      cases hshape
  | @source _ source chain arguments hplain hsource hchain =>
      rcases shape_of_sourceContents hrun with ⟨-, m', hm'⟩ | ⟨-, m', a', ha', s'', haddress⟩
      · rw [hm'] at hshape
        cases hshape
      · rw [ha'] at hshape
        cases hshape
        exact ⟨source, chain, hsource, hchain, s'', haddress⟩

end Address

end Resolution

/-! ## Roots -/

namespace Registry

/-- No collection is declared other than by inheritance. -/
def DeclaresNoBase (r : Registry) : Prop :=
  ∀ entry ∈ r.types, entry.2.uriBase = none

/-- No name is that of an enum and of a source type. -/
def KeepsEnumsApart (r : Registry) : Prop :=
  ∀ entry ∈ r.enums, (r.sourceType? entry.1).isNone = true

variable {r : Registry} {source : SourceType} {name : String}

theorem DeclaresNoBase.uriBase_eq_none (h : r.DeclaresNoBase) (hsource : r.sourceType? name = some source) :
    source.uriBase = none :=
  h (name, source) (Entries.mem_of_get? hsource)

theorem KeepsEnumsApart.enumMembers?_eq_none (h : r.KeepsEnumsApart) (hsource : r.sourceType? name = some source) :
    r.enumMembers? name = none := by
  cases henum : r.enumMembers? name with
  | none => rfl
  | some members =>
      have hnone := h (name, members) (Entries.mem_of_get? henum)
      rw [hsource] at hnone
      cases hnone

end Registry

namespace TypeTable

open Resolution

variable {registry : Registry} {t : TypeTable} {id : TypeId} {d : Descriptor} {a : ResourceAddress}

/-- The form of a source type that a name leads to. -/
theorem Explained.exists_chain_of_named (ht : t.Explained registry) {root : SourceType} {i : TypeId}
    (hroot : registry.sourceType? root.name = some root) (henum : registry.enumMembers? root.name = none)
    (hi : t.byNative.lookup (.named root.name) = some i) {e : Descriptor} (he : t.get? i = some e) :
    e.name = root.name ∧ ∃ chain s, registry.inheritanceChain root.name = .ok chain ∧
      (sourceContents registry (find registry) root chain [] root.name i).runOn (.begin t) =
        (.ok ⟨e.arguments, e.shape⟩, s) := by
  have hform : form registry (.named root.name) =
      if root.isGeneric then .none (.notSupported (.genericWithoutArguments root.name root.typeParameters.length))
      else sourceForm registry (.named root.name) root [] := by
    simp only [form, namedForm, henum, hroot]
  have hexplains := ht.explains _ _ hi
  rw [Explains, hform] at hexplains
  cases hgeneric : root.isGeneric with
  | true =>
      rw [hgeneric, if_pos rfl] at hexplains
      exact hexplains.elim
  | false =>
      rw [hgeneric, if_neg Bool.false_ne_true, sourceForm] at hexplains
      cases hchain : registry.inheritanceChain root.name with
      | error fault =>
          rw [hchain] at hexplains
          exact hexplains.elim
      | ok chain =>
          rw [hchain] at hexplains
          obtain ⟨-, hname, -, hfinds⟩ := hexplains e he
          exact ⟨hname, chain, _, rfl, hfinds (.begin t) fun _ _ h => h⟩

/-- **The type whose collection holds the instances of a resource type is at the root of its own.** -/
theorem Explained.exists_root (ht : t.Explained registry) (hcomplete : t.IsConsistent)
    (hkeyed : registry.KeyedByName) (hapart : registry.KeepsEnumsApart) (hbase : registry.DeclaresNoBase)
    (hd : t.get? id = some d) (ha : d.address? = some a) :
    ∃ e b, t.get? a.uriBase = some e ∧ e.address? = some b ∧ b.uriBase = a.uriBase := by
  obtain ⟨native, name, isNullable, contents, -, hform, -, -, hfinds⟩ := ht.exists_form hd
  obtain ⟨m, hshape⟩ : ∃ m, d.shape = .resource m a := by
    unfold Descriptor.address? at ha
    split at ha
    · rename_i m a' hshape
      cases ha
      exact ⟨m, hshape⟩
    · cases ha
  obtain ⟨source, chain, ⟨key, hsource⟩, hchain, s, haddress⟩ :=
    (owns_of_form hform).exists_address (hfinds (.begin t) fun _ _ h => h) hshape
  have howner : collectionOwner source chain = ((chain.find? (·.kind = .resource)).getD source).name := by
    rw [collectionOwner, hbase.uriBase_eq_none hsource, Option.getD_none]
  rcases uriBase_of_address haddress with ⟨-, hself⟩ | ⟨hother, hlookup⟩
  · exact ⟨d, a, hself ▸ hd, ha, rfl⟩
  · -- the name leads to the highest resource type in the chain
    cases hfirst : chain.find? (·.kind = .resource) with
    | none =>
        rw [howner, hfirst, Option.getD_none] at hother
        exact absurd rfl hother
    | some root =>
        rw [howner, hfirst, Option.getD_some] at hlookup
        obtain ⟨hkind, before, after, hsplit, hhigher⟩ := List.find?_eq_some_iff_append.mp hfirst
        obtain ⟨hroot, hrootChain⟩ := Registry.inheritanceChain_of_append hkeyed (hsplit ▸ hchain)
        obtain ⟨e, he⟩ := hcomplete.exists_of_lookup hlookup
        obtain ⟨-, chain', s', hchain', hcontents⟩ := ht.exists_chain_of_named hroot
          (hapart.enumMembers?_eq_none hroot) hlookup he
        rw [hrootChain] at hchain'
        cases hchain'
        have hrootOwner : collectionOwner root (before ++ [root]) = root.name := by
          have hnone : before.find? (·.kind = .resource) = none := by
            rw [List.find?_eq_none]
            intro other hother
            simpa using hhigher other hother
          rw [collectionOwner, hbase.uriBase_eq_none hroot, Option.getD_none, List.find?_append, hnone, Option.none_or,
            List.find?_singleton, if_pos hkind, Option.getD_some]
        rcases shape_of_sourceContents hcontents with ⟨hvalue, -⟩ | ⟨-, m', b, hb, s'', hrun⟩
        · rw [hvalue] at hkind
          cases hkind
        · refine ⟨e, b, he, ?_, ?_⟩
          · have heshape : e.shape = .resource m' b := hb
            rw [Descriptor.address?, heshape]
          · rcases uriBase_of_address hrun with ⟨-, hself⟩ | ⟨-, hthere⟩
            · exact hself
            · rw [hrootOwner] at hthere
              exact Option.some.inj (hthere.symm.trans hlookup)

end TypeTable

namespace TypeGraph

variable {g g' : TypeGraph} {registry : Registry} {id : TypeId} {d : Descriptor} {a : ResourceAddress}

theorem IsExplained.grow (h : g.IsExplained registry) (hgrows : g.GrowsTo g') : g'.IsExplained registry := by
  induction hgrows with
  | refl => exact h
  | resolve _ native ih => exact ih.resolveWithin _ native

/-- **The type that holds the instances of a resource type is the root of its own collection.** -/
theorem Arises.exists_root (hg : g.Arises) (hapart : g.registry.KeepsEnumsApart)
    (hbase : g.registry.DeclaresNoBase) (hd : g.table.get? id = some d) (ha : d.address? = some a) :
    ∃ e b, g.table.get? a.uriBase = some e ∧ e.address? = some b ∧ b.uriBase = a.uriBase := by
  obtain ⟨r, g₀, hkeyed, hmade, hgrown⟩ := hg
  obtain ⟨rfl, hexplained⟩ := (explained_after hmade []).grow hgrown
  exact hexplained.exists_root (hgrown.tidy (tidy_ofRegistry hmade)).isConsistent hkeyed hapart hbase hd ha

end TypeGraph

end ResourceQuery
