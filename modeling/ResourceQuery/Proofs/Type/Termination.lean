import Mathlib.Data.List.MinMax
import ResourceQuery.Proofs.Data.Entries
import ResourceQuery.Proofs.Type.Growth

set_option autoImplicit false

/-! # When resolutions come to an end

How deep a resolution goes is bounded by a parameter. Unless the bound cuts a resolution off, it does not
matter (`agree_run`); so a resolution comes to an end if some bound does not cut it off.

It comes to an end if the types that it may come to are finitely many
(`TypeGraph.exists_bound_of_closed`): going down, each type gets a number before its parts are resolved,
and a type with a number is not gone into again. Types that wait for another before they get a number,
optional types and proxies, only do so for a few levels (`rank`). That a generic definition mentions
itself is no harm then, as long as the arguments do not grow.

If they do grow there is no end to it (`TypeGraph.trees_endless`): no bound is large enough.
-/

namespace ResourceQuery

namespace Resolution

variable {α β : Type} {registry : Registry}

/-! ## The bound does not matter -/

/-- Unless `x` is cut off, `y` does the same. -/
def Agree (x y : Resolution α) : Prop :=
  ∀ s, (∀ e, (x.runOn s).1 = .error e → ¬ e.IsEndless) → y.runOn s = x.runOn s

theorem agree_refl (x : Resolution α) : Agree x x := fun _ _ => rfl

theorem agree_bind {x y : Resolution α} {f g : α → Resolution β} (hx : Agree x y)
    (hf : ∀ a, Agree (f a) (g a)) : Agree (x >>= f) (y >>= g) := by
  intro s hend
  rw [Action.runOn_bind] at hend
  have hfirst := hx s
  rw [Action.runOn_bind, Action.runOn_bind]
  cases hrun : x.runOn s with
  | mk outcome s' =>
      rw [hrun] at hend hfirst
      cases outcome with
      | error e =>
          rw [hfirst]
          intro e' he
          cases he
          exact hend e rfl
      | ok a =>
          rw [hfirst]
          · exact hf a s' hend
          · intro e he
            cases he

section Parts

variable {resolve resolve' : Resolver} (h : ∀ native, Agree (resolve native) (resolve' native))

include h

theorem agree_each (natives : List NativeType) : Agree (each resolve natives) (each resolve' natives) := by
  induction natives with
  | nil => exact agree_refl _
  | cons native rest ih =>
      exact agree_bind (h native) fun _ => agree_bind ih fun _ => agree_refl _

theorem agree_numberOf (self : String) (id : TypeId) (name : String) :
    Agree (numberOf resolve self id name) (numberOf resolve' self id name) := by
  unfold numberOf
  split
  · exact agree_refl _
  · exact h _

theorem agree_baseOf (base : Option String) : Agree (baseOf resolve base) (baseOf resolve' base) := by
  cases base with
  | none => exact agree_refl _
  | some name => exact agree_bind (h _) fun _ => agree_refl _

theorem agree_declare (arguments : List NativeType) (declaring : TypeId) (defs : List PropertyDef)
    (table : List Property) :
    Agree (declare resolve arguments declaring defs table)
      (declare resolve' arguments declaring defs table) := by
  induction defs generalizing table with
  | nil => exact agree_refl _
  | cons d rest ih => exact agree_bind (h _) fun _ => ih _

theorem agree_inherit (arguments : List NativeType) (self : String) (id : TypeId)
    (chain : List SourceType) (table : List Property) :
    Agree (inherit resolve arguments self id chain table)
      (inherit resolve' arguments self id chain table) := by
  induction chain generalizing table with
  | nil => exact agree_refl _
  | cons source rest ih =>
      exact agree_bind (agree_numberOf h _ _ _) fun _ =>
        agree_bind (agree_declare h _ _ _ _) fun table' => ih table'

theorem agree_parentOf (parent : Option ParentDef) :
    Agree (parentOf resolve parent) (parentOf resolve' parent) := by
  cases parent with
  | none => exact agree_refl _
  | some parent => exact agree_bind (h _) fun _ => agree_refl _

theorem agree_shapeOf (source : SourceType) (chain : List SourceType) (id : TypeId) (members : Members) :
    Agree (shapeOf registry resolve source chain id members)
      (shapeOf registry resolve' source chain id members) := by
  unfold shapeOf address
  split
  · exact agree_refl _
  · refine agree_bind ?_ fun _ => agree_refl _
    exact agree_bind (agree_numberOf h _ _ _) fun _ =>
      agree_bind (agree_parentOf h _) fun _ => agree_refl _

omit h in
theorem agree_enter {native : NativeType} {name : String} {isNullable : Bool}
    {contents contents' : TypeId → Resolution Contents}
    (hcontents : ∀ id, Agree (contents id) (contents' id)) :
    Agree (enter native name isNullable contents) (enter native name isNullable contents') :=
  agree_bind (agree_refl _) fun id => agree_bind (hcontents id) fun _ => agree_refl _

theorem agree_source (native : NativeType) (declared : SourceType) (arguments : List NativeType) :
    Agree (source registry resolve native declared arguments)
      (source registry resolve' native declared arguments) := by
  refine agree_bind (agree_refl _) fun chain => agree_enter fun id => ?_
  refine agree_bind (agree_baseOf h _) fun base => agree_bind (agree_each h _) fun arguments => ?_
  refine agree_bind (agree_inherit h _ _ _ _ _) fun properties => ?_
  refine agree_bind (agree_refl _) fun constructor => ?_
  exact agree_bind (agree_shapeOf h _ _ _ _) fun shape => agree_refl _

theorem agree_build (native : NativeType) :
    Agree (build registry resolve native) (build registry resolve' native) := by
  cases native with
  | value kind => exact agree_refl _
  | nullable inner =>
      exact agree_bind (h inner) fun _ => agree_bind (agree_refl _) fun d => agree_refl _
  | list element =>
      exact agree_enter fun _ => agree_bind (h element) fun _ => agree_refl _
  | map key value =>
      unfold build
      dsimp only
      split
      · exact agree_refl _
      · exact agree_enter fun _ =>
          agree_bind (h key) fun _ => agree_bind (h value) fun _ => agree_refl _
  | named name =>
      unfold build named proxy
      dsimp only
      split
      · exact agree_refl _
      · split
        · split
          · exact agree_refl _
          · exact agree_source h _ _ _
        · split
          · split
            · exact agree_bind (h _) fun _ => agree_refl _
            · exact agree_refl _
          · exact agree_refl _
  | generic definition arguments =>
      unfold build instance_
      dsimp only
      split
      · split
        · exact agree_refl _
        · split
          · exact agree_refl _
          · exact agree_source h _ _ _
      · exact agree_refl _
  | parameter index => exact agree_refl _

end Parts

/-- **A resolution that is not cut off is the same with a larger bound.** -/
theorem agree_run {depth depth' : Nat} (hle : depth ≤ depth') (native : NativeType) :
    Agree (run registry depth native) (run registry depth' native) := by
  induction depth generalizing depth' native with
  | zero =>
      -- only what leads somewhere is not cut off at once
      intro s hend
      rw [run, runOn_lookUp] at hend ⊢
      cases hlookup : s.table.byNative.lookup native with
      | none =>
          rw [hlookup] at hend
          exact absurd ⟨_, rfl⟩ (hend _ rfl)
      | some id => exact runOn_run_of_lookup hlookup depth'
  | succ depth ih =>
      cases depth' with
      | zero => cases hle
      | succ depth' =>
          have hbuild : Agree (build registry (run registry depth) native)
              (build registry (run registry depth') native) :=
            agree_build (ih (Nat.le_of_succ_le_succ hle)) native
          refine agree_bind (agree_refl _) fun known => ?_
          split
          · exact agree_refl _
          · exact hbuild

/-! ## Finitely many types -/

/-- Whatever is resolved for one of `natives` is one of them. -/
def Closed (registry : Registry) (natives : List NativeType) : Prop :=
  ∀ native ∈ natives, leads registry native ⊆ natives ∧ mentioned registry native ⊆ natives

/-- How many types in a row wait for the next before they get a number. -/
def rank (registry : Registry) : NativeType → Nat
  | .nullable inner => rank registry inner + 1
  | native => (leads registry native).length

theorem rank_lt_of_leads {native next : NativeType} (h : next ∈ leads registry native) :
    rank registry next < rank registry native := by
  cases native with
  | nullable inner =>
      rw [List.mem_singleton.mp h]
      exact Nat.lt_succ_self _
  | named name =>
      -- a proxy leads to a source type, which leads nowhere
      simp only [leads] at h
      split at h
      · rename_i target henum hsource hproxy
        split at h
        · rename_i htarget
          rw [List.mem_singleton.mp h]
          obtain ⟨source, hfound⟩ := Option.isSome_iff_exists.mp htarget
          have hnext : leads registry (.named target) = [] := by
            simp only [leads, hfound]
            split
            · rename_i heq _
              cases heq
            · rfl
          have hhere : leads registry (.named name) = [.named target] := by
            simp only [leads, henum, hsource, hproxy]
            exact if_pos htarget
          show (leads registry (.named target)).length < (leads registry (.named name)).length
          rw [hnext, hhere]
          exact Nat.one_pos
        · cases h
      · cases h
  | value kind => cases h
  | list element => cases h
  | map key value => cases h
  | generic definition arguments => cases h
  | parameter index => cases h

/-- The largest rank among `natives`. -/
def maxRank (registry : Registry) (natives : List NativeType) : Nat :=
  (natives.map (rank registry)).foldr max 0

theorem rank_le_maxRank {natives : List NativeType} {native : NativeType} (h : native ∈ natives) :
    rank registry native ≤ maxRank registry natives :=
  List.le_max_of_le' 0 (List.mem_map_of_mem h) (Nat.le_refl _)

/-- How deep resolving `native` goes at most if it stays among `natives`: each of them gets a number once,
and each may be waited for. -/
def bound (registry : Registry) (natives : List NativeType) (native : NativeType) : Nat :=
  (maxRank registry natives + 1) * natives.length + rank registry native

/-- How many of `natives` lead nowhere yet. -/
def unknown (natives : List NativeType) (s : Session) : Nat :=
  (natives.filter fun native => (s.table.byNative.lookup native).isNone).length

theorem unknown_pos {natives : List NativeType} {native : NativeType} {s : Session}
    (h : native ∈ natives) (hnew : s.table.byNative.lookup native = none) : 0 < unknown natives s := by
  apply List.length_pos_of_mem
  exact List.mem_filter.mpr ⟨h, by rw [hnew]; rfl⟩

theorem unknown_cons {natives : List NativeType} {native : NativeType} {id : TypeId} {s s' : Session}
    (h : s'.table.byNative = (native, id) :: s.table.byNative) :
    unknown natives s' = ((natives.filter fun other => (s.table.byNative.lookup other).isNone).filter
      fun other => other ≠ native).length := by
  unfold unknown
  rw [h, List.filter_filter]
  congr 1
  apply List.filter_congr
  intro other _
  rw [List.lookup_cons]
  by_cases hsame : other = native
  · simp [hsame]
  · rw [beq_eq_false_iff_ne.mpr hsame]
    simp [hsame]

theorem unknown_cons_le (natives : List NativeType) {native : NativeType} {id : TypeId} {s s' : Session}
    (h : s'.table.byNative = (native, id) :: s.table.byNative) : unknown natives s' ≤ unknown natives s := by
  rw [unknown_cons h]
  exact List.length_filter_le _ _

theorem unknown_cons_lt {natives : List NativeType} {native : NativeType} {id : TypeId} {s s' : Session}
    (h : s'.table.byNative = (native, id) :: s.table.byNative) (hnative : native ∈ natives)
    (hnew : s.table.byNative.lookup native = none) : unknown natives s' < unknown natives s := by
  rw [unknown_cons h]
  refine List.length_filter_lt_length_iff_exists.mpr ⟨native, ?_, by simp⟩
  exact List.mem_filter.mpr ⟨hnative, by rw [hnew]; rfl⟩

/-- The course of a session in which every pending number is for one of `natives`. -/
def Course.ending (natives : List NativeType) : Course where
  Holds pending _ s := unknown natives s + pending.length ≤ natives.length
  Free native := native ∈ natives
  Fails e _ := ¬ e.IsEndless

theorem Course.allows_ending (natives : List NativeType) : (ending natives).Allows where
  forget _ hs := hs
  found hs _ := hs
  reserve {pending _ s native} name hs hfree hnew := by
    have hlt : unknown natives (s.reserve native name).2 < unknown natives s :=
      unknown_cons_lt rfl hfree hnew
    have hle : unknown natives s + pending.length ≤ natives.length := hs
    show unknown natives (s.reserve native name).2 + (pending.length + 1) ≤ natives.length
    omega
  fill d hs _ _ := Nat.le_of_succ_le hs
  enter {pending _ s native} name _ _ _ hs _ _ _ :=
    Nat.le_trans (Nat.add_le_add_right (unknown_cons_le natives rfl) _) hs
  identify hs _ _ := Nat.le_trans (Nat.add_le_add_right (unknown_cons_le natives rfl) _) hs
  fails _ he := he

/-- **A resolution that stays among finitely many types is not cut off**, if the bound leaves room for every
type that has no number yet and for the types that wait for it. -/
theorem along_run_of_closed {natives : List NativeType} (hclosed : Closed registry natives) {depth : Nat}
    {pending : List TypeId} {native : NativeType} (hnative : native ∈ natives)
    (hdepth : (maxRank registry natives + 1) * (natives.length - pending.length) +
      rank registry native ≤ depth) (known : List TypeId) :
    (Course.ending natives).Along pending known (fun id => [id]) (run registry depth native) := by
  induction depth generalizing native pending known with
  | zero =>
      refine Course.along_lookUp (Course.allows_ending natives) fun s hs hnew => ?_
      -- the type itself has no number yet, so there is room for it
      have hpos := unknown_pos hnative hnew
      have hroom : unknown natives s + pending.length ≤ natives.length := hs
      have hzero : natives.length - pending.length = 0 := by
        rcases Nat.mul_eq_zero.mp (Nat.eq_zero_of_add_eq_zero_right (Nat.le_zero.mp hdepth)) with h | h
        · cases h
        · exact h
      omega
  | succ depth ih =>
      refine Course.along_lookUp (Course.allows_ending natives) fun s hs hnew => ?_
      have hpos := unknown_pos hnative hnew
      have hroom : unknown natives s + pending.length ≤ natives.length := hs
      obtain ⟨hleads, hmentioned⟩ := hclosed native hnative
      refine Course.ends_build (Course.allows_ending natives) hs hnative hnew
        (fun next hnext => ih (hleads hnext) ?_) fun id next hnext => ih (hmentioned hnext) ?_
      · have hlt := rank_lt_of_leads hnext
        omega
      · have hrank : rank registry next ≤ maxRank registry natives :=
          rank_le_maxRank (hmentioned hnext)
        have hsplit : natives.length - pending.length = natives.length - (id :: pending).length + 1 := by
          rw [List.length_cons]
          omega
        rw [hsplit, Nat.mul_succ] at hdepth
        omega

end Resolution

namespace TypeGraph

variable {registry : Registry} {g : TypeGraph}

/-- What a bound does not cut off, larger bounds leave as it is. -/
theorem resolveWithin_eq_of_le {depth depth' : Nat} (hle : depth ≤ depth') {native : NativeType}
    (hend : ∀ e, (g.resolveWithin depth native).1 = .error e → ¬ e.IsEndless) :
    g.resolveWithin depth' native = g.resolveWithin depth native := by
  have hsame : (Resolution.run g.registry depth' native.canonical).runOn (.begin g.table) =
      (Resolution.run g.registry depth native.canonical).runOn (.begin g.table) := by
    refine Resolution.agree_run hle native.canonical _ fun e he => hend e ?_
    unfold resolveWithin
    cases hrun : (Resolution.run g.registry depth native.canonical).runOn (.begin g.table) with
    | mk outcome s =>
        rw [hrun] at he
        cases he
        rfl
  unfold resolveWithin
  rw [hsame]

theorem not_isEndless_of_closed {natives : List NativeType}
    (hclosed : Resolution.Closed g.registry natives) {native : NativeType}
    (hnative : native.canonical ∈ natives) {e : Error}
    (he : (g.resolveWithin (Resolution.bound g.registry natives native.canonical) native).1 = .error e) :
    ¬ e.IsEndless := by
  have hstart : (Resolution.Course.ending natives).Holds [] [] (.begin g.table) :=
    List.length_filter_le _ _
  have hends : (Resolution.Course.ending natives).Ends [] [] (fun id => [id])
      ((Resolution.run g.registry (Resolution.bound g.registry natives native.canonical)
        native.canonical).runOn (.begin g.table)) :=
    Resolution.along_run_of_closed hclosed hnative (Nat.le_refl _) [] (.begin g.table) hstart
  cases hrun : (Resolution.run g.registry (Resolution.bound g.registry natives native.canonical)
      native.canonical).runOn (.begin g.table) with
  | mk outcome s =>
      rw [hrun] at hends
      cases outcome with
      | ok id =>
          rw [resolveWithin_of_ok hrun] at he
          cases he
      | error e' =>
          rw [resolveWithin_of_error hrun] at he
          cases he
          exact hends.2 _ rfl

theorem bound_suffices {natives : List NativeType} (hclosed : Resolution.Closed g.registry natives)
    {native : NativeType} (hnative : native.canonical ∈ natives) :
    (∀ e, (g.resolveWithin (Resolution.bound g.registry natives native.canonical) native).1 = .error e →
        ¬ e.IsEndless) ∧
      ∀ depth', Resolution.bound g.registry natives native.canonical ≤ depth' →
        g.resolveWithin depth' native =
          g.resolveWithin (Resolution.bound g.registry natives native.canonical) native :=
  ⟨fun _ => not_isEndless_of_closed hclosed hnative, fun _ hle =>
    resolveWithin_eq_of_le hle fun _ => not_isEndless_of_closed hclosed hnative⟩

/-- **Resolving a type expression comes to an end if the types that it may come to are finitely many.** There
is then a bound that cuts it off in no graph of the registry, and any larger bound gives the same. -/
theorem exists_bound_of_closed {natives : List NativeType} (hclosed : Resolution.Closed registry natives)
    {native : NativeType} (hnative : native.canonical ∈ natives) :
    ∃ depth, ∀ g : TypeGraph, g.registry = registry →
      (∀ e, (g.resolveWithin depth native).1 = .error e → ¬ e.IsEndless) ∧
        ∀ depth', depth ≤ depth' → g.resolveWithin depth' native = g.resolveWithin depth native := by
  refine ⟨Resolution.bound registry natives native.canonical, fun g hg => ?_⟩
  subst hg
  exact bound_suffices hclosed hnative

/-- A tree whose nodes are of the type itself, at the same argument. -/
def nodes : Registry :=
  Registry.empty.withType
    { SourceType.bare "Node" .valueObject with
      typeParameters := ["T"]
      properties := [.ofType "Value" (.parameter 0),
        .ofType "Next" (.generic "Node" [.parameter 0]),
        .ofType "Children" (.list (.generic "Node" [.parameter 0]))] }

theorem nodes_bounded :
    ∃ depth, ∀ g : TypeGraph, g.registry = nodes →
      (∀ e, (g.resolveWithin depth (.generic "Node" [.value .int32])).1 = .error e → ¬ e.IsEndless) ∧
        ∀ depth', depth ≤ depth' → g.resolveWithin depth' (.generic "Node" [.value .int32]) =
          g.resolveWithin depth (.generic "Node" [.value .int32]) :=
  -- everything such a node comes to
  let natives : List NativeType := [.generic "Node" [.value .int32], .value .int32,
    .list (.generic "Node" [.value .int32])]
  have hclosed : ∀ native ∈ natives,
      (∀ next ∈ Resolution.leads nodes native, next ∈ natives) ∧
        ∀ next ∈ Resolution.mentioned nodes native, next ∈ natives := by
    decide +kernel
  exists_bound_of_closed hclosed (by decide +kernel)

end TypeGraph

/-! ## Registries without generic definitions -/

namespace Resolution

open NativeType

variable {registry : Registry}

/-- The expression, and the expressions in it that are no arguments. -/
def within : NativeType → List NativeType
  | .list element => .list element :: within element
  | .map k v => .map k v :: (within k ++ within v)
  | .nullable inner => .nullable inner :: within inner
  | native => [native]

theorem self_mem_within (native : NativeType) : native ∈ within native := by
  cases native <;> exact List.mem_cons_self

theorem within_subset {native other : NativeType} (h : other ∈ within native) :
    within other ⊆ within native := by
  induction native using within.induct with
  | case1 element ih =>
      rcases List.mem_cons.mp h with rfl | h
      · exact List.Subset.refl _
      · exact List.subset_cons_of_subset _ (ih h)
  | case2 k v ihk ihv =>
      rcases List.mem_cons.mp h with rfl | h
      · exact List.Subset.refl _
      · rcases List.mem_append.mp h with h | h
        · exact List.subset_cons_of_subset _ (List.subset_append_of_subset_left _ (ihk h))
        · exact List.subset_cons_of_subset _ (List.subset_append_of_subset_right _ (ihv h))
  | case3 inner ih =>
      rcases List.mem_cons.mp h with rfl | h
      · exact List.Subset.refl _
      · exact List.subset_cons_of_subset _ (ih h)
  | case4 native hlist hmap hnullable =>
      rw [within.eq_4 native hlist hmap hnullable] at h
      rw [List.mem_singleton.mp h]
      exact List.Subset.refl _

/-- The type expressions that a source type is declared with. -/
def declaredTypes (source : SourceType) : List NativeType :=
  .named source.name :: ((source.base.map NativeType.named).toList ++
    source.genericArguments.map canonical ++ source.properties.map (propertyType []) ++
    (source.uriBase.map NativeType.named).toList ++
    (source.parent.map fun parent => NativeType.named parent.type).toList)

/-- The type expressions that are declared in a registry. -/
def declaredIn (registry : Registry) : List NativeType :=
  (registry.types.flatMap fun entry => declaredTypes entry.2) ++
    registry.proxies.map fun entry => NativeType.named entry.2

theorem mem_declaredIn {source : SourceType} {key : String} (h : (key, source) ∈ registry.types)
    {native : NativeType} (hnative : native ∈ declaredTypes source) : native ∈ declaredIn registry :=
  List.mem_append_left _ (List.mem_flatMap.mpr ⟨_, h, hnative⟩)

theorem mem_types_of_chainAbove {fuel : Nat} {below chain : List SourceType} {name : String}
    (h : registry.chainAbove fuel below name = .ok chain)
    (hbelow : ∀ source ∈ below, ∃ key, (key, source) ∈ registry.types) :
    ∀ source ∈ chain, ∃ key, (key, source) ∈ registry.types := by
  induction fuel generalizing below name with
  | zero => cases h
  | succ fuel ih =>
      unfold Registry.chainAbove at h
      cases hsource : registry.sourceType? name with
      | none =>
          rw [hsource] at h
          cases h
      | some source =>
          rw [hsource] at h
          have hnext : ∀ other ∈ source :: below, ∃ key, (key, other) ∈ registry.types := by
            intro other hother
            rcases List.mem_cons.mp hother with rfl | hother
            · exact ⟨name, Entries.mem_of_get? hsource⟩
            · exact hbelow other hother
          dsimp only at h
          split at h
          · cases h
          · split at h
            · cases h
              exact hnext
            · exact ih h hnext

theorem numberTypes_subset (self name : String) : numberTypes self name ⊆ [.named name] := by
  unfold numberTypes
  split
  · exact List.nil_subset _
  · exact List.Subset.refl _

/-- What a source type without parameters mentions is declared. -/
theorem instanceTypes_subset {source : SourceType} {key : String}
    (h : (key, source) ∈ registry.types) : instanceTypes registry source [] ⊆ declaredIn registry := by
  unfold instanceTypes
  cases hchain : registry.inheritanceChain source.name with
  | error e => exact List.nil_subset _
  | ok chain =>
      have hall := mem_types_of_chainAbove hchain (by simp)
      have hname : ∀ other ∈ chain, NativeType.named other.name ∈ declaredIn registry := by
        intro other hother
        obtain ⟨otherKey, hmem⟩ := hall other hother
        exact mem_declaredIn hmem List.mem_cons_self
      intro native hnative
      simp only [sourceTypes, List.mem_append] at hnative
      rcases hnative with ((hbase | harguments) | hproperties) | haddress
      · exact mem_declaredIn h (by simp [declaredTypes, hbase])
      · refine mem_declaredIn h ?_
        have hdeclared : native ∈ source.genericArguments.map canonical := harguments
        simp [declaredTypes, hdeclared]
      · obtain ⟨other, hother, hmem⟩ := List.mem_flatMap.mp hproperties
        rcases List.mem_append.mp hmem with hmem | hmem
        · rw [List.mem_singleton.mp (numberTypes_subset _ _ hmem)]
          exact hname other hother
        · obtain ⟨otherKey, hentry⟩ := hall other hother
          exact mem_declaredIn hentry (by simp [declaredTypes, hmem])
      · split at haddress
        · rcases List.mem_append.mp haddress with howner | hparent
          · rw [List.mem_singleton.mp (numberTypes_subset _ _ howner)]
            unfold collectionOwner
            cases huri : source.uriBase with
            | some name => exact mem_declaredIn h (by simp [declaredTypes, huri])
            | none =>
                cases hfind : chain.find? (·.kind = .resource) with
                | none => exact mem_declaredIn h List.mem_cons_self
                | some root => exact hname root (List.mem_of_find?_eq_some hfind)
          · -- the parent is declared by some type of the chain
            unfold parentDef? at hparent
            cases hfind : chain.reverse.findSome? (·.parent) with
            | none =>
                rw [hfind] at hparent
                cases hparent
            | some parent =>
                rw [hfind] at hparent
                obtain ⟨other, hother, hdeclares⟩ := List.exists_of_findSome?_eq_some hfind
                obtain ⟨otherKey, hentry⟩ := hall other (List.mem_reverse.mp hother)
                rw [List.mem_singleton.mp hparent]
                exact mem_declaredIn hentry (by simp [declaredTypes, hdeclares])
        · cases haddress

theorem closed_of_noGenerics (h : ∀ entry ∈ registry.types, entry.2.isGeneric = false)
    (native : NativeType) : Closed registry ((native :: declaredIn registry).flatMap within) := by
  have hdeclared : ∀ {other}, other ∈ declaredIn registry →
      other ∈ (native :: declaredIn registry).flatMap within := fun hother =>
    List.mem_flatMap.mpr ⟨_, List.mem_cons_of_mem _ hother, self_mem_within _⟩
  intro other hother
  obtain ⟨seed, hseed, hmem⟩ := List.mem_flatMap.mp hother
  have hinside : ∀ {part}, part ∈ within other →
      part ∈ (native :: declaredIn registry).flatMap within := fun hpart =>
    List.mem_flatMap.mpr ⟨seed, hseed, within_subset hmem hpart⟩
  refine ⟨fun next hnext => ?_, fun next hnext => ?_⟩
  · cases other with
    | nullable inner =>
        rw [List.mem_singleton.mp hnext]
        exact hinside (List.mem_cons_of_mem _ (self_mem_within _))
    | named name =>
        simp only [leads] at hnext
        split at hnext
        · rename_i target henum hsource hproxy
          split at hnext
          · rw [List.mem_singleton.mp hnext]
            exact hdeclared (List.mem_append_right _
              (List.mem_map_of_mem (Entries.mem_of_get? hproxy)))
          · cases hnext
        · cases hnext
    | value kind => cases hnext
    | list element => cases hnext
    | map key value => cases hnext
    | generic definition arguments => cases hnext
    | parameter index => cases hnext
  · cases other with
    | list element =>
        rw [List.mem_singleton.mp hnext]
        exact hinside (List.mem_cons_of_mem _ (self_mem_within _))
    | map key value =>
        simp only [mentioned] at hnext
        split at hnext
        · rcases List.mem_cons.mp hnext with rfl | hnext
          · exact hinside (List.mem_cons_of_mem _ (List.mem_append_left _ (self_mem_within _)))
          · rw [List.mem_singleton.mp hnext]
            exact hinside (List.mem_cons_of_mem _ (List.mem_append_right _ (self_mem_within _)))
        · cases hnext
    | named name =>
        simp only [mentioned] at hnext
        split at hnext
        · rename_i source henum hsource
          split at hnext
          · cases hnext
          · exact hdeclared (instanceTypes_subset (Entries.mem_of_get? hsource) hnext)
        · cases hnext
    | generic definition arguments =>
        simp only [mentioned] at hnext
        split at hnext
        · rename_i source hsource
          rw [if_neg] at hnext
          · cases hnext
          · rw [h _ (Entries.mem_of_get? hsource)]
            simp
        · cases hnext
    | value kind => cases hnext
    | nullable inner => cases hnext
    | parameter index => cases hnext

end Resolution

/-- **Where nothing generic is declared, resolving any type expression comes to an end.** -/
theorem TypeGraph.exists_bound_of_noGenerics {registry : Registry}
    (h : ∀ entry ∈ registry.types, entry.2.isGeneric = false) (native : NativeType) :
    ∃ depth, ∀ g : TypeGraph, g.registry = registry →
      (∀ e, (g.resolveWithin depth native).1 = .error e → ¬ e.IsEndless) ∧
        ∀ depth', depth ≤ depth' → g.resolveWithin depth' native = g.resolveWithin depth native := by
  have hclosed := Resolution.closed_of_noGenerics h native.canonical
  have hnative : native.canonical ∈
      (native.canonical :: Resolution.declaredIn registry).flatMap Resolution.within :=
    List.mem_flatMap.mpr ⟨_, List.mem_cons_self, Resolution.self_mem_within _⟩
  refine ⟨Resolution.bound registry ((native.canonical :: Resolution.declaredIn registry).flatMap
    Resolution.within) native.canonical, fun g hg => ?_⟩
  subst hg
  exact bound_suffices hclosed hnative

/-! ## Without an end -/

namespace Resolution

/-- The step is cut off. -/
def CutOff {α : Type} (x : Resolution α) (s : Session) : Prop :=
  ∃ e, (x.runOn s).1 = .error e ∧ e.IsEndless

section CutOff

variable {α β : Type} {s s' : Session}

theorem CutOff.bind {x : Resolution α} (h : CutOff x s) (f : α → Resolution β) : CutOff (x >>= f) s := by
  obtain ⟨e, he, hendless⟩ := h
  refine ⟨e, ?_, hendless⟩
  rw [Action.runOn_bind]
  cases hrun : x.runOn s with
  | mk outcome s' =>
      rw [hrun] at he
      cases he
      rfl

theorem cutOff_bind_of_ok {x : Resolution α} {a : α} (h : x.runOn s = (.ok a, s')) {f : α → Resolution β}
    (hf : CutOff (f a) s') : CutOff (x >>= f) s := by
  unfold CutOff
  rw [Action.runOn_bind, h]
  exact hf

theorem cutOff_lookUp {native : NativeType} {build : Resolution TypeId}
    (hnew : s.table.byNative.lookup native = none) (h : CutOff build s) :
    CutOff (lookUp native build) s := by
  unfold CutOff
  rw [runOn_lookUp, hnew]
  exact h

end CutOff

end Resolution

/-- A list of lists of numbers, `height` levels deep. -/
def NativeType.tower : (height : Nat) → NativeType
  | 0 => .value .int32
  | height + 1 => .list (tower height)

/-- The instance of the generic definition `Tree` for a tower. -/
def NativeType.treeOf (height : Nat) : NativeType :=
  .generic "Tree" [tower height]

/-- Each tree knows a tree of lists of what it holds. -/
def treeType : SourceType :=
  { SourceType.bare "Tree" .valueObject with
    typeParameters := ["T"]
    properties := [.ofType "Next" (.generic "Tree" [.list (.parameter 0)])] }

/-- The registry that declares `Tree`. -/
def trees : Registry :=
  Registry.empty.withType treeType

namespace Resolution

open NativeType

theorem canonical_tower (height : Nat) : (tower height).canonical = tower height := by
  induction height with
  | zero => rfl
  | succ height ih => exact congrArg NativeType.list ih

theorem canonical_treeOf (height : Nat) : (treeOf height).canonical = treeOf height := by
  have hfold : (treeOf height).canonical = .generic "Tree" [(tower height).canonical] := by
    simp only [treeOf, canonical, canonicalAll, applied]
    rw [show container? "Tree" = none by decide]
  rw [hfold, canonical_tower]
  rfl

theorem tower_inj {height height' : Nat} (h : tower height = tower height') : height = height' := by
  induction height generalizing height' with
  | zero =>
      cases height' with
      | zero => rfl
      | succ height' => cases h
  | succ height ih =>
      cases height' with
      | zero => cases h
      | succ height' =>
          injection h with h
          exact congrArg Nat.succ (ih h)

theorem tower_ne_treeOf (height k : Nat) : treeOf k ≠ tower height := by
  cases height with
  | zero => simp [treeOf, tower]
  | succ height => simp [treeOf, tower]

theorem cutOff_enter {native : NativeType} {name : String} {isNullable : Bool}
    {contents : TypeId → Resolution Contents} {s : Session}
    (h : ∀ id, CutOff (contents id) (s.reserve native name).2) :
    CutOff (enter native name isNullable contents) s :=
  cutOff_bind_of_ok (runOn_reserve s native name) ((h _).bind _)

theorem runOn_enter_of_ok {native : NativeType} {name : String} {isNullable : Bool}
    {contents : TypeId → Resolution Contents} {s s' : Session} {c : Contents}
    (h : (contents (s.reserve native name).1).runOn (s.reserve native name).2 = (.ok c, s')) :
    (enter native name isNullable contents).runOn s = (.ok (s.reserve native name).1,
      s'.fill ⟨(s.reserve native name).1, name, isNullable, c.arguments, c.shape⟩) := by
  unfold enter
  rw [Action.runOn_bind, runOn_reserve]
  dsimp only
  rw [Action.runOn_bind, h]
  rfl

/-- A tower is resolved or cut off; it makes no tree known. -/
theorem run_tower (depth height : Nat) (s : Session) :
    CutOff (run trees depth (tower height)) s ∨
      ∃ id s', (run trees depth (tower height)).runOn s = (.ok id, s') ∧
        ∀ k, s'.table.byNative.lookup (treeOf k) = s.table.byNative.lookup (treeOf k) := by
  -- entering a tower leaves the trees alone
  have hentered : ∀ (s : Session) height name k,
      (s.reserve (tower height) name).2.table.byNative.lookup (treeOf k) =
        s.table.byNative.lookup (treeOf k) := by
    intro s height name k
    show ((tower height, _) :: s.table.byNative).lookup (treeOf k) = _
    rw [List.lookup_cons, beq_eq_false_iff_ne.mpr (tower_ne_treeOf height k)]
  induction depth generalizing height s with
  | zero =>
      cases hlookup : s.table.byNative.lookup (tower height) with
      | some id => exact .inr ⟨id, s, runOn_run_of_lookup hlookup 0, fun k => rfl⟩
      | none => exact .inl (cutOff_lookUp hlookup ⟨_, rfl, _, rfl⟩)
  | succ depth ih =>
      cases hlookup : s.table.byNative.lookup (tower height) with
      | some id => exact .inr ⟨id, s, runOn_run_of_lookup hlookup _, fun k => rfl⟩
      | none =>
          have hstart : (run trees (depth + 1) (tower height)).runOn s =
              (build trees (run trees depth) (tower height)).runOn s := by
            rw [run, runOn_lookUp, hlookup]
          cases height with
          | zero =>
              exact .inr ⟨_, _, hstart.trans (runOn_enter_of_ok rfl), hentered s 0 ValueKind.int32.name⟩
          | succ height =>
              rcases ih height (s.reserve (tower (height + 1)) (tower (height + 1)).text).2 with
                hcut | ⟨id, s', hrun, hsame⟩
              · exact .inl (cutOff_lookUp hlookup (cutOff_enter fun _ => hcut.bind _))
              · have hcontents : (listContents (run trees depth) (tower height)).runOn
                    (s.reserve (tower (height + 1)) (tower (height + 1)).text).2 =
                    (.ok ⟨[id], .collection id⟩, s') := by
                  unfold listContents
                  rw [Action.runOn_bind, hrun]
                  rfl
                exact .inr ⟨_, _, hstart.trans (runOn_enter_of_ok hcontents), fun k =>
                  (hsame k).trans (hentered s (height + 1) _ k)⟩

/-- **Trees have no end**: each depth is too small for a tree that is not known yet. -/
theorem cutOff_treeOf (depth height : Nat) (s : Session)
    (hnew : ∀ k, height ≤ k → s.table.byNative.lookup (treeOf k) = none) :
    CutOff (run trees depth (treeOf height)) s := by
  induction depth generalizing height s with
  | zero => exact cutOff_lookUp (hnew height (Nat.le_refl _)) ⟨_, rfl, _, rfl⟩
  | succ depth ih =>
      refine cutOff_lookUp (hnew height (Nat.le_refl _)) ?_
      have hsource : build trees (run trees depth) (treeOf height) =
          source trees (run trees depth) (treeOf height) treeType [tower height] := rfl
      have hchain : (settled (trees.inheritanceChain treeType.name)).runOn s = (.ok [treeType], s) := rfl
      rw [hsource]
      refine cutOff_bind_of_ok hchain (cutOff_enter fun new => cutOff_bind_of_ok rfl ?_)
      rcases run_tower depth height (s.reserve (treeOf height) (treeOf height).text).2 with
        hcut | ⟨id, s', hrun, hsame⟩
      · exact (hcut.bind _).bind _
      · have heach : (each (run trees depth) [tower height]).runOn
            (s.reserve (treeOf height) (treeOf height).text).2 = (.ok [id], s') := by
          unfold each
          rw [Action.runOn_bind, hrun]
          rfl
        refine cutOff_bind_of_ok heach ?_
        -- the property of the tree is a tree for the next tower
        have hnext : propertyType [tower height] (.ofType "Next" (.generic "Tree" [.list (.parameter 0)])) =
            treeOf (height + 1) := canonical_treeOf (height + 1)
        have hcut : CutOff (run trees depth (treeOf (height + 1))) s' := by
          refine ih (height + 1) s' fun k hk => ?_
          rw [hsame k]
          show ((treeOf height, _) :: s.table.byNative).lookup (treeOf k) = none
          have hne : treeOf k ≠ treeOf height := by
            intro heq
            have hheight : tower k = tower height := by simpa [treeOf] using heq
            have := tower_inj hheight
            omega
          rw [List.lookup_cons, beq_eq_false_iff_ne.mpr hne]
          exact hnew k (by omega)
        have hinherit : CutOff (inherit (run trees depth) [tower height] "Tree" new [treeType] []) s' := by
          refine cutOff_bind_of_ok rfl (CutOff.bind ?_ _)
          show CutOff (run trees depth (propertyType [tower height]
            (.ofType "Next" (.generic "Tree" [.list (.parameter 0)]))) >>= _) s'
          rw [hnext]
          exact hcut.bind _
        exact hinherit.bind _

end Resolution

namespace TypeGraph

open Resolution NativeType

/-- **Resolving a tree does not come to an end**: whatever the bound, the resolution is cut off. -/
theorem trees_endless : ∃ g₀, ofRegistry trees = .ok g₀ ∧
    ∀ depth, ∃ e, (g₀.resolveWithin depth (treeOf 0)).1 = .error e ∧ e.IsEndless := by
  have hvalues : (ofRegistry trees).toOption.any (fun g =>
      g.table.byNative.map (·.1) == ValueKind.all.reverse.map NativeType.value) = true := by
    decide +kernel
  cases hmade : ofRegistry trees with
  | error e =>
      rw [hmade] at hvalues
      cases hvalues
  | ok g₀ =>
      rw [hmade] at hvalues
      have hkeys : g₀.table.byNative.map (·.1) = ValueKind.all.reverse.map NativeType.value :=
        beq_iff_eq.mp hvalues
      -- at first only the value kinds are known
      have hnew : ∀ k, 0 ≤ k → (Session.begin g₀.table).table.byNative.lookup (treeOf k) = none := by
        intro k _
        refine List.lookup_eq_none_iff.mpr fun entry hentry => ?_
        have hkey : entry.1 ∈ g₀.table.byNative.map (·.1) := List.mem_map_of_mem hentry
        rw [hkeys, List.mem_map] at hkey
        obtain ⟨kind, _, hkind⟩ := hkey
        rw [← hkind, bne_iff_ne]
        simp [treeOf]
      refine ⟨g₀, rfl, fun depth => ?_⟩
      obtain ⟨e, he, hendless⟩ := cutOff_treeOf depth 0 (.begin g₀.table) hnew
      have hsame : run g₀.registry depth (treeOf 0).canonical = run trees depth (treeOf 0) := by
        rw [registry_ofRegistry hmade, canonical_treeOf]
      cases hrun : (run g₀.registry depth (treeOf 0).canonical).runOn (.begin g₀.table) with
      | mk outcome s =>
          rw [← hsame, hrun] at he
          cases he
          exact ⟨e, by rw [resolveWithin_of_error hrun], hendless⟩

end TypeGraph

end ResourceQuery
