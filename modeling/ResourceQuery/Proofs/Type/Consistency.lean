import ResourceQuery.Proofs.Type.Growth

set_option autoImplicit false

/-! # Consistency of the type table

Between calls every number that was given out has a descriptor, and every number that a descriptor mentions
or a map leads to was given out (`TypeTable.IsConsistent`). While a resolution is under way this is not so:
the slots of the types under way are empty. What holds then is `TypeTable.Tidy`, where these slots are
excepted, and it is a course (`Course.allows_tidy`).

That a resolution makes its expression lead to the number that it answers is shown separately
(`lookup_of_run`). Several types may be entered between the reservation of the number and the end, and
optional types and proxies are entered last, possibly for the second time; so this needs that
expressions which lead somewhere are left alone (`Course.keeping`).
-/

namespace ResourceQuery

/-! ## Tables between calls and during calls -/

namespace TypeTable

/-- What holds of a table between calls. -/
structure IsConsistent (t : TypeTable) : Prop where
  /-- Every slot has a descriptor, which has the slot's number. -/
  slots : ∀ i, i < t.slots.size → ∃ d, t.get? ⟨i⟩ = some d ∧ d.id = ⟨i⟩
  mentions : ∀ id d, t.get? id = some d → ∀ i ∈ d.mentions, ∃ e, t.get? i = some e
  natives : ∀ native id, (native, id) ∈ t.byNative → ∃ d, t.get? id = some d
  names : ∀ name id, (name, id) ∈ t.byName → ∃ d, t.get? id = some d

/-- What holds of a table while the numbers `pending` wait for their descriptors and `known` are given
out. -/
structure Tidy (pending known : List TypeId) (t : TypeTable) : Prop where
  complete : ∀ id : TypeId, id.index < t.slots.size → id ∈ pending ∨ ∃ d, t.get? id = some d
  own : ∀ id d, t.get? id = some d → d.id = id
  mentions : ∀ id d, t.get? id = some d → ∀ i ∈ d.mentions, i.index < t.slots.size
  natives : ∀ native id, (native, id) ∈ t.byNative → id.index < t.slots.size
  names : ∀ name id, (name, id) ∈ t.byName → id.index < t.slots.size
  known : ∀ id ∈ known, id.index < t.slots.size

variable {t : TypeTable} {pending known : List TypeId}

theorem tidy_empty : empty.Tidy [] [] := by
  have hnone : ∀ {id d}, empty.get? id ≠ some d := fun h => by cases h
  exact
    { complete := fun id hid => by cases hid
      own := fun id d hd => absurd hd hnone
      mentions := fun id d hd => absurd hd hnone
      natives := fun native id hid => by cases hid
      names := fun name id hid => by cases hid
      known := fun id hid => by cases hid }

/-- **When nothing is pending, every number that was given out has a descriptor.** -/
theorem Tidy.isConsistent (h : t.Tidy [] known) : t.IsConsistent := by
  have hcomplete : ∀ id : TypeId, id.index < t.slots.size → ∃ d, t.get? id = some d :=
    fun id hid => (h.complete id hid).resolve_left (by simp)
  refine ⟨fun i hi => ?_, fun id d hd i hi => hcomplete i (h.mentions id d hd i hi),
    fun native id hid => hcomplete id (h.natives native id hid),
    fun name id hid => hcomplete id (h.names name id hid)⟩
  obtain ⟨d, hd⟩ := hcomplete ⟨i⟩ hi
  exact ⟨d, hd, h.own _ d hd⟩

theorem IsConsistent.exists_of_lookup (h : t.IsConsistent) {native : NativeType} {id : TypeId}
    (hid : t.byNative.lookup native = some id) : ∃ d, t.get? id = some d := by
  obtain ⟨before, after, hentries, _⟩ := List.lookup_eq_some_iff.mp hid
  exact h.natives native id (hentries ▸ List.mem_append_right _ List.mem_cons_self)

theorem Tidy.forget (h : t.Tidy pending known) {known' : List TypeId} (hsub : known' ⊆ known) :
    t.Tidy pending known' :=
  { h with known := fun id hid => h.known id (hsub hid) }

theorem Tidy.found (h : t.Tidy pending known) {native : NativeType} {id : TypeId}
    (hid : t.byNative.lookup native = some id) : t.Tidy pending (id :: known) := by
  obtain ⟨before, after, hentries, _⟩ := List.lookup_eq_some_iff.mp hid
  refine { h with known := fun i hi => ?_ }
  rcases List.mem_cons.mp hi with rfl | hi
  · exact h.natives native i (hentries ▸ List.mem_append_right _ List.mem_cons_self)
  · exact h.known i hi

theorem mem_names_reserve {native : NativeType} {name key : String} {id : TypeId}
    (h : (key, id) ∈ (t.reserve native name).2.byName) :
    id = (t.reserve native name).1 ∨ (key, id) ∈ t.byName := by
  unfold reserve at h
  dsimp only at h
  split at h
  · exact .inr h
  · rcases List.mem_cons.mp h with heq | h
    · cases heq
      exact .inl rfl
    · exact .inr h

theorem Tidy.reserve (h : t.Tidy pending known) (native : NativeType) (name : String) :
    (t.reserve native name).2.Tidy ((t.reserve native name).1 :: pending)
      ((t.reserve native name).1 :: known) := by
  have hsize : (t.reserve native name).2.slots.size = t.slots.size + 1 := by
    simp [TypeTable.reserve]
  have hold : ∀ {id : TypeId}, id.index < t.slots.size →
      id.index < (t.reserve native name).2.slots.size := fun hid => by omega
  have hnew : (t.reserve native name).1.index < (t.reserve native name).2.slots.size := by
    rw [hsize]
    exact Nat.lt_succ_self _
  refine ⟨fun id hid => ?_, fun id d hd => ?_, fun id d hd i hi => ?_, fun other id hid => ?_,
    fun key id hid => ?_, fun id hid => ?_⟩
  · rw [get?_reserve]
    rcases Nat.lt_or_eq_of_le (Nat.le_of_lt_succ (hsize ▸ hid)) with hid | hid
    · exact (h.complete id hid).imp_left (List.mem_cons_of_mem _)
    · exact .inl (List.mem_cons.mpr (.inl (congrArg TypeId.mk hid)))
  · exact h.own id d ((get?_reserve t native name id).symm.trans hd)
  · exact hold (h.mentions id d ((get?_reserve t native name id).symm.trans hd) i hi)
  · rcases List.mem_cons.mp hid with heq | hid
    · cases heq
      exact hnew
    · exact hold (h.natives other id hid)
  · rcases mem_names_reserve hid with rfl | hid
    · exact hnew
    · exact hold (h.names key id hid)
  · rcases List.mem_cons.mp hid with rfl | hid
    · exact hnew
    · exact hold (h.known id hid)

theorem Tidy.fill {d : Descriptor} (h : t.Tidy (d.id :: pending) known) (hid : d.id ∈ known)
    (hmentions : d.mentions ⊆ known) : (t.fill d).Tidy pending known := by
  have hsize : (t.fill d).slots.size = t.slots.size := by simp [TypeTable.fill]
  have hself := get?_fill_self (h.known d.id hid)
  refine ⟨fun id hlt => ?_, fun id e he => ?_, fun id e he i hi => ?_, ?_, ?_, ?_⟩
  · by_cases heq : id = d.id
    · exact .inr ⟨d, heq ▸ hself⟩
    · rw [get?_fill_of_ne heq]
      refine (h.complete id (hsize ▸ hlt)).imp_left fun hmem => ?_
      exact (List.mem_cons.mp hmem).resolve_left heq
  · by_cases heq : id = d.id
    · rw [heq, hself] at he
      cases he
      exact heq.symm
    · exact h.own id e ((get?_fill_of_ne heq).symm.trans he)
  · rw [hsize]
    by_cases heq : id = d.id
    · rw [heq, hself] at he
      cases he
      exact h.known i (hmentions hi)
    · exact h.mentions id e ((get?_fill_of_ne heq).symm.trans he) i hi
  · exact hsize ▸ h.natives
  · exact hsize ▸ h.names
  · exact hsize ▸ h.known

theorem Tidy.identify (h : t.Tidy pending known) (native : NativeType) {id : TypeId} (hid : id ∈ known) :
    (t.identify native id).Tidy pending known := by
  refine { h with natives := fun other id' hmem => ?_ }
  rcases List.mem_cons.mp hmem with heq | hmem
  · cases heq
    exact h.known id hid
  · exact h.natives other id' hmem

end TypeTable

namespace Resolution

/-! ## Courses -/

/-- The course of a tidy table. -/
def Course.tidy : Course where
  Holds pending known s := s.table.Tidy pending known
  Free _ := True
  Fails _ _ := True

theorem Course.allows_tidy : tidy.Allows where
  forget hsub hs := hs.forget hsub
  found hs hid := hs.found hid
  reserve name hs _ _ := hs.reserve _ name
  fill _ hs hid hmentions := hs.fill hid hmentions
  enter name isNullable arguments shape hs _ harguments hshape := by
    refine (hs.reserve _ name).fill List.mem_cons_self ?_
    unfold Descriptor.mentions
    rw [hshape, List.append_nil]
    exact List.subset_cons_of_subset _ harguments
  identify hs _ hid := hs.identify _ hid
  fails _ _ := trivial

/-- The course of a session in which each expression leads where it leads in `t`. -/
def Course.keeping (t : TypeTable) : Course where
  Holds _ _ s := ∀ native id, t.byNative.lookup native = some id →
    s.table.byNative.lookup native = some id
  Free native := t.byNative.lookup native = none
  Fails _ _ := True

namespace Course

variable {t : TypeTable} {s : Session} {native : NativeType} {pending known : List TypeId}

theorem free_of_keeping (hs : (keeping t).Holds pending known s)
    (hnone : s.table.byNative.lookup native = none) : t.byNative.lookup native = none := by
  cases hid : t.byNative.lookup native with
  | none => rfl
  | some id =>
      have hthere := hs native id hid
      rw [hnone] at hthere
      cases hthere

/-- An expression that led nowhere may be entered. -/
theorem keeping_cons (hs : (keeping t).Holds pending known s)
    (hfree : t.byNative.lookup native = none) (new : TypeId) (other : NativeType) (id : TypeId)
    (hid : t.byNative.lookup other = some id) :
    ((native, new) :: s.table.byNative).lookup other = some id := by
  have hne : (other == native) = false := by
    rw [beq_eq_false_iff_ne]
    rintro rfl
    rw [hfree] at hid
    cases hid
  rw [List.lookup_cons, hne]
  exact hs other id hid

theorem allows_keeping (t : TypeTable) : (keeping t).Allows where
  forget _ hs := hs
  found hs _ := hs
  reserve _ hs hfree _ := keeping_cons hs hfree _
  fill _ hs _ _ := hs
  enter _ _ _ _ hs hfree _ _ := keeping_cons hs hfree _
  identify hs hfree _ := keeping_cons hs hfree _
  fails _ _ := trivial

end Course

/-! ## Where an expression leads -/

/-- When the step succeeds, `native` leads to its answer. -/
def Settles (native : NativeType) (x : Resolution TypeId) : Prop :=
  ∀ s id s', x.runOn s = (.ok id, s') → s'.table.byNative.lookup native = some id

section Settles

variable {α : Type} {registry : Registry} {resolve : Resolver} {native : NativeType}

theorem settles_bind {x : Resolution α} {f : α → Resolution TypeId} (hf : ∀ a, Settles native (f a)) :
    Settles native (x >>= f) := by
  intro s id s' hrun
  obtain ⟨a, s₁, _, hrest⟩ := exists_of_bind hrun
  exact hf a s₁ id s' hrest

theorem settles_fail (e : Error) : Settles native (Action.fail e) := by
  intro s id s' hrun
  cases hrun

theorem settles_identify (id : TypeId) : Settles native (identify native id) := by
  intro s answer s' hrun
  cases hrun
  exact List.lookup_cons_self

/-- The expression is entered with the number, and the contents leave it alone. -/
theorem settles_enter {name : String} {isNullable : Bool} {contents : TypeId → Resolution Contents}
    {gives : Contents → List TypeId}
    (hcontents : ∀ t id, (Course.keeping t).Along [id] [id] gives (contents id)) :
    Settles native (enter native name isNullable contents) := by
  intro s id s' hrun
  obtain ⟨new, s₁, hreserve, hrest⟩ := exists_of_bind hrun
  obtain ⟨c, s₂, hinside, hfill⟩ := exists_of_bind hrest
  simp only [runOn_reserve, Prod.mk.injEq, Except.ok.injEq] at hreserve
  obtain ⟨rfl, rfl⟩ := hreserve
  have hends := hcontents (s.reserve native name).2.table (s.reserve native name).1
    (s.reserve native name).2 fun _ _ hid => hid
  rw [hinside] at hends
  cases hfill
  exact hends.1 c rfl native _ List.lookup_cons_self

variable (hresolve : ∀ t pending natives, (Course.keeping t).Resolves pending resolve natives)

include hresolve

theorem settles_source (declared : SourceType) (arguments : List NativeType) :
    Settles native (source registry resolve native declared arguments) :=
  settles_bind fun _ => settles_enter fun t _ =>
    Course.along_sourceContents (Course.allows_keeping t) (hresolve t _ _) List.mem_cons_self

theorem settles_build (native : NativeType) : Settles native (build registry resolve native) := by
  have hplain : ∀ {name isNullable c}, Settles native (enter native name isNullable fun _ => pure c) := by
    intro name isNullable c
    have hpure : ∀ t id, (Course.keeping t).Along [id] [id] (fun _ => []) (pure c : Resolution Contents) :=
      fun t _ => Course.along_pure (Course.allows_keeping t) (List.nil_subset _)
    exact settles_enter hpure
  cases native with
  | value kind => exact hplain
  | nullable inner =>
      refine settles_bind fun innerId => settles_bind fun d => ?_
      split
      · exact hplain
      · exact settles_identify _
  | list element =>
      exact settles_enter fun t _ =>
        Course.along_listContents (Course.allows_keeping t) (hresolve t _ _)
  | map key value =>
      unfold build
      dsimp only
      split
      · exact settles_fail _
      · exact settles_enter fun t _ =>
          Course.along_mapContents (Course.allows_keeping t) (hresolve t _ _)
  | named name =>
      unfold build named
      dsimp only
      split
      · exact hplain
      · split
        · split
          · exact settles_fail _
          · exact settles_source hresolve _ _
        · split
          · unfold proxy
            split
            · exact settles_bind fun _ => settles_identify _
            · exact settles_fail _
          · exact settles_fail _
  | generic definition arguments =>
      unfold build instance_
      dsimp only
      split
      · split
        · exact settles_fail _
        · split
          · exact settles_fail _
          · exact settles_source hresolve _ _
      · exact settles_fail _
  | parameter index => exact settles_fail _

end Settles

/-- **A type expression leads to the number that resolving it has answered.** -/
theorem lookup_of_run (registry : Registry) (depth : Nat) (native : NativeType) :
    Settles native (run registry depth native) := by
  intro s id s' hrun
  have hresolve : ∀ depth t pending natives,
      (Course.keeping t).Resolves pending (run registry depth) natives :=
    fun depth t _ _ native _ _ =>
      Course.along_run (Course.allows_keeping t) Course.free_of_keeping (fun _ => trivial) depth native
  have hlookUp : ∀ {x}, Settles native x → (lookUp native x).runOn s = (.ok id, s') →
      s'.table.byNative.lookup native = some id := by
    intro x hx hrun
    rw [runOn_lookUp] at hrun
    cases hlookup : s.table.byNative.lookup native with
    | none =>
        rw [hlookup] at hrun
        exact hx s id s' hrun
    | some known =>
        rw [hlookup] at hrun
        cases hrun
        exact hlookup
  cases depth with
  | zero => exact hlookUp (settles_fail _) hrun
  | succ depth => exact hlookUp (settles_build (hresolve depth) native) hrun

end Resolution

/-! ## Graphs -/

namespace TypeGraph

open TypeTable

/-- **Resolving leads from a tidy table to a tidy one**, whether it succeeds or not. -/
theorem tidy_resolveWithin {g : TypeGraph} (h : g.table.Tidy [] []) (depth : Nat)
    (native : NativeType) : (g.resolveWithin depth native).2.table.Tidy [] [] := by
  cases hrun : (Resolution.run g.registry depth native.canonical).runOn (.begin g.table) with
  | mk outcome s =>
      cases outcome with
      | error e =>
          rw [resolveWithin_of_error hrun]
          exact h
      | ok id =>
          have hends : Resolution.Course.tidy.Ends [] [] (fun id => [id])
              ((Resolution.run g.registry depth native.canonical).runOn (.begin g.table)) :=
            Resolution.Course.along_run Resolution.Course.allows_tidy (fun _ _ => trivial)
              (fun _ => trivial) _ _ _ h
          rw [hrun] at hends
          rw [resolveWithin_of_ok hrun]
          have htidy : s.table.Tidy [] ([id] ++ []) := hends.1 id rfl
          exact htidy.forget (List.nil_subset _)

/-- **What a resolution has answered, its expression leads to.** -/
theorem lookup_of_resolveWithin {g : TypeGraph} {depth : Nat} {native : NativeType} {id : TypeId}
    (h : (g.resolveWithin depth native).1 = .ok id) :
    (g.resolveWithin depth native).2.table.byNative.lookup native.canonical = some id := by
  cases hrun : (Resolution.run g.registry depth native.canonical).runOn (.begin g.table) with
  | mk outcome s =>
      cases outcome with
      | error e =>
          rw [resolveWithin_of_error hrun] at h
          cases h
      | ok answer =>
          rw [resolveWithin_of_ok hrun] at h ⊢
          cases h
          exact Resolution.lookup_of_run _ depth _ _ _ _ hrun

theorem tidy_ofRegistry {registry : Registry} {g : TypeGraph} (h : ofRegistry registry = .ok g) :
    g.table.Tidy [] [] :=
  resolveAll_induction (fun g => g.table.Tidy [] [])
    (fun _ native hg => tidy_resolveWithin hg _ native) tidy_empty h

end TypeGraph

end ResourceQuery
