import ResourceQuery.Proofs.Type.Course

set_option autoImplicit false

/-! # The table of types only grows

A session writes to the table while it resolves, and its journal says what. Two things follow for each
session that began with a table. If it succeeds, the descriptors that were there are still there and what
the expressions led to they still lead to (`Journals.grows`, `Journals.lookup`). If it fails, rolling it
back gives that table, and not just one that looks like it (`Journals.rollback_eq`). That the journal is kept
well is a course (`Course.allows_journal`).

The second part is about graphs of registries: the value kinds stand first in them, whatever is
declared.
-/

namespace ResourceQuery

/-! ## Tables -/

namespace TypeTable

/-- Every slot of `t` is the same in `t'`, which may have more of them. -/
def Extends (t t' : TypeTable) : Prop :=
  t.slots.size ≤ t'.slots.size ∧ ∀ i, i < t.slots.size → t'.slots[i]? = t.slots[i]?

variable {t t' t'' : TypeTable}

theorem Extends.refl (t : TypeTable) : t.Extends t :=
  ⟨Nat.le_refl _, fun _ _ => rfl⟩

theorem Extends.trans (h₁ : t.Extends t') (h₂ : t'.Extends t'') : t.Extends t'' := by
  refine ⟨Nat.le_trans h₁.1 h₂.1, fun i hi => ?_⟩
  rw [h₂.2 i (Nat.lt_of_lt_of_le hi h₁.1), h₁.2 i hi]

/-- A number with a descriptor was given out. -/
theorem lt_of_get? {id : TypeId} {d : Descriptor} (h : t.get? id = some d) :
    id.index < t.slots.size := by
  unfold TypeTable.get? at h
  apply Nat.lt_of_not_le
  intro hle
  rw [Array.getElem?_eq_none hle] at h
  cases h

/-- A descriptor that is there stays there. -/
theorem Extends.get? (h : t.Extends t') {id : TypeId} {d : Descriptor} (hd : t.get? id = some d) :
    t'.get? id = some d := by
  have hid := lt_of_get? hd
  unfold TypeTable.get? at hd ⊢
  rw [h.2 id.index hid]
  exact hd

/-- A reserved number has no descriptor, and the others have the ones they had. -/
theorem get?_reserve (t : TypeTable) (native : NativeType) (name : String) (id : TypeId) :
    (t.reserve native name).2.get? id = t.get? id := by
  unfold get? reserve
  dsimp only
  rw [Array.getElem?_push]
  split
  · rename_i h
    rw [h, Array.getElem?_eq_none (Nat.le_refl _)]
    rfl
  · rfl

theorem get?_fill_self {d : Descriptor} (h : d.id.index < t.slots.size) :
    (t.fill d).get? d.id = some d := by
  simp [get?, fill, h]

theorem get?_fill_of_ne {d : Descriptor} {id : TypeId} (h : id ≠ d.id) :
    (t.fill d).get? id = t.get? id := by
  have hindex : d.id.index ≠ id.index := by
    intro heq
    apply h
    cases id
    cases hd : d.id
    rw [hd] at heq
    exact congrArg TypeId.mk heq.symm
  simp [get?, fill, Array.getElem?_setIfInBounds_ne hindex]

end TypeTable

/-! ## Journals -/

namespace Session

/-- The journal of a session that began with the table `t` is kept well: slots were only added, and the
entries of the maps are those of `t` and others whose keys are in the journal. -/
structure Journals (t : TypeTable) (s : Session) : Prop where
  start : s.start = t.slots.size
  grows : t.Extends s.table
  natives : ∃ new, s.table.byNative = new ++ t.byNative ∧ ∀ entry ∈ new, entry.1 ∈ s.natives
  names : ∃ new, s.table.byName = new ++ t.byName ∧ ∀ entry ∈ new, entry.1 ∈ s.names
  freshNatives : ∀ native ∈ s.natives, t.byNative.lookup native = none
  freshNames : ∀ name ∈ s.names, t.byName.lookup name = none

variable {t : TypeTable} {s : Session}

theorem journals_begin (t : TypeTable) : (begin t).Journals t where
  start := rfl
  grows := .refl t
  natives := ⟨[], rfl, by simp⟩
  names := ⟨[], rfl, by simp⟩
  freshNatives := by simp [begin]
  freshNames := by simp [begin]

/-- Entries whose keys are struck out leave the others. -/
theorem filter_struck {κ α : Type} [DecidableEq κ] {entries new old : List (κ × α)} {struck : List κ}
    (hentries : entries = new ++ old) (hnew : ∀ entry ∈ new, entry.1 ∈ struck)
    (hfresh : ∀ key ∈ struck, old.lookup key = none) :
    (entries.filter fun entry => entry.1 ∉ struck) = old := by
  rw [hentries, List.filter_append]
  have hnone : (new.filter fun entry => entry.1 ∉ struck) = [] := by
    rw [List.filter_eq_nil_iff]
    intro entry hentry
    simpa using hnew entry hentry
  have hall : (old.filter fun entry => entry.1 ∉ struck) = old := by
    rw [List.filter_eq_self]
    intro entry hentry
    have hkept : entry.1 ∉ struck := by
      intro hstruck
      have hdiffer := List.lookup_eq_none_iff.mp (hfresh _ hstruck) entry hentry
      simp at hdiffer
    simpa using hkept
  rw [hnone, hall, List.nil_append]

/-- **Rolling a session back gives the table that it began with.** -/
theorem Journals.rollback_eq (h : s.Journals t) : s.rollback = t := by
  obtain ⟨newNatives, hnatives, hstruckNatives⟩ := h.natives
  obtain ⟨newNames, hnames, hstruckNames⟩ := h.names
  have hslots : s.table.slots.take s.start = t.slots := by
    apply Array.ext_getElem?
    intro i
    simp only [h.start, Array.getElem?_extract, Nat.sub_zero, Nat.zero_add,
      Nat.min_eq_left h.grows.1]
    split
    · rename_i hi
      exact h.grows.2 i hi
    · rename_i hi
      exact (Array.getElem?_eq_none (Nat.le_of_not_lt hi)).symm
  unfold rollback
  rw [hslots, filter_struck hnatives hstruckNatives h.freshNatives,
    filter_struck hnames hstruckNames h.freshNames]

/-- What an expression led to it leads to still. -/
theorem Journals.lookup (h : s.Journals t) {native : NativeType} {id : TypeId}
    (hid : t.byNative.lookup native = some id) : s.table.byNative.lookup native = some id := by
  obtain ⟨new, hnatives, hstruck⟩ := h.natives
  have hnew : new.lookup native = none := by
    rw [List.lookup_eq_none_iff]
    intro entry hentry
    rw [bne_iff_ne]
    rintro rfl
    have hnone := h.freshNatives _ (hstruck entry hentry)
    rw [hid] at hnone
    cases hnone
  rw [hnatives, List.lookup_append, hnew, hid]
  rfl

theorem Journals.lookup_eq_none (h : s.Journals t) {native : NativeType}
    (hnone : s.table.byNative.lookup native = none) : t.byNative.lookup native = none := by
  cases hid : t.byNative.lookup native with
  | none => rfl
  | some id => exact absurd ((h.lookup hid).symm.trans hnone) (by simp)

/-- A slot that is added, or changed behind those of `t`, is no change to them. -/
theorem Journals.slot_eq (h : s.Journals t) {slots : Array (Option Descriptor)}
    (hsize : s.table.slots.size ≤ slots.size)
    (hslots : ∀ i, i < t.slots.size → slots[i]? = s.table.slots[i]?) {natives names} :
    t.Extends ⟨slots, natives, names⟩ :=
  ⟨Nat.le_trans h.grows.1 hsize, fun i hi => (hslots i hi).trans (h.grows.2 i hi)⟩

theorem Journals.reserve (h : s.Journals t) {native : NativeType} (name : String)
    (hnew : t.byNative.lookup native = none) : (s.reserve native name).2.Journals t := by
  obtain ⟨newNatives, hnatives, hstruckNatives⟩ := h.natives
  obtain ⟨newNames, hnames, hstruckNames⟩ := h.names
  refine ⟨h.start, h.slot_eq ?_ fun i hi => ?_, ⟨_ :: newNatives, congrArg _ hnatives, ?_⟩, ?_, ?_, ?_⟩
  · rw [Array.size_push]
    exact Nat.le_succ _
  · rw [Array.getElem?_push, if_neg (Nat.ne_of_lt (Nat.lt_of_lt_of_le hi h.grows.1))]
  · intro entry hentry
    rcases List.mem_cons.mp hentry with rfl | hentry
    · exact List.mem_cons_self
    · exact List.mem_cons_of_mem _ (hstruckNatives entry hentry)
  · -- a name that leads somewhere is neither entered nor struck out later
    simp only [Session.reserve, TypeTable.reserve]
    cases hkey : s.table.byName.lookup (Text.asciiLower name) with
    | some id => exact ⟨newNames, hnames, hstruckNames⟩
    | none =>
        refine ⟨_ :: newNames, congrArg _ hnames, fun entry hentry => ?_⟩
        rcases List.mem_cons.mp hentry with rfl | hentry
        · exact List.mem_cons_self
        · exact List.mem_cons_of_mem _ (hstruckNames entry hentry)
  · intro other hother
    rcases List.mem_cons.mp hother with rfl | hother
    · exact hnew
    · exact h.freshNatives other hother
  · simp only [Session.reserve]
    cases hkey : s.table.byName.lookup (Text.asciiLower name) with
    | some id => exact h.freshNames
    | none =>
        intro key hmem
        rcases List.mem_cons.mp hmem with rfl | hmem
        · rw [hnames, List.lookup_append, Option.or_eq_none_iff] at hkey
          exact hkey.2
        · exact h.freshNames key hmem

theorem Journals.fill (h : s.Journals t) {d : Descriptor} (hd : t.slots.size ≤ d.id.index) :
    (s.fill d).Journals t := by
  refine { h with grows := h.slot_eq ?_ fun i hi => ?_ }
  · exact Nat.le_of_eq Array.size_setIfInBounds.symm
  · exact Array.getElem?_setIfInBounds_ne (Nat.ne_of_gt (Nat.lt_of_lt_of_le hi hd))

theorem Journals.identify (h : s.Journals t) {native : NativeType} {id : TypeId}
    (hnew : t.byNative.lookup native = none) : (s.identify native id).Journals t := by
  obtain ⟨newNatives, hnatives, hstruckNatives⟩ := h.natives
  refine { h with natives := ⟨_ :: newNatives, congrArg _ hnatives, ?_⟩, freshNatives := ?_ }
  · intro entry hentry
    rcases List.mem_cons.mp hentry with rfl | hentry
    · exact List.mem_cons_self
    · exact List.mem_cons_of_mem _ (hstruckNatives entry hentry)
  · intro other hother
    rcases List.mem_cons.mp hother with rfl | hother
    · exact hnew
    · exact h.freshNatives other hother

end Session

namespace Resolution

/-- The course of a well kept journal. Only slots behind those of the table `t` are pending, and a session
that fails is rolled back to `t`. -/
def Course.journal (t : TypeTable) : Course where
  Holds pending _ s := s.Journals t ∧ ∀ id ∈ pending, t.slots.size ≤ id.index
  Free native := t.byNative.lookup native = none
  Fails _ s := s.rollback = t

theorem Course.allows_journal (t : TypeTable) : (journal t).Allows where
  forget _ hs := hs
  found hs _ := hs
  reserve name hs hfree _ := by
    refine ⟨hs.1.reserve name hfree, fun id hid => ?_⟩
    rcases List.mem_cons.mp hid with rfl | hid
    · exact hs.1.grows.1
    · exact hs.2 id hid
  fill d hs _ _ :=
    ⟨hs.1.fill (hs.2 d.id List.mem_cons_self), fun id hid => hs.2 id (List.mem_cons_of_mem _ hid)⟩
  enter name _ _ _ hs hfree _ _ := ⟨(hs.1.reserve name hfree).fill hs.1.grows.1, hs.2⟩
  identify hs hfree _ := ⟨hs.1.identify hfree, hs.2⟩
  fails hs _ := hs.1.rollback_eq

/-- What a resolution does with the journal. -/
theorem ends_journal (registry : Registry) (depth : Nat) (native : NativeType) (t : TypeTable) :
    (Course.journal t).Ends [] [] (fun id => [id]) ((run registry depth native).runOn (.begin t)) :=
  Course.along_run (Course.allows_journal t) (fun hs hnone => hs.1.lookup_eq_none hnone)
    (fun hs => hs.1.rollback_eq) depth native _ ⟨Session.journals_begin t, by simp⟩

end Resolution

/-! ## Graphs -/

namespace TypeGraph

theorem mem_types {g : TypeGraph} {id : TypeId} {d : Descriptor} (h : g.table.get? id = some d) :
    d ∈ g.types := by
  unfold TypeTable.get? at h
  unfold types TypeTable.complete
  rw [List.mem_filterMap]
  refine ⟨some d, ?_, rfl⟩
  rw [Option.join_eq_some_iff] at h
  exact Array.mem_toList_iff.mpr (Array.mem_of_getElem? h)

/-- A type of a graph has a number. -/
theorem exists_of_mem_types {g : TypeGraph} {d : Descriptor} (hd : d ∈ g.types) :
    ∃ id, g.table.get? id = some d := by
  unfold types TypeTable.complete at hd
  obtain ⟨slot, hslot, rfl⟩ := List.mem_filterMap.mp hd
  obtain ⟨i, hi, hget⟩ := List.mem_iff_getElem.mp hslot
  refine ⟨⟨i⟩, ?_⟩
  rw [Array.length_toList] at hi
  rw [Array.getElem_toList] at hget
  simp only [TypeTable.get?, Array.getElem?_eq_getElem hi, hget]
  rfl

theorem resolveWithin_of_ok {g : TypeGraph} {depth : Nat} {native : NativeType} {id : TypeId}
    {s : Session}
    (h : (Resolution.run g.registry depth native.canonical).runOn (.begin g.table) = (.ok id, s)) :
    g.resolveWithin depth native = (.ok id, { g with table := s.table }) := by
  unfold resolveWithin
  rw [h]

theorem resolveWithin_of_error {g : TypeGraph} {depth : Nat} {native : NativeType} {e : Error}
    {s : Session}
    (h : (Resolution.run g.registry depth native.canonical).runOn (.begin g.table) = (.error e, s)) :
    g.resolveWithin depth native = (.error e, g) := by
  have hends := Resolution.ends_journal g.registry depth native.canonical g.table
  rw [h] at hends
  have hrollback : s.rollback = g.table := hends.2 e rfl
  unfold resolveWithin
  rw [h]
  dsimp only
  rw [hrollback]

/-- **A resolution that fails leaves the graph as it was.** -/
theorem resolveWithin_snd_of_error {g : TypeGraph} {depth : Nat} {native : NativeType} {e : Error}
    (h : (g.resolveWithin depth native).1 = .error e) : (g.resolveWithin depth native).2 = g := by
  cases hrun : (Resolution.run g.registry depth native.canonical).runOn (.begin g.table) with
  | mk outcome s =>
      cases outcome with
      | error e' => rw [resolveWithin_of_error hrun]
      | ok id =>
          rw [resolveWithin_of_ok hrun] at h
          cases h

/-- A resolution writes the journal of what it enters. -/
theorem journals_of_ok {g : TypeGraph} {depth : Nat} {native : NativeType} {id : TypeId} {s : Session}
    (h : (Resolution.run g.registry depth native.canonical).runOn (.begin g.table) = (.ok id, s)) :
    s.Journals g.table := by
  have hends := Resolution.ends_journal g.registry depth native.canonical g.table
  rw [h] at hends
  exact (hends.1 id rfl).1

theorem extends_resolveWithin (g : TypeGraph) (depth : Nat) (native : NativeType) :
    g.table.Extends (g.resolveWithin depth native).2.table := by
  cases hrun : (Resolution.run g.registry depth native.canonical).runOn (.begin g.table) with
  | mk outcome s =>
      cases outcome with
      | error e =>
          rw [resolveWithin_of_error hrun]
          exact .refl _
      | ok id =>
          rw [resolveWithin_of_ok hrun]
          exact (journals_of_ok hrun).grows

theorem extends_resolve (g : TypeGraph) (native : NativeType) :
    g.table.Extends (g.resolve native).2.table :=
  extends_resolveWithin g _ native

/-- What an expression leads to it leads to for good. -/
theorem lookup_resolveWithin {g : TypeGraph} {native : NativeType} {id : TypeId}
    (h : g.table.byNative.lookup native = some id) (depth : Nat) (other : NativeType) :
    (g.resolveWithin depth other).2.table.byNative.lookup native = some id := by
  cases hrun : (Resolution.run g.registry depth other.canonical).runOn (.begin g.table) with
  | mk outcome s =>
      cases outcome with
      | error e =>
          rw [resolveWithin_of_error hrun]
          exact h
      | ok answer =>
          rw [resolveWithin_of_ok hrun]
          exact (journals_of_ok hrun).lookup h

/-- An expression that leads somewhere is resolved without any change. -/
theorem resolveWithin_of_lookup {g : TypeGraph} {native : NativeType} {id : TypeId}
    (h : g.table.byNative.lookup native.canonical = some id) (depth : Nat) :
    g.resolveWithin depth native = (.ok id, g) :=
  resolveWithin_of_ok (Resolution.runOn_run_of_lookup h depth)

theorem registry_resolveWithin (g : TypeGraph) (depth : Nat) (native : NativeType) :
    (g.resolveWithin depth native).2.registry = g.registry := by
  unfold resolveWithin
  split <;> rfl

/-- Looking a name up resolves at most one type. -/
theorem byNameWithin_snd (g : TypeGraph) (depth : Nat) (name : String) :
    (g.byNameWithin depth name).2 = g ∨
      ∃ native, (g.byNameWithin depth name).2 = (g.resolveWithin depth native).2 := by
  unfold byNameWithin
  split
  · exact .inl rfl
  · split
    · exact .inl rfl
    · rename_i native _
      refine .inr ⟨native, ?_⟩
      unfold resolveTypeWithin
      split <;> rename_i hresolve <;> rw [hresolve]

/-- Looking a name up may resolve types, and changes none that was there. -/
theorem extends_byName (g : TypeGraph) (name : String) :
    g.table.Extends (g.byName name).2.table := by
  unfold byName
  rcases byNameWithin_snd g Resolution.depthLimit name with hsame | ⟨native, hresolve⟩
  · rw [hsame]
    exact .refl _
  · rw [hresolve]
    exact extends_resolveWithin g _ native

/-- What each resolution preserves holds after several. -/
theorem resolveAll_induction (P : TypeGraph → Prop) {g g' : TypeGraph} {natives : List NativeType}
    (hstep : ∀ g native, P g → P (g.resolve native).2) (hg : P g) (h : g.resolveAll natives = .ok g') :
    P g' := by
  induction natives generalizing g with
  | nil =>
      cases h
      exact hg
  | cons native rest ih =>
      have hnext := hstep g native hg
      unfold resolveAll at h
      cases hrun : g.resolve native with
      | mk outcome next =>
          rw [hrun] at h hnext
          cases outcome with
          | ok id => exact ih hnext h
          | error e => cases h

theorem extends_resolveAll {g g' : TypeGraph} {natives : List NativeType}
    (h : g.resolveAll natives = .ok g') : g.table.Extends g'.table :=
  resolveAll_induction (fun next => g.table.Extends next.table)
    (fun next native hnext => hnext.trans (extends_resolve next native)) (.refl _) h

theorem lookup_resolveAll {g g' : TypeGraph} {natives : List NativeType}
    (h : g.resolveAll natives = .ok g') {native : NativeType} {id : TypeId}
    (hid : g.table.byNative.lookup native = some id) : g'.table.byNative.lookup native = some id :=
  resolveAll_induction (fun next => next.table.byNative.lookup native = some id)
    (fun _ other hnext => lookup_resolveWithin hnext _ other) hid h

theorem registry_ofRegistry {registry : Registry} {g : TypeGraph} (h : ofRegistry registry = .ok g) :
    g.registry = registry :=
  resolveAll_induction (fun next => next.registry = registry)
    (fun next native hnext => (registry_resolveWithin next _ native).trans hnext) rfl h

/-! ## Value kinds stand first -/

/-- The value kinds stand first among the types of the graph, in their order. -/
def StartsWithValues (g : TypeGraph) : Prop :=
  ∀ kind : ValueKind, g.table.get? (valueType kind) =
    some ⟨valueType kind, kind.name, kind.isNullable, [], .value kind⟩

theorem StartsWithValues.extend {g g' : TypeGraph} (hg : g.StartsWithValues)
    (hext : g.table.Extends g'.table) : g'.StartsWithValues :=
  fun kind => hext.get? (hg kind)

theorem resolveAll_append (g : TypeGraph) (xs ys : List NativeType) :
    g.resolveAll (xs ++ ys) = g.resolveAll xs >>= fun g => g.resolveAll ys := by
  induction xs generalizing g with
  | nil => rfl
  | cons native rest ih =>
      simp only [List.cons_append, resolveAll]
      cases g.resolve native with
      | mk outcome g' =>
          cases outcome with
          | ok id => exact ih g'
          | error e => rfl

/-- The descriptor of a value kind with the given number. -/
def valueDescriptor (id : TypeId) (kind : ValueKind) : Descriptor :=
  ⟨id, kind.name, kind.isNullable, [], .value kind⟩

/-- A value kind that is met for the first time gets the next number. -/
theorem resolve_value {g : TypeGraph} {kind : ValueKind}
    (h : g.table.byNative.lookup (.value kind) = none) :
    ∃ g', g.resolve (.value kind) = (.ok ⟨g.table.slots.size⟩, g') ∧
      g'.table.slots = g.table.slots.push (some (valueDescriptor ⟨g.table.slots.size⟩ kind)) ∧
      g'.table.byNative = (.value kind, ⟨g.table.slots.size⟩) :: g.table.byNative := by
  have hrun : (Resolution.run g.registry Resolution.depthLimit (.value kind)).runOn (.begin g.table) =
      (.ok ⟨g.table.slots.size⟩, ((Session.begin g.table).reserve (.value kind) kind.name).2.fill
        (valueDescriptor ⟨g.table.slots.size⟩ kind)) := by
    unfold Resolution.depthLimit Resolution.run
    rw [Resolution.runOn_lookUp, show (Session.begin g.table).table.byNative.lookup (.value kind) = none
      from h]
    rfl
  refine ⟨_, resolveWithin_of_ok hrun, ?_, rfl⟩
  · apply Array.ext_getElem?
    intro i
    simp only [Session.begin, Session.fill, Session.reserve, TypeTable.fill, TypeTable.reserve,
      valueDescriptor, Array.getElem?_setIfInBounds,
      Array.getElem?_push, Array.size_push]
    by_cases hi : g.table.slots.size = i
    · simp [hi]
    · simp [hi, Ne.symm hi]

theorem resolveAll_values {kinds : List ValueKind} (hnodup : kinds.Nodup) {g : TypeGraph}
    (hnew : ∀ kind ∈ kinds, g.table.byNative.lookup (.value kind) = none) :
    ∃ g', g.resolveAll (kinds.map NativeType.value) = .ok g' ∧ ∀ i kind, kinds[i]? = some kind →
      g'.table.get? ⟨g.table.slots.size + i⟩ =
          some (valueDescriptor ⟨g.table.slots.size + i⟩ kind) ∧
        g'.table.byNative.lookup (.value kind) = some ⟨g.table.slots.size + i⟩ := by
  induction kinds generalizing g with
  | nil => exact ⟨g, rfl, fun i kind hi => by simp at hi⟩
  | cons first rest ih =>
      obtain ⟨hfirst, hrest⟩ := List.nodup_cons.mp hnodup
      obtain ⟨g₁, hresolve, hslots, hnative⟩ := resolve_value (hnew first (by simp))
      have hsize : g₁.table.slots.size = g.table.slots.size + 1 := by
        rw [hslots, Array.size_push]
      -- the kinds that are left are still unknown, as none is the first
      have hnew₁ : ∀ kind ∈ rest, g₁.table.byNative.lookup (.value kind) = none := by
        intro kind hkind
        have hne : kind ≠ first := fun h => hfirst (h ▸ hkind)
        have hbeq : (NativeType.value kind == NativeType.value first) = false := by simp [hne]
        rw [hnative, List.lookup_cons, hbeq]
        exact hnew kind (by simp [hkind])
      obtain ⟨g', hall, hget⟩ := ih hrest hnew₁
      refine ⟨g', ?_, fun i kind hi => ?_⟩
      · simp only [List.map_cons, resolveAll, hresolve, hall]
      · cases i with
        | zero =>
            -- later kinds leave the number of the first alone
            have hkind : first = kind := by simpa using hi
            refine ⟨(extends_resolveAll hall).get? ?_, ?_⟩
            · simp [TypeTable.get?, hslots, hkind]
            · have hlookup : g₁.table.byNative.lookup (.value kind) = some ⟨g.table.slots.size⟩ := by
                rw [hnative, hkind]
                exact List.lookup_cons_self
              exact lookup_resolveAll hall hlookup
        | succ i =>
            have hthere := hget i kind (by simpa using hi)
            rw [hsize] at hthere
            rw [show g.table.slots.size + (i + 1) = g.table.slots.size + 1 + i by omega]
            exact hthere

theorem exists_values_ofRegistry {registry : Registry} {g : TypeGraph} (h : ofRegistry registry = .ok g) :
    ∃ (g' : TypeGraph) (natives : List NativeType), g'.resolveAll natives = .ok g ∧ ∀ kind : ValueKind,
      g'.table.get? (valueType kind) = some (valueDescriptor (valueType kind) kind) ∧
        g'.table.byNative.lookup (.value kind) = some (valueType kind) := by
  obtain ⟨g', hkinds, hvalues⟩ := @resolveAll_values ValueKind.all (by decide)
    ⟨registry, .empty⟩ (fun kind _ => rfl)
  unfold ofRegistry at h
  rw [resolveAll_append, hkinds] at h
  refine ⟨g', _, h, fun kind => ?_⟩
  simpa [valueType, TypeTable.empty] using hvalues kind.index kind (ValueKind.all_getElem?_index kind)

/-- **Every graph of a registry starts with the value kinds.** -/
theorem startsWithValues_ofRegistry {registry : Registry} {g : TypeGraph}
    (h : ofRegistry registry = .ok g) : g.StartsWithValues := by
  obtain ⟨g', natives, hall, hvalues⟩ := exists_values_ofRegistry h
  have hstart : g'.StartsWithValues := fun kind => (hvalues kind).1
  exact hstart.extend (extends_resolveAll hall)

/-- In every graph of a registry the value kinds lead to their types. -/
theorem lookup_value_ofRegistry {registry : Registry} {g : TypeGraph} (h : ofRegistry registry = .ok g)
    (kind : ValueKind) : g.table.byNative.lookup (.value kind) = some (valueType kind) := by
  obtain ⟨g', natives, hall, hvalues⟩ := exists_values_ofRegistry h
  exact lookup_resolveAll hall (hvalues kind).2

end TypeGraph

end ResourceQuery
