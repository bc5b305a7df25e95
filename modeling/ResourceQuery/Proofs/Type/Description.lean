import ResourceQuery.Proofs.Type.Calls
import ResourceQuery.Proofs.Type.Comparison
import ResourceQuery.Proofs.Type.Termination

set_option autoImplicit false

/-! # What the table says of an expression

The descriptor of a type is what putting it together once more would give, with everything that it mentions
looked up (`TypeTable.Explains`). This determines the table up to the numbers in it, and says nothing of the
order in which they were given out. It holds of every graph, whatever was asked of it
(`TypeGraph.explained_after`).

While types are under way it holds of those that are complete. Types without a descriptor do no harm: an optional
type is the only one that asks for the descriptor of another, and of a type that is under way it learns what it
would learn later, namely that it has no number of its own (`TypeTable.Explained.plain`). Nor does it
matter that such an expression may be entered in the meantime, for it gets the same number then. Only where an
optional type has a number of its own it must not be entered twice; there the type inside is settled
without entering it (`Resolution.Enters.others`).
-/

namespace ResourceQuery

/-! ## Tables that remember -/

namespace TypeTable

variable {t t' t'' : TypeTable}

/-- Expressions that lead somewhere in `t` lead there in `t'`. -/
def Recalls (t' t : TypeTable) : Prop :=
  ∀ native id, t.byNative.lookup native = some id → t'.byNative.lookup native = some id

/-- Nothing that was known has changed. -/
structure Grows (t t' : TypeTable) : Prop where
  slots : t.Extends t'
  recalls : t'.Recalls t

theorem Grows.refl (t : TypeTable) : t.Grows t :=
  ⟨.refl t, fun _ _ h => h⟩

theorem Grows.trans (h₁ : t.Grows t') (h₂ : t'.Grows t'') : t.Grows t'' :=
  ⟨h₁.slots.trans h₂.slots, fun native id h => h₂.recalls native id (h₁.recalls native id h)⟩

theorem Extends.get?_eq (h : t.Extends t') {id : TypeId} (hid : id.index < t.slots.size) :
    t'.get? id = t.get? id := by
  unfold TypeTable.get?
  rw [h.2 id.index hid]

theorem lookup_cons_of_ne {entries : List (NativeType × TypeId)} {native other : NativeType} {id : TypeId}
    (hne : other ≠ native) : ((native, id) :: entries).lookup other = entries.lookup other := by
  rw [List.lookup_cons, beq_eq_false_iff_ne.mpr hne]

/-- A new expression takes nothing away. -/
theorem recalls_cons {native : NativeType} {id : TypeId} (hnew : t.byNative.lookup native = none)
    (hentries : t'.byNative = (native, id) :: t.byNative) : t'.Recalls t := by
  intro other i hi
  have hne : other ≠ native := by
    rintro rfl
    rw [hnew] at hi
    cases hi
  rw [hentries, lookup_cons_of_ne hne, hi]

end TypeTable

namespace Resolution

open TypeTable

variable {α : Type} {registry : Registry} {t t' : TypeTable} {s s' : Session} {native other : NativeType}
  {id : TypeId} {name : String} {isNullable : Bool} {contents : Resolver → TypeId → Resolution Contents}

/-! ## Looking up -/

/-- Resolves only what is there. -/
def find (registry : Registry) : Resolver :=
  run registry 0

theorem runOn_find (h : s.table.byNative.lookup native = some id) :
    (find registry native).runOn s = (.ok id, s) :=
  runOn_run_of_lookup h 0

theorem lookup_of_find (h : (find registry native).runOn s = (.ok id, s')) :
    s' = s ∧ s.table.byNative.lookup native = some id := by
  rw [find, run, runOn_lookUp] at h
  cases hlookup : s.table.byNative.lookup native with
  | none =>
      rw [hlookup] at h
      cases h
  | some known =>
      rw [hlookup] at h
      cases h
      exact ⟨rfl, rfl⟩

/-- Wherever expressions lead where they lead in `t`, the step answers `a` and changes nothing. -/
def Finds (t : TypeTable) (x : Resolution α) (a : α) : Prop :=
  ∀ s : Session, s.table.Recalls t → x.runOn s = (.ok a, s)

theorem Finds.mono {x : Resolution α} {a : α} (h : Finds t x a) (hrecalls : t'.Recalls t) :
    Finds t' x a :=
  fun s hs => h s fun native id hid => hs native id (hrecalls native id hid)

/-- The expression gets a number of its own. -/
def IsOwn (registry : Registry) (native : NativeType) : Prop :=
  ∃ name isNullable contents, form registry native = .own name isNullable contents

end Resolution

/-! ## Tables that are explained -/

namespace TypeTable

open Resolution

variable {registry : Registry} {t t' : TypeTable} {native other : NativeType} {id i j : TypeId}
  {d : Descriptor} {name : String} {isNullable : Bool} {contents : Resolver → TypeId → Resolution Contents}

/-- The table has for `native`, which leads to `id`, what the registry says. -/
def Explains (registry : Registry) (t : TypeTable) (native : NativeType) (id : TypeId) : Prop :=
  match form registry native with
  | .none _ => False
  | .shared other => t.byNative.lookup other = some id
  | .own name isNullable contents => ∀ d, t.get? id = some d →
    d.id = id ∧ d.name = name ∧ d.nullable = isNullable ∧
      Finds t (contents (find registry) id) ⟨d.arguments, d.shape⟩

/-- Everything in the table is what the registry says, up to numbers. -/
structure Explained (registry : Registry) (t : TypeTable) : Prop where
  below : ∀ native id, t.byNative.lookup native = some id → id.index < t.slots.size
  explains : ∀ native id, t.byNative.lookup native = some id → t.Explains registry native id
  /-- Whether a type is optional once more can be told before its descriptor is there. -/
  plain : ∀ native id, t.byNative.lookup native = some id →
    (t.get? id).bind optionalShape? = plainShape? registry native
  /-- Expressions with numbers of their own have different ones. -/
  own : ∀ native other id, t.byNative.lookup native = some id → t.byNative.lookup other = some id →
    IsOwn registry native → IsOwn registry other → native = other
  /-- Some expression leads to each number. -/
  led : ∀ i, i < t.slots.size → ∃ native, t.byNative.lookup native = some ⟨i⟩

theorem explained_empty (registry : Registry) : empty.Explained registry where
  below _ _ h := nomatch h
  explains _ _ h := nomatch h
  plain _ _ h := nomatch h
  own _ _ _ h := nomatch h
  led _ h := nomatch h

theorem Explains.mono (h : t.Explains registry native id) (hget : t'.get? id = t.get? id)
    (hrecalls : t'.Recalls t) : t'.Explains registry native id := by
  unfold Explains at h ⊢
  cases hform : form registry native with
  | none e =>
      rw [hform] at h
      exact h
  | shared other =>
      rw [hform] at h
      exact hrecalls _ _ h
  | own name isNullable contents =>
      rw [hform] at h
      intro d hd
      obtain ⟨hid, hname, hnullable, hfinds⟩ := h d (hget.symm.trans hd)
      exact ⟨hid, hname, hnullable, hfinds.mono hrecalls⟩

/-- A further expression with a number behind all others. -/
theorem Explained.cons (h : t.Explained registry) (hnew : t.byNative.lookup native = none)
    (hentries : t'.byNative = (native, ⟨t.slots.size⟩) :: t.byNative) (hext : t.Extends t')
    (hsize : t'.slots.size = t.slots.size + 1) (hself : t'.Explains registry native ⟨t.slots.size⟩)
    (hplain : (t'.get? ⟨t.slots.size⟩).bind optionalShape? = plainShape? registry native) :
    t'.Explained registry := by
  have hrecalls : t'.Recalls t := recalls_cons hnew hentries
  -- an expression is the new one or was there before
  have hcases : ∀ other id, t'.byNative.lookup other = some id →
      (other = native ∧ id = ⟨t.slots.size⟩) ∨ (other ≠ native ∧ t.byNative.lookup other = some id) := by
    intro other id hid
    by_cases hsame : other = native
    · rw [hentries, hsame, List.lookup_cons_self, Option.some.injEq] at hid
      exact .inl ⟨hsame, hid.symm⟩
    · rw [hentries, lookup_cons_of_ne hsame] at hid
      exact .inr ⟨hsame, hid⟩
  have hold : ∀ other : NativeType, t.byNative.lookup other ≠ some ⟨t.slots.size⟩ := by
    intro other hother
    exact absurd (h.below _ _ hother) (Nat.lt_irrefl _)
  refine ⟨fun other id hid => ?_, fun other id hid => ?_, fun other id hid => ?_,
    fun other other' id hid hid' hown hown' => ?_, fun i hi => ?_⟩
  · rw [hsize]
    rcases hcases other id hid with ⟨-, rfl⟩ | ⟨-, hid⟩
    · exact Nat.lt_succ_self _
    · exact Nat.lt_succ_of_lt (h.below other id hid)
  · rcases hcases other id hid with ⟨rfl, rfl⟩ | ⟨-, hid⟩
    · exact hself
    · exact (h.explains other id hid).mono (hext.get?_eq (h.below other id hid)) hrecalls
  · rcases hcases other id hid with ⟨rfl, rfl⟩ | ⟨-, hid⟩
    · exact hplain
    · rw [hext.get?_eq (h.below other id hid)]
      exact h.plain other id hid
  · rcases hcases other id hid with ⟨rfl, rfl⟩ | ⟨-, hid⟩
    · rcases hcases other' _ hid' with ⟨rfl, -⟩ | ⟨-, hid'⟩
      · rfl
      · exact absurd hid' (hold other')
    · rcases hcases other' _ hid' with ⟨-, rfl⟩ | ⟨-, hid'⟩
      · exact absurd hid (hold other)
      · exact h.own other other' id hid hid' hown hown'
  · rcases Nat.lt_or_eq_of_le (Nat.le_of_lt_succ (hsize ▸ hi)) with hi | rfl
    · obtain ⟨other, hother⟩ := h.led i hi
      exact ⟨other, hrecalls _ _ hother⟩
    · exact ⟨native, hentries ▸ List.lookup_cons_self⟩

/-- A number is completed with what the registry says. -/
theorem Explained.fill (h : t.Explained registry) (hnative : t.byNative.lookup native = some d.id)
    (hform : form registry native = .own name isNullable contents) (hpending : t.get? d.id = none)
    (hplain : optionalShape? d = none) (hname : d.name = name) (hnullable : d.nullable = isNullable)
    (hfinds : Finds t (contents (find registry) d.id) ⟨d.arguments, d.shape⟩) :
    (t.fill d).Explained registry := by
  have hself := get?_fill_self (h.below _ _ hnative)
  have hrecalls : (t.fill d).Recalls t := fun _ _ hid => hid
  have hsize : (t.fill d).slots.size = t.slots.size := by simp [TypeTable.fill]
  refine ⟨fun other id hid => ?_, fun other id hid => ?_, fun other id hid => ?_, h.own,
    fun i hi => h.led i (hsize ▸ hi)⟩
  · rw [hsize]
    exact h.below other id hid
  · by_cases hsame : id = d.id
    · have hother := h.explains other id hid
      unfold Explains at hother ⊢
      cases hform' : form registry other with
      | none e =>
          rw [hform'] at hother
          exact hother
      | shared next =>
          rw [hform'] at hother
          exact hother
      | own name' isNullable' contents' =>
          -- no other expression has the number as its own
          have heq : other = native :=
            h.own other native id hid (hsame ▸ hnative) ⟨_, _, _, hform'⟩ ⟨_, _, _, hform⟩
          rw [heq, hform] at hform'
          cases hform'
          intro e he
          rw [hsame, hself] at he
          cases he
          exact ⟨hsame.symm, hname, hnullable, hsame ▸ hfinds.mono hrecalls⟩
    · exact (h.explains other id hid).mono (get?_fill_of_ne hsame) hrecalls
  · have hbefore := h.plain other id hid
    by_cases hsame : id = d.id
    · rw [hsame, hself, ← hbefore, hsame, hpending]
      exact hplain
    · rw [get?_fill_of_ne hsame]
      exact hbefore

/-- An expression leads where another does, possibly for the second time. -/
theorem Explained.identify (h : t.Explained registry) (hform : form registry native = .shared other)
    (hother : t.byNative.lookup other = some id) :
    (t.identify native id).Explained registry ∧ (t.identify native id).Recalls t := by
  have hcases : ∀ next i, (t.identify native id).byNative.lookup next = some i →
      (next = native ∧ i = id) ∨ t.byNative.lookup next = some i := by
    intro next i hi
    by_cases hsame : next = native
    · rw [TypeTable.identify, hsame, List.lookup_cons_self, Option.some.injEq] at hi
      exact .inl ⟨hsame, hi.symm⟩
    · rw [TypeTable.identify, lookup_cons_of_ne hsame] at hi
      exact .inr hi
  have hrecalls : (t.identify native id).Recalls t := by
    intro next i hi
    by_cases hsame : next = native
    · have hnext := h.explains next i hi
      rw [hsame, Explains, hform] at hnext
      dsimp only at hnext
      rw [hother] at hnext
      rw [TypeTable.identify, hsame, List.lookup_cons_self, hnext]
    · rw [TypeTable.identify, lookup_cons_of_ne hsame, hi]
  have hnotOwn : ¬ IsOwn registry native := by
    rintro ⟨_, _, _, hown⟩
    rw [hform] at hown
    cases hown
  refine ⟨⟨fun next i hi => ?_, fun next i hi => ?_, fun next i hi => ?_,
    fun next next' i hi hi' hown hown' => ?_, fun i hi => ?_⟩, hrecalls⟩
  · rcases hcases next i hi with ⟨rfl, rfl⟩ | hi
    · exact h.below other _ hother
    · exact h.below next i hi
  · rcases hcases next i hi with ⟨rfl, rfl⟩ | hi
    · rw [Explains, hform]
      exact hrecalls other _ hother
    · exact (h.explains next i hi).mono rfl hrecalls
  · rcases hcases next i hi with ⟨rfl, rfl⟩ | hi
    · rw [(shares_of_form hform).plainShape?_eq]
      exact h.plain other _ hother
    · exact h.plain next i hi
  · rcases hcases next i hi with ⟨rfl, -⟩ | hi
    · exact absurd hown hnotOwn
    · rcases hcases next' i hi' with ⟨rfl, -⟩ | hi'
      · exact absurd hown' hnotOwn
      · exact h.own next next' i hi hi' hown hown'
  · obtain ⟨next, hnext⟩ := h.led i hi
    exact ⟨next, hrecalls _ _ hnext⟩

/-- An expression that shares the number of another leads there in both tables. -/
theorem exists_own (ht : t.Explained registry) (ht' : t'.Explained registry)
    (hi : t.byNative.lookup native = some i) (hj : t'.byNative.lookup native = some j) :
    ∃ other, IsOwn registry other ∧ t.byNative.lookup other = some i ∧
      t'.byNative.lookup other = some j := by
  induction hrank : rank registry native using Nat.strong_induction_on generalizing native with
  | _ n ih =>
      have hexplains := ht.explains native i hi
      have hexplains' := ht'.explains native j hj
      unfold Explains at hexplains hexplains'
      cases hform : form registry native with
      | none e =>
          rw [hform] at hexplains
          exact hexplains.elim
      | own name isNullable contents => exact ⟨native, ⟨_, _, _, hform⟩, hi, hj⟩
      | shared other =>
          rw [hform] at hexplains hexplains'
          have hless : rank registry other < rank registry native :=
            rank_lt_of_leads (shares_of_form hform).mem_leads
          exact ih _ (hrank ▸ hless) hexplains hexplains' rfl

/-- A descriptor is what its own expression says. -/
theorem Explained.exists_form (ht : t.Explained registry) (hd : t.get? id = some d) :
    ∃ native name isNullable contents, t.byNative.lookup native = some id ∧
      form registry native = .own name isNullable contents ∧ d.id = id ∧ d.name = name ∧
      Finds t (contents (find registry) id) ⟨d.arguments, d.shape⟩ := by
  obtain ⟨native, hnative⟩ := ht.led id.index (lt_of_get? hd)
  obtain ⟨own, ⟨name, isNullable, contents, hform⟩, hown, -⟩ := exists_own ht ht hnative hnative
  have hexplains := ht.explains own id hown
  unfold Explains at hexplains
  rw [hform] at hexplains
  obtain ⟨hid, hname, -, hfinds⟩ := hexplains d hd
  exact ⟨own, name, isNullable, contents, hown, hform, hid, hname, hfinds⟩

end TypeTable

/-! ## A resolution keeps a table explained -/

namespace Resolution

open TypeTable

section Equality

/-- Types whose numbers are the same are the same. -/
theorem Contents.eq_of_agrees {c c' : Contents} (h : c.Agrees Eq c') : c = c' := by
  have hself : ∀ shape : TypeShape, shape.renumber id = shape := by
    intro shape
    have hmembers : ∀ m : Members, m.renumber id = m := fun m => by
      have hproperties : m.properties.map (Property.renumber id) = m.properties :=
        List.map_id'' (fun _ => rfl) _
      rw [Members.renumber, hproperties, Option.map_id_fun, id]
    cases shape with
    | structured m => rw [TypeShape.renumber, hmembers]
    | resource m a =>
        have hparent : a.parent.map (ResourceParent.renumber id) = a.parent := by
          cases a.parent <;> rfl
        rw [TypeShape.renumber, hmembers, ResourceAddress.renumber, hparent, id]
    | _ => rfl
  obtain ⟨arguments, shape⟩ := c
  obtain ⟨arguments', shape'⟩ := c'
  have harguments : arguments = arguments' := List.forall₂_eq_eq_eq ▸ h.arguments
  have hshape : shape = shape' := by
    rw [← hself shape]
    exact h.shape.renumber_eq fun i j hij => hij
  rw [harguments, hshape]

end Equality

variable {registry : Registry} {s s' : Session} {native : NativeType} {id : TypeId} {name : String}
  {isNullable : Bool} {contents : Resolver → TypeId → Resolution Contents} {resolve : Resolver}

/-- The first step keeps the table explained, and what it answers the second finds from then on. -/
def replaying (registry : Registry) : Comparison where
  Related A x y := ∀ s a s', s.table.Explained registry → x.runOn s = (.ok a, s') →
    s'.table.Explained registry ∧ s.table.Grows s'.table ∧ ∃ b, A a b ∧ Finds s'.table y b
  related_pure {_ _ a b} hab := by
    intro s a' s' hs hrun
    cases hrun
    exact ⟨hs, .refl _, b, hab, fun _ _ => rfl⟩
  related_bind {_ _ _ _ x y f g} hx hf := by
    intro s c s' hs hrun
    obtain ⟨a, s₁, hfirst, hrest⟩ := exists_of_bind hrun
    obtain ⟨hs₁, hgrows₁, b, hab, hfinds₁⟩ := hx s a s₁ hs hfirst
    obtain ⟨hs', hgrows', d, hcd, hfinds'⟩ := hf a b hab s₁ c s' hs₁ hrest
    refine ⟨hs', hgrows₁.trans hgrows', d, hcd, fun later hlater => ?_⟩
    rw [Action.runOn_bind, hfinds₁.mono hgrows'.recalls later hlater]
    exact hfinds' later hlater
  related_settled outcome := by
    intro s a s' hs hrun
    obtain ⟨houtcome, rfl⟩ := eq_of_settled hrun
    exact ⟨hs, .refl _, a, rfl, fun later _ => by rw [runOn_settled, houtcome]⟩

/-- The outcome of resolving `native`: the table is explained, and the expression leads to the answer. -/
structure Enters (registry : Registry) (t : TypeTable) (native : NativeType) (id : TypeId) (t' : TypeTable) :
    Prop where
  explained : t'.Explained registry
  grows : t.Grows t'
  leads : t'.byNative.lookup native = some id
  /-- What is optional once more is settled without expressions that wait for it. -/
  others : (plainShape? registry native).isSome = true → ∀ other, rank registry native < rank registry other →
    t'.byNative.lookup other = t.byNative.lookup other

theorem related_replaying (h : ∀ native s id s', s.table.Explained registry →
      (resolve native).runOn s = (.ok id, s') → Enters registry s.table native id s'.table)
    (native : NativeType) :
    (replaying registry).Related Eq (resolve native) (find registry native) := by
  intro s id s' hs hrun
  have henters := h native s id s' hs hrun
  exact ⟨henters.explained, henters.grows, id, rfl,
    fun later hlater => runOn_find (hlater native id henters.leads)⟩

/-- A type whose parts are settled already is entered and completed at once. -/
theorem table_of_enter_pure {c : Contents}
    (hrun : (enter native name isNullable fun _ => pure c).runOn s = (.ok id, s')) :
    id = ⟨s.table.slots.size⟩ ∧ s'.table = (s.table.reserve native name).2.fill
      ⟨⟨s.table.slots.size⟩, name, isNullable, c.arguments, c.shape⟩ := by
  cases hrun
  exact ⟨rfl, rfl⟩

theorem enters_pure (hs : s.table.Explained registry) (hnew : s.table.byNative.lookup native = none)
    (hform : form registry native = .own name isNullable contents) {c : Contents}
    (hfinds : ∀ new t, TypeTable.Recalls t s.table → Finds t (contents (find registry) new) c)
    (hrun : (enter native name isNullable fun _ => pure c).runOn s = (.ok id, s')) :
    Enters registry s.table native id s'.table := by
  obtain ⟨rfl, htable⟩ := table_of_enter_pure hrun
  have hentries : s'.table.byNative = (native, ⟨s.table.slots.size⟩) :: s.table.byNative := by rw [htable]; rfl
  have hsize : s'.table.slots.size = s.table.slots.size + 1 := by
    simp [htable, TypeTable.fill, TypeTable.reserve]
  have hext : s.table.Extends s'.table := by
    refine ⟨by omega, fun i hi => ?_⟩
    have hne : s.table.slots.size ≠ i := Nat.ne_of_gt hi
    simp [htable, TypeTable.fill, TypeTable.reserve, Array.getElem?_setIfInBounds_ne hne,
      Array.getElem?_push, hne.symm]
  have hself : s'.table.get? ⟨s.table.slots.size⟩ =
      some ⟨⟨s.table.slots.size⟩, name, isNullable, c.arguments, c.shape⟩ := by
    rw [htable]
    exact get?_fill_self (d := ⟨⟨s.table.slots.size⟩, name, isNullable, c.arguments, c.shape⟩)
      (by simp [TypeTable.reserve])
  have hrecalls : s'.table.Recalls s.table := recalls_cons hnew hentries
  have hanswer := hfinds ⟨s.table.slots.size⟩ s'.table hrecalls
  refine ⟨hs.cons hnew hentries hext hsize ?_ ?_, ⟨hext, hrecalls⟩,
    hentries ▸ List.lookup_cons_self, fun _ other hother => ?_⟩
  · rw [Explains, hform]
    intro d hd
    rw [hself] at hd
    cases hd
    exact ⟨rfl, rfl, rfl, hanswer⟩
  · rw [hself, Option.bind_some]
    exact (owns_of_form hform).optionalShape?_eq (hanswer s' fun _ _ h => h)
  · rw [hentries]
    refine lookup_cons_of_ne ?_
    rintro rfl
    exact absurd hother (Nat.lt_irrefl _)

/-- A type whose parts are resolved while its number is pending. -/
theorem enters_own (h : ∀ native s id s', s.table.Explained registry →
      (resolve native).runOn s = (.ok id, s') → Enters registry s.table native id s'.table)
    (hs : s.table.Explained registry) (hnew : s.table.byNative.lookup native = none)
    (hform : form registry native = .own name isNullable contents)
    (hplain : plainShape? registry native = none)
    (hrun : (enter native name isNullable (contents resolve)).runOn s = (.ok id, s')) :
    Enters registry s.table native id s'.table := by
  obtain ⟨new, s₁, hreserve, hrest⟩ := exists_of_bind hrun
  obtain ⟨c, s₂, hinside, hfill⟩ := exists_of_bind hrest
  rw [runOn_reserve] at hreserve
  obtain ⟨hid, hsession⟩ : (⟨s.table.slots.size⟩ : TypeId) = new ∧ (s.reserve native name).2 = s₁ := by
    cases hreserve
    exact ⟨rfl, rfl⟩
  subst hid
  have htable : s₁.table = (s.table.reserve native name).2 := by rw [← hsession]; rfl
  have hentries : s₁.table.byNative = (native, ⟨s.table.slots.size⟩) :: s.table.byNative := by
    rw [htable]
    rfl
  have hnone : s₁.table.get? ⟨s.table.slots.size⟩ = none := by
    rw [htable, get?_reserve]
    simp [TypeTable.get?]
  have hsize : s₁.table.slots.size = s.table.slots.size + 1 := by simp [htable, TypeTable.reserve]
  have hext : s.table.Extends s₁.table := by
    refine ⟨by omega, fun i hi => ?_⟩
    simp [htable, TypeTable.reserve, Array.getElem?_push, Nat.ne_of_lt hi]
  have hs₁ : s₁.table.Explained registry := by
    refine hs.cons hnew hentries hext hsize ?_ (by rw [hnone, hplain]; rfl)
    rw [Explains, hform]
    intro d hd
    rw [hnone] at hd
    cases hd
  -- the parts are resolved
  have hlike : (replaying registry).Related (Contents.Agrees Eq) (contents resolve ⟨s.table.slots.size⟩)
      (contents (find registry) ⟨s.table.slots.size⟩) :=
    (replaying registry).related_contents (related_replaying h) (owns_of_form hform) rfl
  obtain ⟨hs₂, hgrows, c', hagrees, hfinds⟩ := hlike s₁ c s₂ hs₁ hinside
  rw [← Contents.eq_of_agrees hagrees] at hfinds
  -- and the number is completed
  have hleads : s₂.table.byNative.lookup native = some ⟨s.table.slots.size⟩ :=
    hgrows.recalls native _ (hentries ▸ List.lookup_cons_self)
  have hpending : s₂.table.get? ⟨s.table.slots.size⟩ = none := by
    rw [hgrows.slots.get?_eq (by rw [hsize]; exact Nat.lt_succ_self _), hnone]
  have hshape : optionalShape? ⟨⟨s.table.slots.size⟩, name, isNullable, c.arguments, c.shape⟩ =
      plainShape? registry native := (owns_of_form hform).optionalShape?_eq hinside
  obtain ⟨hanswer, hlast⟩ : (⟨s.table.slots.size⟩ : TypeId) = id ∧ s'.table =
      s₂.table.fill ⟨⟨s.table.slots.size⟩, name, isNullable, c.arguments, c.shape⟩ := by
    cases hfill
    exact ⟨rfl, rfl⟩
  subst hanswer
  refine ⟨?_, ⟨?_, fun other i hi => ?_⟩, ?_, fun hsome => ?_⟩
  · rw [hlast]
    exact hs₂.fill hleads hform hpending (hshape.trans hplain) rfl rfl hfinds
  · rw [hlast]
    refine ⟨?_, fun i hi => ?_⟩
    · simpa [TypeTable.fill] using Nat.le_trans (by omega) hgrows.slots.1
    · have hne : s.table.slots.size ≠ i := Nat.ne_of_gt hi
      rw [← hext.2 i hi, ← hgrows.slots.2 i (by omega)]
      simp [TypeTable.fill, Array.getElem?_setIfInBounds_ne hne]
  · rw [hlast]
    exact hgrows.recalls other i (recalls_cons hnew hentries other i hi)
  · rw [hlast]
    exact hleads
  · rw [hplain] at hsome
    cases hsome

/-- An expression that leads where another does, which was just resolved. -/
theorem enters_identify {other : NativeType} {t : TypeTable} (h : Enters registry t other id s.table)
    (hform : form registry native = .shared other) :
    Enters registry t native id (s.identify native id).table := by
  obtain ⟨hexplained, hrecalls⟩ := h.explained.identify hform h.leads
  have hshares := shares_of_form hform
  refine ⟨hexplained, ⟨⟨h.grows.slots.1, h.grows.slots.2⟩, fun next i hi => ?_⟩, List.lookup_cons_self,
    fun hplain next hnext => ?_⟩
  · exact hrecalls next i (h.grows.recalls next i hi)
  · have hrank := rank_lt_of_leads hshares.mem_leads
    have hne : next ≠ native := by
      rintro rfl
      exact absurd hnext (Nat.lt_irrefl _)
    rw [hshares.plainShape?_eq] at hplain
    exact (lookup_cons_of_ne hne).trans (h.others hplain next (Nat.lt_trans hrank hnext))

theorem enters_nullable (h : ∀ native s id s', s.table.Explained registry →
      (resolve native).runOn s = (.ok id, s') → Enters registry s.table native id s'.table)
    {inner : NativeType} (hs : s.table.Explained registry)
    (hnew : s.table.byNative.lookup (.nullable inner) = none)
    (hrun : (nullable resolve (.nullable inner) inner).runOn s = (.ok id, s')) :
    Enters registry s.table (.nullable inner) id s'.table := by
  obtain ⟨innerId, s₁, hinner, hrest⟩ := exists_of_bind hrun
  obtain ⟨d, s₂, hget, hmatch⟩ := exists_of_bind hrest
  cases hget
  have henters := h inner s innerId s₁ hs hinner
  rw [henters.explained.plain inner innerId henters.leads] at hmatch
  have hrank : rank registry inner < rank registry (.nullable inner) :=
    rank_lt_of_leads (by exact List.mem_cons_self)
  cases hplain : plainShape? registry inner with
  | none =>
      rw [hplain] at hmatch
      cases hmatch
      exact enters_identify henters (by rw [form, hplain])
  | some shape =>
      rw [hplain] at hmatch
      -- the type inside is settled without entering the optional one
      have hnew₁ : s₁.table.byNative.lookup (.nullable inner) = none :=
        (henters.others (by rw [hplain]; rfl) _ hrank).trans hnew
      have hform : form registry (.nullable inner) = .own (NativeType.nullable inner).text true
          fun resolve _ => optionalContents resolve inner shape := by rw [form, hplain]
      have hlast := enters_pure henters.explained hnew₁ hform (c := ⟨[innerId], shape⟩)
        (fun new t ht later hlater => by
          rw [optionalContents, Action.runOn_bind, runOn_find (hlater _ _ (ht _ _ henters.leads))]
          rfl) hmatch
      refine ⟨hlast.explained, henters.grows.trans hlast.grows, hlast.leads, fun hsome other hother => ?_⟩
      rw [hlast.others hsome other hother]
      exact henters.others (by rw [hplain]; rfl) other (Nat.lt_trans hrank hother)

/-- Types that are optional once more have no parts but for an optional type itself. -/
theorem exists_of_plainShape? (howns : Owns registry native name isNullable contents)
    (hnullable : ∀ inner, native ≠ .nullable inner) (hplain : (plainShape? registry native).isSome = true) :
    ∃ c, contents = fun _ _ => pure c := by
  cases howns with
  | value kind => exact ⟨_, rfl⟩
  | enum henum => exact ⟨_, rfl⟩
  | optional h => exact absurd rfl (hnullable _)
  | list element => cases hplain
  | map value => cases hplain
  | source h hsource hchain =>
      rw [h] at hplain
      cases hplain

/-- **A resolution keeps a table explained.** -/
theorem enters_run (registry : Registry) (depth : Nat) (native : NativeType) (s : Session) (id : TypeId)
    (s' : Session) (hs : s.table.Explained registry)
    (hrun : (run registry depth native).runOn s = (.ok id, s')) :
    Enters registry s.table native id s'.table := by
  induction depth generalizing native s id s' with
  | zero =>
      obtain ⟨rfl, hlookup⟩ := lookup_of_find hrun
      exact ⟨hs, .refl _, hlookup, fun _ _ _ => rfl⟩
  | succ depth ih =>
      rw [run, runOn_lookUp] at hrun
      cases hlookup : s.table.byNative.lookup native with
      | some known =>
          rw [hlookup] at hrun
          cases hrun
          exact ⟨hs, .refl _, hlookup, fun _ _ _ => rfl⟩
      | none =>
          rw [hlookup] at hrun
          by_cases hnullable : ∃ inner, native = .nullable inner
          · obtain ⟨inner, rfl⟩ := hnullable
            exact enters_nullable ih hs hlookup hrun
          · have hother : ∀ inner, native ≠ .nullable inner := fun inner heq => hnullable ⟨inner, heq⟩
            dsimp only at hrun
            rw [runOn_build hother] at hrun
            cases hform : form registry native with
            | none e =>
                rw [hform] at hrun
                cases hrun
            | shared next =>
                rw [hform] at hrun
                obtain ⟨nextId, s₁, hnext, hidentify⟩ := exists_of_bind hrun
                cases hidentify
                exact enters_identify (ih next s id s₁ hs hnext) hform
            | own name isNullable contents =>
                rw [hform] at hrun
                cases hplain : plainShape? registry native with
                | none => exact enters_own ih hs hlookup hform hplain hrun
                | some shape =>
                    obtain ⟨c, rfl⟩ := exists_of_plainShape? (owns_of_form hform) hother (by rw [hplain]; rfl)
                    exact enters_pure hs hlookup hform (fun _ _ _ _ _ => rfl) hrun

end Resolution

/-! ## Graphs -/

namespace TypeGraph

open TypeTable

variable {registry : Registry} {g g₀ : TypeGraph}

theorem explained_resolveWithin (h : g.table.Explained g.registry) (depth : Nat) (native : NativeType) :
    (g.resolveWithin depth native).2.table.Explained g.registry := by
  cases hrun : (Resolution.run g.registry depth native.canonical).runOn (.begin g.table) with
  | mk outcome s =>
      cases outcome with
      | error e =>
          rw [resolveWithin_of_error hrun]
          exact h
      | ok id =>
          rw [resolveWithin_of_ok hrun]
          exact (Resolution.enters_run _ _ _ _ _ _ h hrun).explained

/-- The graph is one of the registry, and everything in it is what the registry says. -/
def IsExplained (registry : Registry) (g : TypeGraph) : Prop :=
  g.registry = registry ∧ g.table.Explained registry

theorem IsExplained.resolveWithin (h : g.IsExplained registry) (depth : Nat) (native : NativeType) :
    (g.resolveWithin depth native).2.IsExplained registry := by
  obtain ⟨rfl, hexplained⟩ := h
  exact ⟨registry_resolveWithin g depth native, explained_resolveWithin hexplained depth native⟩

/-- **Everything in a graph is what its registry says, whatever was asked of it.** -/
theorem explained_after (hmade : ofRegistry registry = .ok g₀) (calls : List (Nat × TypeCall)) :
    (g₀.after calls).IsExplained registry := by
  refine after_induction (IsExplained registry) (fun _ depth native h => h.resolveWithin depth native) ?_ calls
  exact resolveAll_induction (IsExplained registry) (fun _ native h => h.resolveWithin _ native)
    ⟨rfl, explained_empty registry⟩ hmade

end TypeGraph

end ResourceQuery
