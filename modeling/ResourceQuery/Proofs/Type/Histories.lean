import Mathlib.Data.Set.Function
import Mathlib.Logic.Relation
import ResourceQuery.Proofs.Type.Description

set_option autoImplicit false

/-! # Resolutions do not depend on what was resolved before

Two graphs of one registry may have been asked for different things in a different order, some of it in vain.
Their numbers differ then, and one of them may meet as an expression for a type under way what the other meets
as a type of its own. Still an expression that can be resolved in one of them can be resolved in the other, and
what it comes to is the same in both, up to the numbers (`TypeGraph.resolves_alike`).

Numbers correspond if an expression has the one in the first graph and the other in the second
(`TypeTable.Corresponds`). Each number in a graph is that of one expression alone, if those that only share
it are left out; so the correspondence goes one to one. What the descriptors have in common is what is explained
in both graphs (`ResourceQuery.Proofs.Type.Description`).

That a resolution succeeds elsewhere is shown step by step. All that it comes to is known to the graph in which it
has succeeded, so nothing is wrong with any of it; and these are finitely many types, so there is a depth that
suffices (`Resolution.succeeds_run_of_known`).
-/

namespace ResourceQuery

/-! ## Numbers that correspond -/

namespace TypeTable

open Resolution

variable {registry : Registry} {t t' : TypeTable} {i j j' : TypeId} {native : NativeType} {d e : Descriptor}

/-- An expression has the number `i` in the one table, and `j` in the other. -/
def Corresponds (t t' : TypeTable) (i j : TypeId) : Prop :=
  ∃ native, t.byNative.lookup native = some i ∧ t'.byNative.lookup native = some j

theorem Corresponds.symm (h : t.Corresponds t' i j) : t'.Corresponds t j i := by
  obtain ⟨native, hi, hj⟩ := h
  exact ⟨native, hj, hi⟩

/-- **A number corresponds to one number at most.** -/
theorem Corresponds.unique (ht : t.Explained registry) (ht' : t'.Explained registry)
    (h : t.Corresponds t' i j) (h' : t.Corresponds t' i j') : j = j' := by
  obtain ⟨native, hi, hj⟩ := h
  obtain ⟨native', hi', hj'⟩ := h'
  obtain ⟨own, hown, hi, hj⟩ := exists_own ht ht' hi hj
  obtain ⟨own', hown', hi', hj'⟩ := exists_own ht ht' hi' hj'
  have hsame : own = own' := ht.own own own' i hi hi' hown hown'
  rw [hsame, hj'] at hj
  exact (Option.some.inj hj).symm

end TypeTable

namespace Resolution

/-- What the one step looks up in `t` and the other in `t'` is related, where both find something. -/
def finding (t t' : TypeTable) : Comparison where
  Related A x y := ∀ a s b s', x.runOn (.begin t) = (.ok a, s) → y.runOn (.begin t') = (.ok b, s') →
    s = .begin t ∧ s' = .begin t' ∧ A a b
  related_pure hab := by
    intro a s b s' hx hy
    cases hx
    cases hy
    exact ⟨rfl, rfl, hab⟩
  related_bind hx hf := by
    intro c s d s' hc hd
    obtain ⟨a, s₁, ha, hc⟩ := exists_of_bind hc
    obtain ⟨b, s₂, hb, hd⟩ := exists_of_bind hd
    obtain ⟨rfl, rfl, hab⟩ := hx a s₁ b s₂ ha hb
    exact hf a b hab c s d s' hc hd
  related_settled outcome := by
    intro a s b s' hx hy
    obtain ⟨ha, rfl⟩ := eq_of_settled hx
    obtain ⟨hb, rfl⟩ := eq_of_settled hy
    rw [ha] at hb
    exact ⟨rfl, rfl, Except.ok.inj hb⟩

theorem related_finding (registry : Registry) (t t' : TypeTable) (native : NativeType) :
    (finding t t').Related (t.Corresponds t') (find registry native) (find registry native) := by
  intro i s j s' hi hj
  obtain ⟨hs, hleads⟩ := lookup_of_find hi
  obtain ⟨hs', hleads'⟩ := lookup_of_find hj
  exact ⟨hs, hs', native, hleads, hleads'⟩

end Resolution

namespace TypeTable

open Resolution

variable {registry : Registry} {t t' : TypeTable} {i j : TypeId} {native : NativeType} {d e : Descriptor}

/-- **Descriptors with numbers that correspond agree.** -/
theorem Corresponds.agrees (ht : t.Explained registry) (ht' : t'.Explained registry)
    (h : t.Corresponds t' i j) (hd : t.get? i = some d) (he : t'.get? j = some e) :
    d.Agrees (t.Corresponds t') e := by
  have hij := h
  obtain ⟨native, hi, hj⟩ := h
  obtain ⟨own, ⟨name, isNullable, contents, hform⟩, hi, hj⟩ := exists_own ht ht' hi hj
  have hexplains := ht.explains own i hi
  have hexplains' := ht'.explains own j hj
  unfold Explains at hexplains hexplains'
  rw [hform] at hexplains hexplains'
  obtain ⟨hid, hname, hnullable, hfinds⟩ := hexplains d hd
  obtain ⟨hid', hname', hnullable', hfinds'⟩ := hexplains' e he
  have hlike : (finding t t').Related (Contents.Agrees (t.Corresponds t')) (contents (find registry) i)
      (contents (find registry) j) :=
    (finding t t').related_contents (related_finding registry t t') (owns_of_form hform) hij
  obtain ⟨-, -, harguments, hshape⟩ :=
    hlike _ _ _ _ (hfinds (.begin t) fun _ _ h => h) (hfinds' (.begin t') fun _ _ h => h)
  exact ⟨by rw [hid, hid']; exact hij, hname.trans hname'.symm, hnullable.trans hnullable'.symm, harguments,
    hshape⟩

/-! ## What a type comes to -/

theorem exists_of_forall₂ {α : Type} {R : α → α → Prop} {xs ys : List α} (h : List.Forall₂ R xs ys) {x : α}
    (hx : x ∈ xs) : ∃ y ∈ ys, R x y := by
  induction h with
  | nil => cases hx
  | @cons a b _ _ hab _ ih =>
      rcases List.mem_cons.mp hx with rfl | hx
      · exact ⟨b, List.mem_cons_self, hab⟩
      · obtain ⟨y, hy, hxy⟩ := ih hx
        exact ⟨y, List.mem_cons_of_mem _ hy, hxy⟩

/-- The descriptor of `i` mentions `j`. -/
def Mentions (t : TypeTable) (i j : TypeId) : Prop :=
  ∃ d, t.get? i = some d ∧ j ∈ d.mentions

/-- The numbers that a descriptor mentions, those that these mention, and so on. -/
def Reachable (t : TypeTable) (id : TypeId) : Set TypeId :=
  { i | Relation.ReflTransGen t.Mentions id i }

/-- What is found in the one table from `i` on is in the other from `j` on. -/
theorem exists_reachable (ht : t.Explained registry) (ht' : t'.Explained registry)
    (hcomplete : t'.IsConsistent) (hij : t.Corresponds t' i j) {k : TypeId} (hk : k ∈ t.Reachable i) :
    ∃ l, t.Corresponds t' k l ∧ l ∈ t'.Reachable j := by
  induction hk with
  | refl => exact ⟨j, hij, .refl⟩
  | tail _ hmentions ih =>
      obtain ⟨l, hkl, hl⟩ := ih
      obtain ⟨d, hd, hmentioned⟩ := hmentions
      obtain ⟨native, -, hlookup⟩ := id hkl
      obtain ⟨e, he⟩ := hcomplete.exists_of_lookup hlookup
      obtain ⟨l', hl', hkl'⟩ := exists_of_forall₂ (hkl.agrees ht ht' hd he).mentions hmentioned
      exact ⟨l', hkl', hl.tail ⟨e, he, hl'⟩⟩

/-- What is found from `id` on in `t` is found from `id'` on in `t'`, under the numbers that `σ` gives. -/
structure SameFrom (t t' : TypeTable) (id id' : TypeId) (σ : TypeId → TypeId) : Prop where
  start : σ id = id'
  bijOn : Set.BijOn σ (t.Reachable id) (t'.Reachable id')
  descriptors : ∀ i ∈ t.Reachable id, ∃ d, t.get? i = some d ∧ t'.get? (σ i) = some (d.renumber σ)

/-- Numbers that correspond stand for the same types. -/
theorem Corresponds.exists_sameFrom (ht : t.Explained registry) (ht' : t'.Explained registry)
    (hcomplete : t.IsConsistent) (hcomplete' : t'.IsConsistent) (hij : t.Corresponds t' i j) :
    ∃ σ, t.SameFrom t' i j σ := by
  classical
  let σ : TypeId → TypeId := fun k => if h : ∃ l, t.Corresponds t' k l then h.choose else k
  have hσ : ∀ k l, t.Corresponds t' k l → σ k = l := by
    intro k l hkl
    have hsome : ∃ l, t.Corresponds t' k l := ⟨l, hkl⟩
    have hchoice : σ k = hsome.choose := dif_pos hsome
    rw [hchoice]
    exact hsome.choose_spec.unique ht ht' hkl
  have hthere : ∀ k ∈ t.Reachable i, t.Corresponds t' k (σ k) ∧ σ k ∈ t'.Reachable j := by
    intro k hk
    obtain ⟨l, hkl, hl⟩ := exists_reachable ht ht' hcomplete' hij hk
    rw [hσ k l hkl]
    exact ⟨hkl, hl⟩
  refine ⟨σ, hσ i j hij, ⟨fun k hk => (hthere k hk).2, fun k hk k' hk' hsame => ?_, fun l hl => ?_⟩,
    fun k hk => ?_⟩
  · have hback := (hthere k hk).1.symm
    rw [hsame] at hback
    exact hback.unique ht' ht (hthere k' hk').1.symm
  · obtain ⟨k, hlk, hk⟩ := exists_reachable ht' ht hcomplete hij.symm hl
    exact ⟨k, hk, hσ k l hlk.symm⟩
  · obtain ⟨hcorresponds, -⟩ := hthere k hk
    obtain ⟨native, hlookup, hlookup'⟩ := id hcorresponds
    obtain ⟨d, hd⟩ := hcomplete.exists_of_lookup hlookup
    obtain ⟨e, he⟩ := hcomplete'.exists_of_lookup hlookup'
    exact ⟨d, hd, by rw [he, (hcorresponds.agrees ht ht' hd he).renumber_eq hσ]⟩

end TypeTable

/-! ## What succeeds once succeeds everywhere -/

namespace Resolution

open TypeTable

variable {registry : Registry} {t : TypeTable} {native : NativeType} {id : TypeId} {natives : List NativeType}
  {pending : Nat}

/-- There is room for all types that are left, while `pending` others are under way. -/
def HasRoom (natives : List NativeType) (pending : Nat) (s : Session) : Prop :=
  unknown natives s + pending ≤ natives.length

/-- What the first step finds in `t` the second can resolve wherever there is room. -/
def repeating (t : TypeTable) (natives : List NativeType) (pending : Nat) : Comparison where
  Related A x y := ∀ a s₁ s, x.runOn (.begin t) = (.ok a, s₁) → HasRoom natives pending s →
    s₁ = .begin t ∧ ∃ b s', y.runOn s = (.ok b, s') ∧ A a b ∧ HasRoom natives pending s'
  related_pure {_ _ _ b} hab := by
    intro a s₁ s hx hs
    cases hx
    exact ⟨rfl, b, s, rfl, hab, hs⟩
  related_bind {_ _ _ _ x y f g} hx hf := by
    intro c s₁ s hc hs
    obtain ⟨a, s₂, ha, hc⟩ := exists_of_bind hc
    obtain ⟨rfl, b, s', hb, hab, hs'⟩ := hx a s₂ s ha hs
    obtain ⟨hsame, d, s'', hd, hcd, hs''⟩ := hf a b hab c s₁ s' hc hs'
    exact ⟨hsame, d, s'', by rw [Action.runOn_bind, hb]; exact hd, hcd, hs''⟩
  related_settled outcome := by
    intro a s₁ s hx hs
    obtain ⟨houtcome, rfl⟩ := eq_of_settled hx
    exact ⟨rfl, a, s, by rw [runOn_settled, houtcome], rfl, hs⟩

/-- The step succeeds, and leaves room. -/
def Succeeds (natives : List NativeType) (pending : Nat) (x : Resolution TypeId) (s : Session) : Prop :=
  ∃ id s', x.runOn s = (.ok id, s') ∧ HasRoom natives pending s'

section Succeeds

variable {s : Session} {resolve : Resolver}

theorem succeeds_of_lookup (hs : HasRoom natives pending s) (h : s.table.byNative.lookup native = some id)
    (depth : Nat) : Succeeds natives pending (run registry depth native) s :=
  ⟨id, s, runOn_run_of_lookup h depth, hs⟩

theorem succeeds_identify {other : NativeType} (h : Succeeds natives pending (resolve other) s) :
    Succeeds natives pending (resolve other >>= fun id => identify native id) s := by
  obtain ⟨id, s₁, hother, hs₁⟩ := h
  refine ⟨id, s₁.identify native id, ?_, Nat.le_trans (Nat.add_le_add_right ?_ _) hs₁⟩
  · rw [Action.runOn_bind, hother]
    rfl
  · exact unknown_cons_le natives rfl

theorem succeeds_nullable {inner : NativeType} (h : Succeeds natives pending (resolve inner) s) :
    Succeeds natives pending (nullable resolve native inner) s := by
  obtain ⟨id, s₁, hinner, hs₁⟩ := h
  have hentered : ∀ s₂ id', s₂.table.byNative = (native, id') :: s₁.table.byNative →
      HasRoom natives pending s₂ := fun s₂ id' h =>
    Nat.le_trans (Nat.add_le_add_right (unknown_cons_le natives h) _) hs₁
  have hrun : (descriptor? id).runOn s₁ = (.ok (s₁.table.get? id), s₁) := rfl
  unfold Succeeds nullable
  simp only [Action.runOn_bind, hinner, hrun]
  cases (s₁.table.get? id).bind optionalShape? with
  | none =>
      refine ⟨_, _, rfl, ?_⟩
      exact hentered _ _ rfl
  | some shape =>
      refine ⟨_, _, rfl, ?_⟩
      exact hentered _ _ rfl

/-- While the parts are resolved, one more type is under way. -/
theorem succeeds_own (hnative : native ∈ natives) (hnew : s.table.byNative.lookup native = none)
    (hs : HasRoom natives pending s) {name : String} {isNullable : Bool}
    {contents : Resolver → TypeId → Resolution Contents}
    (howns : Owns registry native name isNullable contents) {c : Contents}
    (hfinds : Finds t (contents (find registry) id) c)
    (hresolve : ∀ next, (∃ i, t.byNative.lookup next = some i) → ∀ s, HasRoom natives (pending + 1) s →
      Succeeds natives (pending + 1) (resolve next) s) :
    Succeeds natives pending (enter native name isNullable (contents resolve)) s := by
  have hlike : (repeating t natives (pending + 1)).Related (Contents.Agrees fun _ _ => True)
      (contents (find registry) id) (contents resolve (s.reserve native name).1) := by
    refine (repeating t natives (pending + 1)).related_contents (fun next i s₁ s₂ hnext hs₂ => ?_) howns trivial
    obtain ⟨hsame, hleads⟩ := lookup_of_find hnext
    obtain ⟨i', s', hrun, hs'⟩ := hresolve next ⟨i, hleads⟩ s₂ hs₂
    exact ⟨hsame, i', s', hrun, trivial, hs'⟩
  have hreserved : HasRoom natives (pending + 1) (s.reserve native name).2 := by
    have hless : unknown natives (s.reserve native name).2 < unknown natives s :=
      unknown_cons_lt rfl hnative hnew
    have hroom : unknown natives s + pending ≤ natives.length := hs
    show unknown natives (s.reserve native name).2 + (pending + 1) ≤ natives.length
    omega
  obtain ⟨-, c', s₁, hinside, -, hs₁⟩ := hlike _ _ _ (hfinds (.begin t) fun _ _ h => h) hreserved
  refine ⟨(s.reserve native name).1,
    s₁.fill ⟨(s.reserve native name).1, name, isNullable, c'.arguments, c'.shape⟩, ?_, Nat.le_of_succ_le hs₁⟩
  rw [enter, Action.runOn_bind, runOn_reserve]
  dsimp only
  rw [Action.runOn_bind, hinside]
  rfl

end Succeeds

/-- Expressions that a table knows. -/
def known (t : TypeTable) : List NativeType :=
  t.byNative.map (·.1)

theorem mem_known (h : t.byNative.lookup native = some id) : native ∈ known t := by
  obtain ⟨before, after, hentries, -⟩ := List.lookup_eq_some_iff.mp h
  rw [known, hentries]
  exact List.mem_map_of_mem (f := Prod.fst) (List.mem_append_right _ List.mem_cons_self)

/-- The type inside an optional type is known with it. -/
theorem exists_inner (ht : t.Explained registry) (hcomplete : t.IsConsistent) {inner : NativeType}
    (h : t.byNative.lookup (.nullable inner) = some id) : ∃ i, t.byNative.lookup inner = some i := by
  have hexplains := ht.explains _ _ h
  unfold Explains at hexplains
  cases hplain : plainShape? registry inner with
  | none =>
      rw [form, hplain] at hexplains
      exact ⟨id, hexplains⟩
  | some shape =>
      rw [form, hplain] at hexplains
      obtain ⟨d, hd⟩ := hcomplete.exists_of_lookup h
      obtain ⟨-, -, -, hfinds⟩ := hexplains d hd
      obtain ⟨i, s₁, hinner, -⟩ := exists_of_bind (hfinds (.begin t) fun _ _ h => h)
      exact ⟨i, (lookup_of_find hinner).2⟩

/-- Where there is room for an expression, there is some for what comes inside it. -/
theorem room_inside {depth room height limit next : Nat} (hpending : room < limit)
    (hdepth : (height + 1) * (limit - room) + next ≤ depth + 1) {rest : Nat} (hrest : rest ≤ height) :
    (height + 1) * (limit - (room + 1)) + rest ≤ depth := by
  have hsplit : limit - room = limit - (room + 1) + 1 := by omega
  rw [hsplit, Nat.mul_succ] at hdepth
  omega

/-- **What is known somewhere can be resolved everywhere**, if the bound leaves room for all that is known
there. -/
theorem succeeds_run_of_known (ht : t.Explained registry) (hcomplete : t.IsConsistent) {depth : Nat}
    (hknown : ∃ id, t.byNative.lookup native = some id)
    (hdepth : (maxRank registry (known t) + 1) * ((known t).length - pending) + rank registry native ≤ depth)
    (s : Session) (hs : HasRoom (known t) pending s) :
    Succeeds (known t) pending (run registry depth native) s := by
  induction depth generalizing native pending s with
  | zero =>
      cases hlookup : s.table.byNative.lookup native with
      | some id => exact succeeds_of_lookup hs hlookup 0
      | none =>
          -- the type itself has no number yet, so there is room for it
          obtain ⟨id, hid⟩ := hknown
          have hpos := unknown_pos (mem_known hid) hlookup
          have hroom : unknown (known t) s + pending ≤ (known t).length := hs
          have hzero : (known t).length - pending = 0 := by
            rcases Nat.mul_eq_zero.mp (Nat.eq_zero_of_add_eq_zero_right (Nat.le_zero.mp hdepth)) with h | h
            · cases h
            · exact h
          omega
  | succ depth ih =>
      cases hlookup : s.table.byNative.lookup native with
      | some id => exact succeeds_of_lookup hs hlookup _
      | none =>
          obtain ⟨id, hid⟩ := hknown
          have hpos := unknown_pos (mem_known hid) hlookup
          have hroom : unknown (known t) s + pending ≤ (known t).length := hs
          have hleads : ∀ next, next ∈ leads registry native → (∃ i, t.byNative.lookup next = some i) →
              Succeeds (known t) pending (run registry depth next) s := by
            intro next hnext hthere
            have hrank := rank_lt_of_leads hnext
            exact ih hthere (by omega) s hs
          have hinside : ∀ next, (∃ i, t.byNative.lookup next = some i) → ∀ s,
              HasRoom (known t) (pending + 1) s →
                Succeeds (known t) (pending + 1) (run registry depth next) s := by
            rintro next ⟨i, hi⟩
            exact ih ⟨i, hi⟩ (room_inside (by omega) hdepth (rank_le_maxRank (mem_known hi)))
          have hbuild : (run registry (depth + 1) native).runOn s =
              (build registry (run registry depth) native).runOn s := by
            rw [run, runOn_lookUp, hlookup]
          rw [Succeeds, hbuild]
          by_cases hnullable : ∃ inner, native = .nullable inner
          · obtain ⟨inner, rfl⟩ := hnullable
            exact succeeds_nullable (hleads inner List.mem_cons_self (exists_inner ht hcomplete hid))
          · rw [runOn_build fun inner heq => hnullable ⟨inner, heq⟩]
            have hexplains := ht.explains native id hid
            unfold Explains at hexplains
            cases hform : form registry native with
            | none e =>
                rw [hform] at hexplains
                exact hexplains.elim
            | shared other =>
                rw [hform] at hexplains
                exact succeeds_identify (hleads other (shares_of_form hform).mem_leads ⟨id, hexplains⟩)
            | own name isNullable contents =>
                rw [hform] at hexplains
                obtain ⟨d, hd⟩ := hcomplete.exists_of_lookup hid
                obtain ⟨-, -, -, hfinds⟩ := hexplains d hd
                exact succeeds_own (mem_known hid) hlookup hs (owns_of_form hform) hfinds hinside

end Resolution

/-! ## Graphs -/

namespace TypeGraph

open TypeTable

variable {registry : Registry} {g g' g₀ : TypeGraph} {native : NativeType} {depth depth' : Nat}
  {id id' : TypeId}

/-- A resolution that is not cut off. -/
def IsSettled (g : TypeGraph) (depth : Nat) (native : NativeType) : Prop :=
  ∀ e, (g.resolveWithin depth native).1 = .error e → ¬ e.IsEndless

theorem isSettled_of_ok (h : (g.resolveWithin depth native).1 = .ok id) : g.IsSettled depth native := by
  intro e he
  rw [h] at he
  cases he

/-- What is known to a graph can be resolved in any graph of the registry. -/
theorem exists_ok_of_lookup (hg : g.IsExplained registry) (hcomplete : g.table.IsConsistent)
    (hid : g.table.byNative.lookup native.canonical = some id) (hg' : g'.IsExplained registry) :
    ∃ depth id, (g'.resolveWithin depth native).1 = .ok id := by
  obtain ⟨rfl, hexplained⟩ := hg
  have hstart : Resolution.HasRoom (Resolution.known g.table) 0 (.begin g'.table) := List.length_filter_le _ _
  obtain ⟨id', s', hrun, -⟩ := Resolution.succeeds_run_of_known hexplained hcomplete ⟨id, hid⟩
    (Nat.le_refl _) (.begin g'.table) hstart
  rw [← hg'.1] at hrun
  exact ⟨_, id', by rw [resolveWithin_of_ok hrun]⟩

/-- A resolution that succeeds with some bound succeeds with any that does not cut it off. -/
theorem isOk_of_isSettled (h : (g.resolveWithin depth native).1 = .ok id)
    (hsettled : g.IsSettled depth' native) : (g.resolveWithin depth' native).1 = .ok id := by
  rcases Nat.le_total depth depth' with hle | hle
  · rw [resolveWithin_eq_of_le hle (isSettled_of_ok h), h]
  · rw [← resolveWithin_eq_of_le hle hsettled, h]

/-- **A resolution does not depend on what was resolved before.** Let two graphs of a registry have been asked
for any types. An expression can be resolved in one of them if and only if it can be resolved in the other; no
bound matters for that which does not cut the resolution off. And if it is resolved in both, then all that it
comes to is the same in both, up to the numbers. -/
theorem resolves_alike (hmade : ofRegistry registry = .ok g₀) (calls calls' : List (Nat × TypeCall))
    (native : NativeType) :
    ((∃ depth id, ((g₀.after calls).resolveWithin depth native).1 = .ok id) ↔
        ∃ depth id, ((g₀.after calls').resolveWithin depth native).1 = .ok id) ∧
      (∀ depth depth', (g₀.after calls).IsSettled depth native → (g₀.after calls').IsSettled depth' native →
        ((g₀.after calls).resolveWithin depth native).1.isOk =
          ((g₀.after calls').resolveWithin depth' native).1.isOk) ∧
      ∀ depth depth' id id', ((g₀.after calls).resolveWithin depth native).1 = .ok id →
        ((g₀.after calls').resolveWithin depth' native).1 = .ok id' →
        ∃ σ, ((g₀.after calls).resolveWithin depth native).2.table.SameFrom
          ((g₀.after calls').resolveWithin depth' native).2.table id id' σ := by
  have hthere : ∀ calls calls' depth id, ((g₀.after calls).resolveWithin depth native).1 = .ok id →
      ∃ depth id, ((g₀.after calls').resolveWithin depth native).1 = .ok id := by
    intro calls calls' depth id hid
    have hcomplete := (tidy_resolveWithin (tidy_after (tidy_ofRegistry hmade) calls) depth native).isConsistent
    exact exists_ok_of_lookup ((explained_after hmade calls).resolveWithin depth native) hcomplete
      (lookup_of_resolveWithin hid) (explained_after hmade calls')
  have hsame : ∀ calls calls' depth depth', (g₀.after calls').IsSettled depth' native →
      ((g₀.after calls).resolveWithin depth native).1.isOk = true →
      ((g₀.after calls').resolveWithin depth' native).1.isOk = true := by
    intro calls calls' depth depth' hsettled hok
    cases hid : ((g₀.after calls).resolveWithin depth native).1 with
    | error e =>
        rw [hid] at hok
        cases hok
    | ok id =>
        obtain ⟨large, id', hid'⟩ := hthere calls calls' depth id hid
        rw [isOk_of_isSettled hid' hsettled]
        rfl
  refine ⟨⟨fun ⟨depth, id, hid⟩ => hthere calls calls' depth id hid,
    fun ⟨depth, id, hid⟩ => hthere calls' calls depth id hid⟩,
    fun depth depth' hsettled hsettled' => ?_, fun depth depth' id id' hid hid' => ?_⟩
  · rw [Bool.eq_iff_iff]
    exact ⟨hsame calls calls' depth depth' hsettled', hsame calls' calls depth' depth hsettled⟩
  · have htidy := tidy_after (tidy_ofRegistry hmade)
    have hcorresponds : ((g₀.after calls).resolveWithin depth native).2.table.Corresponds
        ((g₀.after calls').resolveWithin depth' native).2.table id id' :=
      ⟨native.canonical, lookup_of_resolveWithin hid, lookup_of_resolveWithin hid'⟩
    exact hcorresponds.exists_sameFrom ((explained_after hmade calls).resolveWithin depth native).2
      ((explained_after hmade calls').resolveWithin depth' native).2
      (tidy_resolveWithin (htidy calls) depth native).isConsistent
      (tidy_resolveWithin (htidy calls') depth' native).isConsistent

/-- A page of optional critters is asked for, and then something that there is not. -/
def pageFirst : List (Nat × TypeCall) :=
  [(9, .byName "Page<Critter?>"), (9, .resolve (.list (.named "Ghost")))]

/-- Optional critters are one and the same list, whether a page of them was asked for before or not; but not
under the same number. -/
theorem critters_alike : ∃ g₀, ofRegistry farms = .ok g₀ ∧ ∃ id id' σ, id ≠ id' ∧
    (g₀.resolveWithin 9 (.list (.nullable (.named "Critter")))).1 = .ok id ∧
    ((g₀.after pageFirst).resolveWithin 9 (.list (.nullable (.named "Critter")))).1 = .ok id' ∧
    (g₀.resolveWithin 9 (.list (.nullable (.named "Critter")))).2.table.SameFrom
      ((g₀.after pageFirst).resolveWithin 9 (.list (.nullable (.named "Critter")))).2.table id id' σ := by
  have hnumbers : (ofRegistry farms).toOption.any (fun g₀ =>
      (g₀.resolveWithin 9 (.list (.nullable (.named "Critter")))).1.toOption.any fun id =>
        ((g₀.after pageFirst).resolveWithin 9 (.list (.nullable (.named "Critter")))).1.toOption.any
          fun id' => decide (id ≠ id')) = true := by decide +kernel
  have hok : ∀ {α : Type} {outcome : Except Error α} {a : α}, outcome.toOption = some a → outcome = .ok a := by
    intro α outcome a h
    cases outcome with
    | error e => cases h
    | ok b => exact congrArg Except.ok (Option.some.inj h)
  obtain ⟨g₀, hmade, hnumbers⟩ := (Option.any_eq_true _ _).mp hnumbers
  obtain ⟨id, hid, hnumbers⟩ := (Option.any_eq_true _ _).mp hnumbers
  obtain ⟨id', hid', hnumbers⟩ := (Option.any_eq_true _ _).mp hnumbers
  obtain ⟨-, -, hsame⟩ := resolves_alike (hok hmade) [] pageFirst (.list (.nullable (.named "Critter")))
  obtain ⟨σ, hσ⟩ := hsame 9 9 id id' (hok hid) (hok hid')
  exact ⟨g₀, hok hmade, id, id', σ, of_decide_eq_true hnumbers, hok hid, hok hid', hσ⟩

end TypeGraph

end ResourceQuery
