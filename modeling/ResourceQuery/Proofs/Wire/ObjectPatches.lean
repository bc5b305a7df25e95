import ResourceQuery.Proofs.Wire.Parallel

set_option autoImplicit false

/-! # An object that is patched, on renumbered objects

An object may be patched of which not everything may be looked at: its fields may lead anywhere, as long as the
document names none of those. In both states the fields that it names are read alike, and the copy that is
patched keeps what is in the others (`Renumbering.Copied`). So the patches are the same under other numbers
(`Renumbering.leads_readWith`).

What is known in the end is said by `Renumbering.Ended`: the objects that were made are the same under other
numbers.
-/

namespace ResourceQuery

open Reading Document

/-- What contexts do by default has no side effects. -/
theorem Context.UsesDefaults.hasNoSideEffects {ctx : Context} (h : ctx.UsesDefaults) : ctx.HasNoSideEffects where
  reference := h.reference ▸ fun n heap => Context.changesOnly_unloaded _ n heap
  setProperty := h.setProperty ▸ fun object _ v heap => Heap.changesOnly_setField heap object _ v

namespace Renumbering

variable {R : Renumbering} {k bound : Nat} {ctx : Context} {below below' : NodeReader} {n n' : Node}
  {x y copy owner : ObjectId} {s s' : ReadState}

/-! ## What readings leave alone -/

/-- What is known of the heaps stays true while objects are left alone that were there before. -/
def Lasting (R : Renumbering) (K : Heap → Heap → Prop) : Prop :=
  ∀ h h₁ h' h₁', R.start ≤ h.records.size → R.start' ≤ h'.records.size →
    Heap.ChangesOnly (fun x => R.start ≤ x.index) h h₁ →
    Heap.ChangesOnly (fun x => R.start' ≤ x.index) h' h₁' → K h h' → K h₁ h₁'

theorem Pairs.started' (h : R.Pairs s s') : R.start' ≤ s'.heap.records.size := by
  have hstarted := h.started
  have hsize := h.size
  omega

section Keeping

variable {α α' β β' : Type} {K : Heap → Heap → Prop} {Q : Nat → α → α' → Prop} {T : Nat → β → β' → Prop}
  {x : Reading α} {x' : Reading α'} {I J : ReadState → ReadState → Prop}

theorem Leads.keeping (hK : R.Lasting K) (h : Follows R.Pairs k x x' Q) (hx : Spares R.start x)
    (hx' : Spares R.start' x') : Follows (fun s s' => R.Pairs s s' ∧ K s.heap s'.heap) k x x' Q := by
  intro s s' a s₁ hk hI hrun
  obtain ⟨a', s₁', hrun', hsize, hpairs, hanswer⟩ := h s s' a s₁ hk hI.1 hrun
  have hchange := hx s hI.1.started
  have hchange' := hx' s' hI.1.started'
  rw [hrun] at hchange
  rw [hrun'] at hchange'
  exact ⟨a', s₁', hrun', hsize,
    ⟨hpairs, hK _ _ _ _ hI.1.started hI.1.started' hchange hchange' hI.2⟩, hanswer⟩

/-- What each accepted run of the first action shows of its answer. -/
theorem Leads.and_run {P : α → Prop} (h : Leads I J k x x' Q)
    (hP : ∀ s s' a s₁, I s s' → x.runOn s = (.ok a, s₁) → P a) :
    Leads I J k x x' fun k' a a' => Q k' a a' ∧ P a := by
  intro s s' a s₁ hk hI hrun
  obtain ⟨a', s₁', hrun', hsize, hJ, hanswer⟩ := h s s' a s₁ hk hI hrun
  exact ⟨a', s₁', hrun', hsize, hJ, hanswer, hP s s' a s₁ hI hrun⟩

/-- A sequence that starts by looking up a type that was known before. -/
theorem leads_atDescriptor (hI : ∀ s s', I s s' → R.Pairs s s') {type : TypeId} {d : Descriptor}
    {f : Descriptor → Reading β} {f' : Descriptor → Reading β'} (hd : R.graph.table.get? type = some d)
    (hf : Leads I J k (f d) (f' d) T) : Leads I J k (descriptor type >>= f) (descriptor type >>= f') T := by
  refine leads_bind ((follows_descriptor hI type).and_run (P := fun e => e = d) ?_)
    fun k₁ e e' hk₁ he => ?_
  · intro s s' e s₁ hs hrun
    have hget : s.graph.get type = .ok e := congrArg Prod.fst hrun
    have hknown := (hI s s' hs).grown.extends.get? hd
    exact Option.some.inj ((TypeGraph.get_eq_ok.mp hget).symm.trans hknown)
  · obtain ⟨⟨rfl, -⟩, rfl⟩ := he
    exact fun s s' a s₁ hk => hf s s' a s₁ (hk₁.trans hk)

end Keeping

theorem Reads.keeping {K : Heap → Heap → Prop} (hK : R.Lasting K) (h : R.Reads R.Pairs k bound below below')
    (hbelow : ∀ n json, Spares R.start (below n json)) (hbelow' : ∀ n json, Spares R.start' (below' n json)) :
    R.Reads (fun s s' => R.Pairs s s' ∧ K s.heap s'.heap) k bound below below' :=
  fun json hdepth k' n n' hk hn =>
    (h json hdepth k' n n' hk hn).keeping hK (hbelow n json) (hbelow' n' json)

/-! ## Objects that are not open -/

/-- The object was there before and is not open. -/
structure Excludes (R : Renumbering) (x : ObjectId) : Prop where
  before : x.index < R.start
  shut : ¬R.Old x

theorem Excludes.ne (hx : R.Excludes x) (hy : R.Open k y) : y ≠ x := by
  rintro rfl
  exact hy.elim hx.shut fun h => absurd hx.before (Nat.not_lt.mpr h.1)

/-- With `size` objects, the object is one of them and not `copy`. -/
def Live (copy : ObjectId) (size : Nat) (x : ObjectId) : Prop :=
  x.index < size ∧ x ≠ copy

theorem Live.mono {size size' : Nat} (hx : Live copy size x) (h : size ≤ size') : Live copy size' x :=
  ⟨Nat.lt_of_lt_of_le hx.1 h, hx.2⟩

theorem Open.live (hx : R.Open k x) (hcopy : R.Excludes copy) (hk : R.start ≤ k) : Live copy k x :=
  ⟨hx.elim (fun hold => Nat.lt_of_lt_of_le (R.old x hold).1 hk) (·.2), hcopy.ne hx⟩

/-- In the end there are the same types, and the objects that were made are the same under other numbers and
hold no `copy`. -/
structure Ended (R : Renumbering) (copy : ObjectId) (s s' : ReadState) : Prop where
  graph : s'.graph = s.graph
  arises : s.graph.Arises
  plain : s.graph.registry.HasPlainDefaults
  cells : s'.heap.cells = s.heap.cells
  started : R.start ≤ s.heap.records.size
  size : s'.heap.records.size + R.start = s.heap.records.size + R.start'
  record : ∀ x : ObjectId, R.start ≤ x.index → x.index < s.heap.records.size →
    s'.heap.record (R.rename x) = (s.heap.record x).rename R.rename ∧
      (s.heap.record x).Over (Live copy s.heap.records.size)

theorem Pairs.ended (h : R.Pairs s s') (hcopy : R.Excludes copy) : R.Ended copy s s' where
  graph := h.graph
  arises := h.arises
  plain := h.plain
  cells := h.cells
  started := h.started
  size := h.size
  record x hle hlt :=
    ⟨h.record x (.inr ⟨hle, hlt⟩), (h.closed x (.inr ⟨hle, hlt⟩)).mono fun _ hy => hy.live hcopy h.started⟩

/-- The second node has the result and the patches of the first one under other numbers. None of them is about
`copy`, and the patches are not about `owner`. -/
structure SameRead (ρ : ObjectId → ObjectId) (copy owner : ObjectId) (k : Nat) (n n' : Node) : Prop where
  result : n'.result = n.result.rename ρ
  inside : n.result.Over (Live copy k)
  staged : n'.staged = n.staged.map (Prod.map ρ ρ)
  live : ∀ pair ∈ n.staged, (Live copy k pair.1 ∧ pair.1 ≠ owner) ∧ Live copy k pair.2 ∧ pair.2 ≠ owner

theorem SameNode.sameRead (h : R.SameNode k n n') (hcopy : R.Excludes copy) (howner : R.Excludes owner)
    (hk : R.start ≤ k) : SameRead R.rename copy owner k n n' where
  result := h.result.eq
  inside := h.result.inside.mono fun _ hx => hx.live hcopy hk
  staged := by
    rw [h.eq]
    rfl
  live pair hpair :=
    have hstaged := h.staged pair hpair
    ⟨⟨hstaged.1.live hcopy hk, howner.ne hstaged.1⟩, hstaged.2.live hcopy hk, howner.ne hstaged.2⟩

/-- So it is with what patches the object `x`, which stays or gives way to a reference. -/
structure SamePatch (ρ : ObjectId → ObjectId) (copy owner x : ObjectId) (k : Nat) (n n' : Node) : Prop extends
    SameRead ρ copy owner k n n' where
  stays : n.result = .object x ∨ ∃ ref, n.result = .reference ref

/-- An object that is made later is another one. -/
theorem Excludes.ne_next (hx : R.Excludes x) {size : Nat} (hsize : R.start ≤ size) :
    (⟨size⟩ : ObjectId) ≠ x := by
  rintro rfl
  exact absurd hx.before (Nat.not_lt.mpr hsize)

/-- A patch is added that need not be of open objects. -/
theorem sameRead_stage {t t' : Heap} (h : R.Carries k n n') (hcopy : R.Excludes copy) (howner : R.Excludes owner)
    (hk : R.start ≤ k) (hx : Live copy k x ∧ x ≠ owner) (hy : Live copy k y ∧ y ≠ owner) :
    SameRead R.rename copy owner k ((n.stage x y).setValue t (.object x))
      ((n'.stage (R.rename x) (R.rename y)).setValue t' (.object (R.rename x))) where
  result := rfl
  inside := .object hx.1
  staged := by
    rw [h.eq, Node.stage_rename]
    rfl
  live pair hpair := by
    rcases List.mem_append.mp hpair with hpair | hpair
    · have hopen := h.staged pair hpair
      exact ⟨⟨hopen.1.live hcopy hk, howner.ne hopen.1⟩, hopen.2.live hcopy hk, howner.ne hopen.2⟩
    · rw [List.mem_singleton.mp hpair]
      exact ⟨hx, hy⟩

/-! ## The copy that is patched -/

/-- The object is the same in both states under other numbers, and holds open objects in the properties in
`named`. -/
structure Copied (R : Renumbering) (copy c : ObjectId) (named : Property → Prop) (h h' : Heap) : Prop where
  record : h'.record (R.rename c) = (h.record c).rename R.rename
  inside : (h.record c).Over (Live copy h.records.size)
  named : ∀ p, named p → (p.getFrom (h.record c)).Over (R.Open h.records.size)

theorem lasting_copied (copy : ObjectId) (named : Property → Prop) {c : ObjectId} (hc : c.index < R.start)
    (hc' : (R.rename c).index < R.start') : R.Lasting (R.Copied copy c named) := by
  intro h h₁ h' h₁' hstart hstart' hchange hchange' hcopied
  have hsame := hchange.2 c (Nat.lt_of_lt_of_le hc hstart) (Nat.not_le.mpr hc)
  have hsame' := hchange'.2 (R.rename c) (Nat.lt_of_lt_of_le hc' hstart') (Nat.not_le.mpr hc')
  refine ⟨?_, ?_, fun p hp => ?_⟩
  · rw [hsame, hsame', hcopied.record]
  · rw [hsame]
    exact hcopied.inside.mono fun _ hx => hx.mono hchange.1
  · rw [hsame]
    exact (hcopied.named p hp).mono fun _ hx => hx.mono hchange.1

/-- Another record for an object that is not open is nothing to the open ones. -/
theorem Pairs.setOther {c c' : ObjectId} (h : R.Pairs s s') (hc : R.Excludes c) (hc' : c'.index < R.start')
    (hne : ∀ y, R.Old y → R.rename y ≠ c') (r r' : Record) :
    R.Pairs { s with heap := s.heap.setRecord c r } { s' with heap := s'.heap.setRecord c' r' } := by
  have hsize : (s.heap.setRecord c r).records.size = s.heap.records.size := Heap.size_setRecord _ _ _
  have hsize' : (s'.heap.setRecord c' r').records.size = s'.heap.records.size := Heap.size_setRecord _ _ _
  have hother : ∀ y, R.Open s.heap.records.size y → R.rename y ≠ c' := by
    rintro y (hy | ⟨hle, -⟩)
    · exact hne y hy
    · rw [rename_of_le hle]
      rintro rfl
      exact absurd hc' (Nat.not_lt.mpr (Nat.le_add_right _ _))
  refine ⟨h.graph, h.grown, h.arises, h.plain, h.cells, ?_, ?_, fun y hy => ?_, fun y hy => ?_⟩
  · exact hsize.symm ▸ h.started
  · dsimp only
    rw [hsize, hsize']
    exact h.size
  · dsimp only at hy ⊢
    rw [hsize] at hy
    rw [Heap.record_setRecord_of_ne (hc.ne hy), Heap.record_setRecord_of_ne (hother y hy), h.record y hy]
  · dsimp only at hy ⊢
    rw [hsize] at hy ⊢
    rw [Heap.record_setRecord_of_ne (hc.ne hy)]
    exact h.closed y hy

/-- The properties in `named` of a copy that is not open may be written and read in both states. -/
theorem writes_copied (named : Property → Prop) {c : ObjectId} (hcopy : R.Excludes copy) (hc : R.Excludes c)
    (hc' : (R.rename c).index < R.start') (hne : ∀ y, R.Old y → R.rename y ≠ R.rename c) :
    R.Writes (fun s s' => R.Pairs s s' ∧ R.Copied copy c named s.heap s'.heap) k c named where
  note s s' entry h := by
    refine ⟨?_, h.2⟩
    have hpairs := h.1.congr .refl (entry :: s.audit) (entry :: s'.audit)
    have hgraph := h.1.graph
    have hcopied := h.2
    cases s'
    cases hgraph
    exact hpairs
  read s s' p _ h hp := by
    refine ⟨?_, h.2.named p hp⟩
    unfold Property.read
    rw [h.2.record, Record.getFrom_rename]
  write s s' p v _ h hv := by
    have hthere : c.index < s.heap.records.size := Nat.lt_of_lt_of_le hc.before h.1.started
    have hthere' : (R.rename c).index < s'.heap.records.size := Nat.lt_of_lt_of_le hc' h.1.started'
    have hsize : (p.write s.heap c v).records.size = s.heap.records.size := Heap.size_setRecord _ _ _
    have hrecord := Heap.record_setRecord_self hthere
      { s.heap.record c with
        fields := Entries.insert (p.writesField.getD p.name) v (s.heap.record c).fields }
    refine ⟨h.1.setOther hc hc' hne _ _, ⟨?_, ?_, fun q hq => ?_⟩⟩
    · refine (Heap.record_setRecord_self hthere' _).trans ?_
      rw [h.2.record]
      refine Eq.trans ?_ (congrArg (Record.rename R.rename) hrecord.symm)
      exact congrArg (Record.mk _) (Entries.insert_map _ _ _ _)
    · dsimp only
      rw [hsize]
      intro entry hentry
      rw [show (p.write s.heap c v).record c = _ from hrecord] at hentry
      rcases Entries.mem_insert hentry with rfl | hentry
      · exact hv.mono fun _ hx => hx.live hcopy h.1.started
      · exact h.2.inside entry hentry
    · dsimp only
      rw [hsize, show (p.write s.heap c v).record c = _ from hrecord]
      by_cases hname : q.readsField.getD q.name = p.writesField.getD p.name
      · unfold Property.getFrom
        rw [hname, Entries.get?_insert_self]
        exact hv
      · have hnamed := h.2.named q hq
        unfold Property.getFrom at hnamed ⊢
        rwa [Entries.get?_insert_of_ne hname]

/-! ## Starting again -/

theorem size_alloc (h : Heap) (r : Record) : (h.alloc r).2.records.size = h.records.size + 1 :=
  Array.size_push _

/-- The numbering, once a further object was made that is not to be open. -/
def rebase (h : R.Pairs s s') : Renumbering where
  rename := R.rename
  Old := R.Open s.heap.records.size
  graph := R.graph
  start := s.heap.records.size + 1
  start' := s'.heap.records.size + 1
  old _ hx := ⟨Nat.lt_succ_of_lt (h.allocated hx).1, Nat.lt_succ_of_lt (h.allocated hx).2⟩
  injective _ _ hx hy := rename_injective hx hy
  fresh i := by
    have hstarted := h.started
    have hsize := h.size
    rw [rename_of_le (by dsimp only; omega)]
    exact congrArg ObjectId.mk (by dsimp only; omega)

section Rebase

variable (h : R.Pairs s s')

include h in
theorem rename_next : R.rename ⟨s.heap.records.size⟩ = ⟨s'.heap.records.size⟩ := by
  have hstarted := h.started
  have hsize := h.size
  rw [rename_of_le (x := ⟨s.heap.records.size⟩) hstarted]
  exact congrArg ObjectId.mk (by dsimp only; omega)

theorem Excludes.rebase (hx : R.Excludes x) : (R.rebase h).Excludes x where
  before := Nat.lt_succ_of_lt (Nat.lt_of_lt_of_le hx.before h.started)
  shut hopen := hx.ne hopen rfl

theorem excludes_next : (R.rebase h).Excludes ⟨s.heap.records.size⟩ where
  before := Nat.lt_succ_self _
  shut hopen := absurd (h.allocated hopen).1 (Nat.lt_irrefl _)

theorem rebase_pairs (r r' : Record) : (R.rebase h).Pairs { s with heap := (s.heap.alloc r).2 }
    { s' with heap := (s'.heap.alloc r').2 } := by
  have hopen : ∀ x, (R.rebase h).Open (s.heap.alloc r).2.records.size x → R.Open s.heap.records.size x := by
    rintro x (hx | ⟨hle, hlt⟩)
    · exact hx
    · rw [size_alloc] at hlt
      exact absurd hlt (Nat.not_lt.mpr hle)
  refine ⟨h.graph, h.grown, h.arises, h.plain, h.cells, ?_, ?_, fun x hx => ?_, fun x hx => ?_⟩
  · exact (size_alloc _ _).ge
  · dsimp only [rebase]
    rw [size_alloc, size_alloc, Nat.add_comm]
  · obtain ⟨hthere, hthere'⟩ := h.allocated (hopen x hx)
    dsimp only [rebase]
    rw [Heap.record_alloc_of_lt hthere, Heap.record_alloc_of_lt hthere', h.record x (hopen x hx)]
  · dsimp only
    rw [Heap.record_alloc_of_lt (h.allocated (hopen x hx)).1]
    exact (h.closed x (hopen x hx)).mono fun _ hy => .inl hy

include h in
/-- The copy has what the object had. -/
theorem Copied.alloc {named : Property → Prop} (hx : R.Copied copy x named s.heap s'.heap) :
    (R.rebase h).Copied copy ⟨s.heap.records.size⟩ named (s.heap.alloc (s.heap.record x)).2
      (s'.heap.alloc (s'.heap.record (R.rename x))).2 := by
  have hself : (s.heap.alloc (s.heap.record x)).2.record ⟨s.heap.records.size⟩ = s.heap.record x :=
    Heap.record_alloc_self _ _
  refine ⟨?_, ?_, fun p hp => ?_⟩
  · rw [hself, show (R.rebase h).rename _ = _ from rename_next (R := R) h]
    exact (Heap.record_alloc_self _ _).trans hx.record
  · rw [hself, size_alloc]
    exact hx.inside.mono fun _ hy => hy.mono (Nat.le_succ _)
  · rw [hself]
    exact (hx.named p hp).mono fun _ hy => .inl hy

/-- What is known in the end once an object was patched whose copy is not open. -/
theorem ended_of_copied {named : Property → Prop} {t t' : ReadState} (hcopy : R.Excludes copy)
    (ht : (R.rebase h).Pairs t t')
    (hc : (R.rebase h).Copied copy ⟨s.heap.records.size⟩ named t.heap t'.heap) : R.Ended copy t t' := by
  have hstarted := h.started
  have hsize := h.size
  have hstarted' : s.heap.records.size + 1 ≤ t.heap.records.size := ht.started
  have hsize' : t'.heap.records.size + (s.heap.records.size + 1) =
    t.heap.records.size + (s'.heap.records.size + 1) := ht.size
  refine ⟨ht.graph, ht.arises, ht.plain, ht.cells, by omega, by omega, fun x hle hlt => ?_⟩
  -- the object is the copy, or was made before it or after it
  by_cases hnext : x = ⟨s.heap.records.size⟩
  · rw [hnext]
    exact ⟨hc.record, hc.inside⟩
  · have hopen : (R.rebase h).Open t.heap.records.size x := by
      by_cases hbefore : x.index < s.heap.records.size
      · exact .inl (.inr ⟨hle, hbefore⟩)
      · have hne : x.index ≠ s.heap.records.size := fun heq => hnext (congrArg ObjectId.mk heq)
        exact .inr ⟨by dsimp only [rebase]; omega, hlt⟩
    exact ⟨ht.record x hopen,
      (ht.closed x hopen).mono fun _ hy => hy.live (hcopy.rebase h) ht.started⟩

end Rebase

/-! ## Patching an object in the list -/

/-- Both readers read alike on any renumbered objects, and leave objects alone that were there before. -/
structure ReadsAnywhere (bound : Nat) (below below' : NodeReader) : Prop where
  reads : ∀ R : Renumbering, R.Reads R.Pairs 0 bound below below'
  spares : ∀ m n json, Spares m (below n json)
  spares' : ∀ m n json, Spares m (below' n json)

theorem readsAnywhere_readNode (hctx : ctx.UsesDefaults) {depth depth' : Nat} (hbound : bound ≤ depth + 1)
    (hbound' : bound ≤ depth' + 1) : ReadsAnywhere bound (readNode ctx depth) (readNode ctx depth') where
  reads _ := reads_readNode hctx hbound hbound'
  spares _ n json := spares_readNode hctx.hasNoSideEffects depth n json
  spares' _ n json := spares_readNode hctx.hasNoSideEffects depth' n json

section

variable (hctx : ctx.UsesDefaults) (hbelow : ReadsAnywhere bound below below') (hcopy : R.Excludes copy)
  (howner : R.Excludes owner)

include hctx hbelow hcopy howner

theorem leads_patchObject {named : Property → Prop} (hx : Live copy R.start x) (hxowner : x ≠ owner)
    {d : Descriptor} {fields : List Field}
    (hfields : ∀ field ∈ fields, named field.property ∧ field.json.depth < bound) (hn : n.staged = []) :
    Leads (fun s s' => R.Pairs s s' ∧ R.Copied copy x named s.heap s'.heap) (R.Ended copy) k
      (patchObject ctx below d n x fields) (patchObject ctx below' d (n.rename R.rename) (R.rename x) fields)
      (SamePatch R.rename copy owner x) := by
  intro s s' a s₁ _ hI hrun
  obtain ⟨h, hcopied⟩ := hI
  have hstarted := h.started
  -- the next object is the copy, which is not open from there on
  have hnext : (R.rebase h).rename ⟨s.heap.records.size⟩ = ⟨s'.heap.records.size⟩ := rename_next (R := R) h
  have hc' : ((R.rebase h).rename ⟨s.heap.records.size⟩).index < (R.rebase h).start' :=
    (congrArg ObjectId.index hnext).trans_lt (Nat.lt_succ_self _)
  have hne : ∀ y, (R.rebase h).Old y → (R.rebase h).rename y ≠ (R.rebase h).rename ⟨s.heap.records.size⟩ := by
    intro y hy heq
    have hlt := (h.allocated hy).2
    rw [show R.rename y = ⟨s'.heap.records.size⟩ from heq.trans hnext] at hlt
    exact absurd hlt (Nat.lt_irrefl _)
  have hwrites := writes_copied (k := 0) named (hcopy.rebase h) (excludes_next h) hc' hne
  have hlasting := lasting_copied copy named (excludes_next h).before hc'
  have hreads := (hbelow.reads (R.rebase h)).keeping hlasting (hbelow.spares _) (hbelow.spares' _)
  have hcarries : (R.rebase h).Carries 0 { n with operation := .patch }
      { n.rename R.rename with operation := .patch } := ⟨rfl, by rw [hn]; exact nofun⟩
  have hrest : Leads
      (fun t t' => (R.rebase h).Pairs t t' ∧
        (R.rebase h).Copied copy ⟨s.heap.records.size⟩ named t.heap t'.heap) (R.Ended copy) 0
      (assignAll ctx below d ⟨s.heap.records.size⟩ .patch { n with operation := .patch } fields >>= fun r =>
        setValue (r.stage x ⟨s.heap.records.size⟩) (.object x))
      (assignAll ctx below' d ((R.rebase h).rename ⟨s.heap.records.size⟩) .patch
          { n.rename R.rename with operation := .patch } fields >>= fun r =>
        setValue (r.stage (R.rename x) ((R.rebase h).rename ⟨s.heap.records.size⟩)) (.object (R.rename x)))
      (SamePatch R.rename copy owner x) := by
    refine leads_bind (follows_assignAll hwrites hctx hreads d .patch hfields hcarries) fun k₁ r r' _ hread => ?_
    intro t t' b t₁ hk₁ ht hrun
    cases hrun
    have hthere : s.heap.records.size < t.heap.records.size := ht.1.started
    refine ⟨_, t', rfl, Nat.le_refl _, ended_of_copied h hcopy ht.1 ht.2, ?_⟩
    have hlive : Live copy t.heap.records.size x := hx.mono (hstarted.trans (Nat.le_of_lt hthere))
    exact ⟨sameRead_stage (R := R.rebase h) (hread.1.mono hk₁) (hcopy.rebase h) (howner.rebase h) ht.1.started
      ⟨hlive, hxowner⟩ ⟨⟨hthere, hcopy.ne_next hstarted⟩, howner.ne_next hstarted⟩, .inl rfl⟩
  obtain ⟨a', s₁', hrun', hsize, hended⟩ :=
    hrest _ _ a s₁ (Nat.zero_le _) ⟨rebase_pairs h _ _, hcopied.alloc h⟩ hrun
  rw [hnext] at hrun'
  exact ⟨a', s₁', hrun', (Nat.le_succ _).trans ((size_alloc _ _).ge.trans hsize), hended⟩

/-- The object waits to be patched: it is one of `type`, and the same in both states as far as `named` goes. -/
structure Waits (R : Renumbering) (copy x : ObjectId) (type : TypeId) (named : Property → Prop) (h h' : Heap) :
    Prop extends R.Copied copy x named h h' where
  type : h.typeOf x = type

omit hctx hbelow hcopy howner in
theorem lasting_waits (copy : ObjectId) (type : TypeId) (named : Property → Prop) (hx : x.index < R.start)
    (hx' : (R.rename x).index < R.start') : R.Lasting (R.Waits copy x type named) := by
  intro h h₁ h' h₁' hstart hstart' hchange hchange' hwaits
  refine ⟨lasting_copied copy named hx hx' h h₁ h' h₁' hstart hstart' hchange hchange' hwaits.toCopied, ?_⟩
  have hsame := hchange.2 x (Nat.lt_of_lt_of_le hx hstart) (Nat.not_le.mpr hx)
  exact (congrArg Record.type hsame).trans hwaits.type

omit hbelow howner in
/-- In place of the object the list gets a reference. -/
theorem leads_readReference (hn : n.staged = []) (uri : String) :
    Leads R.Pairs (R.Ended copy) k (readReference ctx n uri) (readReference ctx (n.rename R.rename) uri)
      (SamePatch R.rename copy owner x) := by
  unfold readReference
  refine leads_bind (follows_note _) fun k₁ _ _ _ _ => leads_bind (follows_reference hctx rfl rfl)
    fun k₂ v v' _ hv => ?_
  intro s s' a s₁ hk h hrun
  cases hrun
  refine ⟨_, s', rfl, Nat.le_refl _, h.ended hcopy, ⟨hv.1.eq, ?_, ?_, ?_⟩, .inr hv.2⟩
  · exact (hv.1.mono hk).inside.mono fun _ hx => hx.live hcopy h.started
  · dsimp only [Node.rename]
    rw [hn]
    rfl
  · dsimp only
    rw [hn]
    exact nofun

variable {type : TypeId} {d : Descriptor} {named : Property → Prop} {members : Entries Json}

theorem leads_readContent (hx : Live copy R.start x) (hxowner : x ≠ owner) (hd : R.graph.table.get? type = some d)
    (hnamed : ∀ member ∈ members, ∀ f, fieldOf d n.path member.1 member.2 = .ok (some f) → named f.property)
    (hdepth : (Json.object members).depth ≤ bound) (hkept : keptObject? n = some x) (hn : n.staged = []) :
    Leads (fun s s' => R.Pairs s s' ∧ R.Waits copy x type named s.heap s'.heap) (R.Ended copy) k
      (readContent ctx below n members) (readContent ctx below' (n.rename R.rename) members)
      (SamePatch R.rename copy owner x) := by
  unfold readContent
  rw [keptObject?_rename, hkept]
  refine leads_bind (follows_look (Q := fun _ t t' => t = type ∧ t' = type) fun s s' t _ h hanswer => ?_)
    fun k₁ t t' _ htype => ?_
  · cases hanswer
    have htype : s'.heap.typeOf (R.rename x) = s.heap.typeOf x :=
      (congrArg Record.type h.2.record).trans rfl
    exact ⟨_, rfl, h.2.type, htype.trans h.2.type⟩
  · rw [htype.1, htype.2]
    refine leads_atDescriptor (fun _ _ h => h.1) hd ?_
    cases d.members? with
    | none => exact leads_misshapen _
    | some m =>
        refine leads_ofKnown fun fields hfields => ?_
        have hallowed : ∀ f ∈ inDeclarationOrder d fields, named f.property ∧ f.json.depth < bound := by
          intro f hf
          obtain ⟨member, hmember, hread⟩ := exists_member_of_fieldsOf hfields f (mem_inDeclarationOrder hf)
          refine ⟨hnamed member hmember f hread, ?_⟩
          rw [(declared_of_fieldOf hread).2]
          exact Nat.lt_of_lt_of_le (Json.depth_lt_of_mem_members hmember) hdepth
        exact (leads_patchObject hctx hbelow hcopy howner hx hxowner hallowed (n := { n with type }) hn).imp
          (fun _ _ h => ⟨h.1, h.2.toCopied⟩) (fun _ _ h => h) fun _ _ _ _ h => h

theorem leads_readObject (hx : Live copy R.start x) (hx' : (R.rename x).index < R.start') (hxowner : x ≠ owner)
    (hd : R.graph.table.get? type = some d)
    (hnamed : ∀ member ∈ members, ∀ f, fieldOf d n.path member.1 member.2 = .ok (some f) → named f.property)
    (hdepth : (Json.object members).depth ≤ bound) (hkept : keptObject? n = some x) (hn : n.staged = []) :
    Leads (fun s s' => R.Pairs s s' ∧ R.Waits copy x type named s.heap s'.heap) (R.Ended copy) k
      (readObject ctx below n (.object members)) (readObject ctx below' (n.rename R.rename) (.object members))
      (SamePatch R.rename copy owner x) := by
  have hlasting := lasting_waits copy type named hx.1 hx'
  have hreference : ∀ k' (m : Node) (uri : String), m.staged = [] → Leads
      (fun s s' => R.Pairs s s' ∧ R.Waits copy x type named s.heap s'.heap) (R.Ended copy) k'
      (readReference ctx m uri) (readReference ctx (m.rename R.rename) uri) (SamePatch R.rename copy owner x) :=
    fun k' m uri hm => (leads_readReference hctx hcopy hm uri).imp (fun _ _ h => h.1) (fun _ _ h => h)
      fun _ _ _ _ h => h
  unfold readObject
  refine leads_ofKnown fun uri _ => ?_
  cases uri with
  | some uri => exact hreference _ n uri hn
  | none =>
      refine leads_bind (follows_descriptor (fun _ _ h => h.1) n.expected) fun k₁ expected _ _ heq => ?_
      rw [heq.1]
      have hnarrowed : Follows R.Pairs k₁ (narrow expected n members)
          (narrow expected (n.rename R.rename) members) _ := follows_narrowed expected members rfl
      refine leads_bind (hnarrowed.keeping hlasting
        (along_narrow (allows_sparing hctx.hasNoSideEffects) _ _ _)
        (along_narrow (allows_sparing hctx.hasNoSideEffects) _ _ _)) fun k₂ m m' _ hm => ?_
      obtain ⟨narrowed, rfl, rfl⟩ := hm
      cases Entries.get? "_uri" members with
      | none => exact leads_readContent hctx hbelow hcopy howner hx hxowner hd hnamed hdepth hkept hn
      | some place =>
          cases place with
          | string uri =>
              dsimp only
              split
              · exact hreference _ { n with type := narrowed } uri hn
              · exact leads_readContent hctx hbelow hcopy howner (n := { n with type := narrowed, uri := some uri })
                  hx hxowner hd hnamed hdepth hkept hn
          | _ => exact leads_misshapen _

theorem leads_readWith {e : Descriptor} (he : R.graph.table.get? n.expected = some e)
    (hmembers : e.members?.isSome = true) (hx : Live copy R.start x) (hx' : (R.rename x).index < R.start')
    (hxowner : x ≠ owner) (hd : R.graph.table.get? type = some d)
    (hnamed : ∀ member ∈ members, ∀ f, fieldOf d n.path member.1 member.2 = .ok (some f) → named f.property)
    (hdepth : (Json.object members).depth ≤ bound) (hkept : keptObject? n = some x) (hn : n.staged = []) :
    Leads (fun s s' => R.Pairs s s' ∧ R.Waits copy x type named s.heap s'.heap) (R.Ended copy) k
      (readWith ctx below n (.object members)) (readWith ctx below' (n.rename R.rename) (.object members))
      (SamePatch R.rename copy owner x) := by
  have hobject := leads_readObject (k := k) hctx hbelow hcopy howner hx hx' hxowner hd hnamed hdepth hkept hn
  unfold readWith
  refine leads_atDescriptor (fun _ _ h => h.1) he ?_
  have hnull : (Json.object members).isNull ≠ true := Bool.false_ne_true
  rw [if_neg hnull, if_neg hnull]
  obtain ⟨m, hm⟩ := Option.isSome_iff_exists.mp hmembers
  obtain hshape | ⟨address, hshape⟩ := Descriptor.shape_of_members? hm
  · rw [hshape]
    exact hobject
  · rw [hshape]
    exact hobject

end

end Renumbering

end ResourceQuery
