import ResourceQuery.Proofs.Type.Defaults
import ResourceQuery.Proofs.Wire.Standard

set_option autoImplicit false

/-! # Readings on renumbered objects

A document is read in two states that hold the same objects under different numbers. Not all objects are the
same, only those that may be looked at: some that were there before (`Renumbering.Old`), and all that were made
since, which come in the same order. These are the *open* objects. No others are reached from them.

`Renumbering.Follows` says that what one action does in the first state another one does in the second: if the
first is accepted then so is the second, and the answers are the same under the other numbers. It is closed under
sequences (`follows_bind`). What is known of values that were read earlier stays true, as there only come to be
more open objects.
-/

namespace ResourceQuery

open Reading

/-! ## Nodes -/

namespace Node

variable {ρ : ObjectId → ObjectId}

/-- The node with every object under another number. -/
def rename (ρ : ObjectId → ObjectId) (n : Node) : Node :=
  { n with value := n.value.map (Value.rename ρ), staged := n.staged.map (Prod.map ρ ρ) }

@[simp] theorem result_rename (n : Node) : (n.rename ρ).result = n.result.rename ρ := by
  unfold result rename
  cases n.value <;> rfl

@[simp] theorem absorb_rename (n child : Node) :
    (n.rename ρ).absorb (child.rename ρ) = (n.absorb child).rename ρ := by
  unfold absorb rename
  rw [List.map_append]

@[simp] theorem stage_rename (n : Node) (object copy : ObjectId) :
    (n.rename ρ).stage (ρ object) (ρ copy) = (n.stage object copy).rename ρ := by
  unfold stage rename
  rw [List.map_append]
  rfl

end Node

/-! ## Two states -/

/-- How the objects of one state are numbered in another. -/
structure Renumbering where
  rename : ObjectId → ObjectId
  /-- The objects that were there before and may be looked at. -/
  Old : ObjectId → Prop
  /-- The types that were known before. -/
  graph : TypeGraph
  /-- How many objects were there before. -/
  start : Nat
  start' : Nat
  old : ∀ x, Old x → x.index < start ∧ (rename x).index < start'
  injective : ∀ x y, Old x → Old y → rename x = rename y → x = y
  fresh : ∀ i, rename ⟨start + i⟩ = ⟨start' + i⟩

namespace Renumbering

variable {R : Renumbering} {k k' : Nat} {x y : ObjectId} {s s' : ReadState}

/-- The objects that may be looked at when there are `size` objects. -/
def Open (R : Renumbering) (size : Nat) (x : ObjectId) : Prop :=
  R.Old x ∨ R.start ≤ x.index ∧ x.index < size

theorem Open.mono (hx : R.Open k x) (hk : k ≤ k') : R.Open k' x :=
  hx.imp_right fun h => ⟨h.1, Nat.lt_of_lt_of_le h.2 hk⟩

theorem rename_of_le (hx : R.start ≤ x.index) : R.rename x = ⟨R.start' + (x.index - R.start)⟩ := by
  have hindex : x = ⟨R.start + (x.index - R.start)⟩ := congrArg ObjectId.mk (Nat.add_sub_of_le hx).symm
  conv_lhs => rw [hindex]
  exact R.fresh _

theorem rename_injective (hx : R.Open k x) (hy : R.Open k y) (h : R.rename x = R.rename y) : x = y := by
  rcases hx with hx | ⟨hx, -⟩
  · rcases hy with hy | ⟨hy, -⟩
    · exact R.injective x y hx hy h
    · have hlt := (R.old x hx).2
      rw [h, rename_of_le hy] at hlt
      exact absurd hlt (Nat.not_lt.mpr (Nat.le_add_right _ _))
  · rcases hy with hy | ⟨hy, -⟩
    · have hlt := (R.old y hy).2
      rw [← h, rename_of_le hx] at hlt
      exact absurd hlt (Nat.not_lt.mpr (Nat.le_add_right _ _))
    · rw [rename_of_le hx, rename_of_le hy, ObjectId.mk.injEq] at h
      cases x
      cases y
      exact congrArg ObjectId.mk (by dsimp only at h hx hy; omega)

/-- The open objects are the same in both states, under other numbers. -/
structure Pairs (R : Renumbering) (s s' : ReadState) : Prop where
  graph : s'.graph = s.graph
  grown : R.graph.GrowsTo s.graph
  arises : s.graph.Arises
  plain : s.graph.registry.HasPlainDefaults
  cells : s'.heap.cells = s.heap.cells
  started : R.start ≤ s.heap.records.size
  size : s'.heap.records.size + R.start = s.heap.records.size + R.start'
  record : ∀ x, R.Open s.heap.records.size x →
    s'.heap.record (R.rename x) = (s.heap.record x).rename R.rename
  closed : ∀ x, R.Open s.heap.records.size x → (s.heap.record x).Over (R.Open s.heap.records.size)

namespace Pairs

variable (h : R.Pairs s s') {r r' : Record}

include h

theorem allocated (hx : R.Open s.heap.records.size x) :
    x.index < s.heap.records.size ∧ (R.rename x).index < s'.heap.records.size := by
  have hsize := h.size
  have hstarted := h.started
  rcases hx with hx | ⟨hle, hlt⟩
  · obtain ⟨hold, hold'⟩ := R.old x hx
    exact ⟨by omega, by omega⟩
  · rw [rename_of_le hle]
    exact ⟨hlt, by dsimp only; omega⟩

theorem renames : s.heap.Renames s'.heap R.rename (R.Open s.heap.records.size) where
  record := h.record
  closed := h.closed
  injective _ _ hx hy := rename_injective hx hy
  allocated _ hx := h.allocated hx

/-- What the states say of types may change alike, and what they note may change at will. -/
theorem congr {graph : TypeGraph} (hgraph : s.graph.GrowsTo graph) (audit audit' : List AuditEntry) :
    R.Pairs { s with graph, audit } { s' with graph, audit := audit' } where
  graph := rfl
  grown := h.grown.trans hgraph
  arises := h.arises.grow hgraph
  plain := by
    dsimp only
    rw [hgraph.registry]
    exact h.plain
  cells := h.cells
  started := h.started
  size := h.size
  record := h.record
  closed := h.closed

/-- In both states an object is made. -/
theorem alloc (hr : r' = r.rename R.rename) (hover : r.Over (R.Open s.heap.records.size)) :
    R.Pairs { s with heap := (s.heap.alloc r).2 } { s' with heap := (s'.heap.alloc r').2 } ∧
      (s'.heap.alloc r').1 = R.rename (s.heap.alloc r).1 := by
  have hsize : (s.heap.alloc r).2.records.size = s.heap.records.size + 1 := Array.size_push _
  have hsize' : (s'.heap.alloc r').2.records.size = s'.heap.records.size + 1 := Array.size_push _
  have hnew : (s'.heap.alloc r').1 = R.rename (s.heap.alloc r).1 := by
    rw [rename_of_le (show R.start ≤ (s.heap.alloc r).1.index from h.started)]
    refine congrArg ObjectId.mk ?_
    have hsizes := h.size
    have hstarted := h.started
    show s'.heap.records.size = R.start' + (s.heap.records.size - R.start)
    omega
  -- an open object is the new one or was open before
  have hcases : ∀ x, R.Open (s.heap.alloc r).2.records.size x →
      x = (s.heap.alloc r).1 ∨ R.Open s.heap.records.size x := by
    rintro x (hx | ⟨hle, hlt⟩)
    · exact .inr (.inl hx)
    · rw [hsize] at hlt
      rcases Nat.lt_or_eq_of_le (Nat.le_of_lt_succ hlt) with hlt | heq
      · exact .inr (.inr ⟨hle, hlt⟩)
      · exact .inl (congrArg ObjectId.mk heq)
  have hmono : ∀ x, R.Open s.heap.records.size x → R.Open (s.heap.alloc r).2.records.size x :=
    fun x hx => hx.mono (hsize ▸ Nat.le_succ _)
  refine ⟨⟨h.graph, h.grown, h.arises, h.plain, h.cells, ?_, ?_, fun x hx => ?_, fun x hx => ?_⟩, hnew⟩
  · exact h.started.trans (hsize ▸ Nat.le_succ _)
  · have hsizes := h.size
    dsimp only
    omega
  · rcases hcases x hx with rfl | hx
    · dsimp only
      rw [← hnew, Heap.record_alloc_self, Heap.record_alloc_self, hr]
    · obtain ⟨hthere, hthere'⟩ := h.allocated hx
      dsimp only
      rw [Heap.record_alloc_of_lt hthere, Heap.record_alloc_of_lt hthere', h.record x hx]
  · rcases hcases x hx with rfl | hx
    · dsimp only
      rw [Heap.record_alloc_self]
      exact hover.mono hmono
    · dsimp only
      rw [Heap.record_alloc_of_lt (h.allocated hx).1]
      exact (h.closed x hx).mono hmono

/-- In both states an open object gets another record. -/
theorem setRecord (hx : R.Open s.heap.records.size x) (hr : r' = r.rename R.rename)
    (hover : r.Over (R.Open s.heap.records.size)) :
    R.Pairs { s with heap := s.heap.setRecord x r } { s' with heap := s'.heap.setRecord (R.rename x) r' } := by
  obtain ⟨hthere, hthere'⟩ := h.allocated hx
  have hsize : (s.heap.setRecord x r).records.size = s.heap.records.size := Heap.size_setRecord _ _ _
  have hsize' : (s'.heap.setRecord (R.rename x) r').records.size = s'.heap.records.size :=
    Heap.size_setRecord _ _ _
  refine ⟨h.graph, h.grown, h.arises, h.plain, h.cells, ?_, ?_, fun y hy => ?_, fun y hy => ?_⟩
  · exact hsize.symm ▸ h.started
  · dsimp only
    rw [hsize, hsize']
    exact h.size
  · dsimp only at hy ⊢
    rw [hsize] at hy
    by_cases heq : y = x
    · rw [heq, Heap.record_setRecord_self hthere, Heap.record_setRecord_self hthere', hr]
    · rw [Heap.record_setRecord_of_ne heq,
        Heap.record_setRecord_of_ne fun hsame => heq (rename_injective hy hx hsame), h.record y hy]
  · dsimp only at hy ⊢
    rw [hsize] at hy ⊢
    by_cases heq : y = x
    · rw [heq, Heap.record_setRecord_self hthere]
      exact hover
    · rw [Heap.record_setRecord_of_ne heq]
      exact h.closed y hy

theorem read (hx : R.Open s.heap.records.size x) (p : Property) :
    p.read s'.heap (R.rename x) = (p.read s.heap x).rename R.rename ∧
      (p.read s.heap x).Over (R.Open s.heap.records.size) := by
  unfold Property.read
  rw [h.record x hx]
  exact ⟨Record.getFrom_rename p, (h.closed x hx).getFrom p⟩

theorem typeOf (hx : R.Open s.heap.records.size x) :
    s'.heap.typeOf (R.rename x) = s.heap.typeOf x := by
  unfold Heap.typeOf
  rw [h.record x hx]
  rfl

/-- In both states a property of an open object is written. -/
theorem write (hx : R.Open s.heap.records.size x) (p : Property) {v : Value}
    (hv : v.Over (R.Open s.heap.records.size)) :
    R.Pairs { s with heap := p.write s.heap x v }
      { s' with heap := p.write s'.heap (R.rename x) (v.rename R.rename) } := by
  refine h.setRecord hx ?_ fun entry hentry => ?_
  · rw [h.record x hx]
    exact congrArg (Record.mk _) (Entries.insert_map _ _ _ _)
  · rcases Entries.mem_insert hentry with rfl | hentry
    · exact hv
    · exact h.closed x hx entry hentry

end Pairs

/-! ## What is read -/

/-- The second value is the first one under other numbers, and holds open objects. -/
structure SameValue (R : Renumbering) (k : Nat) (v v' : Value) : Prop where
  eq : v' = v.rename R.rename
  inside : v.Over (R.Open k)

/-- The second items are the first ones under other numbers, and hold open objects. -/
structure SameItems (R : Renumbering) (k : Nat) (items items' : List Value) : Prop where
  eq : items' = items.map (Value.rename R.rename)
  inside : ∀ v ∈ items, v.Over (R.Open k)

/-- The second entries are the first ones under other numbers, and hold open objects. -/
structure SameEntries (R : Renumbering) (k : Nat) (entries entries' : Entries Value) : Prop where
  eq : entries' = entries.map (Prod.map id (Value.rename R.rename))
  inside : ∀ entry ∈ entries, entry.2.Over (R.Open k)

/-- The second node is the first one under other numbers, and holds open objects. -/
structure SameNode (R : Renumbering) (k : Nat) (n n' : Node) : Prop where
  eq : n' = n.rename R.rename
  value : ∀ v ∈ n.value, v.Over (R.Open k)
  staged : ∀ pair ∈ n.staged, R.Open k pair.1 ∧ R.Open k pair.2

/-- The second node is the first one under other numbers. Its patches are of open objects, its value need not
be one of them. -/
structure Carries (R : Renumbering) (k : Nat) (n n' : Node) : Prop where
  eq : n' = n.rename R.rename
  staged : ∀ pair ∈ n.staged, R.Open k pair.1 ∧ R.Open k pair.2

section Same

variable {v v' : Value} {items items' : List Value} {entries entries' : Entries Value} {n n' child child' : Node}

theorem SameValue.mono (h : R.SameValue k v v') (hk : k ≤ k') : R.SameValue k' v v' :=
  ⟨h.eq, h.inside.mono fun _ hx => hx.mono hk⟩

theorem SameItems.mono (h : R.SameItems k items items') (hk : k ≤ k') : R.SameItems k' items items' :=
  ⟨h.eq, fun v hv => (h.inside v hv).mono fun _ hx => hx.mono hk⟩

theorem SameEntries.mono (h : R.SameEntries k entries entries') (hk : k ≤ k') :
    R.SameEntries k' entries entries' :=
  ⟨h.eq, fun entry hentry => (h.inside entry hentry).mono fun _ hx => hx.mono hk⟩

theorem SameNode.mono (h : R.SameNode k n n') (hk : k ≤ k') : R.SameNode k' n n' :=
  ⟨h.eq, fun v hv => (h.value v hv).mono fun _ hx => hx.mono hk,
    fun pair hpair => ⟨(h.staged pair hpair).1.mono hk, (h.staged pair hpair).2.mono hk⟩⟩

/-- A value without objects is the same in both states. -/
theorem sameValue_plain (h : v.Over fun _ => False) : R.SameValue k v v :=
  ⟨(h.rename_eq_self fun _ => False.elim).symm, h.mono fun _ => False.elim⟩

theorem sameNode_ofSlot (type : TypeId) (path : String) :
    R.SameNode k (.ofSlot type path) (.ofSlot type path) :=
  ⟨rfl, nofun, nofun⟩

theorem SameNode.result (h : R.SameNode k n n') : R.SameValue k n.result n'.result := by
  refine ⟨by rw [h.eq, Node.result_rename], ?_⟩
  have hvalue := h.value
  unfold Node.result
  cases hv : n.value with
  | none => exact .null
  | some v => exact hvalue v hv

theorem SameNode.carries (h : R.SameNode k n n') : R.Carries k n n' :=
  ⟨h.eq, h.staged⟩

theorem Carries.sameNode (h : R.Carries k n n') (hvalue : ∀ v ∈ n.value, v.Over (R.Open k)) :
    R.SameNode k n n' :=
  ⟨h.eq, hvalue, h.staged⟩

theorem Carries.mono (h : R.Carries k n n') (hk : k ≤ k') : R.Carries k' n n' :=
  ⟨h.eq, fun pair hpair => ⟨(h.staged pair hpair).1.mono hk, (h.staged pair hpair).2.mono hk⟩⟩

theorem Carries.absorb (h : R.Carries k n n') (hchild : R.Carries k child child') :
    R.Carries k (n.absorb child) (n'.absorb child') := by
  refine ⟨by rw [h.eq, hchild.eq, Node.absorb_rename], fun pair hpair => ?_⟩
  rcases List.mem_append.mp hpair with hpair | hpair
  · exact h.staged pair hpair
  · exact hchild.staged pair hpair

theorem SameNode.absorb (h : R.SameNode k n n') (hchild : R.SameNode k child child') :
    R.SameNode k (n.absorb child) (n'.absorb child') :=
  (h.carries.absorb hchild.carries).sameNode h.value

theorem SameNode.stage (h : R.SameNode k n n') (hx : R.Open k x) (hy : R.Open k y) :
    R.SameNode k (n.stage x y) (n'.stage (R.rename x) (R.rename y)) := by
  refine ⟨by rw [h.eq, Node.stage_rename], h.value, fun pair hpair => ?_⟩
  rcases List.mem_append.mp hpair with hpair | hpair
  · exact h.staged pair hpair
  · rw [List.mem_singleton.mp hpair]
    exact ⟨hx, hy⟩

theorem SameNode.withType (hn : R.SameNode k n n') (type : TypeId) :
    R.SameNode k { n with type } { n' with type } :=
  ⟨by rw [hn.eq]; rfl, hn.value, hn.staged⟩

theorem SameNode.withUri (hn : R.SameNode k n n') (uri : Option String) :
    R.SameNode k { n with uri } { n' with uri } :=
  ⟨by rw [hn.eq]; rfl, hn.value, hn.staged⟩

theorem SameNode.withOperation (hn : R.SameNode k n n') (operation : NodeOperation) :
    R.SameNode k { n with operation } { n' with operation } :=
  ⟨by rw [hn.eq]; rfl, hn.value, hn.staged⟩

/-- A slot that holds the same value in both states. -/
theorem sameNode_withValue {v v' : Option Value} (hv : v' = v.map (Value.rename R.rename))
    (hover : ∀ w ∈ v, w.Over (R.Open k)) (hstaged : n.staged = []) :
    R.SameNode k { n with value := v } { n with value := v' } :=
  ⟨by rw [hv, Node.rename, hstaged]; rfl, hover, by rw [hstaged]; exact nofun⟩

theorem SameItems.concat {items items' : List Value} {v v' : Value} (h : R.SameItems k items items')
    (hv : R.SameValue k v v') : R.SameItems k (items ++ [v]) (items' ++ [v']) := by
  refine ⟨by rw [h.eq, hv.eq, List.map_append, List.map_singleton], fun w hw => ?_⟩
  rcases List.mem_append.mp hw with hw | hw
  · exact h.inside w hw
  · exact List.mem_singleton.mp hw ▸ hv.inside

theorem SameItems.set {items items' : List Value} {v v' : Value} (h : R.SameItems k items items')
    (hv : R.SameValue k v v') (i : Nat) : R.SameItems k (items.set i v) (items'.set i v') := by
  refine ⟨by rw [h.eq, hv.eq, List.map_set], fun w hw => ?_⟩
  rcases List.mem_or_eq_of_mem_set hw with hw | rfl
  · exact h.inside w hw
  · exact hv.inside

theorem SameItems.eraseIdx {items items' : List Value} (h : R.SameItems k items items') (i : Nat) :
    R.SameItems k (items.eraseIdx i) (items'.eraseIdx i) :=
  ⟨by rw [h.eq, List.eraseIdx_map], fun w hw => h.inside w (List.mem_of_mem_eraseIdx hw)⟩

theorem SameItems.getElem? {items items' : List Value} (h : R.SameItems k items items') (i : Nat) :
    items'[i]? = items[i]?.map (Value.rename R.rename) ∧ ∀ w ∈ items[i]?, w.Over (R.Open k) :=
  ⟨by rw [h.eq, List.getElem?_map], fun w hw => h.inside w (List.mem_of_getElem? hw)⟩

end Same

/-! ## Two actions -/

section Actions

variable {α α' β β' : Type} {I : ReadState → ReadState → Prop}

/-- What is the same in both states. -/
abbrev Same : Nat → α → α → Prop :=
  fun _ a a' => a' = a

/-- Started in states with `I`, in the first of which there are `k` objects, the second action does what the
first one does if that is accepted, and the states after them are ones with `J`. -/
def Leads (I J : ReadState → ReadState → Prop) (k : Nat) (x : Reading α) (x' : Reading α')
    (Q : Nat → α → α' → Prop) : Prop :=
  ∀ s s' a s₁, k ≤ s.heap.records.size → I s s' → x.runOn s = (.ok a, s₁) →
    ∃ a' s₁', x'.runOn s' = (.ok a', s₁') ∧ s.heap.records.size ≤ s₁.heap.records.size ∧ J s₁ s₁' ∧
      Q s₁.heap.records.size a a'

/-- The second action does what the first one does, and what is known of the states is known of them again. -/
abbrev Follows (I : ReadState → ReadState → Prop) (k : Nat) (x : Reading α) (x' : Reading α')
    (Q : Nat → α → α' → Prop) : Prop :=
  Leads I I k x x' Q

variable {J : ReadState → ReadState → Prop} {Q : Nat → α → α' → Prop} {T : Nat → β → β' → Prop} {x : Reading α}
  {x' : Reading α'} {f : α → Reading β} {f' : α' → Reading β'}

theorem Leads.imp {I' J' : ReadState → ReadState → Prop} {Q' : Nat → α → α' → Prop} (h : Leads I J k x x' Q)
    (hI : ∀ s s', I' s s' → I s s') (hJ : ∀ s s', J s s' → J' s s')
    (hQ : ∀ k' a a', k ≤ k' → Q k' a a' → Q' k' a a') : Leads I' J' k x x' Q' := by
  intro s s' a s₁ hk hs hrun
  obtain ⟨a', s₁', hrun', hsize, hs', hanswer⟩ := h s s' a s₁ hk (hI s s' hs) hrun
  exact ⟨a', s₁', hrun', hsize, hJ s₁ s₁' hs', hQ _ _ _ (hk.trans hsize) hanswer⟩

/-- A sequence; what is known of the states in between need not be known before or afterwards. -/
theorem leads_bind {K : ReadState → ReadState → Prop} (hx : Leads I J k x x' Q)
    (hf : ∀ k' a a', k ≤ k' → Q k' a a' → Leads J K k' (f a) (f' a') T) :
    Leads I K k (x >>= f) (x' >>= f') T := by
  intro s s' b s₂ hk hI hrun
  rw [Action.runOn_bind] at hrun
  cases hfirst : x.runOn s with
  | mk outcome s₁ =>
      rw [hfirst] at hrun
      cases outcome with
      | error e => cases hrun
      | ok a =>
          obtain ⟨a', s₁', hfirst', hsize, hI', hanswer⟩ := hx s s' a s₁ hk hI hfirst
          obtain ⟨b', s₂', hrun', hsize', hI'', hanswer'⟩ :=
            hf _ a a' (hk.trans hsize) hanswer s₁ s₁' b s₂ (Nat.le_refl _) hI' hrun
          refine ⟨b', s₂', ?_, hsize.trans hsize', hI'', hanswer'⟩
          rw [Action.runOn_bind, hfirst']
          exact hrun'

theorem follows_bind (hx : Follows I k x x' Q)
    (hf : ∀ k' a a', k ≤ k' → Q k' a a' → Follows I k' (f a) (f' a') T) :
    Follows I k (x >>= f) (x' >>= f') T :=
  leads_bind hx hf

/-- A sequence that starts with something that is the same in both states. -/
theorem follows_then {f' : α → Reading β'} {x' : Reading α} (hx : Follows I k x x' Same)
    (hf : ∀ a, Follows I k (f a) (f' a) T) : Follows I k (x >>= f) (x' >>= f') T :=
  follows_bind hx fun _ a _ hk heq s s' b s₂ hk' => heq ▸ hf a s s' b s₂ (hk.trans hk')

theorem follows_pure {a : α} {a' : α'} (h : ∀ k', k ≤ k' → Q k' a a') :
    Follows I k (pure a : Reading α) (pure a' : Reading α') Q := by
  intro s s' b s₁ hk hI hrun
  cases hrun
  exact ⟨a', s', rfl, Nat.le_refl _, hI, h _ hk⟩

/-- What is not accepted leads anywhere. -/
theorem leads_fail (e : Error) : Leads I J k (Action.fail e : Reading α) x' Q := by
  intro s s' a s₁ _ _ hrun
  cases hrun

theorem leads_misshapen (cause : Misshapen) : Leads I J k (misshapen cause : Reading α) x' Q :=
  leads_fail _

/-- An action that answers from the state and changes nothing. -/
theorem follows_look {g : ReadState → Except Error α} {g' : ReadState → Except Error α'}
    (h : ∀ s s' a, k ≤ s.heap.records.size → I s s' → g s = .ok a →
      ∃ a', g' s' = .ok a' ∧ Q s.heap.records.size a a') :
    Follows I k (Action.look g : Reading α) (Action.look g' : Reading α') Q := by
  intro s s' a s₁ hk hI hrun
  have hanswer : g s = .ok a := congrArg Prod.fst hrun
  have hstate : s = s₁ := congrArg Prod.snd hrun
  obtain ⟨a', ha', hQ⟩ := h s s' a hk hI hanswer
  rw [← hstate]
  refine ⟨a', s', ?_, Nat.le_refl _, hI, hQ⟩
  rw [Action.look, Action.runOn_ofFunction, ha']

theorem follows_known (outcome : Except Error α) : Follows I k (known outcome) (known outcome) Same :=
  follows_look fun _ _ a _ _ h => ⟨a, h, rfl⟩

/-- A sequence that starts with an outcome that is known already. -/
theorem leads_ofKnown {outcome : Except Error α} {f' : α → Reading β'}
    (hf : ∀ a, outcome = .ok a → Leads I J k (f a) (f' a) T) :
    Leads I J k (known outcome >>= f) (known outcome >>= f') T := by
  cases outcome with
  | error e =>
      intro s s' b s₁ _ _ hrun
      cases hrun
  | ok a => exact hf a rfl

end Actions

/-! ## The single steps -/

section Steps

variable {I : ReadState → ReadState → Prop} {n n' : Node} {v v' : Value}

theorem follows_note (entry : AuditEntry) : Follows R.Pairs k (note entry) (note entry) Same := by
  intro s s' a s₁ _ h hrun
  cases hrun
  refine ⟨(), { s' with audit := entry :: s'.audit }, rfl, Nat.le_refl _, ?_, rfl⟩
  have hpairs := h.congr .refl (entry :: s.audit) (entry :: s'.audit)
  cases s'
  cases h.graph
  exact hpairs

theorem follows_descriptor (hI : ∀ s s', I s s' → R.Pairs s s') (type : TypeId) :
    Follows I k (descriptor type) (descriptor type) fun _ d d' => d' = d ∧ d.HasPlainDefaults :=
  follows_look fun s s' d _ hs hget =>
    have h := hI s s' hs
    ⟨d, h.graph ▸ hget, rfl, h.arises.hasPlainDefaults h.plain (TypeGraph.get_eq_ok.mp hget)⟩

/-- A sequence that starts by looking up a type. -/
theorem follows_ofDescriptor {β β' : Type} {T : Nat → β → β' → Prop} (hI : ∀ s s', I s s' → R.Pairs s s')
    {type : TypeId} {f : Descriptor → Reading β} {f' : Descriptor → Reading β'}
    (hf : ∀ d, d.HasPlainDefaults → Follows I k (f d) (f' d) T) :
    Follows I k (descriptor type >>= f) (descriptor type >>= f') T :=
  follows_bind (follows_descriptor hI type) fun _ d _ hk h s s' b s₂ hk' =>
    h.1 ▸ hf d h.2 s s' b s₂ (hk.trans hk')

theorem follows_typeNamed (name : String) :
    Follows R.Pairs k (typeNamed name) (typeNamed name) Same := by
  intro s s' d s₁ _ h hrun
  have hanswer : (s.graph.byName name).1 = .ok d := congrArg Prod.fst hrun
  have hstate : { s with graph := (s.graph.byName name).2 } = s₁ := congrArg Prod.snd hrun
  rw [← hstate]
  refine ⟨d, { s' with graph := (s.graph.byName name).2 }, ?_, Nat.le_refl _,
    h.congr (s.graph.growsTo_byName name) s.audit s'.audit, rfl⟩
  rw [typeNamed, Action.runOn_ofFunction, h.graph, ← hanswer]

theorem SameNode.setValue {s s' : ReadState} (h : R.Pairs s s') (hn : R.SameNode s.heap.records.size n n')
    (hv : R.SameValue s.heap.records.size v v') :
    R.SameNode s.heap.records.size (n.setValue s.heap v) (n'.setValue s'.heap v') := by
  have hholds : n'.holds s'.heap v' = n.holds s.heap v := by
    have hvalue := hn.value
    rw [hn.eq, hv.eq]
    unfold Node.holds Node.rename
    cases hold : n.value with
    | none => rfl
    | some old => exact h.renames.equal_eq (hvalue old hold) hv.inside
  refine ⟨?_, fun w hw => ?_, hn.staged⟩
  · unfold Node.setValue
    rw [hholds, hn.eq, hv.eq]
    rfl
  · cases hw
    exact hv.inside

theorem follows_setValue (hn : R.SameNode k n n') (hv : R.SameValue k v v') :
    Follows R.Pairs k (setValue n v) (setValue n' v') R.SameNode :=
  follows_look fun _ _ _ hk h hanswer => by
    cases hanswer
    exact ⟨_, rfl, (hn.mono hk).setValue h (hv.mono hk)⟩

end Steps

end Renumbering

end ResourceQuery
