import ResourceQuery.Proofs.Type.Defaults
import ResourceQuery.Proofs.Wire.Standard

set_option autoImplicit false

/-! # Copies of what was there

A patch works on a copy of an object, and the copy is written over the object in the end. This file follows
all copies through a reading. Which objects are copies, and of what, is not written down in the state, so the
invariant speaks of a roster of the objects (`Roster`) that grows while the heap does. It says two things
(`Ledger.Fits`). No value that is held anywhere holds a copy, so that no copy is ever patched itself. And a
copy of an object that was there before the document is of the same type and holds the same, but for the
fields that are *mentioned*, whatever that means (`Ledger.mentioned`).

There is one lemma for each thing that a reading does to the heap: an allocation, a copy, a write to a copy.
What is written back at the end then touches the objects only where that is mentioned
(`Fits.touched_writeBack`).
-/

namespace ResourceQuery

open Reading

/-! ## Rosters -/

/-- How many objects there are, and of which ones among them the others are copies. -/
structure Roster where
  size : Nat
  original : ObjectId → Option ObjectId

namespace Roster

variable {R R' R'' : Roster} {id : ObjectId}

/-- The object is there and is no copy. -/
def Visible (R : Roster) (id : ObjectId) : Prop :=
  id.index < R.size ∧ R.original id = none

/-- More objects, and the same copies among the old ones. -/
def Grows (R R' : Roster) : Prop :=
  R.size ≤ R'.size ∧ ∀ id : ObjectId, id.index < R.size → R'.original id = R.original id

theorem Grows.refl (R : Roster) : R.Grows R :=
  ⟨Nat.le_refl _, fun _ _ => rfl⟩

theorem Grows.trans (h₁ : R.Grows R') (h₂ : R'.Grows R'') : R.Grows R'' :=
  ⟨h₁.1.trans h₂.1, fun id hid => (h₂.2 id (Nat.lt_of_lt_of_le hid h₁.1)).trans (h₁.2 id hid)⟩

theorem Visible.grow (h : R.Visible id) (hgrows : R.Grows R') : R'.Visible id :=
  ⟨Nat.lt_of_lt_of_le h.1 hgrows.1, (hgrows.2 id h.1).trans h.2⟩

/-- One more object, which is a copy of `original` if there is one. -/
def push (R : Roster) (original : Option ObjectId) : Roster :=
  ⟨R.size + 1, fun id => if id.index = R.size then original else R.original id⟩

theorem original_push_of_lt {original : Option ObjectId} (hid : id.index < R.size) :
    (R.push original).original id = R.original id :=
  if_neg (Nat.ne_of_lt hid)

theorem original_push_self {original : Option ObjectId} (hid : id.index = R.size) :
    (R.push original).original id = original :=
  if_pos hid

theorem grows_push (R : Roster) (original : Option ObjectId) : R.Grows (R.push original) :=
  ⟨Nat.le_succ _, fun _ hid => original_push_of_lt hid⟩

/-- A fact on rosters that stays true while they grow. -/
def Stable (F : Roster → Prop) : Prop :=
  ∀ R R', R.Grows R' → F R → F R'

theorem stable_const (p : Prop) : Stable fun _ => p :=
  fun _ _ _ h => h

theorem stable_and {F G : Roster → Prop} (hF : Stable F) (hG : Stable G) :
    Stable fun R => F R ∧ G R :=
  fun R R' hgrows h => ⟨hF R R' hgrows h.1, hG R R' hgrows h.2⟩

theorem stable_visible (id : ObjectId) : Stable (Roster.Visible · id) :=
  fun _ _ hgrows h => h.grow hgrows

/-- The value holds objects that are there and are no copies. -/
def Open (v : Value) (R : Roster) : Prop :=
  v.Over R.Visible

theorem stable_open (v : Value) : Stable (Open v) :=
  fun _ _ hgrows h => h.mono fun _ hid => hid.grow hgrows

/-- The values hold objects that are there and are no copies. -/
def OpenAll (vs : List Value) (R : Roster) : Prop :=
  ∀ v ∈ vs, Open v R

theorem stable_openAll (vs : List Value) : Stable (OpenAll vs) :=
  fun R R' hgrows h v hv => stable_open v R R' hgrows (h v hv)

/-- The entries hold objects that are there and are no copies. -/
def OpenEntries (entries : Entries Value) (R : Roster) : Prop :=
  ∀ entry ∈ entries, Open entry.2 R

theorem stable_openEntries (entries : Entries Value) : Stable (OpenEntries entries) :=
  fun R R' hgrows h entry hentry => stable_open entry.2 R R' hgrows (h entry hentry)

/-- Each pair is an object that is no copy, and a copy of it. -/
def Staged (pairs : List (ObjectId × ObjectId)) (R : Roster) : Prop :=
  ∀ pair ∈ pairs, R.Visible pair.1 ∧ pair.2.index < R.size ∧ R.original pair.2 = some pair.1

theorem stable_staged (pairs : List (ObjectId × ObjectId)) : Stable (Staged pairs) := by
  intro R R' hgrows h pair hpair
  obtain ⟨hobject, hcopy, horiginal⟩ := h pair hpair
  exact ⟨hobject.grow hgrows, Nat.lt_of_lt_of_le hcopy hgrows.1,
    (hgrows.2 _ hcopy).trans horiginal⟩

theorem staged_nil (R : Roster) : Staged [] R :=
  List.forall_mem_nil _

theorem Staged.append {ps qs : List (ObjectId × ObjectId)} (hps : Staged ps R) (hqs : Staged qs R) :
    Staged (ps ++ qs) R := by
  intro pair hpair
  rcases List.mem_append.mp hpair with h | h
  · exact hps pair h
  · exact hqs pair h

/-- The node holds an open value, and what is staged are copies. -/
structure Held (n : Node) (R : Roster) : Prop where
  value : ∀ v ∈ n.value, Open v R
  staged : Staged n.staged R

theorem stable_held (n : Node) : Stable (Held n) :=
  fun R R' hgrows h =>
    ⟨fun v hv => stable_open v R R' hgrows (h.value v hv), stable_staged _ R R' hgrows h.staged⟩

theorem Held.result {n : Node} (h : Held n R) : Open n.result R := by
  have hvalue := h.value
  unfold Node.result
  cases hv : n.value with
  | none => exact .null
  | some v => exact hvalue v hv

end Roster

/-! ## The invariant -/

/-- The defaults in the registry hold objects of `S` only. -/
def Registry.DefaultsOver (S : ObjectId → Prop) (r : Registry) : Prop :=
  ∀ entry ∈ r.types, ∀ p ∈ entry.2.properties, ∀ v ∈ p.default, v.Over S

/-- An object graph: objects are of known types, and what they and the defaults hold is there. -/
structure ReadState.IsClosed (s : ReadState) : Prop where
  arises : s.graph.Arises
  defaults : s.graph.registry.DefaultsOver fun id => id.index < s.heap.records.size
  known : ∀ id : ObjectId, id.index < s.heap.records.size →
    ∃ d, s.graph.table.get? (s.heap.typeOf id) = some d
  inside : ∀ id : ObjectId, id.index < s.heap.records.size →
    (s.heap.record id).Over fun id => id.index < s.heap.records.size

/-- What there was at the start, and which fields of the objects are mentioned. -/
structure Ledger where
  start : ReadState
  closed : start.IsClosed
  mentioned : ObjectId → String → Prop

namespace Ledger

open Roster

variable {w : Ledger} {R : Roster} {s s' : ReadState} {id object : ObjectId} {r : Record}

/-- The object was there at the start. -/
def IsOld (w : Ledger) (id : ObjectId) : Prop :=
  id.index < w.start.heap.records.size

/-- The record is of the type that the object had at the start, and differs from what that held only in
fields that are mentioned. -/
structure Touched (w : Ledger) (id : ObjectId) (r : Record) : Prop where
  type : r.type = w.start.heap.typeOf id
  fields : ∀ name, Entries.get? name r.fields ≠ Entries.get? name (w.start.heap.record id).fields →
    w.mentioned id name

theorem touched_self (w : Ledger) (id : ObjectId) : w.Touched id (w.start.heap.record id) :=
  ⟨rfl, fun _ hne => absurd rfl hne⟩

/-- Another value for a field that is mentioned. -/
theorem Touched.insert {name : String} (h : w.Touched id r) (hname : w.mentioned id name) (v : Value) :
    w.Touched id { r with fields := Entries.insert name v r.fields } := by
  refine ⟨h.type, fun other hne => ?_⟩
  by_cases hsame : other = name
  · exact hsame ▸ hname
  · rw [Entries.get?_insert_of_ne hsame] at hne
    exact h.fields other hne

/-- What the heap holds is open, objects that were there at the start are as they were, and copies of these
were touched only where that is mentioned. -/
structure Fits (w : Ledger) (R : Roster) (s : ReadState) : Prop where
  size : s.heap.records.size = R.size
  started : w.start.heap.records.size ≤ R.size
  graph : w.start.graph.GrowsTo s.graph
  old : ∀ id, w.IsOld id → R.original id = none ∧ s.heap.record id = w.start.heap.record id
  inside : ∀ id : ObjectId, id.index < R.size → (s.heap.record id).Over R.Visible
  copies : ∀ copy object : ObjectId, copy.index < R.size → R.original copy = some object →
    w.IsOld object → w.Touched object (s.heap.record copy)

theorem Fits.visible (h : w.Fits R s) (hid : w.IsOld id) : R.Visible id :=
  ⟨Nat.lt_of_lt_of_le hid h.started, (h.old id hid).1⟩

/-- The types may become more, and the references and the audit may change. -/
theorem Fits.congr (h : w.Fits R s) (hrecords : s'.heap.records = s.heap.records)
    (hgraph : s.graph.GrowsTo s'.graph) : w.Fits R s' := by
  have hrecord : ∀ id, s'.heap.record id = s.heap.record id := fun id => by
    unfold Heap.record
    rw [hrecords]
  refine ⟨?_, h.started, h.graph.trans hgraph, fun id hid => ?_, fun id hid => ?_, fun copy object => ?_⟩
  · rw [hrecords, h.size]
  · rw [hrecord]
    exact h.old id hid
  · rw [hrecord]
    exact h.inside id hid
  · rw [hrecord]
    exact h.copies copy object

/-- One more object, which is a copy of what it is said to be. -/
theorem Fits.alloc (h : w.Fits R s) {original : Option ObjectId} (hr : r.Over R.Visible)
    (hcopy : ∀ object, original = some object → w.IsOld object → w.Touched object r) :
    w.Fits (R.push original) { s with heap := (s.heap.alloc r).2 } := by
  have hkept : ∀ id : ObjectId, id.index < R.size → (s.heap.alloc r).2.record id = s.heap.record id :=
    fun id hid => Heap.record_alloc_of_lt (by rw [h.size]; exact hid) r
  have hnew : ∀ id : ObjectId, id.index = R.size → (s.heap.alloc r).2.record id = r := by
    intro id hid
    have hself : id = (s.heap.alloc r).1 := congrArg ObjectId.mk (hid.trans h.size.symm)
    rw [hself]
    exact Heap.record_alloc_self _ _
  have hgrows := R.grows_push original
  have hover {r : Record} (hr : r.Over R.Visible) : r.Over (R.push original).Visible :=
    hr.mono fun _ hid => hid.grow hgrows
  refine ⟨?_, h.started.trans (Nat.le_succ _), h.graph, fun id hid => ?_, fun id hid => ?_,
    fun copy object hlt horiginal hold => ?_⟩
  · show (s.heap.records.push r).size = R.size + 1
    rw [Array.size_push, h.size]
  · have hlt := (h.visible hid).1
    dsimp only
    rw [original_push_of_lt hlt, hkept id hlt]
    exact h.old id hid
  · dsimp only
    rcases Nat.lt_or_eq_of_le (Nat.le_of_lt_succ hid) with hlt | heq
    · rw [hkept id hlt]
      exact hover (h.inside id hlt)
    · rw [hnew id heq]
      exact hover hr
  · dsimp only
    rcases Nat.lt_or_eq_of_le (Nat.le_of_lt_succ hlt) with hlt | heq
    · rw [original_push_of_lt hlt] at horiginal
      rw [hkept copy hlt]
      exact h.copies copy object hlt horiginal hold
    · rw [original_push_self heq] at horiginal
      rw [hnew copy heq]
      exact hcopy object horiginal hold

/-- A copy of an object that is no copy. -/
theorem Fits.detach (h : w.Fits R s) (hobject : R.Visible object) :
    w.Fits (R.push (some object)) { s with heap := (s.heap.detach object).2 } := by
  refine h.alloc (h.inside object hobject.1) fun other hother hold => ?_
  cases hother
  rw [(h.old object hold).2]
  exact w.touched_self object

/-- The property of the object may be written: the object is a new one and, if it is a copy of one that was
there, then the field is mentioned. -/
structure Permits (w : Ledger) (object : ObjectId) (p : Property) (R : Roster) : Prop where
  there : object.index < R.size
  new : ¬ w.IsOld object
  mentioned : ∀ original, R.original object = some original → w.IsOld original →
    w.mentioned original (p.writesField.getD p.name)

theorem stable_permits (object : ObjectId) (p : Property) : Stable (w.Permits object p) := by
  intro R R' hgrows h
  refine ⟨Nat.lt_of_lt_of_le h.there hgrows.1, h.new, ?_⟩
  rw [hgrows.2 object h.there]
  exact h.mentioned

theorem Fits.write (h : w.Fits R s) {p : Property} (hp : w.Permits object p R) {v : Value}
    (hv : Open v R) : w.Fits R { s with heap := p.write s.heap object v } := by
  let r : Record := { s.heap.record object with
    fields := Entries.insert (p.writesField.getD p.name) v (s.heap.record object).fields }
  show w.Fits R { s with heap := s.heap.setRecord object r }
  have hself : (s.heap.setRecord object r).record object = r :=
    Heap.record_setRecord_self (by rw [h.size]; exact hp.there) r
  refine ⟨?_, h.started, h.graph, fun id hid => ?_, fun id hid => ?_,
    fun copy original hlt horiginal hold => ?_⟩
  · show (s.heap.setRecord object r).records.size = R.size
    rw [Heap.size_setRecord, h.size]
  · have hne : id ≠ object := fun heq => hp.new (heq ▸ hid)
    dsimp only
    rw [Heap.record_setRecord_of_ne hne]
    exact h.old id hid
  · dsimp only
    by_cases heq : id = object
    · rw [heq, hself]
      intro entry hentry
      rcases Entries.mem_insert hentry with rfl | hentry
      · exact hv
      · exact h.inside object hp.there entry hentry
    · rw [Heap.record_setRecord_of_ne heq]
      exact h.inside id hid
  · dsimp only
    by_cases heq : copy = object
    · rw [heq] at hlt horiginal ⊢
      rw [hself]
      exact (h.copies object original hlt horiginal hold).insert
        (hp.mentioned original horiginal hold) v
    · rw [Heap.record_setRecord_of_ne heq]
      exact h.copies copy original hlt horiginal hold

end Ledger

end ResourceQuery
