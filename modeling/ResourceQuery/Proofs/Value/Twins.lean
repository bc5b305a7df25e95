import ResourceQuery.Proofs.Data.Entries
import ResourceQuery.Proofs.Wire.Frame
import ResourceQuery.Value.Equality

set_option autoImplicit false

/-! # Values that look the same

Equality of values follows objects, and takes a pair of objects that it meets again for equal. So two
objects are equal if no difference is ever found, and the way to show it is to name the pairs that are
met. A relation that pairs objects only where their records look the same under that very relation
(`Heap.Matches`) never meets a difference, and `Heap.equal` answers `true` for all values that look the
same under it (`Heap.equal_of_isTwin`).

What is read back from a document consists of new objects, which are made one by one. `Heap.Alike n` is
the largest relation that pairs objects of one heap with new objects of another, those from number `n`
on. It needs no bookkeeping while objects are made: a change to an object below `n` does not matter to it,
and neither do further objects (`Heap.Alike.mono`).
-/

/-- A float that is finite equals itself. -/
theorem Float.beq_self_of_isFinite {x : Float} (h : x.isFinite = true) : (x == x) = true := by
  change x.toModel.unpack.beq x.toModel.unpack = true
  have hfinite : x.toModel.unpack.isFinite = true := h
  generalize x.toModel.unpack = u at hfinite ⊢
  cases u with
  | notANumber => cases hfinite
  | infinity sign => cases hfinite
  | zero sign => rfl
  | finite sign mantissa exponent hpos =>
      unfold Float.Model.UnpackedFloat.beq Float.Model.UnpackedFloat.compare
      cases sign <;> simp

namespace ResourceQuery

/-- A relation of objects. -/
abbrev Pairing := ObjectId → ObjectId → Prop

variable {R S : Pairing} {v w : Value}

/-! ## Values -/

/-- The values are equal, in either order, whenever the objects that `R` pairs count as the same. -/
def Value.IsTwin (R : Pairing) (v w : Value) : Prop :=
  ∀ same : ObjectId → ObjectId → Bool,
    ((∀ x y, R x y → same x y = true) → Value.equalBy same v w = true) ∧
      ((∀ x y, R x y → same y x = true) → Value.equalBy same w v = true)

namespace Value

theorem IsTwin.mono (h : v.IsTwin R w) (hRS : R ≤ S) : v.IsTwin S w := fun same =>
  ⟨fun hsame => (h same).1 fun x y hxy => hsame x y (hRS x y hxy),
    fun hsame => (h same).2 fun x y hxy => hsame x y (hRS x y hxy)⟩

/-- A value that equals itself whatever objects are the same. -/
theorem isTwin_self (h : ∀ same, equalBy same v v = true) : v.IsTwin R v :=
  fun same => ⟨fun _ => h same, fun _ => h same⟩

theorem isTwin_null : null.IsTwin R null :=
  isTwin_self fun _ => by unfold equalBy; rfl

theorem isTwin_object {x y : ObjectId} (h : R x y) : (object x).IsTwin R (object y) := fun same =>
  ⟨fun hsame => by unfold equalBy; exact hsame x y h, fun hsame => by unfold equalBy; exact hsame x y h⟩

/-- References are told by where they are and what they should be. -/
theorem isTwin_reference {r s : LazyRef} (huri : r.uri = s.uri) (htarget : r.target = s.target) :
    (reference r).IsTwin R (reference s) := by
  intro same
  have hboth : equalBy same (reference r) (reference s) = true ∧
      equalBy same (reference s) (reference r) = true := by
    unfold equalBy
    rw [huri, htarget, beq_self_eq_true, beq_self_eq_true]
    exact ⟨rfl, rfl⟩
  exact ⟨fun _ => hboth.1, fun _ => hboth.2⟩

theorem isTwin_list {xs ys : List Value} (h : List.Forall₂ (IsTwin R) xs ys) :
    (list xs).IsTwin R (list ys) := by
  intro same
  have hitems : ((∀ x y, R x y → same x y = true) → equalItems same xs ys = true) ∧
      ((∀ x y, R x y → same y x = true) → equalItems same ys xs = true) := by
    induction h with
    | nil => exact ⟨fun _ => by unfold equalItems; rfl, fun _ => by unfold equalItems; rfl⟩
    | cons hfirst _ ih =>
        refine ⟨fun hsame => ?_, fun hsame => ?_⟩
        · rw [equalItems, (hfirst same).1 hsame, ih.1 hsame]
          rfl
        · rw [equalItems, (hfirst same).2 hsame, ih.2 hsame]
          rfl
  unfold equalBy
  exact hitems

theorem isTwin_map {xs ys : Entries Value}
    (h : List.Forall₂ (fun a b => a.1 = b.1 ∧ a.2.IsTwin R b.2) xs ys) :
    (map xs).IsTwin R (map ys) := by
  intro same
  have hentries : ((∀ x y, R x y → same x y = true) → equalEntries same xs ys = true) ∧
      ((∀ x y, R x y → same y x = true) → equalEntries same ys xs = true) := by
    induction h with
    | nil => exact ⟨fun _ => by unfold equalEntries; rfl, fun _ => by unfold equalEntries; rfl⟩
    | cons hfirst _ ih =>
        obtain ⟨hkey, hvalue⟩ := hfirst
        refine ⟨fun hsame => ?_, fun hsame => ?_⟩
        · rw [equalEntries, hkey, beq_self_eq_true, (hvalue same).1 hsame, ih.1 hsame]
          rfl
        · rw [equalEntries, hkey, beq_self_eq_true, (hvalue same).2 hsame, ih.2 hsame]
          rfl
  unfold equalBy
  exact hentries

end Value

/-! ## Records -/

/-- The value of a field; null if it was never set. -/
def Record.field (r : Record) (name : String) : Value :=
  (Entries.get? name r.fields).getD .null

/-- The records look the same: what is set in one is set in the other, where null counts as not set. -/
structure Record.IsTwin (R : Pairing) (a b : Record) : Prop where
  type : a.type = b.type
  left : ∀ entry ∈ a.fields, entry.2.IsTwin R (b.field entry.1)
  right : ∀ entry ∈ b.fields, (a.field entry.1).IsTwin R entry.2

theorem Record.IsTwin.mono {a b : Record} (h : a.IsTwin R b) (hRS : R ≤ S) : a.IsTwin S b :=
  ⟨h.type, fun entry hentry => (h.left entry hentry).mono hRS,
    fun entry hentry => (h.right entry hentry).mono hRS⟩

/-! ## Heaps -/

namespace Heap

variable {h h' h'' : Heap} {m n : Nat}

/-- In a heap where paired objects look the same, paired objects are the same. -/
theorem sameObjects_of_isTwin (hR : ∀ x y, R x y → (h.record x).IsTwin R (h.record y)) (fuel : Nat)
    (seen : List (ObjectId × ObjectId)) {x y : ObjectId} (hxy : R x y) :
    h.sameObjects fuel seen x y = true ∧ h.sameObjects fuel seen y x = true := by
  induction fuel generalizing seen x y with
  | zero => exact ⟨rfl, rfl⟩
  | succ fuel ih =>
      have htwin := hR x y hxy
      have hcovers : ∀ same : ObjectId → ObjectId → Bool, (∀ x y, R x y → same x y = true) →
          (∀ x y, R x y → same y x = true) →
            Value.covers same (h.record x).fields (h.record y).fields = true ∧
              Value.covers same (h.record y).fields (h.record x).fields = true := by
        intro same hleft hright
        unfold Value.covers
        rw [List.all_eq_true, List.all_eq_true]
        exact ⟨fun entry hentry => (htwin.left entry hentry same).1 hleft,
          fun entry hentry => (htwin.right entry hentry same).2 hright⟩
      refine ⟨?_, ?_⟩
      · unfold sameObjects
        split
        · rfl
        · obtain ⟨hl, hr⟩ := hcovers _ (fun a b hab => (ih ((x, y) :: seen) hab).1)
            fun a b hab => (ih ((x, y) :: seen) hab).2
          dsimp only
          rw [htwin.type, beq_self_eq_true, hl, hr]
          rfl
      · unfold sameObjects
        split
        · rfl
        · obtain ⟨hl, hr⟩ := hcovers _ (fun a b hab => (ih ((y, x) :: seen) hab).1)
            fun a b hab => (ih ((y, x) :: seen) hab).2
          dsimp only
          rw [htwin.type, beq_self_eq_true, hl, hr]
          rfl

/-- **Values that look the same under a relation that never meets a difference are equal.** -/
theorem equal_of_isTwin (hR : ∀ x y, R x y → (h.record x).IsTwin R (h.record y))
    (hvw : v.IsTwin R w) : h.equal v w = true ∧ h.equal w v = true :=
  ⟨(hvw _).1 fun _ _ hxy => (sameObjects_of_isTwin hR _ [] hxy).1,
    (hvw _).2 fun _ _ hxy => (sameObjects_of_isTwin hR _ [] hxy).2⟩

/-- Only null equals null. -/
theorem eq_null_of_equal (hv : h.equal .null v = true) : v = .null := by
  unfold equal at hv
  cases v <;> simp [Value.equalBy] at hv
  rfl

/-! ### New objects that look like old ones -/

/-- The relation pairs objects of `h` with objects of `h'` from number `n` on, and paired objects look the
same. -/
structure Matches (h h' : Heap) (n : Nat) (R : Pairing) : Prop where
  old : ∀ x y, R x y → x.index < h.records.size
  new : ∀ x y, R x y → n ≤ y.index ∧ y.index < h'.records.size
  record : ∀ x y, R x y → (h.record x).IsTwin R (h'.record y)

/-- The object `y` of `h'` is from number `n` on and looks like the object `x` of `h`. -/
def Alike (h h' : Heap) (n : Nat) (x y : ObjectId) : Prop :=
  ∃ R : Pairing, Matches h h' n R ∧ R x y

theorem Matches.le_alike (hR : Matches h h' n R) : R ≤ Alike h h' n :=
  fun _ _ hxy => ⟨R, hR, hxy⟩

theorem matches_alike (h h' : Heap) (n : Nat) : Matches h h' n (Alike h h' n) where
  old := fun x y ⟨_, hR, hxy⟩ => hR.old x y hxy
  new := fun x y ⟨_, hR, hxy⟩ => hR.new x y hxy
  record := fun x y ⟨_, hR, hxy⟩ => (hR.record x y hxy).mono hR.le_alike

/-- Objects that look the same still do so after changes to other objects. -/
theorem Alike.mono {targets : ObjectId → Prop} (hchange : ChangesOnly targets h' h'')
    (htargets : ∀ id, targets id → id.index < n) (hmn : m ≤ n) : Alike h h' n ≤ Alike h h'' m := by
  refine Matches.le_alike ⟨fun x y hxy => ?_, fun x y hxy => ?_, fun x y hxy => ?_⟩
  · exact (matches_alike h h' n).old x y hxy
  · obtain ⟨hlow, hhigh⟩ := (matches_alike h h' n).new x y hxy
    exact ⟨hmn.trans hlow, Nat.lt_of_lt_of_le hhigh hchange.1⟩
  · obtain ⟨hlow, hhigh⟩ := (matches_alike h h' n).new x y hxy
    rw [hchange.2 y hhigh fun hy => Nat.lt_irrefl _ ((htargets y hy).trans_le hlow)]
    exact (matches_alike h h' n).record x y hxy

/-- An object looks like another if its record does, where the objects in its fields are newer. -/
theorem alike_of_record {x y : ObjectId} (hx : x.index < h.records.size) (hmn : m ≤ n)
    (hlow : m ≤ y.index) (hhigh : y.index < h'.records.size)
    (hrecord : (h.record x).IsTwin (Alike h h' n) (h'.record y)) : Alike h h' m x y := by
  have hold : Alike h h' n ≤ fun a b => Alike h h' n a b ∨ a = x ∧ b = y := fun _ _ => Or.inl
  refine ⟨fun a b => Alike h h' n a b ∨ a = x ∧ b = y, ⟨?_, ?_, ?_⟩, Or.inr ⟨rfl, rfl⟩⟩
  · rintro a b (hab | ⟨rfl, rfl⟩)
    · exact (matches_alike h h' n).old a b hab
    · exact hx
  · rintro a b (hab | ⟨rfl, rfl⟩)
    · obtain ⟨hb, hb'⟩ := (matches_alike h h' n).new a b hab
      exact ⟨hmn.trans hb, hb'⟩
    · exact ⟨hlow, hhigh⟩
  · rintro a b (hab | ⟨rfl, rfl⟩)
    · exact ((matches_alike h h' n).record a b hab).mono hold
    · exact hrecord.mono hold

/-- **A value that looks like one of an earlier heap equals it.** -/
theorem equal_of_alike (hgrows : ChangesOnly (fun _ => False) h h')
    (hvw : v.IsTwin (Alike h h' n) w) : h'.equal v w = true ∧ h'.equal w v = true := by
  refine equal_of_isTwin (fun x y hxy => ?_) hvw
  -- the earlier object is unchanged
  rw [hgrows.2 x ((matches_alike h h' n).old x y hxy) fun hfalse => hfalse]
  exact (matches_alike h h' n).record x y hxy

end Heap

end ResourceQuery
