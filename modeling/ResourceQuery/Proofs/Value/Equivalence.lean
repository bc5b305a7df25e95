import ResourceQuery.Proofs.Value.Twins
import Mathlib.Data.Finset.Prod
import Mathlib.Data.Finset.Card
import Mathlib.Data.List.Forall2
import Mathlib.Order.Monotone.Basic

set_option autoImplicit false

/-! # Equality is an equivalence

Equality of values follows objects through cycles, with a list of the pairs that are being compared. What
it computes has a description without that list: two objects agree to depth `n` if `n` rounds of looking
into their fields do not tell them apart (`Heap.agree`). A comparison with nothing under way and `n` steps
left is agreement to depth `n` (`sameObjects_eq_agree`), and as many rounds as there are pairs of objects
find every difference there is (`agree_eq_of_le`). So values are equal if no round tells them apart
(`equal_iff`), and whether they are depends only on the objects that can be reached from them.

Floats are left out, since a float that is no number does not equal itself and a float may equal several
whole numbers of more than 53 bits. A set of objects is closed if their fields hold no floats and no
objects outside it (`Heap.IsClosed`). On values without floats over a closed set, equality and loose
equality are reflexive, symmetric and transitive, and both are the same in all heaps that have the same
records for the set (`looselyEqual_congr`). `Heap.Keeps` says that a later heap is one of these.
-/

namespace List

variable {α : Type} {P Q R : α → α → Prop} {xs ys zs : List α}

/-- Lists that are related item by item are so the other way round. -/
theorem Forall₂.flip_of_mem (h : Forall₂ P xs ys)
    (hPQ : ∀ x ∈ xs, ∀ y ∈ ys, P x y → Q y x) : Forall₂ Q ys xs := by
  induction h with
  | nil => exact .nil
  | cons hfirst _ ih =>
      exact .cons (hPQ _ mem_cons_self _ mem_cons_self hfirst)
        (ih fun x hx y hy => hPQ x (mem_cons_of_mem _ hx) y (mem_cons_of_mem _ hy))

/-- Two relations item by item compose. -/
theorem Forall₂.trans_of_mem (h₁ : Forall₂ P xs ys) (h₂ : Forall₂ Q ys zs)
    (hPQR : ∀ x ∈ xs, ∀ y ∈ ys, ∀ z ∈ zs, P x y → Q y z → R x z) : Forall₂ R xs zs := by
  induction h₁ generalizing zs with
  | nil =>
      cases h₂
      exact .nil
  | cons hfirst _ ih =>
      cases h₂ with
      | cons hfirst' hrest' =>
          exact .cons (hPQR _ mem_cons_self _ mem_cons_self _ mem_cons_self hfirst hfirst')
            (ih hrest' fun x hx y hy z hz =>
              hPQR x (mem_cons_of_mem _ hx) y (mem_cons_of_mem _ hy) z (mem_cons_of_mem _ hz))

end List

namespace ResourceQuery

/-! ## Values without floats -/

/-- The value holds no float, and objects of `S` only. -/
inductive Value.FloatFree (S : ObjectId → Prop) : Value → Prop
  | null : FloatFree S .null
  | bool (b : Bool) : FloatFree S (.bool b)
  | int (n : Int64) : FloatFree S (.int n)
  | string (s : String) : FloatFree S (.string s)
  | dateTime (t : Timestamp) : FloatFree S (.dateTime t)
  | enum (member : String) : FloatFree S (.enum member)
  | list {items : List Value} (h : ∀ item ∈ items, FloatFree S item) : FloatFree S (.list items)
  | map {entries : List (String × Value)} (h : ∀ entry ∈ entries, FloatFree S entry.2) :
      FloatFree S (.map entries)
  | object {x : ObjectId} (h : S x) : FloatFree S (.object x)
  | group {key : Value} {items : List Value} (hkey : FloatFree S key)
      (h : ∀ item ∈ items, FloatFree S item) : FloatFree S (.group key items)
  | reference (ref : LazyRef) : FloatFree S (.reference ref)

namespace Value

variable {S T : ObjectId → Prop} {same same₁ same₂ : ObjectId → ObjectId → Bool} {u v w : Value}

theorem FloatFree.mono (hv : v.FloatFree S) (hST : ∀ x, S x → T x) : v.FloatFree T := by
  induction hv with
  | null => exact .null
  | bool b => exact .bool b
  | int n => exact .int n
  | string s => exact .string s
  | dateTime t => exact .dateTime t
  | enum member => exact .enum member
  | list _ ih => exact .list ih
  | map _ ih => exact .map ih
  | object h => exact .object (hST _ h)
  | group _ _ ihkey ih => exact .group ihkey ih
  | reference ref => exact .reference ref

/-- A value over two sets of objects is one over what they share. -/
theorem FloatFree.and (hS : v.FloatFree S) (hT : v.FloatFree T) :
    v.FloatFree fun x => S x ∧ T x := by
  induction hS with
  | null => exact .null
  | bool b => exact .bool b
  | int n => exact .int n
  | string s => exact .string s
  | dateTime t => exact .dateTime t
  | enum member => exact .enum member
  | list _ ih =>
      cases hT with
      | list h => exact .list fun item hitem => ih item hitem (h item hitem)
  | map _ ih =>
      cases hT with
      | map h => exact .map fun entry hentry => ih entry hentry (h entry hentry)
  | object h =>
      cases hT with
      | object h' => exact .object ⟨h, h'⟩
  | group _ _ ihkey ih =>
      cases hT with
      | group hkey h => exact .group (ihkey hkey) fun item hitem => ih item hitem (h item hitem)
  | reference ref => exact .reference ref

/-! ## Equality, given when objects are the same -/

theorem equalItems_iff {xs ys : List Value} :
    equalItems same xs ys = true ↔ List.Forall₂ (fun x y => equalBy same x y = true) xs ys := by
  induction xs generalizing ys with
  | nil => cases ys <;> simp [equalItems]
  | cons x xs ih => cases ys <;> simp [equalItems, ih]

theorem equalEntries_iff {xs ys : List (String × Value)} :
    equalEntries same xs ys = true ↔
      List.Forall₂ (fun x y => x.1 = y.1 ∧ equalBy same x.2 y.2 = true) xs ys := by
  induction xs generalizing ys with
  | nil => cases ys <;> simp [equalEntries]
  | cons x xs ih => cases ys <;> simp [equalEntries, ih]

theorem equalBy_refl (hsame : ∀ x, S x → same x x = true) (hv : v.FloatFree S) :
    equalBy same v v = true := by
  induction hv with
  | null => simp [equalBy]
  | bool b => simp [equalBy]
  | int n => simp [equalBy]
  | string s => simp [equalBy]
  | dateTime t => simp [equalBy, Timestamp.sameInstant]
  | enum member => simp [equalBy]
  | list _ ih => simpa [equalBy, equalItems_iff, List.forall₂_same] using ih
  | map _ ih => simpa [equalBy, equalEntries_iff, List.forall₂_same] using ih
  | object h => simpa [equalBy] using hsame _ h
  | group _ _ ihkey ih => simpa [equalBy, equalItems_iff, List.forall₂_same, ihkey] using ih
  | reference ref => simp [equalBy]

theorem equalBy_symm (hsame : ∀ x y, S x → S y → same₁ x y = true → same₂ y x = true)
    (hv : v.FloatFree S) (hw : w.FloatFree S) (h : equalBy same₁ v w = true) :
    equalBy same₂ w v = true := by
  induction hv generalizing w with
  | null => cases hw <;> simp_all [equalBy]
  | bool b => cases hw <;> simp_all [equalBy]
  | int n => cases hw <;> simp_all [equalBy]
  | string s => cases hw <;> simp_all [equalBy]
  | dateTime t => cases hw <;> simp_all [equalBy, Timestamp.sameInstant]
  | enum member => cases hw <;> simp_all [equalBy]
  | list _ ih =>
      cases hw with
      | list hys =>
          simp only [equalBy, equalItems_iff] at h ⊢
          exact h.flip_of_mem fun x hx y hy hxy => ih x hx (hys y hy) hxy
      | _ => simp [equalBy] at h
  | map _ ih =>
      cases hw with
      | map hys =>
          simp only [equalBy, equalEntries_iff] at h ⊢
          exact h.flip_of_mem fun x hx y hy hxy => ⟨hxy.1.symm, ih x hx (hys y hy) hxy.2⟩
      | _ => simp [equalBy] at h
  | object hx =>
      cases hw with
      | object hy =>
          simp only [equalBy] at h ⊢
          exact hsame _ _ hx hy h
      | _ => simp [equalBy] at h
  | group _ _ ihkey ih =>
      cases hw with
      | group hkey hys =>
          simp only [equalBy, Bool.and_eq_true, equalItems_iff] at h ⊢
          exact ⟨ihkey hkey h.1, h.2.flip_of_mem fun x hx y hy hxy => ih x hx (hys y hy) hxy⟩
      | _ => simp [equalBy] at h
  | reference ref => cases hw <;> simp_all [equalBy]

/-- Equalities compose if those of objects do. -/
theorem equalBy_trans
    (hsame : ∀ x y z, S x → S y → S z → same₁ x y = true → same₂ y z = true → same x z = true)
    (hu : u.FloatFree S) (hv : v.FloatFree S) (hw : w.FloatFree S)
    (huv : equalBy same₁ u v = true) (hvw : equalBy same₂ v w = true) :
    equalBy same u w = true := by
  induction hu generalizing v w with
  | null =>
      cases hv <;> simp_all [equalBy]
      cases hw <;> simp_all [equalBy]
  | bool b =>
      cases hv <;> simp_all [equalBy]
      cases hw <;> simp_all [equalBy]
  | int n =>
      cases hv <;> simp_all [equalBy]
      cases hw <;> simp_all [equalBy]
  | string s =>
      cases hv <;> simp_all [equalBy]
      cases hw <;> simp_all [equalBy]
  | dateTime t =>
      cases hv <;> simp_all [equalBy, Timestamp.sameInstant]
      cases hw <;> simp_all [equalBy, Timestamp.sameInstant]
  | enum member =>
      cases hv <;> simp_all [equalBy]
      cases hw <;> simp_all [equalBy]
  | list _ ih =>
      cases hv with
      | list hys =>
          cases hw with
          | list hzs =>
              simp only [equalBy, equalItems_iff] at huv hvw ⊢
              exact huv.trans_of_mem hvw fun x hx y hy z hz hxy hyz =>
                ih x hx (hys y hy) (hzs z hz) hxy hyz
          | _ => simp [equalBy] at hvw
      | _ => simp [equalBy] at huv
  | map _ ih =>
      cases hv with
      | map hys =>
          cases hw with
          | map hzs =>
              simp only [equalBy, equalEntries_iff] at huv hvw ⊢
              exact huv.trans_of_mem hvw fun x hx y hy z hz hxy hyz =>
                ⟨hxy.1.trans hyz.1, ih x hx (hys y hy) (hzs z hz) hxy.2 hyz.2⟩
          | _ => simp [equalBy] at hvw
      | _ => simp [equalBy] at huv
  | object hx =>
      cases hv with
      | object hy =>
          cases hw with
          | object hz =>
              simp only [equalBy] at huv hvw ⊢
              exact hsame _ _ _ hx hy hz huv hvw
          | _ => simp [equalBy] at hvw
      | _ => simp [equalBy] at huv
  | group _ _ ihkey ih =>
      cases hv with
      | group hkey hys =>
          cases hw with
          | group hkey' hzs =>
              simp only [equalBy, Bool.and_eq_true, equalItems_iff] at huv hvw ⊢
              exact ⟨ihkey hkey hkey' huv.1 hvw.1, huv.2.trans_of_mem hvw.2
                fun x hx y hy z hz hxy hyz => ih x hx (hys y hy) (hzs z hz) hxy hyz⟩
          | _ => simp [equalBy] at hvw
      | _ => simp [equalBy] at huv
  | reference ref =>
      cases hv <;> simp_all [equalBy]
      cases hw <;> simp_all [equalBy]

/-- Equality holds on if more objects are the same. -/
theorem equalBy_mono (hsame : ∀ x y, S x → S y → same₁ x y = true → same₂ x y = true)
    (hv : v.FloatFree S) (hw : w.FloatFree S) (h : equalBy same₁ v w = true) :
    equalBy same₂ v w = true := by
  have hself : equalBy (fun x y => decide (x = y)) w w = true :=
    equalBy_refl (fun x _ => decide_eq_true rfl) hw
  refine equalBy_trans (fun x y z hx hy _ hxy hyz => ?_) hv hw hw h hself
  rw [← of_decide_eq_true hyz]
  exact hsame x y hx hy hxy

/-- A value that equals null is null. -/
theorem equalBy_null_right : equalBy same v null = true ↔ v = null := by
  cases v <;> simp [equalBy]

end Value

/-! ## Objects -/

namespace Heap

variable {S T : ObjectId → Prop} {same same₁ same₂ : ObjectId → ObjectId → Bool} {h h' : Heap}
  {x y z : ObjectId} {u v w : Value} {n m fuel : Nat}

/-- The fields of the objects of `S` hold no floats, and objects of `S` only. -/
def IsClosed (h : Heap) (S : ObjectId → Prop) : Prop :=
  ∀ x, S x → ∀ entry ∈ (h.record x).fields, entry.2.FloatFree S

theorem IsClosed.field (hS : h.IsClosed S) (hx : S x) (name : String) :
    ((h.record x).field name).FloatFree S := by
  unfold Record.field
  cases hget : Entries.get? name (h.record x).fields with
  | none => exact .null
  | some value => exact hS x hx _ (Entries.mem_of_get? hget)

/-- Objects of one type whose fields are equal, given when the objects in them are the same. -/
def alikeBy (h : Heap) (same : ObjectId → ObjectId → Bool) (x y : ObjectId) : Bool :=
  (h.record x).type == (h.record y).type &&
    Value.covers same (h.record x).fields (h.record y).fields &&
    Value.covers same (h.record y).fields (h.record x).fields

theorem covers_iff {same : ObjectId → ObjectId → Bool} {xs : Entries Value} {r : Record} :
    Value.covers same xs r.fields = true ↔
      ∀ entry ∈ xs, Value.equalBy same entry.2 (r.field entry.1) = true := by
  simp [Value.covers, Record.field]

theorem alikeBy_iff : h.alikeBy same x y = true ↔
    (h.record x).type = (h.record y).type ∧
      (∀ entry ∈ (h.record x).fields,
        Value.equalBy same entry.2 ((h.record y).field entry.1) = true) ∧
      ∀ entry ∈ (h.record y).fields,
        Value.equalBy same entry.2 ((h.record x).field entry.1) = true := by
  simp [alikeBy, covers_iff, and_assoc]

theorem alikeBy_comm : h.alikeBy same x y = h.alikeBy same y x := by
  rw [Bool.eq_iff_iff, alikeBy_iff, alikeBy_iff]
  exact ⟨fun ⟨htype, hl, hr⟩ => ⟨htype.symm, hr, hl⟩, fun ⟨htype, hl, hr⟩ => ⟨htype.symm, hr, hl⟩⟩

theorem alikeBy_mono (hS : h.IsClosed S)
    (hsame : ∀ x y, S x → S y → same₁ x y = true → same₂ x y = true) (hx : S x) (hy : S y)
    (hxy : h.alikeBy same₁ x y = true) : h.alikeBy same₂ x y = true := by
  rw [alikeBy_iff] at hxy ⊢
  obtain ⟨htype, hl, hr⟩ := hxy
  refine ⟨htype, fun entry hentry => ?_, fun entry hentry => ?_⟩
  · exact Value.equalBy_mono hsame (hS x hx entry hentry) (hS.field hy _) (hl entry hentry)
  · exact Value.equalBy_mono hsame (hS y hy entry hentry) (hS.field hx _) (hr entry hentry)

/-- What is set in the first of three records is in the last what it is in the first. A field that the
middle record does not have is null in the first, and is not set in the last or null there. -/
theorem equalBy_field_trans (hS : h.IsClosed S) (hx : S x) (hy : S y) (hz : S z)
    (htrans : ∀ x y z, S x → S y → S z → same x y = true → same y z = true → same x z = true)
    (hxy : h.alikeBy same x y = true) (hyz : h.alikeBy same y z = true) {entry : String × Value}
    (hentry : entry ∈ (h.record x).fields) :
    Value.equalBy same entry.2 ((h.record z).field entry.1) = true := by
  have hfirst := (alikeBy_iff.mp hxy).2.1 entry hentry
  unfold Record.field at hfirst ⊢
  cases hgety : Entries.get? entry.1 (h.record y).fields with
  | some b =>
      rw [hgety] at hfirst
      have hb := Entries.mem_of_get? hgety
      have hsecond := (alikeBy_iff.mp hyz).2.1 (entry.1, b) hb
      exact Value.equalBy_trans htrans (hS x hx entry hentry) (hS y hy _ hb) (hS.field hz _)
        hfirst hsecond
  | none =>
      rw [hgety] at hfirst
      rw [Value.equalBy_null_right.mp hfirst]
      cases hgetz : Entries.get? entry.1 (h.record z).fields with
      | none => simp [Value.equalBy]
      | some c =>
          have hback := (alikeBy_iff.mp hyz).2.2 (entry.1, c) (Entries.mem_of_get? hgetz)
          unfold Record.field at hback
          rw [hgety] at hback
          have hc : c = .null := Value.equalBy_null_right.mp hback
          simp [hc, Value.equalBy]

theorem alikeBy_trans (hS : h.IsClosed S)
    (htrans : ∀ x y z, S x → S y → S z → same x y = true → same y z = true → same x z = true)
    (hx : S x) (hy : S y) (hz : S z) (hxy : h.alikeBy same x y = true)
    (hyz : h.alikeBy same y z = true) : h.alikeBy same x z = true := by
  refine alikeBy_iff.mpr ⟨?_, fun entry hentry => ?_, fun entry hentry => ?_⟩
  · exact (alikeBy_iff.mp hxy).1.trans (alikeBy_iff.mp hyz).1
  · exact equalBy_field_trans hS hx hy hz htrans hxy hyz hentry
  · exact equalBy_field_trans hS hz hy hx htrans (alikeBy_comm.symm ▸ hyz) (alikeBy_comm.symm ▸ hxy)
      hentry

/-! ### Agreement to a depth -/

/-- The objects agree to a depth: so many rounds of looking into their fields do not tell them apart. -/
def agree (h : Heap) : (depth : Nat) → ObjectId → ObjectId → Bool
  | 0, _, _ => true
  | depth + 1, x, y => decide (x = y) || h.alikeBy (h.agree depth) x y

theorem agree_succ_iff :
    h.agree (n + 1) x y = true ↔ x = y ∨ h.alikeBy (h.agree n) x y = true := by
  simp [agree]

theorem agree_refl (n : Nat) (x : ObjectId) : h.agree n x x = true := by
  cases n <;> simp [agree]

theorem agree_symm (hxy : h.agree n x y = true) : h.agree n y x = true := by
  cases n with
  | zero => rfl
  | succ n =>
      rw [agree_succ_iff] at hxy ⊢
      exact hxy.imp Eq.symm fun halike => alikeBy_comm.symm ▸ halike

theorem agree_trans (hS : h.IsClosed S) (hx : S x) (hy : S y) (hz : S z)
    (hxy : h.agree n x y = true) (hyz : h.agree n y z = true) : h.agree n x z = true := by
  induction n generalizing x y z with
  | zero => rfl
  | succ n ih =>
      rw [agree_succ_iff] at hxy hyz ⊢
      rcases hxy with rfl | hxy
      · exact hyz
      rcases hyz with rfl | hyz
      · exact Or.inr hxy
      exact Or.inr (alikeBy_trans hS (fun a b c ha hb hc => ih ha hb hc) hx hy hz hxy hyz)

theorem agree_of_succ (hS : h.IsClosed S) (hx : S x) (hy : S y)
    (hxy : h.agree (n + 1) x y = true) : h.agree n x y = true := by
  induction n generalizing x y with
  | zero => rfl
  | succ n ih =>
      rw [agree_succ_iff] at hxy ⊢
      exact hxy.imp_right (alikeBy_mono hS (fun a b ha hb => ih ha hb) hx hy)

theorem agree_of_le (hS : h.IsClosed S) (hx : S x) (hy : S y) (hmn : m ≤ n)
    (hxy : h.agree n x y = true) : h.agree m x y = true := by
  induction hmn with
  | refl => exact hxy
  | step _ ih => exact ih (agree_of_succ hS hx hy hxy)

/-- Agreement is the same in heaps that have the same records for a closed set. -/
theorem agree_congr (hS : h.IsClosed S) (hsame : ∀ x, S x → h'.record x = h.record x) (hx : S x)
    (hy : S y) : h'.agree n x y = h.agree n x y := by
  have hS' : h'.IsClosed S := fun a ha => hsame a ha ▸ hS a ha
  induction n generalizing x y with
  | zero => rfl
  | succ n ih =>
      have halike : ∀ same, h'.alikeBy same x y = h.alikeBy same x y := fun same => by
        unfold alikeBy
        rw [hsame x hx, hsame y hy]
      rw [Bool.eq_iff_iff, agree_succ_iff, agree_succ_iff, halike]
      refine or_congr_right ⟨?_, ?_⟩
      · exact alikeBy_mono hS (fun a b ha hb hab => ih ha hb ▸ hab) hx hy
      · exact alikeBy_mono hS (fun a b ha hb hab => (ih ha hb).symm ▸ hab) hx hy

/-! ### What a comparison computes -/

theorem sameObjects_succ_iff {seen : List (ObjectId × ObjectId)} :
    h.sameObjects (fuel + 1) seen x y = true ↔
      (x = y ∨ (x, y) ∈ seen) ∨ h.alikeBy (h.sameObjects fuel ((x, y) :: seen)) x y = true := by
  unfold sameObjects
  split
  · rename_i hseen
    exact iff_of_true rfl (Or.inl hseen)
  · rename_i hseen
    exact ⟨fun halike => Or.inr halike, fun halike => halike.resolve_left hseen⟩

theorem sameObjects_of_agree (hS : h.IsClosed S) (seen : List (ObjectId × ObjectId)) (hx : S x)
    (hy : S y) (hxy : h.agree fuel x y = true) : h.sameObjects fuel seen x y = true := by
  induction fuel generalizing seen x y with
  | zero => rfl
  | succ fuel ih =>
      rw [sameObjects_succ_iff]
      rcases agree_succ_iff.mp hxy with heq | halike
      · exact Or.inl (Or.inl heq)
      · exact Or.inr (alikeBy_mono hS (fun a b ha hb => ih _ ha hb) hx hy halike)

/-- A comparison finds the differences that as many rounds as it has steps would find, if those rounds do
not tell apart the pairs it takes for equal. -/
theorem agree_of_sameObjects (hS : h.IsClosed S) {seen : List (ObjectId × ObjectId)} (hx : S x)
    (hy : S y) (hn : n ≤ fuel) (hseen : ∀ pair ∈ seen, h.agree n pair.1 pair.2 = true)
    (hSseen : ∀ pair ∈ seen, S pair.1 ∧ S pair.2)
    (hxy : h.sameObjects fuel seen x y = true) : h.agree n x y = true := by
  induction n generalizing fuel seen x y with
  | zero => rfl
  | succ n ih =>
      have hless : ∀ pair ∈ seen, h.agree n pair.1 pair.2 = true := fun pair hpair =>
        agree_of_succ hS (hSseen pair hpair).1 (hSseen pair hpair).2 (hseen pair hpair)
      obtain ⟨fuel, rfl⟩ := Nat.exists_eq_add_of_lt hn
      rw [show n + fuel + 1 = (n + fuel) + 1 from rfl] at hxy
      have hprevious := ih hx hy (Nat.le_of_lt hn) hless hSseen hxy
      rw [agree_succ_iff]
      rcases sameObjects_succ_iff.mp hxy with (heq | hmem) | halike
      · exact Or.inl heq
      · exact agree_succ_iff.mp (hseen (x, y) hmem)
      · refine Or.inr (alikeBy_mono hS (fun a b ha hb hab => ?_) hx hy halike)
        refine ih ha hb (Nat.le_add_right n fuel) ?_ ?_ hab
        · exact List.forall_mem_cons.mpr ⟨hprevious, hless⟩
        · exact List.forall_mem_cons.mpr ⟨⟨hx, hy⟩, hSseen⟩

/-- **A comparison with nothing under way is agreement to the depth of its steps.** -/
theorem sameObjects_eq_agree (hS : h.IsClosed S) (hx : S x) (hy : S y) :
    h.sameObjects fuel [] x y = h.agree fuel x y := by
  rw [Bool.eq_iff_iff]
  exact ⟨agree_of_sameObjects hS hx hy (Nat.le_refl fuel) (List.forall_mem_nil _) (List.forall_mem_nil _),
    sameObjects_of_agree hS [] hx hy⟩

/-! ### How many rounds are enough -/

theorem agree_succ_congr (hS : h.IsClosed S)
    (hnm : ∀ x y, S x → S y → h.agree n x y = h.agree m x y) (hx : S x) (hy : S y) :
    h.agree (n + 1) x y = h.agree (m + 1) x y := by
  rw [Bool.eq_iff_iff, agree_succ_iff, agree_succ_iff]
  refine or_congr_right ⟨?_, ?_⟩
  · exact alikeBy_mono hS (fun a b ha hb hab => hnm a b ha hb ▸ hab) hx hy
  · exact alikeBy_mono hS (fun a b ha hb hab => (hnm a b ha hb).symm ▸ hab) hx hy

/-- An object that was never made has no fields, and one round tells all about it. -/
theorem agree_succ_of_not_lt (hx : ¬x.index < h.records.size) :
    h.agree (n + 1) x y = h.agree (m + 1) x y := by
  have hrecord : h.record x = ⟨⟨0⟩, []⟩ := by
    unfold record
    rw [Array.getElem?_eq_none (Nat.not_lt.mp hx)]
    rfl
  have halike : ∀ same, h.alikeBy same x y = true ↔
      ⟨0⟩ = (h.record y).type ∧ ∀ entry ∈ (h.record y).fields, entry.2 = .null := fun same => by
    simp [alikeBy_iff, hrecord, Record.field, Value.equalBy_null_right]
  rw [Bool.eq_iff_iff, agree_succ_iff, agree_succ_iff, halike, halike]

open Classical in
/-- The pairs of objects of `S` that are told apart in so many rounds. -/
noncomputable def apart (h : Heap) (S : ObjectId → Prop) (n : Nat) : Finset (Nat × Nat) :=
  (Finset.range h.records.size ×ˢ Finset.range h.records.size).filter fun pair =>
    S ⟨pair.1⟩ ∧ S ⟨pair.2⟩ ∧ h.agree n ⟨pair.1⟩ ⟨pair.2⟩ = false

theorem mem_apart {pair : Nat × Nat} : pair ∈ h.apart S n ↔
    (pair.1 < h.records.size ∧ pair.2 < h.records.size) ∧
      S ⟨pair.1⟩ ∧ S ⟨pair.2⟩ ∧ h.agree n ⟨pair.1⟩ ⟨pair.2⟩ = false := by
  simp [apart]

theorem card_apart_le : (h.apart S n).card ≤ h.records.size * h.records.size := by
  classical
  have hsubset : h.apart S n ⊆ Finset.range h.records.size ×ˢ Finset.range h.records.size :=
    Finset.filter_subset _ _
  refine (Finset.card_le_card hsubset).trans ?_
  rw [Finset.card_product, Finset.card_range]

theorem apart_mono (hS : h.IsClosed S) (hnm : n ≤ m) : h.apart S n ⊆ h.apart S m := by
  intro pair hpair
  obtain ⟨hrange, hx, hy, hdiffer⟩ := mem_apart.mp hpair
  refine mem_apart.mpr ⟨hrange, hx, hy, ?_⟩
  rw [Bool.eq_false_iff] at hdiffer ⊢
  exact fun hagree => hdiffer (agree_of_le hS hx hy hnm hagree)

/-- Depths at which the same pairs are told apart are the same. -/
theorem agree_of_apart_eq (hapart : h.apart S (n + 1) = h.apart S (m + 1)) (hx : S x) (hy : S y) :
    h.agree (n + 1) x y = h.agree (m + 1) x y := by
  by_cases hxr : x.index < h.records.size
  swap
  · exact agree_succ_of_not_lt hxr
  by_cases hyr : y.index < h.records.size
  swap
  · rw [Bool.eq_iff_iff]
    have hflip : h.agree (n + 1) y x = h.agree (m + 1) y x := agree_succ_of_not_lt hyr
    exact ⟨fun hxy => agree_symm (hflip ▸ agree_symm hxy),
      fun hxy => agree_symm (hflip.symm ▸ agree_symm hxy)⟩
  have hpair : ∀ k, (x.index, y.index) ∈ h.apart S k ↔ h.agree k x y = false := fun k =>
    mem_apart.trans ⟨fun hmem => hmem.2.2.2, fun hdiffer => ⟨⟨hxr, hyr⟩, hx, hy, hdiffer⟩⟩
  have hiff : h.agree (n + 1) x y = false ↔ h.agree (m + 1) x y = false := by
    rw [← hpair, ← hpair, hapart]
  rw [Bool.eq_iff_iff, ← not_iff_not, Bool.not_eq_true, Bool.not_eq_true]
  exact hiff

/-- **As many rounds as there are pairs of objects, and one more, find every difference.** -/
theorem agree_eq_of_le (hS : h.IsClosed S) (hx : S x) (hy : S y)
    (hn : h.records.size * h.records.size ≤ n) :
    h.agree (n + 1) x y = h.agree (h.records.size * h.records.size + 1) x y := by
  have hgrows : ∀ {k l}, k ≤ l → h.apart S (k + 1) ⊆ h.apart S (l + 1) := fun hkl =>
    apart_mono hS (Nat.succ_le_succ hkl)
  have hcard : (h.apart S (n + 1)).card =
      (h.apart S (h.records.size * h.records.size + 1)).card := by
    refine Nat.stabilises_of_monotone (f := fun k => (h.apart S (k + 1)).card)
      (fun k l hkl => Finset.card_le_card (hgrows hkl)) (fun k => card_apart_le) (fun k hk => ?_) hn
    have heq : h.apart S (k + 1) = h.apart S (k + 1 + 1) :=
      Finset.eq_of_subset_of_card_le (hgrows (Nat.le_succ k)) hk.ge
    -- the next round tells apart what it would have told apart a round earlier
    have hnext : ∀ a b, S a → S b → h.agree (k + 1 + 1) a b = h.agree (k + 1 + 1 + 1) a b :=
      fun a b ha hb => agree_succ_congr hS (fun _ _ => agree_of_apart_eq heq) ha hb
    refine congrArg Finset.card (Finset.ext fun pair => ?_)
    rw [mem_apart, mem_apart]
    refine and_congr_right fun _ => and_congr_right fun ha => and_congr_right fun hb => ?_
    rw [hnext _ _ ha hb]
  exact (agree_of_apart_eq (Finset.eq_of_subset_of_card_le (hgrows hn) hcard.le) hx hy).symm

/-! ### Equality and loose equality -/

/-- **Values are equal if no round of looking into fields tells them apart.** -/
theorem equal_iff (hS : h.IsClosed S) (hv : v.FloatFree S) (hw : w.FloatFree S) :
    h.equal v w = true ↔ ∀ n, Value.equalBy (h.agree n) v w = true := by
  have hsame : ∀ x y, S x → S y →
      h.sameObjects (h.records.size * h.records.size + 1) [] x y =
        h.agree (h.records.size * h.records.size + 1) x y :=
    fun x y hx hy => sameObjects_eq_agree hS hx hy
  unfold equal
  refine ⟨fun heq n => ?_, fun hall => ?_⟩
  · refine Value.equalBy_mono (fun x y hx hy hxy => ?_) hv hw heq
    rw [hsame x y hx hy] at hxy
    have hdeep := (agree_eq_of_le hS hx hy (Nat.le_add_right _ n)).trans hxy
    exact agree_of_le hS hx hy (by omega) hdeep
  · exact Value.equalBy_mono (fun x y hx hy hxy => (hsame x y hx hy).symm ▸ hxy) hv hw (hall _)

theorem equal_refl (hS : h.IsClosed S) (hv : v.FloatFree S) : h.equal v v = true :=
  (equal_iff hS hv hv).mpr fun n => Value.equalBy_refl (fun x _ => agree_refl n x) hv

theorem equal_symm (hS : h.IsClosed S) (hv : v.FloatFree S) (hw : w.FloatFree S)
    (hvw : h.equal v w = true) : h.equal w v = true :=
  (equal_iff hS hw hv).mpr fun n =>
    Value.equalBy_symm (fun _ _ _ _ => agree_symm) hv hw ((equal_iff hS hv hw).mp hvw n)

theorem equal_trans (hS : h.IsClosed S) (hu : u.FloatFree S) (hv : v.FloatFree S)
    (hw : w.FloatFree S) (huv : h.equal u v = true) (hvw : h.equal v w = true) :
    h.equal u w = true := by
  refine (equal_iff hS hu hw).mpr fun n => ?_
  refine Value.equalBy_trans ?_ hu hv hw ((equal_iff hS hu hv).mp huv n)
    ((equal_iff hS hv hw).mp hvw n)
  exact fun x y z hx hy hz => agree_trans hS hx hy hz

theorem equal_congr (hS : h.IsClosed S) (hsame : ∀ x, S x → h'.record x = h.record x)
    (hv : v.FloatFree S) (hw : w.FloatFree S) : h'.equal v w = h.equal v w := by
  have hS' : h'.IsClosed S := fun a ha => hsame a ha ▸ hS a ha
  rw [Bool.eq_iff_iff, equal_iff hS hv hw, equal_iff hS' hv hw]
  refine forall_congr' fun n => ⟨?_, ?_⟩
  · exact Value.equalBy_mono (fun x y hx hy hxy => agree_congr hS hsame hx hy ▸ hxy) hv hw
  · exact Value.equalBy_mono (fun x y hx hy hxy => (agree_congr hS hsame hx hy).symm ▸ hxy) hv hw

end Heap

namespace Value

/-- The value, where a member of an enum stands as its text. -/
def textual : Value → Value
  | .enum member => .string member
  | v => v

theorem FloatFree.textual {S : ObjectId → Prop} {v : Value} (hv : v.FloatFree S) :
    v.textual.FloatFree S := by
  cases hv with
  | enum member => exact .string member
  | null => exact .null
  | bool b => exact .bool b
  | int n => exact .int n
  | string s => exact .string s
  | dateTime t => exact .dateTime t
  | list h => exact .list h
  | map h => exact .map h
  | object h => exact .object h
  | group hkey h => exact .group hkey h
  | reference ref => exact .reference ref

end Value

namespace Heap

variable {S : ObjectId → Prop} {h h' : Heap} {u v w : Value}

/-- Without floats, loose equality is equality with enum members as their texts. -/
theorem looselyEqual_eq (hv : v.FloatFree S) (hw : w.FloatFree S) :
    h.looselyEqual v w = h.equal v.textual w.textual := by
  have htexts : ∀ a b : String, (some (Ord.compare a b) == some Ordering.eq) = (a == b) := by
    intro a b
    rw [Bool.eq_iff_iff, beq_iff_eq, beq_iff_eq, Option.some_inj]
    exact Std.LawfulEqCmp.compare_eq_iff_eq
  cases hv <;> cases hw <;>
    simp [looselyEqual, equal, Value.textual, Value.equalBy, Value.compare, htexts]

theorem looselyEqual_refl (hS : h.IsClosed S) (hv : v.FloatFree S) :
    h.looselyEqual v v = true :=
  (looselyEqual_eq hv hv).trans (equal_refl hS hv.textual)

theorem looselyEqual_symm (hS : h.IsClosed S) (hv : v.FloatFree S) (hw : w.FloatFree S)
    (hvw : h.looselyEqual v w = true) : h.looselyEqual w v = true := by
  rw [looselyEqual_eq hv hw] at hvw
  rw [looselyEqual_eq hw hv]
  exact equal_symm hS hv.textual hw.textual hvw

theorem looselyEqual_trans (hS : h.IsClosed S) (hu : u.FloatFree S) (hv : v.FloatFree S)
    (hw : w.FloatFree S) (huv : h.looselyEqual u v = true) (hvw : h.looselyEqual v w = true) :
    h.looselyEqual u w = true := by
  rw [looselyEqual_eq hu hv] at huv
  rw [looselyEqual_eq hv hw] at hvw
  rw [looselyEqual_eq hu hw]
  exact equal_trans hS hu.textual hv.textual hw.textual huv hvw

/-- **Loose equality is the same in heaps that have the same records for a closed set.** -/
theorem looselyEqual_congr (hS : h.IsClosed S) (hsame : ∀ x, S x → h'.record x = h.record x)
    (hv : v.FloatFree S) (hw : w.FloatFree S) : h'.looselyEqual v w = h.looselyEqual v w := by
  rw [looselyEqual_eq hv hw, looselyEqual_eq hv hw]
  exact equal_congr hS hsame hv.textual hw.textual

/-! ### Values that last -/

/-- The value holds no float, as deep as one looks, and is in the second heap what it is in the first. -/
def Keeps (h h' : Heap) (v : Value) : Prop :=
  ∃ S, h.IsClosed S ∧ v.FloatFree S ∧ ∀ x, S x → h'.record x = h.record x

variable {h'' : Heap}

theorem IsClosed.or {T : ObjectId → Prop} (hS : h.IsClosed S) (hT : h.IsClosed T) :
    h.IsClosed fun x => S x ∨ T x := by
  rintro x (hx | hx) entry hentry
  · exact (hS x hx entry hentry).mono fun _ => Or.inl
  · exact (hT x hx entry hentry).mono fun _ => Or.inr

theorem Keeps.symm (hv : h.Keeps h' v) : h'.Keeps h v := by
  obtain ⟨S, hS, hvS, hsame⟩ := hv
  exact ⟨S, fun x hx => hsame x hx ▸ hS x hx, hvS, fun x hx => (hsame x hx).symm⟩

theorem Keeps.trans (hv : h.Keeps h' v) (hv' : h'.Keeps h'' v) : h.Keeps h'' v := by
  obtain ⟨S, hS, hvS, hsame⟩ := hv
  obtain ⟨T, hT, hvT, hsame'⟩ := hv'
  refine ⟨fun x => S x ∧ T x, fun x hx entry hentry => ?_, hvS.and hvT, fun x hx => ?_⟩
  · exact (hS x hx.1 entry hentry).and (hT x hx.2 entry (hsame x hx.1 ▸ hentry))
  · exact (hsame' x hx.2).trans (hsame x hx.1)

theorem Keeps.left (hv : h.Keeps h' v) : h.Keeps h v :=
  hv.trans hv.symm

theorem Keeps.right (hv : h.Keeps h' v) : h'.Keeps h' v :=
  hv.symm.trans hv

/-- Two values that last are over one closed set. -/
theorem Keeps.common (hv : h.Keeps h' v) (hw : h.Keeps h' w) :
    ∃ S, h.IsClosed S ∧ v.FloatFree S ∧ w.FloatFree S ∧ ∀ x, S x → h'.record x = h.record x := by
  obtain ⟨S, hS, hvS, hsame⟩ := hv
  obtain ⟨T, hT, hwT, hsame'⟩ := hw
  exact ⟨fun x => S x ∨ T x, hS.or hT, hvS.mono fun _ => Or.inl, hwT.mono fun _ => Or.inr,
    fun x hx => hx.elim (hsame x) (hsame' x)⟩

/-- Whether two values that last are loosely equal does not change. -/
theorem Keeps.looselyEqual_eq (hv : h.Keeps h' v) (hw : h.Keeps h' w) :
    h'.looselyEqual v w = h.looselyEqual v w := by
  obtain ⟨S, hS, hvS, hwS, hsame⟩ := hv.common hw
  exact looselyEqual_congr hS hsame hvS hwS

theorem Keeps.looselyEqual_self (hv : h.Keeps h v) : h.looselyEqual v v = true := by
  obtain ⟨S, hS, hvS, -⟩ := hv
  exact looselyEqual_refl hS hvS

theorem Keeps.looselyEqual_symm (hv : h.Keeps h v) (hw : h.Keeps h w)
    (hvw : h.looselyEqual v w = true) : h.looselyEqual w v = true := by
  obtain ⟨S, hS, hvS, hwS, -⟩ := hv.common hw
  exact Heap.looselyEqual_symm hS hvS hwS hvw

theorem Keeps.looselyEqual_trans (hu : h.Keeps h u) (hv : h.Keeps h v) (hw : h.Keeps h w)
    (huv : h.looselyEqual u v = true) (hvw : h.looselyEqual v w = true) :
    h.looselyEqual u w = true := by
  obtain ⟨S, hS, huS, hvS, hsame⟩ := hu.common hv
  obtain ⟨T, hT, hwT, -⟩ := hw
  exact Heap.looselyEqual_trans (hS.or hT) (huS.mono fun _ => Or.inl) (hvS.mono fun _ => Or.inl)
    (hwT.mono fun _ => Or.inr) huv hvw

end Heap

end ResourceQuery
