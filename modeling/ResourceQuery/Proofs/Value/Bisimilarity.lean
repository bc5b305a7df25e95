import ResourceQuery.Proofs.Value.Equivalence

set_option autoImplicit false

/-! # Equality is bisimilarity

Two values are bisimilar if there is a way to pair objects such that the values are the same up to the pairs, and so
are the fields of each pair (`Heap.Bisimilar`). Nothing is computed there, and cycles need no mention.

Equality of values computes this (`Heap.equality_is_bisimilarity`). It takes a pair of objects for equal while that
pair is being compared, and what makes this right is that no round of looking into fields tells bisimilar objects
apart (`agree_of_isBisimulation`), and that objects which no round tells apart are bisimilar
(`isBisimulation_agree`).

The comparison comes to an end: it asks about a pair of objects only while it compares a pair that is not under way
yet, and both of these objects exist (`Heap.Asks`), so there is no endless chain of questions. The bound on its steps
is never met, and what it computes is the one solution of the equations without the bound
(`sameWhile_unique`).
-/

namespace ResourceQuery

/-! ## Bisimilar values -/

/-- The values are the same up to the objects that `R` pairs. -/
inductive Value.Relates (R : Pairing) : Value → Value → Prop
  | null : Relates R .null .null
  | bool (b : Bool) : Relates R (.bool b) (.bool b)
  | int (n : Int64) : Relates R (.int n) (.int n)
  | float {x y : Float} (h : (x == y) = true) : Relates R (.float x) (.float y)
  | string (s : String) : Relates R (.string s) (.string s)
  | dateTime {s t : Timestamp} (h : s.sameInstant t = true) : Relates R (.dateTime s) (.dateTime t)
  | enum (member : String) : Relates R (.enum member) (.enum member)
  | list {xs ys : List Value} (hlength : xs.length = ys.length)
      (h : ∀ pair ∈ xs.zip ys, Relates R pair.1 pair.2) : Relates R (.list xs) (.list ys)
  | map {xs ys : List (String × Value)} (hlength : xs.length = ys.length)
      (hkeys : ∀ pair ∈ xs.zip ys, pair.1.1 = pair.2.1)
      (h : ∀ pair ∈ xs.zip ys, Relates R pair.1.2 pair.2.2) : Relates R (.map xs) (.map ys)
  | object {x y : ObjectId} (h : R x y) : Relates R (.object x) (.object y)
  | group {k l : Value} {xs ys : List Value} (hkey : Relates R k l) (hlength : xs.length = ys.length)
      (h : ∀ pair ∈ xs.zip ys, Relates R pair.1 pair.2) : Relates R (.group k xs) (.group l ys)
  | reference {r s : LazyRef} (huri : r.uri = s.uri) (htarget : r.target = s.target) :
      Relates R (.reference r) (.reference s)

namespace Heap

/-- Objects that are paired have one type, and each of their fields is the same up to the pairs. A field that was
never set is null. -/
def IsBisimulation (h : Heap) (R : Pairing) : Prop :=
  ∀ x y, R x y → h.typeOf x = h.typeOf y ∧ ∀ name, Value.Relates R (h.field x name) (h.field y name)

/-- The values are the same up to pairs of objects that are bisimilar. -/
def Bisimilar (h : Heap) (v w : Value) : Prop :=
  ∃ R, h.IsBisimulation R ∧ Value.Relates R v w

/-- There is no float in the value, nor in what can be reached from it. -/
def HoldsNoFloat (h : Heap) (v : Value) : Prop :=
  ∃ S, h.IsClosed S ∧ v.FloatFree S

end Heap

/-! ## Equality and bisimilarity -/

namespace Value

variable {R : Pairing} {S : ObjectId → Prop} {same : ObjectId → ObjectId → Bool} {v w : Value}

/-- Values without floats that are the same up to some objects are equal where these are the same. -/
theorem equalBy_of_relates (hsame : ∀ x y, S x → S y → R x y → same x y = true) (hv : v.FloatFree S)
    (hw : w.FloatFree S) (h : Relates R v w) : equalBy same v w = true := by
  induction h with
  | null => simp [equalBy]
  | bool b => simp [equalBy]
  | int n => simp [equalBy]
  | float h => cases hv
  | string s => simp [equalBy]
  | dateTime h => simpa [equalBy] using h
  | enum member => simp [equalBy]
  | list hlength _ ih =>
      cases hv with
      | list hxs =>
          cases hw with
          | list hys =>
              rw [equalBy, equalItems_iff, List.forall₂_iff_zip]
              refine ⟨hlength, fun hpair => ?_⟩
              exact ih _ hpair (hxs _ (List.of_mem_zip hpair).1) (hys _ (List.of_mem_zip hpair).2)
  | map hlength hkeys _ ih =>
      cases hv with
      | map hxs =>
          cases hw with
          | map hys =>
              rw [equalBy, equalEntries_iff, List.forall₂_iff_zip]
              refine ⟨hlength, fun hpair => ⟨hkeys _ hpair, ?_⟩⟩
              exact ih _ hpair (hxs _ (List.of_mem_zip hpair).1) (hys _ (List.of_mem_zip hpair).2)
  | object h =>
      cases hv with
      | object hx =>
          cases hw with
          | object hy =>
              rw [equalBy]
              exact hsame _ _ hx hy h
  | group _ hlength _ ihkey ih =>
      cases hv with
      | group hk hxs =>
          cases hw with
          | group hl hys =>
              rw [equalBy, ihkey hk hl, Bool.true_and, equalItems_iff, List.forall₂_iff_zip]
              refine ⟨hlength, fun hpair => ?_⟩
              exact ih _ hpair (hxs _ (List.of_mem_zip hpair).1) (hys _ (List.of_mem_zip hpair).2)
  | reference huri htarget => simp [equalBy, huri, htarget]

/-- Values that are equal at all times are the same up to the objects that are the same at all times. -/
theorem relates_of_equalBy {same : Nat → ObjectId → ObjectId → Bool} (hv : v.FloatFree S) (hw : w.FloatFree S)
    (h : ∀ n, equalBy (same n) v w = true) :
    Relates (fun x y => S x ∧ S y ∧ ∀ n, same n x y = true) v w := by
  have hnow := h 0
  induction hv generalizing w with
  | null =>
      cases hw <;> simp [equalBy] at hnow
      exact .null
  | bool b =>
      cases hw <;> simp [equalBy] at hnow
      exact hnow ▸ .bool b
  | int n =>
      cases hw <;> simp [equalBy] at hnow
      exact hnow ▸ .int n
  | string s =>
      cases hw <;> simp [equalBy] at hnow
      exact hnow ▸ .string s
  | dateTime t =>
      cases hw <;> simp [equalBy] at hnow
      exact .dateTime hnow
  | enum member =>
      cases hw <;> simp [equalBy] at hnow
      exact hnow ▸ .enum member
  | list _ ih =>
      cases hw with
      | list hys =>
          simp only [equalBy, equalItems_iff, List.forall₂_iff_zip] at h
          refine .list (h 0).1 fun pair hpair => ?_
          have hmem := List.of_mem_zip hpair
          exact ih _ hmem.1 (hys _ hmem.2) (fun n => (h n).2 hpair) ((h 0).2 hpair)
      | _ => simp [equalBy] at hnow
  | map _ ih =>
      cases hw with
      | map hys =>
          simp only [equalBy, equalEntries_iff, List.forall₂_iff_zip] at h
          refine .map (h 0).1 (fun pair hpair => ((h 0).2 hpair).1) fun pair hpair => ?_
          have hmem := List.of_mem_zip hpair
          exact ih _ hmem.1 (hys _ hmem.2) (fun n => ((h n).2 hpair).2) ((h 0).2 hpair).2
      | _ => simp [equalBy] at hnow
  | object hx =>
      cases hw with
      | object hy =>
          simp only [equalBy] at h
          exact .object ⟨hx, hy, h⟩
      | _ => simp [equalBy] at hnow
  | group _ _ ihkey ih =>
      cases hw with
      | group hkey hys =>
          simp only [equalBy, Bool.and_eq_true, equalItems_iff, List.forall₂_iff_zip] at h
          refine .group (ihkey hkey (fun n => (h n).1) (h 0).1) (h 0).2.1 fun pair hpair => ?_
          have hmem := List.of_mem_zip hpair
          exact ih _ hmem.1 (hys _ hmem.2) (fun n => (h n).2.2 hpair) ((h 0).2.2 hpair)
      | _ => simp [equalBy] at hnow
  | reference ref =>
      cases hw <;> simp [equalBy] at hnow
      exact .reference hnow.1 hnow.2

end Value

namespace Heap

variable {R : Pairing} {S : ObjectId → Prop} {h : Heap} {x y : ObjectId} {v w : Value} {n : Nat}

/-- The fields of one name are equal in objects that are alike. -/
theorem equalBy_field {same : ObjectId → ObjectId → Bool} (halike : h.alikeBy same x y = true) (name : String) :
    Value.equalBy same ((h.record x).field name) ((h.record y).field name) = true := by
  obtain ⟨-, hleft, hright⟩ := alikeBy_iff.mp halike
  cases hx : Entries.get? name (h.record x).fields with
  | some value =>
      have hentry := hleft (name, value) (Entries.mem_of_get? hx)
      rwa [Record.field, hx]
  | none =>
      cases hy : Entries.get? name (h.record y).fields with
      | none =>
          rw [Record.field, Record.field, hx, hy]
          rfl
      | some value =>
          have hentry := hright (name, value) (Entries.mem_of_get? hy)
          rw [Record.field, hx] at hentry
          have hnull : value = .null := Value.equalBy_null_right.mp hentry
          rw [Record.field, Record.field, hx, hy, hnull]
          rfl

theorem field_of_mem (hsorted : Entries.Sorted (h.record x).fields) {entry : String × Value}
    (hentry : entry ∈ (h.record x).fields) : (h.record x).field entry.1 = entry.2 := by
  rw [Record.field, hsorted.get?_of_mem hentry, Option.getD_some]

/-- **No round of looking into fields tells bisimilar objects apart.** -/
theorem agree_of_isBisimulation (hsorted : ∀ x, Entries.Sorted (h.record x).fields) (hS : h.IsClosed S)
    (hR : h.IsBisimulation R) (hx : S x) (hy : S y) (hxy : R x y) : h.agree n x y = true := by
  induction n generalizing x y with
  | zero => rfl
  | succ n ih =>
      obtain ⟨htype, hfields⟩ := hR x y hxy
      have hequal : ∀ name,
          Value.equalBy (h.agree n) ((h.record x).field name) ((h.record y).field name) = true := fun name =>
        Value.equalBy_of_relates (fun a b ha hb hab => ih ha hb hab) (hS.field hx name) (hS.field hy name)
          (hfields name)
      refine agree_succ_iff.mpr (.inr (alikeBy_iff.mpr ⟨htype, fun entry hentry => ?_, fun entry hentry => ?_⟩))
      · exact field_of_mem (hsorted x) hentry ▸ hequal entry.1
      · have hback := Value.equalBy_symm (fun a b _ _ hab => agree_symm hab) (hS.field hx entry.1)
          (hS.field hy entry.1) (hequal entry.1)
        exact field_of_mem (hsorted y) hentry ▸ hback

/-- **Objects that no round of looking into fields tells apart are bisimilar.** -/
theorem isBisimulation_agree (hS : h.IsClosed S) :
    h.IsBisimulation fun x y => S x ∧ S y ∧ ∀ n, h.agree n x y = true := by
  rintro x y ⟨hx, hy, hagree⟩
  have hequal : (h.record x).type = (h.record y).type ∧ ∀ name n,
      Value.equalBy (h.agree n) ((h.record x).field name) ((h.record y).field name) = true := by
    by_cases hxy : x = y
    · subst hxy
      exact ⟨rfl, fun name n => Value.equalBy_refl (fun z _ => agree_refl n z) (hS.field hx name)⟩
    · have halike : ∀ n, h.alikeBy (h.agree n) x y = true := fun n =>
        (agree_succ_iff.mp (hagree (n + 1))).resolve_left hxy
      refine ⟨(alikeBy_iff.mp (halike 0)).1, fun name n => ?_⟩
      exact equalBy_field (halike n) name
  exact ⟨hequal.1, fun name => Value.relates_of_equalBy (hS.field hx name) (hS.field hy name) (hequal.2 name)⟩

/-- **Values are equal if and only if they are bisimilar.** -/
theorem equal_iff_bisimilar (hsorted : ∀ x, Entries.Sorted (h.record x).fields) (hS : h.IsClosed S)
    (hv : v.FloatFree S) (hw : w.FloatFree S) : h.equal v w = true ↔ h.Bisimilar v w := by
  rw [equal_iff hS hv hw]
  constructor
  · intro hequal
    exact ⟨_, isBisimulation_agree hS, Value.relates_of_equalBy hv hw hequal⟩
  · rintro ⟨R, hR, hvw⟩ n
    exact Value.equalBy_of_relates (fun a b ha hb hab => agree_of_isBisimulation hsorted hS hR ha hb hab) hv hw hvw

end Heap

/-! ## The comparison comes to an end -/

/-- Comparing the values asks whether the objects are the same. -/
inductive Value.Meets (x y : ObjectId) : Value → Value → Prop
  | object : Meets x y (.object x) (.object y)
  | item {xs ys : List Value} {pair : Value × Value} (hpair : pair ∈ xs.zip ys)
      (h : Meets x y pair.1 pair.2) : Meets x y (.list xs) (.list ys)
  | entry {xs ys : List (String × Value)} {pair : (String × Value) × (String × Value)} (hpair : pair ∈ xs.zip ys)
      (h : Meets x y pair.1.2 pair.2.2) : Meets x y (.map xs) (.map ys)
  | key {k l : Value} {xs ys : List Value} (h : Meets x y k l) : Meets x y (.group k xs) (.group l ys)
  | row {k l : Value} {xs ys : List Value} {pair : Value × Value} (hpair : pair ∈ xs.zip ys)
      (h : Meets x y pair.1 pair.2) : Meets x y (.group k xs) (.group l ys)

namespace Value

variable {same₁ same₂ : ObjectId → ObjectId → Bool}

mutual

/-- **A comparison depends on nothing but the answers to its questions.** -/
theorem equalBy_of_asked : (v w : Value) → (∀ x y, Meets x y v w → same₁ x y = same₂ x y) →
    equalBy same₁ v w = equalBy same₂ v w := by
  intro v w h
  cases v with
  | list xs =>
      cases w with
      | list ys =>
          rw [equalBy, equalBy]
          exact equalItems_of_asked xs ys fun pair hpair x y hmeets => h x y (.item hpair hmeets)
      | _ => simp [equalBy]
  | map xs =>
      cases w with
      | map ys =>
          rw [equalBy, equalBy]
          exact equalEntries_of_asked xs ys fun pair hpair x y hmeets => h x y (.entry hpair hmeets)
      | _ => simp [equalBy]
  | object x =>
      cases w with
      | object y =>
          rw [equalBy, equalBy]
          exact h x y .object
      | _ => simp [equalBy]
  | group k xs =>
      cases w with
      | group l ys =>
          rw [equalBy, equalBy, equalBy_of_asked k l fun x y hmeets => h x y (.key hmeets),
            equalItems_of_asked xs ys fun pair hpair x y hmeets => h x y (.row hpair hmeets)]
      | _ => simp [equalBy]
  | _ => cases w <;> simp [equalBy]

theorem equalItems_of_asked : (xs ys : List Value) →
    (∀ pair ∈ xs.zip ys, ∀ x y, Meets x y pair.1 pair.2 → same₁ x y = same₂ x y) →
    equalItems same₁ xs ys = equalItems same₂ xs ys := by
  intro xs ys h
  cases xs with
  | nil => cases ys <;> rfl
  | cons v xs =>
      cases ys with
      | nil => rfl
      | cons w ys =>
          obtain ⟨hfirst, hrest⟩ := List.forall_mem_cons.mp h
          rw [equalItems, equalItems, equalBy_of_asked v w hfirst, equalItems_of_asked xs ys hrest]

theorem equalEntries_of_asked : (xs ys : List (String × Value)) →
    (∀ pair ∈ xs.zip ys, ∀ x y, Meets x y pair.1.2 pair.2.2 → same₁ x y = same₂ x y) →
    equalEntries same₁ xs ys = equalEntries same₂ xs ys := by
  intro xs ys h
  cases xs with
  | nil => cases ys <;> rfl
  | cons v xs =>
      cases ys with
      | nil => rfl
      | cons w ys =>
          obtain ⟨hfirst, hrest⟩ := List.forall_mem_cons.mp h
          obtain ⟨k, v⟩ := v
          obtain ⟨l, w⟩ := w
          rw [equalEntries, equalEntries, equalBy_of_asked v w hfirst, equalEntries_of_asked xs ys hrest]

end

theorem not_meets_null {x y : ObjectId} {v : Value} : ¬Meets x y v .null := nofun

end Value

namespace Heap

variable {S : ObjectId → Prop} {same same₁ same₂ : ObjectId → ObjectId → Bool} {h : Heap} {x y a b : ObjectId}
  {u v w : Value} {seen : List (ObjectId × ObjectId)} {fuel more : Nat}

/-- Whether two objects are the same, asked while pairs are being compared. -/
structure Question where
  seen : List (ObjectId × ObjectId)
  left : ObjectId
  right : ObjectId

/-- The first question comes up in answering the second one: it is about objects in the fields of a pair that is not
being compared yet. -/
inductive Asks (h : Heap) : Question → Question → Prop
  | left {x y a b : ObjectId} {seen : List (ObjectId × ObjectId)} {entry : String × Value}
      (hnew : ¬(x = y ∨ (x, y) ∈ seen)) (hentry : entry ∈ (h.record x).fields)
      (hmeets : Value.Meets a b entry.2 ((h.record y).field entry.1)) :
      Asks h ⟨(x, y) :: seen, a, b⟩ ⟨seen, x, y⟩
  | right {x y a b : ObjectId} {seen : List (ObjectId × ObjectId)} {entry : String × Value}
      (hnew : ¬(x = y ∨ (x, y) ∈ seen)) (hentry : entry ∈ (h.record y).fields)
      (hmeets : Value.Meets a b entry.2 ((h.record x).field entry.1)) :
      Asks h ⟨(x, y) :: seen, a, b⟩ ⟨seen, x, y⟩

theorem alikeBy_congr (hnew : ¬(x = y ∨ (x, y) ∈ seen))
    (hsame : ∀ a b, h.Asks ⟨(x, y) :: seen, a, b⟩ ⟨seen, x, y⟩ → same₁ a b = same₂ a b) :
    h.alikeBy same₁ x y = h.alikeBy same₂ x y := by
  rw [Bool.eq_iff_iff, alikeBy_iff, alikeBy_iff]
  refine and_congr_right fun _ => and_congr ?_ ?_
  · refine forall₂_congr fun entry hentry => ?_
    rw [Value.equalBy_of_asked _ _ fun a b hmeets => hsame a b (.left hnew hentry hmeets)]
  · refine forall₂_congr fun entry hentry => ?_
    rw [Value.equalBy_of_asked _ _ fun a b hmeets => hsame a b (.right hnew hentry hmeets)]

/-! ### Pairs that are not being compared -/

theorem fields_of_not_lt (hx : ¬x.index < h.records.size) : (h.record x).fields = [] := by
  unfold record
  rw [Array.getElem?_eq_none (Nat.not_lt.mp hx)]
  rfl

theorem lt_of_mem_fields {entry : String × Value} (hentry : entry ∈ (h.record x).fields) :
    x.index < h.records.size := by
  by_contra hx
  rw [fields_of_not_lt hx] at hentry
  cases hentry

/-- A field that is met is one that was set. -/
theorem lt_of_meets {name : String} (hmeets : Value.Meets a b v ((h.record x).field name)) :
    x.index < h.records.size := by
  by_contra hx
  rw [Record.field, fields_of_not_lt hx] at hmeets
  exact Value.not_meets_null hmeets

/-- The pairs of objects that are not being compared. -/
def unseen (h : Heap) (seen : List (ObjectId × ObjectId)) : Finset (Nat × Nat) :=
  (Finset.range h.records.size ×ˢ Finset.range h.records.size) \
    (seen.map fun pair => (pair.1.index, pair.2.index)).toFinset

theorem mem_unseen : (x.index, y.index) ∈ h.unseen seen ↔
    (x.index < h.records.size ∧ y.index < h.records.size) ∧ (x, y) ∉ seen := by
  have hinj : Function.Injective fun pair : ObjectId × ObjectId => (pair.1.index, pair.2.index) := by
    rintro ⟨⟨x⟩, ⟨y⟩⟩ ⟨⟨a⟩, ⟨b⟩⟩ hsame
    cases hsame
    rfl
  rw [unseen, Finset.mem_sdiff, Finset.mem_product, Finset.mem_range, Finset.mem_range, List.mem_toFinset,
    ← List.mem_map_of_injective hinj]

theorem card_unseen_le : (h.unseen seen).card ≤ h.records.size * h.records.size := by
  refine (Finset.card_le_card Finset.sdiff_subset).trans ?_
  rw [Finset.card_product, Finset.card_range]

/-- With each question the number of pairs that are not being compared falls. -/
theorem card_unseen_lt {q r : Question} (hasks : h.Asks q r) : (h.unseen q.seen).card < (h.unseen r.seen).card := by
  have hpair : ∀ {x y : ObjectId} {seen}, ¬(x = y ∨ (x, y) ∈ seen) → x.index < h.records.size →
      y.index < h.records.size → (h.unseen ((x, y) :: seen)).card < (h.unseen seen).card := by
    intro x y seen hnew hx hy
    refine Finset.card_lt_card (Finset.ssubset_iff_of_subset ?_ |>.mpr ⟨(x.index, y.index), ?_, ?_⟩)
    · rintro ⟨a, b⟩ hpair
      obtain ⟨hthere, hnot⟩ := (mem_unseen (x := ⟨a⟩) (y := ⟨b⟩)).mp hpair
      exact (mem_unseen (x := ⟨a⟩) (y := ⟨b⟩)).mpr ⟨hthere, fun hmem => hnot (List.mem_cons_of_mem _ hmem)⟩
    · exact mem_unseen.mpr ⟨⟨hx, hy⟩, fun hmem => hnew (.inr hmem)⟩
    · exact fun hmem => (mem_unseen.mp hmem).2 List.mem_cons_self
  cases hasks with
  | left hnew hentry hmeets => exact hpair hnew (lt_of_mem_fields hentry) (lt_of_meets hmeets)
  | right hnew hentry hmeets => exact hpair hnew (lt_of_meets hmeets) (lt_of_mem_fields hentry)

/-- **There is no endless chain of questions.** -/
theorem wellFounded_asks (h : Heap) : WellFounded h.Asks :=
  Subrelation.wf (fun hasks => card_unseen_lt hasks) (measure fun q : Question => (h.unseen q.seen).card).wf

/-! ### The comparison without a bound -/

/-- The equations of a comparison without a bound on its steps. -/
structure Compares (h : Heap) (same : List (ObjectId × ObjectId) → ObjectId → ObjectId → Bool) : Prop where
  settled {seen : List (ObjectId × ObjectId)} {x y : ObjectId} (hold : x = y ∨ (x, y) ∈ seen) : same seen x y = true
  asked {seen : List (ObjectId × ObjectId)} {x y : ObjectId} (hnew : ¬(x = y ∨ (x, y) ∈ seen)) :
    same seen x y = h.alikeBy (same ((x, y) :: seen)) x y

/-- What is answered while pairs are being compared. -/
def sameWhile (h : Heap) (seen : List (ObjectId × ObjectId)) : ObjectId → ObjectId → Bool :=
  h.sameObjects (h.records.size * h.records.size + 1) seen

/-- More steps than there are pairs that are not being compared make no difference. -/
theorem sameObjects_eq_of_lt (hfuel : (h.unseen seen).card < fuel) (hmore : (h.unseen seen).card < more) :
    h.sameObjects fuel seen x y = h.sameObjects more seen x y := by
  induction fuel generalizing more seen x y with
  | zero => exact absurd hfuel (Nat.not_lt_zero _)
  | succ fuel ih =>
      cases more with
      | zero => exact absurd hmore (Nat.not_lt_zero _)
      | succ more =>
          rw [sameObjects, sameObjects]
          split
          · rfl
          · rename_i hnew
            refine alikeBy_congr hnew fun a b hasks => ih ?_ ?_
            · exact Nat.lt_of_lt_of_le (card_unseen_lt hasks) (Nat.le_of_lt_succ hfuel)
            · exact Nat.lt_of_lt_of_le (card_unseen_lt hasks) (Nat.le_of_lt_succ hmore)

theorem compares_sameWhile (h : Heap) : h.Compares h.sameWhile where
  settled hold := by
    rw [sameWhile, sameObjects, if_pos hold]
  asked hnew := by
    rw [sameWhile, sameObjects, if_neg hnew]
    refine alikeBy_congr hnew fun a b hasks => ?_
    have hfewer := Nat.lt_of_lt_of_le (card_unseen_lt hasks) card_unseen_le
    exact sameObjects_eq_of_lt hfewer (Nat.lt_succ_of_lt hfewer)

/-- **There is one comparison without a bound.** -/
theorem sameWhile_unique {same : List (ObjectId × ObjectId) → ObjectId → ObjectId → Bool}
    (hsame : h.Compares same) : same = h.sameWhile := by
  have hall : ∀ q : Question, same q.seen q.left q.right = h.sameWhile q.seen q.left q.right := by
    intro q
    induction q using h.wellFounded_asks.induction with
    | _ q ih =>
        obtain ⟨seen, x, y⟩ := q
        by_cases hsettled : x = y ∨ (x, y) ∈ seen
        · exact (hsame.settled hsettled).trans (h.compares_sameWhile.settled hsettled).symm
        · refine (hsame.asked hsettled).trans (Eq.trans ?_ (h.compares_sameWhile.asked hsettled).symm)
          exact alikeBy_congr hsettled fun a b hasks => ih _ hasks
  funext seen x y
  exact hall ⟨seen, x, y⟩

/-! ## The main statement -/

theorem HoldsNoFloat.common (hv : h.HoldsNoFloat v) (hw : h.HoldsNoFloat w) :
    ∃ S, h.IsClosed S ∧ v.FloatFree S ∧ w.FloatFree S := by
  obtain ⟨S, hS, hvS⟩ := hv
  obtain ⟨T, hT, hwT⟩ := hw
  exact ⟨_, hS.or hT, hvS.mono fun _ => Or.inl, hwT.mono fun _ => Or.inr⟩

/-- **Equality always comes to an end, and is bisimilarity**, in a heap whose objects have their fields in order. No
chain of questions is endless; the equations of the comparison have one solution, which equality is; without floats
it holds of bisimilar values and no others; and there it is an equivalence. -/
theorem equality_is_bisimilarity (h : Heap) (hsorted : ∀ x, Entries.Sorted (h.record x).fields) :
    WellFounded h.Asks ∧
    (∃ same, h.Compares same ∧ (∀ other, h.Compares other → other = same) ∧
      ∀ v w, h.equal v w = Value.equalBy (same []) v w) ∧
    (∀ v w, h.HoldsNoFloat v → h.HoldsNoFloat w → (h.equal v w = true ↔ h.Bisimilar v w)) ∧
    Equivalence fun v w : { v // h.HoldsNoFloat v } => h.equal v w = true := by
  refine ⟨h.wellFounded_asks, ⟨h.sameWhile, h.compares_sameWhile, fun _ => sameWhile_unique, fun _ _ => rfl⟩,
    fun v w hv hw => ?_, fun v => ?_, fun {v w} hvw => ?_, fun {u v w} huv hvw => ?_⟩
  · obtain ⟨S, hS, hvS, hwS⟩ := hv.common hw
    exact equal_iff_bisimilar hsorted hS hvS hwS
  · obtain ⟨S, hS, hvS⟩ := v.2
    exact equal_refl hS hvS
  · obtain ⟨S, hS, hvS, hwS⟩ := v.2.common w.2
    exact equal_symm hS hvS hwS hvw
  · obtain ⟨S, hS, huS, hvS⟩ := u.2.common v.2
    obtain ⟨T, hT, hwT⟩ := w.2
    exact equal_trans (hS.or hT) (huS.mono fun _ => Or.inl) (hvS.mono fun _ => Or.inl)
      (hwT.mono fun _ => Or.inr) huv hvw

/-! ### Rings -/

/-- A ring of two objects, and an object that is a ring of its own. -/
def rings : Heap :=
  ⟨#[⟨⟨7⟩, [("Name", .string "Ada"), ("Next", .object ⟨1⟩)]⟩,
     ⟨⟨7⟩, [("Name", .string "Ada"), ("Next", .object ⟨0⟩)]⟩,
     ⟨⟨7⟩, [("Age", .null), ("Name", .string "Ada"), ("Next", .object ⟨2⟩)]⟩], #[]⟩

theorem rings_isClosed : rings.IsClosed fun _ => True := by
  rintro ⟨index⟩ -
  rcases index with _ | _ | _ | index
  · exact List.forall_mem_cons.mpr ⟨.string _, List.forall_mem_singleton.mpr (.object trivial)⟩
  · exact List.forall_mem_cons.mpr ⟨.string _, List.forall_mem_singleton.mpr (.object trivial)⟩
  · exact List.forall_mem_cons.mpr ⟨.null, List.forall_mem_cons.mpr
      ⟨.string _, List.forall_mem_singleton.mpr (.object trivial)⟩⟩
  · exact List.forall_mem_nil _

/-- The rings are equal however long they are. -/
theorem rings_bisimilar : rings.equal (.object ⟨0⟩) (.object ⟨2⟩) = true ∧
    rings.Bisimilar (.object ⟨0⟩) (.object ⟨2⟩) := by
  have hsorted : ∀ x, Entries.Sorted (rings.record x).fields := by
    rintro ⟨index⟩
    rcases index with _ | _ | _ | index
    · decide +kernel
    · decide +kernel
    · decide +kernel
    · exact Entries.sorted_nil
  have hequal : rings.equal (.object ⟨0⟩) (.object ⟨2⟩) = true := by decide +kernel
  have hfree : ∀ x, rings.HoldsNoFloat (.object x) := fun x => ⟨_, rings_isClosed, .object trivial⟩
  exact ⟨hequal, ((equality_is_bisimilarity rings hsorted).2.2.1 _ _ (hfree _) (hfree _)).mp hequal⟩

end Heap

end ResourceQuery
