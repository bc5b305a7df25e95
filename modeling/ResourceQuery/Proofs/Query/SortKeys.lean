import Mathlib.Data.List.Pairwise
import ResourceQuery.Proofs.Query.Comparisons

set_option autoImplicit false

/-! # Keys that have no order

Not all keys can be compared: whole numbers with each other, strings and enum members with each other, lists
not even with themselves, and null with everything. No sort misses two keys that cannot, though it does not
compare all of them.

Let a sort have met none. Then it cannot tell the keys from others that are all ordered, in several ways:
the keys that compare with those of one favored row may be put below all others (`favoring`). The answers so
far are right for each of these orders, and so is the result (`keyOrder_eq_favoring`). But of two rows whose
keys have no order, favoring the one or the other gives different results (`exists_favoring_gt`).
-/

namespace ResourceQuery

/-! ## Kinds of keys -/

namespace Value

/-- The kinds of values that are ordered among themselves. -/
inductive OrderKind where
  | bool
  | int
  | text
  | time

/-- The kind of a value that has an order. -/
def orderKind? : Value → Option OrderKind
  | .bool _ => some .bool
  | .int _ => some .int
  | .string _ | .enum _ => some .text
  | .dateTime _ => some .time
  | _ => none

/-- What the values of one kind are ordered by. -/
def rank : Value → Int × String
  | .bool b => (b.toNat, "")
  | .int n => (n.toInt, "")
  | .string s | .enum s => (0, s)
  | .dateTime t => (t.instant, "")
  | _ => (0, "")

/-- The order by number, and then by text. -/
def compareRank : Value → Value → Ordering :=
  compareLex (compareOn fun v => v.rank.1) (compareOn fun v => v.rank.2)

instance : Std.TransCmp compareRank :=
  inferInstanceAs (Std.TransCmp (compareLex _ _))

variable {v w : Value} {kind : OrderKind}

theorem compare_eq_compareRank (hv : v.orderKind? = some kind) (hw : w.orderKind? = some kind) :
    v.compare w = some (compareRank v w) := by
  have hbool : ∀ a b : Bool, Ord.compare a.toNat b.toNat = Ord.compare (a.toNat : Int) b.toNat := by
    decide
  cases v <;> cases hv <;> cases w <;> cases hw <;>
    simp [compare, compareRank, compareLex, compareOn, rank, Timestamp.compare, hbool]

/-- Only values of one kind are ordered, apart from null and floats. -/
theorem exists_orderKind {o : Ordering} (hvw : v.compare w = some o) (hv : v ≠ .null) (hw : w ≠ .null)
    (hfloatv : ∀ x, v ≠ .float x) (hfloatw : ∀ x, w ≠ .float x) :
    ∃ kind, v.orderKind? = some kind ∧ w.orderKind? = some kind := by
  cases v with
  | null => exact absurd rfl hv
  | float x => exact absurd rfl (hfloatv x)
  | _ => cases w <;> simp_all [compare, orderKind?]

theorem compare_null_left (hv : v ≠ .null) : compare .null v = some .lt := by
  cases v <;> first | rfl | exact absurd rfl hv

theorem compare_null_right (hv : v ≠ .null) : compare v .null = some .gt := by
  cases v <;> first | rfl | exact absurd rfl hv

end Value

/-- What the order of two keys is in a direction. -/
def SortDirection.orient : SortDirection → Ordering → Ordering
  | .ascending, o => o
  | .descending, o => o.swap

namespace Rows

open Comparing

variable {g : TypeGraph} {h : Heap} {direction : SortDirection} {n : Nat} {key : Fin n → Value}
  {favored i j : Fin n}

theorem compareKeys_eq_ok_iff {a b : Value} {o : Ordering} :
    compareKeys direction a b = .ok o ↔ ∃ o', a.compare b = some o' ∧ direction.orient o' = o := by
  rw [compareKeys]
  cases a.compare b with
  | none => exact iff_of_false (fun h => by cases h) fun ⟨o', ho', _⟩ => by cases ho'
  | some o' =>
      cases direction <;> simp [SortDirection.orient]

/-! ## Favoring a row -/

/-- The key of a row can be compared with that of another one, or the rows are the same. -/
def Compares (key : Fin n → Value) (i j : Fin n) : Prop :=
  i = j ∨ ∃ kind, (key i).orderKind? = some kind ∧ (key j).orderKind? = some kind

open Classical in
/-- Null comes first, and then what compares with the key of the favored row. -/
noncomputable def level (key : Fin n → Value) (favored i : Fin n) : Nat :=
  if key i = .null then 0 else if Compares key i favored then 1 else 2

/-- An order of all rows in which those that compare with the favored one come first. -/
noncomputable def favoring (key : Fin n → Value) (favored : Fin n) : Fin n → Fin n → Ordering :=
  compareLex (compareOn (level key favored)) fun i j => (key i).compareRank (key j)

instance : Std.TransCmp (favoring key favored) :=
  haveI : Std.TransCmp fun i j => (key i).compareRank (key j) :=
    inferInstanceAs (Std.TransCmp (compareLex (compareOn fun i => (key i).rank.1)
      (compareOn fun i => (key i).rank.2)))
  inferInstanceAs (Std.TransCmp (compareLex _ _))

theorem favoring_swap (key : Fin n → Value) (favored i j : Fin n) :
    favoring key favored i j = (favoring key favored j i).swap :=
  Std.OrientedCmp.eq_swap

/-- The same in a direction. -/
noncomputable def favoringIn (direction : SortDirection) (key : Fin n → Value) (favored i j : Fin n) :
    Ordering :=
  match direction with
  | .ascending => favoring key favored i j
  | .descending => favoring key favored j i

instance : Std.TransCmp (favoringIn direction key favored) :=
  match direction with
  | .ascending => inferInstanceAs (Std.TransCmp (favoring key favored))
  | .descending => @Std.TransCmp.opposite (Fin n) (favoring key favored) inferInstance

theorem level_null (hi : key i = .null) : level key favored i = 0 :=
  if_pos hi

theorem level_of_compares (hi : key i ≠ .null) (hcompares : Compares key i favored) :
    level key favored i = 1 := by
  rw [level, if_neg hi, if_pos hcompares]

theorem level_of_not_compares (hi : key i ≠ .null) (hcompares : ¬Compares key i favored) :
    level key favored i = 2 := by
  rw [level, if_neg hi, if_neg hcompares]

theorem favoring_of_level_lt (hlevel : level key favored i < level key favored j) :
    favoring key favored i j = .lt := by
  have hless : compareOn (level key favored) i j = .lt := Nat.compare_eq_lt.2 hlevel
  rw [favoring, compareLex, hless]
  rfl

theorem favoring_of_level_eq (hlevel : level key favored i = level key favored j) :
    favoring key favored i j = (key i).compareRank (key j) := by
  have hequal : compareOn (level key favored) i j = .eq := Nat.compare_eq_eq.2 hlevel
  rw [favoring, compareLex, hequal]
  rfl

/-- Keys of one kind are on one level. -/
theorem level_congr {kind : Value.OrderKind} (hi : (key i).orderKind? = some kind)
    (hj : (key j).orderKind? = some kind) : level key favored i = level key favored j := by
  have hnull : ∀ {k : Fin n}, (key k).orderKind? = some kind → key k ≠ .null := by
    intro k hk heq
    rw [heq] at hk
    cases hk
  have hother : ∀ {k l : Fin n}, (key k).orderKind? = some kind → (key l).orderKind? = some kind →
      Compares key k favored → Compares key l favored := by
    rintro k l hk hl (rfl | ⟨kind', hkind', hfavored⟩)
    · exact Or.inr ⟨kind, hl, hk⟩
    · rw [hk] at hkind'
      cases hkind'
      exact Or.inr ⟨kind, hl, hfavored⟩
  by_cases hcompares : Compares key i favored
  · rw [level_of_compares (hnull hi) hcompares, level_of_compares (hnull hj) (hother hi hj hcompares)]
  · rw [level_of_not_compares (hnull hi) hcompares,
      level_of_not_compares (hnull hj) fun hback => hcompares (hother hj hi hback)]

/-- Where keys can be compared, all these orders agree. -/
theorem compare_eq_favoring (hfloat : ∀ i x, key i ≠ .float x) (favored : Fin n) {o : Ordering}
    (ho : (key i).compare (key j) = some o) : favoring key favored i j = o := by
  by_cases hi : key i = .null
  · by_cases hj : key j = .null
    · rw [favoring_of_level_eq ((level_null hi).trans (level_null hj).symm), hi, hj]
      rw [hi, hj] at ho
      exact Option.some.inj ho
    · rw [hi, Value.compare_null_left hj] at ho
      cases ho
      refine favoring_of_level_lt ?_
      rw [level_null hi, level, if_neg hj]
      split <;> decide
  · by_cases hj : key j = .null
    · rw [hj, Value.compare_null_right hi] at ho
      cases ho
      rw [favoring_swap]
      refine congrArg Ordering.swap (favoring_of_level_lt ?_)
      rw [level_null hj, level, if_neg hi]
      split <;> decide
    · obtain ⟨kind, hkindi, hkindj⟩ := Value.exists_orderKind ho hi hj (hfloat i) (hfloat j)
      rw [Value.compare_eq_compareRank hkindi hkindj] at ho
      rw [favoring_of_level_eq (level_congr hkindi hkindj)]
      exact Option.some.inj ho

theorem keyOrder_eq_favoring (hfloat : ∀ i x, key i ≠ .float x) (favored : Fin n) {o : Ordering}
    (ho : keyOrder direction key i j = .ok o) : favoringIn direction key favored i j = o := by
  obtain ⟨o', hcompare, rfl⟩ := compareKeys_eq_ok_iff.1 ho
  have hfavoring := compare_eq_favoring hfloat favored hcompare
  cases direction with
  | ascending => exact hfavoring
  | descending =>
      rw [favoringIn, favoring_swap, hfavoring]
      rfl

/-! ## Unordered keys -/

/-- Two rows whose keys have no order. -/
def Unordered (key : Fin n → Value) (i j : Fin n) : Prop :=
  i ≠ j ∧ key i ≠ .null ∧ key j ≠ .null ∧ (key i).compare (key j) = none

theorem Unordered.not_compares (hij : Unordered key i j) : ¬Compares key i j := by
  obtain ⟨hne, -, -, hnone⟩ := hij
  rintro (heq | ⟨kind, hi, hj⟩)
  · exact hne heq
  · rw [Value.compare_eq_compareRank hi hj] at hnone
    cases hnone

theorem Unordered.symm (hfloat : ∀ i x, key i ≠ .float x) (hij : Unordered key i j) :
    Unordered key j i := by
  have hnot := hij.not_compares
  obtain ⟨hne, hi, hj, -⟩ := hij
  refine ⟨hne.symm, hj, hi, ?_⟩
  cases hji : (key j).compare (key i) with
  | none => rfl
  | some o =>
      obtain ⟨kind, hkindj, hkindi⟩ := Value.exists_orderKind hji hj hi (hfloat j) (hfloat i)
      exact absurd (Or.inr ⟨kind, hkindi, hkindj⟩) hnot

theorem favoring_of_unordered (hij : Unordered key i j) : favoring key i i j = .lt := by
  have hji : ¬Compares key j i := by
    rintro (heq | ⟨kind, hj, hi⟩)
    · exact hij.1 heq.symm
    · exact hij.not_compares (Or.inr ⟨kind, hi, hj⟩)
  refine favoring_of_level_lt ?_
  rw [level_of_compares hij.2.1 (Or.inl rfl), level_of_not_compares hij.2.2.1 hji]
  exact Nat.one_lt_two

/-- Either of two rows whose keys have no order may come last. -/
theorem exists_favoring_gt (hfloat : ∀ i x, key i ≠ .float x) (hij : Unordered key i j)
    (direction : SortDirection) : ∃ favored, favoringIn direction key favored i j = .gt := by
  cases direction with
  | ascending =>
      refine ⟨j, ?_⟩
      rw [favoringIn, favoring_swap,
        favoring_of_unordered (hij.symm hfloat)]
      rfl
  | descending =>
      refine ⟨i, ?_⟩
      rw [favoringIn, favoring_swap, favoring_of_unordered hij]
      rfl

theorem keyOrder_error_iff (hij : i ≠ j) :
    (∃ e, keyOrder direction key i j = .error e) ↔ Unordered key i j := by
  rw [keyOrder, compareKeys]
  cases hcompare : (key i).compare (key j) with
  | none =>
      refine iff_of_true ⟨_, rfl⟩ ⟨hij, fun hi => ?_, fun hj => ?_, hcompare⟩
      · rw [hi] at hcompare
        cases hj : key j <;> simp [hj, Value.compare] at hcompare
      · rw [hj] at hcompare
        cases hi : key i <;> simp [hi, Value.compare] at hcompare
  | some o =>
      refine iff_of_false ?_ fun hunordered => ?_
      · rintro ⟨e, he⟩
        cases direction <;> cases he
      · rw [hunordered.2.2.2] at hcompare
        cases hcompare

/-- A row stands before another one, whichever row is favored. -/
def AlwaysLeads (direction : SortDirection) (key : Fin n → Value) (i j : Fin n) : Prop :=
  ∀ favored, Leads (favoringIn direction key favored) i j

theorem AlwaysLeads.not_unordered (hij : AlwaysLeads direction key i j)
    (hfloat : ∀ i x, key i ≠ .float x) : ¬Unordered key i j := by
  intro hunordered
  obtain ⟨favored, hgt⟩ := exists_favoring_gt hfloat hunordered direction
  rcases hij favored with hlt | ⟨heq, -⟩
  · rw [hgt] at hlt
    cases hlt
  · rw [hgt] at heq
    cases heq

/-- Of different rows with ordered keys, the first is not behind the second, and equal ones stand as they
come. -/
theorem AlwaysLeads.exists_compare (hij : AlwaysLeads direction key i j) (hfloat : ∀ i x, key i ≠ .float x)
    (hne : i ≠ j) : ∃ o, (key i).compare (key j) = some o ∧ direction.orient o ≠ .gt ∧ (o = .eq → i < j) := by
  cases horder : keyOrder direction key i j with
  | error e => exact absurd ((keyOrder_error_iff hne).1 ⟨e, horder⟩) (hij.not_unordered hfloat)
  | ok o' =>
      have hleads := hij i
      rw [Leads, keyOrder_eq_favoring hfloat i horder] at hleads
      obtain ⟨o, hcompare, rfl⟩ := compareKeys_eq_ok_iff.1 horder
      refine ⟨o, hcompare, ?_, ?_⟩
      · rcases hleads with hlt | ⟨heq, -⟩
        · rw [hlt]
          exact fun h => by cases h
        · rw [heq]
          exact fun h => by cases h
      · rintro rfl
        rcases hleads with hlt | ⟨-, hfirst⟩
        · cases direction <;> cases hlt
        · exact hfirst

/-! ## What sorting makes of rows -/

section Settled

variable {sort : Comparing (Fin n) (List (Fin n))} {order : List (Fin n)}

/-- A sort that met no unordered keys has sorted by each of the orders. -/
theorem eq_result_favoring (hfloat : ∀ i x, key i ≠ .float x)
    (h : sort.settle (keyOrder direction key) none = .ok order) (favored : Fin n) :
    order = sort.result (favoringIn direction key favored) := by
  obtain ⟨hcompared, rfl⟩ := settle_eq_ok h
  exact (result_congr fun pair hpair => keyOrder_eq_favoring hfloat favored (hcompared pair hpair)).symm

theorem alwaysLeads_of_settle (hsort : sort.SortsStably) (hfloat : ∀ i x, key i ≠ .float x)
    (h : sort.settle (keyOrder direction key) none = .ok order) :
    order.Pairwise (AlwaysLeads direction key) := by
  refine List.pairwise_iff_forall_sublist.2 fun hsub favored => ?_
  have hleads := hsort.leads (favoringIn direction key favored) inferInstance
  rw [← eq_result_favoring hfloat h favored] at hleads
  exact List.pairwise_iff_forall_sublist.1 hleads hsub

theorem perm_of_settle (hsort : sort.SortsStably) (hfloat : ∀ i x, key i ≠ .float x)
    (h : sort.settle (keyOrder direction key) none = .ok order) : order.Perm (List.finRange n) := by
  cases n with
  | zero => rw [Subsingleton.elim order (List.finRange 0)]
  | succ n =>
      rw [eq_result_favoring hfloat h 0]
      exact hsort.perm _ inferInstance

/-- **A stable sort misses no unordered keys.** -/
theorem not_unordered_of_settle (hsort : sort.SortsStably) (hfloat : ∀ i x, key i ≠ .float x)
    (h : sort.settle (keyOrder direction key) none = .ok order) (i j : Fin n) : ¬Unordered key i j := by
  intro hij
  have hmem : ∀ k, k ∈ order := fun k => (perm_of_settle hsort hfloat h).mem_iff.2 (List.mem_finRange k)
  -- one of the two is ahead of the other
  have hboth : order.Pairwise fun k l => AlwaysLeads direction key k l ∨ AlwaysLeads direction key l k :=
    (alwaysLeads_of_settle hsort hfloat h).imp Or.inl
  have hsymm : Std.Symm fun k l => AlwaysLeads direction key k l ∨ AlwaysLeads direction key l k :=
    ⟨fun _ _ => Or.symm⟩
  rcases hboth.forall (hmem i) (hmem j) hij.1 with hleads | hleads
  · exact hleads.not_unordered hfloat hij
  · exact hleads.not_unordered hfloat (hij.symm hfloat)

end Settled

/-- What is answered when rows are sorted by keys: an error if there are unordered keys, and otherwise the
rows so that no key comes before one that it is behind, and rows with equal keys as they come. -/
structure SortsByKeys (direction : SortDirection) {rows : List Value} (key : Fin rows.length → Value)
    (answer : Except Error (List Value)) : Prop where
  fails_iff : (∃ e, answer = .error e) ↔ ∃ i j, Unordered key i j
  arranges : ∀ sorted, answer = .ok sorted → ∃ order : List (Fin rows.length),
    order.Perm (List.finRange rows.length) ∧ sorted = order.map rows.get ∧
      order.Pairwise fun i j => ∃ o, (key i).compare (key j) = some o ∧ direction.orient o ≠ .gt ∧
        (o = .eq → i < j)

theorem sortsByKeys_settle {rows : List Value} {key : Fin rows.length → Value}
    {sort : Comparing (Fin rows.length) (List (Fin rows.length))} (hsort : sort.SortsStably)
    (hfloat : ∀ i x, key i ≠ .float x) (direction : SortDirection) :
    SortsByKeys direction key ((sort.settle (keyOrder direction key) none).map (List.map rows.get)) where
  fails_iff := by
    constructor
    · rintro ⟨e, he⟩
      have hfails : ∃ e, sort.settle (keyOrder direction key) none = .error e := by
        cases hsettle : sort.settle (keyOrder direction key) none with
        | error e => exact ⟨e, rfl⟩
        | ok order =>
            rw [hsettle] at he
            cases he
      obtain ⟨pair, hpair, hunordered⟩ := settle_error_iff.1 hfails
      exact ⟨pair.1, pair.2, (keyOrder_error_iff (hsort.ne_of_compared _ pair hpair)).1 hunordered⟩
    · rintro ⟨i, j, hij⟩
      cases hsettle : sort.settle (keyOrder direction key) none with
      | error e => exact ⟨e, rfl⟩
      | ok order => exact absurd hij (not_unordered_of_settle hsort hfloat hsettle i j)
  arranges := by
    intro sorted hsorted
    cases hsettle : sort.settle (keyOrder direction key) none with
    | error e =>
        rw [hsettle] at hsorted
        cases hsorted
    | ok order =>
        rw [hsettle] at hsorted
        have hperm := perm_of_settle hsort hfloat hsettle
        have hnodup : order.Nodup := hperm.nodup_iff.2 (List.nodup_finRange rows.length)
        refine ⟨order, hperm, (Except.ok.inj hsorted).symm, ?_⟩
        refine ((alwaysLeads_of_settle hsort hfloat hsettle).and hnodup).imp ?_
        rintro i j ⟨hij, hne⟩
        exact hij.exists_compare hfloat hne

/-- **Sorting is stable, with null first, and fails exactly if there are unordered keys.** Let the key of
each row be computed without failure, and be no float. Rows at different places whose keys are not null and
have no order are an error. Without such rows the answer is a permutation of the rows, with keys that do not
decrease, or do not increase in a descending sort, and rows with equal keys stand in both directions as they
come. Any stable sort by comparisons answers such rows or an error in the same cases, where unordered keys
are taken to be equal and the first of them fail the sort in the end. -/
theorem sortsByKeys_sortBy {sortKey : SortKey} {rows : List Value} {key : Fin rows.length → Value}
    (hkey : ∀ i, sortKey.key.eval g h (rows.get i) = .ok (key i)) (hfloat : ∀ i x, key i ≠ .float x) :
    SortsByKeys sortKey.direction key (sortBy g h sortKey rows) ∧
      ∀ sort : Comparing (Fin rows.length) (List (Fin rows.length)), sort.SortsStably →
        SortsByKeys sortKey.direction key
          ((sort.settle (keyOrder sortKey.direction key) none).map (List.map rows.get)) := by
  constructor
  · rw [sortBy_eq_attempt hkey, attempt_eq]
    exact sortsByKeys_settle (sortsStably_insertion rows.length) hfloat sortKey.direction
  · intro sort hsort
    exact sortsByKeys_settle hsort hfloat sortKey.direction

/-- Four animals; one has no name, and one has a member of an enum for a name. -/
def animals : List Value :=
  [.string "Bob", .null, .enum "Ada", .string "Bob"].map fun name => .map [("Name", name)]

def nameOf (i : Fin animals.length) : Value :=
  [.string "Bob", .null, .enum "Ada", .string "Bob"].get i

theorem sortsByKeys_animals :
    SortsByKeys .descending nameOf
      (sortBy ⟨.empty, .empty⟩ .empty ⟨⟨"a", .member (.param "a") "Name"⟩, .descending⟩ animals) := by
  have hkey : ∀ i : Fin animals.length, Lambda.eval ⟨.empty, .empty⟩ .empty
      ⟨"a", .member (.param "a") "Name"⟩ (animals.get i) = .ok (nameOf i)
    | ⟨0, _⟩ | ⟨1, _⟩ | ⟨2, _⟩ | ⟨3, _⟩ => rfl
  have hfloat : ∀ i x, nameOf i ≠ .float x
    | ⟨0, _⟩, _ | ⟨1, _⟩, _ | ⟨2, _⟩, _ | ⟨3, _⟩, _ => fun h => by cases h
  exact (@sortsByKeys_sortBy ⟨.empty, .empty⟩ .empty ⟨⟨"a", .member (.param "a") "Name"⟩, .descending⟩ animals nameOf
    hkey hfloat).1

end Rows

end ResourceQuery
