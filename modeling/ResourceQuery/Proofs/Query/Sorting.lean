import Mathlib.Data.List.Perm.Basic
import ResourceQuery.Proofs.Query.Rows

set_option autoImplicit false

/-! # Stable sorting

What it means that rows are sorted by a key and otherwise left as they are, without an algorithm. An
`Arrangement` numbers the rows and puts the numbers in another order, in which each number precedes
those behind it; `IsStableSort` is the relation between rows that it induces.

Nothing is asked of the order of keys, neither that it is transitive nor that swapping the keys swaps
it: between whole numbers and floats it is not. Where a list has a stable sort, `sortBy` finds it
(`IsStableSort.sortBy_eq`), so that there is at most one; where keys are ordered as they should be, there
is one (`exists_isStableSort`).
-/

namespace ResourceQuery

namespace Rows

variable {g : TypeGraph} {h : Heap}

/-! ## Arrangements -/

/-- Whether the number `i` may stand before `j`: if the row `i` came first, the key of `j` is not less,
and if it came later, its own key is less. -/
def Precedes (direction : SortDirection) (key : Nat → Value) (i j : Nat) : Prop :=
  (i < j ∧ ∃ order, compareKeys direction (key j) (key i) = .ok order ∧ order ≠ .lt) ∨
    (j < i ∧ compareKeys direction (key i) (key j) = .ok .lt)

/-- Rows with increasing numbers and keys, and the numbers in an order in which each precedes those
behind it. -/
structure Arrangement (g : TypeGraph) (h : Heap) (sortKey : SortKey) where
  row : Nat → Value
  key : Nat → Value
  /-- The numbers of the rows as they come. -/
  before : List Nat
  /-- The numbers of the rows after sorting. -/
  after : List Nat
  keys : ∀ i ∈ before, sortKey.key.eval g h (row i) = .ok (key i)
  increasing : before.Pairwise (· < ·)
  perm : after.Perm before
  sorted : after.Pairwise (Precedes sortKey.direction key)

/-- **`sorted` are `rows` sorted by a key**, rows with equal keys in the order in which they come. -/
def IsStableSort (g : TypeGraph) (h : Heap) (sortKey : SortKey) (rows sorted : List Value) : Prop :=
  ∃ a : Arrangement g h sortKey, a.before.map a.row = rows ∧ a.after.map a.row = sorted

namespace Arrangement

variable {sortKey : SortKey}

theorem nodup (a : Arrangement g h sortKey) : a.after.Nodup :=
  a.perm.nodup_iff.2 (a.increasing.imp fun hlt => Nat.ne_of_lt hlt)

/-- The arrangement of some of the rows. -/
def restrict (a : Arrangement g h sortKey) (keep : Nat → Bool) : Arrangement g h sortKey where
  row := a.row
  key := a.key
  before := a.before.filter keep
  after := a.after.filter keep
  keys := fun i hi => a.keys i (List.mem_filter.1 hi).1
  increasing := a.increasing.filter keep
  perm := a.perm.filter keep
  sorted := a.sorted.filter keep

end Arrangement

/-- Different numbers can be given to any rows. -/
theorem exists_numbering {numbers : List Nat} {rows : List Value} (hn : numbers.Nodup)
    (hlength : numbers.length = rows.length) : ∃ row : Nat → Value, numbers.map row = rows := by
  induction numbers generalizing rows with
  | nil =>
      obtain rfl := List.length_eq_zero_iff.1 hlength.symm
      exact ⟨fun _ => .null, rfl⟩
  | cons i rest ih =>
      cases rows with
      | nil => cases hlength
      | cons first others =>
          obtain ⟨hnew, hrest⟩ := List.nodup_cons.1 hn
          obtain ⟨row, hrow⟩ := ih hrest (Nat.succ.inj hlength)
          refine ⟨fun j => if j = i then first else row j, ?_⟩
          rw [List.map_cons, if_pos rfl, ← hrow]
          congr 1
          apply List.map_congr_left
          intro j hj
          have hne : j ≠ i := fun heq => hnew (heq ▸ hj)
          exact if_neg hne

namespace IsStableSort

variable {sortKey : SortKey} {rows sorted : List Value}

theorem perm (hs : IsStableSort g h sortKey rows sorted) : sorted.Perm rows := by
  obtain ⟨a, rfl, rfl⟩ := hs
  exact a.perm.map a.row

/-- What is kept of sorted rows is what is kept of the rows, sorted. -/
theorem filter (hs : IsStableSort g h sortKey rows sorted) (keep : Value → Bool) :
    IsStableSort g h sortKey (rows.filter keep) (sorted.filter keep) := by
  obtain ⟨a, rfl, rfl⟩ := hs
  refine ⟨a.restrict (keep ∘ a.row), ?_, ?_⟩
  · exact List.filter_map.symm
  · exact List.filter_map.symm

/-- Rows that are sorted after a selection are a selection from rows sorted by the same key. -/
theorem of_map {value : Value → Value} (hs : IsStableSort g h sortKey (rows.map value) sorted)
    (sortKey' : SortKey) (hdirection : sortKey'.direction = sortKey.direction)
    (hkey : ∀ row ∈ rows, Refines (sortKey.key.eval g h (value row)) (sortKey'.key.eval g h row)) :
    ∃ sorted', IsStableSort g h sortKey' rows sorted' ∧ sorted = sorted'.map value := by
  obtain ⟨a, hbefore, rfl⟩ := hs
  have hlength : a.before.length = rows.length := by
    have hmapped := congrArg List.length hbefore
    rwa [List.length_map, List.length_map] at hmapped
  -- the numbers of the selected rows are given to the rows that they were selected from
  obtain ⟨row, hrow⟩ := exists_numbering (a.perm.nodup_iff.1 a.nodup) hlength
  have hvalue : ∀ i ∈ a.before, value (row i) = a.row i := by
    rw [← hrow, List.map_map] at hbefore
    exact fun i hi => (List.map_inj_left.1 hbefore i hi).symm
  have hmem : ∀ i ∈ a.before, row i ∈ rows := by
    intro i hi
    rw [← hrow]
    exact List.mem_map_of_mem hi
  let unselected : Arrangement g h sortKey' :=
    { row, key := a.key, before := a.before, after := a.after, increasing := a.increasing,
      perm := a.perm
      keys := by
        intro i hi
        refine hkey (row i) (hmem i hi) ?_
        rw [hvalue i hi]
        exact a.keys i hi
      sorted := by
        rw [hdirection]
        exact a.sorted }
  refine ⟨a.after.map row, ⟨unselected, hrow, rfl⟩, ?_⟩
  rw [List.map_map]
  apply List.map_congr_left
  intro i hi
  exact (hvalue i (a.perm.mem_iff.1 hi)).symm

end IsStableSort

/-! ## The algorithm -/

/-- A row passes the rows with greater keys and stops at the first other one. -/
theorem putSorted_eq {direction : SortDirection} {key row : Value} {greater others : List (Value × Value)}
    (hgreater : ∀ pair ∈ greater, compareKeys direction key pair.1 = .ok .lt)
    (hothers : ∀ pair ∈ others, ∃ order, compareKeys direction key pair.1 = .ok order ∧ order ≠ .lt) :
    putSorted direction key row (greater ++ others) = .ok (greater ++ (key, row) :: others) := by
  induction greater with
  | nil =>
      cases others with
      | nil => rfl
      | cons last before =>
          obtain ⟨k, last⟩ := last
          obtain ⟨order, horder, hne⟩ := hothers (k, last) List.mem_cons_self
          rw [List.nil_append, putSorted, horder]
          exact if_neg hne
  | cons pair rest ih =>
      obtain ⟨k, last⟩ := pair
      obtain ⟨hfirst, hrest⟩ := List.forall_mem_cons.1 hgreater
      rw [List.cons_append, putSorted, hfirst, ih hrest]
      rfl

namespace Arrangement

variable {sortKey : SortKey}

/-- The rows with the numbers `done`, sorted backwards. -/
def backwards (a : Arrangement g h sortKey) (done : List Nat) : List (Value × Value) :=
  (a.after.filter (· ∈ done)).reverse.map fun i => (a.key i, a.row i)

theorem backwards_all (a : Arrangement g h sortKey) :
    a.backwards a.before = a.after.reverse.map fun i => (a.key i, a.row i) := by
  have hall : a.after.filter (· ∈ a.before) = a.after := by
    rw [List.filter_eq_self]
    exact fun i hi => decide_eq_true (a.perm.mem_iff.1 hi)
  rw [backwards, hall]

/-- The next row goes to its place among those that are sorted. -/
theorem putSorted_backwards (a : Arrangement g h sortKey) {done rest : List Nat} {i : Nat}
    (hbefore : a.before = done ++ i :: rest) :
    putSorted sortKey.direction (a.key i) (a.row i) (a.backwards done) =
      .ok (a.backwards (done ++ [i])) := by
  have hi : i ∈ a.after := by
    rw [a.perm.mem_iff, hbefore]
    exact List.mem_append_right done List.mem_cons_self
  obtain ⟨front, back, hsplit⟩ := List.append_of_mem hi
  have hsorted := a.sorted
  have hnodup := a.nodup
  rw [hsplit] at hsorted hnodup
  obtain ⟨-, hback, hfront⟩ := List.pairwise_append.1 hsorted
  obtain ⟨-, hnewBack, hnewFront⟩ := List.pairwise_append.1 hnodup
  -- the rows that are sorted already came first
  have hdone : ∀ j ∈ done, j < i := by
    have hincreasing := a.increasing
    rw [hbefore, List.pairwise_append] at hincreasing
    exact fun j hj => hincreasing.2.2 j hj i List.mem_cons_self
  have hnot : i ∉ done := fun hmem => Nat.lt_irrefl i (hdone i hmem)
  have hold : a.after.filter (· ∈ done) = front.filter (· ∈ done) ++ back.filter (· ∈ done) := by
    rw [hsplit, List.filter_append, List.filter_cons_of_neg (by simpa using hnot)]
  have hsame : ∀ part : List Nat, (∀ j ∈ part, j ≠ i) →
      part.filter (· ∈ done ++ [i]) = part.filter (· ∈ done) := by
    intro part hpart
    apply List.filter_congr
    intro j hj
    simp [hpart j hj]
  have hnew : a.after.filter (· ∈ done ++ [i]) =
      front.filter (· ∈ done) ++ i :: back.filter (· ∈ done) := by
    rw [hsplit, List.filter_append, List.filter_cons_of_pos (by simp),
      hsame front fun j hj => hnewFront j hj i List.mem_cons_self,
      hsame back fun j hj => ((List.pairwise_cons.1 hnewBack).1 j hj).symm]
  -- the row passes those behind it, and stops at those in front of it
  have hgreater : ∀ pair ∈ (back.filter (· ∈ done)).reverse.map fun j => (a.key j, a.row j),
      compareKeys sortKey.direction (a.key i) pair.1 = .ok .lt := by
    intro pair hpair
    obtain ⟨j, hj, rfl⟩ := List.mem_map.1 hpair
    obtain ⟨hjback, hjdone⟩ := List.mem_filter.1 (List.mem_reverse.1 hj)
    rcases (List.pairwise_cons.1 hback).1 j hjback with ⟨hlt, -⟩ | ⟨-, hless⟩
    · have hgt := hdone j (by simpa using hjdone)
      omega
    · exact hless
  have hothers : ∀ pair ∈ (front.filter (· ∈ done)).reverse.map fun j => (a.key j, a.row j),
      ∃ order, compareKeys sortKey.direction (a.key i) pair.1 = .ok order ∧ order ≠ .lt := by
    intro pair hpair
    obtain ⟨j, hj, rfl⟩ := List.mem_map.1 hpair
    obtain ⟨hjfront, hjdone⟩ := List.mem_filter.1 (List.mem_reverse.1 hj)
    rcases hfront j hjfront i List.mem_cons_self with ⟨-, hnotLess⟩ | ⟨hgt, -⟩
    · exact hnotLess
    · have hlt := hdone j (by simpa using hjdone)
      omega
  rw [backwards, backwards, hold, hnew, List.reverse_append, List.map_append,
    putSorted_eq hgreater hothers, List.reverse_append, List.reverse_cons, List.append_assoc,
    List.map_append]
  rfl

/-- Sorting the rows behind those in `done`. -/
theorem sortInto_backwards (a : Arrangement g h sortKey) (todo : List Nat) :
    ∀ done, a.before = done ++ todo →
      sortInto sortKey.direction (a.backwards done) (todo.map fun i => (a.key i, a.row i)) =
        .ok (a.backwards a.before) := by
  induction todo with
  | nil =>
      intro done hdone
      rw [hdone, List.append_nil]
      rfl
  | cons i rest ih =>
      intro done hdone
      rw [List.map_cons, sortInto, a.putSorted_backwards hdone]
      exact ih (done ++ [i]) (by rw [hdone, List.append_assoc, List.singleton_append])

end Arrangement

/-- **Where rows have a stable sort, sorting finds it.** -/
theorem IsStableSort.sortBy_eq {sortKey : SortKey} {rows sorted : List Value}
    (hs : IsStableSort g h sortKey rows sorted) : sortBy g h sortKey rows = .ok sorted := by
  obtain ⟨a, rfl, rfl⟩ := hs
  have hkeys : select g h sortKey.key (a.before.map a.row) = .ok (a.before.map a.key) :=
    mapAll_map a.row a.keys
  -- sorting starts with nothing sorted
  have hnone : a.backwards [] = [] := by
    simp [Arrangement.backwards]
  have hsort := a.sortInto_backwards a.before [] rfl
  rw [hnone, a.backwards_all] at hsort
  rw [sortBy, hkeys]
  show (sortInto sortKey.direction [] ((a.before.map a.key).zip (a.before.map a.row)) >>=
    fun sorted => .ok (sorted.reverse.map fun pair => pair.2)) = _
  rw [List.zip_map', hsort]
  show Except.ok ((a.after.reverse.map fun i => (a.key i, a.row i)).reverse.map fun pair => pair.2) = _
  rw [← List.map_reverse, List.reverse_reverse, List.map_map]
  rfl

/-! ## Existence -/

/-- The order of some keys is one: swapping two keys swaps it, and of a key and a greater one, any third
is greater than the one or less than the other. -/
structure WeaklyOrdered (direction : SortDirection) (keys : List Value) : Prop where
  swap : ∀ a ∈ keys, ∀ b ∈ keys, ∃ order, compareKeys direction a b = .ok order ∧
    compareKeys direction b a = .ok order.swap
  between : ∀ a ∈ keys, ∀ b ∈ keys, ∀ c ∈ keys, compareKeys direction a b = .ok .lt →
    compareKeys direction a c = .ok .lt ∨ compareKeys direction c b = .ok .lt

theorem WeaklyOrdered.asymm {direction : SortDirection} {keys : List Value}
    (ho : WeaklyOrdered direction keys) {a b : Value} (ha : a ∈ keys) (hb : b ∈ keys)
    (hlt : compareKeys direction a b = .ok .lt) : compareKeys direction b a ≠ .ok .lt := by
  obtain ⟨order, hab, hba⟩ := ho.swap a ha b hb
  rw [hlt] at hab
  cases hab
  rw [hba]
  intro heq
  cases heq

/-- Keys compare as their ranks do, and backwards for a descending sort. -/
private theorem compareKeys_of_rank {α β : Type} [Ord β] [Std.OrientedOrd β] (key : α → Value)
    (rank : α → β)
    (hcompare : ∀ a b, (key a).compare (key b) = some (compare (rank a) (rank b)))
    (direction : SortDirection) (a b : α) : compareKeys direction (key a) (key b) =
      .ok (match direction with
        | .ascending => compare (rank a) (rank b)
        | .descending => compare (rank b) (rank a)) := by
  rw [compareKeys, hcompare]
  cases direction with
  | ascending => rfl
  | descending => exact congrArg Except.ok Std.OrientedCmp.eq_swap.symm

/-- Keys that are compared by a rank are ordered: whole numbers by size, texts by their letters. -/
theorem weaklyOrdered_of_rank {α β : Type} [Ord β] [Std.TransOrd β] (key : α → Value) (rank : α → β)
    (hcompare : ∀ a b, (key a).compare (key b) = some (compare (rank a) (rank b)))
    (direction : SortDirection) (items : List α) : WeaklyOrdered direction (items.map key) := by
  have hswap : ∀ a b : β, compare a b = (compare b a).swap := fun _ _ => Std.OrientedCmp.eq_swap
  -- a key between two of different rank is on one side of them
  have hbetween : ∀ a b c : β, compare a b = .lt → compare a c = .lt ∨ compare c b = .lt := by
    intro a b c hab
    by_cases hac : compare a c = .lt
    · exact Or.inl hac
    · right
      refine Std.TransCmp.lt_of_isLE_of_lt ?_ hab
      rw [hswap]
      cases horder : compare a c with
      | lt => exact absurd horder hac
      | eq => rfl
      | gt => rfl
  have hkeys := compareKeys_of_rank key rank hcompare direction
  constructor
  · intro a ha b hb
    obtain ⟨a, -, rfl⟩ := List.mem_map.1 ha
    obtain ⟨b, -, rfl⟩ := List.mem_map.1 hb
    refine ⟨_, hkeys a b, ?_⟩
    rw [hkeys b a]
    cases direction with
    | ascending => exact congrArg Except.ok (hswap (rank b) (rank a))
    | descending => exact congrArg Except.ok (hswap (rank a) (rank b))
  · intro a ha b hb c hc hab
    obtain ⟨a, -, rfl⟩ := List.mem_map.1 ha
    obtain ⟨b, -, rfl⟩ := List.mem_map.1 hb
    obtain ⟨c, -, rfl⟩ := List.mem_map.1 hc
    rw [hkeys] at hab
    rw [hkeys, hkeys]
    cases direction with
    | ascending =>
        have hlt := hbetween (rank a) (rank b) (rank c) (Except.ok.inj hab)
        exact hlt.imp (congrArg Except.ok) (congrArg Except.ok)
    | descending =>
        have hlt := hbetween (rank b) (rank a) (rank c) (Except.ok.inj hab)
        exact (hlt.imp (congrArg Except.ok) (congrArg Except.ok)).symm

/-- Numbers can be put in order by any weak order, and by size where it does not tell them apart. -/
theorem exists_order {n : Nat} {less : Fin n → Fin n → Prop}
    (hasymm : ∀ i j, less i j → ¬ less j i) (hbetween : ∀ i j k, less i j → less i k ∨ less k j) :
    ∃ order : List (Fin n), order.Perm (List.finRange n) ∧
      order.Pairwise fun i j => less i j ∨ ¬ less j i ∧ i ≤ j := by
  classical
  -- the relation by which the numbers are sorted is transitive and total
  have htrans : ∀ i j k, decide (less i j ∨ ¬ less j i ∧ i ≤ j) = true →
      decide (less j k ∨ ¬ less k j ∧ j ≤ k) = true →
      decide (less i k ∨ ¬ less k i ∧ i ≤ k) = true := by
    intro i j k hij hjk
    rw [decide_eq_true_eq] at hij hjk ⊢
    rcases hij with hij | ⟨hji, hle⟩
    · left
      rcases hbetween i j k hij with hik | hkj
      · exact hik
      · rcases hjk with hjk | ⟨hnot, -⟩
        · exact absurd hkj (hasymm j k hjk)
        · exact absurd hkj hnot
    · rcases hjk with hjk | ⟨hkj, hle'⟩
      · left
        exact (hbetween j k i hjk).resolve_left hji
      · right
        refine ⟨fun hki => ?_, Fin.le_trans hle hle'⟩
        rcases hbetween k i j hki with hkj' | hji'
        · exact hkj hkj'
        · exact hji hji'
  have htotal : ∀ i j, (decide (less i j ∨ ¬ less j i ∧ i ≤ j) ||
      decide (less j i ∨ ¬ less i j ∧ j ≤ i)) = true := by
    intro i j
    rw [Bool.or_eq_true, decide_eq_true_eq, decide_eq_true_eq]
    by_cases hij : less i j
    · exact Or.inl (Or.inl hij)
    · by_cases hji : less j i
      · exact Or.inr (Or.inl hji)
      · rcases Fin.le_total i j with hle | hle
        · exact Or.inl (Or.inr ⟨hji, hle⟩)
        · exact Or.inr (Or.inr ⟨hij, hle⟩)
  refine ⟨(List.finRange n).mergeSort fun i j => decide (less i j ∨ ¬ less j i ∧ i ≤ j),
    List.mergeSort_perm _ _, ?_⟩
  exact (List.pairwise_mergeSort htrans htotal _).imp fun hle => of_decide_eq_true hle

/-- **Rows whose keys are ordered have a stable sort**: that by keys, and by places where no key is
less. -/
theorem exists_isStableSort {sortKey : SortKey} {rows keys : List Value}
    (hkeys : select g h sortKey.key rows = .ok keys) (ho : WeaklyOrdered sortKey.direction keys) :
    ∃ sorted, IsStableSort g h sortKey rows sorted := by
  obtain ⟨value, hvalue, rfl⟩ := select_iff.1 hkeys
  have hincreasing : ((List.finRange rows.length).map Fin.val).Pairwise (· < ·) :=
    List.pairwise_map.2 (List.pairwise_lt_finRange rows.length)
  obtain ⟨row, hrow⟩ := @exists_numbering _ rows (hincreasing.imp fun hlt => Nat.ne_of_lt hlt)
    (by rw [List.length_map, List.length_finRange])
  have hmem : ∀ i ∈ (List.finRange rows.length).map Fin.val, row i ∈ rows :=
    fun i hi => hrow ▸ List.mem_map_of_mem hi
  have hkey : ∀ i : Fin rows.length, value (row i) ∈ rows.map value :=
    fun i => List.mem_map_of_mem (hmem i (List.mem_map_of_mem (List.mem_finRange i)))
  obtain ⟨order, hperm, hsorted⟩ := @exists_order rows.length
    (fun i j => compareKeys sortKey.direction (value (row i)) (value (row j)) = .ok .lt)
    (fun i j => ho.asymm (hkey i) (hkey j))
    (fun i j k => ho.between _ (hkey i) _ (hkey j) _ (hkey k))
  have hnodup : order.Nodup :=
    hperm.nodup_iff.2 ((List.pairwise_lt_finRange rows.length).imp fun hlt => Fin.ne_of_lt hlt)
  refine ⟨(order.map Fin.val).map row, {
    row, key := value ∘ row, before := (List.finRange rows.length).map Fin.val
    after := order.map Fin.val, increasing := hincreasing, perm := hperm.map Fin.val
    keys := fun i hi => hvalue (row i) (hmem i hi)
    sorted := ?_ }, hrow, rfl⟩
  -- of two different numbers the smaller one came first
  refine List.pairwise_map.2 ((hsorted.and hnodup).imp ?_)
  rintro i j ⟨hprecedes, hne⟩
  obtain ⟨o, hij, hji⟩ := ho.swap _ (hkey i) _ (hkey j)
  rcases hprecedes with hless | ⟨hnot, hle⟩
  · by_cases hlt : i < j
    · refine Or.inl ⟨hlt, o.swap, hji, ?_⟩
      rw [hless] at hij
      cases hij
      intro heq
      cases heq
    · exact Or.inr ⟨Nat.lt_of_le_of_ne (Nat.not_lt.1 hlt) (fun heq => hne (Fin.ext heq.symm)), hless⟩
  · refine Or.inl ⟨Nat.lt_of_le_of_ne hle (fun heq => hne (Fin.ext heq)), o.swap, hji, ?_⟩
    intro heq
    rw [heq] at hji
    exact hnot hji

/-- **Sorting is stable sorting**, where keys are ordered. -/
theorem sortBy_iff {sortKey : SortKey} {rows keys sorted : List Value}
    (hkeys : select g h sortKey.key rows = .ok keys) (ho : WeaklyOrdered sortKey.direction keys) :
    sortBy g h sortKey rows = .ok sorted ↔ IsStableSort g h sortKey rows sorted := by
  constructor
  · intro hsort
    obtain ⟨sorted', hs⟩ := exists_isStableSort hkeys ho
    rw [hs.sortBy_eq] at hsort
    cases hsort
    exact hs
  · exact IsStableSort.sortBy_eq

end Rows

end ResourceQuery
