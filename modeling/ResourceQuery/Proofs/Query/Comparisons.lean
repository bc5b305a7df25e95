import Mathlib.Data.List.Perm.Basic
import ResourceQuery.Proofs.Query.Rows

set_option autoImplicit false

/-! # Computing by comparisons

A `Comparing` computation knows items by their numbers only. It is done, or it compares two items and goes
on with the answer. A sort of this kind is stable if it is so for every order there is
(`Comparing.SortsStably`), and nothing else needs to be known of it.

Where not all items can be compared, such a computation can go on as if those that cannot were equal, and
fail in the end (`settle`). Then it fails exactly if it ever compares such items (`settle_eq`), and it may
as well stop there (`attempt_eq`). Sorting rows is the insertion sort, stopped in this way
(`Rows.sortBy_eq_attempt`), and insertion is a stable sort (`sortsStably_insertion`).
-/

namespace ResourceQuery

/-- A computation that compares items. -/
inductive Comparing (ι α : Type) where
  | done (a : α)
  | compare (i j : ι) (next : Ordering → Comparing ι α)

namespace Comparing

variable {ι α β ε : Type} {i j : ι}

/-! ## Running -/

/-- What is computed when all items can be compared. -/
def result (order : ι → ι → Ordering) : Comparing ι α → α
  | done a => a
  | compare i j next => (next (order i j)).result order

/-- The items that are compared. -/
def compared (order : ι → ι → Ordering) : Comparing ι α → List (ι × ι)
  | done _ => []
  | compare i j next => (i, j) :: (next (order i j)).compared order

/-- What is computed when some items cannot be compared: these are taken to be equal, and the first such
failure is remembered. -/
def settle (order : ι → ι → Except ε Ordering) (failure : Option ε) : Comparing ι α → Except ε α
  | done a =>
    match failure with
    | some e => .error e
    | none => .ok a
  | compare i j next =>
    match order i j with
    | .ok o => (next o).settle order failure
    | .error e => (next .eq).settle order (failure.or (some e))

/-- What is computed up to the first failure. -/
def attempt (order : ι → ι → Except ε Ordering) : Comparing ι α → Except ε α
  | done a => .ok a
  | compare i j next => do
    let o ← order i j
    (next o).attempt order

/-- One computation after another. -/
def bind (f : α → Comparing ι β) : Comparing ι α → Comparing ι β
  | done a => f a
  | compare i j next => compare i j fun o => (next o).bind f

section Laws

variable {order order' : ι → ι → Ordering} (f : α → Comparing ι β) (t : Comparing ι α)

theorem result_bind : (t.bind f).result order = (f (t.result order)).result order := by
  induction t with
  | done a => rfl
  | compare i j next ih => exact ih (order i j)

theorem compared_bind :
    (t.bind f).compared order = t.compared order ++ (f (t.result order)).compared order := by
  induction t with
  | done a => rfl
  | compare i j next ih => exact congrArg ((i, j) :: ·) (ih (order i j))

theorem attempt_bind (order : ι → ι → Except ε Ordering) :
    (t.bind f).attempt order = t.attempt order >>= fun a => (f a).attempt order := by
  induction t with
  | done a => rfl
  | compare i j next ih =>
      rw [bind, attempt, attempt]
      cases order i j with
      | error e => rfl
      | ok o => exact ih o

/-- Two orders give the same where they agree on what is compared. -/
theorem result_congr {t : Comparing ι α}
    (h : ∀ pair ∈ t.compared order, order' pair.1 pair.2 = order pair.1 pair.2) :
    t.result order' = t.result order := by
  induction t with
  | done a => rfl
  | compare i j next ih =>
      obtain ⟨hfirst, hrest⟩ := List.forall_mem_cons.1 h
      rw [result, result, hfirst]
      exact ih (order i j) hrest

end Laws

/-! ## Failures -/

section Failures

variable {order : ι → ι → Except ε Ordering}

/-- The order in which items that cannot be compared are equal. -/
def orEqual (order : ι → ι → Except ε Ordering) (i j : ι) : Ordering :=
  match order i j with
  | .ok o => o
  | .error _ => .eq

/-- Why two items cannot be compared. -/
def failure? (order : ι → ι → Except ε Ordering) (pair : ι × ι) : Option ε :=
  match order pair.1 pair.2 with
  | .ok _ => none
  | .error e => some e

/-- **A failure in the end is the first one** among the items that are compared. -/
theorem settle_eq (t : Comparing ι α) (failure : Option ε) :
    t.settle order failure =
      match failure.or ((t.compared (orEqual order)).findSome? (failure? order)) with
      | some e => .error e
      | none => .ok (t.result (orEqual order)) := by
  induction t generalizing failure with
  | done a => cases failure <;> rfl
  | compare i j next ih =>
      rw [settle, compared, result, List.findSome?_cons, orEqual, failure?]
      cases order i j with
      | ok o => exact ih o failure
      | error e =>
          show (next .eq).settle order (failure.or (some e)) = _
          rw [ih .eq]
          cases failure <;> rfl

/-- It makes no difference to stop at the first failure. -/
theorem attempt_eq (t : Comparing ι α) : t.attempt order = t.settle order none := by
  induction t with
  | done a => rfl
  | compare i j next ih =>
      rw [attempt, settle]
      cases order i j with
      | ok o => exact ih o
      | error e =>
          show Except.error e = (next .eq).settle order (some e)
          rw [settle_eq]
          rfl

theorem settle_error_iff {t : Comparing ι α} : (∃ e, t.settle order none = .error e) ↔
    ∃ pair ∈ t.compared (orEqual order), ∃ e, order pair.1 pair.2 = .error e := by
  rw [settle_eq, Option.none_or]
  cases hfirst : (t.compared (orEqual order)).findSome? (failure? order) with
  | none =>
      refine iff_of_false (fun ⟨e, he⟩ => by cases he) ?_
      rintro ⟨pair, hpair, e, he⟩
      have hnone := List.findSome?_eq_none_iff.1 hfirst pair hpair
      rw [failure?, he] at hnone
      cases hnone
  | some e =>
      refine iff_of_true ⟨e, rfl⟩ ?_
      obtain ⟨pair, hpair, hsome⟩ := List.exists_of_findSome?_eq_some hfirst
      refine ⟨pair, hpair, ?_⟩
      rw [failure?] at hsome
      cases horder : order pair.1 pair.2 with
      | ok o =>
          rw [horder] at hsome
          cases hsome
      | error e' => exact ⟨e', rfl⟩

theorem settle_eq_ok {t : Comparing ι α} {a : α} (h : t.settle order none = .ok a) :
    (∀ pair ∈ t.compared (orEqual order), order pair.1 pair.2 = .ok (orEqual order pair.1 pair.2)) ∧
      a = t.result (orEqual order) := by
  constructor
  · intro pair hpair
    rw [orEqual]
    cases horder : order pair.1 pair.2 with
    | ok o => rfl
    | error e =>
        obtain ⟨e', he'⟩ := settle_error_iff.2 ⟨pair, hpair, e, horder⟩
        rw [h] at he'
        cases he'
  · rw [settle_eq] at h
    split at h
    · cases h
    · exact (Except.ok.inj h).symm

end Failures

/-! ## Stable sorts -/

/-- `i` stands before `j` when sorted: it is less, or it is equal and comes first. -/
def Leads [LT ι] (order : ι → ι → Ordering) (i j : ι) : Prop :=
  order i j = .lt ∨ order i j = .eq ∧ i < j

/-- **A stable sort by comparisons.** It compares no item with itself, and whatever the order, it gives all
items so that each leads those behind it. -/
structure SortsStably {n : Nat} (sort : Comparing (Fin n) (List (Fin n))) : Prop where
  ne_of_compared : ∀ order, ∀ pair ∈ sort.compared order, pair.1 ≠ pair.2
  perm : ∀ order, Std.TransCmp order → (sort.result order).Perm (List.finRange n)
  leads : ∀ order, Std.TransCmp order → (sort.result order).Pairwise (Leads order)

/-- Puts an item into items that are sorted backwards, behind no equal one. -/
def insert (i : ι) : List ι → Comparing ι (List ι)
  | [] => done [i]
  | j :: before => compare i j fun o =>
    if o = .lt then (insert i before).bind fun before => done (j :: before) else done (i :: j :: before)

/-- Puts items into items that are sorted backwards, one after another. -/
def insertAll (sorted : List ι) : List ι → Comparing ι (List ι)
  | [] => done sorted
  | i :: rest => (insert i sorted).bind fun sorted => insertAll sorted rest

/-- The sort that puts each item into those before it. -/
def insertion (n : Nat) : Comparing (Fin n) (List (Fin n)) :=
  (insertAll [] (List.finRange n)).bind fun sorted => done sorted.reverse

section Insertion

variable {order : ι → ι → Ordering} {sorted todo : List ι}

/-- An item passes those that it is less than, and stops at the first other one. -/
theorem result_insert (order : ι → ι → Ordering) (i : ι) (sorted : List ι) :
    ∃ greater others, sorted = greater ++ others ∧
      ((insert i sorted).result order) = greater ++ i :: others ∧
      (∀ j ∈ greater, order i j = .lt) ∧ ∀ j ∈ others.head?, order i j ≠ .lt := by
  induction sorted with
  | nil => exact ⟨[], [], rfl, rfl, List.forall_mem_nil _, fun j hj => by cases hj⟩
  | cons j before ih =>
      rw [insert, result]
      by_cases hless : order i j = .lt
      · obtain ⟨greater, others, rfl, hresult, hgreater, hothers⟩ := ih
        refine ⟨j :: greater, others, rfl, ?_, List.forall_mem_cons.2 ⟨hless, hgreater⟩, hothers⟩
        rw [if_pos hless, result_bind, hresult]
        rfl
      · refine ⟨[], j :: before, rfl, ?_, List.forall_mem_nil _, ?_⟩
        · rw [if_neg hless]
          rfl
        · rintro _ ⟨⟩
          exact hless

theorem mem_compared_insert {pair : ι × ι} (h : pair ∈ (insert i sorted).compared order) :
    pair.1 = i ∧ pair.2 ∈ sorted := by
  induction sorted with
  | nil => cases h
  | cons j before ih =>
      rw [insert, compared] at h
      rcases List.mem_cons.1 h with rfl | h
      · exact ⟨rfl, List.mem_cons_self⟩
      · split at h
        · rw [compared_bind, List.mem_append] at h
          obtain ⟨hfirst, hsecond⟩ := ih (h.resolve_right List.not_mem_nil)
          exact ⟨hfirst, List.mem_cons_of_mem j hsecond⟩
        · cases h

theorem perm_insert (order : ι → ι → Ordering) (i : ι) (sorted : List ι) :
    ((insert i sorted).result order).Perm (i :: sorted) := by
  obtain ⟨greater, others, rfl, hresult, -⟩ := result_insert order i sorted
  rw [hresult]
  exact List.perm_middle

theorem perm_insertAll (order : ι → ι → Ordering) (sorted todo : List ι) :
    ((insertAll sorted todo).result order).Perm (todo ++ sorted) := by
  induction todo generalizing sorted with
  | nil => exact List.Perm.refl sorted
  | cons i rest ih =>
      rw [insertAll, result_bind]
      refine (ih _).trans (((perm_insert order i sorted).append_left rest).trans ?_)
      exact List.perm_middle

theorem ne_of_compared_insertAll (hnodup : (todo ++ sorted).Nodup) {pair : ι × ι}
    (h : pair ∈ (insertAll sorted todo).compared order) : pair.1 ≠ pair.2 := by
  induction todo generalizing sorted with
  | nil => cases h
  | cons i rest ih =>
      rw [insertAll, compared_bind, List.mem_append] at h
      have hmiddle : (rest ++ i :: sorted).Nodup := (List.perm_middle.nodup_iff).2 hnodup
      rcases h with h | h
      · obtain ⟨hfirst, hsecond⟩ := mem_compared_insert h
        rintro heq
        rw [hfirst] at heq
        rw [← heq] at hsecond
        exact (List.nodup_cons.1 (List.nodup_append.1 hmiddle).2.1).1 hsecond
      · exact ih ((((perm_insert order i sorted).append_left rest).nodup_iff).2 hmiddle) h

variable [LT ι]

/-- An item that comes later goes to its place. -/
theorem leads_insert (ho : Std.TransCmp order) (hsorted : sorted.Pairwise (flip (Leads order)))
    (hlater : ∀ j ∈ sorted, j < i) : ((insert i sorted).result order).Pairwise (flip (Leads order)) := by
  obtain ⟨greater, others, rfl, hresult, hgreater, hothers⟩ := result_insert order i sorted
  obtain ⟨hfront, hback, hbetween⟩ := List.pairwise_append.1 hsorted
  -- the first of the others is not greater, and none behind it is greater than it
  have hle : ∀ j ∈ others, (order j i).isLE = true := by
    cases others with
    | nil => exact List.forall_mem_nil _
    | cons first behind =>
        have hfirst : (order first i).isLE = true := by
          have hnot := hothers first rfl
          have hswap : order i first = (order first i).swap := Std.OrientedCmp.eq_swap
          rw [hswap] at hnot
          cases horder : order first i with
          | lt => rfl
          | eq => rfl
          | gt => exact absurd (congrArg Ordering.swap horder) hnot
        refine List.forall_mem_cons.2 ⟨hfirst, fun j hj => ?_⟩
        have hless : (order j first).isLE = true := by
          rcases (List.pairwise_cons.1 hback).1 j hj with hlt | ⟨heq, -⟩
          · exact Ordering.isLE_of_eq_lt hlt
          · exact Ordering.isLE_of_eq_eq heq
        exact Std.TransCmp.isLE_trans hless hfirst
  rw [hresult]
  refine List.pairwise_append.2 ⟨hfront, List.pairwise_cons.2 ⟨fun j hj => ?_, hback⟩, ?_⟩
  · rcases Ordering.isLE_iff_eq_lt_or_eq_eq.1 (hle j hj) with hlt | heq
    · exact Or.inl hlt
    · exact Or.inr ⟨heq, hlater j (List.mem_append_right greater hj)⟩
  · intro j hj
    exact List.forall_mem_cons.2 ⟨Or.inl (hgreater j hj), hbetween j hj⟩

theorem leads_insertAll (ho : Std.TransCmp order) (hsorted : sorted.Pairwise (flip (Leads order)))
    (hlater : ∀ i ∈ todo, ∀ j ∈ sorted, j < i) (htodo : todo.Pairwise (· < ·)) :
    ((insertAll sorted todo).result order).Pairwise (flip (Leads order)) := by
  induction todo generalizing sorted with
  | nil => exact hsorted
  | cons i rest ih =>
      obtain ⟨hfirst, hrest⟩ := List.forall_mem_cons.1 hlater
      obtain ⟨hi, hincreasing⟩ := List.pairwise_cons.1 htodo
      rw [insertAll, result_bind]
      refine ih (leads_insert ho hsorted hfirst) (fun k hk j hj => ?_) hincreasing
      rcases List.mem_cons.1 ((perm_insert order i sorted).mem_iff.1 hj) with rfl | hj
      · exact hi k hk
      · exact hrest k hk j hj

end Insertion

/-- **Insertion is a stable sort.** -/
theorem sortsStably_insertion (n : Nat) : (insertion n).SortsStably where
  ne_of_compared := by
    intro order pair hpair
    rw [insertion, compared_bind, List.mem_append] at hpair
    refine ne_of_compared_insertAll ?_ (hpair.resolve_right List.not_mem_nil)
    rw [List.append_nil]
    exact List.nodup_finRange n
  perm := by
    intro order _
    rw [insertion, result_bind]
    refine (List.reverse_perm _).trans ((perm_insertAll order [] _).trans ?_)
    rw [List.append_nil]
  leads := by
    intro order ho
    rw [insertion, result_bind]
    exact List.pairwise_reverse.2 (leads_insertAll ho List.Pairwise.nil
      (fun _ _ => List.forall_mem_nil _) (List.pairwise_lt_finRange n))

end Comparing

/-! ## Sorting rows -/

namespace Rows

open Comparing

variable {g : TypeGraph} {h : Heap} {direction : SortDirection} {n : Nat} {key row : Fin n → Value}

/-- The order of rows by their keys. -/
def keyOrder (direction : SortDirection) (key : Fin n → Value) (i j : Fin n) : Except Error Ordering :=
  compareKeys direction (key i) (key j)

theorem putSorted_eq_attempt (i : Fin n) (sorted : List (Fin n)) :
    putSorted direction (key i) (row i) (sorted.map fun j => (key j, row j)) =
      ((Comparing.insert i sorted).attempt (keyOrder direction key)).map
        (List.map fun j => (key j, row j)) := by
  induction sorted with
  | nil => rfl
  | cons j before ih =>
      rw [List.map_cons, putSorted, Comparing.insert, attempt, keyOrder]
      cases compareKeys direction (key i) (key j) with
      | error e => rfl
      | ok o =>
          show (if o = .lt then _ else _) = Except.map _ (attempt _ (if o = .lt then _ else _))
          split
          · rw [ih, attempt_bind]
            cases (Comparing.insert i before).attempt (keyOrder direction key) with
            | error e => rfl
            | ok sorted => rfl
          · rfl

theorem sortInto_eq_attempt (sorted todo : List (Fin n)) :
    sortInto direction (sorted.map fun j => (key j, row j)) (todo.map fun j => (key j, row j)) =
      ((insertAll sorted todo).attempt (keyOrder direction key)).map
        (List.map fun j => (key j, row j)) := by
  induction todo generalizing sorted with
  | nil => rfl
  | cons i rest ih =>
      rw [List.map_cons, sortInto, putSorted_eq_attempt, insertAll, attempt_bind]
      cases (Comparing.insert i sorted).attempt (keyOrder direction key) with
      | error e => rfl
      | ok sorted => exact ih sorted

/-- **Sorting rows is the insertion sort of their numbers**, up to the first failure. -/
theorem sortBy_eq_attempt {sortKey : SortKey} {rows : List Value} {key : Fin rows.length → Value}
    (hkey : ∀ i, sortKey.key.eval g h (rows.get i) = .ok (key i)) :
    sortBy g h sortKey rows =
      ((insertion rows.length).attempt (keyOrder sortKey.direction key)).map (List.map rows.get) := by
  have hrows : (List.finRange rows.length).map rows.get = rows := List.map_get_finRange rows
  have hkeys : Value.mapAll (sortKey.key.eval g h) ((List.finRange rows.length).map rows.get) =
      .ok ((List.finRange rows.length).map key) := mapAll_map rows.get fun i _ => hkey i
  rw [hrows] at hkeys
  have hzip : ((List.finRange rows.length).map key).zip rows =
      (List.finRange rows.length).map fun j => (key j, rows.get j) := by
    rw [← List.zip_map', hrows]
  rw [sortBy, select, hkeys, insertion, attempt_bind]
  show (sortInto sortKey.direction [] (((List.finRange rows.length).map key).zip rows) >>=
    fun sorted => .ok (sorted.reverse.map fun pair => pair.2)) = _
  rw [hzip]
  show (sortInto _ (List.map (fun j => (key j, rows.get j)) []) _ >>= _) = _
  rw [sortInto_eq_attempt]
  cases (insertAll [] (List.finRange rows.length)).attempt (keyOrder sortKey.direction key) with
  | error e => rfl
  | ok sorted =>
      show Except.ok ((sorted.map fun j => (key j, rows.get j)).reverse.map fun pair => pair.2) =
        Except.ok (sorted.reverse.map rows.get)
      rw [← List.map_reverse, List.map_map]
      rfl

end Rows

end ResourceQuery
