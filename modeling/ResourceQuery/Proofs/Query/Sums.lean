import ResourceQuery.Proofs.Query.Paging
import Mathlib.Algebra.Order.BigOperators.Group.List
import Mathlib.Algebra.Order.Ring.Int

set_option autoImplicit false

/-! # Sums in any order

A whole sum is kept in a word of 64 bits while it is made. Leaving the word on the way is an error, also
where later summands would lead back into it, so it can matter in which order the summands come. It matters
in this way only: the orders that have a sum have the same one, and the others fail alike
(`sum_of_staysWithin`, `sum_of_not_staysWithin`).

How far the sums on the way go, over all orders, is told by two numbers: what the positive summands add up to
(`gains`) and what the negative ones do (`losses`). If both fit into a word, every order has the sum. If one
of them does not, there is an order that fails, the one which takes these summands first. And if the sum of
all fits, then there is always an order that has it: take a negative summand when the sum so far is not
negative, and a positive one when it is (`exists_staysWithin`).
-/

namespace ResourceQuery

/-! ## Words -/

namespace Word

/-- `n` fits into 64 bits with a sign. -/
def FitsInt64 (n : Int) : Prop :=
  -int64Bound ≤ n ∧ n < int64Bound

instance : DecidablePred FitsInt64 := fun _ => inferInstanceAs (Decidable (_ ∧ _))

theorem int64?_of_fits {n : Int} (h : FitsInt64 n) : int64? n = some (Int64.ofInt n) :=
  if_pos h

theorem int64?_of_not_fits {n : Int} (h : ¬FitsInt64 n) : int64? n = none :=
  if_neg h

theorem fitsInt64_toInt (n : Int64) : FitsInt64 n.toInt := by
  have hlow := Int64.le_toInt n
  have hhigh := Int64.toInt_lt n
  unfold FitsInt64 int64Bound
  omega

theorem toInt_ofInt {n : Int} (h : FitsInt64 n) : (Int64.ofInt n).toInt = n := by
  obtain ⟨hlow, hhigh⟩ := h
  unfold int64Bound at hlow hhigh
  exact Int64.toInt_ofInt_of_le (by omega) (by omega)

/-- What lies between two numbers that fit does so too. -/
theorem FitsInt64.between {low n high : Int} (hlow : FitsInt64 low) (hhigh : FitsInt64 high)
    (hle : low ≤ n) (hge : n ≤ high) : FitsInt64 n :=
  ⟨Int.le_trans hlow.1 hle, Int.lt_of_le_of_lt hge hhigh.2⟩

end Word

open Word

namespace Value

variable {v : Value} {values order : List Value}

/-! ## Summands -/

/-- A whole number or null. -/
def IsWhole : Value → Prop
  | .int _ => True
  | .null => True
  | _ => False

/-- What a value adds to a whole sum; null adds nothing. -/
def amount : Value → Int
  | .int n => n.toInt
  | _ => 0

/-- The sum of all values, however large it is. -/
def total (values : List Value) : Int :=
  (values.map amount).sum

/-- What the positive summands add up to. -/
def gains (values : List Value) : Int :=
  total (values.filter (0 < ·.amount))

/-- What the negative summands add up to. -/
def losses (values : List Value) : Int :=
  total (values.filter (·.amount < 0))

/-- All sums on the way through the values fit into a word. -/
def StaysWithin (values : List Value) : Prop :=
  ∀ front, front <+: values → FitsInt64 (total front)

/-- The values have one sum, in whatever order they come, or none in any order. -/
def SumsAlike (values : List Value) : Prop :=
  (FitsInt64 (gains values) ∧ FitsInt64 (losses values)) ∨ ¬FitsInt64 (total values)

/-- The failure of a sum that leaves its word. -/
def sumOverflow : Error :=
  .invalidQuery (.overflow "sum")

@[simp] theorem total_nil : total [] = 0 := rfl

@[simp] theorem total_cons (v : Value) (rest : List Value) : total (v :: rest) = v.amount + total rest := by
  simp [total]

@[simp] theorem total_append (front rest : List Value) :
    total (front ++ rest) = total front + total rest := by
  simp [total]

theorem total_of_perm (h : order.Perm values) : total order = total values :=
  (h.map amount).sum_eq

theorem total_nonneg (h : ∀ v ∈ values, 0 ≤ v.amount) : 0 ≤ total values :=
  List.sum_nonneg (List.forall_mem_map.mpr h)

theorem total_nonpos (h : ∀ v ∈ values, v.amount ≤ 0) : total values ≤ 0 :=
  (List.sum_le_card_nsmul _ 0 (List.forall_mem_map.mpr h)).trans_eq (nsmul_zero _)

theorem gains_cons (v : Value) (rest : List Value) : gains (v :: rest) = max v.amount 0 + gains rest := by
  unfold gains
  rw [List.filter_cons]
  by_cases hpositive : 0 < v.amount
  · rw [if_pos (decide_eq_true hpositive), total_cons]
    omega
  · rw [if_neg (by rwa [decide_eq_true_iff])]
    omega

theorem losses_cons (v : Value) (rest : List Value) : losses (v :: rest) = min v.amount 0 + losses rest := by
  unfold losses
  rw [List.filter_cons]
  by_cases hnegative : v.amount < 0
  · rw [if_pos (decide_eq_true hnegative), total_cons]
    omega
  · rw [if_neg (by rwa [decide_eq_true_iff])]
    omega

theorem gains_of_perm (h : order.Perm values) : gains order = gains values :=
  total_of_perm (h.filter _)

theorem losses_of_perm (h : order.Perm values) : losses order = losses values :=
  total_of_perm (h.filter _)

theorem fitsInt64_amount (v : Value) : FitsInt64 v.amount := by
  cases v with
  | int n => exact fitsInt64_toInt n
  | _ => exact fitsInt64_toInt 0

/-! ## One order -/

/-- One more summand: the sum with it, if that fits. -/
theorem addTo_whole (hv : v.IsWhole) (m : Int64) :
    addTo (.whole m) v =
      if FitsInt64 (m.toInt + v.amount) then .ok (.whole (Int64.ofInt (m.toInt + v.amount)))
      else .error sumOverflow := by
  cases v with
  | null =>
      have hfits : FitsInt64 (m.toInt + 0) := by
        rw [Int.add_zero]
        exact fitsInt64_toInt m
      show Except.ok (Total.whole m) = if FitsInt64 (m.toInt + 0) then _ else _
      rw [if_pos hfits]
      show Except.ok (Total.whole m) = .ok (.whole (Int64.ofInt (m.toInt + 0)))
      rw [Int.add_zero, Int64.ofInt_toInt]
  | int n =>
      by_cases hfits : FitsInt64 (m.toInt + n.toInt)
      · rw [amount, if_pos hfits]
        simp only [addTo, int64?_of_fits hfits]
      · rw [amount, if_neg hfits]
        simp only [addTo, int64?_of_not_fits hfits, sumOverflow]
  | _ => exact hv.elim

/-- Summing up from `m` on, while all sums on the way fit. -/
theorem foldlM_addTo_of_fits (hwhole : ∀ v ∈ values, v.IsWhole) (m : Int64)
    (hfits : ∀ front, front <+: values → FitsInt64 (m.toInt + total front)) :
    values.foldlM addTo (.whole m) = .ok (.whole (Int64.ofInt (m.toInt + total values))) := by
  induction values generalizing m with
  | nil =>
      show Except.ok (Total.whole m) = _
      rw [total_nil, Int.add_zero, Int64.ofInt_toInt]
  | cons v rest ih =>
      obtain ⟨hv, hrest⟩ := List.forall_mem_cons.mp hwhole
      have hnext : FitsInt64 (m.toInt + v.amount) := by
        have hfirst := hfits [v] ⟨rest, rfl⟩
        rwa [total_cons, total_nil, Int.add_zero] at hfirst
      have hlater : ∀ front, front <+: rest →
          FitsInt64 ((Int64.ofInt (m.toInt + v.amount)).toInt + total front) := by
        intro front hfront
        have hlong := hfits (v :: front) (List.cons_prefix_cons.mpr ⟨rfl, hfront⟩)
        rwa [total_cons, ← Int.add_assoc, ← toInt_ofInt hnext] at hlong
      rw [List.foldlM_cons, addTo_whole hv, if_pos hnext]
      show rest.foldlM addTo _ = _
      rw [ih hrest _ hlater, toInt_ofInt hnext, total_cons, Int.add_assoc]

/-- The first sum on the way that does not fit ends the summing up. -/
theorem foldlM_addTo_of_not_fits (hwhole : ∀ v ∈ values, v.IsWhole) (m : Int64) {front : List Value}
    (hfront : front <+: values) (hleaves : ¬FitsInt64 (m.toInt + total front)) :
    values.foldlM addTo (.whole m) = .error sumOverflow := by
  induction values generalizing m front with
  | nil =>
      rw [List.prefix_nil.mp hfront, total_nil, Int.add_zero] at hleaves
      exact absurd (fitsInt64_toInt m) hleaves
  | cons v rest ih =>
      obtain ⟨hv, hrest⟩ := List.forall_mem_cons.mp hwhole
      rw [List.foldlM_cons, addTo_whole hv]
      by_cases hnext : FitsInt64 (m.toInt + v.amount)
      · rw [if_pos hnext]
        show rest.foldlM addTo _ = _
        cases front with
        | nil =>
            rw [total_nil, Int.add_zero] at hleaves
            exact absurd (fitsInt64_toInt m) hleaves
        | cons w more =>
            obtain ⟨rfl, hmore⟩ := List.cons_prefix_cons.mp hfront
            refine ih hrest _ hmore ?_
            rwa [toInt_ofInt hnext, Int.add_assoc, ← total_cons]
      · rw [if_neg hnext]
        rfl

theorem sum_of_staysWithin (hwhole : ∀ v ∈ values, v.IsWhole) (h : StaysWithin values) :
    sum values = .ok (.int (Int64.ofInt (total values))) := by
  have hfits : ∀ front, front <+: values → FitsInt64 ((0 : Int64).toInt + total front) := by
    intro front hfront
    rw [Int64.toInt_zero, Int.zero_add]
    exact h front hfront
  rw [sum, foldlM_addTo_of_fits hwhole 0 hfits, Int64.toInt_zero, Int.zero_add]
  rfl

theorem sum_of_not_staysWithin (hwhole : ∀ v ∈ values, v.IsWhole) (h : ¬StaysWithin values) :
    sum values = .error sumOverflow := by
  simp only [StaysWithin, not_forall] at h
  obtain ⟨front, hfront, hleaves⟩ := h
  have hstart : ¬FitsInt64 ((0 : Int64).toInt + total front) := by
    rwa [Int64.toInt_zero, Int.zero_add]
  rw [sum, foldlM_addTo_of_not_fits hwhole 0 hfront hstart]
  rfl

/-! ## All orders -/

theorem StaysWithin.fits (h : StaysWithin values) : FitsInt64 (total values) :=
  h values (List.prefix_refl values)

/-- A sum on the way is no more than the gains and no less than the losses. -/
theorem total_bounds {front : List Value} (hfront : front <+: values) :
    losses values ≤ total front ∧ total front ≤ gains values := by
  induction values generalizing front with
  | nil =>
      rw [List.prefix_nil.mp hfront]
      exact ⟨Int.le_refl 0, Int.le_refl 0⟩
  | cons v rest ih =>
      have hstart := ih (List.nil_prefix (l := rest))
      rw [gains_cons, losses_cons]
      cases front with
      | nil =>
          rw [total_nil] at hstart ⊢
          omega
      | cons w more =>
          obtain ⟨rfl, hmore⟩ := List.cons_prefix_cons.mp hfront
          have hlater := ih hmore
          rw [total_cons]
          omega

theorem staysWithin_of_fits (hgains : FitsInt64 (gains values)) (hlosses : FitsInt64 (losses values)) :
    StaysWithin values := by
  intro front hfront
  obtain ⟨hlow, hhigh⟩ := total_bounds hfront
  exact hlosses.between hgains hlow hhigh

/-- An order that fails takes all positive summands first, or all negative ones. -/
theorem exists_not_staysWithin (h : ¬(FitsInt64 (gains values) ∧ FitsInt64 (losses values))) :
    ∃ order, order.Perm values ∧ ¬StaysWithin order := by
  have hfirst : ∀ first : Value → Bool, ¬FitsInt64 (total (values.filter first)) →
      ∃ order, order.Perm values ∧ ¬StaysWithin order := by
    intro first hleaves
    refine ⟨values.filter first ++ values.filter (!first ·), List.filter_append_perm first values, ?_⟩
    intro hstays
    exact hleaves (hstays _ (List.prefix_append _ _))
  by_cases hgains : FitsInt64 (gains values)
  · exact hfirst _ fun hlosses => h ⟨hgains, hlosses⟩
  · exact hfirst _ hgains

/-- Where a sum fits and is to come to one that fits, there is a summand to go on with: if all of them led
out of the word, they would all lead out on the same side, and nothing would lead back. -/
theorem exists_next {start : Int} (hstart : FitsInt64 start) (hend : FitsInt64 (start + total values))
    (hsome : values ≠ []) : ∃ v ∈ values, FitsInt64 (start + v.amount) := by
  by_contra hnone
  simp only [not_exists, not_and] at hnone
  obtain ⟨v, rest, rfl⟩ := List.exists_cons_of_ne_nil hsome
  have hv := hnone v List.mem_cons_self
  rw [total_cons] at hend
  by_cases hsign : 0 ≤ start
  · have hpositive : ∀ w ∈ v :: rest, 0 ≤ w.amount := by
      intro w hw
      by_contra hnegative
      exact hnone w hw ((fitsInt64_amount w).between hstart (by omega) (by omega))
    have hrest : 0 ≤ total rest := total_nonneg fun w hw => hpositive w (List.mem_cons_of_mem v hw)
    have hfirst := hpositive v List.mem_cons_self
    exact hv (hstart.between hend (by omega) (by omega))
  · have hnegative : ∀ w ∈ v :: rest, w.amount ≤ 0 := by
      intro w hw
      by_contra hpositive
      exact hnone w hw (hstart.between (fitsInt64_amount w) (by omega) (by omega))
    have hrest : total rest ≤ 0 := total_nonpos fun w hw => hnegative w (List.mem_cons_of_mem v hw)
    have hfirst := hnegative v List.mem_cons_self
    exact hv (hend.between hstart (by omega) (by omega))

/-- There is an order that stays within the word from a sum that fits to another one. -/
theorem exists_order (values : List Value) {start : Int} (hstart : FitsInt64 start)
    (hend : FitsInt64 (start + total values)) :
    ∃ order, order.Perm values ∧ ∀ front, front <+: order → FitsInt64 (start + total front) := by
  induction hlength : values.length generalizing values start with
  | zero =>
      refine ⟨[], by rw [List.length_eq_zero_iff.mp hlength], fun front hfront => ?_⟩
      rwa [List.prefix_nil.mp hfront, total_nil, Int.add_zero]
  | succ n ih =>
      obtain ⟨v, hv, hnext⟩ := exists_next hstart hend (List.ne_nil_of_length_eq_add_one hlength)
      obtain ⟨before, behind, rfl⟩ := List.append_of_mem hv
      have hmiddle : (before ++ v :: behind).Perm (v :: (before ++ behind)) := List.perm_middle
      have hrest : FitsInt64 (start + v.amount + total (before ++ behind)) := by
        rwa [Int.add_assoc, ← total_cons, ← total_of_perm hmiddle]
      have hshorter : (before ++ behind).length = n := by
        have hsame := hmiddle.length_eq
        rw [hlength, List.length_cons] at hsame
        omega
      obtain ⟨order, hperm, hfits⟩ := ih (before ++ behind) hnext hrest hshorter
      refine ⟨v :: order, (hperm.cons v).trans hmiddle.symm, fun front hfront => ?_⟩
      cases front with
      | nil => rwa [total_nil, Int.add_zero]
      | cons w more =>
          obtain ⟨rfl, hmore⟩ := List.cons_prefix_cons.mp hfront
          rw [total_cons, ← Int.add_assoc]
          exact hfits more hmore

theorem exists_staysWithin (h : FitsInt64 (total values)) :
    ∃ order, order.Perm values ∧ StaysWithin order := by
  have hstart : FitsInt64 0 := fitsInt64_toInt 0
  have hend : FitsInt64 (0 + total values) := by rwa [Int.zero_add]
  obtain ⟨order, hperm, hfits⟩ := exists_order values hstart hend
  refine ⟨order, hperm, fun front hfront => ?_⟩
  have hfront' := hfits front hfront
  rwa [Int.zero_add] at hfront'

/-- What all orders answer where they answer alike. -/
theorem SumsAlike.sum_eq (h : SumsAlike values) (hwhole : ∀ v ∈ values, v.IsWhole)
    (hperm : order.Perm values) : sum order = sum values := by
  have hwhole' : ∀ v ∈ order, v.IsWhole := fun v hv => hwhole v (hperm.mem_iff.mp hv)
  obtain ⟨hgains, hlosses⟩ | hleaves := h
  · have hstays : StaysWithin order :=
      staysWithin_of_fits (by rwa [gains_of_perm hperm]) (by rwa [losses_of_perm hperm])
    rw [sum_of_staysWithin hwhole' hstays, sum_of_staysWithin hwhole (staysWithin_of_fits hgains hlosses),
      total_of_perm hperm]
  · have hfails : ¬StaysWithin order := by
      intro hstays
      apply hleaves
      rw [← total_of_perm hperm]
      exact hstays.fits
    have hfails' : ¬StaysWithin values := fun hstays => hleaves hstays.fits
    rw [sum_of_not_staysWithin hwhole' hfails, sum_of_not_staysWithin hwhole hfails']

/-- Where not all orders answer alike, one of them has the sum and another one fails. -/
theorem sumsAlike_of_sum_eq (hwhole : ∀ v ∈ values, v.IsWhole)
    (h : ∀ order, order.Perm values → sum order = sum values) : SumsAlike values := by
  by_contra hdiffer
  simp only [SumsAlike, not_or, not_not] at hdiffer
  obtain ⟨good, hgood, hstays⟩ := exists_staysWithin hdiffer.2
  obtain ⟨bad, hbad, hfails⟩ := exists_not_staysWithin hdiffer.1
  have hsum := sum_of_staysWithin (fun v hv => hwhole v (hgood.mem_iff.mp hv)) hstays
  have herror := sum_of_not_staysWithin (fun v hv => hwhole v (hbad.mem_iff.mp hv)) hfails
  rw [h good hgood, ← h bad hbad, herror] at hsum
  cases hsum

/-! ## Aggregates and queries -/

/-- The values of the elements come in the order of the elements. -/
theorem exists_mapAll_of_perm {f : Value → Except Error Value} {items : List Value}
    (hmap : mapAll f items = .ok values) (hperm : order.Perm items) :
    ∃ values', mapAll f order = .ok values' ∧ values'.Perm values := by
  have : Inhabited Value := ⟨.null⟩
  obtain ⟨value, hvalue⟩ := Rows.exists_values (Rows.total_of_mapAll hmap)
  have hitems := Rows.mapAll_map id hvalue
  have horder := Rows.mapAll_map id fun row hrow => hvalue row (hperm.mem_iff.mp hrow)
  rw [List.map_id] at hitems horder
  cases hmap.symm.trans hitems
  exact ⟨order.map value, horder, hperm.map value⟩

theorem SumsAlike.aggregateOf_eq (h : SumsAlike values) (hwhole : ∀ v ∈ values, v.IsWhole)
    {f : Value → Except Error Value} {items : List Value} (hmap : mapAll f items = .ok values)
    (hperm : order.Perm items) : aggregateOf f order .sum = aggregateOf f items .sum := by
  obtain ⟨values', hmap', hvalues⟩ := exists_mapAll_of_perm hmap hperm
  show (mapAll f order >>= sum) = (mapAll f items >>= sum)
  rw [hmap, hmap']
  exact h.sum_eq hwhole hvalues

end Value

namespace PreparedQuery

variable {g : TypeGraph} {h : Heap} {config : Config} {p : PreparedQuery} {q : Parameters}
  {items items' rows rows' values : List Value}

theorem perm_step_filter {predicate : Option Lambda} (hperm : items'.Perm items)
    (hrows : step predicate (Rows.filter g h) items = .ok rows)
    (hrows' : step predicate (Rows.filter g h) items' = .ok rows') : rows'.Perm rows := by
  cases predicate with
  | none =>
      cases hrows
      cases hrows'
      exact hperm
  | some l =>
      obtain ⟨keep, hkeep, rfl⟩ := Rows.filter_iff.mp hrows
      have hagain : Rows.filter g h l items' = .ok (items'.filter keep) :=
        Rows.filter_of_total fun row hrow => hkeep row (hperm.mem_iff.mp hrow)
      cases hrows'.symm.trans hagain
      exact hperm.filter keep

theorem perm_step_sortBy {key : Option SortKey} (hrows : step key (Rows.sortBy g h) items = .ok rows) :
    rows.Perm items := by
  cases key with
  | none =>
      cases hrows
      exact .refl _
  | some key => exact Rows.perm_sortBy hrows

/-- Without grouping, the rows at hand are the same for all orders of the collection and of the rows. -/
theorem perm_arranged (hgroup : p.groupBy = none) (orderBy : Option SortKey) (hperm : items'.Perm items)
    (hrows : p.arranged g h items = .ok rows)
    (hrows' : { p with orderBy }.arranged g h items' = .ok rows') : rows'.Perm rows := by
  unfold arranged at hrows hrows'
  simp only [hgroup] at hrows hrows'
  obtain ⟨kept, hkept, hsort⟩ := Expr.exists_of_bind_eq_ok hrows
  obtain ⟨kept', hkept', hsort'⟩ := Expr.exists_of_bind_eq_ok hrows'
  have hrowsPerm : rows.Perm kept := perm_step_sortBy hsort
  have hrowsPerm' : rows'.Perm kept' := perm_step_sortBy hsort'
  have hinstances : (if p.narrow then Rows.ofType g h p.element items' else items').Perm
      (if p.narrow then Rows.ofType g h p.element items else items) := by
    split
    · exact hperm.filter _
    · exact hperm
  have hkeptPerm := perm_step_filter hinstances hkept hkept'
  exact hrowsPerm'.trans (hkeptPerm.trans hrowsPerm.symm)

theorem run_sum_of_perm (halike : Value.SumsAlike values) (hwhole : ∀ v ∈ values, v.IsWhole)
    (hprojection : q.projection = .sum) (hskip : q.skip = none) (htop : q.top = none)
    (hgroup : p.groupBy = none) (orderBy : Option SortKey) (hperm : items'.Perm items)
    (hrows : p.arranged g h items = .ok rows)
    (hrows' : { p with orderBy }.arranged g h items' = .ok rows')
    (hselect : step p.select (Rows.select g h) rows = .ok values) :
    { p with orderBy }.run g h config q items' = p.run g h config q items := by
  have hrowsPerm := perm_arranged hgroup orderBy hperm hrows hrows'
  obtain ⟨values', hselect', hvalues⟩ : ∃ values',
      step p.select (Rows.select g h) rows' = .ok values' ∧ values'.Perm values := by
    cases hs : p.select with
    | none =>
        rw [hs] at hselect
        cases hselect
        exact ⟨rows', rfl, hrowsPerm⟩
    | some selector =>
        rw [hs] at hselect
        exact Value.exists_mapAll_of_perm hselect hrowsPerm
  have hpage : ∀ rows, page q.skip (limit config q) rows = rows := by
    intro rows
    rw [hskip, limit, hprojection, if_neg (by decide), htop]
    rfl
  rw [run_eq_arranged, run_eq_arranged, hrows, hrows']
  show answered { p with orderBy } g h config q rows' = p.answered g h config q rows
  unfold answered
  rw [hpage, hpage, hselect, hselect', hprojection]
  show ((Value.sum values').map some >>= _) = ((Value.sum values).map some >>= _)
  rw [halike.sum_eq hwhole hvalues]
  cases Value.sum values with
  | error e => rfl
  | ok v => rfl

end PreparedQuery

namespace Value

variable {values : List Value}

/-- **What the order of whole summands does to their sum.** For whole numbers and nulls, in any order:

* the answer is the exact sum if all sums on the way fit into 64 bits, and the overflow else;
* some order has the exact sum if and only if this sum fits, and all orders have it if and only if what the
  positive summands add up to and what the negative ones do fit as well;
* all orders have the same answer if and only if these two fit or the sum does not.

In the last case an aggregate over the elements of a list is the same for all orders of the list, and so is
the answer to a query for a sum, for all orders of the collection and all sort keys, if the query takes all
rows and does not group them. -/
theorem sums_by_order (hwhole : ∀ v ∈ values, v.IsWhole) :
    (∀ order, order.Perm values →
      (StaysWithin order → ∃ n : Int64, n.toInt = total values ∧ sum order = .ok (.int n)) ∧
      (¬StaysWithin order → sum order = .error sumOverflow)) ∧
    ((∃ order, order.Perm values ∧ StaysWithin order) ↔ FitsInt64 (total values)) ∧
    ((∀ order, order.Perm values → StaysWithin order) ↔
      FitsInt64 (gains values) ∧ FitsInt64 (losses values)) ∧
    ((∀ order, order.Perm values → sum order = sum values) ↔ SumsAlike values) ∧
    (SumsAlike values →
      (∀ (f : Value → Except Error Value) (items order : List Value), mapAll f items = .ok values →
        order.Perm items → aggregateOf f order .sum = aggregateOf f items .sum) ∧
      ∀ (g : TypeGraph) (h : Heap) (config : Config) (p : PreparedQuery) (orderBy : Option SortKey)
        (q : Parameters) (items items' rows rows' : List Value),
        q.projection = .sum → q.skip = none → q.top = none → p.groupBy = none → items'.Perm items →
        p.arranged g h items = .ok rows → { p with orderBy }.arranged g h items' = .ok rows' →
        PreparedQuery.step p.select (Rows.select g h) rows = .ok values →
        { p with orderBy }.run g h config q items' = p.run g h config q items) := by
  have hwholeOf : ∀ order : List Value, order.Perm values → ∀ v ∈ order, v.IsWhole :=
    fun order hperm v hv => hwhole v (hperm.mem_iff.mp hv)
  refine ⟨fun order hperm => ⟨fun hstays => ?_, sum_of_not_staysWithin (hwholeOf order hperm)⟩, ?_, ?_,
    ⟨sumsAlike_of_sum_eq hwhole, fun halike order hperm => halike.sum_eq hwhole hperm⟩,
    fun halike => ⟨fun f items order hmap hperm => halike.aggregateOf_eq hwhole hmap hperm, ?_⟩⟩
  · refine ⟨Int64.ofInt (total order), ?_, sum_of_staysWithin (hwholeOf order hperm) hstays⟩
    rw [toInt_ofInt hstays.fits, total_of_perm hperm]
  · constructor
    · rintro ⟨order, hperm, hstays⟩
      rw [← total_of_perm hperm]
      exact hstays.fits
    · exact exists_staysWithin
  · constructor
    · intro hall
      by_contra hleaves
      obtain ⟨order, hperm, hfails⟩ := exists_not_staysWithin hleaves
      exact hfails (hall order hperm)
    · rintro ⟨hgains, hlosses⟩ order hperm
      exact staysWithin_of_fits (by rwa [gains_of_perm hperm]) (by rwa [losses_of_perm hperm])
  · intro g h config p orderBy q items items' rows rows' hprojection hskip htop hgroup hperm hrows hrows' hselect
    exact PreparedQuery.run_sum_of_perm halike hwhole hprojection hskip htop hgroup orderBy hperm hrows hrows' hselect

/-- Two numbers that cancel, with a null and a large number: every order has the sum. -/
theorem sum_large_of_any_order :
    (∀ v ∈ [Value.int 9223372036854775000, .null, .int 800, .int (-800)], v.IsWhole) ∧
      ∀ order, order.Perm [Value.int 9223372036854775000, .null, .int 800, .int (-800)] →
        sum order = .ok (.int 9223372036854775000) := by
  have hwhole : ∀ v ∈ [Value.int 9223372036854775000, .null, .int 800, .int (-800)], v.IsWhole := by
    simp [IsWhole]
  refine ⟨hwhole, fun order hperm => ?_⟩
  have halike : SumsAlike [Value.int 9223372036854775000, .null, .int 800, .int (-800)] :=
    .inl ⟨by decide, by decide⟩
  rw [(sums_by_order hwhole).2.2.2.1.mpr halike order hperm]
  rfl

/-- The greatest number, one and minus one: the sum fits, and whether it is answered depends on whether one
or minus one comes first. -/
theorem sum_fails_on_the_way :
    [Value.int 9223372036854775807, .int 1, .int (-1)].Perm [.int 9223372036854775807, .int (-1), .int 1] ∧
      total [Value.int 9223372036854775807, .int 1, .int (-1)] = 9223372036854775807 ∧
      sum [.int 9223372036854775807, .int (-1), .int 1] = .ok (.int 9223372036854775807) ∧
      sum [.int 9223372036854775807, .int 1, .int (-1)] = .error sumOverflow ∧
      Projection.sum.answer? [.int 9223372036854775807, .int 1, .int (-1)] = .error sumOverflow ∧
      aggregate [.int 9223372036854775807, .int 1, .int (-1)] .sum = .error sumOverflow :=
  ⟨(List.Perm.swap _ _ _).cons _, by decide, rfl, rfl, rfl, rfl⟩

end Value

end ResourceQuery
