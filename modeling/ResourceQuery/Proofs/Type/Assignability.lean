import Mathlib.Data.Finset.Card
import ResourceQuery.Proofs.Value.Conformance

set_option autoImplicit false

/-! # Assignability is a preorder

Whether a type inherits from another one is found out by going up from base to base, for a number of steps.
Nothing in a table of types says that this ever ends, but a way up that is longer than the table goes through
some type twice, and can be cut short there (`exists_climb_le`). So the number of steps is enough, whatever
the table, and what can be assigned to a type can be assigned to what the type can be assigned to
(`isAssignable_trans`).
-/

namespace ResourceQuery

namespace TypeGraph

variable {g : TypeGraph} {target between candidate : TypeId} {n m fuel : Nat}

/-- The base of a type. -/
def above? (g : TypeGraph) (id : TypeId) : Option TypeId :=
  (g.table.get? id).bind Descriptor.base?

/-- The type that is `n` steps up. -/
def climb (g : TypeGraph) : (n : Nat) → TypeId → Option TypeId
  | 0, id => some id
  | n + 1, id => (g.above? id).bind (g.climb n)

theorem climb_add (g : TypeGraph) (n m : Nat) (id : TypeId) :
    g.climb (n + m) id = (g.climb n id).bind (g.climb m) := by
  induction n generalizing id with
  | zero =>
      rw [Nat.zero_add]
      rfl
  | succ n ih =>
      rw [Nat.succ_add, climb, climb]
      cases g.above? id with
      | none => rfl
      | some base => exact ih base

theorem inheritsFrom_iff :
    g.inheritsFrom target fuel candidate = true ↔ ∃ n < fuel, g.climb n candidate = some target := by
  induction fuel generalizing candidate with
  | zero => exact iff_of_false Bool.false_ne_true fun ⟨n, hn, _⟩ => Nat.not_lt_zero n hn
  | succ fuel ih =>
      rw [inheritsFrom, Bool.or_eq_true, decide_eq_true_eq]
      constructor
      · rintro (rfl | hbase)
        · exact ⟨0, Nat.succ_pos fuel, rfl⟩
        · split at hbase
          · rename_i base habove
            obtain ⟨n, hn, hclimb⟩ := ih.1 hbase
            refine ⟨n + 1, Nat.succ_lt_succ hn, ?_⟩
            rw [climb, above?, habove]
            exact hclimb
          · cases hbase
      · rintro ⟨n, hn, hclimb⟩
        cases n with
        | zero => exact Or.inl (Option.some.inj hclimb)
        | succ n =>
            rw [climb, above?] at hclimb
            cases habove : (g.table.get? candidate).bind Descriptor.base? with
            | none =>
                rw [habove] at hclimb
                cases hclimb
            | some base =>
                rw [habove] at hclimb
                exact Or.inr (ih.2 ⟨n, Nat.lt_of_succ_lt_succ hn, hclimb⟩)

/-- What has a base is in the table. -/
theorem lt_size_of_above (h : (g.above? candidate).isSome = true) :
    candidate.index < g.table.slots.size := by
  rw [above?, TypeTable.get?] at h
  by_contra hout
  rw [Array.getElem?_eq_none (Nat.le_of_not_lt hout)] at h
  cases h

/-- A way that comes back to a type can be cut short there. -/
theorem climb_cut {i j : Nat} (hsame : g.climb i candidate = g.climb j candidate) (hj : j ≤ n) :
    g.climb (i + (n - j)) candidate = g.climb n candidate := by
  rw [climb_add, hsame, ← climb_add, Nat.add_sub_cancel' hj]

/-- Each type on a way up has a base, but the last. -/
theorem exists_of_climb_lt {i : Nat} (h : g.climb n candidate = some target) (hi : i < n) :
    ∃ id, g.climb i candidate = some id ∧ id.index < g.table.slots.size := by
  obtain ⟨rest, rfl⟩ := Nat.exists_eq_add_of_lt hi
  rw [Nat.add_assoc, climb_add] at h
  cases hid : g.climb i candidate with
  | none =>
      rw [hid] at h
      cases h
  | some id =>
      rw [hid, Option.bind_some, climb] at h
      refine ⟨id, rfl, lt_size_of_above ?_⟩
      cases habove : g.above? id with
      | none =>
          rw [habove] at h
          cases h
      | some base => rfl

/-- A way up need not be longer than the table of types. -/
theorem exists_climb_le (h : g.climb n candidate = some target) :
    ∃ m ≤ g.table.slots.size, g.climb m candidate = some target := by
  induction n using Nat.strong_induction_on with
  | _ n ih =>
      by_cases hshort : n ≤ g.table.slots.size
      · exact ⟨n, hshort, h⟩
      -- there are more types on the way than in the table
      obtain ⟨i, hi, j, hj, hne, hindex⟩ := Finset.exists_ne_map_eq_of_card_lt_of_maps_to
        (s := Finset.range n) (t := Finset.range g.table.slots.size)
        (f := fun i => ((g.climb i candidate).map TypeId.index).getD 0)
        (by rw [Finset.card_range, Finset.card_range]; omega)
        (fun i hi => by
          obtain ⟨id, hid, hlt⟩ := exists_of_climb_lt h (Finset.mem_range.1 hi)
          show ((g.climb i candidate).map TypeId.index).getD 0 ∈ Finset.range g.table.slots.size
          rw [hid]
          exact Finset.mem_range.2 hlt)
      rw [Finset.mem_range] at hi hj
      have hsame : g.climb i candidate = g.climb j candidate := by
        obtain ⟨id, hid, -⟩ := exists_of_climb_lt h hi
        obtain ⟨id', hid', -⟩ := exists_of_climb_lt h hj
        rw [hid, hid'] at hindex ⊢
        cases id
        cases id'
        exact congrArg (fun index => some (TypeId.mk index)) hindex
      rcases Nat.lt_or_gt_of_ne hne with hlt | hgt
      · exact ih (i + (n - j)) (by omega) ((climb_cut hsame (Nat.le_of_lt hj)).trans h)
      · exact ih (j + (n - i)) (by omega) ((climb_cut hsame.symm (Nat.le_of_lt hi)).trans h)

theorem isAssignable_iff : g.isAssignable target candidate = true ↔
    (g.table.get? target).any (·.isAny) = true ∨ ∃ n, g.climb n candidate = some target := by
  rw [isAssignable, Bool.or_eq_true, inheritsFrom_iff]
  refine or_congr_right ⟨fun ⟨n, _, hn⟩ => ⟨n, hn⟩, fun ⟨n, hn⟩ => ?_⟩
  obtain ⟨m, hm, hclimb⟩ := exists_climb_le hn
  exact ⟨m, Nat.lt_succ_of_le hm, hclimb⟩

theorem above?_of_isAny (h : (g.table.get? candidate).any (·.isAny) = true) : g.above? candidate = none := by
  rw [above?]
  cases hd : g.table.get? candidate with
  | none => rfl
  | some d =>
      rw [hd, Option.any_some] at h
      have hmembers : d.members? = none := by
        rw [Descriptor.members?, Descriptor.shape_of_isAny h]
      rw [Option.bind_some, Descriptor.base?, hmembers]
      rfl

/-- **Assignability is transitive.** -/
theorem isAssignable_trans (hfirst : g.isAssignable target between = true)
    (hsecond : g.isAssignable between candidate = true) : g.isAssignable target candidate = true := by
  rw [isAssignable_iff] at hfirst hsecond ⊢
  rcases hfirst with hany | ⟨n, hn⟩
  · exact Or.inl hany
  · rcases hsecond with hany | ⟨m, hm⟩
    · -- an untyped slot has no base
      cases n with
      | zero =>
          cases hn
          exact Or.inl hany
      | succ n =>
          rw [climb, above?_of_isAny hany] at hn
          cases hn
    · refine Or.inr ⟨m + n, ?_⟩
      rw [climb_add, hm]
      exact hn

end TypeGraph

end ResourceQuery
