import ResourceQuery.Data.Entries
import Mathlib.Data.String.Basic
import Mathlib.Order.Basic

set_option autoImplicit false

/-! # What entries hold

The small facts about sorted entries: what is among them after a change, and in which order.
-/

namespace ResourceQuery

namespace Entries

variable {α : Type} {key : String} {value : α} {entries : Entries α} {entry : String × α}

/-! ## Members -/

theorem mem_insert (h : entry ∈ insert key value entries) : entry = (key, value) ∨ entry ∈ entries := by
  induction entries with
  | nil => exact Or.inl (List.mem_singleton.mp h)
  | cons first rest ih =>
      obtain ⟨k, v⟩ := first
      unfold insert at h
      split at h
      · exact List.mem_cons.mp h
      · split at h
        · rcases List.mem_cons.mp h with hself | hrest
          · exact Or.inl hself
          · exact Or.inr (List.mem_cons_of_mem _ hrest)
        · rcases List.mem_cons.mp h with hself | hrest
          · exact Or.inr (hself ▸ List.mem_cons_self)
          · exact (ih hrest).imp_right fun hold => List.mem_cons_of_mem _ hold

theorem mem_of_get? (h : get? key entries = some value) : (key, value) ∈ entries := by
  induction entries with
  | nil => cases h
  | cons first rest ih =>
      obtain ⟨k, v⟩ := first
      unfold get? at h
      split at h
      · rename_i hkey
        rw [hkey, Option.some.inj h]
        exact List.mem_cons_self
      · exact List.mem_cons_of_mem _ (ih h)

theorem mem_of_mem_erase (h : entry ∈ erase key entries) : entry ∈ entries := by
  induction entries with
  | nil => exact h
  | cons first rest ih =>
      obtain ⟨k, v⟩ := first
      unfold erase at h
      split at h
      · exact List.mem_cons_of_mem _ (ih h)
      · rcases List.mem_cons.mp h with hself | hrest
        · exact hself ▸ List.mem_cons_self
        · exact List.mem_cons_of_mem _ (ih hrest)

/-- There is something under a key after something was put under another if that is so before. -/
theorem isSome_get?_insert (other : String) :
    (get? other (insert key value entries)).isSome = true ↔
      other = key ∨ (get? other entries).isSome = true := by
  by_cases hother : other = key
  · rw [hother, get?_insert_self]
    exact ⟨fun _ => Or.inl rfl, fun _ => rfl⟩
  · rw [get?_insert_of_ne hother]
    exact ⟨Or.inr, fun h => h.resolve_left hother⟩

/-! ## Order -/

/-- The keys are in increasing order, and none stands twice. -/
def Sorted (entries : Entries α) : Prop :=
  entries.Pairwise fun a b => a.1 < b.1

instance (entries : Entries α) : Decidable entries.Sorted :=
  inferInstanceAs (Decidable (List.Pairwise _ entries))

theorem sorted_nil : Sorted ([] : Entries α) :=
  List.Pairwise.nil

theorem Sorted.insert (h : entries.Sorted) : (Entries.insert key value entries).Sorted := by
  induction entries with
  | nil => exact List.pairwise_singleton _ _
  | cons first rest ih =>
      obtain ⟨k, v⟩ := first
      obtain ⟨hfirst, hrest⟩ := List.pairwise_cons.mp h
      unfold Entries.insert
      split
      · rename_i hlt
        refine List.pairwise_cons.mpr ⟨fun other hother => ?_, h⟩
        rcases List.mem_cons.mp hother with hself | hlater
        · exact hself ▸ hlt
        · exact hlt.trans (hfirst other hlater)
      · split
        · rename_i hkey
          exact List.pairwise_cons.mpr ⟨fun other hother => hkey ▸ hfirst other hother, hrest⟩
        · rename_i hle hne
          refine List.pairwise_cons.mpr ⟨fun other hother => ?_, ih hrest⟩
          rcases mem_insert hother with hself | hold
          · rw [hself]
            exact lt_of_le_of_ne (not_lt.mp hle) (Ne.symm hne)
          · exact hfirst other hold

theorem sorted_ofList (pairs : List (String × α)) : (ofList pairs).Sorted := by
  have hfold : ∀ start : Entries α, start.Sorted →
      Sorted (pairs.foldl (fun entries pair => Entries.insert pair.1 pair.2 entries) start) := by
    induction pairs with
    | nil => exact fun _ h => h
    | cons pair rest ih => exact fun _ h => ih _ h.insert
  exact hfold [] sorted_nil

/-- In sorted entries, each is the one that is found under its key. -/
theorem Sorted.get?_of_mem (h : entries.Sorted) (hmem : (key, value) ∈ entries) :
    get? key entries = some value := by
  induction entries with
  | nil => cases hmem
  | cons first rest ih =>
      obtain ⟨k, v⟩ := first
      obtain ⟨hfirst, hrest⟩ := List.pairwise_cons.mp h
      unfold get?
      rcases List.mem_cons.mp hmem with hself | hlater
      · cases hself
        exact if_pos rfl
      · have hne : k ≠ key := (hfirst (key, value) hlater).ne
        rw [if_neg hne]
        exact ih hrest hlater

/-- Sorted entries with the same keys stand side by side. -/
theorem Sorted.forall₂ {β : Type} {R : α → β → Prop} {xs : Entries α} {ys : Entries β}
    (hxs : xs.Sorted) (hys : ys.Sorted)
    (hkeys : ∀ key, (get? key xs).isSome = true ↔ (get? key ys).isSome = true)
    (hvalues : ∀ key x y, (key, x) ∈ xs → (key, y) ∈ ys → R x y) :
    List.Forall₂ (fun a b => a.1 = b.1 ∧ R a.2 b.2) xs ys := by
  induction xs generalizing ys with
  | nil =>
      cases ys with
      | nil => exact .nil
      | cons y ys =>
          have hthere := (hkeys y.1).mpr (by rw [hys.get?_of_mem List.mem_cons_self]; rfl)
          cases hthere
  | cons x xs ih =>
      obtain ⟨k, v⟩ := x
      obtain ⟨hx, hxs'⟩ := List.pairwise_cons.mp hxs
      cases ys with
      | nil =>
          have hthere := (hkeys k).mp (by rw [hxs.get?_of_mem List.mem_cons_self]; rfl)
          cases hthere
      | cons y ys =>
          obtain ⟨l, w⟩ := y
          obtain ⟨hy, hys'⟩ := List.pairwise_cons.mp hys
          -- the first key on each side is on the other side, and the least there
          have hleast : ∀ {γ : Type} {key first : String} {c : γ} {zs : Entries γ},
              (∀ z ∈ zs, first < z.1) → (get? key ((first, c) :: zs)).isSome = true → first ≤ key := by
            intro γ key first c zs hz hthere
            obtain ⟨z, hkey⟩ := Option.isSome_iff_exists.mp hthere
            rcases List.mem_cons.mp (mem_of_get? hkey) with hself | hlater
            · cases hself
              exact le_refl _
            · exact (hz _ hlater).le
          have hkl : k = l := by
            refine le_antisymm (hleast hx ((hkeys l).mpr ?_)) (hleast hy ((hkeys k).mp ?_))
            · rw [hys.get?_of_mem List.mem_cons_self]
              rfl
            · rw [hxs.get?_of_mem List.mem_cons_self]
              rfl
          refine .cons ⟨hkl, hvalues k v w List.mem_cons_self (hkl ▸ List.mem_cons_self)⟩
            (ih hxs' hys' (fun key => ?_) fun key a b ha hb =>
              hvalues key a b (List.mem_cons_of_mem _ ha) (List.mem_cons_of_mem _ hb))
          by_cases hkey : k = key
          · -- the first key is not among the others, on either side
            have hnone : ∀ {γ : Type} {zs : Entries γ}, (∀ z ∈ zs, key < z.1) →
                (get? key zs).isSome = true → False := by
              intro γ zs hz hthere
              obtain ⟨z, hget⟩ := Option.isSome_iff_exists.mp hthere
              exact (hz _ (mem_of_get? hget)).ne rfl
            exact ⟨fun h => (hnone (hkey ▸ hx) h).elim, fun h => (hnone (hkey ▸ hkl ▸ hy) h).elim⟩
          · have hrest := hkeys key
            unfold get? at hrest
            rw [if_neg hkey, if_neg (hkl ▸ hkey)] at hrest
            exact hrest

end Entries

end ResourceQuery
