/-! # Entries

Finite maps from texts, kept as a list of pairs in increasing order of keys. The order is that of code
points, which is also the order of the keys' UTF-8 bytes. Two maps with the same entries are the same
list, so equality of maps is equality of lists.
-/

namespace ResourceQuery

/-- A map from texts to `α`, sorted by key. -/
abbrev Entries (α : Type) := List (String × α)

namespace Entries

variable {α β : Type}

/-- The value under `key`. -/
def get? (key : String) : Entries α → Option α
  | [] => none
  | (k, v) :: rest => if k = key then some v else get? key rest

/-- Puts `value` under `key`, in place of a value that was there. -/
def insert (key : String) (value : α) : Entries α → Entries α
  | [] => [(key, value)]
  | (k, v) :: rest =>
    if key < k then (key, value) :: (k, v) :: rest
    else if key = k then (key, value) :: rest
    else (k, v) :: insert key value rest

/-- Removes `key` and its value. -/
def erase (key : String) : Entries α → Entries α
  | [] => []
  | (k, v) :: rest => if k = key then erase key rest else (k, v) :: erase key rest

/-- The map of `pairs`; of two values under one key the later stays. -/
def ofList (pairs : List (String × α)) : Entries α :=
  pairs.foldl (fun entries pair => insert pair.1 pair.2 entries) []

/-- The keys, in increasing order. -/
def keys (entries : Entries α) : List String :=
  entries.map (·.1)

/-! ## What reading sees after a change -/

@[simp] theorem get?_nil (key : String) : get? key ([] : Entries α) = none := rfl

theorem get?_insert_self (key : String) (value : α) (entries : Entries α) :
    get? key (insert key value entries) = some value := by
  induction entries with
  | nil => simp [insert, get?]
  | cons pair rest ih =>
    obtain ⟨k, v⟩ := pair
    by_cases hlt : key < k
    · simp [insert, hlt, get?]
    · by_cases heq : key = k
      · simp [insert, heq, get?]
      · have hne : k ≠ key := fun h => heq h.symm
        simp [insert, hlt, heq, get?, hne, ih]

theorem get?_insert_of_ne {key other : String} (h : other ≠ key) (value : α)
    (entries : Entries α) : get? other (insert key value entries) = get? other entries := by
  induction entries with
  | nil => simp [insert, get?, h.symm]
  | cons pair rest ih =>
    obtain ⟨k, v⟩ := pair
    by_cases hlt : key < k
    · simp [insert, hlt, get?, h.symm]
    · by_cases heq : key = k
      · subst heq
        simp [insert, get?, h.symm]
      · simp [insert, hlt, heq, get?, ih]

theorem get?_erase_self (key : String) (entries : Entries α) :
    get? key (erase key entries) = none := by
  induction entries with
  | nil => rfl
  | cons pair rest ih =>
    obtain ⟨k, v⟩ := pair
    by_cases heq : k = key
    · simp [erase, heq, ih]
    · simp [erase, heq, get?, ih]

end Entries

end ResourceQuery
