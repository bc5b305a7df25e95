/-! # Keyed lists

Finite maps from texts, kept as a list of pairs in the order in which their keys were first put. A value
put under a key that is there already takes the place of the value before it, so no key stands twice.
-/

namespace ResourceQuery

/-- A map from texts to `α`, in the order of first mention. -/
abbrev KeyedList (α : Type) := List (String × α)

namespace KeyedList

variable {α : Type}

/-- The value under `key`. -/
def get? (key : String) : KeyedList α → Option α
  | [] => none
  | (k, v) :: rest => if k = key then some v else get? key rest

/-- Puts `value` under `key`: in place of the value there, else last. -/
def put (key : String) (value : α) : KeyedList α → KeyedList α
  | [] => [(key, value)]
  | (k, v) :: rest => if k = key then (k, value) :: rest else (k, v) :: put key value rest

/-- Removes `key` and its value. -/
def erase (key : String) (list : KeyedList α) : KeyedList α :=
  list.filter (·.1 ≠ key)

/-- The keys, in order of first mention. -/
def keys (list : KeyedList α) : List String :=
  list.map (·.1)

/-! ## What reading sees after a change -/

theorem get?_put_self (key : String) (value : α) (list : KeyedList α) :
    get? key (put key value list) = some value := by
  induction list with
  | nil => simp [put, get?]
  | cons pair rest ih =>
    obtain ⟨k, v⟩ := pair
    by_cases h : k = key <;> simp [put, get?, h, ih]

theorem get?_put_of_ne {key other : String} (h : other ≠ key) (value : α) (list : KeyedList α) :
    get? other (put key value list) = get? other list := by
  induction list with
  | nil => simp [put, get?, h.symm]
  | cons pair rest ih =>
    obtain ⟨k, v⟩ := pair
    by_cases hk : k = key
    · subst hk
      simp [put, get?, h.symm]
    · simp [put, get?, hk, ih]

/-- A new key goes to the end. -/
theorem put_of_get?_eq_none {key : String} {list : KeyedList α} (h : get? key list = none)
    (value : α) : put key value list = list ++ [(key, value)] := by
  induction list with
  | nil => rfl
  | cons pair rest ih =>
    obtain ⟨k, v⟩ := pair
    by_cases hk : k = key
    · simp [get?, hk] at h
    · simp only [get?, hk, if_false] at h
      simp [put, hk, ih h]

end KeyedList

end ResourceQuery
