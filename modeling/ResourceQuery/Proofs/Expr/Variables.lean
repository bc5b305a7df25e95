import ResourceQuery.Expr.Equality
import ResourceQuery.Expr.Parser
import ResourceQuery.Proofs.Expr.Written

set_option autoImplicit false

/-! # Variables in texts

A variable has three names: the one in the tree that is written, the one in the text, and the one in the
tree that is read. `Frames` lists the variables around a place with the first and the number in the
third; the second follows from the depth. What writing, reading and comparing keep of the variables
(`Frames.shown`, `Frames.scopes`, `Frames.pairing`) are three views of it.

The results are that `ofWord` gives back what a word of a text stands for: a bound variable
(`exists_variable`), the row itself, and a member of the row (`ofWord_member`).
-/

namespace ResourceQuery

/-! ## The names in texts -/

namespace Text

theorem sameIgnoringCase_symm {a b : String} (h : sameIgnoringCase a b = true) :
    sameIgnoringCase b a = true := by
  rw [sameIgnoringCase_iff] at h ⊢
  exact h.symm

theorem sameIgnoringCase_trans {a b c : String} (hab : sameIgnoringCase a b = true)
    (hbc : sameIgnoringCase b c = true) : sameIgnoringCase a c = true := by
  rw [sameIgnoringCase_iff] at hab hbc ⊢
  exact hab.trans hbc

theorem toLower_toLower (c : Char) : c.toLower.toLower = c.toLower := by
  by_cases hcapital : 65 ≤ c.toNat ∧ c.toNat ≤ 90
  · obtain ⟨hlow, hhigh⟩ := hcapital
    rw [← Char.ofNat_toNat c]
    generalize c.toNat = n at hlow hhigh
    interval_cases n <;> decide
  · have hsame : c.toLower = c := by
      unfold Char.toLower
      exact dif_neg hcapital
    rw [hsame, hsame]

theorem asciiLower_asciiLower (a : String) : asciiLower (asciiLower a) = asciiLower a := by
  simp only [asciiLower, String.toList_ofList, List.map_map]
  congr 1
  apply List.map_congr_left
  intro c _
  exact toLower_toLower c

theorem sameIgnoringCase_asciiLower (r a : String) :
    sameIgnoringCase r (asciiLower a) = sameIgnoringCase r a := by
  rw [Bool.eq_iff_iff, sameIgnoringCase_iff, sameIgnoringCase_iff, asciiLower_asciiLower]

end Text

theorem isReserved_asciiLower (w : String) : isReserved (Text.asciiLower w) = isReserved w := by
  simp only [isReserved, Text.sameIgnoringCase_asciiLower]

/-- A word that is not reserved is none of the reserved words. -/
theorem not_same_of_not_reserved {w r : String} (h : isReserved w = false) (hr : r ∈ reservedWords) :
    Text.sameIgnoringCase w r = false := by
  rw [← Bool.not_eq_true]
  intro hsame
  have hreserved : isReserved w = true := by
    rw [isReserved, List.any_eq_true]
    exact ⟨r, hr, Text.sameIgnoringCase_symm hsame⟩
  rw [h] at hreserved
  cases hreserved

namespace ShownNames

/-- The name of a variable that is deeper than the list of short names goes. -/
theorem atDepth_add_six (n : Nat) : atDepth (n + 6) = "p" ++ Decimal.naturalText (n + 6) := rfl

theorem toList_numbered (n : Nat) : ("p" ++ Decimal.naturalText n).toList = 'p' :: Nat.toDigits 10 n := by
  rw [String.toList_append, Decimal.toList_naturalText]
  rfl

theorem map_toLower_toDigits (n : Nat) :
    (Nat.toDigits 10 n).map Char.toLower = Nat.toDigits 10 n := by
  have hall : ∀ c ∈ Nat.toDigits 10 n, c.toLower = c :=
    fun c hc => CharClass.of_isDigit (p := fun d => d.toLower = d) (by decide)
      (Decimal.all_isDigit_toDigits n c hc)
  rw [List.map_congr_left hall, List.map_id']

/-- Names of variables have no capitals. -/
theorem asciiLower_atDepth (depth : Nat) : Text.asciiLower (atDepth depth) = atDepth depth := by
  match depth with
  | 0 | 1 | 2 | 3 | 4 | 5 => decide
  | n + 6 =>
      rw [atDepth_add_six, ← String.toList_inj]
      simp only [Text.asciiLower, String.toList_ofList, toList_numbered, List.map_cons,
        map_toLower_toDigits]
      rfl

/-- Variables at different depths have different names. -/
theorem atDepth_injective {i j : Nat} (h : atDepth i = atDepth j) : i = j := by
  -- the first six names are letters, and later ones are longer
  have hlong : ∀ n, (atDepth (n + 6)).toList.length ≠ 1 := by
    intro n
    have hpos := Nat.length_toDigits_pos (b := 10) (n := n + 6)
    rw [atDepth_add_six, toList_numbered, List.length_cons]
    omega
  have hshort : ∀ k, k < 6 → (atDepth k).toList.length = 1 := by decide
  by_cases hi : i < 6
  · by_cases hj : j < 6
    · have hall : ∀ m, m < 6 → ∀ n, n < 6 → atDepth m = atDepth n → m = n := by decide
      exact hall i hi j hj h
    · obtain ⟨n, rfl⟩ : ∃ n, j = n + 6 := ⟨j - 6, by omega⟩
      exact absurd (by rw [← h]; exact hshort i hi) (hlong n)
  · obtain ⟨m, rfl⟩ : ∃ m, i = m + 6 := ⟨i - 6, by omega⟩
    by_cases hj : j < 6
    · exact absurd (by rw [h]; exact hshort j hj) (hlong m)
    · obtain ⟨n, rfl⟩ : ∃ n, j = n + 6 := ⟨j - 6, by omega⟩
      -- both are numbered, and the numbers are read off the digits
      have htext : ("p" ++ Decimal.naturalText (m + 6)).toList =
          ("p" ++ Decimal.naturalText (n + 6)).toList := congrArg String.toList h
      rw [String.toList_append, String.toList_append, List.append_cancel_left_eq,
        String.toList_inj] at htext
      exact Decimal.naturalText_injective htext

/-- No name of a variable is reserved. -/
theorem isReserved_atDepth (depth : Nat) : isReserved (atDepth depth) = false := by
  match depth with
  | 0 | 1 | 2 | 3 | 4 | 5 => decide
  | n + 6 =>
      -- no reserved word starts with a `p`
      have hlead : ∀ r ∈ reservedWords, (r.toList.map Char.toLower).head? ≠ some 'p' := by decide
      rw [← Bool.not_eq_true, isReserved, List.any_eq_true]
      rintro ⟨r, hr, hsame⟩
      rw [atDepth_add_six, Text.sameIgnoringCase, beq_iff_eq, toList_numbered] at hsame
      refine hlead r hr ?_
      rw [hsame]
      rfl

end ShownNames

theorem numberedName_injective {m n : Nat} (h : numberedName m = numberedName n) : m = n := by
  have htext := congrArg String.toList h
  rw [numberedName, numberedName, String.toList_append, String.toList_append,
    List.append_cancel_left_eq, String.toList_inj] at htext
  exact Decimal.naturalText_injective htext

/-! ## Variables around a place -/

/-- The variables around a place, innermost first: the name in the tree that is written and the number
in the tree that is read. -/
abbrev Frames := List (String × Nat)

namespace Frames

/-- The variables with their names in the tree that is written and in the text. -/
def shown : Frames → ShownNames
  | [] => []
  | (x, _) :: outer => (x, ShownNames.atDepth outer.length) :: shown outer

/-- The variables with their names in the text and in the tree that is read. -/
def scopes : Frames → Parser.Scopes
  | [] => []
  | (_, n) :: outer => (ShownNames.atDepth outer.length, numberedName n) :: scopes outer

/-- The variables with their names in both trees, and the row. -/
def pairing (root : String) : Frames → Expr.Pairing
  | [] => [(root, Parser.rowName)]
  | (x, n) :: outer => (x, numberedName n) :: pairing root outer

/-- All numbers are below `next` and above that of the row, and higher further inside. -/
def Fits : Frames → (next : Nat) → Prop
  | [], next => 0 < next
  | (_, n) :: outer, next => n < next ∧ Fits outer n

theorem length_shown (fs : Frames) : fs.shown.length = fs.length := by
  induction fs with
  | nil => rfl
  | cons f outer ih =>
      simp only [shown, List.length_cons, ih]

theorem Fits.mono {fs : Frames} {m n : Nat} (h : fs.Fits m) (hle : m ≤ n) : fs.Fits n := by
  cases fs with
  | nil => exact Nat.lt_of_lt_of_le h hle
  | cons f outer => exact ⟨Nat.lt_of_lt_of_le h.1 hle, h.2⟩

theorem Fits.pos {fs : Frames} {n : Nat} (h : fs.Fits n) : 0 < n := by
  induction fs generalizing n with
  | nil => exact h
  | cons f outer ih => exact Nat.lt_trans (ih h.2) h.1

variable {fs : Frames} {next : Nat} {root x : String}

/-- A bound variable is found again under its name in the text. -/
theorem exists_variable (h : fs.Fits next) {name : String} (hx : fs.shown.lookup x = some name) :
    ∃ n depth, n < next ∧ depth < fs.length ∧ name = ShownNames.atDepth depth ∧
      (fs.scopes.find? fun (shown, _) => Text.sameIgnoringCase shown name) =
        some (name, numberedName n) ∧
      (fs.pairing root).relates x (numberedName n) = true := by
  induction fs generalizing next with
  | nil => cases hx
  | cons f outer ih =>
      obtain ⟨y, m⟩ := f
      rw [shown, List.lookup_cons] at hx
      by_cases hxy : x = y
      · subst hxy
        rw [beq_self_eq_true] at hx
        cases hx
        refine ⟨m, outer.length, h.1, by simp, rfl, ?_, ?_⟩
        · simp [scopes, Text.sameIgnoringCase_refl]
        · simp [pairing, Expr.Pairing.relates]
      · rw [beq_false_of_ne hxy] at hx
        obtain ⟨n, depth, hn, hdepth, hname, hfind, hrelates⟩ := ih h.2 hx
        refine ⟨n, depth, Nat.lt_trans hn h.1, by rw [List.length_cons]; omega, hname, ?_, ?_⟩
        · -- the innermost variable has another name in the text
          have hother : Text.sameIgnoringCase (ShownNames.atDepth outer.length) name = false := by
            rw [← Bool.not_eq_true, hname, Text.sameIgnoringCase_iff, ShownNames.asciiLower_atDepth,
              ShownNames.asciiLower_atDepth]
            intro hsame
            have heq := ShownNames.atDepth_injective hsame
            omega
          rw [scopes, List.find?_cons_of_neg (by dsimp only; rw [hother]; decide), hfind]
        · have hnumber : numberedName m ≠ numberedName n := by
            intro hsame
            have heq := numberedName_injective hsame
            omega
          have hneither : ¬(y = x ∨ numberedName m = numberedName n) := by
            rintro (hyx | hmn)
            · exact hxy hyx.symm
            · exact hnumber hmn
          rw [pairing, Expr.Pairing.relates, if_neg hneither, hrelates]

/-- No variable is called by a reserved word. -/
theorem find?_reserved (fs : Frames) {w : String} (hw : isReserved w = true) :
    (fs.scopes.find? fun (shown, _) => Text.sameIgnoringCase shown w) = none := by
  rw [isReserved, List.any_eq_true] at hw
  obtain ⟨r, hr, hsame⟩ := hw
  induction fs with
  | nil => rfl
  | cons f outer ih =>
      have hother : ¬ Text.sameIgnoringCase (ShownNames.atDepth outer.length) w = true := by
        intro hname
        have hreserved : isReserved (ShownNames.atDepth outer.length) = true := by
          rw [isReserved, List.any_eq_true]
          exact ⟨r, hr, Text.sameIgnoringCase_trans hsame (Text.sameIgnoringCase_symm hname)⟩
        rw [ShownNames.isReserved_atDepth] at hreserved
        cases hreserved
      rw [scopes, List.find?_cons_of_neg (by exact hother), ih]

/-- What is not hidden is the name of no variable. -/
theorem find?_of_not_hidden {name : String} (h : ShownNames.hide fs.shown name = false) :
    (fs.scopes.find? fun (shown, _) => Text.sameIgnoringCase shown name) = none := by
  rw [ShownNames.hide, Bool.or_eq_false_iff] at h
  obtain ⟨-, hnone⟩ := h
  induction fs with
  | nil => rfl
  | cons f outer ih =>
      rw [shown, List.any_cons, Bool.or_eq_false_iff] at hnone
      have hother : Text.sameIgnoringCase (ShownNames.atDepth outer.length) name = false := hnone.1
      rw [scopes, List.find?_cons_of_neg (by dsimp only; rw [hother]; decide), ih hnone.2]

/-- The row is the same where no variable hides it. -/
theorem relates_root (h : fs.Fits next) (hx : fs.shown.lookup root = none) :
    (fs.pairing root).relates root Parser.rowName = true := by
  induction fs generalizing next with
  | nil => simp [pairing, Expr.Pairing.relates]
  | cons f outer ih =>
      obtain ⟨y, m⟩ := f
      rw [shown, List.lookup_cons] at hx
      by_cases hxy : root = y
      · subst hxy
        rw [beq_self_eq_true] at hx
        cases hx
      · rw [beq_false_of_ne hxy] at hx
        -- variables are numbered from one, and the row has number zero
        have hnumber : numberedName m ≠ Parser.rowName := by
          intro hsame
          have heq := numberedName_injective hsame
          have hpos := h.2.pos
          omega
        have hneither : ¬(y = root ∨ numberedName m = Parser.rowName) := by
          rintro (hyx | hmn)
          · exact hxy hyx.symm
          · exact hnumber hmn
        rw [pairing, Expr.Pairing.relates, if_neg hneither, ih h.2 hx]

/-! ## What a word stands for -/

theorem ofWord_variable (h : fs.Fits next) {name : String} (hx : fs.shown.lookup x = some name) :
    ∃ e, Parser.ofWord fs.scopes name = some e ∧
      Expr.equalUnder (fs.pairing root) (.param x) e = true := by
  obtain ⟨n, -, -, -, -, hfind, hrelates⟩ := exists_variable h hx
  refine ⟨.param (numberedName n), ?_, hrelates⟩
  rw [Parser.ofWord, hfind]

theorem ofWord_this (fs : Frames) : Parser.ofWord fs.scopes "this" = some (.param Parser.rowName) := by
  rw [Parser.ofWord, find?_reserved fs (by decide)]
  rfl

theorem ofWord_null (fs : Frames) : Parser.ofWord fs.scopes "null" = some (.constant .null) := by
  rw [Parser.ofWord, find?_reserved fs (by decide)]
  rfl

theorem ofWord_bool (fs : Frames) (b : Bool) :
    Parser.ofWord fs.scopes (if b then "true" else "false") = some (.constant (.bool b)) := by
  cases b
  · rw [Parser.ofWord, find?_reserved fs (by decide)]
    rfl
  · rw [Parser.ofWord, find?_reserved fs (by decide)]
    rfl

/-- A word that is not hidden is a member of the row. -/
theorem ofWord_member {name : String} (h : ShownNames.hide fs.shown name = false) :
    Parser.ofWord fs.scopes name = some (.member (.param Parser.rowName) name) := by
  have hreserved : isReserved name = false := by
    rw [ShownNames.hide, Bool.or_eq_false_iff] at h
    exact h.1
  -- the word is none of those with a meaning of their own
  have hword : ∀ r, isReserved r = true → Text.asciiLower name ≠ r := by
    rintro r hr rfl
    rw [isReserved_asciiLower, hreserved] at hr
    cases hr
  rw [Parser.ofWord, find?_of_not_hidden h]
  dsimp only
  split
  · rename_i heq
    exact absurd heq (hword _ (by decide))
  · rename_i heq
    exact absurd heq (hword _ (by decide))
  · rename_i heq
    exact absurd heq (hword _ (by decide))
  · rename_i heq
    exact absurd heq (hword _ (by decide))
  · rw [isReserved_asciiLower, hreserved]
    rfl

end Frames

end ResourceQuery
