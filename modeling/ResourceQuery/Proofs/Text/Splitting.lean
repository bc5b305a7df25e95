import ResourceQuery.Text.Basic
import Mathlib.Tactic.IntervalCases

set_option autoImplicit false

/-! # Texts that are joined, split and trimmed

Pieces with a separator between them are split into these pieces again, if none of them has the separator
in it (`splitOn_join`), and a text is split once behind the first of its parts (`splitOnce_append`). Nothing
is trimmed from a text in which no character is white space, such as an identifier; and an identifier stays
one when its capitals are made small.
-/

namespace ResourceQuery

namespace Text

variable {sep : Char} {cs rest : List Char}

/-! ## Splitting what was joined -/

theorem splitChars_ne_nil (sep : Char) (cs : List Char) : splitChars sep cs ≠ [] := by
  cases cs with
  | nil => exact List.cons_ne_nil _ _
  | cons c rest =>
      unfold splitChars
      split
      · exact List.cons_ne_nil _ _
      · split
        · exact List.cons_ne_nil _ _
        · exact List.cons_ne_nil _ _

theorem join_cons (sep piece : String) {pieces : List String} (h : pieces ≠ []) :
    join sep (piece :: pieces) = piece ++ sep ++ join sep pieces := by
  cases pieces with
  | nil => exact absurd rfl h
  | cons next rest => rfl

theorem splitChars_of_not_mem (h : sep ∉ cs) : splitChars sep cs = [cs] := by
  induction cs with
  | nil => rfl
  | cons c rest ih =>
      rw [List.mem_cons, not_or] at h
      rw [splitChars, if_neg (Ne.symm h.1), ih h.2]

theorem splitChars_append (h : sep ∉ cs) :
    splitChars sep (cs ++ sep :: rest) = cs :: splitChars sep rest := by
  induction cs with
  | nil => rw [List.nil_append, splitChars, if_pos rfl]
  | cons c cs ih =>
      rw [List.mem_cons, not_or] at h
      rw [List.cons_append, splitChars, if_neg (Ne.symm h.1), ih h.2]

theorem splitOn_of_not_mem {s : String} (h : sep ∉ s.toList) : splitOn sep s = [s] := by
  rw [splitOn, splitChars_of_not_mem h, List.map_singleton, String.ofList_toList]

/-- Pieces that were joined are split again. -/
theorem splitOn_join {pieces : List String} (hsome : pieces ≠ []) (h : ∀ p ∈ pieces, sep ∉ p.toList) :
    splitOn sep (join (String.ofList [sep]) pieces) = pieces := by
  induction pieces with
  | nil => exact absurd rfl hsome
  | cons piece pieces ih =>
      have hpiece := h piece List.mem_cons_self
      cases pieces with
      | nil => exact splitOn_of_not_mem hpiece
      | cons next later =>
          have hrest := ih (List.cons_ne_nil _ _) fun p hp => h p (List.mem_cons_of_mem _ hp)
          rw [splitOn] at hrest
          rw [splitOn, join_cons _ _ (List.cons_ne_nil _ _), String.toList_append, String.toList_append,
            String.toList_ofList, List.append_assoc, List.singleton_append, splitChars_append hpiece,
            List.map_cons, hrest, String.ofList_toList]

/-- Pieces that were split are put together again. -/
theorem join_splitChars (sep : Char) (cs : List Char) :
    join (String.ofList [sep]) ((splitChars sep cs).map String.ofList) = String.ofList cs := by
  induction cs with
  | nil => rfl
  | cons c rest ih =>
      have hsome : (splitChars sep rest).map String.ofList ≠ [] := by
        simpa using splitChars_ne_nil sep rest
      unfold splitChars
      by_cases hc : c = sep
      · rw [if_pos hc, List.map_cons, join_cons _ _ hsome, ih, hc]
        simp
      · rw [if_neg hc]
        cases hpieces : splitChars sep rest with
        | nil => exact absurd hpieces (splitChars_ne_nil sep rest)
        | cons piece pieces =>
            rw [hpieces] at ih
            -- the first piece grows by the character, and nothing else changes
            have hcons : ∀ cs : List Char, String.ofList (c :: cs) = String.ofList [c] ++ String.ofList cs :=
              fun cs => by simp
            rw [hcons rest, ← ih, List.map_cons, List.map_cons, hcons piece]
            cases pieces with
            | nil => rfl
            | cons next later =>
                rw [List.map_cons, join_cons _ _ (List.cons_ne_nil _ _),
                  join_cons _ _ (List.cons_ne_nil _ _)]
                simp only [String.append_assoc]

theorem join_splitOn (path : String) : join "." (splitOn '.' path) = path := by
  have hjoin := join_splitChars '.' path.toList
  rw [String.ofList_toList] at hjoin
  exact hjoin

/-- A text is split once at the first separator. -/
theorem splitOnce_append {lead more : String} (h : sep ∉ lead.toList) :
    splitOnce sep (lead ++ String.ofList [sep] ++ more) = some (lead, more) := by
  have hlead : ∀ c ∈ lead.toList, decide (c ≠ sep) = true := fun c hc =>
    decide_eq_true fun heq => h (heq ▸ hc)
  have hchars : (lead ++ String.ofList [sep] ++ more).toList = lead.toList ++ sep :: more.toList := by
    simp
  unfold splitOnce
  rw [hchars, List.dropWhile_append_of_pos hlead, List.takeWhile_append_of_pos hlead,
    List.dropWhile_cons_of_neg (by simp), List.takeWhile_cons_of_neg (by simp)]
  simp

theorem splitOnce_of_not_mem {s : String} (h : sep ∉ s.toList) : splitOnce sep s = none := by
  have hall : (s.toList ++ []).dropWhile (· ≠ sep) = [] :=
    List.dropWhile_append_of_pos fun c hc => decide_eq_true fun heq => h (heq ▸ hc)
  rw [List.append_nil] at hall
  unfold splitOnce
  rw [hall]

/-- A character of a text is in one of its pieces, or separates them. -/
theorem mem_splitChars {c : Char} (hc : c ∈ cs) : c = sep ∨ ∃ piece ∈ splitChars sep cs, c ∈ piece := by
  induction cs with
  | nil => cases hc
  | cons d rest ih =>
      unfold splitChars
      by_cases hd : d = sep
      · rw [if_pos hd]
        rcases List.mem_cons.1 hc with rfl | hc
        · exact Or.inl hd
        · refine (ih hc).imp id ?_
          rintro ⟨piece, hpiece, hmem⟩
          exact ⟨piece, List.mem_cons_of_mem _ hpiece, hmem⟩
      · rw [if_neg hd]
        cases hsplit : splitChars sep rest with
        | nil =>
            rcases List.mem_cons.1 hc with rfl | hc
            · exact Or.inr ⟨[c], List.mem_singleton_self _, List.mem_singleton_self _⟩
            · rcases ih hc with heq | ⟨piece, hpiece, -⟩
              · exact Or.inl heq
              · rw [hsplit] at hpiece
                cases hpiece
        | cons first pieces =>
            rcases List.mem_cons.1 hc with rfl | hc
            · exact Or.inr ⟨_, List.mem_cons_self, List.mem_cons_self⟩
            · rcases ih hc with heq | ⟨piece, hpiece, hmem⟩
              · exact Or.inl heq
              · rw [hsplit] at hpiece
                rcases List.mem_cons.1 hpiece with rfl | hpiece
                · exact Or.inr ⟨_, List.mem_cons_self, List.mem_cons_of_mem _ hmem⟩
                · exact Or.inr ⟨piece, List.mem_cons_of_mem _ hpiece, hmem⟩

/-- Splitting commutes with a change of characters that neither makes nor removes separators. -/
theorem splitChars_map {f : Char → Char} (hf : ∀ c, f c = sep ↔ c = sep) (cs : List Char) :
    splitChars sep (cs.map f) = (splitChars sep cs).map (List.map f) := by
  induction cs with
  | nil => rfl
  | cons c rest ih =>
      rw [List.map_cons, splitChars, splitChars, ih]
      by_cases hc : c = sep
      · rw [if_pos hc, if_pos ((hf c).2 hc)]
        rfl
      · rw [if_neg hc, if_neg fun heq => hc ((hf c).1 heq)]
        cases splitChars sep rest with
        | nil => rfl
        | cons piece pieces => rfl

/-! ## Trimming -/

theorem trimBoth_of_forall {drop : Char → Bool} {s : String} (h : ∀ c ∈ s.toList, drop c = false) :
    trimBoth drop s = s := by
  have hkeep : ∀ cs : List Char, (∀ c ∈ cs, drop c = false) → cs.dropWhile drop = cs := by
    intro cs hcs
    cases cs with
    | nil => rfl
    | cons c rest => rw [List.dropWhile_cons_of_neg (by rw [hcs c List.mem_cons_self]; nofun)]
  have hstart : trimStart drop s = s := by
    rw [trimStart, hkeep _ h, String.ofList_toList]
  have hend : trimEnd drop s = s := by
    rw [trimEnd, hkeep _ fun c hc => h c (List.mem_reverse.1 hc), List.reverse_reverse,
      String.ofList_toList]
  rw [trimBoth, hstart, hend]

theorem trim_of_forall {s : String} (h : ∀ c ∈ s.toList, CharClass.isWhiteSpace c = false) :
    trim s = s :=
  trimBoth_of_forall h

end Text

/-! ## Characters of identifiers -/

namespace CharClass

/-- A character of an identifier is no white space. -/
theorem isWhiteSpace_of_isIdentifierRest {c : Char} (h : isIdentifierRest c = true) :
    isWhiteSpace c = false := by
  rw [← Bool.not_eq_true]
  intro hwhite
  simp only [isWhiteSpace, Span.anyHolds, whiteSpaceSpans, List.any_cons, List.any_nil, Span.holds,
    Bool.or_eq_true, Bool.and_eq_true, decide_eq_true_eq, Bool.false_eq_true, or_false] at hwhite
  have hnone : isIdentifierRest c = false := by
    rw [← Char.ofNat_toNat c]
    generalize c.toNat = n at hwhite
    rcases hwhite with hw | hw | hw | hw | hw | hw | hw | hw | hw | hw <;>
      obtain ⟨⟨hlow, hhigh⟩, -⟩ := hw <;> interval_cases n <;> decide +kernel
  rw [hnone] at h
  cases h

theorem isIdentifierRest_of_start {c : Char} (h : isIdentifierStart c = true) :
    isIdentifierRest c = true := by
  simp only [isIdentifierStart, isIdentifierRest, isAlphanumeric, Bool.or_eq_true] at h ⊢
  exact h.imp Or.inl id

/-- Capitals and their small letters may stand at the same places of identifiers. -/
theorem isIdentifier_toLower (c : Char) :
    isIdentifierStart c.toLower = isIdentifierStart c ∧ isIdentifierRest c.toLower = isIdentifierRest c := by
  by_cases hcapital : 65 ≤ c.toNat ∧ c.toNat ≤ 90
  · obtain ⟨hlow, hhigh⟩ := hcapital
    rw [← Char.ofNat_toNat c]
    generalize c.toNat = n at hlow hhigh
    interval_cases n <;> decide
  · have hsame : c.toLower = c := by
      unfold Char.toLower
      exact dif_neg hcapital
    rw [hsame]
    exact ⟨rfl, rfl⟩

end CharClass

namespace Text

theorem isIdentifierRest_of_mem {s : String} (hs : isIdentifier s = true) {c : Char}
    (hc : c ∈ s.toList) : CharClass.isIdentifierRest c = true := by
  unfold isIdentifier at hs
  cases hchars : s.toList with
  | nil =>
      rw [hchars] at hc
      cases hc
  | cons first rest =>
      rw [hchars] at hs hc
      obtain ⟨hfirst, hrest⟩ := (Bool.and_eq_true _ _).mp hs
      rcases List.mem_cons.1 hc with rfl | hc
      · exact CharClass.isIdentifierRest_of_start hfirst
      · exact List.all_eq_true.1 hrest c hc

theorem isIdentifier_asciiLower (s : String) : isIdentifier (asciiLower s) = isIdentifier s := by
  unfold isIdentifier asciiLower
  rw [String.toList_ofList]
  cases s.toList with
  | nil => rfl
  | cons c rest =>
      have hrest : (rest.map Char.toLower).all CharClass.isIdentifierRest =
          rest.all CharClass.isIdentifierRest := by
        rw [List.all_map]
        exact congrArg (List.all rest) (funext fun d => (CharClass.isIdentifier_toLower d).2)
      rw [List.map_cons]
      dsimp only
      rw [(CharClass.isIdentifier_toLower c).1, hrest]

/-! ## Paths -/

theorem asciiLower_append (a b : String) : asciiLower (a ++ b) = asciiLower a ++ asciiLower b := by
  unfold asciiLower
  rw [String.toList_append, List.map_append, String.ofList_append]

theorem asciiLower_join (pieces : List String) : asciiLower (join "." pieces) = join "." (pieces.map asciiLower) := by
  induction pieces with
  | nil => rfl
  | cons piece pieces ih =>
      cases pieces with
      | nil => rfl
      | cons next later =>
          rw [List.map_cons, join_cons "." piece (List.cons_ne_nil next later), asciiLower_append,
            asciiLower_append, ih, join_cons "." (asciiLower piece) (by simp)]
          rfl

theorem ne_empty_of_isIdentifier {s : String} (h : isIdentifier s = true) : s ≠ "" := by
  rintro rfl
  cases h

/-- There is no point in an identifier. -/
theorem not_mem_of_isIdentifier {s : String} (h : isIdentifier s = true) : '.' ∉ s.toList :=
  fun hmem => absurd (isIdentifierRest_of_mem h hmem) (by decide)

/-- Identifiers with points between them are split again. -/
theorem splitOn_join_identifiers {names : List String} (hsome : names ≠ [])
    (hnames : ∀ name ∈ names, isIdentifier name = true) : splitOn '.' (join "." names) = names :=
  splitOn_join hsome fun name hname => not_mem_of_isIdentifier (hnames name hname)

theorem isIdentifier_map {names : List String} (hnames : ∀ name ∈ names, isIdentifier name = true) :
    ∀ name ∈ names.map asciiLower, isIdentifier name = true := by
  intro name hname
  obtain ⟨original, horiginal, rfl⟩ := List.mem_map.mp hname
  rw [isIdentifier_asciiLower]
  exact hnames original horiginal

end Text

end ResourceQuery
