import ResourceQuery.Expr.Printer
import ResourceQuery.Expr.Token
import Mathlib.Tactic.IntervalCases

set_option autoImplicit false

/-! # How tokens are spelled

Scanning a text that was written piece by piece gives the tokens of the pieces, one after another. What
has to be shown for each piece is that it ends where it was meant to end: that the characters behind it
do not continue it. In texts of expressions only few characters stand behind a name, a number or a
text in quotes (`EndsToken`), and none of them does.

`Token.Lexes cs tokens` is scanning without offsets and without a bound on the steps, and
`Token.Spells cs tokens` says that `cs` is such a piece: before any rest that ends a token, it scans to
`tokens` and leaves the rest. The pieces of the grammar follow: marks, words, numbers, texts in quotes.
-/

namespace ResourceQuery

/-! ## Runs of characters -/

namespace Text

variable {p : Char → Bool} {run rest : List Char}

theorem takeWhile_append_stop (hrun : ∀ c ∈ run, p c = true) (hrest : ∀ c ∈ rest.head?, p c = false) :
    (run ++ rest).takeWhile p = run := by
  rw [List.takeWhile_append_of_pos hrun]
  cases rest with
  | nil => simp
  | cons c more => simp [hrest c rfl]

theorem dropWhile_append_stop (hrun : ∀ c ∈ run, p c = true) (hrest : ∀ c ∈ rest.head?, p c = false) :
    (run ++ rest).dropWhile p = rest := by
  rw [List.dropWhile_append_of_pos hrun]
  cases rest with
  | nil => rfl
  | cons c more => simp [hrest c rfl]

end Text

namespace CharClass

theorem digit_mem {c : Char} (h : c.isDigit = true) :
    c ∈ ['0', '1', '2', '3', '4', '5', '6', '7', '8', '9'] := by
  simp only [Char.isDigit, Bool.and_eq_true, decide_eq_true_eq, UInt32.le_iff_toNat_le] at h
  obtain ⟨hlow, hhigh⟩ := h
  have hlow : 48 ≤ c.toNat := hlow
  have hhigh : c.toNat ≤ 57 := hhigh
  rw [← Char.ofNat_toNat c]
  generalize c.toNat = n at hlow hhigh
  interval_cases n <;> decide

/-- What holds for each of the ten digits holds for any digit. -/
theorem of_isDigit {p : Char → Prop} [DecidablePred p]
    (hp : ['0', '1', '2', '3', '4', '5', '6', '7', '8', '9'].all (fun d => decide (p d)) = true)
    {c : Char} (hc : c.isDigit = true) : p c :=
  of_decide_eq_true (List.all_eq_true.1 hp c (digit_mem hc))

/-- An identifier does not start with a digit. -/
theorem identifierStart_not_digit {c : Char} (h : isIdentifierStart c = true) :
    c.isDigit = false := by
  rw [← Bool.not_eq_true]
  intro hdigit
  have hnone : isIdentifierStart c = false :=
    of_isDigit (p := fun d => isIdentifierStart d = false) (by decide) hdigit
  rw [hnone] at h
  cases h

end CharClass

/-! ## Digits -/

namespace Decimal

theorem toList_naturalText (n : Nat) : (naturalText n).toList = Nat.toDigits 10 n := by
  simp [naturalText]

theorem toDigits_ne_nil (n : Nat) : Nat.toDigits 10 n ≠ [] := by
  intro h
  have hlength := Nat.length_toDigits_pos (b := 10) (n := n)
  rw [h] at hlength
  cases hlength

theorem all_isDigit_toDigits (n : Nat) : ∀ c ∈ Nat.toDigits 10 n, c.isDigit = true :=
  fun _ hc => Nat.isDigit_of_mem_toDigits (by decide) (by decide) hc

theorem valueFrom_toDigits (n : Nat) : valueFrom 0 (Nat.toDigits 10 n) = n :=
  Nat.ofDigitChars_ten_toDigits

theorem natural?_toDigits (n : Nat) : natural? (Nat.toDigits 10 n) = some n := by
  have hne : (Nat.toDigits 10 n).isEmpty = false := by
    rw [List.isEmpty_eq_false_iff]
    exact toDigits_ne_nil n
  have hall : (Nat.toDigits 10 n).all Char.isDigit = true := by
    rw [List.all_eq_true]
    exact all_isDigit_toDigits n
  simp [natural?, hne, hall, valueFrom_toDigits]

/-- Different numbers have different texts. -/
theorem naturalText_injective {m n : Nat} (h : naturalText m = naturalText n) : m = n := by
  have hdigits : Nat.toDigits 10 m = Nat.toDigits 10 n := by
    rw [← toList_naturalText, ← toList_naturalText, h]
  rw [← valueFrom_toDigits m, ← valueFrom_toDigits n, hdigits]

/-- Digits before something that is no digit are split off whole. -/
theorem spanDigits_append {ds rest : List Char} (hds : ∀ c ∈ ds, c.isDigit = true)
    (hrest : ∀ c ∈ rest.head?, c.isDigit = false) : spanDigits (ds ++ rest) = (ds, rest) := by
  rw [spanDigits, Text.takeWhile_append_stop hds hrest, Text.dropWhile_append_stop hds hrest]

theorem valueFrom_append (start : Nat) (first last : List Char) :
    valueFrom start (first ++ last) = valueFrom (valueFrom start first) last :=
  List.foldl_append

/-- Zeros behind digits multiply by powers of ten. -/
theorem valueFrom_replicate_zero (start count : Nat) :
    valueFrom start (List.replicate count '0') = start * 10 ^ count := by
  induction count generalizing start with
  | zero => simp [valueFrom]
  | succ count ih =>
      have hstep : valueFrom start (List.replicate (count + 1) '0') =
          valueFrom (10 * start) (List.replicate count '0') := rfl
      rw [hstep, ih, Nat.pow_succ, Nat.mul_comm 10 start, Nat.mul_assoc, Nat.mul_comm 10]

/-- Positional notation is digits, or digits, a point and digits. All the digits together are the number
in units of the last of them. -/
theorem positional_spec (digits : Nat) (exponent : Int) :
    ∃ whole fraction, whole ≠ [] ∧ (∀ c ∈ whole, c.isDigit = true) ∧
      (∀ c ∈ fraction, c.isDigit = true) ∧
      ((positional digits exponent).toList = whole ∧ fraction = [] ∨
        (positional digits exponent).toList = whole ++ '.' :: fraction ∧ fraction ≠ []) ∧
      0 ≤ exponent + fraction.length ∧
      valueFrom 0 (whole ++ fraction) = digits * 10 ^ (exponent + fraction.length).toNat := by
  have hdigits := all_isDigit_toDigits digits
  have hvalue := valueFrom_toDigits digits
  have hne := toDigits_ne_nil digits
  have hlength : 0 < (Nat.toDigits 10 digits).length := List.length_pos_iff.2 hne
  have hzeros : ∀ n, ∀ c ∈ List.replicate n '0', c.isDigit = true := by
    intro n c hc
    rw [List.eq_of_mem_replicate hc]
    decide
  unfold positional
  dsimp only
  split
  · -- no digit stands behind the point
    rename_i hexponent
    refine ⟨Nat.toDigits 10 digits ++ List.replicate exponent.toNat '0', [], ?_, ?_, ?_, .inl ?_, ?_, ?_⟩
    · simp [hne]
    · exact List.forall_mem_append.2 ⟨hdigits, hzeros _⟩
    · simp
    · simp
    · simpa using hexponent
    · rw [List.append_nil, valueFrom_append, hvalue, valueFrom_replicate_zero]
      simp
  · rename_i hnegative
    split
    · -- the point stands between the digits
      rename_i hpoint
      have hdrop : exponent + ((Nat.toDigits 10 digits).drop
          ((Nat.toDigits 10 digits).length + exponent).toNat).length = 0 := by
        rw [List.length_drop]
        omega
      refine ⟨_, _, ?_, fun c hc => hdigits c (List.mem_of_mem_take hc),
        fun c hc => hdigits c (List.mem_of_mem_drop hc), .inr ⟨String.toList_ofList, ?_⟩, ?_, ?_⟩
      · rw [ne_eq, List.take_eq_nil_iff]
        rintro (hzero | hnil)
        · omega
        · exact hne hnil
      · rw [ne_eq, List.drop_eq_nil_iff]
        omega
      · exact Int.le_of_eq hdrop.symm
      · rw [hdrop, List.take_append_drop, hvalue]
        simp
    · -- the point stands before the digits
      have hall : exponent + (List.replicate (-((Nat.toDigits 10 digits).length + exponent)).toNat '0' ++
          Nat.toDigits 10 digits).length = 0 := by
        rw [List.length_append, List.length_replicate]
        omega
      refine ⟨['0'], _, by simp, hzeros 1, ?_, .inr ⟨String.toList_ofList, ?_⟩, ?_, ?_⟩
      · exact List.forall_mem_append.2 ⟨hzeros _, hdigits⟩
      · simp [hne]
      · exact Int.le_of_eq hall.symm
      · have hlead : valueFrom 0 ['0'] = 0 := rfl
        rw [hall, valueFrom_append, hlead, valueFrom_append, valueFrom_replicate_zero, Nat.zero_mul, hvalue]
        simp

theorem spanDigits_length {cs digits after : List Char} (h : spanDigits cs = (digits, after)) :
    after.length ≤ cs.length := by
  cases h
  exact (List.dropWhile_sublist _).length_le

end Decimal

namespace Token

/-! ## Scanning without offsets -/

/-- The characters scan to the tokens. -/
inductive Lexes : List Char → List Token → Prop where
  | nil : Lexes [] []
  | blank {c : Char} {rest : List Char} {tokens : List Token} (hc : isBlank c = true)
      (h : Lexes rest tokens) : Lexes (c :: rest) tokens
  | token {c : Char} {rest after : List Char} {token : Token} (bytes : Nat) {tokens : List Token}
      (hc : isBlank c = false) (hnext : next c rest = .ok (token, bytes, after))
      (h : Lexes after tokens) : Lexes (c :: rest) (token :: tokens)

theorem quoted?_length {cs content after : List Char} (h : quoted? cs = some (content, after)) :
    after.length ≤ cs.length := by
  fun_induction quoted? cs generalizing content with
  | case1 => cases h
  | case2 rest ih =>
      rw [Option.map_eq_some_iff] at h
      obtain ⟨⟨inner, left⟩, hinner, heq⟩ := h
      cases heq
      have hle := ih hinner
      simp only [List.length_cons]
      omega
  | case3 rest _ =>
      cases h
      simp
  | case4 c rest _ _ ih =>
      rw [Option.map_eq_some_iff] at h
      obtain ⟨⟨inner, left⟩, hinner, heq⟩ := h
      cases heq
      have hle := ih hinner
      simp only [List.length_cons]
      omega

theorem spanFraction_length (cs : List Char) : (spanFraction cs).2.length ≤ cs.length := by
  unfold spanFraction
  split
  · split
    · exact Nat.le_refl _
    · rename_i hspan
      exact Nat.le_succ_of_le (Decimal.spanDigits_length hspan)
  · exact Nat.le_refl _

theorem spanExponent_length (cs : List Char) : (spanExponent cs).2.length ≤ cs.length := by
  unfold spanExponent
  cases cs with
  | nil => exact Nat.le_refl _
  | cons e rest =>
      dsimp only
      split
      · split
        · exact Nat.le_refl _
        · rename_i digits after _ hspan
          refine Nat.le_succ_of_le (Nat.le_trans (Decimal.spanDigits_length hspan) ?_)
          -- what is left behind the sign
          split <;> simp
      · exact Nat.le_refl _

theorem number_length {c : Char} {rest after : List Char} {token : Token} {bytes : Nat}
    (hc : c.isDigit = true) (h : number (c :: rest) = .ok (token, bytes, after)) :
    after.length ≤ rest.length := by
  have hwhole : (Decimal.spanDigits (c :: rest)).2.length ≤ rest.length := by
    simp only [Decimal.spanDigits, List.dropWhile_cons, hc, if_true]
    exact (List.dropWhile_sublist _).length_le
  have hend : after =
      (spanExponent (spanFraction (Decimal.spanDigits (c :: rest)).2).2).2 := by
    unfold number at h
    dsimp only at h
    split at h
    · split at h
      · cases h
        rfl
      · cases h
    · cases h
      rfl
  have hfraction := spanFraction_length (Decimal.spanDigits (c :: rest)).2
  have hexponent := spanExponent_length (spanFraction (Decimal.spanDigits (c :: rest)).2).2
  rw [hend]
  omega

/-- A token takes at least one character. -/
theorem next_length {c : Char} {rest after : List Char} {token : Token} {bytes : Nat}
    (h : next c rest = .ok (token, bytes, after)) : after.length ≤ rest.length := by
  unfold next at h
  split at h
  · cases h
    exact Nat.le_refl _
  · split at h
    · split at h
      · rename_i content left hquoted
        cases h
        exact quoted?_length hquoted
      · cases h
    · split at h
      · rename_i hdigit
        cases hnumber : number (c :: rest) with
        | error fault =>
            rw [hnumber] at h
            cases h
        | ok read =>
            rw [hnumber] at h
            cases h
            exact number_length hdigit hnumber
      · split at h
        · -- a word, or a timestamp if a quote follows it
          have hword : (rest.dropWhile CharClass.isIdentifierRest).length ≤ rest.length :=
            (List.dropWhile_sublist _).length_le
          dsimp only at h
          split at h
          · rename_i more _ hquote
            rw [hquote] at hword
            split at h
            · cases h
            · rename_i content left hquoted
              have hle := quoted?_length hquoted
              simp only [List.length_cons] at hword
              split at h
              · cases h
                omega
              · cases h
          · cases h
            exact hword
        · cases h

/-- Scanning finds the tokens, wherever the characters stand, if it may take enough steps. -/
theorem scanFrom_of_lexes {cs : List Char} {tokens : List Token} (h : Lexes cs tokens) :
    ∀ fuel offset, cs.length ≤ fuel →
      ∃ lexemes, scanFrom fuel offset cs = .ok lexemes ∧ lexemes.map Lexeme.token = tokens := by
  induction h with
  | nil =>
      intro fuel offset _
      refine ⟨[], ?_, rfl⟩
      -- nothing is left to scan, with or without steps
      cases fuel <;> rfl
  | blank hc _ ih =>
      intro fuel offset hfuel
      simp only [List.length_cons] at hfuel
      obtain ⟨fuel, rfl⟩ : ∃ n, fuel = n + 1 := ⟨fuel - 1, by omega⟩
      obtain ⟨lexemes, hscan, htokens⟩ := ih fuel (offset + 1) (by omega)
      refine ⟨lexemes, ?_, htokens⟩
      simp only [scanFrom, hc, if_true]
      exact hscan
  | @token c rest after token bytes tokens hc hnext _ ih =>
      intro fuel offset hfuel
      simp only [List.length_cons] at hfuel
      -- the steps last, as a token takes a character at least
      have hle := next_length hnext
      obtain ⟨fuel, rfl⟩ : ∃ n, fuel = n + 1 := ⟨fuel - 1, by omega⟩
      obtain ⟨lexemes, hscan, htokens⟩ := ih fuel (offset + bytes) (by omega)
      refine ⟨⟨token, offset⟩ :: lexemes, ?_, by rw [List.map_cons, htokens]⟩
      rw [scanFrom, if_neg (by rw [hc]; decide), hnext]
      simp only [hscan]
      rfl

theorem scan_of_lexes {text : String} {tokens : List Token} (h : Lexes text.toList tokens) :
    ∃ lexemes, scan text = .ok lexemes ∧ lexemes.map Lexeme.token = tokens :=
  scanFrom_of_lexes h _ _ (Nat.le_refl _)

/-! ## Pieces -/

/-- The rest ends whatever token stands before it: it is empty, or starts with a blank or a mark, where
no digit follows a point. -/
inductive EndsToken : List Char → Prop where
  | nil : EndsToken []
  | mark {c : Char} (hc : c ∈ [' ', ')', ',', ':', '(']) (rest : List Char) : EndsToken (c :: rest)
  | dot {c : Char} (hc : c.isDigit = false) (rest : List Char) : EndsToken ('.' :: c :: rest)

/-- Before a rest that ends a token, the characters scan to the tokens. -/
def Spells (cs : List Char) (tokens : List Token) : Prop :=
  ∀ rest more, EndsToken rest → Lexes rest more → Lexes (cs ++ rest) (tokens ++ more)

/-- Two pieces, where the second one ends the last token of the first. -/
theorem Spells.append {cs ds : List Char} {ts us : List Token} (hcs : Spells cs ts)
    (hds : Spells ds us) (hends : ∀ rest, EndsToken rest → EndsToken (ds ++ rest)) :
    Spells (cs ++ ds) (ts ++ us) := by
  intro rest more hrest hmore
  rw [List.append_assoc, List.append_assoc]
  exact hcs _ _ (hends rest hrest) (hds rest more hrest hmore)

/-- A mark ends itself. -/
theorem Lexes.mark {rest : List Char} {more : List Token} (h : Lexes rest more) (m : Mark) :
    Lexes (m.char :: rest) (.mark m :: more) := by
  refine Lexes.token 1 ?_ ?_ h
  · cases m <;> decide
  · cases m <;> rfl

/-- A piece behind a mark. -/
theorem Spells.mark {cs : List Char} {ts : List Token} (h : Spells cs ts) (m : Mark) :
    Spells (m.char :: cs) (.mark m :: ts) :=
  fun rest more hrest hmore => (h rest more hrest hmore).mark m

/-- A piece behind a blank. -/
theorem Spells.blank {cs : List Char} {ts : List Token} (h : Spells cs ts) :
    Spells (' ' :: cs) ts :=
  fun rest more hrest hmore => .blank (by decide) (h rest more hrest hmore)

theorem spells_nil : Spells [] [] :=
  fun _ _ _ hmore => hmore

theorem Mark.ofChar?_eq_none {c : Char} (h : ∀ m : Mark, m.char ≠ c) : Mark.ofChar? c = none := by
  rw [Mark.ofChar?, List.find?_eq_none]
  intro m _
  simpa using h m

namespace EndsToken

variable {rest : List Char}

/-- What can stand first in such a rest. -/
theorem head_mem (h : EndsToken rest) : ∀ c ∈ rest.head?, c ∈ [' ', ')', ',', ':', '(', '.'] := by
  intro c hc
  cases h with
  | nil => cases hc
  | mark hmark _ =>
      cases hc
      exact List.mem_append_left ['.'] hmark
  | dot _ _ =>
      cases hc
      decide

/-- What holds for the blank and the marks that can stand first holds for the first character. -/
theorem head_of {p : Char → Prop} [DecidablePred p]
    (hp : [' ', ')', ',', ':', '(', '.'].all (fun c => decide (p c)) = true) (h : EndsToken rest) :
    ∀ c ∈ rest.head?, p c :=
  fun c hc => of_decide_eq_true (List.all_eq_true.1 hp c (h.head_mem c hc))

theorem head_not_digit (h : EndsToken rest) : ∀ c ∈ rest.head?, c.isDigit = false :=
  h.head_of (by decide)

theorem head_not_letter (h : EndsToken rest) :
    ∀ c ∈ rest.head?, CharClass.isIdentifierRest c = false :=
  h.head_of (by decide)

theorem head_ne_quote (h : EndsToken rest) : ∀ c ∈ rest.head?, c ≠ '\'' :=
  h.head_of (by decide)

theorem head_ne_e (h : EndsToken rest) : ∀ c ∈ rest.head?, ¬(c = 'e' ∨ c = 'E') :=
  h.head_of (by decide)

/-- Such a rest does not go on with a fraction. -/
theorem spanFraction_eq (h : EndsToken rest) : spanFraction rest = ([], rest) := by
  cases h with
  | nil => rfl
  | @mark c hmark rest =>
      have hdot : c ≠ '.' := by
        rintro rfl
        exact absurd hmark (by decide)
      unfold spanFraction
      split
      · rename_i heq
        cases heq
        exact absurd rfl hdot
      · rfl
  | dot hdigit rest => simp [spanFraction, Decimal.spanDigits, hdigit]

/-- Such a rest does not go on with an exponent. -/
theorem spanExponent_eq (h : EndsToken rest) : spanExponent rest = ([], rest) := by
  cases rest with
  | nil => rfl
  | cons c more =>
      unfold spanExponent
      dsimp only
      rw [if_neg (h.head_ne_e c rfl)]

end EndsToken

/-! ## Words -/

/-- A token that starts with a letter is a word, or a timestamp if a quote follows. -/
theorem next_letter {c : Char} (hstart : CharClass.isIdentifierStart c = true) (cs : List Char) :
    next c cs =
      match Text.sameIgnoringCase (String.ofList (c :: cs.takeWhile CharClass.isIdentifierRest))
          "datetime", cs.dropWhile CharClass.isIdentifierRest with
      | true, '\'' :: more =>
        match quoted? more with
        | none =>
          .error (.unterminatedString,
            Text.byteLength (c :: cs.takeWhile CharClass.isIdentifierRest))
        | some (content, after) =>
          match Timestamp.parse? (String.ofList content) with
          | some t =>
            .ok (.dateTime t, Text.byteLength (c :: cs.takeWhile CharClass.isIdentifierRest) +
              quotedWidth content, after)
          | none => .error (.dateTime (String.ofList content), 0)
      | _, after =>
        .ok (.word (String.ofList (c :: cs.takeWhile CharClass.isIdentifierRest)),
          Text.byteLength (c :: cs.takeWhile CharClass.isIdentifierRest), after) := by
  -- none of the cases before words applies to a letter
  have hmark : Mark.ofChar? c = none := by
    refine Mark.ofChar?_eq_none fun m heq => ?_
    subst heq
    cases m <;> exact absurd hstart (by decide)
  have hquote : c ≠ '\'' := by
    rintro rfl
    exact absurd hstart (by decide)
  have hdigit := CharClass.identifierStart_not_digit hstart
  unfold next
  rw [hmark]
  dsimp only
  rw [if_neg hquote, if_neg (by rw [hdigit]; decide)]
  exact if_pos hstart

theorem isBlank_letter {c : Char} (h : CharClass.isIdentifierStart c = true) :
    isBlank c = false := by
  rw [← Bool.not_eq_true]
  intro hblank
  simp only [isBlank, Bool.or_eq_true, beq_iff_eq] at hblank
  rcases hblank with ((rfl | rfl) | rfl) | rfl <;> exact absurd h (by decide)

/-- A word is an identifier; it is not read as a timestamp, because no quote follows. -/
theorem spells_word {w : String} (h : Text.isIdentifier w = true) : Spells w.toList [.word w] := by
  intro rest more hrest hmore
  unfold Text.isIdentifier at h
  cases hw : w.toList with
  | nil =>
      rw [hw] at h
      cases h
  | cons c letters =>
      rw [hw, Bool.and_eq_true, List.all_eq_true] at h
      obtain ⟨hstart, hletters⟩ := h
      have htext : String.ofList (c :: letters) = w := by rw [← hw, String.ofList_toList]
      rw [List.cons_append, List.singleton_append]
      refine Lexes.token (Text.byteLength (c :: letters)) (isBlank_letter hstart) ?_ hmore
      rw [next_letter hstart, Text.takeWhile_append_stop hletters hrest.head_not_letter,
        Text.dropWhile_append_stop hletters hrest.head_not_letter, htext]
      split
      · exact absurd rfl (hrest.head_ne_quote '\'' rfl)
      · rfl

/-! ## Texts in quotes -/

/-- A content as it stands between quotes. -/
def escaped (content : List Char) : List Char :=
  content.flatMap fun c => if c = '\'' then ['\'', '\''] else [c]

theorem quoted?_escaped (content : List Char) {rest : List Char}
    (hrest : ∀ c ∈ rest.head?, c ≠ '\'') :
    quoted? (escaped content ++ '\'' :: rest) = some (content, rest) := by
  induction content with
  | nil =>
      cases rest with
      | nil => rfl
      | cons c more =>
          -- a second quote would continue the text
          have hc : c ≠ '\'' := hrest c rfl
          simp [escaped, quoted?, hc]
  | cons c content ih =>
      by_cases hc : c = '\''
      · subst hc
        have hstep : escaped ('\'' :: content) = '\'' :: '\'' :: escaped content := rfl
        rw [hstep, List.cons_append, List.cons_append, quoted?, ih]
        rfl
      · have hstep : escaped (c :: content) = c :: escaped content := by
          simp [escaped, hc]
        rw [hstep, List.cons_append, quoted?, ih, if_neg hc]
        · rfl
        · intro _ heq
          exact absurd heq hc

theorem toList_quoted (s : String) :
    (Literal.quoted s).toList = '\'' :: (escaped s.toList ++ ['\'']) := by
  simp [Literal.quoted, escaped]

/-- A text in quotes is read back, whatever it contains. -/
theorem spells_quoted (s : String) : Spells (Literal.quoted s).toList [.string s] := by
  intro rest more hrest hmore
  rw [toList_quoted, List.cons_append, List.append_assoc, List.singleton_append]
  refine Lexes.token (quotedWidth s.toList) (by decide) ?_ hmore
  unfold next
  rw [show Mark.ofChar? '\'' = none from rfl]
  dsimp only
  rw [if_pos rfl, quoted?_escaped _ hrest.head_ne_quote]
  simp

/-- A timestamp in quotes behind its word. -/
theorem spells_dateTime {s : String} {t : Timestamp} (h : Timestamp.parse? s = some t) :
    Spells ("datetime" ++ Literal.quoted s).toList [.dateTime t] := by
  intro rest more hrest hmore
  have hword : "datetime".toList = 'd' :: ['a', 't', 'e', 't', 'i', 'm', 'e'] := by decide
  have hletters : ∀ d ∈ ['a', 't', 'e', 't', 'i', 'm', 'e'],
      CharClass.isIdentifierRest d = true := List.all_eq_true.1 (by decide)
  have hquote : ∀ d ∈ ('\'' :: (escaped s.toList ++ '\'' :: rest)).head?,
      CharClass.isIdentifierRest d = false := by
    rintro _ ⟨⟩
    decide
  have htext : ("datetime" ++ Literal.quoted s).toList ++ rest =
      'd' :: (['a', 't', 'e', 't', 'i', 'm', 'e'] ++ '\'' :: (escaped s.toList ++ '\'' :: rest)) := by
    rw [String.toList_append, hword, toList_quoted]
    simp
  rw [htext, List.singleton_append]
  refine Lexes.token (8 + quotedWidth s.toList) (by decide) ?_ hmore
  rw [next_letter (by decide), Text.takeWhile_append_stop hletters hquote,
    Text.dropWhile_append_stop hletters hquote]
  rw [show Text.sameIgnoringCase _ "datetime" = true from by decide]
  simp only [quoted?_escaped _ hrest.head_ne_quote, String.ofList_toList, h]
  rfl

/-! ## Numbers -/

theorem Mark.ofChar?_digit {c : Char} (h : c.isDigit = true) : Mark.ofChar? c = none := by
  refine Mark.ofChar?_eq_none fun m heq => ?_
  subst heq
  cases m <;> exact absurd h (by decide)

theorem isBlank_digit {c : Char} (h : c.isDigit = true) : isBlank c = false :=
  CharClass.of_isDigit (p := fun d => isBlank d = false) (by decide) h

/-- A token that starts with a digit is a number. -/
theorem Lexes.number {c : Char} {cs after : List Char} {token : Token} (bytes : Nat)
    {more : List Token} (hc : c.isDigit = true)
    (hnumber : Token.number (c :: cs) = .ok (token, bytes, after)) (h : Lexes after more) :
    Lexes (c :: cs) (token :: more) := by
  refine Lexes.token bytes (isBlank_digit hc) ?_ h
  have hquote : c ≠ '\'' := by
    rintro rfl
    exact absurd hc (by decide)
  unfold next
  rw [Mark.ofChar?_digit hc]
  dsimp only
  rw [if_neg hquote, if_pos hc, hnumber]
  rfl

/-- The digits of a number below `2 ^ 64`. -/
theorem spells_natural {n : Nat} (h : n < Word.uint64Bound) :
    Spells (Nat.toDigits 10 n) [.int n] := by
  intro rest more hrest hmore
  obtain ⟨c, cs, hcs⟩ := List.exists_cons_of_ne_nil (Decimal.toDigits_ne_nil n)
  have hdigits := Decimal.all_isDigit_toDigits n
  have hc : c.isDigit = true := hdigits c (by rw [hcs]; exact List.mem_cons_self)
  have hspan := Decimal.spanDigits_append hdigits hrest.head_not_digit
  -- the digits have no sign and fit the bound
  have hvalue : Decimal.uint64? (String.ofList (Nat.toDigits 10 n)) = some (UInt64.ofNat n) := by
    have hplus : ∀ ds, c :: cs = '+' :: ds → False := by
      rintro _ ⟨⟩
      exact absurd hc (by decide)
    simp only [Decimal.uint64?, String.toList_ofList]
    rw [hcs]
    split
    · rename_i heq
      exact (hplus _ heq).elim
    · rw [← hcs, Decimal.natural?_toDigits]
      simp [Word.uint64?, h]
  rw [hcs] at hspan hvalue ⊢
  rw [List.cons_append, List.singleton_append] at *
  refine Lexes.number (Text.byteLength (c :: cs)) hc ?_ hmore
  -- neither a fraction nor an exponent follows
  unfold Token.number
  rw [hspan]
  dsimp only
  rw [hrest.spanFraction_eq]
  dsimp only
  rw [hrest.spanExponent_eq]
  simp only [List.append_nil, List.isEmpty_nil, Bool.and_self, if_true, hvalue]
  rw [UInt64.toNat_ofNat_of_lt' h]

/-- Digits, a point and digits. -/
theorem spells_float {whole fraction : List Char} (hwhole : whole ≠ []) (hfraction : fraction ≠ [])
    (hwholeDigits : ∀ c ∈ whole, c.isDigit = true)
    (hfractionDigits : ∀ c ∈ fraction, c.isDigit = true) :
    Spells (whole ++ '.' :: fraction)
      [.float ((Decimal.float? (String.ofList (whole ++ '.' :: fraction))).getD 0)] := by
  intro rest more hrest hmore
  obtain ⟨c, cs, rfl⟩ := List.exists_cons_of_ne_nil hwhole
  -- the point ends the digits before it
  have hpoint : ∀ d ∈ ('.' :: (fraction ++ rest)).head?, d.isDigit = false := by
    rintro _ ⟨⟩
    decide
  have hspan := Decimal.spanDigits_append hwholeDigits hpoint
  have hspanFraction : spanFraction ('.' :: (fraction ++ rest)) = ('.' :: fraction, rest) := by
    obtain ⟨d, ds, rfl⟩ := List.exists_cons_of_ne_nil hfraction
    have hspan := Decimal.spanDigits_append hfractionDigits hrest.head_not_digit
    simp only [spanFraction, hspan]
  rw [List.append_assoc, List.cons_append, List.cons_append]
  refine Lexes.number (Text.byteLength (c :: cs ++ '.' :: fraction))
    (hwholeDigits c List.mem_cons_self) ?_ hmore
  unfold Token.number
  rw [← List.cons_append, hspan]
  dsimp only
  rw [hspanFraction]
  dsimp only
  rw [hrest.spanExponent_eq]
  simp

/-! ## Pieces behind pieces -/

variable {cs ds : List Char} {ts us : List Token}

/-- Two pieces with a mark between them. -/
theorem Spells.then_mark (hcs : Spells cs ts) (hds : Spells ds us) (m : Mark)
    (hm : m.char ∈ [' ', ')', ',', ':', '(']) :
    Spells (cs ++ m.char :: ds) (ts ++ .mark m :: us) :=
  hcs.append (hds.mark m) fun _ _ => .mark hm _

/-- Two pieces with a blank between them. -/
theorem Spells.then_blank (hcs : Spells cs ts) (hds : Spells ds us) :
    Spells (cs ++ ' ' :: ds) (ts ++ us) :=
  hcs.append hds.blank fun _ _ => .mark (by decide) _

/-- A piece with a point and a word behind it. -/
theorem Spells.then_member (hcs : Spells cs ts) {w : String} (hw : Text.isIdentifier w = true) :
    Spells (cs ++ '.' :: w.toList) (ts ++ [.mark .dot, .word w]) := by
  refine hcs.append ((spells_word hw).mark .dot) fun rest _ => ?_
  unfold Text.isIdentifier at hw
  cases hletters : w.toList with
  | nil =>
      rw [hletters] at hw
      cases hw
  | cons c letters =>
      rw [hletters, Bool.and_eq_true] at hw
      exact .dot (CharClass.identifierStart_not_digit hw.1) _

end Token

end ResourceQuery
