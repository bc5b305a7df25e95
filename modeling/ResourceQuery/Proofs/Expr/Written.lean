import ResourceQuery.Proofs.Expr.Spelling

set_option autoImplicit false

/-! # The tokens of a written expression

`Expr.tokens` follows `Expr.text` and gives tokens in place of characters. It has no failures: which
expressions have a text is a predicate of its own, `Expr.Printable`. The theorem of this module is
`text_spec`: a text that is written is one of a printable expression, and scanning it gives the tokens
of the expression.

Constants need an assumption here. That the text of a float and of a timestamp reads back is about
decimals and the calendar and not about expressions; `Literal.ReadsBack` says it of one constant.
-/

namespace ResourceQuery

open Token

/-! ## Constants -/

namespace Literal

/-- The text of a float without its sign, and whether it has one. -/
def unsigned (x : Float) : Bool × List Char :=
  match (Literal.float x).text.toList with
  | '-' :: rest => (true, rest)
  | cs => (false, cs)

/-- The tokens of a constant. -/
def tokens : Literal → List Token
  | .null => [.word "null"]
  | .bool b => [.word (if b then "true" else "false")]
  | .int n =>
    match n.toInt with
    | .ofNat m => [.int m]
    | .negSucc m => [.mark .minus, .int (m + 1)]
  | .float x =>
    let magnitude := Token.float ((Decimal.float? (String.ofList (unsigned x).2)).getD 0)
    if (unsigned x).1 then [.mark .minus, magnitude] else [magnitude]
  | .string s => [.string s]
  | .dateTime t => [.dateTime ((Timestamp.parse? t.format).getD t)]

/-- The text of the constant stands for the constant. For a float this says that it is finite and that
its digits read back as its magnitude; for a timestamp, that its text reads back as the same instant. -/
def ReadsBack : Literal → Prop
  | .float x =>
    x.isFinite = true ∧
      (∃ negative mantissa exponent, Binary64.ofFloat x = .finite negative mantissa exponent) ∧
      ∃ y, Decimal.float? (String.ofList (unsigned x).2) = some y ∧
        (x == if (unsigned x).1 then -y else y) = true
  | .dateTime t => ∃ u, Timestamp.parse? t.format = some u ∧ t.sameInstant u = true
  | _ => True

/-- Whether the constant is a number. -/
def isNumber : Literal → Bool
  | .int _ => true
  | .float _ => true
  | _ => false

/-- The digits of a number and the power of ten that they count, as its text has them. -/
def decimalOf (mantissa : Nat) (exponent : Int) : Nat × Int :=
  if mantissa = 0 then (0, 0) else Shortest.decimal .up mantissa exponent

/-- The text of a finite float is digits, a point and digits, perhaps behind a minus sign. All the digits
together are the number in units of the last of them. -/
theorem text_float_spec {x : Float} (hfinite : x.isFinite = true) {negative : Bool} {mantissa : Nat}
    {exponent : Int} (hx : Binary64.ofFloat x = .finite negative mantissa exponent) :
    ∃ whole fraction, whole ≠ [] ∧ fraction ≠ [] ∧ (∀ c ∈ whole, c.isDigit = true) ∧
      (∀ c ∈ fraction, c.isDigit = true) ∧
      (Literal.float x).text.toList =
        (if negative then ['-'] else []) ++ (whole ++ '.' :: fraction) ∧
      0 ≤ (decimalOf mantissa exponent).2 + fraction.length ∧
      Decimal.valueFrom 0 (whole ++ fraction) = (decimalOf mantissa exponent).1 *
        10 ^ ((decimalOf mantissa exponent).2 + fraction.length).toNat := by
  have hzero : ∀ c ∈ ['0'], c.isDigit = true := List.all_eq_true.1 (by decide)
  -- the digits of the float, before a point is put behind those of a whole number
  have hshape : ∃ whole fraction digits, whole ≠ [] ∧ (∀ c ∈ whole, c.isDigit = true) ∧
      (∀ c ∈ fraction, c.isDigit = true) ∧
      (Decimal.floatText x).toList = (if negative then ['-'] else []) ++ digits ∧
      (digits = whole ∧ fraction = [] ∨ digits = whole ++ '.' :: fraction ∧ fraction ≠ []) ∧
      0 ≤ (decimalOf mantissa exponent).2 + fraction.length ∧
      Decimal.valueFrom 0 (whole ++ fraction) = (decimalOf mantissa exponent).1 *
        10 ^ ((decimalOf mantissa exponent).2 + fraction.length).toNat := by
    have hsign : (if negative then "-" else "").toList = if negative then ['-'] else [] := by
      cases negative <;> rfl
    unfold Decimal.floatText decimalOf
    rw [hx]
    dsimp only
    by_cases hmantissa : mantissa = 0
    · rw [if_pos hmantissa, if_pos hmantissa]
      refine ⟨['0'], [], ['0'], by simp, hzero, by simp, ?_, .inl ⟨rfl, rfl⟩, by decide, by decide⟩
      rw [String.toList_append, hsign]
      rfl
    · rw [if_neg hmantissa, if_neg hmantissa]
      obtain ⟨whole, fraction, hne, hwhole, hfraction, hcases, hvalue⟩ :=
        Decimal.positional_spec (Shortest.decimal .up mantissa exponent).1
          (Shortest.decimal .up mantissa exponent).2
      refine ⟨whole, fraction, _, hne, hwhole, hfraction, ?_, hcases, hvalue⟩
      rw [String.toList_append, hsign]
  obtain ⟨whole, fraction, digits, hne, hwhole, hfraction, htext, hcases, hpower, hvalue⟩ := hshape
  have hwholePoint : '.' ∉ whole := by
    intro hmem
    exact absurd (hwhole '.' hmem) (by decide)
  have hsignPoint : '.' ∉ (if negative then ['-'] else []) := by
    cases negative <;> simp
  simp only [Literal.text, hfinite, if_true]
  rcases hcases with ⟨hdigits, hnoFraction⟩ | ⟨hdigits, hfractionNe⟩
  · have hmore : (decimalOf mantissa exponent).2 + (1 : Nat) =
        ((decimalOf mantissa exponent).2.toNat + 1 : Nat) := by
      rw [hnoFraction] at hpower
      simp only [List.length_nil] at hpower
      omega
    refine ⟨whole, ['0'], hne, by simp, hwhole, hzero, ?_, ?_, ?_⟩
    · have hnone : (Decimal.floatText x).toList.contains '.' = false := by
        rw [htext, hdigits, ← Bool.not_eq_true, List.contains_iff_mem, List.mem_append]
        rintro (h | h)
        · exact hsignPoint h
        · exact hwholePoint h
      rw [if_neg (by rw [hnone]; decide), String.toList_append, htext, hdigits, List.append_assoc]
      rfl
    · rw [List.length_singleton, hmore]
      exact Int.natCast_nonneg _
    · have hwholeValue : Decimal.valueFrom 0 whole =
          (decimalOf mantissa exponent).1 * 10 ^ (decimalOf mantissa exponent).2.toNat := by
        rw [hnoFraction, List.append_nil] at hvalue
        simpa using hvalue
      have hlast : Decimal.valueFrom (Decimal.valueFrom 0 whole) ['0'] =
          10 * Decimal.valueFrom 0 whole := rfl
      rw [Decimal.valueFrom_append, hlast, hwholeValue, List.length_singleton, hmore, Int.toNat_natCast,
        Nat.pow_succ, Nat.mul_left_comm, Nat.mul_comm 10]
  · refine ⟨whole, fraction, hne, hfractionNe, hwhole, hfraction, ?_, hpower, hvalue⟩
    have hsome : (Decimal.floatText x).toList.contains '.' = true := by
      rw [htext, hdigits, List.contains_iff_mem]
      simp
    rw [if_pos hsome, htext, hdigits]

theorem spells_int (n : Int64) : Spells (Literal.int n).text.toList (Literal.int n).tokens := by
  have hlow : -Word.int64Bound ≤ n.toInt := Int64.le_toInt n
  have hhigh : n.toInt < Word.int64Bound := Int64.toInt_lt n
  have hbound : Word.int64Bound = 9223372036854775808 := rfl
  simp only [Literal.text, tokens]
  cases hn : n.toInt with
  | ofNat m =>
      simp only [Decimal.intText]
      rw [Decimal.toList_naturalText]
      refine spells_natural ?_
      rw [hn, hbound, Int.ofNat_eq_natCast] at hhigh
      simp only [Word.uint64Bound]
      omega
  | negSucc m =>
      simp only [Decimal.intText]
      rw [String.toList_append, Decimal.toList_naturalText]
      refine Spells.mark (spells_natural ?_) .minus
      rw [hn, hbound] at hlow
      simp only [Word.uint64Bound]
      omega

/-- The sign is split off, as a digit comes first behind it. -/
theorem unsigned_eq {x : Float} {negative : Bool} {whole fraction : List Char} (hne : whole ≠ [])
    (hwhole : ∀ c ∈ whole, c.isDigit = true)
    (htext : (Literal.float x).text.toList =
      (if negative then ['-'] else []) ++ (whole ++ '.' :: fraction)) :
    unsigned x = (negative, whole ++ '.' :: fraction) := by
  cases negative with
  | true =>
      unfold unsigned
      rw [htext]
      rfl
  | false =>
      obtain ⟨c, cs, rfl⟩ := List.exists_cons_of_ne_nil hne
      have hc : c ≠ '-' := by
        rintro rfl
        exact absurd (hwhole '-' List.mem_cons_self) (by decide)
      unfold unsigned
      rw [htext]
      simp only [Bool.false_eq_true, if_false, List.nil_append, List.cons_append]
      split
      · rename_i heq
        cases heq
        exact absurd rfl hc
      · rfl

theorem spells_finite {x : Float} (h : (Literal.float x).ReadsBack) :
    Spells (Literal.float x).text.toList (Literal.float x).tokens := by
  obtain ⟨hfinite, ⟨negative, mantissa, exponent, hx⟩, -⟩ := h
  obtain ⟨whole, fraction, hne, hfractionNe, hwhole, hfraction, htext, -⟩ :=
    text_float_spec hfinite hx
  have hpiece := spells_float hne hfractionNe hwhole hfraction
  rw [tokens, unsigned_eq hne hwhole htext, htext]
  cases negative with
  | true => exact hpiece.mark .minus
  | false => exact hpiece

/-- Scanning the text of a constant gives its tokens. -/
theorem spells_text {l : Literal} (h : l.ReadsBack) : Spells l.text.toList l.tokens := by
  cases l with
  | null => exact spells_word (by decide)
  | bool b => cases b <;> exact spells_word (by decide)
  | int n => exact spells_int n
  | float x => exact spells_finite h
  | string s => exact spells_quoted s
  | dateTime t =>
      obtain ⟨u, hu, -⟩ := h
      simp only [Literal.text, tokens, hu, Option.getD_some]
      exact spells_dateTime hu

end Literal

/-! ## Expressions -/

/-- The token of a prefix operator. -/
def UnaryOp.token : UnaryOp → Token
  | .not => .word "not"
  | .negate => .mark .minus

namespace Expr

/-- `tokens`, in parentheses if `wrap`. -/
def wrappedTokens (wrap : Bool) (tokens : List Token) : List Token :=
  if wrap then .mark .leftParen :: (tokens ++ [.mark .rightParen]) else tokens

mutual

/-- The tokens of an expression about the row `root`. -/
def tokens (root : String) (shown : ShownNames) : Expr → List Token
  | .param x => [.word ((shown.lookup x).getD "this")]
  | .constant l => l.tokens
  | .member target name =>
    if isRow root shown target then
      if shown.hide name then [.word "this", .mark .dot, .word name] else [.word name]
    else
      wrappedTokens (wrapsTarget target) (tokens root shown target) ++ [.mark .dot, .word name]
  | .unary op operand =>
    op.token :: wrappedTokens (wrapsOperand op operand) (tokens root shown operand)
  | .binary op left right =>
    wrappedTokens (left.precedence?.any (· < op.precedence)) (tokens root shown left) ++
      .word op.keyword ::
        wrappedTokens (right.precedence?.any (· ≤ op.precedence)) (tokens root shown right)
  | .call f arguments =>
    .word f.name :: .mark .leftParen ::
      (argumentTokens root shown arguments ++ [.mark .rightParen])
  | .aggregate target a =>
    wrappedTokens (wrapsTarget target) (tokens root shown target) ++
      [.mark .dot, .word a.name, .mark .leftParen, .mark .rightParen]
  | .aggregateOf target a x body =>
    let name := ShownNames.atDepth shown.length
    wrappedTokens (wrapsTarget target) (tokens root shown target) ++
      .mark .dot :: .word a.name :: .mark .leftParen :: .word name :: .mark .colon ::
        (tokens root ((x, name) :: shown) body ++ [.mark .rightParen])
  | .row _ => []

/-- The tokens of arguments, with commas between them. -/
def argumentTokens (root : String) (shown : ShownNames) : List Expr → List Token
  | [] => []
  | e :: rest => tokens root shown e ++ laterTokens root shown rest

/-- The tokens of arguments, with a comma before each. -/
def laterTokens (root : String) (shown : ShownNames) : List Expr → List Token
  | [] => []
  | e :: rest => .mark .comma :: (tokens root shown e ++ laterTokens root shown rest)

end

mutual

/-- The grammar has a text for the expression: variables are bound, members are called by identifiers,
functions get as many arguments as they take, and no row is written out inside. -/
def Printable (root : String) (shown : ShownNames) : Expr → Prop
  | .param x => shown.lookup x = none → x = root
  | .constant _ => True
  | .member target name => Text.isIdentifier name = true ∧ Printable root shown target
  | .unary _ operand => Printable root shown operand
  | .binary _ left right => Printable root shown left ∧ Printable root shown right
  | .call f arguments => f.takes arguments.length = true ∧ PrintableList root shown arguments
  | .aggregate target _ => Printable root shown target
  | .aggregateOf target _ x body =>
    Printable root shown target ∧
      Printable root ((x, ShownNames.atDepth shown.length) :: shown) body
  | .row _ => False

/-- The grammar has texts for all the expressions. -/
def PrintableList (root : String) (shown : ShownNames) : List Expr → Prop
  | [] => True
  | e :: rest => Printable root shown e ∧ PrintableList root shown rest

end

/-- Whether the expression is a chain of members and aggregates that starts at a number. -/
def startsAtNumber : Expr → Bool
  | .constant l => l.isNumber
  | .member target _ => startsAtNumber target
  | .aggregate target _ => startsAtNumber target
  | .aggregateOf target _ _ _ => startsAtNumber target
  | _ => false

/-- Whether the expression is a member or an aggregate of something. -/
def isChain : Expr → Bool
  | .member .. => true
  | .aggregate .. => true
  | .aggregateOf .. => true
  | _ => false

mutual

/-- The text of every constant in the expression stands for the constant, and no minus sign is applied
to a member or an aggregate of a number: in `-5.count()` the sign belongs to the number. -/
def Readable : Expr → Prop
  | .param _ => True
  | .constant l => l.ReadsBack
  | .member target _ => Readable target
  | .unary op operand =>
    (op = .negate → operand.isChain = true → operand.startsAtNumber = false) ∧ Readable operand
  | .binary _ left right => Readable left ∧ Readable right
  | .call _ arguments => ReadableList arguments
  | .aggregate target _ => Readable target
  | .aggregateOf target _ _ body => Readable target ∧ Readable body
  | .row fields => ReadableFields fields

/-- All the expressions are readable. -/
def ReadableList : List Expr → Prop
  | [] => True
  | e :: rest => Readable e ∧ ReadableList rest

/-- The values of all the fields are readable. -/
def ReadableFields : List (String × Expr) → Prop
  | [] => True
  | (_, e) :: rest => Readable e ∧ ReadableFields rest

end

/-! ## From texts to tokens -/

theorem spells_wrapped {text : String} {tokens : List Token} (h : Spells text.toList tokens)
    (wrap : Bool) : Spells (wrapped wrap text).toList (wrappedTokens wrap tokens) := by
  cases wrap with
  | false => exact h
  | true =>
      simp only [wrapped, wrappedTokens, if_true, String.toList_append]
      have hclosed := h.then_mark spells_nil .rightParen (by decide)
      exact hclosed.mark .leftParen

theorem isIdentifier_numbered (n : Nat) :
    Text.isIdentifier ("p" ++ Decimal.naturalText n) = true := by
  have htext : ("p" ++ Decimal.naturalText n).toList = 'p' :: Nat.toDigits 10 n := by
    rw [String.toList_append, Decimal.toList_naturalText]
    rfl
  unfold Text.isIdentifier
  rw [htext]
  simp only [Bool.and_eq_true, List.all_eq_true]
  refine ⟨by decide, fun c hc => ?_⟩
  exact CharClass.of_isDigit (p := fun d => CharClass.isIdentifierRest d = true) (by decide)
    (Decimal.all_isDigit_toDigits n c hc)

theorem isIdentifier_atDepth (depth : Nat) : Text.isIdentifier (ShownNames.atDepth depth) = true := by
  match depth with
  | 0 | 1 | 2 | 3 | 4 | 5 => decide
  | n + 6 => exact isIdentifier_numbered (n + 6)

end Expr

namespace ShownNames

/-- Each variable has the name for its depth. -/
def ByDepth : ShownNames → Prop
  | [] => True
  | (_, name) :: outer => name = atDepth outer.length ∧ ByDepth outer

/-- A shown name is the name of a depth. -/
theorem ByDepth.exists_depth {shown : ShownNames} (h : shown.ByDepth) {x name : String}
    (hx : shown.lookup x = some name) : ∃ depth, name = atDepth depth := by
  induction shown with
  | nil => cases hx
  | cons pair outer ih =>
      obtain ⟨y, shownName⟩ := pair
      rw [List.lookup_cons] at hx
      split at hx
      · cases hx
        exact ⟨outer.length, h.1⟩
      · exact ih h.2 hx

theorem ByDepth.isIdentifier {shown : ShownNames} (h : shown.ByDepth) {x name : String}
    (hx : shown.lookup x = some name) : Text.isIdentifier name = true := by
  obtain ⟨depth, rfl⟩ := h.exists_depth hx
  exact Expr.isIdentifier_atDepth depth

end ShownNames

namespace Expr

theorem isIdentifier_functionName (f : TextFunction) : Text.isIdentifier f.name = true := by
  cases f <;> decide

theorem isIdentifier_aggregateName (a : Aggregate) : Text.isIdentifier a.name = true := by
  cases a <;> decide

theorem isIdentifier_keyword (op : BinaryOp) : Text.isIdentifier op.keyword = true := by
  cases op <;> decide

/-- A bind that succeeds did so in both parts. -/
theorem exists_of_bind_eq_ok {α β : Type} {first : Except Error α} {next : α → Except Error β} {b : β}
    (h : first >>= next = .ok b) : ∃ a, first = .ok a ∧ next a = .ok b := by
  cases first with
  | error e => cases h
  | ok a => exact ⟨a, rfl, h⟩

variable {root : String}

mutual

/-- **A text that is written scans to the tokens of the expression.** -/
theorem text_spec {shown : ShownNames} (hshown : shown.ByDepth) : (e : Expr) → Readable e →
    ∀ {t : String}, text root shown e = .ok t →
      Printable root shown e ∧ Spells t.toList (tokens root shown e)
  | .param x, _, t, h => by
      simp only [text, variableText] at h
      simp only [Printable, tokens]
      cases hx : shown.lookup x with
      | some name =>
          rw [hx] at h
          cases h
          exact ⟨(fun hnone => by cases hnone), spells_word (hshown.isIdentifier hx)⟩
      | none =>
          rw [hx] at h
          dsimp only at h
          split at h
          · rename_i hroot
            cases h
            exact ⟨fun _ => hroot, spells_word (by decide)⟩
          · cases h
  | .constant l, hl, t, h => by
      simp only [text] at h
      cases h
      exact ⟨trivial, l.spells_text hl⟩
  | .member target name, htarget, t, h => by
      simp only [text] at h
      split at h
      · rename_i hname
        split at h
        · rename_i hrow
          -- only the row itself is left out in front of its member
          have hprintable : Printable root shown target := by
            cases target with
            | param x =>
                simp only [isRow, Bool.and_eq_true, beq_iff_eq] at hrow
                exact fun _ => hrow.1
            | _ => cases hrow
          cases h
          refine ⟨⟨hname, hprintable⟩, ?_⟩
          rw [tokens, if_pos hrow]
          split
          · have hthis : Spells "this".toList [.word "this"] := spells_word (by decide)
            simpa using hthis.then_member hname
          · simpa using spells_word hname
        · rename_i hrow
          obtain ⟨lead, hlead, h⟩ := exists_of_bind_eq_ok h
          cases h
          obtain ⟨hprintable, hspells⟩ := text_spec hshown target htarget hlead
          refine ⟨⟨hname, hprintable⟩, ?_⟩
          rw [tokens, if_neg hrow]
          simpa using (spells_wrapped hspells (wrapsTarget target)).then_member hname
      · cases h
  | .unary op operand, hop, t, h => by
      simp only [text] at h
      obtain ⟨inner, hinner, h⟩ := exists_of_bind_eq_ok h
      cases h
      obtain ⟨hprintable, hspells⟩ := text_spec hshown operand hop.2 hinner
      refine ⟨hprintable, ?_⟩
      have hwrapped := spells_wrapped hspells (wrapsOperand op operand)
      rw [tokens, String.toList_append]
      cases op with
      | not =>
          have hnot : Spells "not".toList [.word "not"] := spells_word (by decide)
          exact hnot.then_blank hwrapped
      | negate => exact hwrapped.mark .minus
  | .binary op left right, hparts, t, h => by
      simp only [text] at h
      obtain ⟨l, hl, h⟩ := exists_of_bind_eq_ok h
      obtain ⟨r, hr, h⟩ := exists_of_bind_eq_ok h
      cases h
      obtain ⟨hprintableLeft, hleft⟩ := text_spec hshown left hparts.1 hl
      obtain ⟨hprintableRight, hright⟩ := text_spec hshown right hparts.2 hr
      refine ⟨⟨hprintableLeft, hprintableRight⟩, ?_⟩
      have hkeyword := spells_word (isIdentifier_keyword op)
      -- parentheses as the precedences ask for them
      have hwrappedLeft := spells_wrapped hleft (left.precedence?.any (· < op.precedence))
      have hwrappedRight := spells_wrapped hright (right.precedence?.any (· ≤ op.precedence))
      simpa [tokens] using hwrappedLeft.then_blank (hkeyword.then_blank hwrappedRight)
  | .call f arguments, harguments, t, h => by
      simp only [text] at h
      split at h
      · rename_i htakes
        obtain ⟨texts, htexts, h⟩ := exists_of_bind_eq_ok h
        cases h
        obtain ⟨hprintable, hspells⟩ := textList_spec hshown arguments harguments htexts
        refine ⟨⟨htakes, hprintable⟩, ?_⟩
        have hname := spells_word (isIdentifier_functionName f)
        have hclosed := hspells.then_mark spells_nil .rightParen (by decide)
        simpa [tokens, Mark.char] using hname.then_mark hclosed .leftParen (by decide)
      · cases h
  | .aggregate target a, htarget, t, h => by
      simp only [text] at h
      obtain ⟨lead, hlead, h⟩ := exists_of_bind_eq_ok h
      cases h
      obtain ⟨hprintable, hspells⟩ := text_spec hshown target htarget hlead
      refine ⟨hprintable, ?_⟩
      have hmember := (spells_wrapped hspells (wrapsTarget target)).then_member
        (isIdentifier_aggregateName a)
      have hclosed : Spells [')'] [.mark .rightParen] := spells_nil.mark .rightParen
      simpa [tokens, Mark.char] using hmember.then_mark hclosed .leftParen (by decide)
  | .aggregateOf target a x body, hparts, t, h => by
      simp only [text] at h
      obtain ⟨lead, hlead, h⟩ := exists_of_bind_eq_ok h
      obtain ⟨inner, hinner, h⟩ := exists_of_bind_eq_ok h
      cases h
      obtain ⟨hprintable, hspells⟩ := text_spec hshown target hparts.1 hlead
      -- the body is written one variable deeper
      have hinside : ShownNames.ByDepth ((x, ShownNames.atDepth shown.length) :: shown) :=
        ⟨rfl, hshown⟩
      obtain ⟨hprintableBody, hbody⟩ := text_spec hinside body hparts.2 hinner
      refine ⟨⟨hprintable, hprintableBody⟩, ?_⟩
      have hmember := (spells_wrapped hspells (wrapsTarget target)).then_member
        (isIdentifier_aggregateName a)
      have hvariable := spells_word (isIdentifier_atDepth shown.length)
      have hclosed := hbody.then_mark spells_nil .rightParen (by decide)
      have hinside := hvariable.then_mark hclosed .colon (by decide)
      simpa [tokens, Mark.char] using hmember.then_mark hinside .leftParen (by decide)
  | .row _, _, t, h => by
      simp only [text] at h
      cases h

theorem textList_spec {shown : ShownNames} (hshown : shown.ByDepth) : (es : List Expr) →
    ReadableList es → ∀ {texts : List String}, textList root shown es = .ok texts →
      PrintableList root shown es ∧
        Spells (Text.join "," texts).toList (argumentTokens root shown es)
  | [], _, texts, h => by
      simp only [textList] at h
      cases h
      exact ⟨trivial, spells_nil⟩
  | e :: rest, hparts, texts, h => by
      simp only [textList] at h
      obtain ⟨first, hfirst, h⟩ := exists_of_bind_eq_ok h
      obtain ⟨others, hothers, h⟩ := exists_of_bind_eq_ok h
      cases h
      obtain ⟨hprintable, hspells⟩ := text_spec hshown e hparts.1 hfirst
      obtain ⟨hprintableRest, hrest⟩ := textList_spec hshown rest hparts.2 hothers
      refine ⟨⟨hprintable, hprintableRest⟩, ?_⟩
      cases rest with
      | nil =>
          simp only [textList] at hothers
          cases hothers
          simpa [Text.join, argumentTokens, laterTokens] using hspells
      | cons next later =>
          obtain ⟨second, more, hmore⟩ : ∃ second more, others = second :: more := by
            simp only [textList] at hothers
            obtain ⟨second, -, hothers⟩ := exists_of_bind_eq_ok hothers
            obtain ⟨more, -, hothers⟩ := exists_of_bind_eq_ok hothers
            cases hothers
            exact ⟨second, more, rfl⟩
          rw [hmore] at hrest ⊢
          simpa [Text.join, argumentTokens, laterTokens, Mark.char] using
            hspells.then_mark hrest .comma (by decide)

end

end Expr

end ResourceQuery
