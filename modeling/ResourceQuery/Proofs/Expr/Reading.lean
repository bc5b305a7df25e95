import ResourceQuery.Proofs.Expr.Variables

set_option autoImplicit false

/-! # Reading back a written expression

Reading goes through prefixes of expressions: after `a.b` it does not know yet whether `.c` follows, nor
after `x eq 1` whether `and` does. So what is shown by induction on an expression is not that reading its
tokens ends, but that it comes behind them with an equal expression in hand and goes on from there
(`Parser.Reaches`). An expression can be read in two places, and there is a statement for each.

* `ReadsTarget`: in front of members and aggregates, where reading goes on with `Parser.members`.
* `ReadsOperand`: in front of operators, where reading goes on with `Parser.operators`.
-/

namespace ResourceQuery

namespace Parser

/-! ## States and single tokens -/

/-- The tokens ahead. -/
def State.tokens (s : State) : List Token :=
  s.ahead.map Lexeme.token

namespace State

variable {s : State} {t : Token} {ts : List Token}

theorem exists_ahead (h : s.tokens = t :: ts) :
    ∃ offset later, s.ahead = ⟨t, offset⟩ :: later ∧ later.map Lexeme.token = ts := by
  unfold tokens at h
  cases hahead : s.ahead with
  | nil =>
      rw [hahead] at h
      cases h
  | cons lexeme later =>
      rw [hahead, List.map_cons] at h
      cases h
      exact ⟨lexeme.offset, later, rfl, rfl⟩

theorem tokens_skip (h : s.tokens = t :: ts) : s.skip.tokens = ts := by
  obtain ⟨offset, later, hahead, hlater⟩ := exists_ahead h
  simp only [tokens, skip, hahead, List.drop_succ_cons, List.drop_zero]
  exact hlater

theorem length_skip (s : State) : s.skip.tokens.length ≤ s.tokens.length := by
  simp [tokens, skip]

@[simp] theorem nextVariable_skip (s : State) : s.skip.nextVariable = s.nextVariable := rfl

theorem isAt_iff (s : State) (m : Mark) : s.isAt m = true ↔ s.tokens.head? = some (.mark m) := by
  unfold isAt tokens
  cases s.ahead with
  | nil => simp
  | cons lexeme later =>
      obtain ⟨token, offset⟩ := lexeme
      cases token <;> simp

theorem isAtWord_of_word {w word : String} (h : s.tokens = .word w :: ts) :
    s.isAtWord word = Text.sameIgnoringCase w word := by
  obtain ⟨offset, later, hahead, -⟩ := exists_ahead h
  simp only [isAtWord, hahead]

end State

variable {s : State} {ts : List Token}

theorem runOn_get : (get : Parser State).runOn s = (.ok s, s) := rfl

theorem runOn_advance {t : Token} (h : s.tokens = t :: ts) :
    advance.runOn s = (.ok (some t), s.skip) := by
  obtain ⟨offset, later, hahead, -⟩ := State.exists_ahead h
  simp only [advance, Action.change, Action.runOn_ofFunction, hahead, List.head?_cons,
    Option.map_some]

theorem runOn_takes {m : Mark} (h : s.tokens = .mark m :: ts) :
    (takes m).runOn s = (.ok true, s.skip) := by
  have hat : s.isAt m = true := (State.isAt_iff s m).2 (by rw [h, List.head?_cons])
  simp only [takes, Action.change, Action.runOn_ofFunction, hat, if_true]

theorem runOn_takes_of_ne {m : Mark} (h : s.tokens.head? ≠ some (.mark m)) :
    (takes m).runOn s = (.ok false, s) := by
  have hat : s.isAt m = false := by
    rw [← Bool.not_eq_true, State.isAt_iff]
    exact h
  simp only [takes, Action.change, Action.runOn_ofFunction, hat]
  rfl

theorem runOn_expect {m : Mark} (h : s.tokens = .mark m :: ts) :
    (expect m).runOn s = (.ok (), s.skip) := by
  have hat : s.isAt m = true := (State.isAt_iff s m).2 (by rw [h, List.head?_cons])
  simp only [expect, Action.runOn_ofFunction, hat, if_true]

theorem runOn_identifier {w : String} (h : s.tokens = .word w :: ts) :
    identifier.runOn s = (.ok w, s.skip) := by
  rw [identifier, Action.runOn_bind, runOn_get]
  dsimp only
  rw [Action.runOn_bind, runOn_advance h]
  rfl

theorem runOn_takesWord (word : String) (h : s.isAtWord word = true) :
    (takesWord word).runOn s = (.ok true, s.skip) := by
  simp only [takesWord, Action.change, Action.runOn_ofFunction, h, if_true]

theorem runOn_takesWord_of_not (word : String) (h : s.isAtWord word = false) :
    (takesWord word).runOn s = (.ok false, s) := by
  simp only [takesWord, Action.change, Action.runOn_ofFunction, h]
  rfl

/-! ## Places in a text -/

/-- The operator that the tokens start with. -/
def leadOperator? : List Token → Option BinaryOp
  | .word w :: _ => BinaryOp.ofKeyword? w
  | _ => none

theorem operator?_eq (s : State) : s.operator? = leadOperator? s.tokens := by
  unfold State.operator? State.tokens
  cases s.ahead with
  | nil => rfl
  | cons lexeme later =>
      obtain ⟨token, offset⟩ := lexeme
      cases token <;> rfl

/-- The tokens go on with no member and no arguments. -/
structure Detached (rest : List Token) : Prop where
  noMember : rest.head? ≠ some (.mark .dot)
  noArguments : rest.head? ≠ some (.mark .leftParen)

/-- From `s` on, `p` comes to the tokens `rest` with an expression equal to `e`, and goes on from there
as `next` does. -/
def Reaches (root : String) (fs : Frames) (e : Expr) (rest : List Token) (p : Parser Expr)
    (next : Expr → Parser Expr) (s : State) : Prop :=
  ∃ read after, Expr.equalUnder (fs.pairing root) e read = true ∧ after.tokens = rest ∧
    s.nextVariable ≤ after.nextVariable ∧ p.runOn s = (next read).runOn after

/-- An operand and operators behind it: what an expression is after its first level of nesting. -/
def operandThen (bounds : Bounds) (budget : Nat) (scopes : Scopes) (least fuel : Nat) : Parser Expr := do
  let left ← unary bounds budget scopes
  operators (fun p => binary bounds budget scopes p) least fuel left

/-- The tokens `ts` are read as `e` in front of members and aggregates. -/
def ReadsTarget (root : String) (bounds : Bounds) (fs : Frames) (e : Expr) (need : Nat)
    (ts : List Token) : Prop :=
  ∀ ⦃budget : Nat⦄ ⦃rest : List Token⦄ ⦃s : State⦄, need ≤ budget + 1 → fs.Fits s.nextVariable →
    s.tokens = ts ++ rest → s.tokens.length ≤ bounds.tokens →
    rest.head? ≠ some (.mark .leftParen) →
    ∃ fuel, rest.length ≤ fuel ∧
      Reaches root fs e rest (unary bounds (budget + 1) fs.scopes)
        (members (fun scopes => binary bounds budget scopes 0) fs.scopes fuel) s

/-- The tokens `ts` are read as `e` where an operand is read. -/
def ReadsUnary (root : String) (bounds : Bounds) (fs : Frames) (e : Expr) (need : Nat)
    (ts : List Token) : Prop :=
  ∀ ⦃budget : Nat⦄ ⦃rest : List Token⦄ ⦃s : State⦄, need ≤ budget → fs.Fits s.nextVariable →
    s.tokens = ts ++ rest → s.tokens.length ≤ bounds.tokens → Detached rest →
    Reaches root fs e rest (unary bounds budget fs.scopes) pure s

/-- The tokens `ts` are read as `e` in front of operators. If an operator of precedence `level` is
outermost in them, then operators must be read from there on, and the one behind binds not more
tightly. -/
def ReadsOperand (root : String) (bounds : Bounds) (fs : Frames) (e : Expr) (level : Option Nat)
    (need : Nat) (ts : List Token) : Prop :=
  ∀ ⦃budget least fuel : Nat⦄ ⦃rest : List Token⦄ ⦃s : State⦄, need ≤ budget →
    fs.Fits s.nextVariable → s.tokens = ts ++ rest → s.tokens.length ≤ bounds.tokens →
    s.tokens.length ≤ fuel → Detached rest → (∀ p ∈ level, least ≤ p) →
    (∀ op ∈ leadOperator? rest, ∀ p ∈ level, op.precedence ≤ p) →
    ∃ left, rest.length ≤ left ∧
      Reaches root fs e rest (operandThen bounds budget fs.scopes least fuel)
        (operators (fun p => binary bounds budget fs.scopes p) least left) s

/-- The tokens `ts` are read as `e` where a whole expression is read whose operators bind at least as
tightly as `least`. -/
def ReadsWhole (root : String) (bounds : Bounds) (fs : Frames) (e : Expr) (least need : Nat)
    (ts : List Token) : Prop :=
  ∀ ⦃budget : Nat⦄ ⦃rest : List Token⦄ ⦃s : State⦄, need ≤ budget → fs.Fits s.nextVariable →
    s.tokens = ts ++ rest → s.tokens.length ≤ bounds.tokens → Detached rest →
    (∀ op ∈ leadOperator? rest, op.precedence < least) →
    Reaches root fs e rest (binary bounds budget fs.scopes least) pure s

variable {root : String} {bounds : Bounds} {fs : Frames} {e : Expr} {need : Nat}

/-! ## From place to place -/

theorem runOn_members_of_ne {expr : Scopes → Parser Expr} {scopes : Scopes} (fuel : Nat) (e : Expr)
    (h : s.tokens.head? ≠ some (.mark .dot)) :
    (members expr scopes fuel e).runOn s = (.ok e, s) := by
  cases fuel with
  | zero => rfl
  | succ fuel =>
      rw [members, Action.runOn_bind, runOn_takes_of_ne h]
      rfl

theorem runOn_operators_of_lt {operand : Nat → Parser Expr} {least : Nat} (fuel : Nat) (e : Expr)
    (h : ∀ op ∈ leadOperator? s.tokens, op.precedence < least) :
    (operators operand least fuel e).runOn s = (.ok e, s) := by
  cases fuel with
  | zero => rfl
  | succ fuel =>
      rw [operators, Action.runOn_bind, runOn_get]
      dsimp only
      rw [operator?_eq]
      cases hlead : leadOperator? s.tokens with
      | none => rfl
      | some op =>
          dsimp only
          rw [if_pos (h op (by rw [hlead]; rfl))]
          rfl

/-- What is read in front of members is read where none follows. -/
theorem ReadsTarget.unary (h : ReadsTarget root bounds fs e need ts) (hneed : 0 < need) :
    ReadsUnary root bounds fs e need ts := by
  intro budget rest s hbudget hfits hs hlength hrest
  obtain ⟨budget, rfl⟩ : ∃ b, budget = b + 1 := ⟨budget - 1, by omega⟩
  obtain ⟨fuel, -, read, after, hequal, hafter, hnext, hrun⟩ :=
    h hbudget hfits hs hlength hrest.noArguments
  refine ⟨read, after, hequal, hafter, hnext, ?_⟩
  rw [hrun, runOn_members_of_ne fuel read (by rw [hafter]; exact hrest.noMember)]
  rfl

/-- What has no infix operator outermost is read in front of them. -/
theorem ReadsUnary.operand (h : ReadsUnary root bounds fs e need ts) :
    ReadsOperand root bounds fs e none need ts := by
  intro budget least fuel rest s hbudget hfits hs hlength hfuel hrest _ _
  obtain ⟨read, after, hequal, hafter, hnext, hrun⟩ := h hbudget hfits hs hlength hrest
  refine ⟨fuel, ?_, read, after, hequal, hafter, hnext, ?_⟩
  · rw [hs, List.length_append] at hfuel
    omega
  · rw [operandThen, Action.runOn_bind, hrun]
    rfl

/-- What is read in front of operators is read where none follows that binds tightly enough. -/
theorem ReadsOperand.whole {least : Nat} {level : Option Nat}
    (h : ReadsOperand root bounds fs e level need ts) (hleast : ∀ p ∈ level, least ≤ p) :
    ReadsWhole root bounds fs e least (need + 1) ts := by
  intro budget rest s hbudget hfits hs hlength hrest hlead
  obtain ⟨budget, rfl⟩ : ∃ b, budget = b + 1 := ⟨budget - 1, by omega⟩
  have hloose : ∀ op ∈ leadOperator? rest, ∀ p ∈ level, op.precedence ≤ p := by
    intro op hop p hp
    exact Nat.le_of_lt (Nat.lt_of_lt_of_le (hlead op hop) (hleast p hp))
  obtain ⟨left, -, read, after, hequal, hafter, hnext, hrun⟩ :=
    h (by omega : need ≤ budget) hfits hs hlength hlength hrest hleast hloose
  refine ⟨read, after, hequal, hafter, hnext, ?_⟩
  have hwhole : binary bounds (budget + 1) fs.scopes least =
      operandThen bounds budget fs.scopes least bounds.tokens := rfl
  rw [hwhole, hrun, runOn_operators_of_lt left read (by rw [hafter]; exact hlead)]
  rfl

/-! ## Operands that start with a primary -/

/-- An operand that starts neither with `not` nor with a minus sign is a primary with members. -/
theorem runOn_unary_of_primary {t : Token} (budget : Nat) (scopes : Scopes) (h : s.tokens = t :: ts)
    (hminus : t ≠ .mark .minus)
    (hnot : ∀ w, t = .word w → Text.sameIgnoringCase w "not" = false) :
    (unary bounds (budget + 1) scopes).runOn s =
      (do
        let first ← primary bounds (fun scopes => binary bounds budget scopes 0) scopes
        members (fun scopes => binary bounds budget scopes 0) scopes bounds.tokens first :
          Parser Expr).runOn s := by
  have hword : s.isAtWord "not" = false := by
    obtain ⟨offset, later, hahead, -⟩ := State.exists_ahead h
    unfold State.isAtWord
    rw [hahead]
    -- only a word can be `not`
    cases t with
    | word w => exact hnot w rfl
    | _ => rfl
  have hmark : s.tokens.head? ≠ some (.mark .minus) := by
    rw [h, List.head?_cons]
    exact fun heq => hminus (Option.some.inj heq)
  rw [Parser.unary, Action.runOn_bind, runOn_takesWord_of_not "not" hword]
  simp only [Bool.false_eq_true, if_false]
  rw [Action.runOn_bind, runOn_takes_of_ne hmark]
  simp only [Bool.false_eq_true, if_false]

/-- What `primary` reads can stand in front of members. -/
theorem readsTarget_of_primary {t : Token} (hminus : t ≠ .mark .minus)
    (hnot : ∀ w, t = .word w → Text.sameIgnoringCase w "not" = false)
    (h : ∀ {budget : Nat} {rest : List Token} {s : State}, need ≤ budget + 1 →
      fs.Fits s.nextVariable → s.tokens = (t :: ts) ++ rest → s.tokens.length ≤ bounds.tokens →
      rest.head? ≠ some (.mark .leftParen) →
      Reaches root fs e rest
        (primary bounds (fun scopes => binary bounds budget scopes 0) fs.scopes) pure s) :
    ReadsTarget root bounds fs e need (t :: ts) := by
  intro budget rest s hbudget hfits hs hlength hrest
  obtain ⟨read, after, hequal, hafter, hnext, hrun⟩ := h hbudget hfits hs hlength hrest
  refine ⟨bounds.tokens, ?_, read, after, hequal, hafter, hnext, ?_⟩
  · rw [hs, List.length_append] at hlength
    omega
  · rw [List.cons_append] at hs
    rw [runOn_unary_of_primary budget fs.scopes hs hminus hnot, Action.runOn_bind, hrun]
    rfl

/-- A token that stands for an expression by itself, unless arguments follow. -/
theorem readsTarget_of_token {t : Token} {read : Expr} (hminus : t ≠ .mark .minus)
    (hnot : ∀ w, t = .word w → Text.sameIgnoringCase w "not" = false)
    (h : ∀ {expr : Scopes → Parser Expr} {rest : List Token} {s : State}, s.tokens = t :: rest →
      rest.head? ≠ some (.mark .leftParen) →
      (primary bounds expr fs.scopes).runOn s = (.ok read, s.skip))
    (hequal : Expr.equalUnder (fs.pairing root) e read = true) :
    ReadsTarget root bounds fs e need [t] := by
  refine readsTarget_of_primary hminus hnot fun _ _ hs _ hrest => ?_
  rw [List.singleton_append] at hs
  exact ⟨read, _, hequal, State.tokens_skip hs, Nat.le_refl _, h hs hrest⟩

theorem readsTarget_word {w : String} {read : Expr} (hnot : Text.sameIgnoringCase w "not" = false)
    (hw : ofWord fs.scopes w = some read)
    (hequal : Expr.equalUnder (fs.pairing root) e read = true) :
    ReadsTarget root bounds fs e need [.word w] := by
  refine readsTarget_of_token (fun heq => by cases heq) (fun v heq => ?_) (fun hs hrest => ?_) hequal
  · cases heq
    exact hnot
  · rename_i expr rest s
    have hat : s.skip.isAt .leftParen = false := by
      rw [← Bool.not_eq_true, State.isAt_iff, State.tokens_skip hs]
      exact hrest
    rw [primary, Action.runOn_bind, runOn_get]
    dsimp only
    rw [Action.runOn_bind, runOn_advance hs]
    dsimp only
    rw [Action.runOn_bind, runOn_get]
    simp only [hat, hw]
    rfl

/-- An expression in parentheses can stand anywhere. -/
theorem ReadsWhole.parenthesized (h : ReadsWhole root bounds fs e 0 need ts) :
    ReadsTarget root bounds fs e (need + 1) (.mark .leftParen :: (ts ++ [.mark .rightParen])) := by
  refine readsTarget_of_primary (fun heq => by cases heq) (fun w heq => by cases heq)
    fun {budget rest s} hbudget hfits hs hlength hrest => ?_
  have hopen : s.tokens = .mark .leftParen :: (ts ++ .mark .rightParen :: rest) := by
    rw [hs]
    simp
  have hclose : Detached (.mark .rightParen :: rest) := ⟨nofun, nofun⟩
  have hskip := State.tokens_skip hopen
  have hfitsSkip : fs.Fits s.skip.nextVariable := hfits
  obtain ⟨read, after, hequal, hafter, hnext, hrun⟩ := h (by omega : need ≤ budget) hfitsSkip hskip
    (Nat.le_trans (State.length_skip s) hlength) hclose nofun
  refine ⟨read, after.skip, hequal, State.tokens_skip hafter, hnext, ?_⟩
  rw [primary, Action.runOn_bind, runOn_get]
  dsimp only
  rw [Action.runOn_bind, runOn_advance hopen]
  dsimp only
  rw [Action.runOn_bind, hrun, Action.runOn_pure]
  dsimp only
  rw [Action.runOn_bind, runOn_expect hafter]

/-! ## Constants -/

theorem runOn_negativeNumber_int {m : Nat} {n : Int64} (h : s.tokens = .int m :: ts)
    (hn : Word.int64? (-m) = some n) :
    negativeNumber.runOn s = (.ok (some (.constant (.int n))), s.skip) := by
  obtain ⟨offset, later, hahead, -⟩ := State.exists_ahead h
  rw [negativeNumber, Action.runOn_bind, runOn_get]
  simp only [hahead]
  rw [Action.runOn_bind, runOn_advance h]
  simp only [hn]
  rfl

theorem runOn_negativeNumber_float {x : Float} (h : s.tokens = .float x :: ts) :
    negativeNumber.runOn s = (.ok (some (.constant (.float (-x)))), s.skip) := by
  obtain ⟨offset, later, hahead, -⟩ := State.exists_ahead h
  rw [negativeNumber, Action.runOn_bind, runOn_get]
  simp only [hahead]
  rw [Action.runOn_bind, runOn_advance h]
  rfl

/-- Whether a token is a number. -/
def isNumberToken : Token → Bool
  | .int _ => true
  | .float _ => true
  | _ => false

theorem runOn_negativeNumber_of_not {t : Token} (h : s.tokens = t :: ts)
    (ht : isNumberToken t = false) : negativeNumber.runOn s = (.ok none, s) := by
  obtain ⟨offset, later, hahead, -⟩ := State.exists_ahead h
  rw [negativeNumber, Action.runOn_bind, runOn_get]
  simp only [hahead]
  cases t <;> first | rfl | cases ht

/-- Behind `not` and a minus sign stands an operand. -/
theorem runOn_unary_minus (budget : Nat) (scopes : Scopes) (h : s.tokens = .mark .minus :: ts) :
    (unary bounds (budget + 1) scopes).runOn s =
      (do
        match ← negativeNumber with
        | some number =>
          members (fun scopes => binary bounds budget scopes 0) scopes bounds.tokens number
        | none =>
          let operand ← unary bounds budget scopes
          pure (.unary .negate operand) : Parser Expr).runOn s.skip := by
  have hword : s.isAtWord "not" = false := by
    obtain ⟨offset, later, hahead, -⟩ := State.exists_ahead h
    unfold State.isAtWord
    rw [hahead]
  rw [Parser.unary, Action.runOn_bind, runOn_takesWord_of_not "not" hword]
  simp only [Bool.false_eq_true, if_false]
  rw [Action.runOn_bind, runOn_takes h]
  rfl

/-- A negative number. -/
theorem readsTarget_negative {t : Token} {number : Expr}
    (h : ∀ {s : State} {rest : List Token}, s.tokens = t :: rest →
      negativeNumber.runOn s = (.ok (some number), s.skip))
    (hequal : Expr.equalUnder (fs.pairing root) e number = true) :
    ReadsTarget root bounds fs e need [.mark .minus, t] := by
  intro budget rest s _ _ hs hlength _
  have hminus : s.tokens = .mark .minus :: t :: rest := hs
  have hskip := State.tokens_skip hminus
  refine ⟨bounds.tokens, ?_, number, s.skip.skip, hequal, State.tokens_skip hskip, Nat.le_refl _, ?_⟩
  · rw [hminus] at hlength
    simp at hlength
    omega
  · rw [runOn_unary_minus budget fs.scopes hminus, Action.runOn_bind, h hskip]

theorem int64?_toInt (n : Int64) : Word.int64? n.toInt = some n := by
  have hlow := Int64.le_toInt n
  have hhigh := Int64.toInt_lt n
  have hfits : -Word.int64Bound ≤ n.toInt ∧ n.toInt < Word.int64Bound := by
    unfold Word.int64Bound
    omega
  rw [Word.int64?, if_pos hfits, Int64.ofInt_toInt]

theorem runOn_primary_int {m : Nat} {n : Int64} {expr : Scopes → Parser Expr} {scopes : Scopes}
    (h : s.tokens = .int m :: ts) (hn : Word.int64? m = some n) :
    (primary bounds expr scopes).runOn s = (.ok (.constant (.int n)), s.skip) := by
  -- the bounds of `int64?` are too far apart to compute with, so its name is all that may be left of it
  obtain ⟨fits, hfits, hm⟩ : ∃ fits : Nat → Option Int64,
      (∀ k : Nat, Word.int64? (k : Int) = fits k) ∧ fits m = some n :=
    ⟨fun k => Word.int64? k, fun _ => rfl, hn⟩
  unfold primary
  simp only [hfits]
  rw [Action.runOn_bind, runOn_get]
  dsimp only
  rw [Action.runOn_bind, runOn_advance h]
  simp only [hm]
  rfl

theorem readsTarget_int (n : Int64) :
    ReadsTarget root bounds fs (.constant (.int n)) need (Literal.int n).tokens := by
  have hequal : Expr.equalUnder (fs.pairing root) (.constant (.int n)) (.constant (.int n)) = true := by
    simp [Expr.equalUnder, Literal.equal]
  simp only [Literal.tokens]
  cases hn : n.toInt with
  | ofNat m =>
      have hvalue : (m : Int) = n.toInt := hn.symm
      have hword : Word.int64? (m : Int) = some n := by rw [hvalue, int64?_toInt]
      dsimp only
      exact readsTarget_of_token (by simp) (by simp) (fun hs _ => runOn_primary_int hs hword) hequal
  | negSucc m =>
      have hvalue : -((m + 1 : Nat) : Int) = n.toInt := hn.symm
      have hword : Word.int64? (-((m + 1 : Nat) : Int)) = some n := by rw [hvalue, int64?_toInt]
      dsimp only
      exact readsTarget_negative (fun hs => runOn_negativeNumber_int hs hword) hequal

theorem readsTarget_float {x : Float} (h : (Literal.float x).ReadsBack) :
    ReadsTarget root bounds fs (.constant (.float x)) need (Literal.float x).tokens := by
  obtain ⟨-, -, y, hy, hequal⟩ := h
  simp only [Literal.tokens, hy, Option.getD_some]
  cases hsign : (Literal.unsigned x).1 with
  | true =>
      rw [hsign] at hequal
      have hnegative : Expr.equalUnder (fs.pairing root) (.constant (.float x))
          (.constant (.float (-y))) = true := hequal
      rw [if_pos rfl]
      exact readsTarget_negative (fun hs => runOn_negativeNumber_float hs) hnegative
  | false =>
      rw [hsign] at hequal
      have hpositive : Expr.equalUnder (fs.pairing root) (.constant (.float x))
          (.constant (.float y)) = true := hequal
      rw [if_neg (by decide)]
      refine readsTarget_of_token (by simp) (by simp) (fun {expr rest s} hs _ => ?_) hpositive
      rw [primary, Action.runOn_bind, runOn_get]
      dsimp only
      rw [Action.runOn_bind, runOn_advance hs]
      rfl

/-- The tokens of a constant are read as the constant. -/
theorem readsTarget_constant {l : Literal} (h : l.ReadsBack) :
    ReadsTarget root bounds fs (.constant l) need l.tokens := by
  cases l with
  | null =>
      exact readsTarget_word (by decide) (Frames.ofWord_null fs) (by simp [Expr.equalUnder, Literal.equal])
  | bool b =>
      refine readsTarget_word ?_ (Frames.ofWord_bool fs b) (by simp [Expr.equalUnder, Literal.equal])
      cases b <;> decide
  | int n => exact readsTarget_int n
  | float x => exact readsTarget_float h
  | string text =>
      have hequal : Expr.equalUnder (fs.pairing root) (.constant (.string text))
          (.constant (.string text)) = true := by
        simp [Expr.equalUnder, Literal.equal]
      dsimp only [Literal.tokens]
      refine readsTarget_of_token (by simp) (by simp) (fun {expr rest s} hs _ => ?_) hequal
      rw [primary, Action.runOn_bind, runOn_get]
      dsimp only
      rw [Action.runOn_bind, runOn_advance hs]
      rfl
  | dateTime t =>
      -- the token is read back as the same instant, maybe as another timestamp
      obtain ⟨u, hu, hsame⟩ := h
      have hequal : Expr.equalUnder (fs.pairing root) (.constant (.dateTime t))
          (.constant (.dateTime u)) = true := hsame
      simp only [Literal.tokens, hu, Option.getD_some]
      refine readsTarget_of_token (by simp) (by simp) (fun {expr rest s} hs _ => ?_) hequal
      rw [primary, Action.runOn_bind, runOn_get]
      dsimp only
      rw [Action.runOn_bind, runOn_advance hs]
      rfl

/-! ## Members and aggregates -/

/-- A member of what can stand in front of it. -/
theorem ReadsTarget.member (h : ReadsTarget root bounds fs e need ts) (name : String) :
    ReadsTarget root bounds fs (.member e name) need (ts ++ [.mark .dot, .word name]) := by
  intro budget rest s hbudget hfits hs hlength hrest
  have hbefore : s.tokens = ts ++ .mark .dot :: .word name :: rest := by
    rw [hs, List.append_assoc]
    rfl
  obtain ⟨fuel, hfuel, read, after, hequal, hafter, hnext, hrun⟩ :=
    h hbudget hfits hbefore hlength nofun
  -- one more turn of the loop over members reads this one
  obtain ⟨fuel, rfl⟩ : ∃ k, fuel = k + 1 := ⟨fuel - 1, by rw [List.length_cons] at hfuel; omega⟩
  have hname := State.tokens_skip hafter
  have hbehind := State.tokens_skip hname
  -- no parenthesis follows, which would make the name that of an aggregate
  have hat : after.skip.skip.isAt .leftParen = false := by
    rw [← Bool.not_eq_true, State.isAt_iff, hbehind]
    exact hrest
  refine ⟨fuel, ?_, .member read name, after.skip.skip, ?_, hbehind, hnext, ?_⟩
  · simp only [List.length_cons] at hfuel
    omega
  · simp [Expr.equalUnder, hequal]
  · rw [hrun, members, Action.runOn_bind, runOn_takes hafter]
    simp only [if_true]
    rw [Action.runOn_bind, runOn_get]
    dsimp only
    rw [Action.runOn_bind, runOn_identifier hname]
    dsimp only
    rw [Action.runOn_bind, runOn_get]
    simp only [hat]
    rfl

/-- How `members` goes on at an aggregate. -/
theorem runOn_members_aggregate {expr : Scopes → Parser Expr} {scopes : Scopes} {a : Aggregate}
    (fuel : Nat) (target : Expr)
    (hs : s.tokens = .mark .dot :: .word a.name :: .mark .leftParen :: ts) :
    (members expr scopes (fuel + 1) target).runOn s =
      (do
        let applied ← aggregate expr scopes target a
        members expr scopes fuel applied : Parser Expr).runOn s.skip.skip := by
  have hname := State.tokens_skip hs
  have hopen := State.tokens_skip hname
  have hat : s.skip.skip.isAt .leftParen = true := by
    rw [State.isAt_iff, hopen]
    rfl
  have hword : Aggregate.ofName? a.name = some a := by cases a <;> decide
  rw [members, Action.runOn_bind, runOn_takes hs]
  simp only [if_true]
  rw [Action.runOn_bind, runOn_get]
  dsimp only
  rw [Action.runOn_bind, runOn_identifier hname]
  dsimp only
  rw [Action.runOn_bind, runOn_get]
  simp only [hat, hword, if_true]

/-- An aggregate of the elements of what can stand in front of it. -/
theorem ReadsTarget.aggregate (h : ReadsTarget root bounds fs e need ts) (a : Aggregate) :
    ReadsTarget root bounds fs (.aggregate e a) need
      (ts ++ [.mark .dot, .word a.name, .mark .leftParen, .mark .rightParen]) := by
  intro budget rest s hbudget hfits hs hlength _
  have hbefore : s.tokens =
      ts ++ .mark .dot :: .word a.name :: .mark .leftParen :: .mark .rightParen :: rest := by
    rw [hs, List.append_assoc]
    rfl
  obtain ⟨fuel, hfuel, read, after, hequal, hafter, hnext, hrun⟩ :=
    h hbudget hfits hbefore hlength nofun
  -- one more turn of the loop over members reads the aggregate
  obtain ⟨fuel, rfl⟩ : ∃ k, fuel = k + 1 := ⟨fuel - 1, by rw [List.length_cons] at hfuel; omega⟩
  have hopen := State.tokens_skip (State.tokens_skip hafter)
  have hclose := State.tokens_skip hopen
  refine ⟨fuel, ?_, .aggregate read a, after.skip.skip.skip.skip, ?_, State.tokens_skip hclose, hnext, ?_⟩
  · simp only [List.length_cons] at hfuel
    omega
  · simp [Expr.equalUnder, hequal]
  · rw [hrun, runOn_members_aggregate fuel read hafter, Action.runOn_bind, Parser.aggregate,
      Action.runOn_bind, runOn_expect hopen]
    dsimp only
    rw [Action.runOn_bind, runOn_takes hclose]
    rfl

/-- An aggregate of what a body is for each element. The body is read with one more variable. -/
theorem ReadsTarget.aggregateOf {x : String} {body : Expr} {bodyTokens : List Token}
    (h : ReadsTarget root bounds fs e (need + 1) ts)
    (hbody : ∀ n, ReadsWhole root bounds ((x, n) :: fs) body 0 need bodyTokens) (a : Aggregate) :
    ReadsTarget root bounds fs (.aggregateOf e a x body) (need + 1)
      (ts ++ .mark .dot :: .word a.name :: .mark .leftParen ::
        .word (ShownNames.atDepth fs.length) :: .mark .colon ::
          (bodyTokens ++ [.mark .rightParen])) := by
  intro budget rest s hbudget hfits hs hlength _
  have hbefore : s.tokens =
      ts ++ .mark .dot :: .word a.name :: .mark .leftParen ::
        .word (ShownNames.atDepth fs.length) :: .mark .colon ::
          (bodyTokens ++ .mark .rightParen :: rest) := by
    rw [hs]
    simp
  obtain ⟨fuel, hfuel, read, after, hequal, hafter, hnext, hrun⟩ :=
    h hbudget hfits hbefore hlength nofun
  obtain ⟨fuel, rfl⟩ : ∃ k, fuel = k + 1 := ⟨fuel - 1, by rw [List.length_cons] at hfuel; omega⟩
  have hopen := State.tokens_skip (State.tokens_skip hafter)
  have hshown := State.tokens_skip hopen
  have hcolon := State.tokens_skip hshown
  have hinside := State.tokens_skip hcolon
  -- the state in which the body is read: one more variable is in use
  let inside : State :=
    { after.skip.skip.skip.skip.skip with nextVariable := after.nextVariable + 1 }
  have hfitsInside : Frames.Fits ((x, after.nextVariable) :: fs) inside.nextVariable :=
    ⟨Nat.lt_succ_self _, hfits.mono hnext⟩
  have hlengthInside : inside.tokens.length ≤ bounds.tokens := by
    have hle : after.tokens.length ≤ bounds.tokens := by
      rw [hbefore, List.length_append] at hlength
      rw [hafter]
      omega
    refine Nat.le_trans ?_ hle
    show after.skip.skip.skip.skip.skip.tokens.length ≤ after.tokens.length
    rw [hinside, hafter]
    simp only [List.length_cons]
    omega
  have hdetached : Detached (.mark .rightParen :: rest) := ⟨nofun, nofun⟩
  obtain ⟨readBody, behind, hequalBody, hbehind, hnextBody, hrunBody⟩ :=
    hbody after.nextVariable (by omega : need ≤ budget) hfitsInside hinside hlengthInside hdetached nofun
  have hnotClosed : after.skip.skip.skip.tokens.head? ≠ some (.mark .rightParen) := by
    rw [hshown]
    nofun
  refine ⟨fuel, ?_, .aggregateOf read a (numberedName after.nextVariable) readBody, behind.skip, ?_,
    State.tokens_skip hbehind, ?_, ?_⟩
  · simp only [List.length_cons, List.length_append] at hfuel
    omega
  · simp only [Expr.equalUnder, beq_self_eq_true, hequal, Bool.true_and]
    exact hequalBody
  · exact Nat.le_trans hnext (Nat.le_trans (Nat.le_succ _) hnextBody)
  · rw [hrun, runOn_members_aggregate fuel read hafter, Action.runOn_bind, Parser.aggregate,
      Action.runOn_bind, runOn_expect hopen]
    dsimp only
    rw [Action.runOn_bind, runOn_takes_of_ne hnotClosed]
    simp only [Bool.false_eq_true, if_false]
    rw [Action.runOn_bind, runOn_identifier hshown]
    dsimp only
    rw [Action.runOn_bind, runOn_expect hcolon]
    dsimp only
    have hvariable : newVariable.runOn after.skip.skip.skip.skip.skip =
      (.ok (numberedName after.nextVariable), inside) := rfl
    have houtcome : (outcome (binary bounds budget
        ((ShownNames.atDepth fs.length, numberedName after.nextVariable) :: fs.scopes) 0)).runOn
          inside = (.ok (.ok readBody), behind) := by
      simp only [outcome, Action.change, Action.runOn_ofFunction]
      rw [show (ShownNames.atDepth fs.length, numberedName after.nextVariable) :: fs.scopes =
        Frames.scopes ((x, after.nextVariable) :: fs) from rfl, hrunBody]
      rfl
    rw [Action.runOn_bind, hvariable]
    dsimp only
    rw [Action.runOn_bind, houtcome]
    dsimp only
    rw [Action.runOn_bind, runOn_expect hbehind]
    rfl

/-! ## Calls -/

/-- Arguments behind commas, up to the closing parenthesis. -/
theorem runOn_moreArguments {budget : Nat} (es : List Expr)
    (h : ∀ e ∈ es, ReadsWhole root bounds fs e 0 need (Expr.tokens root fs.shown e))
    (hneed : need ≤ budget) :
    ∀ (done : List Expr) {fuel : Nat} {s : State} {rest : List Token}, fs.Fits s.nextVariable →
      s.tokens = Expr.laterTokens root fs.shown es ++ .mark .rightParen :: rest →
      s.tokens.length ≤ bounds.tokens → s.tokens.length ≤ fuel →
      ∃ reads after, Expr.equalLists (fs.pairing root) es reads = true ∧
        reads.length = es.length ∧ after.tokens = .mark .rightParen :: rest ∧
        s.nextVariable ≤ after.nextVariable ∧
        (moreArguments (binary bounds budget fs.scopes 0) fuel done).runOn s =
          (.ok (done ++ reads), after) := by
  induction es with
  | nil =>
      intro done fuel s rest hfits hs hlength hfuel
      refine ⟨[], s, rfl, rfl, hs, Nat.le_refl _, ?_⟩
      have hcomma : s.tokens.head? ≠ some (.mark .comma) := by
        rw [hs]
        nofun
      cases fuel with
      | zero => rw [moreArguments, List.append_nil, Action.runOn_pure]
      | succ fuel =>
          rw [moreArguments, Action.runOn_bind, runOn_takes_of_ne hcomma, List.append_nil]
          rfl
  | cons e es ih =>
      intro done fuel s rest hfits hs hlength hfuel
      have hcomma : s.tokens = .mark .comma :: (Expr.tokens root fs.shown e ++
          (Expr.laterTokens root fs.shown es ++ .mark .rightParen :: rest)) := by
        rw [hs, Expr.laterTokens]
        simp
      obtain ⟨fuel, rfl⟩ : ∃ k, fuel = k + 1 := by
        refine ⟨fuel - 1, ?_⟩
        rw [hcomma, List.length_cons] at hfuel
        omega
      have hargument := State.tokens_skip hcomma
      -- the argument ends at a comma or at the parenthesis
      have hends : Detached (Expr.laterTokens root fs.shown es ++ .mark .rightParen :: rest) ∧
          leadOperator? (Expr.laterTokens root fs.shown es ++ .mark .rightParen :: rest) = none := by
        cases es with
        | nil => exact ⟨⟨nofun, nofun⟩, rfl⟩
        | cons _ _ => exact ⟨⟨nofun, nofun⟩, rfl⟩
      have hlengthSkip := Nat.le_trans (State.length_skip s) hlength
      have hfitsSkip : fs.Fits s.skip.nextVariable := hfits
      obtain ⟨read, middle, hequal, hmiddle, hnext, hrun⟩ :=
        h e List.mem_cons_self hneed hfitsSkip hargument hlengthSkip hends.1
          (by rw [hends.2]; nofun)
      have hshorter : middle.tokens.length ≤ s.skip.tokens.length := by
        rw [hmiddle, hargument]
        simp only [List.length_append]
        omega
      have hskipLength : s.skip.tokens.length + 1 = s.tokens.length := by
        rw [hargument, hcomma, List.length_cons]
      obtain ⟨reads, after, hequals, hcount, hafter, hnextAfter, hrunAfter⟩ :=
        ih (fun d hd => h d (List.mem_cons_of_mem _ hd)) (done ++ [read]) (hfits.mono hnext) hmiddle
          (Nat.le_trans hshorter hlengthSkip) (by omega : middle.tokens.length ≤ fuel)
      refine ⟨read :: reads, after, ?_, ?_, hafter, Nat.le_trans hnext hnextAfter, ?_⟩
      · simp [Expr.equalLists, hequal, hequals]
      · rw [List.length_cons, List.length_cons, hcount]
      · rw [moreArguments, Action.runOn_bind, runOn_takes hcomma]
        simp only [if_true]
        rw [Action.runOn_bind, hrun, Action.runOn_pure]
        dsimp only
        rw [hrunAfter, List.append_assoc]
        rfl

theorem ofName?_functionName (f : TextFunction) : TextFunction.ofName? f.name = some f := by
  cases f <;> decide

/-- A function takes at least one argument. -/
theorem exists_cons_of_takes {f : TextFunction} {es : List Expr} (h : f.takes es.length = true) :
    ∃ e rest, es = e :: rest := by
  cases es with
  | nil => cases f <;> exact absurd h (by decide)
  | cons e rest => exact ⟨e, rest, rfl⟩

/-- A call of a function. -/
theorem readsTarget_call {f : TextFunction} {es : List Expr} (htakes : f.takes es.length = true)
    (h : ∀ e ∈ es, ReadsWhole root bounds fs e 0 need (Expr.tokens root fs.shown e)) :
    ReadsTarget root bounds fs (.call f es) (need + 1)
      (.word f.name :: .mark .leftParen ::
        (Expr.argumentTokens root fs.shown es ++ [.mark .rightParen])) := by
  have hnot : Text.sameIgnoringCase f.name "not" = false := by cases f <;> decide
  refine readsTarget_of_primary nofun (fun w heq => by cases heq; exact hnot)
    fun {budget rest s} hbudget hfits hs hlength _ => ?_
  obtain ⟨first, later, rfl⟩ := exists_cons_of_takes htakes
  have hname : s.tokens = .word f.name :: .mark .leftParen :: (Expr.tokens root fs.shown first ++
      (Expr.laterTokens root fs.shown later ++ .mark .rightParen :: rest)) := by
    rw [hs, Expr.argumentTokens]
    simp
  have hopen := State.tokens_skip hname
  have hinside := State.tokens_skip hopen
  have hat : s.skip.isAt .leftParen = true := by
    rw [State.isAt_iff, hopen]
    rfl
  -- a comma or the closing parenthesis stands behind the first argument
  have hends : Detached (Expr.laterTokens root fs.shown later ++ .mark .rightParen :: rest) ∧
      leadOperator? (Expr.laterTokens root fs.shown later ++ .mark .rightParen :: rest) = none := by
    cases later with
    | nil => exact ⟨⟨nofun, nofun⟩, rfl⟩
    | cons _ _ => exact ⟨⟨nofun, nofun⟩, rfl⟩
  have hneed : need ≤ budget := by omega
  have hfitsSkip : fs.Fits s.skip.skip.nextVariable := hfits
  have hlengthSkip : s.skip.skip.tokens.length ≤ bounds.tokens :=
    Nat.le_trans (State.length_skip _) (Nat.le_trans (State.length_skip s) hlength)
  obtain ⟨read, middle, hequal, hmiddle, hnext, hrun⟩ :=
    h first List.mem_cons_self hneed hfitsSkip hinside hlengthSkip hends.1 (by rw [hends.2]; nofun)
  have hlengthMiddle : middle.tokens.length ≤ bounds.tokens := by
    rw [hinside, List.length_append] at hlengthSkip
    rw [hmiddle]
    omega
  -- the arguments behind the first, as many as were written
  obtain ⟨reads, after, hequals, hcount, hafter, hnextAfter, hrunAfter⟩ :=
    runOn_moreArguments later (fun d hd => h d (List.mem_cons_of_mem _ hd)) hneed [read]
      (hfits.mono hnext) hmiddle hlengthMiddle hlengthMiddle
  refine ⟨.call f (read :: reads), after.skip, ?_, State.tokens_skip hafter,
    Nat.le_trans hnext hnextAfter, ?_⟩
  · simp [Expr.equalUnder, Expr.equalLists, hequal, hequals]
  · have htakesReads : f.takes ([read] ++ reads).length = true := by
      rw [List.singleton_append, List.length_cons, hcount]
      exact htakes
    rw [primary, Action.runOn_bind, runOn_get]
    dsimp only
    rw [Action.runOn_bind, runOn_advance hname]
    dsimp only
    rw [Action.runOn_bind, runOn_get]
    simp only [hat, if_true, call, ofName?_functionName]
    rw [Action.runOn_bind, runOn_expect hopen]
    dsimp only
    rw [Action.runOn_bind, hrun, Action.runOn_pure]
    dsimp only
    rw [Action.runOn_bind, hrunAfter]
    dsimp only
    rw [Action.runOn_bind, runOn_expect hafter]
    simp only [htakesReads, if_true]
    rfl

end Parser

end ResourceQuery
