import ResourceQuery.Proofs.Expr.Reading
import ResourceQuery.Query.Uri

set_option autoImplicit false

/-! # Texts of expressions read back

Operators complete the cases of reading, and an induction on the expression puts the cases together
(`Expr.reads`). With what `Expr.text_spec` says about scanning, this is the round trip: the text of an
expression, of a selection and of a sort key is read as what it was written for, up to the names of
variables, as soon as the nesting is allowed that it has.
-/

namespace ResourceQuery

namespace Parser

variable {root : String} {bounds : Bounds} {fs : Frames} {e : Expr} {need : Nat} {s : State}
  {ts : List Token}

/-! ## Operators -/

theorem ReadsTarget.mono {more : Nat} (h : ReadsTarget root bounds fs e need ts) (hle : need ≤ more) :
    ReadsTarget root bounds fs e more ts :=
  fun _ _ _ hbudget hfits hs hlength hrest =>
    h (Nat.le_trans hle hbudget) hfits hs hlength hrest

theorem ReadsUnary.mono {more : Nat} (h : ReadsUnary root bounds fs e need ts) (hle : need ≤ more) :
    ReadsUnary root bounds fs e more ts :=
  fun _ _ _ hbudget hfits hs hlength hrest =>
    h (Nat.le_trans hle hbudget) hfits hs hlength hrest

theorem ReadsOperand.mono {more : Nat} {level : Option Nat}
    (h : ReadsOperand root bounds fs e level need ts) (hle : need ≤ more) :
    ReadsOperand root bounds fs e level more ts :=
  fun _ _ _ _ _ hbudget hfits hs hlength hfuel hrest hleast hlead =>
    h (Nat.le_trans hle hbudget) hfits hs hlength hfuel hrest hleast hlead

theorem ReadsWhole.mono {least more : Nat} (h : ReadsWhole root bounds fs e least need ts)
    (hle : need ≤ more) : ReadsWhole root bounds fs e least more ts :=
  fun _ _ _ hbudget hfits hs hlength hrest hlead =>
    h (Nat.le_trans hle hbudget) hfits hs hlength hrest hlead

/-- An operand behind `not`. -/
theorem ReadsUnary.not (h : ReadsUnary root bounds fs e need ts) :
    ReadsUnary root bounds fs (.unary .not e) (need + 1) (.word "not" :: ts) := by
  intro budget rest s hbudget hfits hs hlength hrest
  -- the operator takes one level of nesting
  obtain ⟨budget, rfl⟩ : ∃ b, budget = b + 1 := ⟨budget - 1, by omega⟩
  have hword : s.tokens = .word "not" :: (ts ++ rest) := hs
  have hat : s.isAtWord "not" = true := by
    rw [State.isAtWord_of_word hword]
    decide
  have hfitsSkip : fs.Fits s.skip.nextVariable := hfits
  obtain ⟨read, after, hequal, hafter, hnext, hrun⟩ :=
    h (by omega : need ≤ budget) hfitsSkip (State.tokens_skip hword)
      (Nat.le_trans (State.length_skip s) hlength) hrest
  refine ⟨.unary .not read, after, ?_, hafter, hnext, ?_⟩
  · simp [Expr.equalUnder, hequal]
  · rw [Parser.unary, Action.runOn_bind, runOn_takesWord "not" hat]
    simp only [if_true]
    rw [Action.runOn_bind, hrun]
    rfl

/-- An operand behind a minus sign, which is no number. -/
theorem ReadsUnary.negate {t : Token} (h : ReadsUnary root bounds fs e need (t :: ts))
    (ht : isNumberToken t = false) :
    ReadsUnary root bounds fs (.unary .negate e) (need + 1) (.mark .minus :: t :: ts) := by
  intro budget rest s hbudget hfits hs hlength hrest
  obtain ⟨budget, rfl⟩ : ∃ b, budget = b + 1 := ⟨budget - 1, by omega⟩
  have hminus : s.tokens = .mark .minus :: t :: (ts ++ rest) := hs
  have hoperand := State.tokens_skip hminus
  have hfitsSkip : fs.Fits s.skip.nextVariable := hfits
  obtain ⟨read, after, hequal, hafter, hnext, hrun⟩ :=
    h (by omega : need ≤ budget) hfitsSkip hoperand (Nat.le_trans (State.length_skip s) hlength) hrest
  refine ⟨.unary .negate read, after, ?_, hafter, hnext, ?_⟩
  · simp [Expr.equalUnder, hequal]
  · rw [runOn_unary_minus budget fs.scopes hminus, Action.runOn_bind,
      runOn_negativeNumber_of_not hoperand ht]
    dsimp only
    rw [Action.runOn_bind, hrun]
    rfl

theorem ofKeyword?_keyword (op : BinaryOp) : BinaryOp.ofKeyword? op.keyword = some op := by
  cases op <;> decide

/-- An infix operator between operands. Operators on the left bind at least as tightly as it does, those
on the right more tightly. -/
theorem ReadsOperand.binary {op : BinaryOp} {left right : Expr} {level : Option Nat}
    {leftTokens rightTokens : List Token}
    (hleft : ReadsOperand root bounds fs left level need leftTokens)
    (hlevel : ∀ p ∈ level, op.precedence ≤ p)
    (hright : ReadsWhole root bounds fs right (op.precedence + 1) need rightTokens) :
    ReadsOperand root bounds fs (.binary op left right) (some op.precedence) need
      (leftTokens ++ .word op.keyword :: rightTokens) := by
  intro budget least fuel rest s hbudget hfits hs hlength hfuel hrest hleast hlead
  have hbefore : s.tokens = leftTokens ++ .word op.keyword :: (rightTokens ++ rest) := by
    rw [hs, List.append_assoc]
    rfl
  have hop : leadOperator? (.word op.keyword :: (rightTokens ++ rest)) = some op :=
    ofKeyword?_keyword op
  have hleastOp : least ≤ op.precedence := hleast op.precedence rfl
  have hdetached : Detached (.word op.keyword :: (rightTokens ++ rest)) := ⟨nofun, nofun⟩
  obtain ⟨turns, hturns, readLeft, middle, hequalLeft, hmiddle, hnextLeft, hrunLeft⟩ :=
    hleft hbudget hfits hbefore hlength hfuel hdetached
      (fun p hp => Nat.le_trans hleastOp (hlevel p hp))
      (fun o ho p hp => by
        rw [hop] at ho
        cases ho
        exact hlevel p hp)
  obtain ⟨turns, rfl⟩ : ∃ k, turns = k + 1 := ⟨turns - 1, by rw [List.length_cons] at hturns; omega⟩
  have hoperand := State.tokens_skip hmiddle
  have hfitsMiddle : fs.Fits middle.skip.nextVariable := hfits.mono hnextLeft
  have hlengthMiddle : middle.skip.tokens.length ≤ bounds.tokens := by
    refine Nat.le_trans (State.length_skip middle) (Nat.le_trans ?_ hlength)
    rw [hmiddle, hbefore]
    simp only [List.length_append]
    omega
  -- an operator behind the right operand binds as tightly as this one at most
  have hbehind : ∀ o ∈ leadOperator? rest, o.precedence < op.precedence + 1 :=
    fun o ho => Nat.lt_succ_of_le (hlead o ho op.precedence rfl)
  obtain ⟨readRight, after, hequalRight, hafter, hnextRight, hrunRight⟩ :=
    hright hbudget hfitsMiddle hoperand hlengthMiddle hrest hbehind
  refine ⟨turns, ?_, .binary op readLeft readRight, after, ?_, hafter,
    Nat.le_trans hnextLeft hnextRight, ?_⟩
  · simp only [List.length_cons, List.length_append] at hturns
    omega
  · simp [Expr.equalUnder, hequalLeft, hequalRight]
  · have hlookup : middle.operator? = some op := by rw [operator?_eq, hmiddle, hop]
    rw [hrunLeft, operators, Action.runOn_bind, runOn_get]
    simp only [hlookup]
    rw [if_neg (Nat.not_lt.2 hleastOp), Action.runOn_bind, runOn_advance hmiddle]
    dsimp only
    rw [Action.runOn_bind, hrunRight]
    rfl

/-! ## Every expression -/

/-- How the tokens of an expression are read, in each place where it can stand. Three levels of nesting
are enough for each of its nodes: parentheses, the expression in them, and its first operand. -/
structure Reads (root : String) (bounds : Bounds) (fs : Frames) (e : Expr) : Prop where
  target : e.wrapsTarget = false →
    ReadsTarget root bounds fs e (3 * sizeOf e) (Expr.tokens root fs.shown e)
  unary : e.precedence? = none →
    ReadsUnary root bounds fs e (3 * sizeOf e) (Expr.tokens root fs.shown e)
  operand : ReadsOperand root bounds fs e e.precedence? (3 * sizeOf e) (Expr.tokens root fs.shown e)

namespace Reads

theorem ofTarget (he : e.precedence? = none)
    (h : ReadsTarget root bounds fs e (3 * sizeOf e) (Expr.tokens root fs.shown e))
    (hsize : 0 < sizeOf e) : Reads root bounds fs e where
  target _ := h
  unary _ := h.unary (by omega)
  operand := by
    rw [he]
    exact (h.unary (by omega)).operand

theorem ofUnary (he : e.precedence? = none) (hwraps : e.wrapsTarget = true)
    (h : ReadsUnary root bounds fs e (3 * sizeOf e) (Expr.tokens root fs.shown e)) :
    Reads root bounds fs e where
  target hnot := by
    rw [hwraps] at hnot
    cases hnot
  unary _ := h
  operand := by
    rw [he]
    exact h.operand

variable (h : Reads root bounds fs e)
include h

theorem whole {least : Nat} (hleast : ∀ p ∈ e.precedence?, least ≤ p) :
    ReadsWhole root bounds fs e least (3 * sizeOf e + 1) (Expr.tokens root fs.shown e) :=
  h.operand.whole hleast

theorem parenthesized : ReadsTarget root bounds fs e (3 * sizeOf e + 2)
    (Expr.wrappedTokens true (Expr.tokens root fs.shown e)) :=
  (h.whole fun _ _ => Nat.zero_le _).parenthesized

/-- As the target of a member or an aggregate. -/
theorem wrappedTarget : ReadsTarget root bounds fs e (3 * sizeOf e + 2)
    (Expr.wrappedTokens e.wrapsTarget (Expr.tokens root fs.shown e)) := by
  cases hwraps : e.wrapsTarget with
  | true => exact h.parenthesized
  | false => exact (h.target hwraps).mono (by omega)

/-- As the operand of a prefix operator. -/
theorem wrappedUnary {wrap : Bool} (hwrap : e.precedence? = none ∨ wrap = true) :
    ReadsUnary root bounds fs e (3 * sizeOf e + 2)
      (Expr.wrappedTokens wrap (Expr.tokens root fs.shown e)) := by
  cases wrap with
  | true => exact h.parenthesized.unary (by omega)
  | false =>
      rcases hwrap with he | hwrap
      · exact (h.unary he).mono (by omega)
      · cases hwrap

/-- As an operand of an infix operator, in parentheses where it binds less tightly than `least`. -/
theorem wrappedOperand {least : Nat} {wrap : Bool}
    (hwrap : wrap = false → ∀ p ∈ e.precedence?, least ≤ p) :
    ∃ level : Option Nat, (∀ p ∈ level, least ≤ p) ∧
      ReadsOperand root bounds fs e level (3 * sizeOf e + 2)
        (Expr.wrappedTokens wrap (Expr.tokens root fs.shown e)) := by
  cases wrap with
  | true => exact ⟨none, nofun, (h.parenthesized.unary (by omega)).operand⟩
  | false => exact ⟨e.precedence?, hwrap rfl, h.operand.mono (by omega)⟩

end Reads

theorem precedence?_of_not_wrapped {e : Expr} (h : e.wrapsTarget = false) : e.precedence? = none := by
  cases e <;> first | rfl | cases h

/-- In front of a member, the first token is a parenthesis or that of the target. -/
theorem exists_first_wrapped {target : Expr} {shown : ShownNames} (more : List Token)
    (h : target.precedence? = none →
      ∃ t ts, Expr.tokens root shown target = t :: ts ∧ isNumberToken t = false) :
    ∃ t ts, Expr.wrappedTokens target.wrapsTarget (Expr.tokens root shown target) ++ more = t :: ts ∧
      isNumberToken t = false := by
  cases hwraps : target.wrapsTarget with
  | true => exact ⟨_, _, rfl, rfl⟩
  | false =>
      obtain ⟨t, ts, hts, ht⟩ := h (precedence?_of_not_wrapped hwraps)
      refine ⟨t, ts ++ more, ?_, ht⟩
      rw [hts]
      rfl

/-- No expression but a number, and what starts at one, has a number as its first token. -/
theorem exists_first {shown : ShownNames} : (e : Expr) → Expr.Printable root shown e →
    e.startsAtNumber = false → e.precedence? = none →
    ∃ t ts, Expr.tokens root shown e = t :: ts ∧ isNumberToken t = false
  | .param x, _, _, _ => ⟨_, _, rfl, rfl⟩
  | .constant l, _, hl, _ => by
      cases l with
      | int _ => cases hl
      | float _ => cases hl
      | _ => exact ⟨_, _, rfl, rfl⟩
  | .member target name, hprintable, hstart, _ => by
      rw [Expr.tokens]
      split
      · split <;> exact ⟨_, _, rfl, rfl⟩
      · exact exists_first_wrapped _ (exists_first target hprintable.2 hstart)
  | .unary op operand, _, _, _ => by
      cases op <;> exact ⟨_, _, rfl, rfl⟩
  | .binary .., _, _, hbinary => by cases hbinary
  | .call .., _, _, _ => ⟨_, _, rfl, rfl⟩
  | .aggregate target _, hprintable, hstart, _ =>
      exists_first_wrapped _ (exists_first target hprintable hstart)
  | .aggregateOf target _ _ _, hprintable, hstart, _ =>
      exists_first_wrapped _ (exists_first target hprintable.1 hstart)
  | .row _, hprintable, _, _ => hprintable.elim

/-- What is written behind a minus sign does not start with a number. -/
theorem exists_first_negated {operand : Expr} {shown : ShownNames}
    (hprintable : Expr.Printable root shown operand)
    (hchain : operand.isChain = true → operand.startsAtNumber = false) :
    ∃ t ts, Expr.wrappedTokens (Expr.wrapsOperand .negate operand) (Expr.tokens root shown operand) =
      t :: ts ∧ isNumberToken t = false := by
  cases hwraps : Expr.wrapsOperand .negate operand with
  | true => exact ⟨_, _, rfl, rfl⟩
  | false =>
      -- a number itself is wrapped, so only a chain could start at one
      have hstart : operand.startsAtNumber = false := by
        cases operand <;> first | rfl | exact hchain rfl | cases hwraps
      have hlevel : operand.precedence? = none := by
        cases operand <;> first | rfl | cases hwraps
      exact exists_first operand hprintable hstart hlevel

/-! ## The induction -/

/-- A variable, or the row itself. -/
theorem readsTarget_param {x : String} (hx : fs.shown.lookup x = none → x = root) :
    ReadsTarget root bounds fs (.param x) need [.word ((fs.shown.lookup x).getD "this")] := by
  intro budget rest s hbudget hfits hs hlength hrest
  cases hlookup : fs.shown.lookup x with
  | some name =>
      rw [hlookup] at hs
      obtain ⟨read, hword, hequal⟩ := @Frames.ofWord_variable fs _ root x hfits name hlookup
      obtain ⟨_, depth, _, _, hname, _⟩ := @Frames.exists_variable fs _ root x hfits name hlookup
      -- a shown name is that of a depth, and these are no keywords
      have hnot : Text.sameIgnoringCase name "not" = false := by
        rw [hname]
        exact not_same_of_not_reserved (ShownNames.isReserved_atDepth depth) (by decide)
      exact readsTarget_word hnot hword hequal hbudget hfits hs hlength hrest
  | none =>
      rw [hlookup] at hs
      have hroot := hx hlookup
      subst hroot
      have hequal : Expr.equalUnder (fs.pairing x) (.param x) (.param rowName) = true :=
        Frames.relates_root hfits hlookup
      exact readsTarget_word (by decide) (Frames.ofWord_this fs) hequal hbudget hfits hs hlength hrest

/-- A member of the row, after `this` where it would be read as something else. -/
theorem readsTarget_rowMember {target : Expr} {name : String}
    (hrow : Expr.isRow root fs.shown target = true) :
    ReadsTarget root bounds fs (.member target name) need
      (if fs.shown.hide name then [.word "this", .mark .dot, .word name] else [.word name]) := by
  obtain ⟨hroot, hlookup⟩ : target = .param root ∧ fs.shown.lookup root = none := by
    cases target with
    | param x =>
        simp only [Expr.isRow, Bool.and_eq_true, beq_iff_eq, Option.isNone_iff_eq_none] at hrow
        obtain ⟨rfl, hlookup⟩ := hrow
        exact ⟨rfl, hlookup⟩
    | _ => cases hrow
  subst hroot
  cases hhide : fs.shown.hide name with
  | true =>
      -- the name is read as a member of `this`
      have hthis : ReadsTarget root bounds fs (.param root) need [.word "this"] := by
        have hparam := @readsTarget_param root bounds fs need root fun _ => rfl
        rw [hlookup] at hparam
        exact hparam
      rw [if_pos rfl]
      exact hthis.member name
  | false =>
      rw [if_neg (by decide)]
      -- the name alone is read as a member of the row
      have hreserved : isReserved name = false := by
        rw [ShownNames.hide, Bool.or_eq_false_iff] at hhide
        exact hhide.1
      intro budget rest s hbudget hfits hs hlength hrest
      have hequal : Expr.equalUnder (fs.pairing root) (.member (.param root) name)
          (.member (.param rowName) name) = true := by
        simp [Expr.equalUnder, Frames.relates_root hfits hlookup]
      exact readsTarget_word (not_same_of_not_reserved hreserved (by decide))
        (Frames.ofWord_member hhide) hequal hbudget hfits hs hlength hrest

mutual

/-- **The tokens of an expression are read as the expression**, in each place where it can stand. -/
theorem reads : (e : Expr) → (fs : Frames) → Expr.Printable root fs.shown e → Expr.Readable e →
    Reads root bounds fs e
  | .param x, fs, hx, _ => .ofTarget rfl (readsTarget_param hx) (by simp)
  | .constant l, fs, _, hl => .ofTarget rfl (readsTarget_constant hl) (by simp)
  | .member target name, fs, hprintable, hreadable => by
      refine .ofTarget rfl ?_ (by simp)
      rw [Expr.tokens]
      split
      · rename_i hrow
        -- the row is not written in front of its members
        exact readsTarget_rowMember hrow
      · have htarget := reads target fs hprintable.2 hreadable
        refine (htarget.wrappedTarget.mono ?_).member name
        simp only [Expr.member.sizeOf_spec]
        omega
  | .unary .not operand, fs, hprintable, hreadable => by
      have hoperand := reads operand fs hprintable hreadable.2
      have hwrap : operand.precedence? = none ∨ Expr.wrapsOperand .not operand = true := by
        cases operand <;> first | exact .inl rfl | exact .inr rfl
      refine .ofUnary rfl rfl ((hoperand.wrappedUnary hwrap).not.mono ?_)
      simp only [Expr.unary.sizeOf_spec]
      omega
  | .unary .negate operand, fs, hprintable, hreadable => by
      have hoperand := reads operand fs hprintable hreadable.2
      have hwrap : operand.precedence? = none ∨ Expr.wrapsOperand .negate operand = true := by
        cases operand <;> first | exact .inl rfl | exact .inr rfl
      have hwrapped := hoperand.wrappedUnary hwrap
      have hprintableOperand : Expr.Printable root fs.shown operand := hprintable
      -- a number behind the sign would be read as a negative one
      obtain ⟨t, ts, hts, ht⟩ := exists_first_negated hprintableOperand (hreadable.1 rfl)
      refine .ofUnary rfl rfl ?_
      rw [Expr.tokens, hts]
      rw [hts] at hwrapped
      refine (hwrapped.negate ht).mono ?_
      simp only [Expr.unary.sizeOf_spec]
      omega
  | .binary op left right, fs, hprintable, hreadable => by
      have hleft := reads left fs hprintable.1 hreadable.1
      have hright := reads right fs hprintable.2 hreadable.2
      -- operands that bind too loosely are in parentheses, on the right also those that bind alike
      have hloose : left.precedence?.any (· < op.precedence) = false →
          ∀ p ∈ left.precedence?, op.precedence ≤ p := by
        intro hany p hp
        rw [hp, Option.any_some, decide_eq_false_iff_not] at hany
        omega
      have htight : right.precedence?.any (· ≤ op.precedence) = false →
          ∀ p ∈ right.precedence?, op.precedence + 1 ≤ p := by
        intro hany p hp
        rw [hp, Option.any_some, decide_eq_false_iff_not] at hany
        omega
      obtain ⟨level, hlevel, hleftOperand⟩ := hleft.wrappedOperand hloose
      obtain ⟨_, hlevelRight, hrightOperand⟩ := hright.wrappedOperand htight
      have hsize : sizeOf (Expr.binary op left right) = 1 + sizeOf op + sizeOf left + sizeOf right := by
        simp
      refine ⟨nofun, nofun, ?_⟩
      exact (hleftOperand.mono (by omega)).binary hlevel
        ((hrightOperand.whole hlevelRight).mono (by omega))
  | .call f arguments, fs, hprintable, hreadable => by
      have harguments := readsList arguments fs hprintable.2 hreadable
      have hsize : sizeOf (Expr.call f arguments) = 1 + sizeOf f + sizeOf arguments := by simp
      -- one bound does for all arguments, as none is larger than their list
      have hwhole : ∀ e ∈ arguments, ReadsWhole root bounds fs e 0 (3 * sizeOf arguments)
          (Expr.tokens root fs.shown e) := by
        intro e he
        have hsmaller := List.sizeOf_lt_of_mem he
        exact ((harguments e he).whole fun _ _ => Nat.zero_le _).mono (by omega)
      exact .ofTarget rfl ((readsTarget_call hprintable.1 hwhole).mono (by omega)) (by omega)
  | .aggregate target a, fs, hprintable, hreadable => by
      have htarget := reads target fs hprintable hreadable
      refine .ofTarget rfl ((htarget.wrappedTarget.mono ?_).aggregate a) (by simp)
      simp only [Expr.aggregate.sizeOf_spec]
      omega
  | .aggregateOf target a x body, fs, hprintable, hreadable => by
      have htarget := reads target fs hprintable.1 hreadable.1
      have hsize : sizeOf (Expr.aggregateOf target a x body) =
          1 + sizeOf target + sizeOf a + sizeOf x + sizeOf body := by
        simp
      have hshown : ∀ n, Frames.shown ((x, n) :: fs) =
          (x, ShownNames.atDepth fs.shown.length) :: fs.shown := by
        intro n
        rw [Frames.shown, Frames.length_shown]
      obtain ⟨need, hneed⟩ : ∃ need, 3 * sizeOf (Expr.aggregateOf target a x body) = need + 1 :=
        ⟨3 * sizeOf (Expr.aggregateOf target a x body) - 1, by omega⟩
      -- the body is read under one more variable, whatever its number is
      have hbody : ∀ n, ReadsWhole root bounds ((x, n) :: fs) body 0 need
          (Expr.tokens root ((x, ShownNames.atDepth fs.shown.length) :: fs.shown) body) := by
        intro n
        have hinside := reads body ((x, n) :: fs) (by rw [hshown]; exact hprintable.2) hreadable.2
        have hread := (hinside.whole fun _ _ => Nat.zero_le _).mono (by omega : _ ≤ need)
        rw [hshown] at hread
        exact hread
      have hread := (htarget.wrappedTarget.mono (by omega : _ ≤ need + 1)).aggregateOf hbody a
      refine .ofTarget rfl ?_ (by omega)
      rw [hneed, Expr.tokens]
      rw [← Frames.length_shown] at hread
      exact hread
  | .row _, _, hprintable, _ => hprintable.elim

theorem readsList : (es : List Expr) → (fs : Frames) → Expr.PrintableList root fs.shown es →
    Expr.ReadableList es → ∀ e ∈ es, Reads root bounds fs e
  | [], _, _, _, _, he => by cases he
  | first :: rest, fs, hprintable, hreadable, e, he => by
      rcases List.mem_cons.1 he with heq | hmem
      · rw [heq]
        exact reads first fs hprintable.1 hreadable.1
      · exact readsList rest fs hprintable.2 hreadable.2 e hmem

end

/-! ## Whole texts -/

theorem State.isAtWord_nil (h : s.tokens = []) (word : String) : s.isAtWord word = false := by
  have hahead : s.ahead = [] := List.map_eq_nil_iff.1 h
  simp only [State.isAtWord, hahead]

/-- What is read up to the last token of a text is read from the text. -/
theorem exists_readAll {α : Type} {p : Bounds → Parser α} {Q : α → Prop} {text : String} {limit : Nat}
    (hlexes : Token.Lexes text.toList ts)
    (h : ∀ bounds s, bounds.nesting = limit → s.tokens = ts → s.tokens.length < bounds.tokens →
      Frames.Fits [] s.nextVariable →
      ∃ a after, Q a ∧ after.tokens = [] ∧ (p bounds).runOn s = (.ok a, after)) :
    ∃ a, Q a ∧ readAll p text limit = .ok a := by
  obtain ⟨lexemes, hscan, htokens⟩ := Token.scan_of_lexes hlexes
  -- no list of tokens that is read is longer than what was scanned
  have hlength : (State.tokens ⟨lexemes, text.utf8ByteSize, 1⟩).length < lexemes.length + 1 := by
    rw [State.tokens, List.length_map]
    exact Nat.lt_succ_self _
  obtain ⟨a, after, ha, hafter, hrun⟩ :=
    h ⟨limit, lexemes.length + 1⟩ ⟨lexemes, text.utf8ByteSize, 1⟩ rfl htokens hlength Nat.one_pos
  -- nothing is left, so the end is where it is expected
  have hempty : after.ahead = [] := List.map_eq_nil_iff.1 hafter
  refine ⟨a, ha, ?_⟩
  unfold readAll
  rw [hscan]
  show ((do
    let a ← p ⟨limit, lexemes.length + 1⟩
    expectEnd
    pure a : Parser α).runOn ⟨lexemes, text.utf8ByteSize, 1⟩).1 = .ok a
  rw [Action.runOn_bind, hrun]
  dsimp only
  rw [Action.runOn_bind]
  simp only [expectEnd, Action.look, Action.runOn_ofFunction, hempty, List.isEmpty_nil, if_true]
  rfl

/-- An expression at the start of a text. -/
theorem runOn_expr (hprintable : Expr.Printable root [] e) (hreadable : e.Readable)
    (hlimit : 3 * sizeOf e + 1 ≤ bounds.nesting) {rest : List Token}
    (hs : s.tokens = Expr.tokens root [] e ++ rest) (hlength : s.tokens.length ≤ bounds.tokens)
    (hfits : Frames.Fits [] s.nextVariable) (hrest : Detached rest) (hlead : leadOperator? rest = none) :
    ∃ read after, Expr.equalUnder [(root, rowName)] e read = true ∧ after.tokens = rest ∧
      Frames.Fits [] after.nextVariable ∧ (expr bounds).runOn s = (.ok read, after) := by
  have hreads : Reads root bounds [] e := reads e [] hprintable hreadable
  obtain ⟨read, after, hequal, hafter, hnext, hrun⟩ :=
    (hreads.whole fun _ _ => Nat.zero_le _) hlimit hfits hs hlength hrest (by rw [hlead]; nofun)
  exact ⟨read, after, hequal, hafter, hfits.mono hnext, hrun⟩

/-! ## Selections -/

/-- The tokens of the fields of a selected row, with a comma before each. -/
def laterFieldTokens (root : String) : List (String × Expr) → List Token
  | [] => []
  | (name, e) :: rest =>
    .mark .comma ::
      (Expr.tokens root [] e ++ .word "as" :: .word name :: laterFieldTokens root rest)

/-- The tokens of the fields of a selected row, with commas between them. -/
def selectionTokens (root : String) : List (String × Expr) → List Token
  | [] => []
  | (name, e) :: rest =>
    Expr.tokens root [] e ++ .word "as" :: .word name :: laterFieldTokens root rest

/-- The fields have texts: their values have, and their names are identifiers. -/
def PrintableFields (root : String) (fields : List (String × Expr)) : Prop :=
  ∀ f ∈ fields, Text.isIdentifier f.1 = true ∧ Expr.Printable root [] f.2

/-- No two names are the same but for case. -/
def DistinctNames (fields : List (String × Expr)) : Prop :=
  fields.Pairwise fun a b => Text.sameIgnoringCase a.1 b.1 = false

/-- The text of a selection scans to its tokens. -/
theorem selectionText_spec (fields : List (String × Expr)) (hreadable : Expr.ReadableFields fields) :
    ∀ {texts : List String},
      fields.mapM (fun (field, value) => Expr.fieldText root field value) = .ok texts →
        PrintableFields root fields ∧
          Token.Spells (Text.join ", " texts).toList (selectionTokens root fields) := by
  induction fields with
  | nil =>
      intro texts h
      cases h
      exact ⟨nofun, Token.spells_nil⟩
  | cons field rest ih =>
      intro texts h
      obtain ⟨name, e⟩ := field
      rw [List.mapM_cons] at h
      obtain ⟨first, hfirst, h⟩ := Expr.exists_of_bind_eq_ok h
      obtain ⟨others, hothers, h⟩ := Expr.exists_of_bind_eq_ok h
      cases h
      obtain ⟨hprintableRest, hrest⟩ := ih hreadable.2 hothers
      simp only [Expr.fieldText] at hfirst
      split at hfirst
      · rename_i hname
        obtain ⟨value, hvalue, hfirst⟩ := Expr.exists_of_bind_eq_ok hfirst
        cases hfirst
        have hempty : ShownNames.ByDepth [] := trivial
        obtain ⟨hprintable, hspells⟩ := Expr.text_spec hempty e hreadable.1 hvalue
        refine ⟨List.forall_mem_cons.2 ⟨⟨hname, hprintable⟩, hprintableRest⟩, ?_⟩
        have has : Token.Spells "as".toList [.word "as"] := Token.spells_word (by decide)
        have hfield := hspells.then_blank (has.then_blank (Token.spells_word hname))
        cases rest with
        | nil =>
            cases hothers
            simpa [Text.join, selectionTokens, laterFieldTokens] using hfield
        | cons next later =>
            -- a comma is written only if another field follows
            obtain ⟨second, more, hmore⟩ : ∃ second more, others = second :: more := by
              rw [List.mapM_cons] at hothers
              obtain ⟨second, -, hothers⟩ := Expr.exists_of_bind_eq_ok hothers
              obtain ⟨more, -, hothers⟩ := Expr.exists_of_bind_eq_ok hothers
              cases hothers
              exact ⟨second, more, rfl⟩
            rw [hmore] at hrest ⊢
            simpa [Text.join, selectionTokens, laterFieldTokens, Mark.char] using
              hfield.then_mark hrest.blank .comma (by decide)
      · cases hfirst

/-- One field of a selected row, whose name is not taken yet. -/
theorem runOn_selections_field {name : String} {tail : List Token} (done : List (String × Expr))
    (aliased : Bool) (fuel : Nat) (hprintable : Expr.Printable root [] e) (hreadable : e.Readable)
    (hlimit : 3 * sizeOf e + 1 ≤ bounds.nesting)
    (hs : s.tokens = Expr.tokens root [] e ++ .word "as" :: .word name :: tail)
    (hlength : s.tokens.length ≤ bounds.tokens) (hfits : Frames.Fits [] s.nextVariable)
    (hdone : ∀ d ∈ done, Text.sameIgnoringCase d.1 name = false) :
    ∃ read middle, Expr.equalUnder [(root, rowName)] e read = true ∧ middle.tokens = tail ∧
      Frames.Fits [] middle.nextVariable ∧
      (selections bounds (fuel + 1) done aliased).runOn s =
        (do
          if ← takes .comma then selections bounds fuel (done ++ [(name, read)]) true
          else pure (done ++ [(name, read)], true) :
            Parser (List (String × Expr) × Bool)).runOn middle := by
  -- the name of the field starts behind `as`, which is no operator
  have hdetached : Detached (.word "as" :: .word name :: tail) := ⟨nofun, nofun⟩
  have has : BinaryOp.ofKeyword? "as" = none := by decide
  obtain ⟨read, after, hequal, hafter, hfitsAfter, hrun⟩ :=
    runOn_expr hprintable hreadable hlimit hs hlength hfits hdetached has
  have hname := State.tokens_skip hafter
  have hat : after.isAtWord "as" = true := by
    rw [State.isAtWord_of_word hafter]
    decide
  have hfresh : done.any (fun (other, _) => Text.sameIgnoringCase other name) = false := by
    rw [List.any_eq_false]
    intro d hd
    dsimp only
    rw [hdone d hd]
    decide
  refine ⟨read, after.skip.skip, hequal, State.tokens_skip hname, hfitsAfter, ?_⟩
  rw [selections, Action.runOn_bind, hrun]
  dsimp only
  rw [Action.runOn_bind, runOn_takesWord "as" hat]
  simp only [if_true]
  rw [Action.runOn_bind, runOn_identifier hname]
  simp only [hfresh, Bool.or_true]
  rfl

/-- The fields of a selected row are read one after another. -/
theorem runOn_selections (fields : List (String × Expr)) :
    ∀ (field : String × Expr) (done : List (String × Expr)) (aliased : Bool) {fuel : Nat} {s : State},
      PrintableFields root (field :: fields) → Expr.ReadableFields (field :: fields) →
      3 * sizeOf (field :: fields) ≤ bounds.nesting →
      s.tokens = selectionTokens root (field :: fields) → s.tokens.length ≤ bounds.tokens →
      s.tokens.length ≤ fuel → Frames.Fits [] s.nextVariable →
      (∀ d ∈ done, ∀ f ∈ field :: fields, Text.sameIgnoringCase d.1 f.1 = false) →
      DistinctNames (field :: fields) →
      ∃ reads after, Expr.equalFields [(root, rowName)] (field :: fields) reads = true ∧
        after.tokens = [] ∧
        (selections bounds fuel done aliased).runOn s = (.ok (done ++ reads, true), after) := by
  induction fields with
  | nil =>
      intro field done aliased fuel s hprintable hreadable hlimit hs hlength hfuel hfits hdone _
      obtain ⟨name, e⟩ := field
      have hvalue : Expr.Printable root [] e := (hprintable _ List.mem_cons_self).2
      have hsize : sizeOf [(name, e)] = 1 + (1 + sizeOf name + sizeOf e) + 1 := by simp
      obtain ⟨fuel, rfl⟩ : ∃ k, fuel = k + 1 := by
        refine ⟨fuel - 1, ?_⟩
        rw [hs, selectionTokens, List.length_append, List.length_cons] at hfuel
        omega
      obtain ⟨read, middle, hequal, hmiddle, -, hrun⟩ :=
        runOn_selections_field done aliased fuel hvalue hreadable.1 (by omega) hs hlength hfits
          fun d hd => hdone d hd _ List.mem_cons_self
      -- no comma, so this was the last field
      have hcomma : middle.tokens.head? ≠ some (.mark .comma) := by
        rw [hmiddle]
        nofun
      refine ⟨[(name, read)], middle, ?_, hmiddle, ?_⟩
      · simp [Expr.equalFields, hequal]
      · rw [hrun, Action.runOn_bind, runOn_takes_of_ne hcomma]
        rfl
  | cons next rest ih =>
      intro field done aliased fuel s hprintable hreadable hlimit hs hlength hfuel hfits hdone hdistinct
      obtain ⟨name, e⟩ := field
      have hvalue : Expr.Printable root [] e := (hprintable _ List.mem_cons_self).2
      have hsize : sizeOf ((name, e) :: next :: rest) =
          1 + (1 + sizeOf name + sizeOf e) + sizeOf (next :: rest) := by
        simp
      have htokens : selectionTokens root ((name, e) :: next :: rest) = Expr.tokens root [] e ++
          .word "as" :: .word name :: .mark .comma :: selectionTokens root (next :: rest) := rfl
      rw [htokens] at hs
      have hcount : s.tokens.length = (Expr.tokens root [] e).length +
          ((selectionTokens root (next :: rest)).length + 3) := by
        rw [hs, List.length_append]
        rfl
      obtain ⟨fuel, rfl⟩ : ∃ k, fuel = k + 1 := ⟨fuel - 1, by omega⟩
      obtain ⟨read, middle, hequal, hmiddle, hfitsMiddle, hrun⟩ :=
        runOn_selections_field done aliased fuel hvalue hreadable.1 (by omega) hs hlength hfits
          fun d hd => hdone d hd _ List.mem_cons_self
      have hrest := State.tokens_skip hmiddle
      have hdistinctRest := List.pairwise_cons.1 hdistinct
      -- the names behind the comma differ from those read, this one included
      have hdoneRest : ∀ d ∈ done ++ [(name, read)], ∀ f ∈ next :: rest,
          Text.sameIgnoringCase d.1 f.1 = false := by
        intro d hd f hf
        rcases List.mem_append.1 hd with hd | hd
        · exact hdone d hd f (List.mem_cons_of_mem _ hf)
        · rw [List.mem_singleton.1 hd]
          exact hdistinctRest.1 f hf
      have hfitsSkip : Frames.Fits [] middle.skip.nextVariable := hfitsMiddle
      obtain ⟨reads, after, hequals, hafter, hrunAfter⟩ :=
        ih next (done ++ [(name, read)]) true
          (fun f hf => hprintable f (List.mem_cons_of_mem _ hf)) hreadable.2 (by omega) hrest
          (by rw [hrest]; omega) (by rw [hrest]; omega : middle.skip.tokens.length ≤ fuel)
          hfitsSkip hdoneRest hdistinctRest.2
      refine ⟨(name, read) :: reads, after, ?_, hafter, ?_⟩
      · simp [Expr.equalFields, hequal, hequals]
      · rw [hrun, Action.runOn_bind, runOn_takes hmiddle]
        simp only [if_true]
        rw [hrunAfter, List.append_assoc]
        rfl

/-- Where an alias is written, a row is selected. -/
theorem selected_aliased (fields : List (String × Expr)) : selected (fields, true) = .row fields := by
  unfold selected
  split
  · rename_i heq
    cases heq
  · rename_i heq
    cases heq
    rfl

end Parser

/-! ## Round trips -/

variable {l : Lambda} {text : String} {limit : Nat}

namespace Lambda

/-- The text of a lambda is read as the lambda. -/
theorem exists_parse (hreadable : l.body.Readable) (htext : l.text = .ok text)
    (hlimit : 3 * sizeOf l.body + 1 ≤ limit) :
    ∃ m, Lambda.parse text limit = .ok m ∧ l.equal m = true := by
  have hempty : ShownNames.ByDepth [] := trivial
  obtain ⟨hprintable, hspells⟩ := Expr.text_spec hempty l.body hreadable htext
  have hlexes := hspells [] [] .nil .nil
  have hbody : ∃ body, Expr.equalUnder [(l.parameter, Parser.rowName)] l.body body = true ∧
      Parser.readAll Parser.expr text limit = .ok body := by
    rw [List.append_nil] at hlexes
    refine Parser.exists_readAll hlexes fun bounds s hnesting hs hlength hfits => ?_
    obtain ⟨read, after, hequal, hafter, -, hrun⟩ :=
      Parser.runOn_expr hprintable hreadable (by omega) hs (Nat.le_of_lt hlength) hfits
        ⟨nofun, nofun⟩ rfl
    exact ⟨read, after, hequal, hafter, hrun⟩
  obtain ⟨body, hequal, hread⟩ := hbody
  refine ⟨⟨Parser.rowName, body⟩, ?_, hequal⟩
  rw [Lambda.parse, hread]
  rfl

/-- The text of a single value is read as a selection of this value. -/
theorem exists_parseSelection_value (hreadable : l.body.Readable) (htext : l.text = .ok text)
    (hlimit : 3 * sizeOf l.body + 1 ≤ limit) :
    ∃ m, Lambda.parseSelection text limit = .ok m ∧ l.equal m = true := by
  have hempty : ShownNames.ByDepth [] := trivial
  obtain ⟨hprintable, hspells⟩ := Expr.text_spec hempty l.body hreadable htext
  have hlexes := hspells [] [] .nil .nil
  have hselected : ∃ selected : List (String × Expr) × Bool,
      Expr.equalUnder [(l.parameter, Parser.rowName)] l.body (Parser.selected selected) = true ∧
        Parser.readAll (fun bounds => Parser.selections bounds bounds.tokens [] false) text limit =
          .ok selected := by
    rw [List.append_nil] at hlexes
    refine Parser.exists_readAll hlexes fun bounds s hnesting hs hlength hfits => ?_
    obtain ⟨read, after, hequal, hafter, -, hrun⟩ :=
      Parser.runOn_expr hprintable hreadable (by omega) hs (Nat.le_of_lt hlength) hfits
        ⟨nofun, nofun⟩ rfl
    have hcomma : after.tokens.head? ≠ some (.mark .comma) := by
      rw [hafter]
      nofun
    -- neither a name nor a comma follows
    have has := Parser.State.isAtWord_nil hafter "as"
    obtain ⟨turns, hturns⟩ : ∃ k, bounds.tokens = k + 1 := ⟨bounds.tokens - 1, by omega⟩
    refine ⟨([(Parser.impliedAlias 1 read, read)], false), after, hequal, hafter, ?_⟩
    rw [hturns, Parser.selections, Action.runOn_bind, hrun]
    dsimp only
    rw [Action.runOn_bind, Parser.runOn_takesWord_of_not "as" has]
    simp only [Bool.false_eq_true, if_false]
    rw [Action.runOn_bind, Action.runOn_pure]
    simp only [List.any_nil, Bool.false_eq_true, if_false]
    rw [Action.runOn_bind, Parser.runOn_takes_of_ne hcomma]
    rfl
  obtain ⟨selected, hequal, hread⟩ := hselected
  refine ⟨⟨Parser.rowName, Parser.selected selected⟩, ?_, hequal⟩
  rw [Lambda.parseSelection]
  simp only [hread]
  rfl

/-- The text of the fields of a row is read as the row. -/
theorem exists_parseSelection_row {field : String × Expr} {fields : List (String × Expr)}
    (hbody : l.body = .row (field :: fields)) (hreadable : l.body.Readable)
    (hdistinct : Parser.DistinctNames (field :: fields)) (htext : l.selectionText = .ok text)
    (hlimit : 3 * sizeOf l.body ≤ limit) :
    ∃ m, Lambda.parseSelection text limit = .ok m ∧ l.equal m = true := by
  rw [hbody] at hreadable hlimit
  simp only [selectionText, hbody] at htext
  obtain ⟨texts, htexts, htext⟩ := Expr.exists_of_bind_eq_ok htext
  cases htext
  obtain ⟨hprintable, hspells⟩ := Parser.selectionText_spec (field :: fields) hreadable htexts
  have hlexes := hspells [] [] .nil .nil
  have hsize : sizeOf (Expr.row (field :: fields)) = 1 + sizeOf (field :: fields) := by simp
  have hselected : ∃ selected : List (String × Expr) × Bool,
      Expr.equalUnder [(l.parameter, Parser.rowName)] (.row (field :: fields))
          (Parser.selected selected) = true ∧
        Parser.readAll (fun bounds => Parser.selections bounds bounds.tokens [] false)
          (Text.join ", " texts) limit = .ok selected := by
    rw [List.append_nil, List.append_nil] at hlexes
    refine Parser.exists_readAll hlexes fun bounds s hnesting hs hlength hfits => ?_
    obtain ⟨reads, after, hequal, hafter, hrun⟩ :=
      Parser.runOn_selections fields field [] false hprintable hreadable (by omega) hs
        (Nat.le_of_lt hlength) (Nat.le_of_lt hlength) hfits nofun hdistinct
    refine ⟨(reads, true), after, ?_, hafter, hrun⟩
    rw [Parser.selected_aliased]
    exact hequal
  obtain ⟨selected, hequal, hread⟩ := hselected
  refine ⟨⟨Parser.rowName, Parser.selected selected⟩, ?_, ?_⟩
  · rw [Lambda.parseSelection]
    simp only [hread]
    rfl
  · rw [Lambda.equal, hbody]
    exact hequal

/-- If the body is a row, then no two of its fields have the same name but for case. -/
def HasDistinctNames (l : Lambda) : Prop :=
  ∀ fields, l.body = .row fields → Parser.DistinctNames fields

/-- The text of a selection is read as the selection. -/
theorem exists_parseSelection (hreadable : l.body.Readable) (hdistinct : l.HasDistinctNames)
    (htext : l.selectionText = .ok text) (hlimit : 3 * sizeOf l.body + 1 ≤ limit) :
    ∃ m, Lambda.parseSelection text limit = .ok m ∧ l.equal m = true := by
  cases hbody : l.body with
  | row fields =>
      cases fields with
      | nil =>
          simp only [selectionText, hbody] at htext
          cases htext
      | cons field fields =>
          exact exists_parseSelection_row hbody hreadable (hdistinct _ hbody) htext (by omega)
  | _ =>
      have hplain : l.text = .ok text := by
        simp only [selectionText, hbody] at htext
        exact htext
      exact exists_parseSelection_value hreadable hplain hlimit

end Lambda

/-- The text of a sort key is read as the sort key. -/
theorem SortKey.exists_parse {direction : SortDirection} (hreadable : l.body.Readable)
    (htext : (SortKey.mk l direction).text = .ok text) (hlimit : 3 * sizeOf l.body + 1 ≤ limit) :
    ∃ k, SortKey.parse text limit = .ok k ∧ (SortKey.mk l direction).equal k = true := by
  obtain ⟨key, hkey, htext⟩ := Expr.exists_of_bind_eq_ok htext
  have hempty : ShownNames.ByDepth [] := trivial
  obtain ⟨hprintable, hspells⟩ := Expr.text_spec hempty l.body hreadable hkey
  -- what is written of the direction
  obtain ⟨tail, hlexes, hends, hlead, hdirection⟩ : ∃ tail,
      Token.Lexes text.toList (Expr.tokens l.parameter [] l.body ++ tail) ∧ Parser.Detached tail ∧
        Parser.leadOperator? tail = none ∧
        ∀ s : Parser.State, s.tokens = tail →
          ∃ after, after.tokens = [] ∧ Parser.direction.runOn s = (.ok direction, after) := by
    cases direction with
    | ascending =>
        cases htext
        refine ⟨[], ?_, ⟨nofun, nofun⟩, rfl, fun s hs => ⟨s, hs, ?_⟩⟩
        · have hlexes := hspells [] [] .nil .nil
          rw [List.append_nil] at hlexes
          exact hlexes
        · rw [Parser.direction, Action.runOn_bind,
            Parser.runOn_takesWord_of_not "desc" (Parser.State.isAtWord_nil hs "desc")]
          simp only [Bool.false_eq_true, if_false]
          rw [Action.runOn_bind,
            Parser.runOn_takesWord_of_not "asc" (Parser.State.isAtWord_nil hs "asc")]
          rfl
    | descending =>
        cases htext
        refine ⟨[.word "desc"], ?_, ⟨nofun, nofun⟩, by decide, fun s hs => ⟨s.skip, ?_, ?_⟩⟩
        · have hdesc : Token.Spells "desc".toList [.word "desc"] := Token.spells_word (by decide)
          have hlexes := hspells.then_blank hdesc [] [] .nil .nil
          rw [List.append_nil, List.append_nil] at hlexes
          rw [String.toList_append]
          exact hlexes
        · exact Parser.State.tokens_skip hs
        · have hat : s.isAtWord "desc" = true := by
            rw [Parser.State.isAtWord_of_word hs]
            decide
          rw [Parser.direction, Action.runOn_bind, Parser.runOn_takesWord "desc" hat]
          rfl
  have hread : ∃ k, (SortKey.mk l direction).equal k = true ∧
      Parser.readAll (fun bounds => do
        let body ← Parser.expr bounds
        let direction ← Parser.direction
        Parser.expectOneKey
        pure (SortKey.mk ⟨Parser.rowName, body⟩ direction)) text limit = .ok k := by
    refine Parser.exists_readAll hlexes fun bounds s hnesting hs hlength hfits => ?_
    obtain ⟨read, middle, hequal, hmiddle, -, hrun⟩ :=
      Parser.runOn_expr hprintable hreadable (by omega) hs (Nat.le_of_lt hlength) hfits hends hlead
    obtain ⟨after, hafter, hrunDirection⟩ := hdirection middle hmiddle
    have hnotComma : after.isAt .comma = false := by
      rw [← Bool.not_eq_true, Parser.State.isAt_iff, hafter]
      nofun
    refine ⟨⟨⟨Parser.rowName, read⟩, direction⟩, after, ?_, hafter, ?_⟩
    · have hkeys : l.equal ⟨Parser.rowName, read⟩ = true := hequal
      simp [SortKey.equal, hkeys]
    · rw [Action.runOn_bind, hrun]
      dsimp only
      rw [Action.runOn_bind, hrunDirection]
      dsimp only
      rw [Action.runOn_bind]
      simp only [Parser.expectOneKey, Action.look, Action.runOn_ofFunction, hnotComma]
      rfl
  obtain ⟨k, hequal, hread⟩ := hread
  exact ⟨k, hread, hequal⟩

/-- **Texts of expressions read back.** Let the texts of the constants in a lambda stand for the
constants, and let no minus sign be applied to a member or an aggregate of a number. Then the text of the
lambda, its text as a selection if no two fields of a selected row have the same name but for case, and
its text as a sort key of either direction are all read, if enough levels of nesting are allowed, and as
something equal up to the names of variables. -/
theorem Lambda.texts_read_back (l : Lambda) (hreadable : l.body.Readable) :
    (∀ text, l.text = .ok text → ∃ least, ∀ limit, least ≤ limit →
      ∃ m, Lambda.parse text limit = .ok m ∧ l.equal m = true) ∧
    (l.HasDistinctNames → ∀ text, l.selectionText = .ok text → ∃ least, ∀ limit, least ≤ limit →
      ∃ m, Lambda.parseSelection text limit = .ok m ∧ l.equal m = true) ∧
    (∀ direction text, (SortKey.mk l direction).text = .ok text → ∃ least, ∀ limit, least ≤ limit →
      ∃ k, SortKey.parse text limit = .ok k ∧ (SortKey.mk l direction).equal k = true) := by
  refine ⟨fun text htext => ?_, fun hdistinct text htext => ?_, fun direction text htext => ?_⟩
  · exact ⟨_, fun _ hlimit => Lambda.exists_parse hreadable htext hlimit⟩
  · exact ⟨_, fun _ hlimit => Lambda.exists_parseSelection hreadable hdistinct htext hlimit⟩
  · exact ⟨_, fun _ hlimit => SortKey.exists_parse hreadable htext hlimit⟩

/-- The critters that have a weapon called as they are, and were not born before a day. -/
def armed : Lambda :=
  ⟨"c", .binary .and
    (.aggregateOf (.member (.param "c") "Weapons") .any "w"
      (.binary .eq (.member (.param "w") "Name") (.member (.param "c") "x")))
    (.unary .not (.binary .lt (.member (.param "c") "Born")
      (.constant (.dateTime ⟨2020, 1, 2, 3, 4, 5, 0, 0⟩))))⟩

theorem armed_reads_back :
    armed.text =
        .ok "Weapons.any(x:x.Name eq this.x) and not (Born lt datetime'2020-01-02T03:04:05Z')" ∧
      ∃ least, ∀ limit, least ≤ limit →
        ∃ m, Lambda.parse
            "Weapons.any(x:x.Name eq this.x) and not (Born lt datetime'2020-01-02T03:04:05Z')" limit =
          .ok m ∧ armed.equal m = true := by
  have hday : Timestamp.parse? (Timestamp.format ⟨2020, 1, 2, 3, 4, 5, 0, 0⟩) =
      some ⟨2020, 1, 2, 3, 4, 5, 0, 0⟩ := by decide +kernel
  have hreadable : armed.body.Readable := by
    refine ⟨⟨trivial, trivial, trivial⟩, nofun, trivial, _, hday, ?_⟩
    decide +kernel
  have htext : armed.text =
      .ok "Weapons.any(x:x.Name eq this.x) and not (Born lt datetime'2020-01-02T03:04:05Z')" := rfl
  exact ⟨htext, (armed.texts_read_back hreadable).1 _ htext⟩

end ResourceQuery
