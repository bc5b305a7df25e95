import ResourceQuery.Proofs.Expr.Reading

set_option autoImplicit false

/-! # The grammar of expressions, with a level for each precedence

```
level 1   or          left-associative: an operand on the left is of the level itself,
level 2   and         one on the right of the next level
level 3   eq ne lt le gt ge
level 4   add sub
level 5   mul div mod
level 6   'not' and a minus sign before an operand of this level
level 7   primaries with members and aggregates behind them
```

A derivation is a `Form`: a tree with one constructor for each production, which keeps the words and the
parentheses as they were written. What stands at a level is derived at that level or one that binds more
tightly (`Form.level`), and `Form.IsDerived` asks this of every part. The expression of a derivation is
`Form.tree`; it is none where a word stands for nothing or a number does not fit.

The rules for words and signs are those of places: `not` is an operator wherever an operand starts, a
word behind an operand is an operator, a word before a parenthesis is a function or an aggregate, and a
minus sign before a number belongs to the number. Any other word is looked up in the scopes.

Parentheses around a part of a derivation leave a derivation with the same tree
(`Form.Encloses.isDerived`, `Form.Encloses.tree_eq`).
-/

namespace ResourceQuery

/-! ## Tokens of constants -/

namespace Token

/-- The constant that a token is by itself. -/
def literal? : Token → Option Literal
  | .int magnitude => (Word.int64? magnitude).map Literal.int
  | .float magnitude => some (.float magnitude)
  | .string text => some (.string text)
  | .dateTime t => some (.dateTime t)
  | _ => none

theorem literal?_int {m : Nat} {n : Int64} (h : Word.int64? m = some n) :
    (Token.int m).literal? = some (.int n) := by
  rw [literal?, h, Option.map_some]

/-- The constant that a token is behind a minus sign. -/
def negated? : Token → Option Literal
  | .int magnitude => (Word.int64? (-magnitude)).map Literal.int
  | .float magnitude => some (.float (-magnitude))
  | _ => none

theorem negated?_int {m : Nat} {n : Int64} (h : Word.int64? (-m) = some n) :
    (Token.int m).negated? = some (.int n) := by
  rw [negated?, h, Option.map_some]

/-- Only a number has a constant behind a minus sign. -/
theorem isNumberToken_of_negated? {t : Token} {l : Literal} (h : t.negated? = some l) :
    Parser.isNumberToken t = true := by
  cases t <;> first | rfl | cases h

end Token

/-! ## Derivations -/

/-- A derivation of an expression. -/
inductive Form where
  | literal (token : Token)
  | negative (token : Token)
  | word (text : String)
  | group (inner : Form)
  | call (text : String) (function : TextFunction) (arguments : List Form)
  | member (target : Form) (name : String)
  | aggregate (target : Form) (text : String) (aggregate : Aggregate)
  | aggregateOf (target : Form) (text : String) (aggregate : Aggregate) (shown : String) (body : Form)
  | not (text : String) (operand : Form)
  | negate (operand : Form)
  | binary (left : Form) (text : String) (op : BinaryOp) (right : Form)

namespace Form

mutual

/-- The tokens that are derived. -/
def tokens : Form → List Token
  | .literal t => [t]
  | .negative t => [.mark .minus, t]
  | .word text => [.word text]
  | .group inner => .mark .leftParen :: (tokens inner ++ [.mark .rightParen])
  | .call text _ arguments =>
    .word text :: .mark .leftParen :: (argumentTokens arguments ++ [.mark .rightParen])
  | .member target name => tokens target ++ [.mark .dot, .word name]
  | .aggregate target text _ =>
    tokens target ++ [.mark .dot, .word text, .mark .leftParen, .mark .rightParen]
  | .aggregateOf target text _ shown body =>
    tokens target ++ .mark .dot :: .word text :: .mark .leftParen :: .word shown :: .mark .colon ::
      (tokens body ++ [.mark .rightParen])
  | .not text operand => .word text :: tokens operand
  | .negate operand => .mark .minus :: tokens operand
  | .binary left text _ right => tokens left ++ .word text :: tokens right

/-- The tokens of arguments, with commas between them. -/
def argumentTokens : List Form → List Token
  | [] => []
  | f :: rest => tokens f ++ laterTokens rest

/-- The tokens of arguments behind another one. -/
def laterTokens : List Form → List Token
  | [] => []
  | f :: rest => .mark .comma :: (tokens f ++ laterTokens rest)

end

/-- The level of the outermost production. -/
def level : Form → Nat
  | .binary _ _ op _ => op.precedence
  | .not _ _ => 6
  | .negate _ => 6
  | _ => 7

theorem precedence_le_five (op : BinaryOp) : op.precedence ≤ 5 := by
  cases op <;> decide

theorem level_le_seven (f : Form) : f.level ≤ 7 := by
  cases f with
  | binary left text op right => exact Nat.le_trans (precedence_le_five op) (by decide)
  | not text operand => exact Nat.le_succ 6
  | negate operand => exact Nat.le_succ 6
  | _ => exact Nat.le_refl 7

/-- The first token is a number. -/
def startsAtNumber (f : Form) : Bool :=
  (f.tokens.head?.map Parser.isNumberToken).getD false

mutual

/-- Every part of the form is at a level at which it may stand there, and every word is one that may. -/
def IsDerived : Form → Prop
  | .literal t => t.literal?.isSome = true
  | .negative t => t.negated?.isSome = true
  | .word text => Text.sameIgnoringCase text "not" = false
  | .group inner => IsDerived inner
  | .call text function arguments =>
    TextFunction.ofName? text = some function ∧ function.takes arguments.length = true ∧
      AreDerived arguments
  | .member target _ => IsDerived target ∧ 7 ≤ target.level
  | .aggregate target text a => IsDerived target ∧ 7 ≤ target.level ∧ Aggregate.ofName? text = some a
  | .aggregateOf target text a _ body =>
    IsDerived target ∧ 7 ≤ target.level ∧ Aggregate.ofName? text = some a ∧ IsDerived body
  | .not text operand =>
    Text.sameIgnoringCase text "not" = true ∧ IsDerived operand ∧ 6 ≤ operand.level
  | .negate operand => IsDerived operand ∧ 6 ≤ operand.level ∧ operand.startsAtNumber = false
  | .binary left text op right =>
    BinaryOp.ofKeyword? text = some op ∧ IsDerived left ∧ op.precedence ≤ left.level ∧
      IsDerived right ∧ op.precedence + 1 ≤ right.level

/-- The same for a list of forms. -/
def AreDerived : List Form → Prop
  | [] => True
  | f :: rest => IsDerived f ∧ AreDerived rest

end

mutual

/-- The expression of the form, and the number of the variable that is new behind it. -/
def tree (scopes : Parser.Scopes) : Form → (next : Nat) → Option (Expr × Nat)
  | .literal t, next => t.literal?.map fun l => (.constant l, next)
  | .negative t, next => t.negated?.map fun l => (.constant l, next)
  | .word text, next => (Parser.ofWord scopes text).map fun e => (e, next)
  | .group inner, next => tree scopes inner next
  | .call _ function arguments, next => do
    let (es, next) ← trees scopes arguments next
    some (.call function es, next)
  | .member target name, next => do
    let (e, next) ← tree scopes target next
    some (.member e name, next)
  | .aggregate target _ a, next => do
    let (e, next) ← tree scopes target next
    some (.aggregate e a, next)
  | .aggregateOf target _ a shown body, next => do
    let (e, inner) ← tree scopes target next
    let (b, next) ← tree ((shown, numberedName inner) :: scopes) body (inner + 1)
    some (.aggregateOf e a (numberedName inner) b, next)
  | .not _ operand, next => do
    let (e, next) ← tree scopes operand next
    some (.unary .not e, next)
  | .negate operand, next => do
    let (e, next) ← tree scopes operand next
    some (.unary .negate e, next)
  | .binary left _ op right, next => do
    let (e, next) ← tree scopes left next
    let (e', next) ← tree scopes right next
    some (.binary op e e', next)

/-- The expressions of a list of forms. -/
def trees (scopes : Parser.Scopes) : List Form → (next : Nat) → Option (List Expr × Nat)
  | [], next => some ([], next)
  | f :: rest, next => do
    let (e, next) ← tree scopes f next
    let (es, next) ← trees scopes rest next
    some (e :: es, next)

end

/-! What has a tree, production by production. -/

section Tree

variable {scopes : Parser.Scopes} {next after : Nat} {e : Expr} {f : Form}

/-- No part: the variables are numbered on from where they were. -/
theorem treeOfNone_iff {α β : Type} {value : Option α} (put : α → β) {b : β} :
    (value.map fun a => (put a, next)) = some (b, after) ↔ ∃ a, value = some a ∧ put a = b ∧ next = after := by
  simp

/-- One part, whose tree is put into something. -/
theorem treeOfOne_iff {α β : Type} {part : Option (α × Nat)} (put : α → β) {b : β} :
    (part.bind fun (a, next) => some (put a, next)) = some (b, after) ↔
      ∃ a, part = some (a, after) ∧ put a = b := by
  simp [Option.bind_eq_some_iff]

/-- Two parts, of which the second is numbered on from the first. -/
theorem treeOfTwo_iff {α β γ : Type} {first : Option (α × Nat)}
    (second : Nat → Option (β × Nat)) (put : α → Nat → β → γ) {c : γ} :
    (first.bind fun (a, between) => (second between).bind fun (b, next) => some (put a between b, next)) =
        some (c, after) ↔
      ∃ a between b, first = some (a, between) ∧ second between = some (b, after) ∧
        put a between b = c := by
  simp [Option.bind_eq_some_iff]

theorem tree_literal_iff {t : Token} : (literal t).tree scopes next = some (e, after) ↔
    ∃ l, t.literal? = some l ∧ .constant l = e ∧ next = after :=
  treeOfNone_iff Expr.constant

theorem tree_negative_iff {t : Token} : (negative t).tree scopes next = some (e, after) ↔
    ∃ l, t.negated? = some l ∧ .constant l = e ∧ next = after :=
  treeOfNone_iff Expr.constant

theorem tree_word_iff {w : String} : (word w).tree scopes next = some (e, after) ↔
    ∃ read, Parser.ofWord scopes w = some read ∧ read = e ∧ next = after :=
  treeOfNone_iff id

theorem tree_call_iff {w : String} {function : TextFunction} {fs : List Form} :
    (call w function fs).tree scopes next = some (e, after) ↔
      ∃ es, trees scopes fs next = some (es, after) ∧ .call function es = e :=
  treeOfOne_iff (Expr.call function)

theorem tree_member_iff {name : String} : (member f name).tree scopes next = some (e, after) ↔
    ∃ target, f.tree scopes next = some (target, after) ∧ .member target name = e :=
  treeOfOne_iff fun target => Expr.member target name

theorem tree_aggregate_iff {w : String} {a : Aggregate} :
    (aggregate f w a).tree scopes next = some (e, after) ↔
      ∃ target, f.tree scopes next = some (target, after) ∧ .aggregate target a = e :=
  treeOfOne_iff fun target => Expr.aggregate target a

theorem tree_aggregateOf_iff {w shown : String} {a : Aggregate} {body : Form} :
    (aggregateOf f w a shown body).tree scopes next = some (e, after) ↔
      ∃ target inner b, f.tree scopes next = some (target, inner) ∧
        body.tree ((shown, numberedName inner) :: scopes) (inner + 1) = some (b, after) ∧
        .aggregateOf target a (numberedName inner) b = e :=
  treeOfTwo_iff (fun inner => body.tree ((shown, numberedName inner) :: scopes) (inner + 1))
    fun target inner b => Expr.aggregateOf target a (numberedName inner) b

theorem tree_not_iff {w : String} : (not w f).tree scopes next = some (e, after) ↔
    ∃ operand, f.tree scopes next = some (operand, after) ∧ .unary .not operand = e :=
  treeOfOne_iff (Expr.unary .not)

theorem tree_negate_iff : (negate f).tree scopes next = some (e, after) ↔
    ∃ operand, f.tree scopes next = some (operand, after) ∧ .unary .negate operand = e :=
  treeOfOne_iff (Expr.unary .negate)

theorem tree_binary_iff {w : String} {op : BinaryOp} {g : Form} :
    (binary f w op g).tree scopes next = some (e, after) ↔
      ∃ left between right, f.tree scopes next = some (left, between) ∧
        g.tree scopes between = some (right, after) ∧ .binary op left right = e :=
  treeOfTwo_iff (g.tree scopes) fun left _ right => Expr.binary op left right

theorem trees_cons_iff {fs : List Form} {es : List Expr} :
    trees scopes (f :: fs) next = some (es, after) ↔
      ∃ first between rest, f.tree scopes next = some (first, between) ∧
        trees scopes fs between = some (rest, after) ∧ first :: rest = es :=
  treeOfTwo_iff (trees scopes fs) fun first _ rest => first :: rest

end Tree

/-- The tokens are derived with the expression `e`, about the row. -/
structure Derives (f : Form) (ts : List Token) (e : Expr) : Prop where
  tokens : f.tokens = ts
  isDerived : f.IsDerived
  tree : ∃ next, f.tree [] 1 = some (e, next)

/-! ## Nesting -/

mutual

/-- How many levels of nesting reading goes down from the operand that the form starts with. -/
def depth : Form → Nat
  | .literal _ => 1
  | .negative _ => 1
  | .word _ => 1
  | .group inner => depth inner + 2
  | .call _ _ arguments => max 1 (depthOfList arguments)
  | .member target _ => depth target
  | .aggregate target _ _ => depth target
  | .aggregateOf target _ _ _ body => max (depth target) (depth body + 2)
  | .not _ operand => depth operand + 1
  | .negate operand => depth operand + 1
  | .binary left _ _ right => max (depth left) (depth right + 1)

/-- The same for arguments. -/
def depthOfList : List Form → Nat
  | [] => 0
  | f :: rest => max (depth f + 2) (depthOfList rest)

end

theorem depth_pos (f : Form) : 1 ≤ f.depth := by
  induction f using Form.rec (motive_2 := fun _ => True) with
  | nil => trivial
  | cons => trivial
  | _ => simp only [depth]; omega

mutual

/-- Nesting takes tokens: at most two levels to a token. -/
theorem depth_lt : (f : Form) → f.depth < 2 * f.tokens.length
  | .literal _ => by simp [depth, tokens]
  | .negative _ => by simp [depth, tokens]
  | .word _ => by simp [depth, tokens]
  | .group inner => by
      have hinner := depth_lt inner
      simp only [depth, tokens, List.length_cons, List.length_append, List.length_nil]
      omega
  | .call _ _ arguments => by
      have harguments := depthOfList_le arguments
      simp only [depth, tokens, List.length_cons, List.length_append, List.length_nil]
      omega
  | .member target _ => by
      have htarget := depth_lt target
      simp only [depth, tokens, List.length_cons, List.length_append, List.length_nil]
      omega
  | .aggregate target _ _ => by
      have htarget := depth_lt target
      simp only [depth, tokens, List.length_cons, List.length_append, List.length_nil]
      omega
  | .aggregateOf target _ _ _ body => by
      have htarget := depth_lt target
      have hbody := depth_lt body
      simp only [depth, tokens, List.length_cons, List.length_append, List.length_nil]
      omega
  | .not _ operand => by
      have hoperand := depth_lt operand
      simp only [depth, tokens, List.length_cons]
      omega
  | .negate operand => by
      have hoperand := depth_lt operand
      simp only [depth, tokens, List.length_cons]
      omega
  | .binary left _ _ right => by
      have hleft := depth_lt left
      have hright := depth_lt right
      simp only [depth, tokens, List.length_cons, List.length_append]
      omega

theorem depthOfList_le : (fs : List Form) → depthOfList fs ≤ 2 * (argumentTokens fs).length + 1
  | [] => by simp [depthOfList]
  | f :: rest => by
      have hfirst := depth_lt f
      have hrest := depthOfList_le_later rest
      simp only [depthOfList, argumentTokens, List.length_append]
      omega

theorem depthOfList_le_later : (fs : List Form) → depthOfList fs ≤ 2 * (laterTokens fs).length + 1
  | [] => by simp [depthOfList]
  | f :: rest => by
      have hfirst := depth_lt f
      have hrest := depthOfList_le_later rest
      simp only [depthOfList, laterTokens, List.length_cons, List.length_append]
      omega

end

/-! ## Parentheses -/

/-- The second form is the first with a pair of parentheses around one of its parts. -/
inductive Encloses : Form → Form → Prop
  | here (f : Form) : Encloses f (.group f)
  | group {f f' : Form} (h : Encloses f f') : Encloses (.group f) (.group f')
  | call {f f' : Form} (text : String) (function : TextFunction) (before after : List Form)
      (h : Encloses f f') :
      Encloses (.call text function (before ++ f :: after)) (.call text function (before ++ f' :: after))
  | member {f f' : Form} (name : String) (h : Encloses f f') : Encloses (.member f name) (.member f' name)
  | aggregate {f f' : Form} (text : String) (a : Aggregate) (h : Encloses f f') :
      Encloses (.aggregate f text a) (.aggregate f' text a)
  | target {f f' : Form} (text : String) (a : Aggregate) (shown : String) (body : Form)
      (h : Encloses f f') :
      Encloses (.aggregateOf f text a shown body) (.aggregateOf f' text a shown body)
  | body {f f' : Form} (target : Form) (text : String) (a : Aggregate) (shown : String)
      (h : Encloses f f') :
      Encloses (.aggregateOf target text a shown f) (.aggregateOf target text a shown f')
  | not {f f' : Form} (text : String) (h : Encloses f f') : Encloses (.not text f) (.not text f')
  | negate {f f' : Form} (h : Encloses f f') : Encloses (.negate f) (.negate f')
  | left {f f' : Form} (text : String) (op : BinaryOp) (right : Form) (h : Encloses f f') :
      Encloses (.binary f text op right) (.binary f' text op right)
  | right {f f' : Form} (left : Form) (text : String) (op : BinaryOp) (h : Encloses f f') :
      Encloses (.binary left text op f) (.binary left text op f')

/-- Tokens with a pair of parentheses more. -/
def EnclosesTokens (ts ts' : List Token) : Prop :=
  ∃ before part after, part ≠ [] ∧ ts = before ++ (part ++ after) ∧
    ts' = before ++ .mark .leftParen :: (part ++ .mark .rightParen :: after)

theorem EnclosesTokens.within {ts ts' : List Token} (h : EnclosesTokens ts ts')
    (first last : List Token) : EnclosesTokens (first ++ (ts ++ last)) (first ++ (ts' ++ last)) := by
  obtain ⟨before, part, after, hpart, rfl, rfl⟩ := h
  exact ⟨first ++ before, part, after ++ last, hpart, by simp, by simp⟩

theorem tokens_ne_nil (f : Form) : f.tokens ≠ [] := by
  intro hnil
  have hdepth := depth_lt f
  rw [hnil] at hdepth
  exact absurd hdepth (Nat.not_lt_zero _)

theorem argumentTokens_append (before after : List Form) :
    ∃ first, ∀ g : Form,
      argumentTokens (before ++ g :: after) = first ++ (g.tokens ++ laterTokens after) := by
  have hlater : ∀ before : List Form, ∃ first, ∀ g : Form,
      laterTokens (before ++ g :: after) = first ++ (g.tokens ++ laterTokens after) := by
    intro before
    induction before with
    | nil => exact ⟨[.mark .comma], fun g => rfl⟩
    | cons b before ih =>
        obtain ⟨first, hfirst⟩ := ih
        refine ⟨.mark .comma :: (b.tokens ++ first), fun g => ?_⟩
        rw [List.cons_append, laterTokens, hfirst g]
        simp
  cases before with
  | nil => exact ⟨[], fun g => rfl⟩
  | cons b before =>
      obtain ⟨first, hfirst⟩ := hlater before
      refine ⟨b.tokens ++ first, fun g => ?_⟩
      rw [List.cons_append, argumentTokens, hfirst g]
      simp

namespace Encloses

variable {f f' : Form}

theorem tokens_enclosed (h : Encloses f f') : EnclosesTokens f.tokens f'.tokens := by
  induction h with
  | here f => exact ⟨[], f.tokens, [], f.tokens_ne_nil, by simp, by simp [tokens]⟩
  | group _ ih => simpa [tokens] using ih.within [.mark .leftParen] [.mark .rightParen]
  | call text function before after _ ih =>
      obtain ⟨first, hfirst⟩ := argumentTokens_append before after
      have hwithin := ih.within (.word text :: .mark .leftParen :: first)
        (laterTokens after ++ [.mark .rightParen])
      simpa [tokens, hfirst] using hwithin
  | member name _ ih => simpa [tokens] using ih.within [] [.mark .dot, .word name]
  | aggregate text a _ ih =>
      simpa [tokens] using
        ih.within [] [.mark .dot, .word text, .mark .leftParen, .mark .rightParen]
  | target text a shown body _ ih =>
      simpa [tokens] using ih.within [] (.mark .dot :: .word text :: .mark .leftParen :: .word shown ::
        .mark .colon :: (body.tokens ++ [.mark .rightParen]))
  | body target text a shown _ ih =>
      have hwithin := ih.within (target.tokens ++ [.mark .dot, .word text, .mark .leftParen,
        .word shown, .mark .colon]) [.mark .rightParen]
      rw [List.append_assoc, List.append_assoc] at hwithin
      exact hwithin
  | not text _ ih => simpa [tokens] using ih.within [.word text] []
  | negate _ ih => simpa [tokens] using ih.within [.mark .minus] []
  | left text op right _ ih => simpa [tokens] using ih.within [] (.word text :: right.tokens)
  | right left text op _ ih =>
      have hwithin := ih.within (left.tokens ++ [.word text]) []
      rw [List.append_assoc, List.append_assoc, List.append_nil, List.append_nil] at hwithin
      exact hwithin

/-- Parentheses bind more tightly than anything that they could stand for. -/
theorem level_le (h : Encloses f f') : f.level ≤ f'.level := by
  cases h with
  | here f => exact f.level_le_seven
  | _ => exact Nat.le_refl _

/-- The first token stays, or it is an opening parenthesis now. -/
theorem startsAtNumber (h : Encloses f f') (hf : f.startsAtNumber = false) :
    f'.startsAtNumber = false := by
  obtain ⟨before, part, after, hpart, hts, hts'⟩ := h.tokens_enclosed
  unfold Form.startsAtNumber at hf ⊢
  rw [hts']
  rw [hts] at hf
  cases before with
  | nil => rfl
  | cons t before => exact hf

theorem areDerived_append {before after : List Form} (hlist : AreDerived (before ++ f :: after))
    (h : f.IsDerived → f'.IsDerived) : AreDerived (before ++ f' :: after) := by
  induction before with
  | nil => exact ⟨h hlist.1, hlist.2⟩
  | cons b before ih => exact ⟨hlist.1, ih hlist.2⟩

/-- **Parentheses around a part of a derivation leave a derivation.** -/
theorem isDerived (h : Encloses f f') (hf : f.IsDerived) : f'.IsDerived := by
  induction h with
  | here f => exact hf
  | group _ ih => exact ih hf
  | call text function before after _ ih =>
      obtain ⟨hname, htakes, harguments⟩ := hf
      refine ⟨hname, ?_, areDerived_append harguments ih⟩
      simpa using htakes
  | member name h ih => exact ⟨ih hf.1, Nat.le_trans hf.2 h.level_le⟩
  | aggregate text a h ih => exact ⟨ih hf.1, Nat.le_trans hf.2.1 h.level_le, hf.2.2⟩
  | target text a shown body h ih => exact ⟨ih hf.1, Nat.le_trans hf.2.1 h.level_le, hf.2.2⟩
  | body target text a shown _ ih => exact ⟨hf.1, hf.2.1, hf.2.2.1, ih hf.2.2.2⟩
  | not text h ih => exact ⟨hf.1, ih hf.2.1, Nat.le_trans hf.2.2 h.level_le⟩
  | negate h ih => exact ⟨ih hf.1, Nat.le_trans hf.2.1 h.level_le, h.startsAtNumber hf.2.2⟩
  | left text op right h ih =>
      exact ⟨hf.1, ih hf.2.1, Nat.le_trans hf.2.2.1 h.level_le, hf.2.2.2⟩
  | right left text op h ih =>
      exact ⟨hf.1, hf.2.1, hf.2.2.1, ih hf.2.2.2.1, Nat.le_trans hf.2.2.2.2 h.level_le⟩

theorem trees_append {scopes : Parser.Scopes} {before after : List Form}
    (h : ∀ next, f'.tree scopes next = f.tree scopes next) (next : Nat) :
    trees scopes (before ++ f' :: after) next = trees scopes (before ++ f :: after) next := by
  induction before generalizing next with
  | nil => simp only [List.nil_append, trees, h]
  | cons b before ih => simp only [List.cons_append, trees, ih]

/-- **Parentheses around a part of a derivation do not change its tree.** -/
theorem tree_eq (h : Encloses f f') (scopes : Parser.Scopes) (next : Nat) :
    f'.tree scopes next = f.tree scopes next := by
  induction h generalizing scopes next with
  | here f => rfl
  | group _ ih => exact ih scopes next
  | call text function before after _ ih =>
      simp only [tree, trees_append (ih scopes)]
  | _ =>
      rename_i ih
      simp only [tree, ih]

end Encloses

end Form

end ResourceQuery
