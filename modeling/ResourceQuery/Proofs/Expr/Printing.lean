import ResourceQuery.Proofs.Expr.Floats
import ResourceQuery.Proofs.Expr.Precedence
import ResourceQuery.Proofs.Expr.RoundTrip
import ResourceQuery.Proofs.Time.Rfc3339

set_option autoImplicit false

/-! # Derivations of written texts

Every text that is written for an expression has a derivation (`Expr.exists_writes`), and the tree of the
derivation is the expression, up to the names of variables, exactly if the expression is stable
(`Expr.isStable`). There are two ways not to be.

* A float that is not finite has no text of its own, and `null` is written in its place.
* A minus sign before a number is a part of the number. The number itself is put in parentheses where the
  sign is an operator, but a chain of members and aggregates that starts at the number is not.
-/

namespace ResourceQuery

/-! ## Stable expressions -/

/-- The constant is a number whose text has no sign. -/
def Literal.isUnsigned : Literal → Bool
  | .int n => decide (0 ≤ n.toInt)
  | .float x => x.isFinite && !(unsigned x).1
  | _ => false

/-- The text of the constant stands for the constant. -/
def Literal.isStable : Literal → Bool
  | .float x => x.isFinite
  | _ => true

namespace Expr

/-- The expression is a number without a sign, or a chain of members and aggregates of one. -/
def startsUnsigned : Expr → Bool
  | .constant l => l.isUnsigned
  | .member target _ => startsUnsigned target
  | .aggregate target _ => startsUnsigned target
  | .aggregateOf target _ _ _ => startsUnsigned target
  | _ => false

mutual

/-- All floats are finite, and no minus sign is applied to a member or an aggregate of a chain that starts
at a number without a sign. -/
def isStable : Expr → Bool
  | .param _ => true
  | .constant l => l.isStable
  | .member target _ => isStable target
  | .unary op operand =>
    !(op == .negate && operand.isChain && operand.startsUnsigned) && isStable operand
  | .binary _ left right => isStable left && isStable right
  | .call _ arguments => areStable arguments
  | .aggregate target _ => isStable target
  | .aggregateOf target _ _ body => isStable target && isStable body
  | .row fields => fieldsAreStable fields

/-- The same for a list of expressions. -/
def areStable : List Expr → Bool
  | [] => true
  | e :: rest => isStable e && areStable rest

/-- The same for the fields of a row. -/
def fieldsAreStable : List (String × Expr) → Bool
  | [] => true
  | (_, e) :: rest => isStable e && fieldsAreStable rest

end

mutual

/-- Every timestamp is one that a text can write. -/
def HasProperTimes : Expr → Prop
  | .param _ => True
  | .constant l => ∀ t, l = .dateTime t → t.isProper = true
  | .member target _ => HasProperTimes target
  | .unary _ operand => HasProperTimes operand
  | .binary _ left right => HasProperTimes left ∧ HasProperTimes right
  | .call _ arguments => HaveProperTimes arguments
  | .aggregate target _ => HasProperTimes target
  | .aggregateOf target _ _ body => HasProperTimes target ∧ HasProperTimes body
  | .row _ => True

/-- The same for a list of expressions. -/
def HaveProperTimes : List Expr → Prop
  | [] => True
  | e :: rest => HasProperTimes e ∧ HaveProperTimes rest

end

end Expr

/-! ## Signs before derivations -/

namespace Form

/-- The form with a minus sign at its start, where that is a part of a number. -/
def signed : Form → Form
  | .literal t => .negative t
  | .member target name => .member (signed target) name
  | .aggregate target text a => .aggregate (signed target) text a
  | .aggregateOf target text a shown body => .aggregateOf (signed target) text a shown body
  | f => .negate f

variable {f : Form}

theorem startsAtNumber_append {g : Form} {more : List Token} (h : g.tokens = f.tokens ++ more) :
    g.startsAtNumber = f.startsAtNumber := by
  obtain ⟨t, ts, hts⟩ := List.exists_cons_of_ne_nil f.tokens_ne_nil
  unfold startsAtNumber
  rw [h, hts]
  rfl

/-- What the sign of a number does to a form that starts at the number: the form is derived as it was, and
its tree is a number, a member or an aggregate. -/
structure Signs (f g : Form) : Prop where
  tokens : g.tokens = .mark .minus :: f.tokens
  isDerived : g.IsDerived
  level : 7 ≤ g.level
  tree : ∀ {scopes : Parser.Scopes} {next after : Nat} {e : Expr}, f.tree scopes next = some (e, after) →
    ∃ e', g.tree scopes next = some (e', after) ∧
      ∀ bound op operand, Expr.equalUnder bound (.unary op operand) e' = false

theorem Signs.literal {t : Token} (ht : (Form.literal t).IsDerived)
    (hstart : (Form.literal t).startsAtNumber = true) : Signs (.literal t) (.negative t) := by
  have hnegated : ∃ l, t.negated? = some l := by
    cases t with
    | int m =>
        -- what has no sign can have one
        obtain ⟨l, hl⟩ := Option.isSome_iff_exists.mp ht
        rw [Token.literal?, Option.map_eq_some_iff] at hl
        obtain ⟨n, hn, -⟩ := hl
        have hfits : -Word.int64Bound ≤ -(m : Int) ∧ -(m : Int) < Word.int64Bound := by
          unfold Word.int64? at hn
          split at hn
          · rename_i hbounds
            omega
          · cases hn
        refine ⟨.int (Int64.ofInt (-m)), ?_⟩
        rw [Token.negated?, Word.int64?, if_pos hfits]
        rfl
    | float x => exact ⟨_, rfl⟩
    | _ => cases hstart
  obtain ⟨l, hl⟩ := hnegated
  refine ⟨rfl, Option.isSome_of_eq_some hl, Nat.le_refl 7, fun htree => ?_⟩
  obtain ⟨_, _, _, rfl⟩ := tree_literal_iff.mp htree
  exact ⟨.constant l, tree_negative_iff.mpr ⟨l, hl, rfl, rfl⟩, fun _ _ _ => rfl⟩

theorem Signs.member {g : Form} (h : Signs f g) (name : String) :
    Signs (.member f name) (.member g name) := by
  refine ⟨by rw [Form.tokens, Form.tokens, h.tokens]; rfl, ⟨h.isDerived, h.level⟩, Nat.le_refl 7,
    fun htree => ?_⟩
  obtain ⟨target, htarget, -⟩ := tree_member_iff.mp htree
  obtain ⟨e', htree', -⟩ := h.tree htarget
  exact ⟨.member e' name, tree_member_iff.mpr ⟨e', htree', rfl⟩, fun _ _ _ => rfl⟩

theorem Signs.aggregate {g : Form} (h : Signs f g) {text : String} {a : Aggregate}
    (hname : Aggregate.ofName? text = some a) : Signs (.aggregate f text a) (.aggregate g text a) := by
  refine ⟨by rw [Form.tokens, Form.tokens, h.tokens]; rfl, ⟨h.isDerived, h.level, hname⟩, Nat.le_refl 7,
    fun htree => ?_⟩
  obtain ⟨target, htarget, -⟩ := tree_aggregate_iff.mp htree
  obtain ⟨e', htree', -⟩ := h.tree htarget
  exact ⟨.aggregate e' a, tree_aggregate_iff.mpr ⟨e', htree', rfl⟩, fun _ _ _ => rfl⟩

theorem Signs.aggregateOf {g : Form} (h : Signs f g) {text : String} {a : Aggregate}
    (hname : Aggregate.ofName? text = some a) (shown : String) {body : Form} (hbody : body.IsDerived) :
    Signs (.aggregateOf f text a shown body) (.aggregateOf g text a shown body) := by
  refine ⟨by rw [Form.tokens, Form.tokens, h.tokens]; rfl, ⟨h.isDerived, h.level, hname, hbody⟩,
    Nat.le_refl 7, fun htree => ?_⟩
  obtain ⟨target, between, inner, htarget, hinner, -⟩ := tree_aggregateOf_iff.mp htree
  obtain ⟨e', htree', -⟩ := h.tree htarget
  exact ⟨.aggregateOf e' a (numberedName between) inner,
    tree_aggregateOf_iff.mpr ⟨e', between, inner, htree', hinner, rfl⟩, fun _ _ _ => rfl⟩

/-- A minus sign before an operand that starts at a number is the sign of the number. -/
theorem signs : (f : Form) → f.IsDerived → 6 ≤ f.level → f.startsAtNumber = true → Signs f f.signed
  | .literal _, h, _, hstart => .literal h hstart
  | .member target name, h, _, hstart =>
      (signs target h.1 (Nat.le_of_succ_le h.2)
        (by rw [← hstart]; exact (startsAtNumber_append rfl).symm)).member name
  | .aggregate target _ _, h, _, hstart =>
      (signs target h.1 (Nat.le_of_succ_le h.2.1)
        (by rw [← hstart]; exact (startsAtNumber_append rfl).symm)).aggregate h.2.2
  | .aggregateOf target _ _ shown _, h, _, hstart =>
      (signs target h.1 (Nat.le_of_succ_le h.2.1)
        (by rw [← hstart]; exact (startsAtNumber_append rfl).symm)).aggregateOf h.2.2.1 shown h.2.2.2
  | .binary _ _ op _, _, hlevel, _ =>
      absurd hlevel (Nat.not_le_of_lt (Nat.lt_succ_of_le (precedence_le_five op)))

/-- The form in parentheses if `wrap`. -/
def wrapped (wrap : Bool) (f : Form) : Form :=
  if wrap then .group f else f

/-! ## Derivations for expressions -/

/-- The text `text`, which was written for the expression `e`, has the derivation `f`, and its tree is the
expression exactly if that is stable. -/
structure Writes (root : String) (shown : ShownNames) (e : Expr) (text : String) (f : Form) : Prop where
  spells : Token.Spells text.toList f.tokens
  isDerived : f.IsDerived
  tree : ∀ ⦃fs : Frames⦄ ⦃next : Nat⦄, fs.shown = shown → fs.Fits next →
    ∃ read after, f.tree fs.scopes next = some (read, after) ∧ next ≤ after ∧
      Expr.equalUnder (fs.pairing root) e read = e.isStable

/-- The same for arguments. -/
structure WritesAll (root : String) (shown : ShownNames) (es : List Expr) (texts : List String)
    (fs : List Form) : Prop where
  spells : Token.Spells (Text.join "," texts).toList (argumentTokens fs)
  areDerived : AreDerived fs
  trees : ∀ ⦃frames : Frames⦄ ⦃next : Nat⦄, frames.shown = shown → frames.Fits next →
    ∃ reads after, Form.trees frames.scopes fs next = some (reads, after) ∧ next ≤ after ∧
      Expr.equalLists (frames.pairing root) es reads = Expr.areStable es

/-- The form stands at the level of the expression, and starts as its text does. -/
structure Stands (e : Expr) (f : Form) : Prop where
  operator : ∀ p ∈ e.precedence?, f.level = p
  operand : e.precedence? = none → 6 ≤ f.level
  target : e.wrapsTarget = false → 7 ≤ f.level
  sign : e.precedence? = none → f.startsAtNumber = e.startsUnsigned

variable {root text : String} {shown : ShownNames} {e : Expr}

theorem Writes.wrapped (h : Writes root shown e text f) (wrap : Bool) :
    Writes root shown e (Expr.wrapped wrap text) (f.wrapped wrap) := by
  have hspells := Expr.spells_wrapped h.spells wrap
  cases wrap with
  | false => exact h
  | true => exact ⟨hspells, h.isDerived, h.tree⟩

/-- As the target of a member or an aggregate. -/
theorem Stands.wrapsTarget (h : Stands e f) :
    7 ≤ (f.wrapped e.wrapsTarget).level ∧ (f.wrapped e.wrapsTarget).startsAtNumber = e.startsUnsigned := by
  cases hwraps : e.wrapsTarget with
  | true =>
      refine ⟨Nat.le_refl 7, ?_⟩
      cases e <;> first | rfl | cases hwraps
  | false => exact ⟨h.target hwraps, h.sign (Parser.precedence?_of_not_wrapped hwraps)⟩

/-- As the operand of a prefix operator. -/
theorem Stands.wrapsOperand (h : Stands e f) (op : UnaryOp) :
    6 ≤ (f.wrapped (Expr.wrapsOperand op e)).level := by
  cases hwraps : Expr.wrapsOperand op e with
  | true => exact Nat.le_succ 6
  | false =>
      refine h.operand ?_
      cases e <;> first | rfl | (cases op <;> cases hwraps)

/-- A minus sign is written before a form that starts at a number only for a chain. -/
theorem Stands.startsAtNumber_negated (h : Stands e f) :
    (f.wrapped (Expr.wrapsOperand .negate e)).startsAtNumber = (e.isChain && e.startsUnsigned) := by
  cases e with
  | binary op left right => rfl
  | constant l => rfl
  | _ => exact h.sign rfl

/-- As an operand of an infix operator, in parentheses where it binds less tightly than `least`. -/
theorem Stands.wrapsBinary {least : Nat} (h : Stands e f) (hleast : least ≤ 6) {wrap : Bool}
    (hwrap : wrap = false → ∀ p ∈ e.precedence?, least ≤ p) : least ≤ (f.wrapped wrap).level := by
  cases wrap with
  | true => exact Nat.le_succ_of_le hleast
  | false =>
      cases hprecedence : e.precedence? with
      | none => exact Nat.le_trans hleast (h.operand hprecedence)
      | some p =>
          have hlevel : (f.wrapped false).level = p := h.operator p hprecedence
          rw [hlevel]
          exact hwrap rfl p hprecedence

theorem stands_of_level (hlevel : 7 ≤ f.level) (hprecedence : e.precedence? = none)
    (hsign : f.startsAtNumber = e.startsUnsigned) : Stands e f where
  operator p hp := by
    rw [hprecedence] at hp
    cases hp
  operand _ := Nat.le_of_succ_le hlevel
  target _ := hlevel
  sign _ := hsign

/-! ### Constants -/

/-- A word that stands for a constant. -/
theorem writes_word {w : String} {l : Literal} (hidentifier : Text.isIdentifier w = true)
    (hnot : Text.sameIgnoringCase w "not" = false)
    (hword : ∀ fs : Frames, ∃ l', Parser.ofWord fs.scopes w = some (.constant l') ∧ l.equal l' = l.isStable) :
    Writes root shown (.constant l) w (.word w) := by
  refine ⟨Token.spells_word hidentifier, hnot, fun fs next _ _ => ?_⟩
  obtain ⟨l', hofWord, hequal⟩ := hword fs
  exact ⟨.constant l', next, by rw [Form.tree, hofWord]; rfl, Nat.le_refl next, hequal⟩

/-- A token that stands for a constant. -/
theorem writes_literal {t : Token} {l l' : Literal} (hspells : Token.Spells l.text.toList [t])
    (ht : t.literal? = some l') (hequal : l.equal l' = l.isStable) :
    Writes root shown (.constant l) l.text (.literal t) :=
  ⟨hspells, Option.isSome_of_eq_some ht, fun fs next _ _ =>
    ⟨.constant l', next, by rw [Form.tree, ht]; rfl, Nat.le_refl next, hequal⟩⟩

/-- A number with a sign. -/
theorem writes_negative {t : Token} {l l' : Literal}
    (hspells : Token.Spells l.text.toList [.mark .minus, t]) (ht : t.negated? = some l')
    (hequal : l.equal l' = l.isStable) : Writes root shown (.constant l) l.text (.negative t) :=
  ⟨hspells, Option.isSome_of_eq_some ht, fun fs next _ _ =>
    ⟨.constant l', next, by rw [Form.tree, ht]; rfl, Nat.le_refl next, hequal⟩⟩

theorem exists_writes_int (n : Int64) :
    ∃ f, Writes root shown (.constant (.int n)) (Literal.int n).text f ∧ Stands (.constant (.int n)) f := by
  have hspells := Literal.spells_int n
  have hword := Parser.int64?_toInt n
  have hequal : (Literal.int n).equal (.int n) = true := by simp [Literal.equal]
  simp only [Literal.tokens] at hspells
  cases hn : n.toInt with
  | ofNat m =>
      rw [hn] at hspells hword
      have hunsigned : (Literal.int n).isUnsigned = true :=
        decide_eq_true (by rw [hn]; exact Int.natCast_nonneg m)
      exact ⟨.literal (.int m), writes_literal hspells (Token.literal?_int hword) hequal,
        stands_of_level (Nat.le_refl 7) rfl hunsigned.symm⟩
  | negSucc m =>
      rw [hn] at hspells hword
      have hunsigned : (Literal.int n).isUnsigned = false :=
        decide_eq_false (by rw [hn]; exact Int.not_le.mpr (Int.negSucc_lt_zero m))
      exact ⟨.negative (.int (m + 1)), writes_negative hspells (Token.negated?_int hword) hequal,
        stands_of_level (Nat.le_refl 7) rfl hunsigned.symm⟩

theorem exists_writes_float (x : Float) :
    ∃ f, Writes root shown (.constant (.float x)) (Literal.float x).text f ∧
      Stands (.constant (.float x)) f := by
  by_cases hfinite : x.isFinite = true
  · have hback := Literal.readsBack_float hfinite
    have hspells := Literal.spells_finite hback
    obtain ⟨-, -, y, hy, hequal⟩ := hback
    simp only [Literal.tokens, hy, Option.getD_some] at hspells
    cases hsign : (Literal.unsigned x).1 with
    | true =>
        rw [hsign] at hspells hequal
        have hunsigned : (Literal.float x).isUnsigned = false := by
          rw [Literal.isUnsigned, hsign]
          exact Bool.and_false _
        exact ⟨.negative (.float y), writes_negative hspells rfl (hequal.trans hfinite.symm),
          stands_of_level (Nat.le_refl 7) rfl hunsigned.symm⟩
    | false =>
        rw [hsign] at hspells hequal
        have hunsigned : (Literal.float x).isUnsigned = true := by
          rw [Literal.isUnsigned, hsign, hfinite]
          rfl
        exact ⟨.literal (.float y), writes_literal hspells rfl (hequal.trans hfinite.symm),
          stands_of_level (Nat.le_refl 7) rfl hunsigned.symm⟩
  · -- it has no text of its own
    have hstable : (Literal.float x).isStable = false := Bool.eq_false_iff.mpr hfinite
    have htext : (Literal.float x).text = "null" := if_neg hfinite
    have hunsigned : (Literal.float x).isUnsigned = false := by
      rw [Literal.isUnsigned, Bool.eq_false_iff.mpr hfinite]
      rfl
    rw [htext]
    exact ⟨.word "null", writes_word (by decide) (by decide) fun fs =>
      ⟨.null, Frames.ofWord_null fs, hstable.symm⟩, stands_of_level (Nat.le_refl 7) rfl hunsigned.symm⟩

theorem exists_writes_constant (l : Literal) (htimes : Expr.HasProperTimes (.constant l)) :
    ∃ f, Writes root shown (.constant l) l.text f ∧ Stands (.constant l) f := by
  cases l with
  | null =>
      exact ⟨.word "null", writes_word (by decide) (by decide) fun fs => ⟨.null, Frames.ofWord_null fs, rfl⟩,
        stands_of_level (Nat.le_refl 7) rfl rfl⟩
  | bool b =>
      refine ⟨.word (if b then "true" else "false"), writes_word ?_ ?_ fun fs =>
        ⟨.bool b, Frames.ofWord_bool fs b, by simp [Literal.equal, Literal.isStable]⟩,
        stands_of_level (Nat.le_refl 7) rfl rfl⟩ <;> cases b <;> decide
  | int n => exact exists_writes_int n
  | float x => exact exists_writes_float x
  | string s =>
      exact ⟨.literal (.string s), writes_literal (Token.spells_quoted s) rfl
        (by simp [Literal.equal, Literal.isStable]), stands_of_level (Nat.le_refl 7) rfl rfl⟩
  | dateTime t =>
      have hparse := Timestamp.parse?_format (htimes t rfl)
      exact ⟨.literal (.dateTime t), writes_literal (Token.spells_dateTime hparse) rfl
        (by simp [Literal.equal, Literal.isStable, Timestamp.sameInstant]),
        stands_of_level (Nat.le_refl 7) rfl rfl⟩

/-! ### Variables and members -/

theorem isDerived_this : (Form.word "this").IsDerived := by
  have hnot : Text.sameIgnoringCase "this" "not" = false := by decide
  exact hnot

theorem writes_param {x : String} (hshown : shown.ByDepth) (htext : Expr.variableText root shown x = .ok text) :
    Writes root shown (.param x) text (.word text) := by
  unfold Expr.variableText at htext
  cases hlookup : shown.lookup x with
  | some name =>
      rw [hlookup] at htext
      cases htext
      -- a shown name is that of a depth, and these are no keywords
      obtain ⟨depth, rfl⟩ := hshown.exists_depth hlookup
      refine ⟨Token.spells_word (Expr.isIdentifier_atDepth depth),
        not_same_of_not_reserved (ShownNames.isReserved_atDepth depth) (by decide), fun fs next hfs hfits => ?_⟩
      subst hfs
      obtain ⟨read, hword, hequal⟩ := @Frames.ofWord_variable fs next root x hfits _ hlookup
      exact ⟨read, next, by rw [Form.tree, hword]; rfl, Nat.le_refl next, hequal⟩
  | none =>
      rw [hlookup] at htext
      dsimp only at htext
      split at htext
      · rename_i hroot
        cases htext
        subst hroot
        refine ⟨Token.spells_word (by decide), isDerived_this, fun fs next hfs hfits => ?_⟩
        subst hfs
        exact ⟨.param Parser.rowName, next, by rw [Form.tree, Frames.ofWord_this]; rfl, Nat.le_refl next,
          Frames.relates_root hfits hlookup⟩
      · cases htext

/-- A member of the row, after `this` where it would be read as something else. -/
theorem exists_writes_rowMember {target : Expr} {name : String} (hname : Text.isIdentifier name = true)
    (hrow : Expr.isRow root shown target = true) :
    ∃ f, Writes root shown (.member target name) ((if shown.hide name then "this." else "") ++ name) f ∧
      Stands (.member target name) f := by
  obtain ⟨rfl, hlookup⟩ : target = .param root ∧ shown.lookup root = none := by
    cases target with
    | param x =>
        simp only [Expr.isRow, Bool.and_eq_true, beq_iff_eq, Option.isNone_iff_eq_none] at hrow
        obtain ⟨rfl, hlookup⟩ := hrow
        exact ⟨rfl, hlookup⟩
    | _ => cases hrow
  have hequal : ∀ (fs : Frames) (next : Nat), fs.shown = shown → fs.Fits next →
      Expr.equalUnder (fs.pairing root) (.member (.param root) name) (.member (.param Parser.rowName) name) =
        true := by
    intro fs next hfs hfits
    subst hfs
    simp [Expr.equalUnder, Frames.relates_root hfits hlookup]
  cases hhide : shown.hide name with
  | true =>
      refine ⟨.member (.word "this") name, ⟨?_, ⟨isDerived_this, Nat.le_refl 7⟩, fun fs next hfs hfits => ?_⟩,
        stands_of_level (Nat.le_refl 7) rfl rfl⟩
      · have hthis : Token.Spells "this".toList [.word "this"] := Token.spells_word (by decide)
        simpa [Form.tokens] using hthis.then_member hname
      · exact ⟨_, next, by simp [Form.tree, Frames.ofWord_this], Nat.le_refl next, hequal fs next hfs hfits⟩
  | false =>
      have hreserved : isReserved name = false := by
        rw [ShownNames.hide, Bool.or_eq_false_iff] at hhide
        exact hhide.1
      refine ⟨.word name, ⟨?_, not_same_of_not_reserved hreserved (by decide), fun fs next hfs hfits => ?_⟩,
        stands_of_level (Nat.le_refl 7) rfl rfl⟩
      · simpa [Form.tokens] using Token.spells_word hname
      · have hword : Parser.ofWord fs.scopes name = some (.member (.param Parser.rowName) name) :=
          Frames.ofWord_member (by rw [hfs]; exact hhide)
        exact ⟨_, next, by rw [Form.tree, hword]; rfl, Nat.le_refl next, hequal fs next hfs hfits⟩

theorem Writes.member (h : Writes root shown e text f) {name : String}
    (hname : Text.isIdentifier name = true) (hlevel : 7 ≤ f.level) :
    Writes root shown (.member e name) (text ++ "." ++ name) (.member f name) := by
  refine ⟨?_, ⟨h.isDerived, hlevel⟩, fun fs next hfs hfits => ?_⟩
  · simpa [Form.tokens] using h.spells.then_member hname
  · obtain ⟨read, after, htree, hle, hequal⟩ := h.tree hfs hfits
    exact ⟨.member read name, after, by simp [Form.tree, htree], hle,
      by simpa [Expr.equalUnder, Expr.isStable] using hequal⟩

/-! ### Aggregates -/

theorem ofName?_aggregateName (a : Aggregate) : Aggregate.ofName? a.name = some a := by
  cases a <;> decide

theorem Writes.aggregate (h : Writes root shown e text f) (a : Aggregate) (hlevel : 7 ≤ f.level) :
    Writes root shown (.aggregate e a) (text ++ "." ++ a.name ++ "()") (.aggregate f a.name a) := by
  refine ⟨?_, ⟨h.isDerived, hlevel, ofName?_aggregateName a⟩, fun fs next hfs hfits => ?_⟩
  · have hmember := h.spells.then_member (Expr.isIdentifier_aggregateName a)
    have hclosed : Token.Spells [')'] [.mark .rightParen] := Token.spells_nil.mark .rightParen
    simpa [Form.tokens, Mark.char] using hmember.then_mark hclosed .leftParen (by decide)
  · obtain ⟨read, after, htree, hle, hequal⟩ := h.tree hfs hfits
    exact ⟨.aggregate read a, after, by simp [Form.tree, htree], hle,
      by simpa [Expr.equalUnder, Expr.isStable] using hequal⟩

theorem Writes.aggregateOf (h : Writes root shown e text f) (a : Aggregate) (hlevel : 7 ≤ f.level)
    {x : String} {body : Expr} {inner : String} {g : Form}
    (hbody : Writes root ((x, ShownNames.atDepth shown.length) :: shown) body inner g) :
    Writes root shown (.aggregateOf e a x body)
      (text ++ "." ++ a.name ++ "(" ++ ShownNames.atDepth shown.length ++ ":" ++ inner ++ ")")
      (.aggregateOf f a.name a (ShownNames.atDepth shown.length) g) := by
  refine ⟨?_, ⟨h.isDerived, hlevel, ofName?_aggregateName a, hbody.isDerived⟩,
    fun fs next hfs hfits => ?_⟩
  · have hmember := h.spells.then_member (Expr.isIdentifier_aggregateName a)
    have hvariable := Token.spells_word (Expr.isIdentifier_atDepth shown.length)
    have hclosed := hbody.spells.then_mark Token.spells_nil .rightParen (by decide)
    have hinside := hvariable.then_mark hclosed .colon (by decide)
    simpa [Form.tokens, Mark.char] using hmember.then_mark hinside .leftParen (by decide)
  · obtain ⟨read, between, htree, hle, hequal⟩ := h.tree hfs hfits
    -- the body is read under one more variable
    have hlength : shown.length = fs.length := by rw [← hfs, Frames.length_shown]
    have hinside : Frames.shown ((x, between) :: fs) = (x, ShownNames.atDepth shown.length) :: shown := by
      rw [Frames.shown, hfs, hlength]
    obtain ⟨readBody, after, htreeBody, hleBody, hequalBody⟩ :=
      hbody.tree hinside ⟨Nat.lt_succ_self between, hfits.mono hle⟩
    rw [Frames.scopes, ← hlength] at htreeBody
    refine ⟨.aggregateOf read a (numberedName between) readBody, after, by simp [Form.tree, htree, htreeBody],
      by omega, ?_⟩
    rw [Frames.pairing] at hequalBody
    simp [Expr.equalUnder, Expr.isStable, hequal, hequalBody]

/-! ### Operators -/

theorem Writes.not (h : Writes root shown e text f) (hlevel : 6 ≤ f.level) :
    Writes root shown (.unary .not e) ("not " ++ text) (.not "not" f) := by
  have hnot : Text.sameIgnoringCase "not" "not" = true := by decide
  refine ⟨?_, ⟨hnot, h.isDerived, hlevel⟩, fun fs next hfs hfits => ?_⟩
  · have hword : Token.Spells "not".toList [.word "not"] := Token.spells_word (by decide)
    have hspells := hword.then_blank h.spells
    simpa [Form.tokens] using hspells
  · obtain ⟨read, after, htree, hle, hequal⟩ := h.tree hfs hfits
    exact ⟨.unary .not read, after, by simp [Form.tree, htree], hle,
      by simp [Expr.equalUnder, Expr.isStable, hequal]⟩

/-- A minus sign before something else than a number is an operator. -/
theorem Writes.negate (h : Writes root shown e text f) (hlevel : 6 ≤ f.level)
    (hstart : f.startsAtNumber = false) (hsign : (e.isChain && e.startsUnsigned) = false) :
    Writes root shown (.unary .negate e) ("-" ++ text) (.negate f) := by
  refine ⟨?_, ⟨h.isDerived, hlevel, hstart⟩, fun fs next hfs hfits => ?_⟩
  · rw [String.toList_append]
    exact h.spells.mark .minus
  · obtain ⟨read, after, htree, hle, hequal⟩ := h.tree hfs hfits
    exact ⟨.unary .negate read, after, by simp [Form.tree, htree], hle,
      by simp [Expr.equalUnder, Expr.isStable, hequal, hsign]⟩

/-- A minus sign before a chain that starts at a number is read as that of the number, and the expression is
none with an operator then. -/
theorem Writes.signed (h : Writes root shown e text f) (hlevel : 6 ≤ f.level)
    (hstart : f.startsAtNumber = true) (hsign : (e.isChain && e.startsUnsigned) = true) :
    Writes root shown (.unary .negate e) ("-" ++ text) f.signed := by
  have hsigns := signs f h.isDerived hlevel hstart
  refine ⟨?_, hsigns.isDerived, fun fs next hfs hfits => ?_⟩
  · rw [String.toList_append, hsigns.tokens]
    exact h.spells.mark .minus
  · obtain ⟨read, after, htree, hle, -⟩ := h.tree hfs hfits
    obtain ⟨read', htree', hother⟩ := hsigns.tree htree
    exact ⟨read', after, htree', hle, by rw [hother, Expr.isStable]; simp [hsign]⟩

theorem Writes.binary (h : Writes root shown e text f) (op : BinaryOp) {right : Expr} {rightText : String}
    {g : Form} (hright : Writes root shown right rightText g) (hlevel : op.precedence ≤ f.level)
    (hrightLevel : op.precedence + 1 ≤ g.level) :
    Writes root shown (.binary op e right) (text ++ " " ++ op.keyword ++ " " ++ rightText)
      (.binary f op.keyword op g) := by
  refine ⟨?_, ⟨Parser.ofKeyword?_keyword op, h.isDerived, hlevel, hright.isDerived, hrightLevel⟩,
    fun fs next hfs hfits => ?_⟩
  · have hkeyword := Token.spells_word (Expr.isIdentifier_keyword op)
    simpa [Form.tokens] using h.spells.then_blank (hkeyword.then_blank hright.spells)
  · obtain ⟨read, between, htree, hle, hequal⟩ := h.tree hfs hfits
    obtain ⟨readRight, after, htreeRight, hleRight, hequalRight⟩ := hright.tree hfs (hfits.mono hle)
    exact ⟨.binary op read readRight, after, by simp [Form.tree, htree, htreeRight], hle.trans hleRight,
      by simp [Expr.equalUnder, Expr.isStable, hequal, hequalRight]⟩

/-! ### Calls -/

theorem writesAll_nil : WritesAll root shown [] [] [] :=
  ⟨Token.spells_nil, trivial, fun _ next _ _ => ⟨[], next, rfl, Nat.le_refl next, rfl⟩⟩

theorem WritesAll.cons {es : List Expr} {texts : List String} {gs : List Form}
    (h : Writes root shown e text f) (hrest : WritesAll root shown es texts gs)
    (hlength : texts.length = gs.length) : WritesAll root shown (e :: es) (text :: texts) (f :: gs) := by
  refine ⟨?_, ⟨h.isDerived, hrest.areDerived⟩, fun fs next hfs hfits => ?_⟩
  · have hspells := hrest.spells
    cases gs with
    | nil =>
        obtain rfl := List.length_eq_zero_iff.mp hlength
        simpa [Text.join, argumentTokens, laterTokens] using h.spells
    | cons g gs =>
        obtain ⟨second, more, rfl⟩ := List.exists_cons_of_length_eq_add_one hlength
        simpa [Text.join, argumentTokens, laterTokens, Mark.char] using
          h.spells.then_mark hspells .comma (by decide)
  · obtain ⟨read, between, htree, hle, hequal⟩ := h.tree hfs hfits
    obtain ⟨reads, after, htrees, hleRest, hequalRest⟩ := hrest.trees hfs (hfits.mono hle)
    exact ⟨read :: reads, after, by simp [Form.trees, htree, htrees], hle.trans hleRest,
      by simp [Expr.equalLists, Expr.areStable, hequal, hequalRest]⟩

theorem WritesAll.call {es : List Expr} {texts : List String} {gs : List Form}
    (h : WritesAll root shown es texts gs) {function : TextFunction}
    (htakes : function.takes gs.length = true) :
    Writes root shown (.call function es) (function.name ++ "(" ++ Text.join "," texts ++ ")")
      (.call function.name function gs) := by
  refine ⟨?_, ⟨Parser.ofName?_functionName function, htakes, h.areDerived⟩, fun fs next hfs hfits => ?_⟩
  · have hname := Token.spells_word (Expr.isIdentifier_functionName function)
    have hclosed := h.spells.then_mark Token.spells_nil .rightParen (by decide)
    simpa [Form.tokens, Mark.char] using hname.then_mark hclosed .leftParen (by decide)
  · obtain ⟨reads, after, htrees, hle, hequal⟩ := h.trees hfs hfits
    exact ⟨.call function reads, after, by simp [Form.tree, htrees], hle,
      by simp [Expr.equalUnder, Expr.isStable, hequal]⟩

end Form

/-! ## Every text -/

namespace Expr

open Form (Writes WritesAll Stands stands_of_level)

variable {root : String}

mutual

/-- **Every text that is written has a derivation.** -/
theorem exists_writes {shown : ShownNames} (hshown : shown.ByDepth) : (e : Expr) → e.HasProperTimes →
    ∀ {t : String}, text root shown e = .ok t → ∃ f, Writes root shown e t f ∧ Stands e f
  | .param x, _, t, h => by
      simp only [text] at h
      exact ⟨.word t, Form.writes_param hshown h, stands_of_level (Nat.le_refl 7) rfl rfl⟩
  | .constant l, hl, t, h => by
      simp only [text] at h
      cases h
      exact Form.exists_writes_constant l hl
  | .member target name, htarget, t, h => by
      simp only [text] at h
      split at h
      · rename_i hname
        split at h
        · rename_i hrow
          cases h
          exact Form.exists_writes_rowMember hname hrow
        · obtain ⟨lead, hlead, h⟩ := exists_of_bind_eq_ok h
          cases h
          obtain ⟨f, hf, hstands⟩ := exists_writes hshown target htarget hlead
          obtain ⟨hlevel, hsign⟩ := hstands.wrapsTarget
          exact ⟨_, (hf.wrapped _).member hname hlevel, stands_of_level (Nat.le_refl 7) rfl
            ((Form.startsAtNumber_append rfl).trans hsign)⟩
      · cases h
  | .unary op operand, hoperand, t, h => by
      simp only [text] at h
      obtain ⟨inner, hinner, h⟩ := exists_of_bind_eq_ok h
      cases h
      obtain ⟨f, hf, hstands⟩ := exists_writes hshown operand hoperand hinner
      have hlevel := hstands.wrapsOperand op
      cases op with
      | not =>
          exact ⟨_, (hf.wrapped _).not hlevel, ⟨nofun, fun _ => Nat.le_refl 6, nofun, fun _ => rfl⟩⟩
      | negate =>
          have hstart := hstands.startsAtNumber_negated
          cases hsign : operand.isChain && operand.startsUnsigned with
          | false =>
              rw [hsign] at hstart
              exact ⟨_, (hf.wrapped _).negate hlevel hstart hsign,
                ⟨nofun, fun _ => Nat.le_refl 6, nofun, fun _ => rfl⟩⟩
          | true =>
              rw [hsign] at hstart
              have hsigns := Form.signs _ (hf.wrapped _).isDerived hlevel hstart
              refine ⟨_, (hf.wrapped _).signed hlevel hstart hsign,
                ⟨nofun, fun _ => Nat.le_of_succ_le hsigns.level, nofun, fun _ => ?_⟩⟩
              rw [Form.startsAtNumber, hsigns.tokens]
              rfl
  | .binary op left right, hparts, t, h => by
      simp only [text] at h
      obtain ⟨l, hl, h⟩ := exists_of_bind_eq_ok h
      obtain ⟨r, hr, h⟩ := exists_of_bind_eq_ok h
      cases h
      obtain ⟨f, hf, hleft⟩ := exists_writes hshown left hparts.1 hl
      obtain ⟨g, hg, hright⟩ := exists_writes hshown right hparts.2 hr
      have hfive := Form.precedence_le_five op
      -- operands that bind too loosely are in parentheses, on the right also those that bind alike
      have hlevel : op.precedence ≤ (f.wrapped (left.precedence?.any (· < op.precedence))).level :=
        hleft.wrapsBinary (by omega) fun hany p hp => by
          rw [hp, Option.any_some, decide_eq_false_iff_not] at hany
          omega
      have hrightLevel : op.precedence + 1 ≤ (g.wrapped (right.precedence?.any (· ≤ op.precedence))).level :=
        hright.wrapsBinary (by omega) fun hany p hp => by
          rw [hp, Option.any_some, decide_eq_false_iff_not] at hany
          omega
      exact ⟨_, (hf.wrapped _).binary op (hg.wrapped _) hlevel hrightLevel,
        ⟨fun p hp => Option.some.inj hp, nofun, nofun, nofun⟩⟩
  | .call function arguments, harguments, t, h => by
      simp only [text] at h
      split at h
      · rename_i htakes
        obtain ⟨texts, htexts, h⟩ := exists_of_bind_eq_ok h
        cases h
        obtain ⟨gs, hgs, hlength, -⟩ := exists_writesAll hshown arguments harguments htexts
        rw [← hlength] at htakes
        exact ⟨_, hgs.call htakes, stands_of_level (Nat.le_refl 7) rfl rfl⟩
      · cases h
  | .aggregate target a, htarget, t, h => by
      simp only [text] at h
      obtain ⟨lead, hlead, h⟩ := exists_of_bind_eq_ok h
      cases h
      obtain ⟨f, hf, hstands⟩ := exists_writes hshown target htarget hlead
      obtain ⟨hlevel, hsign⟩ := hstands.wrapsTarget
      exact ⟨_, (hf.wrapped _).aggregate a hlevel, stands_of_level (Nat.le_refl 7) rfl
        ((Form.startsAtNumber_append rfl).trans hsign)⟩
  | .aggregateOf target a x body, hparts, t, h => by
      simp only [text] at h
      obtain ⟨lead, hlead, h⟩ := exists_of_bind_eq_ok h
      obtain ⟨inner, hinner, h⟩ := exists_of_bind_eq_ok h
      cases h
      obtain ⟨f, hf, hstands⟩ := exists_writes hshown target hparts.1 hlead
      -- the body is written one variable deeper
      have hinside : ShownNames.ByDepth ((x, ShownNames.atDepth shown.length) :: shown) :=
        ⟨rfl, hshown⟩
      obtain ⟨g, hg, -⟩ := exists_writes hinside body hparts.2 hinner
      obtain ⟨hlevel, hsign⟩ := hstands.wrapsTarget
      exact ⟨_, (hf.wrapped _).aggregateOf a hlevel hg, stands_of_level (Nat.le_refl 7) rfl
        ((Form.startsAtNumber_append rfl).trans hsign)⟩
  | .row _, _, t, h => by
      simp only [text] at h
      cases h

theorem exists_writesAll {shown : ShownNames} (hshown : shown.ByDepth) : (es : List Expr) →
    HaveProperTimes es → ∀ {texts : List String}, textList root shown es = .ok texts →
      ∃ gs, WritesAll root shown es texts gs ∧ gs.length = es.length ∧ texts.length = es.length
  | [], _, texts, h => by
      simp only [textList] at h
      cases h
      exact ⟨[], Form.writesAll_nil, rfl, rfl⟩
  | e :: rest, hparts, texts, h => by
      simp only [textList] at h
      obtain ⟨first, hfirst, h⟩ := exists_of_bind_eq_ok h
      obtain ⟨others, hothers, h⟩ := exists_of_bind_eq_ok h
      cases h
      obtain ⟨f, hf, -⟩ := exists_writes hshown e hparts.1 hfirst
      obtain ⟨gs, hgs, hlength, htexts⟩ := exists_writesAll hshown rest hparts.2 hothers
      exact ⟨f :: gs, .cons hf hgs (htexts.trans hlength.symm), by rw [List.length_cons, hlength]; rfl,
        by rw [List.length_cons, htexts]; rfl⟩

end

end Expr

end ResourceQuery
