import ResourceQuery.Proofs.Expr.Simplification

set_option autoImplicit false

/-! # Simplified expressions

Simplification settles an expression at once: simplifying again changes nothing (`Expr.simplify_simplify`).
So a lambda that was composed or simplified may be taken up by a plan any number of times
(`Lambda.IsSimplified`).

Equality up to bound variables is reflexive but for one thing: the constant which is no number equals
nothing. An expression without such constants equals itself (`Expr.equalUnder_self`), and neither
renaming nor substitution nor simplification brings constants in (`Expr.HasNumbers`).
-/

/-- A float that is a number equals itself. -/
theorem Float.beq_self_of_isNumber {x : Float} (h : x.isNaN = false) : (x == x) = true := by
  change x.toModel.unpack.beq x.toModel.unpack = true
  have hnumber : x.toModel.unpack.isNaN = false := h
  generalize x.toModel.unpack = u at hnumber ⊢
  cases u with
  | notANumber => cases hnumber
  | infinity sign => cases sign <;> rfl
  | zero sign => rfl
  | finite sign mantissa exponent hpos =>
      unfold Float.Model.UnpackedFloat.beq Float.Model.UnpackedFloat.compare
      cases sign <;> simp

namespace ResourceQuery

namespace Expr

/-! ## Simplifying again -/

theorem simplify_of_mem {fields : List (String × Expr)} (hfields : simplifyFields fields = fields)
    {field : String × Expr} (hmem : field ∈ fields) : field.2.simplify = field.2 := by
  induction fields with
  | nil => cases hmem
  | cons first rest ih =>
      obtain ⟨name, e⟩ := first
      rw [simplifyFields] at hfields
      obtain ⟨hfirst, hrest⟩ := List.cons.inj hfields
      rcases List.mem_cons.mp hmem with hself | hlater
      · rw [hself]
        exact congrArg Prod.snd hfirst
      · exact ih hrest hlater

/-- A member of what is simplified is simplified. -/
theorem simplify_memberOf {target : Expr} (htarget : target.simplify = target) (name : String) :
    (memberOf target name).simplify = memberOf target name := by
  cases target with
  | row fields =>
      rw [simplify] at htarget
      have hfields := row.inj htarget
      rw [memberOf]
      split
      · rename_i field hfound
        exact simplify_of_mem hfields (List.mem_of_find?_eq_some hfound)
      · rename_i hnone
        rw [simplify, simplify, hfields, memberOf, hnone]
  | _ =>
      rw [memberOf, simplify, htarget]
      · rfl
      · simp

mutual

/-- **Simplifying again changes nothing.** -/
theorem simplify_simplify : (e : Expr) → e.simplify.simplify = e.simplify
  | .param _ => rfl
  | .constant _ => rfl
  | .member target name => simplify_memberOf (simplify_simplify target) name
  | .unary op operand => congrArg (unary op) (simplify_simplify operand)
  | .binary op left right =>
      congrArg₂ (binary op) (simplify_simplify left) (simplify_simplify right)
  | .call f arguments => congrArg (call f) (simplifyList_simplifyList arguments)
  | .aggregate target a => congrArg (aggregate · a) (simplify_simplify target)
  | .aggregateOf target a x body =>
      congrArg₂ (aggregateOf · a x ·) (simplify_simplify target) (simplify_simplify body)
  | .row fields => congrArg row (simplifyFields_simplifyFields fields)

theorem simplifyList_simplifyList : (es : List Expr) →
    simplifyList (simplifyList es) = simplifyList es
  | [] => rfl
  | e :: rest => congrArg₂ List.cons (simplify_simplify e) (simplifyList_simplifyList rest)

theorem simplifyFields_simplifyFields : (fs : List (String × Expr)) →
    simplifyFields (simplifyFields fs) = simplifyFields fs
  | [] => rfl
  | (name, e) :: rest =>
      congrArg₂ List.cons (congrArg (Prod.mk name) (simplify_simplify e))
        (simplifyFields_simplifyFields rest)

end

end Expr

/-! ## Constants -/

/-- The constant is a number if it is a float. -/
def Literal.IsNumber (l : Literal) : Prop :=
  ∀ x, l = .float x → x.isNaN = false

theorem Literal.equal_self {l : Literal} (h : l.IsNumber) : l.equal l = true := by
  cases l with
  | float x => exact Float.beq_self_of_isNumber (h x rfl)
  | null => rfl
  | bool b => exact beq_self_eq_true _
  | int n => exact beq_self_eq_true _
  | string s => exact beq_self_eq_true _
  | dateTime t => exact beq_self_eq_true _

namespace Expr

mutual

/-- All floats in the expression are numbers. -/
def HasNumbers : Expr → Prop
  | .param _ => True
  | .constant l => l.IsNumber
  | .member target _ => HasNumbers target
  | .unary _ operand => HasNumbers operand
  | .binary _ left right => HasNumbers left ∧ HasNumbers right
  | .call _ arguments => HaveNumbers arguments
  | .aggregate target _ => HasNumbers target
  | .aggregateOf target _ _ body => HasNumbers target ∧ HasNumbers body
  | .row fields => FieldsHaveNumbers fields

/-- The same for a list of expressions. -/
def HaveNumbers : List Expr → Prop
  | [] => True
  | e :: rest => HasNumbers e ∧ HaveNumbers rest

/-- The same for the fields of a row. -/
def FieldsHaveNumbers : List (String × Expr) → Prop
  | [] => True
  | (_, e) :: rest => HasNumbers e ∧ FieldsHaveNumbers rest

end

mutual

theorem HasNumbers.rename : (e : Expr) → (ρ : Renaming) → e.HasNumbers → (rename ρ e).HasNumbers
  | .param _, _, _ => trivial
  | .constant _, _, h => h
  | .member target _, ρ, h => HasNumbers.rename target ρ h
  | .unary _ operand, ρ, h => HasNumbers.rename operand ρ h
  | .binary _ left right, ρ, h => ⟨HasNumbers.rename left ρ h.1, HasNumbers.rename right ρ h.2⟩
  | .call _ arguments, ρ, h => HaveNumbers.rename arguments ρ h
  | .aggregate target _, ρ, h => HasNumbers.rename target ρ h
  | .aggregateOf target _ x body, ρ, h =>
      ⟨HasNumbers.rename target ρ h.1, HasNumbers.rename body (ρ.without x) h.2⟩
  | .row fields, ρ, h => FieldsHaveNumbers.rename fields ρ h

theorem HaveNumbers.rename : (es : List Expr) → (ρ : Renaming) → HaveNumbers es →
    HaveNumbers (renameList ρ es)
  | [], _, _ => trivial
  | e :: rest, ρ, h => ⟨HasNumbers.rename e ρ h.1, HaveNumbers.rename rest ρ h.2⟩

theorem FieldsHaveNumbers.rename : (fs : List (String × Expr)) → (ρ : Renaming) →
    FieldsHaveNumbers fs → FieldsHaveNumbers (renameFields ρ fs)
  | [], _, _ => trivial
  | (_, e) :: rest, ρ, h => ⟨HasNumbers.rename e ρ h.1, FieldsHaveNumbers.rename rest ρ h.2⟩

end

mutual

theorem HasNumbers.substituteUnder {x : String} {replacement : Expr} (hr : replacement.HasNumbers) :
    (e : Expr) → (ρ : Renaming) → e.HasNumbers → (substituteUnder ρ x replacement e).HasNumbers
  | .param y, ρ, _ => by
      rw [Expr.substituteUnder]
      split
      · trivial
      · split
        · exact hr
        · trivial
  | .constant _, _, h => h
  | .member target _, ρ, h => HasNumbers.substituteUnder hr target ρ h
  | .unary _ operand, ρ, h => HasNumbers.substituteUnder hr operand ρ h
  | .binary _ left right, ρ, h =>
      ⟨HasNumbers.substituteUnder hr left ρ h.1, HasNumbers.substituteUnder hr right ρ h.2⟩
  | .call _ arguments, ρ, h => HaveNumbers.substitute hr arguments ρ h
  | .aggregate target _, ρ, h => HasNumbers.substituteUnder hr target ρ h
  | .aggregateOf target _ y body, ρ, h => by
      have htarget : (Expr.substituteUnder ρ x replacement target).HasNumbers :=
        HasNumbers.substituteUnder hr target ρ h.1
      rw [Expr.substituteUnder]
      split
      · exact ⟨htarget, HasNumbers.rename body _ h.2⟩
      · split
        · exact ⟨htarget, HasNumbers.substituteUnder hr body _ h.2⟩
        · exact ⟨htarget, HasNumbers.substituteUnder hr body _ h.2⟩
  | .row fields, ρ, h => FieldsHaveNumbers.substitute hr fields ρ h

theorem HaveNumbers.substitute {x : String} {replacement : Expr} (hr : replacement.HasNumbers) :
    (es : List Expr) → (ρ : Renaming) → HaveNumbers es →
    HaveNumbers (substituteList ρ x replacement es)
  | [], _, _ => trivial
  | e :: rest, ρ, h =>
      ⟨HasNumbers.substituteUnder hr e ρ h.1, HaveNumbers.substitute hr rest ρ h.2⟩

theorem FieldsHaveNumbers.substitute {x : String} {replacement : Expr} (hr : replacement.HasNumbers) :
    (fs : List (String × Expr)) → (ρ : Renaming) → FieldsHaveNumbers fs →
    FieldsHaveNumbers (substituteFields ρ x replacement fs)
  | [], _, _ => trivial
  | (_, e) :: rest, ρ, h =>
      ⟨HasNumbers.substituteUnder hr e ρ h.1, FieldsHaveNumbers.substitute hr rest ρ h.2⟩

end

theorem FieldsHaveNumbers.of_mem {fields : List (String × Expr)} (h : FieldsHaveNumbers fields)
    {field : String × Expr} (hmem : field ∈ fields) : field.2.HasNumbers := by
  induction fields with
  | nil => cases hmem
  | cons first rest ih =>
      rcases List.mem_cons.mp hmem with rfl | hrest
      · exact h.1
      · exact ih h.2 hrest

theorem HasNumbers.memberOf {target : Expr} (h : target.HasNumbers) (name : String) :
    (memberOf target name).HasNumbers := by
  cases target with
  | row fields =>
      rw [Expr.memberOf]
      split
      · rename_i hfound
        exact FieldsHaveNumbers.of_mem h (List.mem_of_find?_eq_some hfound)
      · exact h
  | _ => exact h

mutual

theorem HasNumbers.simplify : (e : Expr) → e.HasNumbers → (simplify e).HasNumbers
  | .param _, _ => trivial
  | .constant _, h => h
  | .member target name, h => HasNumbers.memberOf (HasNumbers.simplify target h) name
  | .unary _ operand, h => HasNumbers.simplify operand h
  | .binary _ left right, h => ⟨HasNumbers.simplify left h.1, HasNumbers.simplify right h.2⟩
  | .call _ arguments, h => HaveNumbers.simplify arguments h
  | .aggregate target _, h => HasNumbers.simplify target h
  | .aggregateOf target _ _ body, h => ⟨HasNumbers.simplify target h.1, HasNumbers.simplify body h.2⟩
  | .row fields, h => FieldsHaveNumbers.simplify fields h

theorem HaveNumbers.simplify : (es : List Expr) → HaveNumbers es → HaveNumbers (simplifyList es)
  | [], _ => trivial
  | e :: rest, h => ⟨HasNumbers.simplify e h.1, HaveNumbers.simplify rest h.2⟩

theorem FieldsHaveNumbers.simplify : (fs : List (String × Expr)) → FieldsHaveNumbers fs →
    FieldsHaveNumbers (simplifyFields fs)
  | [], _ => trivial
  | (_, e) :: rest, h => ⟨HasNumbers.simplify e h.1, FieldsHaveNumbers.simplify rest h.2⟩

end

/-! ## Equality with itself -/

theorem Pairing.relates_self {bound : Pairing} (hbound : ∀ pair ∈ bound, pair.1 = pair.2) (x : String) :
    bound.relates x x = true := by
  induction bound with
  | nil => exact beq_self_eq_true x
  | cons pair rest ih =>
      obtain ⟨a, b⟩ := pair
      obtain rfl : a = b := hbound (a, b) List.mem_cons_self
      rw [relates]
      split
      · rename_i hself
        simpa using hself
      · exact ih fun other hother => hbound other (List.mem_cons_of_mem _ hother)

mutual

/-- **An expression whose floats are numbers equals itself**, under variables that are the same on both
sides. -/
theorem equalUnder_self : (e : Expr) → e.HasNumbers → (bound : Pairing) →
    (∀ pair ∈ bound, pair.1 = pair.2) → equalUnder bound e e = true
  | .param x, _, _, hbound => Pairing.relates_self hbound x
  | .constant _, h, _, _ => Literal.equal_self h
  | .member target _, h, bound, hbound => by
      rw [equalUnder, equalUnder_self target h bound hbound, beq_self_eq_true]
      rfl
  | .unary _ operand, h, bound, hbound => by
      rw [equalUnder, equalUnder_self operand h bound hbound, beq_self_eq_true]
      rfl
  | .binary _ left right, h, bound, hbound => by
      rw [equalUnder, equalUnder_self left h.1 bound hbound, equalUnder_self right h.2 bound hbound,
        beq_self_eq_true]
      rfl
  | .call _ arguments, h, bound, hbound => by
      rw [equalUnder, equalLists_self arguments h bound hbound, beq_self_eq_true]
      rfl
  | .aggregate target _, h, bound, hbound => by
      rw [equalUnder, equalUnder_self target h bound hbound, beq_self_eq_true]
      rfl
  | .aggregateOf target _ x body, h, bound, hbound => by
      have hinner : ∀ pair ∈ (x, x) :: bound, pair.1 = pair.2 := List.forall_mem_cons.mpr ⟨rfl, hbound⟩
      rw [equalUnder, equalUnder_self target h.1 bound hbound, equalUnder_self body h.2 _ hinner,
        beq_self_eq_true]
      rfl
  | .row fields, h, bound, hbound => equalFields_self fields h bound hbound

theorem equalLists_self : (es : List Expr) → HaveNumbers es → (bound : Pairing) →
    (∀ pair ∈ bound, pair.1 = pair.2) → equalLists bound es es = true
  | [], _, _, _ => rfl
  | e :: rest, h, bound, hbound => by
      rw [equalLists, equalUnder_self e h.1 bound hbound, equalLists_self rest h.2 bound hbound]
      rfl

theorem equalFields_self : (fs : List (String × Expr)) → FieldsHaveNumbers fs → (bound : Pairing) →
    (∀ pair ∈ bound, pair.1 = pair.2) → equalFields bound fs fs = true
  | [], _, _, _ => rfl
  | (_, e) :: rest, h, bound, hbound => by
      rw [equalFields, equalUnder_self e h.1 bound hbound, equalFields_self rest h.2 bound hbound,
        beq_self_eq_true]
      rfl

end

end Expr

namespace Lambda

variable {l m : Lambda}

/-- Simplification leaves the lambda as it is. -/
def IsSimplified (l : Lambda) : Prop :=
  l.simplified = l

theorem isSimplified_iff : l.IsSimplified ↔ l.body.simplify = l.body := by
  obtain ⟨parameter, body⟩ := l
  unfold IsSimplified simplified
  simp

theorem isSimplified_simplified (l : Lambda) : l.simplified.IsSimplified :=
  isSimplified_iff.mpr (Expr.simplify_simplify l.body)

theorem isSimplified_compose (outer inner : Lambda) : (outer.compose inner).IsSimplified :=
  isSimplified_iff.mpr (Expr.simplify_simplify _)

theorem IsSimplified.andAlso (hl : l.IsSimplified) (m : Lambda) : (l.andAlso m).IsSimplified :=
  isSimplified_iff.mpr
    (congrArg₂ (Expr.binary .and) (isSimplified_iff.mp hl) (Expr.simplify_simplify _))

/-- All floats in the lambda are numbers. -/
def HasNumbers (l : Lambda) : Prop :=
  l.body.HasNumbers

theorem HasNumbers.simplified (hl : l.HasNumbers) : l.simplified.HasNumbers :=
  Expr.HasNumbers.simplify _ hl

theorem HasNumbers.compose (hl : l.HasNumbers) (hm : m.HasNumbers) : (l.compose m).HasNumbers :=
  Expr.HasNumbers.simplify _ (Expr.HasNumbers.substituteUnder hm _ [] hl)

theorem HasNumbers.andAlso (hl : l.HasNumbers) (hm : m.HasNumbers) : (l.andAlso m).HasNumbers :=
  have hrow : (Expr.param l.parameter).HasNumbers := trivial
  ⟨hl, Expr.HasNumbers.simplify _ (Expr.HasNumbers.substituteUnder hrow _ [] hm)⟩

theorem HasNumbers.equal_self (hl : l.HasNumbers) : l.equal l = true :=
  Expr.equalUnder_self l.body hl _ (by simp)

end Lambda

end ResourceQuery
