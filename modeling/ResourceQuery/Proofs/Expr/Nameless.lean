import ResourceQuery.Expr.Equality
import ResourceQuery.Proofs.Expr.NormalForms

set_option autoImplicit false

/-! # Nameless forms

The nameless form of an expression has a number in place of each bound variable: how many lambdas there
are between the variable and the one that binds it. Free variables keep their names.

The comparison of expressions keeps one list of pairs, and tells whether two variables are the same from
the innermost pairs that they occur in. It decides whether the nameless forms are the same
(`Expr.equalUnder_iff`): a pair is innermost for both variables exactly if both are resolved to the same
depth (`Expr.Pairing.relates_iff`). So it inherits from equality all that makes it an equivalence, and
environments need not be composed to see that.

Constants count as what they denote: a float without the sign of zero, a timestamp as its instant.
-/

namespace ResourceQuery

/-! ## Occurrences of variables -/

/-- What a variable is where it occurs: bound by a lambda with `depth` others in between, or free. -/
inductive Occurrence where
  | bound (depth : Nat)
  | free (name : String)
  deriving DecidableEq

namespace Occurrence

/-- What an occurrence becomes with one more lambda between it and the place where it is bound. -/
def under : Occurrence → Occurrence
  | .bound depth => .bound (depth + 1)
  | .free name => .free name

/-- What `x` is where the lambdas around bind `scope`, innermost first. -/
def resolve : (scope : List String) → (x : String) → Occurrence
  | [], x => .free x
  | y :: scope, x => if y = x then .bound 0 else (resolve scope x).under

theorem under_injective {o p : Occurrence} (h : o.under = p.under) : o = p := by
  cases o <;> cases p <;> simp_all [under]

theorem under_ne_innermost (o : Occurrence) : o.under ≠ .bound 0 := by
  cases o <;> simp [under]

@[simp] theorem resolve_nil (x : String) : resolve [] x = .free x := rfl

@[simp] theorem resolve_self (x : String) (scope : List String) :
    resolve (x :: scope) x = .bound 0 :=
  if_pos rfl

theorem resolve_ne {x y : String} (scope : List String) (hne : x ≠ y) :
    resolve (y :: scope) x = (resolve scope x).under :=
  if_neg (Ne.symm hne)

/-- A variable is free if no lambda around binds it, and then under its own name. -/
theorem resolve_eq_free_iff {scope : List String} {x y : String} :
    resolve scope x = .free y ↔ x ∉ scope ∧ x = y := by
  induction scope with
  | nil => simp
  | cons z scope ih =>
      by_cases hz : z = x
      · simp [resolve, hz]
      · rw [resolve_ne scope (Ne.symm hz), List.mem_cons, not_or]
        have hunder : (resolve scope x).under = .free y ↔ resolve scope x = .free y := by
          cases resolve scope x <;> simp [under]
        rw [hunder, ih]
        simp [Ne.symm hz]

theorem resolve_of_not_mem {scope : List String} {x : String} (hx : x ∉ scope) :
    resolve scope x = .free x :=
  resolve_eq_free_iff.2 ⟨hx, rfl⟩

end Occurrence

namespace Expr.Pairing

open Occurrence

/-- The variables that are bound on the left. -/
abbrev lefts (bound : Pairing) : List String :=
  bound.map Prod.fst

/-- The variables that are bound on the right. -/
abbrev rights (bound : Pairing) : List String :=
  bound.map Prod.snd

/-- **Two variables are compared by what they are**, though the search for the pair goes by both names
at once. -/
theorem relates_iff (bound : Pairing) (x y : String) :
    bound.relates x y = true ↔ resolve bound.lefts x = resolve bound.rights y := by
  induction bound with
  | nil => simp [relates]
  | cons pair rest ih =>
      obtain ⟨a, b⟩ := pair
      rw [relates]
      by_cases ha : a = x
      · by_cases hb : b = y
        · simp [ha, hb]
        · -- the pair is the one on the left only
          have hright : resolve (b :: rights rest) y ≠ .bound 0 := by
            rw [resolve_ne _ (Ne.symm hb)]
            exact under_ne_innermost _
          simpa [ha, hb] using hright.symm
      · by_cases hb : b = y
        · have hleft : resolve (a :: lefts rest) x ≠ .bound 0 := by
            rw [resolve_ne _ (Ne.symm ha)]
            exact under_ne_innermost _
          simpa [ha, hb] using hleft
        · -- the pair is of neither, and both are one further out
          rw [if_neg (by simp [ha, hb]), ih]
          simp only [lefts, rights, List.map_cons, resolve_ne _ (Ne.symm ha),
            resolve_ne _ (Ne.symm hb)]
          exact ⟨congrArg under, under_injective⟩

/-- A bound variable is never the same as a free one. -/
theorem bound_iff_of_relates {bound : Pairing} {x y : String} (h : bound.relates x y = true) :
    x ∈ bound.lefts ↔ y ∈ bound.rights := by
  have hsame := (relates_iff bound x y).1 h
  constructor
  · intro hx
    by_contra hy
    rw [resolve_of_not_mem hy, resolve_eq_free_iff] at hsame
    exact hsame.1 hx
  · intro hy
    by_contra hx
    rw [resolve_of_not_mem hx] at hsame
    exact (resolve_eq_free_iff.1 hsame.symm).1 hy

end Expr.Pairing

/-! ## Constants -/

/-- What a constant denotes. -/
inductive Denoted where
  | null
  | bool (b : Bool)
  | int (n : Int64)
  | float (x : Float.Model.UnpackedFloat)
  | string (s : String)
  | instant (nanoseconds : Int)

namespace Denoted

/-- A float without the sign of zero. -/
def unsigned : Float.Model.UnpackedFloat → Float.Model.UnpackedFloat
  | .zero _ => .zero .positive
  | x => x

/-- What a constant denotes. -/
def ofLiteral : Literal → Denoted
  | .null => .null
  | .bool b => .bool b
  | .int n => .int n
  | .float x => .float (unsigned x.toModel.unpack)
  | .string s => .string s
  | .dateTime t => .instant t.instant

theorem unsigned_eq_iff {u v : Float.Model.UnpackedFloat} (hu : u.isNaN = false) :
    u.beq v = true ↔ unsigned u = unsigned v := by
  -- numbers of different kinds are neither equal nor denote the same
  have hdiffer {x y : Float.Model.UnpackedFloat} (hcompare : x.beq y = false)
      (hne : unsigned x ≠ unsigned y) : x.beq y = true ↔ unsigned x = unsigned y :=
    iff_of_false (by rw [hcompare]; exact Bool.false_ne_true) hne
  cases u with
  | notANumber => cases hu
  | infinity s =>
      cases v with
      | infinity t =>
          cases s <;> cases t <;> first | exact iff_of_true rfl rfl | exact hdiffer rfl nofun
      | _ => cases s <;> exact hdiffer rfl nofun
  | zero s =>
      cases v with
      | zero t => exact iff_of_true rfl rfl
      | notANumber => exact hdiffer rfl nofun
      | _ t => cases t <;> exact hdiffer rfl nofun
  | finite s m e hm =>
      cases v with
      | infinity t => cases s <;> cases t <;> exact hdiffer rfl nofun
      | finite t m' e' hm' =>
          change _ ↔ Float.Model.UnpackedFloat.finite s m e hm = .finite t m' e' hm'
          rw [Float.Model.UnpackedFloat.finite.injEq]
          -- numbers of one sign are compared by their exponents first
          cases s <;> cases t
          · change (some ((compare e e').then (compare m m')).swap == some .eq) = true ↔ _
            simp [Ordering.then_eq_eq, and_comm]
          · change (some Ordering.lt == some .eq) = true ↔ _
            simp
          · change (some Ordering.gt == some .eq) = true ↔ _
            simp
          · change (some ((compare e e').then (compare m m')) == some .eq) = true ↔ _
            simp [Ordering.then_eq_eq, and_comm]
      | _ => cases s <;> exact hdiffer rfl nofun

end Denoted

/-- **Constants are equal if they denote the same**, if one of them is a number. -/
theorem Literal.equal_iff {a b : Literal} (ha : a.IsNumber) :
    a.equal b = true ↔ Denoted.ofLiteral a = Denoted.ofLiteral b := by
  cases a with
  | float x =>
      cases b with
      | float y =>
          change x.toModel.unpack.beq y.toModel.unpack = true ↔ _
          rw [Denoted.unsigned_eq_iff (ha x rfl), Denoted.ofLiteral, Denoted.ofLiteral,
            Denoted.float.injEq]
      | _ => simp [equal, Denoted.ofLiteral]
  | dateTime s =>
      cases b with
      | dateTime t => simp [equal, Timestamp.sameInstant, Denoted.ofLiteral]
      | _ => simp [equal, Denoted.ofLiteral]
  | _ => cases b <;> simp [equal, Denoted.ofLiteral]

/-! ## Expressions -/

/-- A nameless expression. -/
inductive Nameless where
  | var (o : Occurrence)
  | constant (value : Denoted)
  | member (target : Nameless) (name : String)
  | unary (op : UnaryOp) (operand : Nameless)
  | binary (op : BinaryOp) (left right : Nameless)
  | call (function : TextFunction) (arguments : List Nameless)
  | aggregate (target : Nameless) (aggregate : Aggregate)
  | aggregateOf (target : Nameless) (aggregate : Aggregate) (body : Nameless)
  | row (fields : List (String × Nameless))

namespace Expr

mutual

/-- The nameless form of an expression under lambdas that bind `scope`, innermost first. -/
def nameless (scope : List String) : Expr → Nameless
  | .param x => .var (Occurrence.resolve scope x)
  | .constant l => .constant (Denoted.ofLiteral l)
  | .member target name => .member (nameless scope target) name
  | .unary op operand => .unary op (nameless scope operand)
  | .binary op left right => .binary op (nameless scope left) (nameless scope right)
  | .call f arguments => .call f (namelessList scope arguments)
  | .aggregate target a => .aggregate (nameless scope target) a
  | .aggregateOf target a x body =>
    .aggregateOf (nameless scope target) a (nameless (x :: scope) body)
  | .row fields => .row (namelessFields scope fields)

/-- The nameless forms of a list of expressions. -/
def namelessList (scope : List String) : List Expr → List Nameless
  | [] => []
  | e :: rest => nameless scope e :: namelessList scope rest

/-- The nameless forms of the fields of a row. -/
def namelessFields (scope : List String) : List (String × Expr) → List (String × Nameless)
  | [] => []
  | (name, e) :: rest => (name, nameless scope e) :: namelessFields scope rest

end

mutual

/-- **Expressions are equal under bound variables if their nameless forms are the same.** -/
theorem equalUnder_iff : (a b : Expr) → (bound : Pairing) → a.HasNumbers →
    (equalUnder bound a b = true ↔ a.nameless bound.lefts = b.nameless bound.rights)
  | .param x, b, bound, _ => by
      cases b with
      | param y => simp [equalUnder, nameless, bound.relates_iff]
      | _ => simp [equalUnder, nameless]
  | .constant l, b, bound, ha => by
      cases b with
      | constant m => simp [equalUnder, nameless, Literal.equal_iff ha]
      | _ => simp [equalUnder, nameless]
  | .member target name, b, bound, ha => by
      cases b with
      | member target' name' =>
          simp [equalUnder, nameless, equalUnder_iff target target' bound ha, and_comm]
      | _ => simp [equalUnder, nameless]
  | .unary op operand, b, bound, ha => by
      cases b with
      | unary op' operand' => simp [equalUnder, nameless, equalUnder_iff operand operand' bound ha]
      | _ => simp [equalUnder, nameless]
  | .binary op left right, b, bound, ha => by
      cases b with
      | binary op' left' right' =>
          simp [equalUnder, nameless, equalUnder_iff left left' bound ha.1,
            equalUnder_iff right right' bound ha.2, and_assoc]
      | _ => simp [equalUnder, nameless]
  | .call f arguments, b, bound, ha => by
      cases b with
      | call f' arguments' =>
          simp [equalUnder, nameless, equalLists_iff arguments arguments' bound ha]
      | _ => simp [equalUnder, nameless]
  | .aggregate target a, b, bound, ha => by
      cases b with
      | aggregate target' a' =>
          simp [equalUnder, nameless, equalUnder_iff target target' bound ha, and_comm]
      | _ => simp [equalUnder, nameless]
  | .aggregateOf target a x body, b, bound, ha => by
      cases b with
      | aggregateOf target' a' y body' =>
          -- the pair of the two variables is in front of both scopes
          have hbody := equalUnder_iff body body' ((x, y) :: bound) ha.2
          simp only [Pairing.lefts, Pairing.rights, List.map_cons] at hbody
          simp [equalUnder, nameless, equalUnder_iff target target' bound ha.1, hbody,
            and_left_comm, and_assoc]
      | _ => simp [equalUnder, nameless]
  | .row fields, b, bound, ha => by
      cases b with
      | row fields' => simp [equalUnder, nameless, equalFields_iff fields fields' bound ha]
      | _ => simp [equalUnder, nameless]

theorem equalLists_iff : (as bs : List Expr) → (bound : Pairing) → HaveNumbers as →
    (equalLists bound as bs = true ↔ namelessList bound.lefts as = namelessList bound.rights bs)
  | [], bs, bound, _ => by cases bs <;> simp [equalLists, namelessList]
  | a :: as, bs, bound, ha => by
      cases bs with
      | nil => simp [equalLists, namelessList]
      | cons b bs =>
          simp [equalLists, namelessList, equalUnder_iff a b bound ha.1,
            equalLists_iff as bs bound ha.2]

theorem equalFields_iff : (as bs : List (String × Expr)) → (bound : Pairing) → FieldsHaveNumbers as →
    (equalFields bound as bs = true ↔
      namelessFields bound.lefts as = namelessFields bound.rights bs)
  | [], bs, bound, _ => by cases bs <;> simp [equalFields, namelessFields]
  | (name, a) :: as, bs, bound, ha => by
      cases bs with
      | nil => simp [equalFields, namelessFields]
      | cons field bs =>
          obtain ⟨name', b⟩ := field
          simp [equalFields, namelessFields, equalUnder_iff a b bound ha.1,
            equalFields_iff as bs bound ha.2]

end

theorem equal_iff {a b : Expr} (ha : a.HasNumbers) :
    a.equal b = true ↔ a.nameless [] = b.nameless [] :=
  equalUnder_iff a b [] ha

end Expr

namespace Lambda

/-- The nameless form of a lambda: of the body, under the variable. -/
def nameless (l : Lambda) : Nameless :=
  l.body.nameless [l.parameter]

theorem equal_iff {l m : Lambda} (hl : l.HasNumbers) :
    l.equal m = true ↔ l.nameless = m.nameless :=
  Expr.equalUnder_iff l.body m.body [(l.parameter, m.parameter)] hl

end Lambda

/-! ## Equality of expressions and of lambdas -/

/-- A test that is equality of forms is an equivalence. -/
theorem equivalence_of_form {α β : Type} (form : α → β) {same : α → α → Bool}
    (h : ∀ a b, same a b = true ↔ form a = form b) :
    Equivalence fun a b => same a b = true where
  refl a := (h a a).2 rfl
  symm hab := (h _ _).2 ((h _ _).1 hab).symm
  trans hab hbc := (h _ _).2 (((h _ _).1 hab).trans ((h _ _).1 hbc))

/-- **Equality of expressions and of lambdas without the constant that is no number is equality of their
nameless forms.** So it is an equivalence; and wherever the comparison comes, it takes no bound
variable for a free one, whatever the variables around are called. -/
theorem equality_by_nameless_forms :
    (∀ a b : Expr, a.HasNumbers → b.HasNumbers →
      (a.equal b = true ↔ a.nameless [] = b.nameless [])) ∧
    (∀ l m : Lambda, l.HasNumbers → m.HasNumbers →
      (l.equal m = true ↔ l.nameless = m.nameless)) ∧
    (Equivalence fun a b : {e : Expr // e.HasNumbers} => a.1.equal b.1 = true) ∧
    (Equivalence fun l m : {l : Lambda // l.HasNumbers} => l.1.equal m.1 = true) ∧
    ∀ (bound : Expr.Pairing) (x y : String),
      Expr.equalUnder bound (.param x) (.param y) = true → (x ∈ bound.lefts ↔ y ∈ bound.rights) := by
  refine ⟨fun a b ha _ => Expr.equal_iff ha, fun l m hl _ => Lambda.equal_iff hl,
    equivalence_of_form (fun a => a.1.nameless []) fun a b => Expr.equal_iff a.2,
    equivalence_of_form (fun l => l.1.nameless) fun l m => Lambda.equal_iff l.2,
    fun bound x y h => ?_⟩
  rw [Expr.equalUnder] at h
  exact Expr.Pairing.bound_iff_of_relates h

/-- Some `x` of a list that equals all `y`: the variables may change places, but not their depths, and
a variable of the row in the place of a bound one makes a difference. -/
theorem crossed_variables :
    let nested (outer inner left right : String) : Expr :=
      .aggregateOf (.param "p") .any outer
        (.aggregateOf (.param "p") .all inner (.binary .eq (.param left) (.param right)))
    (nested "x" "y" "x" "y").equal (nested "y" "x" "y" "x") = true ∧
      ¬(nested "x" "y" "x" "y").equal (nested "y" "x" "x" "y") = true ∧
      ¬(⟨"x", nested "x" "y" "x" "y"⟩ : Lambda).equal ⟨"y", nested "x" "y" "z" "y"⟩ = true ∧
      ¬Expr.equalUnder [("x", "y")] (.param "x") (.param "x") = true := by
  intro nested
  have hnumbers : ∀ outer inner left right, (nested outer inner left right).HasNumbers :=
    fun _ _ _ _ => ⟨trivial, trivial, trivial, trivial⟩
  obtain ⟨hexprs, hlambdas, -, -, hbound⟩ := equality_by_nameless_forms
  refine ⟨(hexprs _ _ (hnumbers _ _ _ _) (hnumbers _ _ _ _)).2 rfl, ?_, ?_, ?_⟩
  · rw [hexprs _ _ (hnumbers _ _ _ _) (hnumbers _ _ _ _)]
    simp [nested, Expr.nameless, Occurrence.resolve, Occurrence.under]
  · rw [hlambdas ⟨"x", _⟩ ⟨"y", _⟩ (hnumbers "x" "y" "x" "y") (hnumbers "x" "y" "z" "y")]
    simp [Lambda.nameless, Expr.nameless, Occurrence.resolve, Occurrence.under]
  · intro h
    have := hbound _ _ _ h
    simp [Expr.Pairing.lefts, Expr.Pairing.rights] at this

end ResourceQuery
