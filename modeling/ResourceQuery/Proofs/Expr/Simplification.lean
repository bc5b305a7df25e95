import ResourceQuery.Proofs.Expr.Substitution

set_option autoImplicit false

/-! # Simplification and combination of lambdas

What simplification and the combinations of lambdas do to values. A member of a row that is written out
is the field of that name, as long as no two fields of the row have the same name up to the case of
ASCII letters: of two such fields the value keeps both, and a member finds the one whose key comes
first, while simplification takes the one that was written first. `HasDistinctFields` rules that out.

The results are about lambdas: `Lambda.eval_simplified`, `Lambda.eval_compose` and
`Lambda.test_andAlso`.
-/

namespace ResourceQuery

/-! ## Names of fields -/

namespace Entries

variable {α : Type}

theorem mem_keys_insert {key k : String} {value : α} {entries : Entries α}
    (hk : k ∈ keys (insert key value entries)) : k = key ∨ k ∈ keys entries := by
  induction entries with
  | nil =>
      left
      simpa [insert, keys] using hk
  | cons pair rest ih =>
      obtain ⟨k', v'⟩ := pair
      rw [insert] at hk
      by_cases hlt : key < k'
      · rw [if_pos hlt] at hk
        exact List.mem_cons.1 hk
      · rw [if_neg hlt] at hk
        by_cases heq : key = k'
        · rw [if_pos heq] at hk
          refine (List.mem_cons.1 hk).imp id fun hrest => ?_
          exact List.mem_cons_of_mem k' hrest
        · rw [if_neg heq] at hk
          rcases List.mem_cons.1 hk with rfl | hrest
          · exact Or.inr List.mem_cons_self
          · exact (ih hrest).imp id fun hold => List.mem_cons_of_mem k' hold

/-- Looking for a name in any case finds the key `k`, if no other key is that name. -/
theorem find?_name {k name : String} {entries : Entries α} {value : α}
    (hget : get? k entries = some value) (hk : Text.sameIgnoringCase k name = true)
    (honly : ∀ k' ∈ keys entries, Text.sameIgnoringCase k' name = true → k' = k) :
    (entries.find? fun (k', _) => Text.sameIgnoringCase k' name) = some (k, value) := by
  induction entries with
  | nil => cases hget
  | cons pair rest ih =>
      obtain ⟨k', v'⟩ := pair
      by_cases hfirst : k' = k
      · subst hfirst
        rw [get?, if_pos rfl] at hget
        cases hget
        exact List.find?_cons_of_pos hk
      · rw [get?, if_neg hfirst] at hget
        have hother : ¬ Text.sameIgnoringCase k' name = true :=
          fun hsame => hfirst (honly k' List.mem_cons_self hsame)
        have hfind := ih hget fun k'' hk'' => honly k'' (List.mem_cons_of_mem k' hk'')
        rw [← hfind]
        exact List.find?_cons_of_neg hother

end Entries

/-- No two names are the same up to the case of ASCII letters. -/
def DistinctNames (names : List String) : Prop :=
  names.Pairwise fun a b => Text.sameIgnoringCase a b = false

namespace DistinctNames

theorem eq_of_same {names : List String} (hd : DistinctNames names) {a b : String} (ha : a ∈ names)
    (hb : b ∈ names) (hsame : Text.sameIgnoringCase a b = true) : a = b := by
  induction names with
  | nil => cases ha
  | cons name rest ih =>
      obtain ⟨hfirst, hrest⟩ := List.pairwise_cons.1 hd
      rcases List.mem_cons.1 ha with rfl | harest
      · rcases List.mem_cons.1 hb with rfl | hbrest
        · rfl
        · rw [hfirst b hbrest] at hsame
          cases hsame
      · rcases List.mem_cons.1 hb with rfl | hbrest
        · have hback := Text.sameIgnoringCase_symm hsame
          rw [hfirst a harest] at hback
          cases hback
        · exact ih hrest harest hbrest

theorem not_mem {name : String} {rest : List String} (hd : DistinctNames (name :: rest)) :
    name ∉ rest := by
  intro hmem
  have hother := (List.pairwise_cons.1 hd).1 name hmem
  rw [Text.sameIgnoringCase_iff.2 rfl] at hother
  cases hother

end DistinctNames

namespace Expr

variable {g : TypeGraph} {h : Heap} {env : Env}

mutual

/-- The fields of every row in the expression have distinct names. -/
def HasDistinctFields : Expr → Prop
  | .param _ => True
  | .constant _ => True
  | .member target _ => HasDistinctFields target
  | .unary _ operand => HasDistinctFields operand
  | .binary _ left right => HasDistinctFields left ∧ HasDistinctFields right
  | .call _ arguments => HaveDistinctFields arguments
  | .aggregate target _ => HasDistinctFields target
  | .aggregateOf target _ _ body => HasDistinctFields target ∧ HasDistinctFields body
  | .row fields => DistinctNames (fields.map (·.1)) ∧ FieldsHaveDistinctFields fields

/-- The same for a list of expressions. -/
def HaveDistinctFields : List Expr → Prop
  | [] => True
  | e :: rest => HasDistinctFields e ∧ HaveDistinctFields rest

/-- The same for what stands in the fields of a row. -/
def FieldsHaveDistinctFields : List (String × Expr) → Prop
  | [] => True
  | (_, e) :: rest => HasDistinctFields e ∧ FieldsHaveDistinctFields rest

end

theorem FieldsHaveDistinctFields.of_mem {fields : List (String × Expr)} {name : String} {e : Expr}
    (hd : FieldsHaveDistinctFields fields) (hmem : (name, e) ∈ fields) : e.HasDistinctFields := by
  induction fields with
  | nil => cases hmem
  | cons field rest ih =>
      rcases List.mem_cons.1 hmem with rfl | hrest
      · exact hd.1
      · exact ih hd.2 hrest

/-! ## Distinct fields stay distinct -/

theorem names_renameFields (ρ : Renaming) (fs : List (String × Expr)) :
    (renameFields ρ fs).map (·.1) = fs.map (·.1) := by
  induction fs with
  | nil => rfl
  | cons field rest ih =>
      rw [renameFields, List.map_cons, List.map_cons, ih]

theorem names_substituteFields (ρ : Renaming) (x : String) (replacement : Expr)
    (fs : List (String × Expr)) :
    (substituteFields ρ x replacement fs).map (·.1) = fs.map (·.1) := by
  induction fs with
  | nil => rfl
  | cons field rest ih =>
      rw [substituteFields, List.map_cons, List.map_cons, ih]

theorem names_simplifyFields (fs : List (String × Expr)) :
    (simplifyFields fs).map (·.1) = fs.map (·.1) := by
  induction fs with
  | nil => rfl
  | cons field rest ih =>
      rw [simplifyFields, List.map_cons, List.map_cons, ih]

mutual

theorem HasDistinctFields.rename : (e : Expr) → (ρ : Renaming) → e.HasDistinctFields →
    (rename ρ e).HasDistinctFields
  | .param _, _, _ => trivial
  | .constant _, _, _ => trivial
  | .member target _, ρ, hd => HasDistinctFields.rename target ρ hd
  | .unary _ operand, ρ, hd => HasDistinctFields.rename operand ρ hd
  | .binary _ left right, ρ, hd =>
      ⟨HasDistinctFields.rename left ρ hd.1, HasDistinctFields.rename right ρ hd.2⟩
  | .call _ arguments, ρ, hd => HaveDistinctFields.rename arguments ρ hd
  | .aggregate target _, ρ, hd => HasDistinctFields.rename target ρ hd
  | .aggregateOf target _ x body, ρ, hd =>
      ⟨HasDistinctFields.rename target ρ hd.1, HasDistinctFields.rename body (ρ.without x) hd.2⟩
  | .row fields, ρ, hd => by
      refine ⟨?_, FieldsHaveDistinctFields.rename fields ρ hd.2⟩
      rw [names_renameFields]
      exact hd.1

theorem HaveDistinctFields.rename : (es : List Expr) → (ρ : Renaming) → HaveDistinctFields es →
    HaveDistinctFields (renameList ρ es)
  | [], _, _ => trivial
  | e :: rest, ρ, hd => ⟨HasDistinctFields.rename e ρ hd.1, HaveDistinctFields.rename rest ρ hd.2⟩

theorem FieldsHaveDistinctFields.rename : (fs : List (String × Expr)) → (ρ : Renaming) →
    FieldsHaveDistinctFields fs → FieldsHaveDistinctFields (renameFields ρ fs)
  | [], _, _ => trivial
  | (_, e) :: rest, ρ, hd =>
      ⟨HasDistinctFields.rename e ρ hd.1, FieldsHaveDistinctFields.rename rest ρ hd.2⟩

end

mutual

theorem HasDistinctFields.substituteUnder {x : String} {replacement : Expr}
    (hr : replacement.HasDistinctFields) : (e : Expr) → (ρ : Renaming) → e.HasDistinctFields →
    (substituteUnder ρ x replacement e).HasDistinctFields
  | .param y, ρ, _ => by
      rw [Expr.substituteUnder]
      cases ρ.lookup y with
      | some new => trivial
      | none =>
          by_cases hyx : y = x
          · simp only [if_pos hyx]
            exact hr
          · simp only [if_neg hyx]
            trivial
  | .constant _, _, _ => trivial
  | .member target _, ρ, hd => HasDistinctFields.substituteUnder hr target ρ hd
  | .unary _ operand, ρ, hd => HasDistinctFields.substituteUnder hr operand ρ hd
  | .binary _ left right, ρ, hd =>
      ⟨HasDistinctFields.substituteUnder hr left ρ hd.1,
        HasDistinctFields.substituteUnder hr right ρ hd.2⟩
  | .call _ arguments, ρ, hd => HaveDistinctFields.substitute hr arguments ρ hd
  | .aggregate target _, ρ, hd => HasDistinctFields.substituteUnder hr target ρ hd
  | .aggregateOf target _ y body, ρ, hd => by
      have htarget : (Expr.substituteUnder ρ x replacement target).HasDistinctFields :=
        HasDistinctFields.substituteUnder hr target ρ hd.1
      rw [Expr.substituteUnder]
      by_cases hyx : y = x
      · -- the variable is bound again here, and the body is only renamed
        rw [if_pos hyx]
        exact ⟨htarget, HasDistinctFields.rename body _ hd.2⟩
      · rw [if_neg hyx]
        by_cases hfree : replacement.hasFree y
        · rw [if_pos hfree]
          exact ⟨htarget, HasDistinctFields.substituteUnder hr body _ hd.2⟩
        · rw [if_neg hfree]
          exact ⟨htarget, HasDistinctFields.substituteUnder hr body _ hd.2⟩
  | .row fields, ρ, hd => by
      refine ⟨?_, FieldsHaveDistinctFields.substitute hr fields ρ hd.2⟩
      rw [names_substituteFields]
      exact hd.1

theorem HaveDistinctFields.substitute {x : String} {replacement : Expr}
    (hr : replacement.HasDistinctFields) : (es : List Expr) → (ρ : Renaming) →
    HaveDistinctFields es → HaveDistinctFields (substituteList ρ x replacement es)
  | [], _, _ => trivial
  | e :: rest, ρ, hd =>
      ⟨HasDistinctFields.substituteUnder hr e ρ hd.1, HaveDistinctFields.substitute hr rest ρ hd.2⟩

theorem FieldsHaveDistinctFields.substitute {x : String} {replacement : Expr}
    (hr : replacement.HasDistinctFields) : (fs : List (String × Expr)) → (ρ : Renaming) →
    FieldsHaveDistinctFields fs → FieldsHaveDistinctFields (substituteFields ρ x replacement fs)
  | [], _, _ => trivial
  | (_, e) :: rest, ρ, hd =>
      ⟨HasDistinctFields.substituteUnder hr e ρ hd.1,
        FieldsHaveDistinctFields.substitute hr rest ρ hd.2⟩

end

/-! ## Members of rows that are written out -/

theorem keys_evalFields {fields : List (String × Expr)} {done entries : Entries Value}
    (hf : evalFields g h env done fields = .ok entries) {k : String}
    (hk : k ∈ Entries.keys entries) : k ∈ Entries.keys done ∨ k ∈ fields.map (·.1) := by
  induction fields generalizing done with
  | nil =>
      rw [evalFields] at hf
      cases hf
      exact Or.inl hk
  | cons field rest ih =>
      obtain ⟨name, e⟩ := field
      rw [evalFields] at hf
      obtain ⟨v, -, hf⟩ := exists_of_bind_eq_ok hf
      rw [List.map_cons, List.mem_cons]
      rcases ih hf with hdone | hrest
      · rcases Entries.mem_keys_insert hdone with hname | hold
        · exact Or.inr (Or.inl hname)
        · exact Or.inl hold
      · exact Or.inr (Or.inr hrest)

theorem get?_evalFields_of_not_mem {fields : List (String × Expr)} {done entries : Entries Value}
    (hf : evalFields g h env done fields = .ok entries) {k : String}
    (hk : k ∉ fields.map (·.1)) : Entries.get? k entries = Entries.get? k done := by
  induction fields generalizing done with
  | nil =>
      rw [evalFields] at hf
      cases hf
      rfl
  | cons field rest ih =>
      obtain ⟨name, e⟩ := field
      rw [evalFields] at hf
      obtain ⟨v, -, hf⟩ := exists_of_bind_eq_ok hf
      rw [List.map_cons, List.mem_cons, not_or] at hk
      rw [ih hf hk.2, Entries.get?_insert_of_ne hk.1]

/-- What a field is, the entry of its name is. -/
theorem get?_evalFields {name : String} {e : Expr} {fields : List (String × Expr)}
    {done entries : Entries Value} (hf : evalFields g h env done fields = .ok entries)
    (hdistinct : DistinctNames (fields.map (·.1))) (hmem : (name, e) ∈ fields) :
    ∃ v, eval g h env e = .ok v ∧ Entries.get? name entries = some v := by
  induction fields generalizing done with
  | nil => cases hmem
  | cons field rest ih =>
      obtain ⟨first, e₁⟩ := field
      rw [evalFields] at hf
      obtain ⟨v, hv, hinto⟩ := exists_of_bind_eq_ok hf
      rcases List.mem_cons.1 hmem with heq | hrest
      · cases heq
        refine ⟨v, hv, ?_⟩
        rw [get?_evalFields_of_not_mem hinto (DistinctNames.not_mem hdistinct)]
        exact Entries.get?_insert_self name v done
      · exact ih hinto (List.pairwise_cons.1 hdistinct).2 hrest

/-- **A member of a row that is written out is the field of that name.** -/
theorem eval_memberOf {target : Expr} (hd : target.HasDistinctFields) (name : String) :
    Refines (eval g h env (.member target name)) (eval g h env (memberOf target name)) := by
  intro v hv
  cases target with
  | row fields =>
      rw [memberOf]
      split
      · rename_i k e hfind
        have hmem := List.mem_of_find?_eq_some hfind
        have hk : Text.sameIgnoringCase k name = true := by
          simpa using List.find?_some hfind
        rw [eval, eval] at hv
        obtain ⟨row, hrow, hv⟩ := exists_of_bind_eq_ok hv
        obtain ⟨entries, hentries, hrow⟩ := exists_of_bind_eq_ok hrow
        cases hrow
        obtain ⟨w, hw, hget⟩ := get?_evalFields hentries hd.1 hmem
        -- another key with that name would be another field with that name
        have honly : ∀ k' ∈ Entries.keys entries, Text.sameIgnoringCase k' name = true →
            k' = k := by
          intro k' hk' hsame
          have hname : k' ∈ fields.map (·.1) :=
            (keys_evalFields hentries hk').resolve_left List.not_mem_nil
          exact DistinctNames.eq_of_same hd.1 hname (List.mem_map_of_mem hmem)
            (Text.sameIgnoringCase_trans hsame (Text.sameIgnoringCase_symm hk))
        rw [Value.member, Value.memberVia, Entries.find?_name hget hk honly] at hv
        rw [hw]
        exact hv
      · exact hv
  | _ => exact hv

theorem HasDistinctFields.memberOf {target : Expr} (hd : target.HasDistinctFields) (name : String) :
    (memberOf target name).HasDistinctFields := by
  cases target with
  | row fields =>
      rw [Expr.memberOf]
      split
      · rename_i hfind
        exact hd.2.of_mem (List.mem_of_find?_eq_some hfind)
      · exact hd
  | _ => exact hd

/-! ## Simplification -/

mutual

theorem HasDistinctFields.simplify : (e : Expr) → e.HasDistinctFields →
    (simplify e).HasDistinctFields
  | .param _, _ => trivial
  | .constant _, _ => trivial
  | .member target name, hd => HasDistinctFields.memberOf (HasDistinctFields.simplify target hd) name
  | .unary _ operand, hd => HasDistinctFields.simplify operand hd
  | .binary _ left right, hd =>
      ⟨HasDistinctFields.simplify left hd.1, HasDistinctFields.simplify right hd.2⟩
  | .call _ arguments, hd => HaveDistinctFields.simplify arguments hd
  | .aggregate target _, hd => HasDistinctFields.simplify target hd
  | .aggregateOf target _ _ body, hd =>
      ⟨HasDistinctFields.simplify target hd.1, HasDistinctFields.simplify body hd.2⟩
  | .row fields, hd => by
      refine ⟨?_, FieldsHaveDistinctFields.simplify fields hd.2⟩
      rw [names_simplifyFields]
      exact hd.1

theorem HaveDistinctFields.simplify : (es : List Expr) → HaveDistinctFields es →
    HaveDistinctFields (simplifyList es)
  | [], _ => trivial
  | e :: rest, hd => ⟨HasDistinctFields.simplify e hd.1, HaveDistinctFields.simplify rest hd.2⟩

theorem FieldsHaveDistinctFields.simplify : (fs : List (String × Expr)) →
    FieldsHaveDistinctFields fs → FieldsHaveDistinctFields (simplifyFields fs)
  | [], _ => trivial
  | (_, e) :: rest, hd =>
      ⟨HasDistinctFields.simplify e hd.1, FieldsHaveDistinctFields.simplify rest hd.2⟩

end

mutual

/-- **Simplification keeps values.** It may remove failures, those of the fields that it drops. -/
theorem eval_simplify {env : Env} : (e : Expr) → e.HasDistinctFields →
    Refines (eval g h env e) (eval g h env (simplify e))
  | .param _, _ => Refines.refl _
  | .constant _, _ => Refines.refl _
  | .member target name, hd =>
      (member_refines name (eval_simplify target hd)).trans
        (eval_memberOf (HasDistinctFields.simplify target hd) name)
  | .unary op operand, hd => unary_refines op (eval_simplify operand hd)
  | .binary op left right, hd =>
      binary_refines op (eval_simplify left hd.1) (eval_simplify right hd.2)
  | .call f arguments, hd => call_refines f (evalList_simplify arguments hd)
  | .aggregate target a, hd => aggregate_refines a (eval_simplify target hd)
  | .aggregateOf target a _ body, hd =>
      aggregateOf_refines a (eval_simplify target hd.1) fun _ => eval_simplify body hd.2
  | .row fields, hd => row_refines (evalFields_simplify fields hd.2 [])

/-- The same for a list of expressions. -/
theorem evalList_simplify {env : Env} : (es : List Expr) → HaveDistinctFields es →
    Refines (evalList g h env es) (evalList g h env (simplifyList es))
  | [], _ => Refines.refl _
  | e :: rest, hd => evalList_cons_refines (eval_simplify e hd.1) (evalList_simplify rest hd.2)

/-- The same for the fields of a row. -/
theorem evalFields_simplify {env : Env} : (fs : List (String × Expr)) →
    FieldsHaveDistinctFields fs → ∀ done,
    Refines (evalFields g h env done fs) (evalFields g h env done (simplifyFields fs))
  | [], _, _ => Refines.refl _
  | (name, e) :: rest, hd, done =>
      evalFields_cons_refines name (eval_simplify e hd.1) (evalFields_simplify rest hd.2) done

end

theorem eval_and_of_true {env : Env} {left right : Expr} {v w : Value}
    (hl : eval g h env left = .ok v) (hv : v.isTrue = true) (hr : eval g h env right = .ok w) :
    eval g h env (.binary .and left right) = .ok (.bool w.isTrue) := by
  rw [eval, hl]
  show (if v.isTrue = true then _ else _) = _
  rw [if_pos hv, hr]
  rfl

theorem eval_and_of_false {env : Env} {left right : Expr} {v : Value}
    (hl : eval g h env left = .ok v) (hv : v.isTrue = false) :
    eval g h env (.binary .and left right) = .ok (.bool false) := by
  rw [eval, hl]
  show (if v.isTrue = true then _ else _) = _
  rw [hv]
  rfl

end Expr

/-! ## Lambdas -/

namespace Lambda

variable {g : TypeGraph} {h : Heap}

/-- The fields of every row in the lambda have distinct names. -/
def HasDistinctFields (l : Lambda) : Prop :=
  l.body.HasDistinctFields

theorem HasDistinctFields.simplified {l : Lambda} (hd : l.HasDistinctFields) :
    l.simplified.HasDistinctFields :=
  Expr.HasDistinctFields.simplify l.body hd

theorem HasDistinctFields.compose {outer inner : Lambda} (ho : outer.HasDistinctFields)
    (hi : inner.HasDistinctFields) : (outer.compose inner).HasDistinctFields :=
  Expr.HasDistinctFields.simplify _ (Expr.HasDistinctFields.substituteUnder hi outer.body [] ho)

theorem eval_simplified {l : Lambda} (hd : l.HasDistinctFields) (row : Value) :
    Refines (l.eval g h row) (l.simplified.eval g h row) :=
  Expr.eval_simplify l.body hd

/-- A lambda applied to an expression that has a value is what it is for that value. -/
theorem eval_apply {l : Lambda} {argument : Expr} {x : String} {row v : Value}
    (hd : l.HasDistinctFields) (ha : argument.HasDistinctFields)
    (hv : argument.eval g h [(x, row)] = .ok v) :
    Refines (l.eval g h v) ((l.apply argument).eval g h [(x, row)]) :=
  (Expr.eval_substitute hv).trans
    (Expr.eval_simplify _ (Expr.HasDistinctFields.substituteUnder ha l.body [] hd))

/-- **The composition of two lambdas is the one applied to the value of the other.** -/
theorem eval_compose {outer inner : Lambda} {row v : Value} (ho : outer.HasDistinctFields)
    (hi : inner.HasDistinctFields) (hv : inner.eval g h row = .ok v) :
    Refines (outer.eval g h v) ((outer.compose inner).eval g h row) :=
  eval_apply ho hi hv

theorem test_of_eval {l : Lambda} {row v : Value} (hv : l.eval g h row = .ok v) :
    l.test g h row = .ok v.isTrue := by
  rw [test, hv]
  rfl

theorem exists_of_test {l : Lambda} {row : Value} {b : Bool} (hb : l.test g h row = .ok b) :
    ∃ v, l.eval g h row = .ok v ∧ v.isTrue = b := by
  obtain ⟨v, hv, hb⟩ := Expr.exists_of_bind_eq_ok hb
  cases hb
  exact ⟨v, hv, rfl⟩

/-- **The conjunction of two lambdas is true where both are**; the second is only looked at where the
first is true. -/
theorem test_andAlso {l m : Lambda} {row : Value} {first second : Bool} (hm : m.HasDistinctFields)
    (hl : l.test g h row = .ok first) (hsecond : first = true → m.test g h row = .ok second) :
    (l.andAlso m).test g h row = .ok (first && second) := by
  obtain ⟨v, hv, rfl⟩ := exists_of_test hl
  suffices heval : (l.andAlso m).eval g h row = .ok (.bool (v.isTrue && second)) by
    rw [test_of_eval heval]
    cases v.isTrue && second <;> rfl
  show Expr.eval g h [(l.parameter, row)]
    (.binary .and l.body (m.apply (.param l.parameter))) = _
  by_cases htrue : v.isTrue = true
  · -- the second lambda is applied to the variable of the first, which is the row
    obtain ⟨w, hw, rfl⟩ := exists_of_test (hsecond htrue)
    have hrow : Expr.eval g h [(l.parameter, row)] (.param l.parameter) = .ok row := by
      rw [Expr.eval, List.lookup_cons_self]
    have hright : Expr.eval g h [(l.parameter, row)] (m.apply (.param l.parameter)) = .ok w :=
      eval_apply hm (by trivial) hrow hw
    rw [Expr.eval_and_of_true hv htrue hright, htrue, Bool.true_and]
  · rw [Bool.not_eq_true] at htrue
    rw [Expr.eval_and_of_false hv htrue, htrue, Bool.false_and]

end Lambda

end ResourceQuery
