import ResourceQuery.Proofs.Expr.Printing

set_option autoImplicit false

/-! # Texts that are read, written and read again

An expression that is read has proper timestamps only (`Form.hasProperTimes_tree`), as scanning finds no
others. So what is written for it has a derivation and is read again, if there is a text for it at all. It
comes out as the same query exactly if it is stable (`Lambda.parse_text_again`).
-/

namespace ResourceQuery

/-! ## Timestamps that are read -/

namespace Token

/-- If the token is a timestamp, then a text can write it. -/
def IsProper (token : Token) : Prop :=
  ∀ t, token = .dateTime t → t.isProper = true

theorem isProper_number {cs after : List Char} {token : Token} {bytes : Nat}
    (h : number cs = .ok (token, bytes, after)) : token.IsProper := by
  unfold number at h
  dsimp only at h
  split at h
  · split at h
    · cases h
      exact nofun
    · cases h
  · cases h
    exact nofun

theorem isProper_next {c : Char} {rest after : List Char} {token : Token} {bytes : Nat}
    (h : next c rest = .ok (token, bytes, after)) : token.IsProper := by
  unfold next at h
  split at h
  · cases h
    exact nofun
  · split at h
    · split at h
      · cases h
        exact nofun
      · cases h
    · split at h
      · cases hnumber : number (c :: rest) with
        | error fault =>
            rw [hnumber] at h
            cases h
        | ok read =>
            rw [hnumber] at h
            cases h
            exact isProper_number hnumber
      · split at h
        · dsimp only at h
          split at h
          · split at h
            · cases h
            · split at h
              · rename_i t hparse
                cases h
                rintro _ ⟨⟩
                exact Timestamp.isProper_of_parse? hparse
              · cases h
          · cases h
            exact nofun
        · cases h

theorem isProper_scanFrom {fuel offset : Nat} {cs : List Char} {lexemes : List Lexeme}
    (h : scanFrom fuel offset cs = .ok lexemes) : ∀ x ∈ lexemes, x.token.IsProper := by
  induction fuel generalizing offset cs lexemes with
  | zero =>
      cases h
      exact nofun
  | succ fuel ih =>
      cases cs with
      | nil =>
          cases h
          exact nofun
      | cons c rest =>
          rw [scanFrom] at h
          split at h
          · exact ih h
          · split at h
            · cases h
            · rename_i token bytes after hnext
              cases hrest : scanFrom fuel (offset + bytes) after with
              | error e =>
                  rw [hrest] at h
                  cases h
              | ok found =>
                  rw [hrest] at h
                  cases h
                  exact List.forall_mem_cons.mpr ⟨isProper_next hnext, ih hrest⟩

/-- The timestamps in a text can be written. -/
theorem isProper_scan {text : String} {lexemes : List Lexeme} (h : scan text = .ok lexemes) :
    ∀ t ∈ lexemes.map Lexeme.token, t.IsProper := by
  intro t ht
  obtain ⟨x, hx, rfl⟩ := List.mem_map.mp ht
  exact isProper_scanFrom h x hx

theorem isProper_literal? {token : Token} {l : Literal} (h : token.literal? = some l)
    (hproper : token.IsProper) : (Expr.constant l).HasProperTimes := by
  rintro t rfl
  cases token with
  | dateTime t' =>
      cases h
      exact hproper t rfl
  | int m =>
      rw [literal?, Option.map_eq_some_iff] at h
      obtain ⟨_, _, heq⟩ := h
      cases heq
  | _ => cases h

theorem isProper_negated? {token : Token} {l : Literal} (h : token.negated? = some l) :
    (Expr.constant l).HasProperTimes := by
  rintro t rfl
  cases token with
  | int m =>
      rw [negated?, Option.map_eq_some_iff] at h
      obtain ⟨_, _, heq⟩ := h
      cases heq
  | _ => cases h

end Token

theorem Parser.hasProperTimes_ofWord {scopes : Scopes} {word : String} {e : Expr}
    (h : ofWord scopes word = some e) : e.HasProperTimes := by
  unfold ofWord at h
  split at h
  · cases h
    trivial
  · split at h
    · cases h
      trivial
    · cases h
      exact nofun
    · cases h
      exact nofun
    · cases h
      exact nofun
    · split at h
      · cases h
      · cases h
        trivial

namespace Form

mutual

/-- The tree of a form has no timestamps but those of its tokens. -/
theorem hasProperTimes_tree {scopes : Parser.Scopes} : (f : Form) → (∀ t ∈ f.tokens, t.IsProper) →
    ∀ {next after : Nat} {e : Expr}, f.tree scopes next = some (e, after) → e.HasProperTimes
  | .literal t, hproper, next, after, e, h => by
      obtain ⟨l, hl, rfl, -⟩ := tree_literal_iff.mp h
      exact Token.isProper_literal? hl (hproper t List.mem_cons_self)
  | .negative t, _, next, after, e, h => by
      obtain ⟨l, hl, rfl, -⟩ := tree_negative_iff.mp h
      exact Token.isProper_negated? hl
  | .word text, _, next, after, e, h => by
      obtain ⟨_, hread, rfl, -⟩ := tree_word_iff.mp h
      exact Parser.hasProperTimes_ofWord hread
  | .group inner, hproper, next, after, e, h => by
      simp only [tokens, List.forall_mem_cons, List.forall_mem_append] at hproper
      exact hasProperTimes_tree inner hproper.2.1 h
  | .call text function arguments, hproper, next, after, e, h => by
      simp only [tokens, List.forall_mem_cons, List.forall_mem_append] at hproper
      obtain ⟨es, htrees, rfl⟩ := tree_call_iff.mp h
      exact haveProperTimes_trees arguments hproper.2.2.1 htrees
  | .member target name, hproper, next, after, e, h => by
      simp only [tokens, List.forall_mem_append] at hproper
      obtain ⟨read, htree, rfl⟩ := tree_member_iff.mp h
      have hread : read.HasProperTimes := hasProperTimes_tree target hproper.1 htree
      exact hread
  | .aggregate target text a, hproper, next, after, e, h => by
      simp only [tokens, List.forall_mem_append] at hproper
      obtain ⟨read, htree, rfl⟩ := tree_aggregate_iff.mp h
      have hread : read.HasProperTimes := hasProperTimes_tree target hproper.1 htree
      exact hread
  | .aggregateOf target text a shown body, hproper, next, after, e, h => by
      simp only [tokens, List.forall_mem_cons, List.forall_mem_append] at hproper
      obtain ⟨read, inner, readBody, htree, htreeBody, rfl⟩ := tree_aggregateOf_iff.mp h
      exact ⟨hasProperTimes_tree target hproper.1 htree,
        hasProperTimes_tree body hproper.2.2.2.2.2.2.1 htreeBody⟩
  | .not text operand, hproper, next, after, e, h => by
      simp only [tokens, List.forall_mem_cons] at hproper
      obtain ⟨read, htree, rfl⟩ := tree_not_iff.mp h
      have hread : read.HasProperTimes := hasProperTimes_tree operand hproper.2 htree
      exact hread
  | .negate operand, hproper, next, after, e, h => by
      simp only [tokens, List.forall_mem_cons] at hproper
      obtain ⟨read, htree, rfl⟩ := tree_negate_iff.mp h
      have hread : read.HasProperTimes := hasProperTimes_tree operand hproper.2 htree
      exact hread
  | .binary left text op right, hproper, next, after, e, h => by
      simp only [tokens, List.forall_mem_cons, List.forall_mem_append] at hproper
      obtain ⟨read, between, readRight, htree, htreeRight, rfl⟩ := tree_binary_iff.mp h
      exact ⟨hasProperTimes_tree left hproper.1 htree, hasProperTimes_tree right hproper.2.2 htreeRight⟩

theorem haveProperTimes_trees {scopes : Parser.Scopes} : (fs : List Form) →
    (∀ t ∈ argumentTokens fs, t.IsProper) → ∀ {next after : Nat} {es : List Expr},
      trees scopes fs next = some (es, after) → Expr.HaveProperTimes es
  | [], _, next, after, es, h => by
      cases h
      trivial
  | f :: rest, hproper, next, after, es, h => by
      simp only [argumentTokens, List.forall_mem_append] at hproper
      obtain ⟨e, between, others, htree, htrees, rfl⟩ := trees_cons_iff.mp h
      refine ⟨hasProperTimes_tree f hproper.1 htree, haveProperTimes_trees rest (fun t ht => ?_) htrees⟩
      -- without the comma before them, the later arguments have the same tokens
      cases rest with
      | nil => cases ht
      | cons g rest => exact hproper.2 t (List.mem_cons_of_mem _ ht)

end

/-- The derivation of `(5)`. -/
def five : Form :=
  .group (.literal (.int 5))

theorem spells_five : Token.Spells "(5)".toList five.tokens := by
  have hdigits : Token.Spells (Decimal.naturalText 5).toList [.int 5] := by
    rw [Decimal.toList_naturalText]
    exact Token.spells_natural (by decide)
  exact Expr.spells_wrapped hdigits true

theorem isDerived_five : five.IsDerived :=
  Option.isSome_of_eq_some (Token.literal?_int rfl)

end Form

/-! ## Reading again -/

namespace Lambda

variable {l : Lambda} {text written : String} {limit : Nat}

/-- A text is read as the tree of a derivation that is nested less deeply than the limit. -/
theorem parse_of_spells {f : Form} {e : Expr} {next : Nat} (hspells : Token.Spells text.toList f.tokens)
    (hderived : f.IsDerived) (htree : f.tree [] 1 = some (e, next)) (hlimit : f.depth < limit) :
    Lambda.parse text limit = .ok ⟨Parser.rowName, e⟩ := by
  have hlexes := hspells [] [] .nil .nil
  rw [List.append_nil, List.append_nil] at hlexes
  obtain ⟨lexemes, hscan, htokens⟩ := Token.scan_of_lexes hlexes
  have hread : Parser.readTokens lexemes text.utf8ByteSize limit = .ok e :=
    Parser.readTokens_iff.mpr ⟨f, ⟨htokens.symm, hderived, next, htree⟩, hlimit⟩
  rw [Lambda.parse_eq, hscan]
  simp only [Except.bind, hread]
  rfl

/-- The timestamps in a lambda that is read are proper. -/
theorem hasProperTimes_of_parse (h : Lambda.parse text limit = .ok l) : l.body.HasProperTimes := by
  rw [Lambda.parse_eq] at h
  cases hscan : Token.scan text with
  | error e =>
      rw [hscan] at h
      cases h
  | ok lexemes =>
      simp only [hscan, Except.bind] at h
      cases hread : Parser.readTokens lexemes text.utf8ByteSize limit with
      | error e =>
          rw [hread] at h
          cases h
      | ok e =>
          rw [hread] at h
          cases h
          obtain ⟨f, ⟨htokens, -, next, htree⟩, -⟩ := Parser.readTokens_iff.mp hread
          have hproper : ∀ t ∈ f.tokens, t.IsProper := by
            rw [htokens]
            exact Token.isProper_scan hscan
          exact Form.hasProperTimes_tree f hproper htree

/-- What is written for a lambda is read, and as the lambda exactly if the lambda is stable. -/
theorem exists_parse_written (hproper : l.body.HasProperTimes) (hwritten : l.text = .ok written) :
    ∃ least, ∀ limit, least ≤ limit →
      ∃ m, Lambda.parse written limit = .ok m ∧ l.equal m = l.body.isStable := by
  have hempty : ShownNames.ByDepth [] := trivial
  obtain ⟨f, hf, -⟩ := Expr.exists_writes hempty l.body hproper hwritten
  have hfits : Frames.Fits [] 1 := Nat.zero_lt_one
  obtain ⟨read, after, htree, -, hequal⟩ := hf.tree rfl hfits
  refine ⟨f.depth + 1, fun limit hlimit => ⟨⟨Parser.rowName, read⟩, ?_, hequal⟩⟩
  exact parse_of_spells hf.spells hf.isDerived htree hlimit

/-- **Whatever is read and written is read again, and as the same query exactly if it is stable**: if all
floats are finite, and no minus sign is applied to a member or an aggregate of a chain that starts at a
number without a sign. -/
theorem parse_text_again (hparse : Lambda.parse text limit = .ok l) (hwritten : l.text = .ok written) :
    ∃ least, ∀ limit, least ≤ limit →
      ∃ m, Lambda.parse written limit = .ok m ∧ (l.equal m = true ↔ l.body.isStable = true) := by
  obtain ⟨least, hleast⟩ := exists_parse_written (hasProperTimes_of_parse hparse) hwritten
  refine ⟨least, fun limit hlimit => ?_⟩
  obtain ⟨m, hm, hequal⟩ := hleast limit hlimit
  exact ⟨m, hm, by rw [hequal]⟩

/-- The sign is written before a number in parentheses, and stays an operator. -/
theorem parse_negatedNumber_again :
    let l : Lambda := ⟨Parser.rowName, .unary .negate (.constant (.int 5))⟩
    Lambda.parse "-(5)" 10 = .ok l ∧ l.text = .ok "-(5)" ∧ ∃ least, ∀ limit, least ≤ limit →
      ∃ m, Lambda.parse "-(5)" limit = .ok m ∧ l.equal m = true := by
  intro l
  have hparse : Lambda.parse "-(5)" 10 = .ok l := by
    refine parse_of_spells (f := .negate .five) (Form.spells_five.mark .minus) ?_ rfl (by decide)
    exact ⟨Form.isDerived_five, by decide, rfl⟩
  have hwritten : l.text = .ok "-(5)" := rfl
  obtain ⟨least, hleast⟩ := parse_text_again hparse hwritten
  refine ⟨hparse, hwritten, least, fun limit hlimit => ?_⟩
  obtain ⟨m, hm, hequal⟩ := hleast limit hlimit
  exact ⟨m, hm, hequal.mpr rfl⟩

theorem parse_negatedMember :
    Lambda.parse "-(5).Foo" 10 =
      .ok ⟨Parser.rowName, .unary .negate (.member (.constant (.int 5)) "Foo")⟩ := by
  have hspells := (Form.spells_five.then_member (w := "Foo") (by decide)).mark .minus
  refine parse_of_spells (f := .negate (.member .five "Foo")) hspells ?_ rfl (by decide)
  exact ⟨⟨Form.isDerived_five, by decide⟩, by decide, rfl⟩

/-- The negation of a member of `5` is written as a member of `-5`. -/
theorem exists_parse_text_changed :
    ¬ ∀ (text written : String) (limit : Nat) (l : Lambda), Lambda.parse text limit = .ok l →
      l.text = .ok written → ∃ least, ∀ limit, least ≤ limit →
        ∃ m, Lambda.parse written limit = .ok m ∧ l.equal m = true := by
  intro h
  have hwritten : (Lambda.mk Parser.rowName (.unary .negate (.member (.constant (.int 5)) "Foo"))).text =
      .ok "-5.Foo" := rfl
  obtain ⟨least, hleast⟩ := h _ _ _ _ parse_negatedMember hwritten
  obtain ⟨other, hother⟩ := exists_parse_written (hasProperTimes_of_parse parse_negatedMember) hwritten
  obtain ⟨m, hm, hequal⟩ := hleast (max least other) (Nat.le_max_left _ _)
  obtain ⟨m', hm', hchanged⟩ := hother (max least other) (Nat.le_max_right _ _)
  cases hm.symm.trans hm'
  rw [hequal] at hchanged
  exact absurd hchanged (by decide)

end Lambda

end ResourceQuery
