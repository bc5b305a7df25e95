import ResourceQuery.Proofs.Expr.Recognition
import ResourceQuery.Proofs.Expr.Unambiguity

set_option autoImplicit false

/-! # Climbing through precedences implements the grammar

What a text is read as depends on its tokens only (`Lambda.parse_eq`). They are read exactly if they have
a derivation that is nested less deeply than the limit (`Parser.readTokens_iff`), and a limit of two levels
for each token is never met. With the derivations' being unique, that makes the reader and the grammar the
same function (`Parser.readTokens_implements_grammar`).
-/

namespace ResourceQuery

namespace Parser

/-- The expression that tokens write, about the row, with at most `limit` levels of nesting. -/
def readTokens (lexemes : List Lexeme) (finish limit : Nat) : Except Error Expr :=
  let whole : Parser Expr := do
    let e ← expr ⟨limit, lexemes.length + 1⟩
    expectEnd
    pure e
  (whole.runOn ⟨lexemes, finish, 1⟩).1

variable {lexemes : List Lexeme} {finish limit : Nat} {e : Expr}

/-- Tokens are read if reading an expression comes to their end. -/
theorem readTokens_eq_ok :
    readTokens lexemes finish limit = .ok e ↔
      ∃ after, after.tokens = [] ∧
        (binary ⟨limit, lexemes.length + 1⟩ limit [] 0).runOn ⟨lexemes, finish, 1⟩ = (.ok e, after) := by
  constructor
  · intro h
    have hrun : ∃ after, (do
        let e ← expr ⟨limit, lexemes.length + 1⟩
        expectEnd
        pure e : Parser Expr).runOn ⟨lexemes, finish, 1⟩ = (.ok e, after) := ⟨_, Prod.ext h rfl⟩
    obtain ⟨last, hrun⟩ := hrun
    obtain ⟨read, after, hread, hrun⟩ := exists_of_bind hrun
    obtain ⟨u, behind, hend, hrun⟩ := exists_of_bind hrun
    cases hrun
    refine ⟨after, ?_, hread⟩
    simp only [expectEnd, Action.look, Action.runOn_ofFunction] at hend
    by_cases hempty : after.ahead.isEmpty = true
    · rw [State.tokens, List.isEmpty_iff.mp hempty]
      rfl
    · rw [if_neg hempty] at hend
      cases hend
  · rintro ⟨after, hafter, hrun⟩
    have hempty : after.ahead = [] := List.map_eq_nil_iff.1 hafter
    simp only [readTokens, expr]
    rw [Action.runOn_bind, hrun]
    dsimp only
    rw [Action.runOn_bind]
    simp only [expectEnd, Action.look, Action.runOn_ofFunction, hempty, List.isEmpty_nil, if_true]
    rfl

/-- **The tokens that are read are those with a derivation nested less deeply than the limit**, and what
they are read as is the tree of the derivation. -/
theorem readTokens_iff :
    readTokens lexemes finish limit = .ok e ↔
      ∃ f : Form, f.Derives (lexemes.map Lexeme.token) e ∧ f.depth < limit := by
  have hlength : (State.tokens ⟨lexemes, finish, 1⟩).length ≤ lexemes.length + 1 := by
    rw [State.tokens, List.length_map]
    exact Nat.le_succ _
  rw [readTokens_eq_ok]
  constructor
  · rintro ⟨after, hafter, hrun⟩
    obtain ⟨f, hf, -, hdepth, -⟩ := (reads_forms limit).1 0 (Nat.zero_le 6) hlength hrun
    have htokens := hf.tokens
    rw [hafter, List.append_nil] at htokens
    exact ⟨f, ⟨htokens.symm, hf.isDerived, after.nextVariable, hf.tree⟩, hdepth⟩
  · rintro ⟨f, ⟨htokens, hderived, next, htree⟩, hdepth⟩
    have hall : State.tokens ⟨lexemes, finish, 1⟩ = f.tokens ++ [] := by
      rw [List.append_nil, htokens]
      rfl
    have hends : Detached [] := ⟨(Option.some_ne_none _).symm, (Option.some_ne_none _).symm⟩
    have hlead : ∀ op ∈ leadOperator? [], op.precedence < 0 :=
      fun op hop => absurd hop (Option.not_mem_none op)
    obtain ⟨after, hafter, -, hrun⟩ := (isRead ⟨limit, lexemes.length + 1⟩ f hderived).whole hdepth
      htree hall hlength hends (Nat.zero_le _) hlead
    exact ⟨after, hafter, hrun⟩

end Parser

/-- What a text is read as depends on its tokens and its length. -/
theorem Lambda.parse_eq (text : String) (limit : Nat) :
    Lambda.parse text limit = (Token.scan text).bind fun lexemes =>
      (Parser.readTokens lexemes text.utf8ByteSize limit).map (⟨Parser.rowName, ·⟩) := by
  unfold Lambda.parse Parser.readAll
  cases Token.scan text with
  | error e => rfl
  | ok lexemes => rfl

namespace Form

variable {f g : Form} {ts : List Token} {e e' : Expr}

/-- Tokens have one derivation at most, and so one expression. -/
theorem Derives.unique (hf : f.Derives ts e) (hg : g.Derives ts e') : f = g ∧ e = e' := by
  obtain rfl : f = g := eq_of_tokens hf.isDerived hg.isDerived (hf.tokens.trans hg.tokens.symm)
  obtain ⟨next, htree⟩ := hf.tree
  obtain ⟨next', htree'⟩ := hg.tree
  have hpair := Option.some.inj (htree.symm.trans htree')
  exact ⟨rfl, (Prod.mk.inj hpair).1⟩

theorem Derives.depth_lt (hf : f.Derives ts e) : f.depth < 2 * ts.length := by
  rw [← hf.tokens]
  exact Form.depth_lt f

/-- Parentheses around a part of a derivation leave a derivation of the same expression. -/
theorem Derives.encloses (hf : f.Derives ts e) (h : Encloses f g) : g.Derives g.tokens e := by
  obtain ⟨next, htree⟩ := hf.tree
  exact ⟨rfl, h.isDerived hf.isDerived, next, by rw [h.tree_eq, htree]⟩

end Form

/-- **Climbing through precedences implements the grammar.** Texts are read by their tokens. Any tokens
are read, if the limit of nesting is not met, exactly if they have a derivation in the grammar with one
level for each precedence, and then as the tree of the derivation: a limit of two levels for each token is
not met, and whether one below it is met can be told from the derivation. The derivation is unique, and
parentheses around any of its parts do not change what is read. -/
theorem Parser.readTokens_implements_grammar :
    (∀ text limit, Lambda.parse text limit = (Token.scan text).bind fun lexemes =>
      (Parser.readTokens lexemes text.utf8ByteSize limit).map (⟨Parser.rowName, ·⟩)) ∧
    ∀ (lexemes : List Lexeme) (finish : Nat),
      (∀ limit, 2 * lexemes.length ≤ limit → ∀ e,
        Parser.readTokens lexemes finish limit = .ok e ↔
          ∃ f : Form, f.Derives (lexemes.map Lexeme.token) e) ∧
      (∀ limit e, Parser.readTokens lexemes finish limit = .ok e ↔
        ∃ f : Form, f.Derives (lexemes.map Lexeme.token) e ∧ f.depth < limit) ∧
      (∀ (f g : Form) (e e' : Expr), f.Derives (lexemes.map Lexeme.token) e →
        g.Derives (lexemes.map Lexeme.token) e' → f = g ∧ e = e') ∧
      (∀ (f g : Form) (e : Expr), f.Derives (lexemes.map Lexeme.token) e → f.Encloses g →
        Form.EnclosesTokens (lexemes.map Lexeme.token) g.tokens ∧
        ∀ (lexemes' : List Lexeme) (finish' limit : Nat), lexemes'.map Lexeme.token = g.tokens →
          2 * lexemes'.length ≤ limit → Parser.readTokens lexemes' finish' limit = .ok e) := by
  refine ⟨Lambda.parse_eq, fun lexemes finish => ⟨fun limit hlimit e => ?_, fun limit e => readTokens_iff,
    fun f g e e' hf hg => hf.unique hg, fun f g e hf h => ⟨?_, ?_⟩⟩⟩
  · rw [readTokens_iff]
    refine ⟨fun ⟨f, hf, _⟩ => ⟨f, hf⟩, fun ⟨f, hf⟩ => ⟨f, hf, ?_⟩⟩
    have hdepth := hf.depth_lt
    rw [List.length_map] at hdepth
    exact Nat.lt_of_lt_of_le hdepth hlimit
  · rw [← hf.tokens]
    exact h.tokens_enclosed
  · intro lexemes' finish' limit htokens hlimit
    have hg := hf.encloses h
    have hdepth := hg.depth_lt
    rw [← htokens, List.length_map] at hdepth
    rw [readTokens_iff, htokens]
    exact ⟨g, hg, Nat.lt_of_lt_of_le hdepth hlimit⟩

/-- The derivation of `a or b and c`. -/
def Form.preference : Form :=
  .binary (.word "a") "or" .or (.binary (.word "b") "and" .and (.word "c"))

theorem Parser.readTokens_preference :
    let e : Expr := .binary .or (.member (.param Parser.rowName) "a")
      (.binary .and (.member (.param Parser.rowName) "b") (.member (.param Parser.rowName) "c"))
    Parser.readTokens (Form.preference.tokens.map (⟨·, 0⟩)) 0 10 = .ok e ∧
      Parser.readTokens ([.word "a", .word "or", .mark .leftParen, .word "b", .word "and", .word "c",
        .mark .rightParen].map (⟨·, 0⟩)) 0 14 = .ok e := by
  intro e
  have hderives : Form.preference.Derives
      ((Form.preference.tokens.map (Lexeme.mk · 0)).map Lexeme.token) e := by
    have hword : ∀ w, Text.sameIgnoringCase w "not" = false → (Form.word w).IsDerived := fun _ h => h
    refine ⟨rfl, ⟨by decide, hword "a" (by decide), by decide, ?_, by decide⟩, 1, by rfl⟩
    exact ⟨by decide, hword "b" (by decide), by decide, hword "c" (by decide), by decide⟩
  have hall := Parser.readTokens_implements_grammar.2 (Form.preference.tokens.map (Lexeme.mk · 0)) 0
  refine ⟨(hall.1 10 (by decide) e).mpr ⟨_, hderives⟩, ?_⟩
  exact (hall.2.2.2 _ _ _ hderives (.right _ _ _ (.here _))).2 _ _ _ rfl (by decide)

end ResourceQuery
