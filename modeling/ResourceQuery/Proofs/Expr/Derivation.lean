import ResourceQuery.Proofs.Expr.Grammar

set_option autoImplicit false

/-! # What is read is derived

Reading is followed from the start: whatever it comes to with an expression in hand, the tokens behind it
are those of a derivation with that expression as its tree (`Parser.Spells`). The loops carry the form of
what stands on the left, and put a production around it in each round.

For the loop over operators, the invariant is that the next operator binds no more tightly than the left
side does. It holds at first, since prefix operators bind more tightly than all infix ones, and after each
round, since the right side was read as far as operators bind more tightly than the one before it. For
this the loop must not stop too early, and so it is assumed that it has rounds for all tokens.
-/

namespace ResourceQuery

namespace Parser

variable {α β : Type} {s s' m : State} {bounds : Bounds} {scopes : Scopes} {ts : List Token}

/-! ## Steps that succeed -/

theorem exists_of_bind {p : Parser α} {next : α → Parser β} {b : β}
    (h : (p >>= next).runOn s = (.ok b, s')) :
    ∃ a between, p.runOn s = (.ok a, between) ∧ (next a).runOn between = (.ok b, s') := by
  rw [Action.runOn_bind] at h
  cases hp : p.runOn s with
  | mk result between =>
      rw [hp] at h
      cases result with
      | ok a => exact ⟨a, between, rfl, h⟩
      | error e => cases h

theorem takes_cases (mark : Mark) (s : State) :
    (∃ ts, s.tokens = .mark mark :: ts ∧ (takes mark).runOn s = (.ok true, s.skip)) ∨
      (s.tokens.head? ≠ some (.mark mark) ∧ (takes mark).runOn s = (.ok false, s)) := by
  by_cases hhead : s.tokens.head? = some (.mark mark)
  · obtain ⟨ts, hts⟩ := List.head?_eq_some_iff.mp hhead
    exact .inl ⟨ts, hts, runOn_takes hts⟩
  · exact .inr ⟨hhead, runOn_takes_of_ne hhead⟩

theorem isAtWord_cases (word : String) (s : State) :
    (∃ w ts, s.tokens = .word w :: ts ∧ Text.sameIgnoringCase w word = true ∧
        (takesWord word).runOn s = (.ok true, s.skip)) ∨
      ((∀ w ts, s.tokens = .word w :: ts → Text.sameIgnoringCase w word = false) ∧
        (takesWord word).runOn s = (.ok false, s)) := by
  cases hat : s.isAtWord word with
  | true =>
      left
      have hrun := runOn_takesWord word hat
      unfold State.isAtWord at hat
      split at hat
      · rename_i w offset later hahead
        refine ⟨w, later.map Lexeme.token, ?_, hat, hrun⟩
        unfold State.tokens
        rw [hahead]
        rfl
      · cases hat
  | false =>
      right
      refine ⟨fun w ts hts => ?_, runOn_takesWord_of_not word hat⟩
      rw [← State.isAtWord_of_word hts, hat]

theorem of_advance {t : Option Token} (h : advance.runOn s = (.ok t, s')) :
    t = s.tokens.head? ∧ s' = s.skip := by
  cases h
  unfold State.tokens
  exact ⟨List.head?_map.symm, rfl⟩

theorem of_expect {mark : Mark} {u : Unit} (h : (expect mark).runOn s = (.ok u, s')) :
    (∃ ts, s.tokens = .mark mark :: ts) ∧ s' = s.skip := by
  simp only [expect, Action.runOn_ofFunction] at h
  by_cases hat : s.isAt mark = true
  · rw [if_pos hat] at h
    cases h
    exact ⟨List.head?_eq_some_iff.mp ((State.isAt_iff s mark).mp hat), rfl⟩
  · rw [if_neg hat] at h
    cases h

theorem of_identifier {w : String} (h : identifier.runOn s = (.ok w, s')) :
    (∃ ts, s.tokens = .word w :: ts) ∧ s' = s.skip := by
  obtain ⟨s₀, between, hget, h⟩ := exists_of_bind h
  cases hget
  obtain ⟨t, between, hadvance, h⟩ := exists_of_bind h
  obtain ⟨ht, rfl⟩ := of_advance hadvance
  cases t with
  | none => cases h
  | some t =>
      cases t with
      | word w' =>
          cases h
          exact ⟨List.head?_eq_some_iff.mp ht.symm, rfl⟩
      | _ => cases h

/-! ## Forms along a reading -/

/-- From `s` to `s'` stand the tokens of a derivation of `e`. -/
structure Spells (f : Form) (scopes : Scopes) (s : State) (e : Expr) (s' : State) : Prop where
  isDerived : f.IsDerived
  tokens : s.tokens = f.tokens ++ s'.tokens
  tree : f.tree scopes s.nextVariable = some (e, s'.nextVariable)

theorem Spells.length_le {f : Form} {e : Expr} (h : Spells f scopes s e s') :
    s'.tokens.length ≤ s.tokens.length := by
  rw [h.tokens, List.length_append]
  exact Nat.le_add_left _ _

/-- What `p` reads, in a text with no more than `length` tokens ahead, is derived at the level `least`
and nested less deeply than `budget`, and no operator follows that would have had to be read too. -/
def ReadsForms (length budget least : Nat) (p : Scopes → Parser Expr) : Prop :=
  ∀ ⦃scopes : Scopes⦄ ⦃s s' : State⦄ ⦃e : Expr⦄, s.tokens.length ≤ length →
    (p scopes).runOn s = (.ok e, s') →
    ∃ f, Spells f scopes s e s' ∧ least ≤ f.level ∧ f.depth < budget ∧
      ∀ op ∈ leadOperator? s'.tokens, op.precedence < least

/-- The same for arguments. -/
structure SpellsList (fs : List Form) (ts : List Token) (scopes : Scopes) (s : State) (es : List Expr)
    (s' : State) : Prop where
  areDerived : Form.AreDerived fs
  tokens : s.tokens = ts ++ s'.tokens
  trees : Form.trees scopes fs s.nextVariable = some (es, s'.nextVariable)

/-! ### Primaries -/

/-- How `primary` comes to an expression. -/
theorem of_primary {expr : Scopes → Parser Expr} {e : Expr}
    (h : (primary bounds expr scopes).runOn s = (.ok e, s')) :
    (∃ t l ts, s.tokens = t :: ts ∧ t.literal? = some l ∧ e = .constant l ∧ s' = s.skip) ∨
    (∃ ts, s.tokens = .mark .leftParen :: ts ∧
      (do let inner ← expr scopes; expect .rightParen; pure inner : Parser Expr).runOn s.skip =
        (.ok e, s')) ∨
    (∃ w ts, s.tokens = .word w :: ts ∧ ts.head? = some (.mark .leftParen) ∧
      (call bounds (expr scopes) w s.offset).runOn s.skip = (.ok e, s')) ∨
    (∃ w ts, s.tokens = .word w :: ts ∧ ofWord scopes w = some e ∧ s' = s.skip) := by
  -- the bounds of `int64?` are too far apart to compute with, so its name is all that may be left of it
  obtain ⟨fits, hfits⟩ : ∃ fits : Nat → Option Int64, ∀ k : Nat, Word.int64? (k : Int) = fits k :=
    ⟨fun k => Word.int64? k, fun _ => rfl⟩
  unfold primary at h
  simp only [hfits] at h
  obtain ⟨s₀, between, hget, h⟩ := exists_of_bind h
  cases hget
  obtain ⟨t, between, hadvance, h⟩ := exists_of_bind h
  obtain ⟨ht, rfl⟩ := of_advance hadvance
  cases t with
  | none => cases h
  | some t =>
      obtain ⟨ts, hts⟩ := List.head?_eq_some_iff.mp ht.symm
      cases t with
      | int magnitude =>
          left
          cases hn : fits magnitude with
          | none =>
              simp only [hn] at h
              cases h
          | some n =>
              simp only [hn] at h
              cases h
              exact ⟨_, _, ts, hts, Token.literal?_int ((hfits magnitude).trans hn), rfl, rfl⟩
      | float magnitude =>
          cases h
          exact .inl ⟨_, _, ts, hts, rfl, rfl, rfl⟩
      | string text =>
          cases h
          exact .inl ⟨_, _, ts, hts, rfl, rfl, rfl⟩
      | dateTime t =>
          cases h
          exact .inl ⟨_, _, ts, hts, rfl, rfl, rfl⟩
      | mark m =>
          cases m with
          | leftParen => exact .inr (.inl ⟨ts, hts, h⟩)
          | _ => cases h
      | word w =>
          right; right
          obtain ⟨s₁, between, hget, h⟩ := exists_of_bind h
          cases hget
          by_cases hat : s.skip.isAt .leftParen = true
          · rw [if_pos hat] at h
            rw [State.isAt_iff, State.tokens_skip hts] at hat
            exact .inl ⟨w, ts, hts, hat, h⟩
          · rw [if_neg hat] at h
            cases hw : ofWord scopes w with
            | none =>
                simp only [hw] at h
                cases h
            | some e' =>
                simp only [hw] at h
                cases h
                exact .inr ⟨w, ts, hts, hw, rfl⟩

/-- A function has another name than the prefix operator. -/
theorem not_same_of_function {w : String} {f : TextFunction} (h : TextFunction.ofName? w = some f) :
    Text.sameIgnoringCase w "not" = false := by
  have hsame : Text.sameIgnoringCase f.name w = true := by simpa using List.find?_some h
  rw [← Bool.not_eq_true]
  intro hnot
  have hname := Text.sameIgnoringCase_trans hsame hnot
  revert hname
  cases f <;> decide

theorem Form.length_trees {fs : List Form} {next after : Nat} {es : List Expr}
    (h : Form.trees scopes fs next = some (es, after)) : es.length = fs.length := by
  induction fs generalizing next es with
  | nil =>
      cases h
      rfl
  | cons f rest ih =>
      obtain ⟨_, _, _, -, hrest, rfl⟩ := Form.trees_cons_iff.mp h
      rw [List.length_cons, List.length_cons, ih hrest]

theorem Spells.cons {f : Form} {fs : List Form} {ts : List Token} {e : Expr} {es : List Expr}
    (h : Spells f scopes s e m) (hrest : SpellsList fs ts scopes m es s') :
    SpellsList (f :: fs) (f.tokens ++ ts) scopes s (e :: es) s' := by
  refine ⟨⟨h.isDerived, hrest.areDerived⟩, ?_, ?_⟩
  · rw [h.tokens, hrest.tokens, List.append_assoc]
  · simp [Form.trees, h.tree, hrest.trees]

/-- What `moreArguments` reads are arguments behind commas. -/
theorem of_moreArguments {length budget : Nat} {expr : Scopes → Parser Expr}
    (hexpr : ReadsForms length budget 0 expr) {fuel : Nat} {done es : List Expr}
    (hlength : s.tokens.length ≤ length)
    (h : (moreArguments (expr scopes) fuel done).runOn s = (.ok es, s')) :
    ∃ fs more, es = done ++ more ∧ SpellsList fs (Form.laterTokens fs) scopes s more s' ∧
      Form.depthOfList fs ≤ budget + 1 := by
  have hnone : ∃ fs more, done = done ++ more ∧ SpellsList fs (Form.laterTokens fs) scopes s more s ∧
      Form.depthOfList fs ≤ budget + 1 :=
    ⟨[], [], (List.append_nil done).symm, ⟨trivial, rfl, rfl⟩, Nat.zero_le _⟩
  induction fuel generalizing done s with
  | zero =>
      cases h
      exact hnone
  | succ fuel ih =>
      obtain ⟨comma, between, htakes, h⟩ := exists_of_bind h
      obtain ⟨ts, hts, hrun⟩ | ⟨-, hrun⟩ := takes_cases .comma s
      · cases htakes.symm.trans hrun
        rw [if_pos rfl] at h
        obtain ⟨e, between, hnext, h⟩ := exists_of_bind h
        have hskip := Nat.le_trans (State.length_skip s) hlength
        obtain ⟨f, hf, -, hdepth, -⟩ := hexpr hskip hnext
        obtain ⟨fs, more, rfl, hmore, hdepths⟩ := ih (Nat.le_trans hf.length_le hskip) h
          ⟨[], [], (List.append_nil _).symm, ⟨trivial, rfl, rfl⟩, Nat.zero_le _⟩
        refine ⟨f :: fs, e :: more, List.append_assoc _ _ _, ?_, ?_⟩
        · have hcons := hf.cons hmore
          refine ⟨hcons.areDerived, ?_, hcons.trees⟩
          rw [hts, ← State.tokens_skip hts, hcons.tokens]
          rfl
        · simp only [Form.depthOfList]
          omega
      · cases htakes.symm.trans hrun
        cases h
        exact hnone

/-- What `call` reads behind a name is a call. -/
theorem of_call {length budget offset : Nat} {expr : Scopes → Parser Expr}
    (hexpr : ReadsForms length budget 0 expr) {w : String} {ts : List Token} {e : Expr}
    (hlength : s.tokens.length ≤ length) (hs : s.tokens = .word w :: ts)
    (h : (call bounds (expr scopes) w offset).runOn s.skip = (.ok e, s')) :
    ∃ f, Spells f scopes s e s' ∧ 7 ≤ f.level ∧ f.depth ≤ budget + 1 := by
  unfold call at h
  cases hw : TextFunction.ofName? w with
  | none =>
      rw [hw] at h
      cases h
  | some function =>
      simp only [hw] at h
      obtain ⟨u, opened, hexpect, h⟩ := exists_of_bind h
      obtain ⟨⟨inside, hopen⟩, rfl⟩ := of_expect hexpect
      obtain ⟨first, behind, hfirst, h⟩ := exists_of_bind h
      have hinside : s.skip.skip.tokens.length ≤ length :=
        Nat.le_trans (State.length_skip _) (Nat.le_trans (State.length_skip s) hlength)
      obtain ⟨f, hf, -, hdepth, -⟩ := hexpr hinside hfirst
      obtain ⟨es, behind, hmore, h⟩ := exists_of_bind h
      obtain ⟨fs, more, rfl, hfs, hdepths⟩ :=
        of_moreArguments hexpr (Nat.le_trans hf.length_le hinside) hmore
      obtain ⟨u, closed, hexpect, h⟩ := exists_of_bind h
      obtain ⟨⟨after, hclose⟩, rfl⟩ := of_expect hexpect
      by_cases htakes : function.takes ([first] ++ more).length = true
      · rw [if_pos htakes] at h
        cases h
        have hcons := hf.cons hfs
        have harity : function.takes (f :: fs).length = true := by
          rw [← Form.length_trees hcons.trees]
          exact htakes
        refine ⟨.call w function (f :: fs), ⟨⟨hw, harity, hcons.areDerived⟩, ?_, ?_⟩, Nat.le_refl 7, ?_⟩
        · have htokens := hcons.tokens
          rw [State.tokens_skip hopen, hclose] at htokens
          rw [hs, ← State.tokens_skip hs, hopen, htokens, State.tokens_skip hclose]
          simp [Form.tokens, Form.argumentTokens]
        · have htrees := hcons.trees
          rw [State.nextVariable_skip, State.nextVariable_skip] at htrees
          simp [Form.tree, htrees]
        · simp only [Form.depth, Form.depthOfList]
          omega
      · rw [if_neg htakes] at h
        cases h

/-- What `primary` reads is a form that binds as tightly as anything. -/
theorem forms_of_primary {length budget : Nat} {expr : Scopes → Parser Expr}
    (hexpr : ReadsForms length budget 0 expr) {e : Expr} (hlength : s.tokens.length ≤ length)
    (hnot : ∀ w ts, s.tokens = .word w :: ts → Text.sameIgnoringCase w "not" = false)
    (h : (primary bounds expr scopes).runOn s = (.ok e, s')) :
    ∃ f, Spells f scopes s e s' ∧ 7 ≤ f.level ∧ f.depth ≤ budget + 1 := by
  obtain ⟨t, l, ts, hs, hl, rfl, rfl⟩ | ⟨ts, hs, h⟩ | ⟨w, ts, hs, -, h⟩ | ⟨w, ts, hs, hw, rfl⟩ :=
    of_primary h
  · refine ⟨.literal t, ⟨Option.isSome_of_eq_some hl, ?_, ?_⟩, Nat.le_refl 7, Nat.succ_le_succ (Nat.zero_le _)⟩
    · rw [hs, State.tokens_skip hs]
      rfl
    · simp [Form.tree, hl]
  · obtain ⟨inner, behind, hinner, h⟩ := exists_of_bind h
    obtain ⟨f, hf, -, hdepth, -⟩ := hexpr (Nat.le_trans (State.length_skip s) hlength) hinner
    obtain ⟨u, closed, hexpect, h⟩ := exists_of_bind h
    obtain ⟨⟨after, hclose⟩, rfl⟩ := of_expect hexpect
    cases h
    refine ⟨.group f, ⟨hf.isDerived, ?_, hf.tree⟩, Nat.le_refl 7, ?_⟩
    · have htokens := hf.tokens
      rw [State.tokens_skip hs, hclose] at htokens
      rw [hs, htokens, State.tokens_skip hclose]
      simp [Form.tokens]
    · simp only [Form.depth]
      omega
  · exact of_call hexpr hlength hs h
  · refine ⟨.word w, ⟨hnot w ts hs, ?_, ?_⟩, Nat.le_refl 7, Nat.succ_le_succ (Nat.zero_le _)⟩
    · rw [hs, State.tokens_skip hs]
      rfl
    · simp [Form.tree, hw]

/-! ### Members and aggregates -/

/-- What `aggregate` reads behind a name is the rest of an aggregate. -/
theorem of_aggregate {length budget : Nat} {expr : Scopes → Parser Expr}
    (hexpr : ReadsForms length budget 0 expr) {f : Form} {target e : Expr} {a : Aggregate} {w : String}
    (hf : Spells f scopes s target m) (hlevel : 7 ≤ f.level) (hdepth : f.depth ≤ budget + 1)
    (hlength : s.tokens.length ≤ length) (hname : Aggregate.ofName? w = some a)
    {ts : List Token} (hm : m.tokens = .mark .dot :: .word w :: ts)
    (h : (aggregate expr scopes target a).runOn m.skip.skip = (.ok e, s')) :
    ∃ f', Spells f' scopes s e s' ∧ 7 ≤ f'.level ∧ f'.depth ≤ budget + 1 := by
  have hw := State.tokens_skip hm
  have hts := State.tokens_skip hw
  obtain ⟨u, opened, hexpect, h⟩ := exists_of_bind h
  obtain ⟨⟨inside, hopen⟩, rfl⟩ := of_expect hexpect
  have htree := hf.tree
  obtain ⟨closes, between, htakes, h⟩ := exists_of_bind h
  obtain ⟨after, hclose, hrun⟩ | ⟨-, hrun⟩ := takes_cases .rightParen m.skip.skip.skip
  · cases htakes.symm.trans hrun
    rw [if_pos rfl] at h
    cases h
    refine ⟨.aggregate f w a, ⟨⟨hf.isDerived, hlevel, hname⟩, ?_, ?_⟩, Nat.le_refl 7, hdepth⟩
    · rw [hf.tokens, hm, ← hts, hopen, ← State.tokens_skip hopen, hclose, State.tokens_skip hclose]
      simp [Form.tokens]
    · simp [Form.tree, htree]
  · cases htakes.symm.trans hrun
    rw [if_neg Bool.false_ne_true] at h
    obtain ⟨shown, between, hshown, h⟩ := exists_of_bind h
    obtain ⟨⟨behind, hword⟩, rfl⟩ := of_identifier hshown
    obtain ⟨u, between, hexpect, h⟩ := exists_of_bind h
    obtain ⟨⟨bodyTokens, hcolon⟩, rfl⟩ := of_expect hexpect
    obtain ⟨parameter, inside, hnew, h⟩ := exists_of_bind h
    cases hnew
    obtain ⟨result, behind, houtcome, h⟩ := exists_of_bind h
    obtain ⟨u, closed, hexpect, h⟩ := exists_of_bind h
    obtain ⟨⟨after, hclose⟩, rfl⟩ := of_expect hexpect
    -- a failure of the body comes up only here
    cases hresult : result with
    | error fault =>
        simp only [hresult] at h
        cases h
    | ok body =>
        simp only [hresult] at h
        cases h
        -- the state in which the body is read: one more variable is in use
        let inside : State :=
          { m.skip.skip.skip.skip.skip with nextVariable := m.nextVariable + 1 }
        have hbody : (expr ((shown, numberedName m.nextVariable) :: scopes)).runOn inside =
            (.ok body, behind) := by
          rw [hresult] at houtcome
          exact Prod.ext (Except.ok.inj (Prod.ext_iff.mp houtcome).1) (Prod.ext_iff.mp houtcome).2
        have hbehind : m.tokens = .mark .dot :: .word w :: .mark .leftParen :: .word shown ::
            .mark .colon :: inside.tokens := by
          rw [hm, ← hts, hopen, ← State.tokens_skip hopen, hword, ← State.tokens_skip hword, hcolon,
            ← State.tokens_skip hcolon]
          rfl
        have hinside : inside.tokens.length ≤ length := by
          refine Nat.le_trans ?_ (Nat.le_trans hf.length_le hlength)
          rw [hbehind]
          simp only [List.length_cons]
          omega
        obtain ⟨g, hg, -, hgdepth, -⟩ := hexpr hinside hbody
        refine ⟨.aggregateOf f w a shown g, ⟨⟨hf.isDerived, hlevel, hname, hg.isDerived⟩, ?_, ?_⟩,
          Nat.le_refl 7, ?_⟩
        · rw [hf.tokens, hbehind, hg.tokens, hclose, State.tokens_skip hclose]
          simp [Form.tokens]
        · have hbodyTree : g.tree ((shown, numberedName m.nextVariable) :: scopes) (m.nextVariable + 1) =
              some (body, behind.nextVariable) := hg.tree
          simp [Form.tree, htree, hbodyTree]
        · simp only [Form.depth]
          omega

/-- What `members` reads are members and aggregates behind the form that stands before them. -/
theorem of_members {length budget : Nat} {expr : Scopes → Parser Expr}
    (hexpr : ReadsForms length budget 0 expr) (hlength : s.tokens.length ≤ length) {fuel : Nat}
    {f : Form} {target e : Expr} (hf : Spells f scopes s target m) (hlevel : 7 ≤ f.level)
    (hdepth : f.depth ≤ budget + 1)
    (h : (members expr scopes fuel target).runOn m = (.ok e, s')) :
    ∃ f', Spells f' scopes s e s' ∧ 7 ≤ f'.level ∧ f'.depth ≤ budget + 1 := by
  induction fuel generalizing f target m with
  | zero =>
      cases h
      exact ⟨f, hf, hlevel, hdepth⟩
  | succ fuel ih =>
      obtain ⟨dot, between, htakes, h⟩ := exists_of_bind h
      obtain ⟨ts, hdot, hrun⟩ | ⟨-, hrun⟩ := takes_cases .dot m
      · cases htakes.symm.trans hrun
        rw [if_pos rfl] at h
        obtain ⟨s₀, between, hget, h⟩ := exists_of_bind h
        cases hget
        obtain ⟨name, between, hname, h⟩ := exists_of_bind h
        obtain ⟨⟨rest, hword⟩, rfl⟩ := of_identifier hname
        obtain ⟨s₁, between, hget, h⟩ := exists_of_bind h
        cases hget
        have hm : m.tokens = .mark .dot :: .word name :: rest := by
          rw [hdot, ← State.tokens_skip hdot, hword]
        by_cases hat : m.skip.skip.isAt .leftParen = true
        · rw [if_pos hat] at h
          cases ha : Aggregate.ofName? name with
          | none =>
              simp only [ha] at h
              cases h
          | some a =>
              simp only [ha] at h
              obtain ⟨applied, behind, happlied, h⟩ := exists_of_bind h
              obtain ⟨f', hf', hlevel', hdepth'⟩ :=
                of_aggregate hexpr hf hlevel hdepth hlength ha hm happlied
              exact ih hf' hlevel' hdepth' h
        · rw [if_neg hat] at h
          refine ih (f := .member f name) ⟨⟨hf.isDerived, hlevel⟩, ?_, ?_⟩ (Nat.le_refl 7) hdepth h
          · rw [hf.tokens, hm, State.tokens_skip hword]
            simp [Form.tokens]
          · simp [Form.tree, hf.tree]
      · cases htakes.symm.trans hrun
        cases h
        exact ⟨f, hf, hlevel, hdepth⟩

/-! ### Operators -/

/-- What `operators` reads are operators and operands behind the form that stands before them. -/
theorem of_operators {length budget least : Nat} {operand : Scopes → Nat → Parser Expr}
    (hoperand : ∀ level ≤ 6, ReadsForms length budget level fun scopes => operand scopes level)
    (hlength : s.tokens.length ≤ length) {fuel : Nat} {f : Form} {left e : Expr}
    (hf : Spells f scopes s left m) (hlevel : least ≤ f.level) (hdepth : f.depth ≤ budget)
    (hnext : ∀ op ∈ leadOperator? m.tokens, op.precedence ≤ f.level) (hfuel : m.tokens.length ≤ fuel)
    (h : (operators (operand scopes) least fuel left).runOn m = (.ok e, s')) :
    ∃ f', Spells f' scopes s e s' ∧ least ≤ f'.level ∧ f'.depth ≤ budget ∧
      ∀ op ∈ leadOperator? s'.tokens, op.precedence < least := by
  induction fuel generalizing f left m with
  | zero =>
      cases h
      refine ⟨f, hf, hlevel, hdepth, ?_⟩
      rw [List.length_eq_zero_iff.mp (Nat.le_zero.mp hfuel)]
      nofun
  | succ fuel ih =>
      obtain ⟨s₀, between, hget, h⟩ := exists_of_bind h
      cases hget
      rw [operator?_eq] at h
      cases hlead : leadOperator? m.tokens with
      | none =>
          simp only [hlead] at h
          cases h
          refine ⟨f, hf, hlevel, hdepth, ?_⟩
          rw [hlead]
          nofun
      | some op =>
          simp only [hlead] at h
          by_cases hloose : op.precedence < least
          · rw [if_pos hloose] at h
            cases h
            refine ⟨f, hf, hlevel, hdepth, ?_⟩
            rw [hlead]
            rintro _ ⟨⟩
            exact hloose
          · rw [if_neg hloose] at h
            obtain ⟨t, between, hadvance, h⟩ := exists_of_bind h
            obtain ⟨-, rfl⟩ := of_advance hadvance
            obtain ⟨right, behind, hright, h⟩ := exists_of_bind h
            obtain ⟨w, ts, hword, hop⟩ : ∃ w ts, m.tokens = .word w :: ts ∧
                BinaryOp.ofKeyword? w = some op := by
              unfold leadOperator? at hlead
              split at hlead
              · exact ⟨_, _, ‹_›, hlead⟩
              · cases hlead
            have hskip : m.skip.tokens.length + 1 = m.tokens.length := by
              rw [State.tokens_skip hword, hword, List.length_cons]
            have hshort := hf.length_le
            obtain ⟨r, hr, hrlevel, hrdepth, hrnext⟩ := hoperand (op.precedence + 1)
              (Nat.succ_le_succ (Form.precedence_le_five op)) (by omega) hright
            have hrlength := hr.length_le
            -- behind the right side no operator binds more tightly than this one
            refine ih (f := .binary f w op r)
              ⟨⟨hop, hf.isDerived, hnext op (by rw [hlead]; rfl), hr.isDerived, hrlevel⟩, ?_, ?_⟩
              (Nat.le_of_not_lt hloose) ?_ (fun other hother => Nat.le_of_lt_succ (hrnext other hother))
              (by omega) h
            · rw [hf.tokens, hword, ← State.tokens_skip hword, hr.tokens]
              simp [Form.tokens]
            · have hrtree := hr.tree
              rw [State.nextVariable_skip] at hrtree
              simp [Form.tree, hf.tree, hrtree]
            · simp only [Form.depth]
              omega

/-! ### Expressions -/

/-- What `negativeNumber` comes to. -/
theorem of_negativeNumber {number : Option Expr} (h : negativeNumber.runOn s = (.ok number, s')) :
    (∃ t l ts, s.tokens = t :: ts ∧ t.negated? = some l ∧ number = some (.constant l) ∧ s' = s.skip) ∨
      ((s.tokens.head?.map isNumberToken).getD false = false ∧ number = none ∧ s' = s) := by
  obtain ⟨fits, hfits⟩ : ∃ fits : Int → Option Int64, ∀ k : Int, Word.int64? k = fits k :=
    ⟨fun k => Word.int64? k, fun _ => rfl⟩
  unfold negativeNumber at h
  simp only [hfits] at h
  obtain ⟨s₀, between, hget, h⟩ := exists_of_bind h
  cases hget
  cases hahead : s.ahead with
  | nil =>
      simp only [hahead] at h
      cases h
      right
      refine ⟨?_, rfl, rfl⟩
      unfold State.tokens
      rw [hahead]
      rfl
  | cons lexeme later =>
      obtain ⟨t, offset⟩ := lexeme
      have hs : s.tokens = t :: later.map Lexeme.token := by
        unfold State.tokens
        rw [hahead]
        rfl
      cases t with
      | int magnitude =>
          simp only [hahead] at h
          obtain ⟨t, between, hadvance, h⟩ := exists_of_bind h
          obtain ⟨-, rfl⟩ := of_advance hadvance
          cases hn : fits (-magnitude) with
          | none =>
              simp only [hn] at h
              cases h
          | some n =>
              simp only [hn] at h
              cases h
              exact .inl ⟨_, _, _, hs, Token.negated?_int ((hfits _).trans hn), rfl, rfl⟩
      | float magnitude =>
          simp only [hahead] at h
          obtain ⟨t, between, hadvance, h⟩ := exists_of_bind h
          obtain ⟨-, rfl⟩ := of_advance hadvance
          cases h
          exact .inl ⟨_, _, _, hs, rfl, rfl, rfl⟩
      | _ =>
          simp only [hahead] at h
          cases h
          refine .inr ⟨?_, rfl, rfl⟩
          rw [hs]
          rfl

/-- What `unary` reads, and `unary` as part of it, is derived at the level of prefix operators. -/
theorem forms_of_unary {budget : Nat} {e : Expr}
    (hexpr : ReadsForms bounds.tokens budget 0 fun scopes => binary bounds budget scopes 0)
    (hunary : ∀ {s s' : State} {e : Expr}, s.tokens.length ≤ bounds.tokens →
      (unary bounds budget scopes).runOn s = (.ok e, s') →
      ∃ f, Spells f scopes s e s' ∧ 6 ≤ f.level ∧ f.depth ≤ budget)
    (hlength : s.tokens.length ≤ bounds.tokens)
    (h : (unary bounds (budget + 1) scopes).runOn s = (.ok e, s')) :
    ∃ f, Spells f scopes s e s' ∧ 6 ≤ f.level ∧ f.depth ≤ budget + 1 := by
  have hskip := Nat.le_trans (State.length_skip s) hlength
  unfold unary at h
  obtain ⟨word, between, htakes, h⟩ := exists_of_bind h
  obtain ⟨w, ts, hs, hnot, hrun⟩ | ⟨hnot, hrun⟩ := isAtWord_cases "not" s
  · cases htakes.symm.trans hrun
    rw [if_pos rfl] at h
    obtain ⟨operand, behind, hoperand, h⟩ := exists_of_bind h
    cases h
    obtain ⟨f, hf, hlevel, hdepth⟩ := hunary hskip hoperand
    refine ⟨.not w f, ⟨⟨hnot, hf.isDerived, hlevel⟩, ?_, ?_⟩, Nat.le_refl 6, Nat.succ_le_succ hdepth⟩
    · rw [hs, ← State.tokens_skip hs, hf.tokens]
      rfl
    · have htree := hf.tree
      rw [State.nextVariable_skip] at htree
      simp [Form.tree, htree]
  cases htakes.symm.trans hrun
  rw [if_neg Bool.false_ne_true] at h
  obtain ⟨minus, between, htakes, h⟩ := exists_of_bind h
  obtain ⟨ts, hs, hrun⟩ | ⟨-, hrun⟩ := takes_cases .minus s
  · cases htakes.symm.trans hrun
    rw [if_pos rfl] at h
    obtain ⟨number, between, hnumber, h⟩ := exists_of_bind h
    obtain ⟨t, l, later, ht, hl, rfl, rfl⟩ | ⟨hother, rfl, rfl⟩ := of_negativeNumber hnumber
    · -- the sign belongs to the number, and members may follow
      have hf : Spells (.negative t) scopes s (.constant l) s.skip.skip := by
        refine ⟨Option.isSome_of_eq_some hl, ?_, ?_⟩
        · rw [hs, ← State.tokens_skip hs, ht, State.tokens_skip ht]
          rfl
        · simp [Form.tree, hl]
      obtain ⟨f, hf, hlevel, hdepth⟩ := of_members hexpr hlength hf (Nat.le_refl 7)
        (Nat.succ_le_succ (Nat.zero_le _)) h
      exact ⟨f, hf, Nat.le_of_succ_le hlevel, hdepth⟩
    · obtain ⟨operand, behind, hoperand, h⟩ := exists_of_bind h
      cases h
      obtain ⟨f, hf, hlevel, hdepth⟩ := hunary hskip hoperand
      have hstart : f.startsAtNumber = false := by
        obtain ⟨t, later, hstart⟩ := List.exists_cons_of_ne_nil f.tokens_ne_nil
        rw [hf.tokens, hstart] at hother
        unfold Form.startsAtNumber
        rw [hstart]
        exact hother
      refine ⟨.negate f, ⟨⟨hf.isDerived, hlevel, hstart⟩, ?_, ?_⟩, Nat.le_refl 6,
        Nat.succ_le_succ hdepth⟩
      · rw [hs, ← State.tokens_skip hs, hf.tokens]
        rfl
      · have htree := hf.tree
        rw [State.nextVariable_skip] at htree
        simp [Form.tree, htree]
  · cases htakes.symm.trans hrun
    rw [if_neg Bool.false_ne_true] at h
    obtain ⟨first, behind, hfirst, h⟩ := exists_of_bind h
    obtain ⟨f, hf, hlevel, hdepth⟩ := forms_of_primary hexpr hlength hnot hfirst
    obtain ⟨f', hf', hlevel', hdepth'⟩ := of_members hexpr hlength hf hlevel hdepth h
    exact ⟨f', hf', Nat.le_of_succ_le hlevel', hdepth'⟩

/-- **Whatever is read is derived**, and nested no more deeply than reading was allowed to go. -/
theorem reads_forms (budget : Nat) :
    (∀ least ≤ 6, ReadsForms bounds.tokens budget least fun scopes => binary bounds budget scopes least) ∧
      ∀ {scopes : Scopes} {s s' : State} {e : Expr}, s.tokens.length ≤ bounds.tokens →
        (unary bounds budget scopes).runOn s = (.ok e, s') →
        ∃ f, Spells f scopes s e s' ∧ 6 ≤ f.level ∧ f.depth ≤ budget := by
  induction budget with
  | zero =>
      refine ⟨?_, ?_⟩
      · intro least _ scopes s s' e _ h
        cases h
      · intro scopes s s' e _ h
        cases h
  | succ budget ih =>
      obtain ⟨hbinary, hunary⟩ := ih
      refine ⟨?_, fun hlength h =>
        forms_of_unary (hbinary 0 (Nat.zero_le 6)) hunary hlength h⟩
      intro least hleast scopes s s' e hlength h
      unfold binary at h
      obtain ⟨left, between, hleft, h⟩ := exists_of_bind h
      obtain ⟨f, hf, hlevel, hdepth⟩ := hunary hlength hleft
      -- infix operators bind less tightly than the operand does
      have htight : ∀ op : BinaryOp, op.precedence ≤ f.level := fun op =>
        Nat.le_trans (Form.precedence_le_five op) (Nat.le_of_succ_le hlevel)
      obtain ⟨f', hf', hlevel', hdepth', hnext⟩ :=
        of_operators hbinary hlength hf (Nat.le_trans hleast hlevel) hdepth (fun op _ => htight op)
          (Nat.le_trans hf.length_le hlength) h
      exact ⟨f', hf', hlevel', Nat.lt_succ_of_le hdepth', hnext⟩

end Parser

end ResourceQuery
