import ResourceQuery.Proofs.Expr.Derivation

set_option autoImplicit false

/-! # Every derivation is read

Reading goes through the tokens of a derivation and comes to its tree. As it goes through prefixes, what
is shown by induction on the form is how it goes on behind the tokens (`Parser.Comes`), with one
statement for each place: in front of members (`ReadsChain`), in front of anything else that ends an
operand (`ReadsSingle`), in front of operators (`ReadsLeft`), and where a whole expression ends
(`ReadsAll`).

How deep reading must be allowed to go is the depth of the form exactly, so that the two directions
together tell for every limit what is accepted (`Parser.readTokens_iff`).
-/

namespace ResourceQuery

namespace Parser

variable {bounds : Bounds} {f : Form}

/-- From `s` on, `p` comes to the tokens `rest`, with variables from `next` on, and goes on from there
as `q` does. -/
def Comes (p : Parser Expr) (s : State) (rest : List Token) (next : Nat) (q : Parser Expr) : Prop :=
  ∃ after, after.tokens = rest ∧ after.nextVariable = next ∧ p.runOn s = q.runOn after

/-- The form is read where members may follow. -/
def ReadsChain (bounds : Bounds) (f : Form) : Prop :=
  ∀ ⦃budget next : Nat⦄ ⦃scopes : Scopes⦄ ⦃rest : List Token⦄ ⦃s : State⦄ ⦃e : Expr⦄,
    f.depth ≤ budget + 1 → f.tree scopes s.nextVariable = some (e, next) → s.tokens = f.tokens ++ rest →
    s.tokens.length ≤ bounds.tokens → rest.head? ≠ some (.mark .leftParen) →
    ∃ fuel, rest.length ≤ fuel ∧ Comes (unary bounds (budget + 1) scopes) s rest next
      (members (fun scopes => binary bounds budget scopes 0) scopes fuel e)

/-- The form is read where an operand is read. -/
def ReadsSingle (bounds : Bounds) (f : Form) : Prop :=
  ∀ ⦃budget next : Nat⦄ ⦃scopes : Scopes⦄ ⦃rest : List Token⦄ ⦃s : State⦄ ⦃e : Expr⦄,
    f.depth ≤ budget → f.tree scopes s.nextVariable = some (e, next) → s.tokens = f.tokens ++ rest →
    s.tokens.length ≤ bounds.tokens → Detached rest →
    Comes (unary bounds budget scopes) s rest next (pure e)

/-- The form is read in front of operators that bind no more tightly than it does. -/
def ReadsLeft (bounds : Bounds) (f : Form) : Prop :=
  ∀ ⦃budget least fuel next : Nat⦄ ⦃scopes : Scopes⦄ ⦃rest : List Token⦄ ⦃s : State⦄ ⦃e : Expr⦄,
    f.depth ≤ budget → f.tree scopes s.nextVariable = some (e, next) → s.tokens = f.tokens ++ rest →
    s.tokens.length ≤ bounds.tokens → s.tokens.length ≤ fuel → Detached rest → least ≤ f.level →
    (∀ op ∈ leadOperator? rest, op.precedence ≤ f.level) →
    ∃ left, rest.length ≤ left ∧ Comes (operandThen bounds budget scopes least fuel) s rest next
      (operators (fun p => binary bounds budget scopes p) least left e)

/-- The form is read as a whole expression where no operator follows that would have to be read too. -/
def ReadsAll (bounds : Bounds) (f : Form) : Prop :=
  ∀ ⦃budget least next : Nat⦄ ⦃scopes : Scopes⦄ ⦃rest : List Token⦄ ⦃s : State⦄ ⦃e : Expr⦄,
    f.depth < budget → f.tree scopes s.nextVariable = some (e, next) → s.tokens = f.tokens ++ rest →
    s.tokens.length ≤ bounds.tokens → Detached rest → least ≤ f.level →
    (∀ op ∈ leadOperator? rest, op.precedence < least) →
    Comes (binary bounds budget scopes least) s rest next (pure e)

/-- The form is read wherever it may stand. -/
structure IsRead (bounds : Bounds) (f : Form) : Prop where
  chain : 7 ≤ f.level → ReadsChain bounds f
  operand : 6 ≤ f.level → ReadsSingle bounds f
  left : ReadsLeft bounds f

/-! ## From place to place -/

theorem ReadsChain.operand (h : ReadsChain bounds f) : ReadsSingle bounds f := by
  intro budget next scopes rest s e hbudget htree hs hlength hrest
  obtain ⟨budget, rfl⟩ : ∃ b, budget = b + 1 := ⟨budget - 1, by have := f.depth_pos; omega⟩
  obtain ⟨fuel, -, after, hafter, hnext, hrun⟩ := h hbudget htree hs hlength hrest.noArguments
  refine ⟨after, hafter, hnext, ?_⟩
  rw [hrun, runOn_members_of_ne fuel e (by rw [hafter]; exact hrest.noMember)]
  rfl

theorem ReadsSingle.left (h : ReadsSingle bounds f) : ReadsLeft bounds f := by
  intro budget least fuel next scopes rest s e hbudget htree hs hlength hfuel hrest _ _
  obtain ⟨after, hafter, hnext, hrun⟩ := h hbudget htree hs hlength hrest
  refine ⟨fuel, ?_, after, hafter, hnext, ?_⟩
  · rw [hs, List.length_append] at hfuel
    omega
  · rw [operandThen, Action.runOn_bind, hrun]
    rfl

theorem ReadsLeft.whole (h : ReadsLeft bounds f) : ReadsAll bounds f := by
  intro budget least next scopes rest s e hbudget htree hs hlength hrest hleast hlead
  obtain ⟨budget, rfl⟩ : ∃ b, budget = b + 1 := ⟨budget - 1, by omega⟩
  have hloose : ∀ op ∈ leadOperator? rest, op.precedence ≤ f.level := fun op hop =>
    Nat.le_of_lt (Nat.lt_of_lt_of_le (hlead op hop) hleast)
  obtain ⟨left, -, after, hafter, hnext, hrun⟩ :=
    h (Nat.le_of_lt_succ hbudget) htree hs hlength hlength hrest hleast hloose
  refine ⟨after, hafter, hnext, ?_⟩
  have hwhole : binary bounds (budget + 1) scopes least =
      operandThen bounds budget scopes least bounds.tokens := rfl
  rw [hwhole, hrun, runOn_operators_of_lt left e (by rw [hafter]; exact hlead)]
  rfl

theorem ReadsChain.isRead (h : ReadsChain bounds f) : IsRead bounds f :=
  ⟨fun _ => h, fun _ => h.operand, h.operand.left⟩

theorem ReadsSingle.isRead (h : ReadsSingle bounds f) (hlevel : f.level < 7) : IsRead bounds f :=
  ⟨fun hchain => absurd hchain (Nat.not_le_of_lt hlevel), fun _ => h, h.left⟩

theorem ReadsLeft.isRead (h : ReadsLeft bounds f) (hlevel : f.level < 6) : IsRead bounds f :=
  ⟨fun hchain => absurd hchain (by omega), fun hoperand => absurd hoperand (Nat.not_le_of_lt hlevel), h⟩

theorem IsRead.whole (h : IsRead bounds f) : ReadsAll bounds f :=
  h.left.whole

/-! ## Primaries -/

/-- What `primary` comes to can be read where members may follow. -/
theorem readsChain_of_primary {t : Token} {ts : List Token} (hts : f.tokens = t :: ts)
    (hminus : t ≠ .mark .minus) (hnot : ∀ w, t = .word w → Text.sameIgnoringCase w "not" = false)
    (h : ∀ {budget next : Nat} {scopes : Scopes} {rest : List Token} {s : State} {e : Expr},
      f.depth ≤ budget + 1 → f.tree scopes s.nextVariable = some (e, next) →
      s.tokens = f.tokens ++ rest → s.tokens.length ≤ bounds.tokens →
      rest.head? ≠ some (.mark .leftParen) →
      Comes (primary bounds (fun scopes => binary bounds budget scopes 0) scopes) s rest next (pure e)) :
    ReadsChain bounds f := by
  intro budget next scopes rest s e hbudget htree hs hlength hrest
  obtain ⟨after, hafter, hnext, hrun⟩ := h hbudget htree hs hlength hrest
  refine ⟨bounds.tokens, ?_, after, hafter, hnext, ?_⟩
  · rw [hs, List.length_append] at hlength
    omega
  · rw [hts, List.cons_append] at hs
    rw [runOn_unary_of_primary budget scopes hs hminus hnot, Action.runOn_bind, hrun]
    rfl

theorem runOn_primary_literal {t : Token} {l : Literal} {expr : Scopes → Parser Expr} {scopes : Scopes}
    {s : State} {ts : List Token} (hs : s.tokens = t :: ts) (hl : t.literal? = some l) :
    (primary bounds expr scopes).runOn s = (.ok (.constant l), s.skip) := by
  cases t with
  | int m =>
      rw [Token.literal?, Option.map_eq_some_iff] at hl
      obtain ⟨n, hn, rfl⟩ := hl
      exact runOn_primary_int hs hn
  | word w => cases hl
  | mark m => cases hl
  | _ =>
      cases hl
      rw [primary, Action.runOn_bind, runOn_get]
      dsimp only
      rw [Action.runOn_bind, runOn_advance hs]
      rfl

theorem readsChain_literal (t : Token) : ReadsChain bounds (.literal t) := by
  intro budget next scopes rest s e hbudget htree hs hlength hrest
  -- only tokens that stand for a constant by themselves have a tree
  obtain ⟨l, hl, rfl, rfl⟩ := Form.tree_literal_iff.mp htree
  refine readsChain_of_primary rfl ?_ ?_ (fun {_ _ _ _ _ _} _ htree hs _ _ => ?_) hbudget
    htree hs hlength hrest
  · rintro rfl
    cases hl
  · rintro w rfl
    cases hl
  · obtain ⟨l', hl', rfl, rfl⟩ := Form.tree_literal_iff.mp htree
    cases hl.symm.trans hl'
    exact ⟨_, State.tokens_skip hs, rfl, runOn_primary_literal hs hl⟩

theorem readsChain_word {w : String} (hnot : Text.sameIgnoringCase w "not" = false) :
    ReadsChain bounds (.word w) := by
  refine readsChain_of_primary rfl nofun (fun v heq => by cases heq; exact hnot)
    fun {budget next scopes rest s e} _ htree hs _ hrest => ?_
  obtain ⟨_, hw, rfl, rfl⟩ := Form.tree_word_iff.mp htree
  have hword : s.tokens = .word w :: rest := hs
  have hat : s.skip.isAt .leftParen = false := by
    rw [← Bool.not_eq_true, State.isAt_iff, State.tokens_skip hword]
    exact hrest
  refine ⟨s.skip, State.tokens_skip hword, rfl, ?_⟩
  rw [primary, Action.runOn_bind, runOn_get]
  dsimp only
  rw [Action.runOn_bind, runOn_advance hword]
  dsimp only
  rw [Action.runOn_bind, runOn_get]
  simp only [hat, hw]
  rfl

/-- What follows a part in parentheses, or an argument, ends it. -/
theorem detached_rightParen (rest : List Token) : Detached (.mark .rightParen :: rest) :=
  ⟨nofun, nofun⟩

theorem IsRead.group (h : IsRead bounds f) : ReadsChain bounds (.group f) := by
  refine readsChain_of_primary rfl nofun nofun
    fun {budget next scopes rest s e} hbudget htree hs hlength _ => ?_
  have hopen : s.tokens = .mark .leftParen :: (f.tokens ++ .mark .rightParen :: rest) := by
    rw [hs]
    simp [Form.tokens]
  have hdepth : f.depth < budget := Nat.lt_of_succ_lt_succ hbudget
  have htreeSkip : f.tree scopes s.skip.nextVariable = some (e, next) := htree
  obtain ⟨after, hafter, hnext, hrun⟩ := h.whole hdepth htreeSkip (State.tokens_skip hopen)
    (Nat.le_trans (State.length_skip s) hlength) (detached_rightParen rest) (Nat.zero_le _) nofun
  refine ⟨after.skip, State.tokens_skip hafter, hnext, ?_⟩
  rw [primary, Action.runOn_bind, runOn_get]
  dsimp only
  rw [Action.runOn_bind, runOn_advance hopen]
  dsimp only
  rw [Action.runOn_bind, hrun, Action.runOn_pure]
  dsimp only
  rw [Action.runOn_bind, runOn_expect hafter]

/-! ### Calls -/

/-- A comma or the closing parenthesis stands behind an argument. -/
theorem ends_argument (fs : List Form) (rest : List Token) :
    Detached (Form.laterTokens fs ++ .mark .rightParen :: rest) ∧
      leadOperator? (Form.laterTokens fs ++ .mark .rightParen :: rest) = none := by
  cases fs with
  | nil => exact ⟨detached_rightParen rest, rfl⟩
  | cons f fs => exact ⟨⟨nofun, nofun⟩, rfl⟩

/-- An argument is read up to the comma or the parenthesis behind it. -/
theorem IsRead.argument (h : IsRead bounds f) (fs : List Form) {budget next : Nat} {scopes : Scopes}
    {rest : List Token} {s : State} {e : Expr} (hbudget : f.depth < budget)
    (htree : f.tree scopes s.nextVariable = some (e, next))
    (hs : s.tokens = f.tokens ++ (Form.laterTokens fs ++ .mark .rightParen :: rest))
    (hlength : s.tokens.length ≤ bounds.tokens) :
    Comes (binary bounds budget scopes 0) s (Form.laterTokens fs ++ .mark .rightParen :: rest) next (pure e) := by
  obtain ⟨hdetached, hlead⟩ := ends_argument fs rest
  refine h.whole hbudget htree hs hlength hdetached (Nat.zero_le _) ?_
  rw [hlead]
  nofun

/-- Arguments behind commas are read up to the closing parenthesis. -/
theorem runOn_moreArguments_forms {fs : List Form} (h : ∀ f ∈ fs, IsRead bounds f) {budget fuel next : Nat}
    {scopes : Scopes} {done es : List Expr} {s : State} {rest : List Token}
    (hbudget : Form.depthOfList fs ≤ budget + 1)
    (htrees : Form.trees scopes fs s.nextVariable = some (es, next))
    (hs : s.tokens = Form.laterTokens fs ++ .mark .rightParen :: rest)
    (hlength : s.tokens.length ≤ bounds.tokens) (hfuel : s.tokens.length ≤ fuel) :
    ∃ after, after.tokens = .mark .rightParen :: rest ∧ after.nextVariable = next ∧
      (moreArguments (binary bounds budget scopes 0) fuel done).runOn s = (.ok (done ++ es), after) := by
  induction fs generalizing s done es fuel with
  | nil =>
      cases htrees
      have hcomma : s.tokens.head? ≠ some (.mark .comma) := by
        rw [hs]
        nofun
      refine ⟨s, hs, rfl, ?_⟩
      cases fuel with
      | zero => rw [moreArguments, List.append_nil, Action.runOn_pure]
      | succ fuel =>
          rw [moreArguments, Action.runOn_bind, runOn_takes_of_ne hcomma, List.append_nil]
          rfl
  | cons f fs ih =>
      obtain ⟨e, between, es', htree, hrest, rfl⟩ := Form.trees_cons_iff.mp htrees
      rw [Form.depthOfList] at hbudget
      have hcomma : s.tokens = .mark .comma ::
          (f.tokens ++ (Form.laterTokens fs ++ .mark .rightParen :: rest)) := by
        rw [hs, Form.laterTokens]
        simp
      obtain ⟨fuel, rfl⟩ : ∃ k, fuel = k + 1 := by
        refine ⟨fuel - 1, ?_⟩
        rw [hcomma, List.length_cons] at hfuel
        omega
      have hargument := State.tokens_skip hcomma
      have hlengthSkip := Nat.le_trans (State.length_skip s) hlength
      have htreeSkip : f.tree scopes s.skip.nextVariable = some (e, between) := htree
      obtain ⟨middle, hmiddle, hnext, hrun⟩ := (h f List.mem_cons_self).argument fs
        (by omega : f.depth < budget) htreeSkip hargument hlengthSkip
      have hshorter : middle.tokens.length + 1 ≤ s.tokens.length := by
        rw [hmiddle, hcomma]
        simp only [List.length_cons, List.length_append]
        omega
      obtain ⟨after, hafter, hnextAfter, hrunAfter⟩ : ∃ after, after.tokens = .mark .rightParen :: rest ∧
          after.nextVariable = next ∧ (moreArguments (binary bounds budget scopes 0) fuel (done ++ [e])).runOn
            middle = (.ok (done ++ [e] ++ es'), after) :=
        ih (fun g hg => h g (List.mem_cons_of_mem _ hg)) (by omega) (by rw [hnext]; exact hrest) hmiddle
          (by omega) (by omega)
      refine ⟨after, hafter, hnextAfter, ?_⟩
      rw [moreArguments, Action.runOn_bind, runOn_takes hcomma]
      simp only [if_true]
      rw [Action.runOn_bind, hrun, Action.runOn_pure]
      dsimp only
      rw [hrunAfter, List.append_assoc]
      rfl

theorem readsChain_call {w : String} {function : TextFunction} {fs : List Form}
    (hname : TextFunction.ofName? w = some function) (htakes : function.takes fs.length = true)
    (h : ∀ f ∈ fs, IsRead bounds f) : ReadsChain bounds (.call w function fs) := by
  refine readsChain_of_primary rfl nofun (fun v heq => by cases heq; exact not_same_of_function hname)
    fun {budget next scopes rest s e} hbudget htree hs hlength _ => ?_
  obtain ⟨f, fs, rfl⟩ : ∃ first rest, fs = first :: rest := by
    cases fs with
    | nil => cases function <;> exact absurd htakes (by decide)
    | cons f fs => exact ⟨f, fs, rfl⟩
  obtain ⟨es, htrees, rfl⟩ := Form.tree_call_iff.mp htree
  obtain ⟨first, between, more, hfirst, hmore, rfl⟩ := Form.trees_cons_iff.mp htrees
  have hbound : f.depth < budget ∧ Form.depthOfList fs ≤ budget + 1 := by
    simp only [Form.depth, Form.depthOfList] at hbudget
    omega
  have hword : s.tokens = .word w :: .mark .leftParen ::
      (f.tokens ++ (Form.laterTokens fs ++ .mark .rightParen :: rest)) := by
    rw [hs]
    simp [Form.tokens, Form.argumentTokens]
  have hopen := State.tokens_skip hword
  have hinside := State.tokens_skip hopen
  have hat : s.skip.isAt .leftParen = true := by
    rw [State.isAt_iff, hopen]
    rfl
  have hlengthSkip : s.skip.skip.tokens.length ≤ bounds.tokens :=
    Nat.le_trans (State.length_skip _) (Nat.le_trans (State.length_skip s) hlength)
  have hfirstSkip : f.tree scopes s.skip.skip.nextVariable = some (first, between) := hfirst
  obtain ⟨middle, hmiddle, hnext, hrun⟩ :=
    (h f List.mem_cons_self).argument fs hbound.1 hfirstSkip hinside hlengthSkip
  have hlengthMiddle : middle.tokens.length ≤ bounds.tokens := by
    rw [hinside, List.length_append] at hlengthSkip
    rw [hmiddle]
    omega
  obtain ⟨after, hafter, hnextAfter, hrunAfter⟩ : ∃ after, after.tokens = .mark .rightParen :: rest ∧
      after.nextVariable = next ∧ (moreArguments (binary bounds budget scopes 0) bounds.tokens [first]).runOn
        middle = (.ok ([first] ++ more), after) :=
    runOn_moreArguments_forms (fun g hg => h g (List.mem_cons_of_mem _ hg)) hbound.2
      (by rw [hnext]; exact hmore) hmiddle hlengthMiddle hlengthMiddle
  have harity : function.takes ([first] ++ more).length = true := by
    rw [List.singleton_append, List.length_cons, Form.length_trees hmore]
    exact htakes
  refine ⟨after.skip, State.tokens_skip hafter, hnextAfter, ?_⟩
  rw [primary, Action.runOn_bind, runOn_get]
  dsimp only
  rw [Action.runOn_bind, runOn_advance hword]
  dsimp only
  rw [Action.runOn_bind, runOn_get]
  simp only [hat, if_true, call, hname]
  rw [Action.runOn_bind, runOn_expect hopen]
  dsimp only
  rw [Action.runOn_bind, hrun, Action.runOn_pure]
  dsimp only
  rw [Action.runOn_bind, hrunAfter]
  dsimp only
  rw [Action.runOn_bind, runOn_expect hafter]
  simp only [harity, if_true]
  rfl

/-! ## Members and aggregates -/

theorem ReadsChain.member (h : ReadsChain bounds f) (name : String) :
    ReadsChain bounds (.member f name) := by
  intro budget next scopes rest s e hbudget htree hs hlength hrest
  obtain ⟨target, htarget, rfl⟩ := Form.tree_member_iff.mp htree
  have hbefore : s.tokens = f.tokens ++ .mark .dot :: .word name :: rest := by
    rw [hs, Form.tokens, List.append_assoc]
    rfl
  obtain ⟨fuel, hfuel, after, hafter, hnext, hrun⟩ := h hbudget htarget hbefore hlength nofun
  -- one more turn of the loop over members reads this one
  obtain ⟨fuel, rfl⟩ : ∃ k, fuel = k + 1 := ⟨fuel - 1, by rw [List.length_cons] at hfuel; omega⟩
  have hname := State.tokens_skip hafter
  have hbehind := State.tokens_skip hname
  have hat : after.skip.skip.isAt .leftParen = false := by
    rw [← Bool.not_eq_true, State.isAt_iff, hbehind]
    exact hrest
  refine ⟨fuel, ?_, after.skip.skip, hbehind, hnext, ?_⟩
  · simp only [List.length_cons] at hfuel
    omega
  · rw [hrun, members, Action.runOn_bind, runOn_takes hafter]
    simp only [if_true]
    rw [Action.runOn_bind, runOn_get]
    dsimp only
    rw [Action.runOn_bind, runOn_identifier hname]
    dsimp only
    rw [Action.runOn_bind, runOn_get]
    simp only [hat]
    rfl

/-- How `members` goes on at an aggregate, in whatever case its name is written. -/
theorem runOn_members_named {expr : Scopes → Parser Expr} {scopes : Scopes} {s : State} {w : String}
    {a : Aggregate} {ts : List Token} (hname : Aggregate.ofName? w = some a) (fuel : Nat) (target : Expr)
    (hs : s.tokens = .mark .dot :: .word w :: .mark .leftParen :: ts) :
    (members expr scopes (fuel + 1) target).runOn s =
      (do
        let applied ← aggregate expr scopes target a
        members expr scopes fuel applied : Parser Expr).runOn s.skip.skip := by
  have hword := State.tokens_skip hs
  have hopen := State.tokens_skip hword
  have hat : s.skip.skip.isAt .leftParen = true := by
    rw [State.isAt_iff, hopen]
    rfl
  rw [members, Action.runOn_bind, runOn_takes hs]
  simp only [if_true]
  rw [Action.runOn_bind, runOn_get]
  dsimp only
  rw [Action.runOn_bind, runOn_identifier hword]
  dsimp only
  rw [Action.runOn_bind, runOn_get]
  simp only [hat, hname, if_true]

theorem ReadsChain.aggregate (h : ReadsChain bounds f) {w : String} {a : Aggregate}
    (hname : Aggregate.ofName? w = some a) : ReadsChain bounds (.aggregate f w a) := by
  intro budget next scopes rest s e hbudget htree hs hlength _
  obtain ⟨target, htarget, rfl⟩ := Form.tree_aggregate_iff.mp htree
  have hbefore : s.tokens =
      f.tokens ++ .mark .dot :: .word w :: .mark .leftParen :: .mark .rightParen :: rest := by
    rw [hs, Form.tokens, List.append_assoc]
    rfl
  obtain ⟨fuel, hfuel, after, hafter, hnext, hrun⟩ := h hbudget htarget hbefore hlength nofun
  obtain ⟨fuel, rfl⟩ : ∃ k, fuel = k + 1 := ⟨fuel - 1, by rw [List.length_cons] at hfuel; omega⟩
  have hopen := State.tokens_skip (State.tokens_skip hafter)
  have hclose := State.tokens_skip hopen
  refine ⟨fuel, ?_, after.skip.skip.skip.skip, State.tokens_skip hclose, hnext, ?_⟩
  · simp only [List.length_cons] at hfuel
    omega
  · rw [hrun, runOn_members_named hname fuel target hafter, Action.runOn_bind, Parser.aggregate,
      Action.runOn_bind, runOn_expect hopen]
    dsimp only
    rw [Action.runOn_bind, runOn_takes hclose]
    rfl

theorem ReadsChain.aggregateOf (h : ReadsChain bounds f) {w : String} {a : Aggregate}
    (hname : Aggregate.ofName? w = some a) (shown : String) {body : Form} (hbody : IsRead bounds body) :
    ReadsChain bounds (.aggregateOf f w a shown body) := by
  intro budget next scopes rest s e hbudget htree hs hlength _
  obtain ⟨target, between, inner, htarget, hinner, rfl⟩ := Form.tree_aggregateOf_iff.mp htree
  have hdepth : f.depth ≤ budget + 1 ∧ body.depth < budget := by
    rw [Form.depth] at hbudget
    omega
  have hbefore : s.tokens = f.tokens ++ .mark .dot :: .word w :: .mark .leftParen ::
      .word shown :: .mark .colon :: (body.tokens ++ .mark .rightParen :: rest) := by
    rw [hs]
    simp [Form.tokens]
  obtain ⟨fuel, hfuel, after, hafter, hnext, hrun⟩ := h hdepth.1 htarget hbefore hlength nofun
  obtain ⟨fuel, rfl⟩ : ∃ k, fuel = k + 1 := ⟨fuel - 1, by rw [List.length_cons] at hfuel; omega⟩
  have hopen := State.tokens_skip (State.tokens_skip hafter)
  have hshown := State.tokens_skip hopen
  have hcolon := State.tokens_skip hshown
  have hinside := State.tokens_skip hcolon
  -- the state in which the body is read: one more variable is in use
  let inside : State :=
    { after.skip.skip.skip.skip.skip with nextVariable := after.nextVariable + 1 }
  have hlengthInside : inside.tokens.length ≤ bounds.tokens := by
    show after.skip.skip.skip.skip.skip.tokens.length ≤ bounds.tokens
    rw [hbefore, List.length_append] at hlength
    rw [hinside]
    simp only [List.length_cons] at hlength
    omega
  have hbodyTree : body.tree ((shown, numberedName after.nextVariable) :: scopes) inside.nextVariable =
      some (inner, next) := by
    show body.tree ((shown, numberedName after.nextVariable) :: scopes) (after.nextVariable + 1) = _
    rw [hnext]
    exact hinner
  obtain ⟨behind, hbehind, hnextBody, hrunBody⟩ := hbody.whole hdepth.2 hbodyTree hinside hlengthInside
    (detached_rightParen rest) (Nat.zero_le _) nofun
  have hnotClosed : after.skip.skip.skip.tokens.head? ≠ some (.mark .rightParen) := by
    rw [hshown]
    nofun
  refine ⟨fuel, ?_, behind.skip, State.tokens_skip hbehind, hnextBody, ?_⟩
  · simp only [List.length_cons, List.length_append] at hfuel
    omega
  · rw [hrun, runOn_members_named hname fuel target hafter, Action.runOn_bind, Parser.aggregate,
      Action.runOn_bind, runOn_expect hopen]
    dsimp only
    rw [Action.runOn_bind, runOn_takes_of_ne hnotClosed]
    simp only [Bool.false_eq_true, if_false]
    rw [Action.runOn_bind, runOn_identifier hshown]
    dsimp only
    rw [Action.runOn_bind, runOn_expect hcolon]
    dsimp only
    have hvariable : newVariable.runOn after.skip.skip.skip.skip.skip =
      (.ok (numberedName after.nextVariable), inside) := rfl
    have houtcome : (outcome (binary bounds budget
        ((shown, numberedName after.nextVariable) :: scopes) 0)).runOn inside = (.ok (.ok inner), behind) := by
      simp only [outcome, Action.change, Action.runOn_ofFunction]
      rw [hrunBody]
      rfl
    rw [Action.runOn_bind, hvariable]
    dsimp only
    rw [Action.runOn_bind, houtcome]
    dsimp only
    rw [Action.runOn_bind, runOn_expect hbehind, hnext]
    rfl

/-! ## Prefix operators and signs -/

theorem readsChain_negative (t : Token) : ReadsChain bounds (.negative t) := by
  intro budget next scopes rest s e _ htree hs hlength _
  obtain ⟨l, hl, rfl, rfl⟩ := Form.tree_negative_iff.mp htree
  have hminus : s.tokens = .mark .minus :: t :: rest := hs
  have hnumber := State.tokens_skip hminus
  have hrun : negativeNumber.runOn s.skip = (.ok (some (.constant l)), s.skip.skip) := by
    cases t with
    | int m =>
        rw [Token.negated?, Option.map_eq_some_iff] at hl
        obtain ⟨n, hn, rfl⟩ := hl
        exact runOn_negativeNumber_int hnumber hn
    | float x =>
        cases hl
        exact runOn_negativeNumber_float hnumber
    | _ => cases hl
  refine ⟨bounds.tokens, ?_, s.skip.skip, State.tokens_skip hnumber, rfl, ?_⟩
  · rw [hminus] at hlength
    simp only [List.length_cons] at hlength
    omega
  · rw [runOn_unary_minus budget scopes hminus, Action.runOn_bind, hrun]

theorem ReadsSingle.not (h : ReadsSingle bounds f) {w : String}
    (hnot : Text.sameIgnoringCase w "not" = true) : ReadsSingle bounds (.not w f) := by
  intro budget next scopes rest s e hbudget htree hs hlength hrest
  obtain ⟨operand, hoperand, rfl⟩ := Form.tree_not_iff.mp htree
  obtain ⟨budget, rfl⟩ : ∃ b, budget = b + 1 := ⟨budget - 1, by rw [Form.depth] at hbudget; omega⟩
  have hword : s.tokens = .word w :: (f.tokens ++ rest) := hs
  have hat : s.isAtWord "not" = true := by rw [State.isAtWord_of_word hword, hnot]
  have htreeSkip : f.tree scopes s.skip.nextVariable = some (operand, next) := hoperand
  obtain ⟨after, hafter, hnext, hrun⟩ := h (Nat.le_of_succ_le_succ hbudget) htreeSkip
    (State.tokens_skip hword) (Nat.le_trans (State.length_skip s) hlength) hrest
  refine ⟨after, hafter, hnext, ?_⟩
  rw [unary, Action.runOn_bind, runOn_takesWord "not" hat]
  simp only [if_true]
  rw [Action.runOn_bind, hrun]
  rfl

theorem ReadsSingle.negate (h : ReadsSingle bounds f) (hstart : f.startsAtNumber = false) :
    ReadsSingle bounds (.negate f) := by
  intro budget next scopes rest s e hbudget htree hs hlength hrest
  obtain ⟨operand, hoperand, rfl⟩ := Form.tree_negate_iff.mp htree
  obtain ⟨budget, rfl⟩ : ∃ b, budget = b + 1 := ⟨budget - 1, by rw [Form.depth] at hbudget; omega⟩
  have hminus : s.tokens = .mark .minus :: (f.tokens ++ rest) := hs
  have hbehind := State.tokens_skip hminus
  -- the sign is no part of a number
  have hnumber : negativeNumber.runOn s.skip = (.ok none, s.skip) := by
    obtain ⟨t, later, ht⟩ := List.exists_cons_of_ne_nil f.tokens_ne_nil
    unfold Form.startsAtNumber at hstart
    rw [ht] at hstart hbehind
    exact runOn_negativeNumber_of_not hbehind hstart
  have htreeSkip : f.tree scopes s.skip.nextVariable = some (operand, next) := hoperand
  obtain ⟨after, hafter, hnext, hrun⟩ := h (Nat.le_of_succ_le_succ hbudget) htreeSkip
    hbehind (Nat.le_trans (State.length_skip s) hlength) hrest
  refine ⟨after, hafter, hnext, ?_⟩
  rw [runOn_unary_minus budget scopes hminus, Action.runOn_bind, hnumber]
  dsimp only
  rw [Action.runOn_bind, hrun]
  rfl

/-! ## Infix operators -/

/-- A word that is an operator is neither a point nor a parenthesis. -/
theorem detached_word (w : String) (rest : List Token) : Detached (.word w :: rest) :=
  ⟨nofun, nofun⟩

theorem ReadsLeft.binary (h : ReadsLeft bounds f) {w : String} {op : BinaryOp} {right : Form}
    (hop : BinaryOp.ofKeyword? w = some op) (hlevel : op.precedence ≤ f.level)
    (hright : ReadsAll bounds right) (hrlevel : op.precedence + 1 ≤ right.level) :
    ReadsLeft bounds (.binary f w op right) := by
  intro budget least fuel next scopes rest s e hbudget htree hs hlength hfuel hrest hleast hlead
  obtain ⟨left, between, r, hleft, hr, rfl⟩ := Form.tree_binary_iff.mp htree
  have hdepth : f.depth ≤ budget ∧ right.depth < budget := by
    rw [Form.depth] at hbudget
    omega
  have hbefore : s.tokens = f.tokens ++ .word w :: (right.tokens ++ rest) := by
    rw [hs]
    simp [Form.tokens]
  have hwordOp : leadOperator? (.word w :: (right.tokens ++ rest)) = some op := hop
  obtain ⟨turns, hturns, after, hafter, hnext, hrun⟩ := h hdepth.1 hleft hbefore hlength hfuel
    (detached_word w _) (Nat.le_trans hleast hlevel) (by rw [hwordOp]; rintro _ ⟨⟩; exact hlevel)
  -- one turn of the loop reads the operator and its right side
  obtain ⟨turns, rfl⟩ : ∃ k, turns = k + 1 := ⟨turns - 1, by rw [List.length_cons] at hturns; omega⟩
  have hbehind := State.tokens_skip hafter
  have hlengthSkip : after.skip.tokens.length ≤ bounds.tokens := by
    rw [hbefore, List.length_append, List.length_cons] at hlength
    rw [hbehind]
    omega
  have htreeSkip : right.tree scopes after.skip.nextVariable = some (r, next) := by
    rw [State.nextVariable_skip, hnext]
    exact hr
  obtain ⟨last, hlast, hnextLast, hrunRight⟩ := hright hdepth.2 htreeSkip hbehind hlengthSkip hrest hrlevel
    (fun other hother => Nat.lt_succ_of_le (hlead other hother))
  refine ⟨turns, ?_, last, hlast, hnextLast, ?_⟩
  · simp only [List.length_cons, List.length_append] at hturns
    omega
  · have hloose : ¬ op.precedence < least := Nat.not_lt_of_le hleast
    rw [hrun, operators, Action.runOn_bind, runOn_get]
    dsimp only
    rw [operator?_eq, hafter, hwordOp]
    simp only [if_neg hloose]
    rw [Action.runOn_bind, runOn_advance hafter]
    dsimp only
    rw [Action.runOn_bind, hrunRight]
    rfl

/-! ## All derivations -/

mutual

/-- **Every derivation is read**, wherever it may stand. -/
theorem isRead (bounds : Bounds) : (f : Form) → f.IsDerived → IsRead bounds f
  | .literal t, _ => (readsChain_literal t).isRead
  | .negative t, _ => (readsChain_negative t).isRead
  | .word _, h => (readsChain_word h).isRead
  | .group inner, h => (isRead bounds inner h).group.isRead
  | .call _ _ arguments, h => (readsChain_call h.1 h.2.1 (areRead bounds arguments h.2.2)).isRead
  | .member target name, h => (((isRead bounds target h.1).chain h.2).member name).isRead
  | .aggregate target _ _, h => (((isRead bounds target h.1).chain h.2.1).aggregate h.2.2).isRead
  | .aggregateOf target _ _ shown body, h =>
      (((isRead bounds target h.1).chain h.2.1).aggregateOf h.2.2.1 shown
        (isRead bounds body h.2.2.2)).isRead
  | .not _ operand, h =>
      (((isRead bounds operand h.2.1).operand h.2.2).not h.1).isRead (Nat.lt_succ_self 6)
  | .negate operand, h =>
      (((isRead bounds operand h.1).operand h.2.1).negate h.2.2).isRead (Nat.lt_succ_self 6)
  | .binary left _ op right, h =>
      ((isRead bounds left h.2.1).left.binary h.1 h.2.2.1 (isRead bounds right h.2.2.2.1).whole
        h.2.2.2.2).isRead (Nat.lt_succ_of_le (Form.precedence_le_five op))

theorem areRead (bounds : Bounds) : (fs : List Form) → Form.AreDerived fs → ∀ f ∈ fs, IsRead bounds f
  | [], _ => nofun
  | f :: rest, h => List.forall_mem_cons.mpr ⟨isRead bounds f h.1, areRead bounds rest h.2⟩

end

end Parser

end ResourceQuery
