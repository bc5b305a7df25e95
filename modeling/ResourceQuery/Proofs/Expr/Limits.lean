import ResourceQuery.Proofs.Expr.Derivation

set_option autoImplicit false

/-! # The limit of nesting

Reading stops with an error where expressions are nested too deeply. This is all that the limit does
(`Parser.nesting_only_rejects`). Two readings of the same tokens with different limits are run side by side,
and the one with the higher limit does what the other one does, as long as this one succeeds
(`Parser.Imitates`). A failure is different: with a higher limit, reading may go on behind the place where
it stopped. But two levels are never entered without taking a token, and so with two levels for each token
no reading is stopped by the limit, and failures are the same as well.

The one place where a failure does not stop the reading at once is the body of an aggregate, whose closing
parenthesis is asked for first (`Parser.Imitates.outcome_bind`).

That repetitions take a token in each round, and that nothing puts tokens back (`Parser.GoesForward`), is
also why they come to an end: however many rounds they are given above the number of tokens, none is left
out.
-/

namespace ResourceQuery

namespace Parser

variable {α β : Type} {s s' : State} {bounds : Bounds} {scopes : Scopes}

/-! ## Reading goes forward -/

theorem State.length_skip_lt {t : Token} {ts : List Token} (h : s.tokens = t :: ts) :
    s.skip.tokens.length < s.tokens.length := by
  rw [State.tokens_skip h, h, List.length_cons]
  exact Nat.lt_succ_self _

/-- `p` takes the next token if this is of some kind, and tells whether it was. -/
def Probes (p : Parser Bool) : Prop :=
  ∀ s : State, (s.skip.tokens.length < s.tokens.length ∧ p.runOn s = (.ok true, s.skip)) ∨
    p.runOn s = (.ok false, s)

theorem probes_takes (m : Mark) : Probes (takes m) := by
  intro s
  rcases takes_cases m s with ⟨ts, hts, htaken⟩ | ⟨-, hleft⟩
  · exact Or.inl ⟨State.length_skip_lt hts, htaken⟩
  · exact Or.inr hleft

theorem probes_takesWord (word : String) : Probes (takesWord word) := by
  intro s
  rcases isAtWord_cases word s with ⟨w, ts, hts, -, htaken⟩ | ⟨-, hleft⟩
  · exact Or.inl ⟨State.length_skip_lt hts, htaken⟩
  · exact Or.inr hleft

/-- Whatever comes of `p`, no token is put back. -/
def GoesForward (p : Parser α) : Prop :=
  ∀ s : State, (p.runOn s).2.tokens.length ≤ s.tokens.length

namespace GoesForward

theorem pure (a : α) : GoesForward (pure a : Parser α) := fun _ => Nat.le_refl _

theorem fail (e : Error) : GoesForward (Action.fail e : Parser α) := fun _ => Nat.le_refl _

theorem get : GoesForward (get : Parser State) := fun _ => Nat.le_refl _

theorem newVariable : GoesForward newVariable := fun _ => Nat.le_refl _

theorem advance : GoesForward advance := fun s => s.length_skip

theorem probe {p : Parser Bool} (h : Probes p) : GoesForward p := by
  intro s
  rcases h s with ⟨-, htaken⟩ | hleft
  · rw [htaken]
    exact s.length_skip
  · rw [hleft]

theorem expect (m : Mark) : GoesForward (expect m) := by
  intro s
  simp only [Parser.expect, Action.runOn_ofFunction]
  split
  · exact s.length_skip
  · exact Nat.le_refl _

theorem outcome {p : Parser α} (h : GoesForward p) : GoesForward (outcome p) := h

theorem bind {p : Parser α} {next : α → Parser β} (h : GoesForward p)
    (hnext : ∀ a, GoesForward (next a)) : GoesForward (p >>= next) := by
  intro s
  have hfirst := h s
  rw [Action.runOn_bind]
  cases hrun : p.runOn s with
  | mk result between =>
      rw [hrun] at hfirst
      cases result with
      | error e => exact hfirst
      | ok a => exact (hnext a between).trans hfirst

theorem identifier : GoesForward identifier :=
  get.bind fun _ => advance.bind fun t => by
    split
    · exact pure _
    · exact fail _

theorem operators {operand : Nat → Parser Expr} (h : ∀ level, GoesForward (operand level)) (least fuel : Nat)
    (left : Expr) : GoesForward (operators operand least fuel left) := by
  induction fuel generalizing left with
  | zero => exact pure left
  | succ fuel ih =>
      refine get.bind fun s => ?_
      split
      · exact pure left
      · split
        · exact pure left
        · exact advance.bind fun _ => (h _).bind fun right => ih _

section

variable {expr : Scopes → Parser Expr} (h : ∀ scopes, GoesForward (expr scopes))

include h

theorem aggregate (scopes : Scopes) (target : Expr) (a : Aggregate) :
    GoesForward (aggregate expr scopes target a) := by
  refine (expect _).bind fun _ => (probe (probes_takes _)).bind fun isClosed => ?_
  split
  · exact pure _
  · refine identifier.bind fun shown => (expect _).bind fun _ => newVariable.bind fun parameter => ?_
    refine (outcome (h _)).bind fun body => (expect _).bind fun _ => ?_
    cases body with
    | ok body => exact pure _
    | error e => exact fail e

theorem members (scopes : Scopes) (fuel : Nat) (target : Expr) :
    GoesForward (members expr scopes fuel target) := by
  induction fuel generalizing target with
  | zero => exact pure target
  | succ fuel ih =>
      refine (probe (probes_takes _)).bind fun isMember => ?_
      split
      · refine get.bind fun s => identifier.bind fun name => get.bind fun s => ?_
        split
        · split
          · exact fail _
          · exact (aggregate h scopes target _).bind fun applied => ih applied
        · exact ih _
      · exact pure target

omit h in
theorem moreArguments {argument : Parser Expr} (h : GoesForward argument) (fuel : Nat) (done : List Expr) :
    GoesForward (moreArguments argument fuel done) := by
  induction fuel generalizing done with
  | zero => exact pure done
  | succ fuel ih =>
      refine (probe (probes_takes _)).bind fun isMore => ?_
      split
      · exact h.bind fun next => ih _
      · exact pure done

omit h in
theorem call {argument : Parser Expr} (h : GoesForward argument) (bounds : Bounds) (name : String)
    (offset : Nat) : GoesForward (call bounds argument name offset) := by
  unfold Parser.call
  split
  · exact fail _
  · refine (expect _).bind fun _ => h.bind fun first => (moreArguments h _ _).bind fun arguments => ?_
    refine (expect _).bind fun _ => ?_
    split
    · exact pure _
    · exact fail _

theorem primary (bounds : Bounds) (scopes : Scopes) : GoesForward (primary bounds expr scopes) := by
  -- the bounds of the words are too far apart to compute with
  obtain ⟨fits, hfits⟩ : ∃ fits : Int → Option Int64, ∀ k : Int, Word.int64? k = fits k := ⟨_, fun _ => rfl⟩
  simp only [Parser.primary, hfits]
  refine get.bind fun s => advance.bind fun t => ?_
  split
  · split
    · exact pure _
    · exact fail _
  · exact pure _
  · exact pure _
  · exact pure _
  · exact (h scopes).bind fun inner => (expect _).bind fun _ => pure inner
  · refine get.bind fun s => ?_
    split
    · exact call (h scopes) bounds _ _
    · split
      · exact pure _
      · exact fail _
  · exact fail _

end

theorem negativeNumber : GoesForward negativeNumber := by
  refine get.bind fun s => ?_
  split
  · refine advance.bind fun _ => ?_
    split
    · exact pure _
    · exact fail _
  · exact advance.bind fun _ => pure _
  · exact pure _

/-- No token is put back by expressions, however deep they may be nested. -/
theorem binary_and_unary (bounds : Bounds) (budget : Nat) :
    (∀ scopes least, GoesForward (binary bounds budget scopes least)) ∧
      ∀ scopes, GoesForward (unary bounds budget scopes) := by
  induction budget with
  | zero => exact ⟨fun _ _ => fail _, fun _ => fail _⟩
  | succ budget ih =>
      obtain ⟨hbinary, hunary⟩ := ih
      have hexpr : ∀ scopes, GoesForward (binary bounds budget scopes 0) := fun scopes => hbinary scopes 0
      refine ⟨fun scopes least => ?_, fun scopes => ?_⟩
      · exact (hunary scopes).bind fun left => operators (hbinary scopes) least _ left
      · refine (probe (probes_takesWord _)).bind fun isNot => ?_
        split
        · exact (hunary scopes).bind fun operand => pure _
        · refine (probe (probes_takes _)).bind fun isMinus => ?_
          split
          · refine negativeNumber.bind fun number => ?_
            split
            · exact members hexpr scopes _ _
            · exact (hunary scopes).bind fun operand => pure _
          · exact (primary hexpr bounds scopes).bind fun first => members hexpr scopes _ first

theorem length_le {p : Parser α} {result : Except Error α} (h : GoesForward p)
    (hrun : p.runOn s = (result, s')) : s'.tokens.length ≤ s.tokens.length := by
  have hle := h s
  rwa [hrun] at hle

end GoesForward

theorem length_of_expect {m : Mark} {u : Unit} (h : (expect m).runOn s = (.ok u, s')) :
    s'.tokens.length < s.tokens.length := by
  obtain ⟨⟨ts, hts⟩, rfl⟩ := of_expect h
  exact State.length_skip_lt hts

theorem length_of_identifier {w : String} (h : identifier.runOn s = (.ok w, s')) :
    s'.tokens.length < s.tokens.length := by
  obtain ⟨⟨ts, hts⟩, rfl⟩ := of_identifier h
  exact State.length_skip_lt hts

/-- Where a token was taken, there are fewer ahead. -/
theorem length_of_advance {t : Token} (h : advance.runOn s = (.ok (some t), s')) :
    s'.tokens.length < s.tokens.length := by
  obtain ⟨ht, rfl⟩ := of_advance h
  obtain ⟨ts, hts⟩ := List.head?_eq_some_iff.1 ht.symm
  exact State.length_skip_lt hts

/-! ## Two readings of the same tokens -/

/-- From `s` on, `q` does what `p` does, if `p` succeeds; and in any case if there is `enough`. -/
def Imitates (enough : Prop) (s : State) (p q : Parser α) : Prop :=
  enough ∨ (p.runOn s).1.isOk = true → q.runOn s = p.runOn s

namespace Imitates

variable {enough : Prop} {p q : Parser α} {f g : α → Parser β}

theorem refl (p : Parser α) : Imitates enough s p p := fun _ => rfl

theorem mono {less : Prop} (hless : less → enough) (h : Imitates enough s p q) : Imitates less s p q :=
  fun hcase => h (hcase.imp_left hless)

theorem bind (h : Imitates enough s p q)
    (hnext : ∀ a between, p.runOn s = (.ok a, between) → Imitates enough between (f a) (g a)) :
    Imitates enough s (p >>= f) (q >>= g) := by
  intro hcase
  rw [Action.runOn_bind] at hcase
  rw [Action.runOn_bind, Action.runOn_bind]
  cases hrun : p.runOn s with
  | mk result between =>
      rw [hrun] at hcase
      cases result with
      | error e =>
          have henough : enough := hcase.resolve_right nofun
          rw [h (Or.inl henough), hrun]
      | ok a =>
          have hfirst : q.runOn s = p.runOn s := h (Or.inr (by rw [hrun]; rfl))
          rw [hfirst, hrun]
          exact hnext a between hrun hcase

/-- Both go on from the same place after a step that is the same. -/
theorem step {f g : α → Parser β}
    (hnext : ∀ a between, p.runOn s = (.ok a, between) → Imitates enough between (f a) (g a)) :
    Imitates enough s (p >>= f) (p >>= g) :=
  (refl p).bind hnext

/-- Both go on from the same place, with fewer tokens if one was taken. -/
theorem probe_step {probe : Parser Bool} (hprobe : Probes probe) {f g : Bool → Parser β}
    (hyes : ∀ between : State, between.tokens.length < s.tokens.length →
      Imitates enough between (f true) (g true))
    (hno : Imitates enough s (f false) (g false)) :
    Imitates enough s (probe >>= f) (probe >>= g) := by
  refine step fun taken between hrun => ?_
  rcases hprobe s with ⟨hlength, htaken⟩ | hleft
  · rw [htaken] at hrun
    cases hrun
    exact hyes _ hlength
  · rw [hleft] at hrun
    cases hrun
    exact hno

/-- Both go on with the result of one step or of another. -/
theorem either_step {isFirst : Bool} {first second : Parser α} {f g : α → Parser β}
    (hfirst : GoesForward first) (hsecond : GoesForward second)
    (hnext : ∀ a (between : State), between.tokens.length ≤ s.tokens.length →
      Imitates enough between (f a) (g a)) :
    Imitates enough s (if isFirst = true then first >>= f else second >>= f)
      (if isFirst = true then first >>= g else second >>= g) := by
  split
  · exact step fun a between hrun => hnext a between (hfirst.length_le hrun)
  · exact step fun a between hrun => hnext a between (hsecond.length_le hrun)

/-- An outcome that is looked at later may be a failure, but then what follows must fail. -/
theorem outcome_bind {next : Except Error α → Parser β} (h : Imitates enough s p q)
    (hnext : ∀ e between, ((next (.error e)).runOn between).1.isOk = false) :
    Imitates enough s (outcome p >>= next) (outcome q >>= next) := by
  intro hcase
  have hsame : q.runOn s = p.runOn s := by
    refine h (hcase.imp_right fun hok => ?_)
    rw [Action.runOn_bind] at hok
    cases hresult : (p.runOn s).1 with
    | ok a => rfl
    | error e =>
        have hfails : ((next (p.runOn s).1).runOn (p.runOn s).2).1.isOk = true := hok
        rw [hresult, hnext e] at hfails
        cases hfails
  have houtcome : (outcome q).runOn s = (outcome p).runOn s := by
    simp only [outcome, Action.change, Action.runOn_ofFunction, hsame]
  rw [Action.runOn_bind, Action.runOn_bind, houtcome]

/-! ## Repetitions -/

variable {length : Nat}

theorem operators {operand operand' : Nat → Parser Expr} (hforward : ∀ level, GoesForward (operand level))
    (h : ∀ level (m : State), m.tokens.length < length →
      Imitates enough m (operand level) (operand' level))
    (least : Nat) {fuel fuel' : Nat} (left : Expr) (hs : s.tokens.length ≤ length)
    (hfuel : s.tokens.length < fuel) (hfuel' : s.tokens.length < fuel') :
    Imitates enough s (operators operand least fuel left) (operators operand' least fuel' left) := by
  induction fuel generalizing fuel' left s with
  | zero => omega
  | succ fuel ih =>
      obtain ⟨fuel', rfl⟩ : ∃ n, fuel' = n + 1 := ⟨fuel' - 1, by omega⟩
      refine step fun m between hget => ?_
      cases hget
      split
      · exact refl _
      · rename_i op hop
        split
        · exact refl _
        · -- the operator is a token, so there are fewer behind it
          refine step fun t behind hadvance => ?_
          obtain ⟨-, rfl⟩ := of_advance hadvance
          have hbehind : s.skip.tokens.length < s.tokens.length := by
            rw [operator?_eq] at hop
            cases hts : s.tokens with
            | nil =>
                rw [hts] at hop
                cases hop
            | cons t ts => exact hts ▸ State.length_skip_lt hts
          refine (h _ s.skip (by omega)).bind fun right after hright => ?_
          have hafter := (hforward _).length_le hright
          exact ih _ (by omega) (by omega) (by omega)

section

variable {expr expr' : Scopes → Parser Expr} (hforward : ∀ scopes, GoesForward (expr scopes))
  (hexpr : ∀ scopes (m : State), m.tokens.length < length → Imitates enough m (expr scopes) (expr' scopes))

include hexpr

theorem aggregate (scopes : Scopes) (target : Expr) (a : Aggregate) (hs : s.tokens.length ≤ length) :
    Imitates enough s (aggregate expr scopes target a) (aggregate expr' scopes target a) := by
  refine step fun u opened hopen => probe_step (probes_takes _) (fun _ _ => refl _) ?_
  have hopened := length_of_expect hopen
  refine step fun shown named hname => step fun u separated hcolon => step fun parameter m hnew => ?_
  have hnamed := length_of_identifier hname
  have hseparated := length_of_expect hcolon
  have hm := GoesForward.newVariable.length_le hnew
  refine (hexpr _ m (by omega)).outcome_bind fun e between => ?_
  rw [Action.runOn_bind]
  cases (expect .rightParen).runOn between with
  | mk result after => cases result <;> rfl

include hforward

theorem members (scopes : Scopes) {fuel fuel' : Nat} (target : Expr) (hs : s.tokens.length ≤ length)
    (hfuel : s.tokens.length < fuel) (hfuel' : s.tokens.length < fuel') :
    Imitates enough s (members expr scopes fuel target) (members expr' scopes fuel' target) := by
  induction fuel generalizing fuel' target s with
  | zero => omega
  | succ fuel ih =>
      obtain ⟨fuel', rfl⟩ : ∃ n, fuel' = n + 1 := ⟨fuel' - 1, by omega⟩
      refine probe_step (probes_takes _) (fun dotted hdotted => ?_) (refl (pure target))
      refine step fun m between hget => ?_
      cases hget
      refine step fun name named hname => ?_
      have hnamed := length_of_identifier hname
      refine step fun m between hget => ?_
      cases hget
      split
      · split
        · exact refl _
        · refine (aggregate hexpr scopes target _ (by omega)).bind fun applied after happlied => ?_
          have hafter := (GoesForward.aggregate hforward scopes target _).length_le happlied
          exact ih _ (by omega) (by omega) (by omega)
      · exact ih _ (by omega) (by omega) (by omega)

omit hforward hexpr in
theorem moreArguments {argument argument' : Parser Expr} (hforward : GoesForward argument)
    (h : ∀ m : State, m.tokens.length < length → Imitates enough m argument argument')
    {fuel fuel' : Nat} (done : List Expr) (hs : s.tokens.length ≤ length)
    (hfuel : s.tokens.length < fuel) (hfuel' : s.tokens.length < fuel') :
    Imitates enough s (moreArguments argument fuel done) (moreArguments argument' fuel' done) := by
  induction fuel generalizing fuel' done s with
  | zero => omega
  | succ fuel ih =>
      obtain ⟨fuel', rfl⟩ : ∃ n, fuel' = n + 1 := ⟨fuel' - 1, by omega⟩
      refine probe_step (probes_takes _) (fun between hbetween => ?_) (refl (pure done))
      refine (h between (by omega)).bind fun next after hnext => ?_
      have hafter := hforward.length_le hnext
      exact ih _ (by omega) (by omega) (by omega)

omit hforward hexpr in
theorem call {argument argument' : Parser Expr} {more : Bounds} (hforward : GoesForward argument)
    (h : ∀ m : State, m.tokens.length < length → Imitates enough m argument argument')
    (name : String) (offset : Nat) (hs : s.tokens.length ≤ length) (hrounds : length < bounds.tokens)
    (hrounds' : length < more.tokens) :
    Imitates enough s (call bounds argument name offset) (call more argument' name offset) := by
  unfold Parser.call
  split
  · exact refl _
  · refine step fun u opened hopen => ?_
    have hopened := length_of_expect hopen
    refine (h opened (by omega)).bind fun first between hfirst => ?_
    have hbetween := hforward.length_le hfirst
    refine (moreArguments hforward h [first] (by omega) (by omega) (by omega)).bind fun es after _ => ?_
    exact refl _

theorem primary {more : Bounds} (scopes : Scopes) (hs : s.tokens.length ≤ length)
    (hrounds : length < bounds.tokens) (hrounds' : length < more.tokens) :
    Imitates enough s (primary bounds expr scopes) (primary more expr' scopes) := by
  obtain ⟨fits, hfits⟩ : ∃ fits : Int → Option Int64, ∀ k : Int, Word.int64? k = fits k := ⟨_, fun _ => rfl⟩
  simp only [Parser.primary, hfits]
  refine step fun m between hget => ?_
  cases hget
  refine step fun t behind hadvance => ?_
  split
  · exact refl _
  · exact refl _
  · exact refl _
  · exact refl _
  · have hbehind := length_of_advance hadvance
    exact (hexpr scopes behind (by omega)).bind fun inner after _ => refl _
  · have hbehind := length_of_advance hadvance
    refine step fun m between hget => ?_
    cases hget
    split
    · exact call (hforward scopes) (hexpr scopes) _ _ (by omega) hrounds hrounds'
    · exact refl _
  · exact refl _

end

/-- Let repetitions have rounds for all tokens. An expression that is read with some levels of nesting is
read alike with more. Failures are the same as well, if no level is added, or if there are two for each
token. -/
theorem binary_and_unary {more : Bounds} {budget budget' : Nat} (h : budget ≤ budget') :
    (∀ scopes least (s : State), s.tokens.length < bounds.tokens → s.tokens.length < more.tokens →
      Imitates (bounds.nesting = more.nesting ∧ budget = budget' ∨ 2 * s.tokens.length + 2 ≤ budget) s
        (binary bounds budget scopes least) (binary more budget' scopes least)) ∧
      ∀ scopes (s : State), s.tokens.length < bounds.tokens → s.tokens.length < more.tokens →
        Imitates (bounds.nesting = more.nesting ∧ budget = budget' ∨ 2 * s.tokens.length + 1 ≤ budget) s
          (unary bounds budget scopes) (unary more budget' scopes) := by
  induction budget generalizing budget' with
  | zero =>
      have htooDeep : ∀ {s : State} {p : Parser Expr} {few : Prop}, ¬few →
          (budget' = 0 → p = tooDeep more) →
          Imitates (bounds.nesting = more.nesting ∧ 0 = budget' ∨ few) s (tooDeep bounds) p := by
        rintro s p few hfew hp ((⟨hnesting, hbudget⟩ | hcase) | hok)
        · rw [hp hbudget.symm, tooDeep, tooDeep, hnesting]
        · exact absurd hcase hfew
        · cases hok
      refine ⟨fun scopes least s _ _ => htooDeep (by omega) ?_, fun scopes s _ _ => htooDeep (by omega) ?_⟩
      · rintro rfl
        rfl
      · rintro rfl
        rfl
  | succ budget ih =>
      obtain ⟨budget', rfl⟩ : ∃ n, budget' = n + 1 := ⟨budget' - 1, by omega⟩
      obtain ⟨hbinary, hunary⟩ := ih (Nat.le_of_succ_le_succ h)
      obtain ⟨hforward, hforwardUnary⟩ := GoesForward.binary_and_unary bounds budget
      refine ⟨fun scopes least s hs hs' => ?_, fun scopes s hs hs' => ?_⟩
      · refine ((hunary scopes s hs hs').mono (by omega)).bind fun left between hleft => ?_
        have hbetween := (hforwardUnary scopes).length_le hleft
        refine operators (hforward scopes) (fun level m hm => ?_) least left hbetween (by omega) (by omega)
        exact (hbinary scopes level m (by omega) (by omega)).mono (by omega)
      · -- what stands inside begins behind the first token, with two tokens' levels less to go
        have hexpr : ∀ scopes (m : State), m.tokens.length < s.tokens.length →
            Imitates (bounds.nesting = more.nesting ∧ budget + 1 = budget' + 1 ∨
                2 * s.tokens.length + 1 ≤ budget + 1) m
              (binary bounds budget scopes 0) (binary more budget' scopes 0) := fun scopes m hm =>
          (hbinary scopes 0 m (by omega) (by omega)).mono (by omega)
        have hoperand : ∀ m : State, m.tokens.length < s.tokens.length →
            Imitates (bounds.nesting = more.nesting ∧ budget + 1 = budget' + 1 ∨
                2 * s.tokens.length + 1 ≤ budget + 1) m
              (unary bounds budget scopes) (unary more budget' scopes) := fun m hm =>
          (hunary scopes m (by omega) (by omega)).mono (by omega)
        have hbody : ∀ scopes, GoesForward (binary bounds budget scopes 0) := fun scopes => hforward scopes 0
        refine probe_step (probes_takesWord _) (fun between hbetween => ?_) ?_
        · exact (hoperand between hbetween).bind fun operand after _ => refl _
        refine probe_step (probes_takes _) (fun between hbetween => ?_) ?_
        · refine step fun number after hnumber => ?_
          have hafter := GoesForward.negativeNumber.length_le hnumber
          split
          · exact members hbody hexpr scopes _ (by omega) (by omega) (by omega)
          · exact (hoperand after (by omega)).bind fun operand last _ => refl _
        · refine (primary hbody hexpr scopes (Nat.le_refl _) hs hs').bind fun first after hfirst => ?_
          have hafter := (GoesForward.primary hbody bounds scopes).length_le hfirst
          exact members hbody hexpr scopes first hafter (by omega) (by omega)

end Imitates

/-! ## Whole texts -/

/-- Reads a sort key. -/
def sortKey (bounds : Bounds) : Parser SortKey := do
  let body ← expr bounds
  let direction ← direction
  expectOneKey
  pure (SortKey.mk ⟨rowName, body⟩ direction)

/-- Reads the fields of a selection. -/
def fields (bounds : Bounds) : Parser (List (String × Expr) × Bool) :=
  selections bounds bounds.tokens [] false

/-- How many tokens a text has, if it falls into tokens. -/
def tokenCount (text : String) : Nat :=
  match Token.scan text with
  | .ok tokens => tokens.length
  | .error _ => 0

/-- Reads all of `text` with `p` within any bounds. -/
def readWithin (p : Bounds → Parser α) (bounds : Bounds) (text : String) : Except Error α := do
  let tokens ← Token.scan text
  let whole : Parser α := do
    let a ← p bounds
    expectEnd
    pure a
  (whole.runOn ⟨tokens, text.utf8ByteSize, 1⟩).1

/-- Where repetitions have rounds for all tokens, what `p` reads does not depend on how many these are, and
on the limit of nesting only as far as this rejects. -/
def OnlyRejects (p : Bounds → Parser α) : Prop :=
  ∀ ⦃bounds more : Bounds⦄ ⦃s : State⦄, bounds.nesting ≤ more.nesting → s.tokens.length < bounds.tokens →
    s.tokens.length < more.tokens →
    Imitates (bounds.nesting = more.nesting ∨ 2 * s.tokens.length + 2 ≤ bounds.nesting) s (p bounds) (p more)

theorem onlyRejects_expr : OnlyRejects expr := fun bounds more s hnesting hs hs' =>
  ((Imitates.binary_and_unary hnesting).1 [] 0 s hs hs').mono (by omega)

theorem onlyRejects_sortKey : OnlyRejects sortKey := fun _ _ _ hnesting hs hs' =>
  (onlyRejects_expr hnesting hs hs').bind fun _ _ _ => Imitates.refl _

theorem goesForward_expr (bounds : Bounds) : GoesForward (expr bounds) :=
  (GoesForward.binary_and_unary bounds bounds.nesting).1 [] 0

/-- Selections, one of which is read in each round, and behind a comma the next. -/
theorem imitates_selections {enough : Prop} {more : Bounds} {length : Nat}
    (h : ∀ m : State, m.tokens.length ≤ length → Imitates enough m (expr bounds) (expr more))
    {fuel fuel' : Nat} (done : List (String × Expr)) (aliased : Bool) (hs : s.tokens.length ≤ length)
    (hfuel : s.tokens.length < fuel) (hfuel' : s.tokens.length < fuel') :
    Imitates enough s (selections bounds fuel done aliased) (selections more fuel' done aliased) := by
  induction fuel generalizing fuel' done aliased s with
  | zero => omega
  | succ fuel ih =>
      obtain ⟨fuel', rfl⟩ : ∃ n, fuel' = n + 1 := ⟨fuel' - 1, by omega⟩
      refine (h s hs).bind fun value between hvalue => ?_
      have hbetween := (goesForward_expr bounds).length_le hvalue
      refine Imitates.step fun written named hwritten => ?_
      have hnamed := (GoesForward.probe (probes_takesWord "as")).length_le hwritten
      refine Imitates.either_step GoesForward.identifier (GoesForward.pure _) fun field behind hbehind => ?_
      dsimp only
      split
      · exact Imitates.refl _
      · refine Imitates.probe_step (probes_takes _) (fun after hafter => ?_) (Imitates.refl (pure _))
        exact ih _ _ (by omega) (by omega) (by omega)

theorem onlyRejects_fields : OnlyRejects fields := fun bounds more s hnesting hs hs' =>
  imitates_selections (fun m hm => (onlyRejects_expr hnesting (by omega) (by omega)).mono (by omega)) [] false
    (Nat.le_refl _) hs hs'

theorem readAll_eq_readWithin (p : Bounds → Parser α) (text : String) (limit : Nat) :
    readAll p text limit = readWithin p ⟨limit, tokenCount text + 1⟩ text := by
  unfold readAll readWithin tokenCount
  cases Token.scan text with
  | error e => rfl
  | ok tokens => rfl

/-- Reading within other bounds comes to the same, if it succeeds, or the limit is the same, or there are
two levels for each token. -/
theorem OnlyRejects.readWithin_eq {p : Bounds → Parser α} (h : OnlyRejects p) {more : Bounds} {text : String}
    (hnesting : bounds.nesting ≤ more.nesting) (hrounds : tokenCount text < bounds.tokens)
    (hrounds' : tokenCount text < more.tokens)
    (hcase : (bounds.nesting = more.nesting ∨ 2 * tokenCount text + 2 ≤ bounds.nesting) ∨
      (readWithin p bounds text).isOk = true) :
    readWithin p more text = readWithin p bounds text := by
  unfold readWithin tokenCount at *
  cases hscan : Token.scan text with
  | error e => rfl
  | ok tokens =>
      rw [hscan] at hrounds hrounds' hcase
      have hlength : (State.mk tokens text.utf8ByteSize 1).tokens.length = tokens.length := by
        simp [State.tokens]
      have hwhole := (h (s := ⟨tokens, text.utf8ByteSize, 1⟩) hnesting (hlength ▸ hrounds)
        (hlength ▸ hrounds')).bind (f := fun a => expectEnd >>= fun _ => pure a)
          (g := fun a => expectEnd >>= fun _ => pure a) fun _ _ _ => Imitates.refl _
      rw [hlength] at hwhole
      exact congrArg Prod.fst (hwhole hcase)

namespace OnlyRejects

variable {p : Bounds → Parser α} {text : String}

/-- What is read with a limit is read with every higher one. -/
theorem readAll_mono (h : OnlyRejects p) {limit more : Nat} (hmore : limit ≤ more) {a : α}
    (hread : readAll p text limit = .ok a) : readAll p text more = .ok a := by
  rw [readAll_eq_readWithin] at hread ⊢
  rw [← hread]
  exact h.readWithin_eq hmore (Nat.lt_succ_self _) (Nat.lt_succ_self _) (Or.inr (by rw [hread]; rfl))

/-- From two levels for each token on, the limit makes no difference. -/
theorem readAll_settled (h : OnlyRejects p) {limit : Nat} (henough : 2 * tokenCount text + 2 ≤ limit) :
    readAll p text limit = readAll p text (2 * tokenCount text + 2) := by
  rw [readAll_eq_readWithin, readAll_eq_readWithin]
  exact h.readWithin_eq henough (Nat.lt_succ_self _) (Nat.lt_succ_self _) (Or.inl (Or.inr (Nat.le_refl _)))

/-- Repetitions come to an end by themselves: more rounds make no difference. -/
theorem readWithin_eq_readAll (h : OnlyRejects p) (hrounds : tokenCount text < bounds.tokens) :
    readWithin p bounds text = readAll p text bounds.nesting := by
  rw [readAll_eq_readWithin]
  exact h.readWithin_eq (Nat.le_refl _) (Nat.lt_succ_self _) hrounds (Or.inl (Or.inl rfl))

end OnlyRejects

theorem ok_map_of_ok {x y : Except Error α} {f : α → β} {b : β} (h : ∀ a, x = .ok a → y = .ok a)
    (hx : x.map f = .ok b) : y.map f = .ok b := by
  cases x with
  | error e => cases hx
  | ok a => rw [h a rfl, hx]

end Parser

/-- The expression that `text` writes, read within any bounds. -/
def Lambda.parseWithin (bounds : Parser.Bounds) (text : String) : Except Error Lambda :=
  (Parser.readWithin Parser.expr bounds text).map (Lambda.mk Parser.rowName)

/-- The selection that `text` writes, read within any bounds. -/
def Lambda.parseSelectionWithin (bounds : Parser.Bounds) (text : String) : Except Error Lambda :=
  (Parser.readWithin Parser.fields bounds text).map fun read => ⟨Parser.rowName, Parser.selected read⟩

/-- The sort key that `text` writes, read within any bounds. -/
def SortKey.parseWithin (bounds : Parser.Bounds) (text : String) : Except Error SortKey :=
  Parser.readWithin Parser.sortKey bounds text

namespace Parser

/-- **The limit of nesting only rejects.** Whatever the text, an expression, a selection or a sort key that
is read with a limit is read as the same with every higher limit. From two levels for each token and two
more on, the limit makes no difference at all, also not to the error where the text is none of these. And
reading comes to an end with every limit: repetitions are never cut off, since with any number of rounds
above the number of tokens they come to the same. -/
theorem nesting_only_rejects (text : String) :
    (∀ limit more, limit ≤ more →
      (∀ l, Lambda.parse text limit = .ok l → Lambda.parse text more = .ok l) ∧
        (∀ l, Lambda.parseSelection text limit = .ok l → Lambda.parseSelection text more = .ok l) ∧
          ∀ k, SortKey.parse text limit = .ok k → SortKey.parse text more = .ok k) ∧
      (∀ limit, 2 * tokenCount text + 2 ≤ limit →
        Lambda.parse text limit = Lambda.parse text (2 * tokenCount text + 2) ∧
          Lambda.parseSelection text limit = Lambda.parseSelection text (2 * tokenCount text + 2) ∧
            SortKey.parse text limit = SortKey.parse text (2 * tokenCount text + 2)) ∧
        ∀ bounds : Bounds, tokenCount text < bounds.tokens →
          Lambda.parseWithin bounds text = Lambda.parse text bounds.nesting ∧
            Lambda.parseSelectionWithin bounds text = Lambda.parseSelection text bounds.nesting ∧
              SortKey.parseWithin bounds text = SortKey.parse text bounds.nesting := by
  refine ⟨fun limit more hmore => ⟨fun l hl => ?_, fun l hl => ?_, fun k hk => ?_⟩,
    fun limit henough => ⟨?_, ?_, ?_⟩, fun bounds hrounds => ⟨?_, ?_, ?_⟩⟩
  · exact ok_map_of_ok (fun e => onlyRejects_expr.readAll_mono hmore) hl
  · exact ok_map_of_ok (fun read => onlyRejects_fields.readAll_mono hmore) hl
  · exact onlyRejects_sortKey.readAll_mono hmore hk
  · exact congrArg (Except.map (Lambda.mk rowName)) (onlyRejects_expr.readAll_settled henough)
  · exact congrArg (Except.map fun read => Lambda.mk rowName (selected read))
      (onlyRejects_fields.readAll_settled henough)
  · exact onlyRejects_sortKey.readAll_settled henough
  · exact congrArg (Except.map (Lambda.mk rowName)) (onlyRejects_expr.readWithin_eq_readAll hrounds)
  · exact congrArg (Except.map fun read => Lambda.mk rowName (selected read))
      (onlyRejects_fields.readWithin_eq_readAll hrounds)
  · exact onlyRejects_sortKey.readWithin_eq_readAll hrounds

/-- Two pairs of parentheses take four levels, and what is inside them two more. -/
theorem nesting_rejects_parentheses : (Lambda.parse "((1))" 5).isOk = false ∧
    ∃ l, ∀ more, 6 ≤ more → Lambda.parse "((1))" more = .ok l := by
  refine ⟨by decide +kernel, ?_⟩
  have hread : (Lambda.parse "((1))" 6).isOk = true := by decide +kernel
  cases hl : Lambda.parse "((1))" 6 with
  | error e =>
      rw [hl] at hread
      cases hread
  | ok l => exact ⟨l, fun more hmore => ((nesting_only_rejects "((1))").1 6 more hmore).1 l hl⟩

end Parser

end ResourceQuery
