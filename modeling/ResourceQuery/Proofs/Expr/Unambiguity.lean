import ResourceQuery.Proofs.Expr.Derivation

set_option autoImplicit false

/-! # The grammar is unambiguous

Tokens have at most one derivation. Since members, aggregates and infix operators are put on the right of
what stands before them, derivations of the same tokens need not have parts in common at their ends; but
they have them at their starts. So what is shown by induction is about forms that start at the same place
and may end at different ones: one of them grows into the other by productions on its right
(`Form.compares`). A form that stops where nothing may be put behind it does not grow any further
(`Form.eq_of_grows`).
-/

open ResourceQuery.Parser (Detached leadOperator? not_same_of_function)

namespace ResourceQuery

namespace Form

/-! ## Growth to the right -/

/-- The second form is the first with one production on its right. -/
inductive Step : Form → Form → Prop
  | member (f : Form) (name : String) : Step f (.member f name)
  | aggregate (f : Form) (text : String) (a : Aggregate) : Step f (.aggregate f text a)
  | aggregateOf (f : Form) (text : String) (a : Aggregate) (shown : String) (body : Form) :
      Step f (.aggregateOf f text a shown body)
  | binary (f : Form) (text : String) (op : BinaryOp) (right : Form) : Step f (.binary f text op right)

/-- The second form is the first with productions on its right. -/
abbrev Grows : Form → Form → Prop :=
  Relation.ReflTransGen Step

/-- The tokens `rest` do not go on with a production on the right of the form, or of its last part. -/
structure Ends (f : Form) (rest : List Token) : Prop where
  noArguments : rest.head? ≠ some (.mark .leftParen)
  noMember : f.level < 7 → rest.head? ≠ some (.mark .dot)
  loose : ∀ op ∈ leadOperator? rest, op.precedence ≤ f.level

variable {f g : Form} {rest : List Token}

/-- What a step puts behind the form. -/
theorem Step.exists_more (h : Step f g) : ∃ more, g.tokens = f.tokens ++ more ∧ more ≠ [] := by
  cases h with
  | member name => exact ⟨_, rfl, List.cons_ne_nil _ _⟩
  | aggregate text a => exact ⟨_, rfl, List.cons_ne_nil _ _⟩
  | aggregateOf text a shown body => exact ⟨_, rfl, List.cons_ne_nil _ _⟩
  | binary text op right => exact ⟨_, rfl, List.cons_ne_nil _ _⟩

theorem Grows.exists_more (h : Grows f g) : ∃ more, g.tokens = f.tokens ++ more := by
  induction h with
  | refl => exact ⟨[], (List.append_nil _).symm⟩
  | tail _ hstep ih =>
      obtain ⟨more, hmore⟩ := ih
      obtain ⟨last, hlast, -⟩ := hstep.exists_more
      exact ⟨more ++ last, by rw [hlast, hmore, List.append_assoc]⟩

/-- What a derivation grew from is derived, and binds at least as tightly. -/
theorem Step.isDerived (h : Step f g) (hg : g.IsDerived) : f.IsDerived ∧ g.level ≤ f.level := by
  cases h with
  | member name => exact ⟨hg.1, hg.2⟩
  | aggregate text a => exact ⟨hg.1, hg.2.1⟩
  | aggregateOf text a shown body => exact ⟨hg.1, hg.2.1⟩
  | binary text op right => exact ⟨hg.2.1, hg.2.2.1⟩

theorem Grows.isDerived (h : Grows f g) (hg : g.IsDerived) : f.IsDerived ∧ g.level ≤ f.level := by
  induction h with
  | refl => exact ⟨hg, Nat.le_refl _⟩
  | tail _ hstep ih =>
      obtain ⟨hbefore, hlevel⟩ := hstep.isDerived hg
      obtain ⟨hf, hlevel'⟩ := ih hbefore
      exact ⟨hf, Nat.le_trans hlevel hlevel'⟩

/-- The tokens of the production on the right do not end the form, but they end its last part. -/
theorem Step.ends (h : Step f g) (hg : g.IsDerived) {more : List Token}
    (hmore : g.tokens = f.tokens ++ more) (rest : List Token) : Ends f (more ++ rest) := by
  have hsame : ∀ {ts}, g.tokens = f.tokens ++ ts → more = ts := fun hts =>
    List.append_cancel_left (hmore.symm.trans hts)
  cases h with
  | member name =>
      rw [hsame rfl]
      exact ⟨nofun, fun hlevel => absurd hg.2 (Nat.not_le_of_lt hlevel), nofun⟩
  | aggregate text a =>
      rw [hsame rfl]
      exact ⟨nofun, fun hlevel => absurd hg.2.1 (Nat.not_le_of_lt hlevel), nofun⟩
  | aggregateOf text a shown body =>
      rw [hsame rfl]
      exact ⟨nofun, fun hlevel => absurd hg.2.1 (Nat.not_le_of_lt hlevel), nofun⟩
  | binary text op right =>
      rw [hsame rfl]
      refine ⟨nofun, fun _ => nofun, fun op' hop' => ?_⟩
      have hop : leadOperator? (.word text :: right.tokens ++ rest) = some op := hg.1
      rw [hop] at hop'
      cases hop'
      exact hg.2.2.1

/-- What ends a derivation ends what it grew from, seen from further inside. -/
theorem Grows.ends (h : Grows f g) (hg : g.IsDerived) (hends : Ends g rest) {more : List Token}
    (hmore : g.tokens = f.tokens ++ more) : Ends f (more ++ rest) := by
  obtain rfl | ⟨f', hstep, hgrows⟩ := Relation.ReflTransGen.cases_head h
  · have hnil : more = [] := by simpa using hmore
    rw [hnil]
    exact hends
  · obtain ⟨first, hfirst, -⟩ := hstep.exists_more
    obtain ⟨later, hlater⟩ := Grows.exists_more hgrows
    have hboth : more = first ++ later := by
      rw [hlater, hfirst, List.append_assoc] at hmore
      exact (List.append_cancel_left hmore).symm
    rw [hboth, List.append_assoc]
    exact hstep.ends (Grows.isDerived hgrows hg).1 hfirst _

/-- The tokens `rest` do not go on with a production on the right of a form of the level `k` or above. -/
structure Stops (k : Nat) (rest : List Token) : Prop where
  detached : Detached rest
  loose : ∀ op ∈ leadOperator? rest, op.precedence < k

theorem Stops.ends {k : Nat} (h : Stops k rest) (hlevel : k ≤ f.level) : Ends f rest :=
  ⟨h.detached.noArguments, fun _ => h.detached.noMember, fun op hop =>
    Nat.le_of_lt (Nat.lt_of_lt_of_le (h.loose op hop) hlevel)⟩

theorem stops_rightParen (k : Nat) (rest : List Token) : Stops k (.mark .rightParen :: rest) :=
  ⟨⟨nofun, nofun⟩, nofun⟩

/-- Behind an argument comes a comma or the closing parenthesis. -/
theorem stops_laterTokens (fs : List Form) (rest : List Token) :
    Stops 0 (laterTokens fs ++ .mark .rightParen :: rest) := by
  cases fs with
  | nil => exact stops_rightParen 0 rest
  | cons f fs => exact ⟨⟨nofun, nofun⟩, nofun⟩

/-- What ends an operator with its operands stops the last of them. -/
theorem Ends.stops (h : Ends f rest) (hlevel : f.level < 7) {k : Nat} (hk : f.level < k ∨ 6 ≤ k) :
    Stops k rest := by
  refine ⟨⟨h.noMember hlevel, h.noArguments⟩, fun op hop => ?_⟩
  have hloose := h.loose op hop
  have hfive := precedence_le_five op
  omega

/-- **A form that stops where nothing may be put behind it at its level does not grow.** -/
theorem eq_of_grows {k : Nat} {rest' : List Token} (h : Grows f g) (hg : g.IsDerived)
    (hlevel : k ≤ g.level) (htokens : f.tokens ++ rest = g.tokens ++ rest') (hrest : Stops k rest) :
    f = g := by
  obtain heq | ⟨f', hstep, hgrows⟩ := Relation.ReflTransGen.cases_head h
  · exact heq
  · exfalso
    obtain ⟨more, hmore⟩ := Grows.exists_more hgrows
    obtain ⟨hf', hlevel'⟩ := Grows.isDerived hgrows hg
    rw [hmore] at htokens
    cases hstep with
    | member name =>
        rw [tokens, List.append_assoc, List.append_assoc] at htokens
        rw [List.append_cancel_left htokens] at hrest
        exact hrest.detached.noMember rfl
    | aggregate text a =>
        rw [tokens, List.append_assoc, List.append_assoc] at htokens
        rw [List.append_cancel_left htokens] at hrest
        exact hrest.detached.noMember rfl
    | aggregateOf text a shown body =>
        rw [tokens, List.append_assoc, List.append_assoc] at htokens
        rw [List.append_cancel_left htokens] at hrest
        exact hrest.detached.noMember rfl
    | binary text op right =>
        rw [tokens, List.append_assoc, List.append_assoc] at htokens
        have hop : leadOperator? rest = some op := by
          rw [List.append_cancel_left htokens]
          exact hf'.1
        -- the operator binds at least as tightly as what has grown from here
        exact absurd (hrest.loose op hop) (Nat.not_lt_of_le (Nat.le_trans hlevel hlevel'))

/-! ## Where a form starts -/

/-- The form does not start with another one. -/
def IsHead : Form → Prop
  | .member _ _ => False
  | .aggregate _ _ _ => False
  | .aggregateOf _ _ _ _ _ => False
  | .binary _ _ _ _ => False
  | _ => True

theorem exists_head (f : Form) : ∃ h, IsHead h ∧ Grows h f := by
  induction f using Form.rec (motive_2 := fun _ => True) with
  | nil => trivial
  | cons => trivial
  | member target name ih =>
      obtain ⟨h, hhead, hgrows⟩ := ih
      exact ⟨h, hhead, hgrows.tail (.member target name)⟩
  | aggregate target text a ih =>
      obtain ⟨h, hhead, hgrows⟩ := ih
      exact ⟨h, hhead, hgrows.tail (.aggregate target text a)⟩
  | aggregateOf target text a shown body ih _ =>
      obtain ⟨h, hhead, hgrows⟩ := ih
      exact ⟨h, hhead, hgrows.tail (.aggregateOf target text a shown body)⟩
  | binary left text op right ih _ =>
      obtain ⟨h, hhead, hgrows⟩ := ih
      exact ⟨h, hhead, hgrows.tail (.binary left text op right)⟩
  | _ =>
      refine ⟨_, ?_, .refl⟩
      trivial

/-! ## Derivations that start at the same place -/

/-- Of the form and any other derivation that starts at the same place, one grows into the other. -/
def Compares (f : Form) : Prop :=
  ∀ ⦃g : Form⦄ ⦃rest rest' : List Token⦄, f.IsDerived → g.IsDerived →
    f.tokens ++ rest = g.tokens ++ rest' → Ends f rest → Ends g rest' → Grows f g ∨ Grows g f

/-- Of the form and any other derivation that starts at the same place, the other grows into it if it is
a head. -/
def ComparesHeads (f : Form) : Prop :=
  ∀ ⦃g : Form⦄ ⦃rest rest' : List Token⦄, IsHead g → f.IsDerived → g.IsDerived →
    f.tokens ++ rest = g.tokens ++ rest' → Ends f rest → Ends g rest' → f = g

/-- What a head is compared with is what the other derivation starts with. -/
theorem ComparesHeads.compares (h : ComparesHeads f) : Compares f := by
  intro g rest rest' hf hg htokens hends hends'
  obtain ⟨g', hhead, hgrows⟩ := exists_head g
  obtain ⟨more, hmore⟩ := Grows.exists_more hgrows
  have htokens' : f.tokens ++ rest = g'.tokens ++ (more ++ rest') := by
    rw [htokens, hmore, List.append_assoc]
  have heq : f = g' := h hhead hf (Grows.isDerived hgrows hg).1 htokens' hends
    (Grows.ends hgrows hg hends' hmore)
  rw [heq]
  exact .inl hgrows

/-- Two derivations that start at the same place and may not go on at their level are equal. -/
theorem Compares.eq {k : Nat} {rest' : List Token} (h : Compares f) (hf : f.IsDerived)
    (hg : g.IsDerived) (htokens : f.tokens ++ rest = g.tokens ++ rest') (hlevel : k ≤ f.level)
    (hlevel' : k ≤ g.level) (hrest : Stops k rest) (hrest' : Stops k rest') : f = g := by
  obtain hgrows | hgrows := h hf hg htokens (hrest.ends hlevel) (hrest'.ends hlevel')
  · exact eq_of_grows hgrows hg hlevel' htokens hrest
  · exact (eq_of_grows hgrows hf hlevel htokens.symm hrest').symm

/-! ### Heads -/

theorem comparesHeads_literal (t : Token) : ComparesHeads (.literal t) := by
  intro g rest rest' hhead hf hg htokens hends hends'
  cases g with
  | literal t' =>
      cases htokens
      rfl
  | member _ _ | aggregate _ _ _ | aggregateOf _ _ _ _ _ | binary _ _ _ _ => exact hhead.elim
  | _ =>
      -- no other head starts with a constant
      cases htokens
      cases hf

theorem comparesHeads_negative (t : Token) : ComparesHeads (.negative t) := by
  intro g rest rest' hhead hf hg htokens hends hends'
  cases g with
  | literal t' =>
      cases htokens
      cases hg
  | negative t' =>
      cases htokens
      rfl
  | negate operand =>
      have hstart : Parser.isNumberToken t = true := by
        obtain ⟨l, hl⟩ := Option.isSome_iff_exists.mp hf
        exact Token.isNumberToken_of_negated? hl
      obtain ⟨t', more, hmore⟩ := List.exists_cons_of_ne_nil operand.tokens_ne_nil
      have hnot := hg.2.2
      rw [startsAtNumber, hmore] at hnot
      rw [tokens, tokens, hmore] at htokens
      cases htokens
      exact absurd hstart (by simpa using hnot)
  | word _ | group _ | call _ _ _ | not _ _ => cases htokens
  | member _ _ | aggregate _ _ _ | aggregateOf _ _ _ _ _ | binary _ _ _ _ => exact hhead.elim

theorem comparesHeads_word (text : String) : ComparesHeads (.word text) := by
  intro g rest rest' hhead hf hg htokens hends hends'
  cases g with
  | literal t' =>
      cases htokens
      cases hg
  | word text' =>
      cases htokens
      rfl
  | call text' function arguments =>
      cases htokens
      exact absurd rfl hends.noArguments
  | not text' operand =>
      cases htokens
      rw [IsDerived, hg.1] at hf
      cases hf
  | negative _ | group _ | negate _ => cases htokens
  | member _ _ | aggregate _ _ _ | aggregateOf _ _ _ _ _ | binary _ _ _ _ => exact hhead.elim

theorem Compares.group (h : Compares f) : ComparesHeads (.group f) := by
  intro g rest rest' hhead hf hg htokens hends hends'
  cases g with
  | literal t' =>
      cases htokens
      cases hg
  | group inner =>
      have hinside : f.tokens ++ .mark .rightParen :: rest = inner.tokens ++ .mark .rightParen :: rest' := by
        simpa [tokens] using htokens
      have heq : f = inner := h.eq hf hg hinside (Nat.zero_le _) (Nat.zero_le _)
        (stops_rightParen 0 rest) (stops_rightParen 0 rest')
      rw [heq]
  | negative _ | word _ | call _ _ _ | not _ _ | negate _ => cases htokens
  | member _ _ | aggregate _ _ _ | aggregateOf _ _ _ _ _ | binary _ _ _ _ => exact hhead.elim

/-- Arguments that start at the same place, behind another one, and go on to a parenthesis are equal. -/
theorem eq_of_laterTokens {fs gs : List Form} (h : ∀ f ∈ fs, Compares f) (hfs : AreDerived fs)
    (hgs : AreDerived gs) {rest' : List Token}
    (htokens : laterTokens fs ++ .mark .rightParen :: rest =
      laterTokens gs ++ .mark .rightParen :: rest') : fs = gs := by
  induction fs generalizing gs with
  | nil =>
      cases gs with
      | nil => rfl
      | cons g gs => cases htokens
  | cons f fs ih =>
      cases gs with
      | nil => cases htokens
      | cons g gs =>
          have hfirst : f.tokens ++ (laterTokens fs ++ .mark .rightParen :: rest) =
              g.tokens ++ (laterTokens gs ++ .mark .rightParen :: rest') := by
            simpa [laterTokens] using htokens
          have heq := (h f List.mem_cons_self).eq hfs.1 hgs.1 hfirst (Nat.zero_le _) (Nat.zero_le _)
            (stops_laterTokens fs rest) (stops_laterTokens gs rest')
          rw [heq] at hfirst
          rw [heq, ih (fun g hg => h g (List.mem_cons_of_mem _ hg)) hfs.2 hgs.2
            (List.append_cancel_left hfirst)]

/-- No function takes no arguments. -/
theorem ne_nil_of_takes {function : TextFunction} {fs : List Form}
    (h : function.takes fs.length = true) : fs ≠ [] := by
  rintro rfl
  revert h
  cases function <;> decide

theorem comparesHeads_call {text : String} {function : TextFunction} {fs : List Form}
    (h : ∀ f ∈ fs, Compares f) : ComparesHeads (.call text function fs) := by
  intro g rest rest' hhead hf hg htokens hends hends'
  obtain ⟨hname, htakes, hfs⟩ := hf
  cases g with
  | literal t' =>
      cases htokens
      cases hg
  | word text' =>
      cases htokens
      exact absurd rfl hends'.noArguments
  | call text' function' gs =>
      obtain ⟨hname', htakes', hgs⟩ := hg
      obtain ⟨first, fs, rfl⟩ := List.exists_cons_of_ne_nil (ne_nil_of_takes htakes)
      obtain ⟨first', gs, rfl⟩ := List.exists_cons_of_ne_nil (ne_nil_of_takes htakes')
      have hlists : text = text' ∧ laterTokens (first :: fs) ++ .mark .rightParen :: rest =
          laterTokens (first' :: gs) ++ .mark .rightParen :: rest' := by
        simpa [tokens, argumentTokens, laterTokens] using htokens
      obtain ⟨rfl, hlists⟩ := hlists
      rw [eq_of_laterTokens h hfs hgs hlists, Option.some.inj (hname.symm.trans hname')]
  | not text' operand =>
      have hword : text = text' := Token.word.inj (List.head_eq_of_cons_eq htokens)
      have hnot := hg.1
      rw [← hword, not_same_of_function hname] at hnot
      cases hnot
  | negative _ | group _ | negate _ => cases htokens
  | member _ _ | aggregate _ _ _ | aggregateOf _ _ _ _ _ | binary _ _ _ _ => exact hhead.elim

theorem Compares.not (h : Compares f) (text : String) : ComparesHeads (.not text f) := by
  intro g rest rest' hhead hf hg htokens hends hends'
  obtain ⟨hnot, hf, hlevel⟩ := hf
  cases g with
  | literal t' =>
      cases htokens
      cases hg
  | word text' =>
      cases htokens
      rw [IsDerived, hnot] at hg
      cases hg
  | call text' function gs =>
      have hword : text = text' := Token.word.inj (List.head_eq_of_cons_eq htokens)
      rw [hword, not_same_of_function hg.1] at hnot
      cases hnot
  | not text' operand =>
      obtain ⟨hnot', hg, hlevel'⟩ := hg
      obtain ⟨rfl, hbehind⟩ : text = text' ∧ f.tokens ++ rest = operand.tokens ++ rest' := by
        simpa [tokens] using htokens
      have heq : f = operand := h.eq hf hg hbehind hlevel hlevel'
        (hends.stops (Nat.lt_succ_self 6) (.inr (Nat.le_refl 6)))
        (hends'.stops (Nat.lt_succ_self 6) (.inr (Nat.le_refl 6)))
      rw [heq]
  | negative _ | group _ | negate _ => cases htokens
  | member _ _ | aggregate _ _ _ | aggregateOf _ _ _ _ _ | binary _ _ _ _ => exact hhead.elim

theorem Compares.negate (h : Compares f) : ComparesHeads (.negate f) := by
  intro g rest rest' hhead hf hg htokens hends hends'
  cases g with
  | literal t' =>
      cases htokens
      cases hg
  | negative t' =>
      have hthis : IsHead (.negate f) := hhead
      exact (comparesHeads_negative t' hthis hg hf htokens.symm hends' hends).symm
  | negate operand =>
      obtain ⟨hf, hlevel, -⟩ := hf
      obtain ⟨hg, hlevel', -⟩ := hg
      have hbehind : f.tokens ++ rest = operand.tokens ++ rest' := by
        simpa [tokens] using htokens
      have heq : f = operand := h.eq hf hg hbehind hlevel hlevel'
        (hends.stops (Nat.lt_succ_self 6) (.inr (Nat.le_refl 6)))
        (hends'.stops (Nat.lt_succ_self 6) (.inr (Nat.le_refl 6)))
      rw [heq]
  | word _ | group _ | call _ _ _ | not _ _ => cases htokens
  | member _ _ | aggregate _ _ _ | aggregateOf _ _ _ _ _ | binary _ _ _ _ => exact hhead.elim

/-! ### Steps -/

/-- A form that ends with a production on the right of `f` compares with everything if it compares with
every form that has another production there. -/
theorem Compares.step {last : Form} (h : Compares f) (hstep : Step f last)
    (hsteps : ∀ ⦃next : Form⦄ ⦃rest rest' : List Token⦄, Step f next → last.IsDerived → next.IsDerived →
      last.tokens ++ rest = next.tokens ++ rest' → Ends last rest → Ends next rest' → last = next) :
    Compares last := by
  intro g rest rest' hlast hg htokens hends hends'
  obtain ⟨more, hmore, -⟩ := hstep.exists_more
  have hbefore : f.tokens ++ (more ++ rest) = g.tokens ++ rest' := by
    rw [← htokens, hmore, List.append_assoc]
  obtain hgrows | hgrows := h (hstep.isDerived hlast).1 hg hbefore (hstep.ends hlast hmore rest) hends'
  · obtain rfl | ⟨next, hnext, hgrows⟩ := Relation.ReflTransGen.cases_head hgrows
    · exact .inr (.single hstep)
    · -- both go on behind `f`
      obtain ⟨later, hlater⟩ := Grows.exists_more hgrows
      have htokens' : last.tokens ++ rest = next.tokens ++ (later ++ rest') := by
        rw [htokens, hlater, List.append_assoc]
      rw [hsteps hnext hlast (Grows.isDerived hgrows hg).1 htokens' hends
        (Grows.ends hgrows hg hends' hlater)]
      exact .inl hgrows
  · exact .inr (hgrows.tail hstep)

/-- What follows `f` in the one is what follows it in the other. -/
theorem more_eq {last next : Form} {more more' rest' : List Token} (hlast : last.tokens = f.tokens ++ more)
    (hnext : next.tokens = f.tokens ++ more')
    (htokens : last.tokens ++ rest = next.tokens ++ rest') : more ++ rest = more' ++ rest' := by
  rw [hlast, hnext, List.append_assoc, List.append_assoc] at htokens
  exact List.append_cancel_left htokens

theorem Compares.member (h : Compares f) (name : String) : Compares (.member f name) := by
  refine h.step (.member f name) fun next rest rest' hnext hlast hg htokens hends hends' => ?_
  cases hnext with
  | member name' =>
      have hmore := more_eq rfl rfl htokens
      cases hmore
      rfl
  | aggregate text a =>
      have hmore := more_eq rfl rfl htokens
      cases hmore
      exact absurd rfl hends.noArguments
  | aggregateOf text a shown body =>
      have hmore := more_eq rfl rfl htokens
      cases hmore
      exact absurd rfl hends.noArguments
  | binary text op right =>
      have hmore := more_eq rfl rfl htokens
      cases hmore

theorem Compares.aggregate (h : Compares f) (text : String) (a : Aggregate) :
    Compares (.aggregate f text a) := by
  refine h.step (.aggregate f text a) fun next rest rest' hnext hlast hg htokens hends hends' => ?_
  cases hnext with
  | member name =>
      have hmore := more_eq rfl rfl htokens
      cases hmore
      exact absurd rfl hends'.noArguments
  | aggregate text' a' =>
      have hmore := more_eq rfl rfl htokens
      cases hmore
      rw [Option.some.inj (hlast.2.2.symm.trans hg.2.2)]
  | aggregateOf text' a' shown body =>
      have hmore := more_eq rfl rfl htokens
      cases hmore
  | binary text' op right =>
      have hmore := more_eq rfl rfl htokens
      cases hmore

theorem Compares.aggregateOf (h : Compares f) (text : String) (a : Aggregate) (shown : String)
    {body : Form} (hbody : Compares body) : Compares (.aggregateOf f text a shown body) := by
  refine h.step (.aggregateOf f text a shown body)
    fun next rest rest' hnext hlast hg htokens hends hends' => ?_
  cases hnext with
  | member name =>
      have hmore := more_eq rfl rfl htokens
      cases hmore
      exact absurd rfl hends'.noArguments
  | aggregate text' a' =>
      have hmore := more_eq rfl rfl htokens
      cases hmore
  | aggregateOf text' a' shown' body' =>
      have hmore := more_eq rfl rfl htokens
      obtain ⟨rfl, rfl, hinside⟩ : text = text' ∧ shown = shown' ∧
          body.tokens ++ .mark .rightParen :: rest = body'.tokens ++ .mark .rightParen :: rest' := by
        simpa using hmore
      have heq : body = body' := hbody.eq hlast.2.2.2 hg.2.2.2 hinside (Nat.zero_le _) (Nat.zero_le _)
        (stops_rightParen 0 rest) (stops_rightParen 0 rest')
      rw [heq, Option.some.inj (hlast.2.2.1.symm.trans hg.2.2.1)]
  | binary text' op right =>
      have hmore := more_eq rfl rfl htokens
      cases hmore

theorem Compares.binary (h : Compares f) (text : String) (op : BinaryOp) {right : Form}
    (hright : Compares right) : Compares (.binary f text op right) := by
  refine h.step (.binary f text op right) fun next rest rest' hnext hlast hg htokens hends hends' => ?_
  cases hnext with
  | binary text' op' right' =>
      obtain ⟨rfl, hbehind⟩ : text = text' ∧ right.tokens ++ rest = right'.tokens ++ rest' := by
        simpa using more_eq rfl rfl htokens
      obtain rfl : op = op' := Option.some.inj (hlast.1.symm.trans hg.1)
      have hlevel : op.precedence < 7 := by have := precedence_le_five op; omega
      have heq : right = right' := hright.eq hlast.2.2.2.1 hg.2.2.2.1 hbehind hlast.2.2.2.2 hg.2.2.2.2
        (hends.stops hlevel (.inl (Nat.lt_succ_self _))) (hends'.stops hlevel (.inl (Nat.lt_succ_self _)))
      rw [heq]
  | member name =>
      have hmore := more_eq rfl rfl htokens
      cases hmore
  | aggregate text' a =>
      have hmore := more_eq rfl rfl htokens
      cases hmore
  | aggregateOf text' a shown body =>
      have hmore := more_eq rfl rfl htokens
      cases hmore

/-! ## All derivations -/

mutual

/-- **Of two derivations that start at the same place, one grows into the other.** -/
theorem compares : (f : Form) → Compares f
  | .literal t => (comparesHeads_literal t).compares
  | .negative t => (comparesHeads_negative t).compares
  | .word text => (comparesHeads_word text).compares
  | .group inner => (compares inner).group.compares
  | .call _ _ arguments => (comparesHeads_call (compareAll arguments)).compares
  | .member target name => (compares target).member name
  | .aggregate target text a => (compares target).aggregate text a
  | .aggregateOf target text a shown body => (compares target).aggregateOf text a shown (compares body)
  | .not text operand => ((compares operand).not text).compares
  | .negate operand => (compares operand).negate.compares
  | .binary left text op right => (compares left).binary text op (compares right)

theorem compareAll : (fs : List Form) → ∀ f ∈ fs, Compares f
  | [] => nofun
  | f :: rest => List.forall_mem_cons.mpr ⟨compares f, compareAll rest⟩

end

/-- **Tokens have one derivation at most.** -/
theorem eq_of_tokens (hf : f.IsDerived) (hg : g.IsDerived) (htokens : f.tokens = g.tokens) : f = g := by
  have hall : f.tokens ++ [] = g.tokens ++ [] := by rw [htokens]
  have hends : Stops 0 [] := ⟨⟨nofun, nofun⟩, nofun⟩
  exact (compares f).eq hf hg hall (Nat.zero_le _) (Nat.zero_le _) hends hends

end Form

end ResourceQuery
