import ResourceQuery.Expr.Lambda
import ResourceQuery.Proofs.Expr.Congruence

set_option autoImplicit false

/-! # Lambdas from builders

A lambda can be given as a function from its argument to its body. While the body is made, a placeholder stands
for the argument; then the first name that the body does not use takes its place (`Lambda.close`). Builders
nest: inner ones are done while the placeholders of those around are still in the body, and so the names
`_p0`, `_p1`, … are given out from the inside. A placeholder tells where in memory its builder is at work; so no
two builders that run at the same time share one, and it is no name that the user could have thought of.

What is written with builders is a `Draft`. It says which builder an argument belongs to, and says nothing of
the names that the builders will choose. `Draft.build` runs the builders, and `Draft.named` gives each of them a
name beforehand. Both bind the same variables at the same places (`Draft.nameless_build`): what is known of the
names around a place is that arguments and the names of the user are resolved alike, and builders keep that
because the closed lambda resolves its body as the placeholder did (`Lambda.nameless_close`).
-/

namespace ResourceQuery

/-! ## The search for a name -/

theorem freshFrom_eq (taken : List String) (count n : Nat) :
    ∃ m, n ≤ m ∧ m ≤ n + count ∧ freshFrom taken count n = numberedName m ∧
      ∀ j, n ≤ j → j < m → numberedName j ∈ taken := by
  induction count generalizing n with
  | zero =>
      exact ⟨n, Nat.le_refl n, Nat.le_refl n, rfl, fun j hlow hhigh => absurd hhigh (Nat.not_lt.mpr hlow)⟩
  | succ count ih =>
      rw [freshFrom]
      by_cases hn : numberedName n ∈ taken
      · obtain ⟨m, hlow, hhigh, heq, hbefore⟩ := ih (n + 1)
        refine ⟨m, by omega, by omega, by rw [if_pos hn, heq], fun j hj hjm => ?_⟩
        rcases Nat.eq_or_lt_of_le hj with rfl | hlt
        · exact hn
        · exact hbefore j hlt hjm
      · exact ⟨n, Nat.le_refl n, Nat.le_add_right n _, if_neg hn,
          fun j hlow hhigh => absurd hhigh (Nat.not_lt.mpr hlow)⟩

/-- **The search for a name ends**, after no more steps than names are taken, with the first one that is not. -/
theorem freshName_eq (taken : List String) :
    ∃ m ≤ taken.length, freshName taken = numberedName m ∧ numberedName m ∉ taken ∧
      ∀ j < m, numberedName j ∈ taken := by
  obtain ⟨m, -, hle, heq, hbefore⟩ := freshFrom_eq taken taken.length 0
  rw [Nat.zero_add] at hle
  have hnew := freshName_not_mem taken
  rw [freshName, heq] at hnew
  exact ⟨m, hle, heq, hnew, fun j hj => hbefore j (Nat.zero_le j) hj⟩

/-! ## Renaming and names -/

namespace Expr

mutual

/-- Renaming is of free variables. -/
theorem boundNames_rename : (e : Expr) → (ρ : Renaming) → (rename ρ e).boundNames = e.boundNames
  | .param _, _ => rfl
  | .constant _, _ => rfl
  | .member target _, ρ => boundNames_rename target ρ
  | .unary _ operand, ρ => boundNames_rename operand ρ
  | .binary _ left right, ρ =>
      congrArg₂ (· ++ ·) (boundNames_rename left ρ) (boundNames_rename right ρ)
  | .call _ arguments, ρ => boundNamesOfList_rename arguments ρ
  | .aggregate target _, ρ => boundNames_rename target ρ
  | .aggregateOf target _ x body, ρ =>
      congrArg₂ (· ++ x :: ·) (boundNames_rename target ρ) (boundNames_rename body (ρ.without x))
  | .row fields, ρ => boundNamesOfFields_rename fields ρ

theorem boundNamesOfList_rename : (es : List Expr) → (ρ : Renaming) →
    boundNamesOfList (renameList ρ es) = boundNamesOfList es
  | [], _ => rfl
  | e :: rest, ρ => congrArg₂ (· ++ ·) (boundNames_rename e ρ) (boundNamesOfList_rename rest ρ)

theorem boundNamesOfFields_rename : (fs : List (String × Expr)) → (ρ : Renaming) →
    boundNamesOfFields (renameFields ρ fs) = boundNamesOfFields fs
  | [], _ => rfl
  | (_, e) :: rest, ρ => congrArg₂ (· ++ ·) (boundNames_rename e ρ) (boundNamesOfFields_rename rest ρ)

end

theorem boundNames_subset_names (e : Expr) : e.boundNames ⊆ e.names := by
  intro y hy
  have hmem := bound_mem_names_rename e [] hy
  rwa [rename_nil] at hmem

mutual

/-- A name that no lambda binds occurs only where it is free. -/
theorem count_names {y : String} : (e : Expr) → y ∉ e.boundNames → e.names.count y = e.freeNames.count y
  | .param _, _ => rfl
  | .constant _, _ => rfl
  | .member target _, h => count_names target h
  | .unary _ operand, h => count_names operand h
  | .binary _ left right, h => by
      rw [boundNames, List.mem_append, not_or] at h
      rw [names, freeNames, List.count_append, List.count_append, count_names left h.1, count_names right h.2]
  | .call _ arguments, h => count_namesOfList arguments h
  | .aggregate target _, h => count_names target h
  | .aggregateOf target _ x body, h => by
      rw [boundNames, List.mem_append, List.mem_cons, not_or, not_or] at h
      obtain ⟨htarget, hvariable, hbody⟩ := h
      rw [names, freeNames, List.count_append, List.count_append, count_names target htarget,
        List.count_cons_of_ne (Ne.symm hvariable), count_names body hbody,
        List.count_filter (by simpa using hvariable)]
  | .row fields, h => count_namesOfFields fields h

theorem count_namesOfList {y : String} : (es : List Expr) → y ∉ boundNamesOfList es →
    (namesOfList es).count y = (freeNamesOfList es).count y
  | [], _ => rfl
  | e :: rest, h => by
      rw [boundNamesOfList, List.mem_append, not_or] at h
      rw [namesOfList, freeNamesOfList, List.count_append, List.count_append, count_names e h.1,
        count_namesOfList rest h.2]

theorem count_namesOfFields {y : String} : (fs : List (String × Expr)) → y ∉ boundNamesOfFields fs →
    (namesOfFields fs).count y = (freeNamesOfFields fs).count y
  | [], _ => rfl
  | (_, e) :: rest, h => by
      rw [boundNamesOfFields, List.mem_append, not_or] at h
      rw [namesOfFields, freeNamesOfFields, List.count_append, List.count_append, count_names e h.1,
        count_namesOfFields rest h.2]

end

end Expr

/-! ## One builder -/

namespace Lambda

open Expr Occurrence

/-- No variable in the body gives way to the new one. -/
theorem body_close (placeholder : String) (e : Expr) :
    (close placeholder e).body = rename [(placeholder, (close placeholder e).parameter)] e :=
  (substitutes_iff.mp (substitutes_fresh e (freshName_not_mem e.names))).symm

theorem parameter_not_mem_boundNames (placeholder : String) (e : Expr) :
    (close placeholder e).parameter ∉ (close placeholder e).body.boundNames := by
  rw [body_close, boundNames_rename]
  exact fun hmem => freshName_not_mem e.names (boundNames_subset_names e hmem)

/-- **The closed lambda binds what the placeholder stood for**, and nothing else. -/
theorem nameless_close (placeholder : String) (e : Expr) (scope : List String) :
    (close placeholder e).body.nameless ((close placeholder e).parameter :: scope) =
      e.nameless (placeholder :: scope) := by
  have hnew : (close placeholder e).parameter ∉ e.names := freshName_not_mem e.names
  rw [body_close]
  generalize (close placeholder e).parameter = fresh at hnew
  refine nameless_rename e ?_
  rw [resolve_cons, resolve_cons]
  have hbefore : Tracks [] (under ∘ resolve scope) (under ∘ resolve scope)
      (e.freeNames.filter (· ≠ placeholder)) e.boundNames := Tracks.of_eq fun _ _ => rfl
  have hunused (y : String) (hy : y ∈ e.freeNames) : y ≠ fresh :=
    fun heq => hnew (heq ▸ freeNames_subset_names e hy)
  exact hbefore.rebind (fun hmem => hnew (boundNames_subset_names e hmem)) hunused _

/-- Outside of the lambda, the placeholder is gone and all else is as before. -/
theorem freeNames_close (placeholder : String) (e : Expr) :
    (close placeholder e).body.freeNames.filter (· ≠ (close placeholder e).parameter) =
      e.freeNames.filter (· ≠ placeholder) := by
  have hforms := congrArg Nameless.freeNames (nameless_close placeholder e [])
  rw [freeNames_nameless, freeNames_nameless] at hforms
  simpa only [List.mem_singleton, ne_eq] using hforms

/-- Replacing a name by a new one keeps how often it occurs. -/
theorem count_flatMap_namesFor {x y : String} (names : List String) (hy : y ∉ names) :
    (names.flatMap (Nameless.namesFor x [y])).count y = names.count x := by
  induction names with
  | nil => rfl
  | cons z names ih =>
      rw [List.mem_cons, not_or] at hy
      rw [List.flatMap_cons, List.count_append, ih hy.2, Nameless.namesFor]
      by_cases hz : z = x
      · rw [if_pos hz, hz, List.count_cons_self, List.count_cons_self, List.count_nil, Nat.add_comm]
      · rw [if_neg hz, List.count_cons_of_ne (Ne.symm hy.1), List.count_cons_of_ne hz, List.count_nil,
          Nat.zero_add]

/-- The variable occurs in the body as often as the placeholder was free. -/
theorem count_parameter_close (placeholder : String) (e : Expr) :
    (close placeholder e).body.names.count (close placeholder e).parameter = e.freeNames.count placeholder := by
  rw [count_names _ (parameter_not_mem_boundNames placeholder e)]
  have hnew : (close placeholder e).parameter ∉ e.freeNames :=
    fun hmem => freshName_not_mem e.names (freeNames_subset_names e hmem)
  have hbody : (close placeholder e).body.freeNames =
      e.freeNames.flatMap (Nameless.namesFor placeholder [(close placeholder e).parameter]) :=
    freeNames_substitute e placeholder _
  rw [hbody, count_flatMap_namesFor e.freeNames hnew]

end Lambda

/-! ## Drafts -/

/-- An expression that is written with builders, which are told apart by numbers. -/
inductive Draft where
  /-- The argument of a builder. -/
  | argument (builder : Nat)
  /-- A variable that the user named. -/
  | param (name : String)
  | constant (literal : Literal)
  | member (target : Draft) (name : String)
  | unary (op : UnaryOp) (operand : Draft)
  | binary (op : BinaryOp) (left right : Draft)
  | call (function : TextFunction) (arguments : List Draft)
  | aggregate (target : Draft) (aggregate : Aggregate)
  /-- An aggregate over a lambda whose variable the user named. -/
  | aggregateOf (target : Draft) (aggregate : Aggregate) (parameter : String) (body : Draft)
  /-- An aggregate over a lambda from a builder. -/
  | aggregateBy (target : Draft) (aggregate : Aggregate) (builder : Nat) (body : Draft)
  | row (fields : List (String × Draft))

namespace Draft

mutual

/-- The expression, where `name` stands for the arguments and `lambda` makes lambdas of the bodies. -/
def expr (name : Nat → String) (lambda : Nat → Expr → Lambda) : Draft → Expr
  | .argument i => .param (name i)
  | .param x => .param x
  | .constant l => .constant l
  | .member target m => .member (expr name lambda target) m
  | .unary op operand => .unary op (expr name lambda operand)
  | .binary op left right => .binary op (expr name lambda left) (expr name lambda right)
  | .call f arguments => .call f (exprList name lambda arguments)
  | .aggregate target a => .aggregate (expr name lambda target) a
  | .aggregateOf target a x body => .aggregateOf (expr name lambda target) a x (expr name lambda body)
  | .aggregateBy target a i body =>
    let l := lambda i (expr name lambda body)
    .aggregateOf (expr name lambda target) a l.parameter l.body
  | .row fields => .row (exprFields name lambda fields)

/-- The expressions of a list of drafts. -/
def exprList (name : Nat → String) (lambda : Nat → Expr → Lambda) : List Draft → List Expr
  | [] => []
  | d :: rest => expr name lambda d :: exprList name lambda rest

/-- The expressions of the fields of a row. -/
def exprFields (name : Nat → String) (lambda : Nat → Expr → Lambda) :
    List (String × Draft) → List (String × Expr)
  | [] => []
  | (m, d) :: rest => (m, expr name lambda d) :: exprFields name lambda rest

end

mutual

/-- The names that the user gave and used. -/
def userNames : Draft → List String
  | .argument _ => []
  | .param x => [x]
  | .constant _ => []
  | .member target _ => userNames target
  | .unary _ operand => userNames operand
  | .binary _ left right => userNames left ++ userNames right
  | .call _ arguments => userNamesOfList arguments
  | .aggregate target _ => userNames target
  | .aggregateOf target _ x body => userNames target ++ x :: userNames body
  | .aggregateBy target _ _ body => userNames target ++ userNames body
  | .row fields => userNamesOfFields fields

/-- The user's names in a list of drafts. -/
def userNamesOfList : List Draft → List String
  | [] => []
  | d :: rest => userNames d ++ userNamesOfList rest

/-- The user's names in the fields of a row. -/
def userNamesOfFields : List (String × Draft) → List String
  | [] => []
  | (_, d) :: rest => userNames d ++ userNamesOfFields rest

end

mutual

/-- How often the argument of builder `k` is used. -/
def references (k : Nat) : Draft → Nat
  | .argument i => if i = k then 1 else 0
  | .param _ => 0
  | .constant _ => 0
  | .member target _ => references k target
  | .unary _ operand => references k operand
  | .binary _ left right => references k left + references k right
  | .call _ arguments => referencesOfList k arguments
  | .aggregate target _ => references k target
  | .aggregateOf target _ _ body => references k target + references k body
  | .aggregateBy target _ _ body => references k target + references k body
  | .row fields => referencesOfFields k fields

/-- How often the argument is used in a list of drafts. -/
def referencesOfList (k : Nat) : List Draft → Nat
  | [] => 0
  | d :: rest => references k d + referencesOfList k rest

/-- How often the argument is used in the fields of a row. -/
def referencesOfFields (k : Nat) : List (String × Draft) → Nat
  | [] => 0
  | (_, d) :: rest => references k d + referencesOfFields k rest

end

mutual

/-- The draft is lexically scoped below the builders `running`: an argument is used only while its builder
runs. And a builder that starts while others run gets another placeholder than they have. -/
def IsScoped (place : Nat → String) (running : List Nat) : Draft → Prop
  | .argument i => i ∈ running
  | .param _ => True
  | .constant _ => True
  | .member target _ => IsScoped place running target
  | .unary _ operand => IsScoped place running operand
  | .binary _ left right => IsScoped place running left ∧ IsScoped place running right
  | .call _ arguments => AreScoped place running arguments
  | .aggregate target _ => IsScoped place running target
  | .aggregateOf target _ _ body => IsScoped place running target ∧ IsScoped place running body
  | .aggregateBy target _ i body =>
    IsScoped place running target ∧ (∀ k ∈ running, place k ≠ place i) ∧ IsScoped place (i :: running) body
  | .row fields => FieldsAreScoped place running fields

/-- All of the drafts are lexically scoped. -/
def AreScoped (place : Nat → String) (running : List Nat) : List Draft → Prop
  | [] => True
  | d :: rest => IsScoped place running d ∧ AreScoped place running rest

/-- All fields of a row are lexically scoped. -/
def FieldsAreScoped (place : Nat → String) (running : List Nat) : List (String × Draft) → Prop
  | [] => True
  | (_, d) :: rest => IsScoped place running d ∧ FieldsAreScoped place running rest

end

/-- What the draft is when its builders have run, with their placeholders. -/
def build (place : Nat → String) (d : Draft) : Expr :=
  d.expr place fun i => Lambda.close (place i)

/-- What the draft is with names for the arguments of its builders. -/
def named (ν : Nat → String) (d : Draft) : Expr :=
  d.expr ν fun i => Lambda.mk (ν i)

/-- The lambda that builder `i` makes with the draft for its body. -/
def builtBy (d : Draft) (place : Nat → String) (i : Nat) : Lambda :=
  Lambda.close (place i) (d.build place)

/-- The lambda over the draft with names for the arguments. -/
def namedBy (d : Draft) (ν : Nat → String) (i : Nat) : Lambda :=
  ⟨ν i, d.named ν⟩

/-! ## What the names are resolved to -/

open Occurrence

variable {place ν : Nat → String} {running : List Nat} {scope scope' : List String}

/-- **What is known of the names around a place, with the builders run and with names for their arguments**: the
arguments of the builders around are bound by the same lambdas in both, and so are the names that are not for
arguments. -/
structure Matches (place ν : Nat → String) (running : List Nat) (scope scope' : List String) : Prop where
  argument : ∀ k ∈ running, resolve scope (place k) = resolve scope' (ν k)
  user : ∀ x, (∀ k, place k ≠ x) → (∀ k, ν k ≠ x) → resolve scope x = resolve scope' x

namespace Matches

theorem nil : Matches place ν [] [] [] where
  argument := nofun
  user := fun _ _ _ => rfl

/-- Under a lambda whose variable the user named. -/
theorem bindUser (hm : Matches place ν running scope scope') {x : String} (hplace : ∀ k, place k ≠ x)
    (hν : ∀ k, ν k ≠ x) : Matches place ν running (x :: scope) (x :: scope') where
  argument := by
    intro k hk
    rw [resolve_ne scope (hplace k), resolve_ne scope' (hν k), hm.argument k hk]
  user := by
    intro y hy hy'
    by_cases hyx : y = x
    · rw [hyx, resolve_self, resolve_self]
    · rw [resolve_ne scope hyx, resolve_ne scope' hyx, hm.user y hy hy']

/-- Under the lambda of a builder. -/
theorem bindBuilder (hm : Matches place ν running scope scope') (hν : Function.Injective ν) {i : Nat}
    (hi : ∀ k ∈ running, place k ≠ place i) :
    Matches place ν (i :: running) (place i :: scope) (ν i :: scope') where
  argument := by
    intro k hk
    rcases List.mem_cons.mp hk with rfl | hk
    · rw [resolve_self, resolve_self]
    · have hother : ν k ≠ ν i := fun heq => hi k hk (congrArg place (hν heq))
      rw [resolve_ne scope (hi k hk), resolve_ne scope' hother, hm.argument k hk]
  user := by
    intro y hy hy'
    rw [resolve_ne scope (Ne.symm (hy i)), resolve_ne scope' (Ne.symm (hy' i)), hm.user y hy hy']

end Matches

/-! ## Running the builders -/

mutual

/-- **The builders bind what names for their arguments would bind.** -/
theorem nameless_build (hν : Function.Injective ν) {running : List Nat} {scope scope' : List String} :
    (d : Draft) → d.IsScoped place running → (∀ k, place k ∉ d.userNames) → (∀ k, ν k ∉ d.userNames) →
    Matches place ν running scope scope' → (d.build place).nameless scope = (d.named ν).nameless scope'
  | .argument i, hs, _, _, hm => congrArg Nameless.var (hm.argument i hs)
  | .param x, _, hp, hu, hm =>
      congrArg Nameless.var (hm.user x (fun k heq => hp k (heq ▸ List.mem_singleton_self _))
        fun k heq => hu k (heq ▸ List.mem_singleton_self _))
  | .constant _, _, _, _, _ => rfl
  | .member target m, hs, hp, hu, hm =>
      congrArg (Nameless.member · m) (nameless_build hν target hs hp hu hm)
  | .unary op operand, hs, hp, hu, hm =>
      congrArg (Nameless.unary op) (nameless_build hν operand hs hp hu hm)
  | .binary op left right, hs, hp, hu, hm => by
      simp only [userNames, List.mem_append, not_or] at hp hu
      exact congrArg₂ (Nameless.binary op)
        (nameless_build hν left hs.1 (fun k => (hp k).1) (fun k => (hu k).1) hm)
        (nameless_build hν right hs.2 (fun k => (hp k).2) (fun k => (hu k).2) hm)
  | .call f arguments, hs, hp, hu, hm =>
      congrArg (Nameless.call f) (namelessList_build hν arguments hs hp hu hm)
  | .aggregate target a, hs, hp, hu, hm =>
      congrArg (Nameless.aggregate · a) (nameless_build hν target hs hp hu hm)
  | .aggregateOf target a x body, hs, hp, hu, hm => by
      simp only [userNames, List.mem_append, List.mem_cons, not_or] at hp hu
      exact congrArg₂ (Nameless.aggregateOf · a ·)
        (nameless_build hν target hs.1 (fun k => (hp k).1) (fun k => (hu k).1) hm)
        (nameless_build hν body hs.2 (fun k => (hp k).2.2) (fun k => (hu k).2.2)
          (hm.bindUser (fun k => (hp k).2.1) fun k => (hu k).2.1))
  | .aggregateBy target a i body, hs, hp, hu, hm => by
      simp only [userNames, List.mem_append, not_or] at hp hu
      refine congrArg₂ (Nameless.aggregateOf · a ·)
        (nameless_build hν target hs.1 (fun k => (hp k).1) (fun k => (hu k).1) hm) ?_
      -- the new variable of the lambda is resolved as the placeholder was
      exact (Lambda.nameless_close (place i) (body.build place) scope).trans
        (nameless_build hν body hs.2.2 (fun k => (hp k).2) (fun k => (hu k).2) (hm.bindBuilder hν hs.2.1))
  | .row fields, hs, hp, hu, hm =>
      congrArg Nameless.row (namelessFields_build hν fields hs hp hu hm)

theorem namelessList_build (hν : Function.Injective ν) {running : List Nat} {scope scope' : List String} :
    (ds : List Draft) → AreScoped place running ds → (∀ k, place k ∉ userNamesOfList ds) →
    (∀ k, ν k ∉ userNamesOfList ds) → Matches place ν running scope scope' →
    Expr.namelessList scope (exprList place (fun i => Lambda.close (place i)) ds) =
      Expr.namelessList scope' (exprList ν (fun i => Lambda.mk (ν i)) ds)
  | [], _, _, _, _ => rfl
  | d :: rest, hs, hp, hu, hm => by
      simp only [userNamesOfList, List.mem_append, not_or] at hp hu
      exact congrArg₂ List.cons
        (nameless_build hν d hs.1 (fun k => (hp k).1) (fun k => (hu k).1) hm)
        (namelessList_build hν rest hs.2 (fun k => (hp k).2) (fun k => (hu k).2) hm)

theorem namelessFields_build (hν : Function.Injective ν) {running : List Nat} {scope scope' : List String} :
    (fs : List (String × Draft)) → FieldsAreScoped place running fs →
    (∀ k, place k ∉ userNamesOfFields fs) → (∀ k, ν k ∉ userNamesOfFields fs) →
    Matches place ν running scope scope' →
    Expr.namelessFields scope (exprFields place (fun i => Lambda.close (place i)) fs) =
      Expr.namelessFields scope' (exprFields ν (fun i => Lambda.mk (ν i)) fs)
  | [], _, _, _, _ => rfl
  | (m, d) :: rest, hs, hp, hu, hm => by
      simp only [userNamesOfFields, List.mem_append, not_or] at hp hu
      exact congrArg₂ List.cons
        (congrArg (Prod.mk m) (nameless_build hν d hs.1 (fun k => (hp k).1) (fun k => (hu k).1) hm))
        (namelessFields_build hν rest hs.2 (fun k => (hp k).2) (fun k => (hu k).2) hm)

end

/-- The lambda of a builder and the lambda with names have the same form. -/
theorem nameless_builtBy (hν : Function.Injective ν) {i : Nat} {d : Draft} (hs : d.IsScoped place [i])
    (hp : ∀ k, place k ∉ d.userNames) (hu : ∀ k, ν k ∉ d.userNames) :
    (d.builtBy place i).nameless = (d.namedBy ν i).nameless :=
  (Lambda.nameless_close (place i) (d.build place) []).trans
    (nameless_build hν d hs hp hu (Matches.nil.bindBuilder hν nofun))

/-! ## References -/

mutual

/-- While builder `k` runs, its placeholder is free where its argument is used and nowhere else. -/
theorem count_freeNames_build {k : Nat} {running : List Nat} (hk : k ∈ running)
    (hdistinct : ∀ i ∈ running, place i = place k → i = k) :
    (d : Draft) → d.IsScoped place running → (∀ i, place i ∉ d.userNames) →
    (d.build place).freeNames.count (place k) = d.references k
  | .argument i, hs, _ => by
      have hbuild : (build place (.argument i)).freeNames = [place i] := rfl
      rw [hbuild, references]
      by_cases hi : i = k
      · rw [if_pos hi, hi, List.count_singleton_self]
      · rw [if_neg hi, List.count_eq_zero]
        exact fun hmem => hi (hdistinct i hs (List.mem_singleton.mp hmem).symm)
  | .param x, _, hp => List.count_eq_zero.mpr (hp k)
  | .constant _, _, _ => rfl
  | .member target _, hs, hp => count_freeNames_build hk hdistinct target hs hp
  | .unary _ operand, hs, hp => count_freeNames_build hk hdistinct operand hs hp
  | .binary op left right, hs, hp => by
      simp only [userNames, List.mem_append, not_or] at hp
      have hleft := count_freeNames_build hk hdistinct left hs.1 (fun i => (hp i).1)
      have hright := count_freeNames_build hk hdistinct right hs.2 (fun i => (hp i).2)
      exact List.count_append.trans (congrArg₂ (· + ·) hleft hright)
  | .call _ arguments, hs, hp => count_freeNames_buildList hk hdistinct arguments hs hp
  | .aggregate target _, hs, hp => count_freeNames_build hk hdistinct target hs hp
  | .aggregateOf target a x body, hs, hp => by
      simp only [userNames, List.mem_append, List.mem_cons, not_or] at hp
      have htarget := count_freeNames_build hk hdistinct target hs.1 (fun i => (hp i).1)
      have hbody := count_freeNames_build hk hdistinct body hs.2 (fun i => (hp i).2.2)
      have hx : place k ≠ x := (hp k).2.1
      refine List.count_append.trans (congrArg₂ (· + ·) htarget ?_)
      exact (List.count_filter (by simpa using hx)).trans hbody
  | .aggregateBy target a i body, hs, hp => by
      simp only [userNames, List.mem_append, not_or] at hp
      obtain ⟨hstarget, hi, hsbody⟩ := hs
      have htarget := count_freeNames_build hk hdistinct target hstarget (fun i => (hp i).1)
      have hdistinct' : ∀ j ∈ i :: running, place j = place k → j = k := by
        intro j hj heq
        rcases List.mem_cons.mp hj with rfl | hj
        · exact absurd heq.symm (hi k hk)
        · exact hdistinct j hj heq
      have hbody := count_freeNames_build (List.mem_cons_of_mem i hk) hdistinct' body hsbody
        (fun i => (hp i).2)
      refine List.count_append.trans (congrArg₂ (· + ·) htarget ?_)
      -- the lambda closes over the placeholder of `i`, which is not that of `k`
      have hclosed := Lambda.freeNames_close (place i) (body.build place)
      exact (congrArg (List.count (place k)) hclosed).trans
        ((List.count_filter (by simpa using hi k hk)).trans hbody)
  | .row fields, hs, hp => count_freeNames_buildFields hk hdistinct fields hs hp

theorem count_freeNames_buildList {k : Nat} {running : List Nat} (hk : k ∈ running)
    (hdistinct : ∀ i ∈ running, place i = place k → i = k) :
    (ds : List Draft) → AreScoped place running ds → (∀ i, place i ∉ userNamesOfList ds) →
    (Expr.freeNamesOfList (exprList place (fun i => Lambda.close (place i)) ds)).count (place k) =
      referencesOfList k ds
  | [], _, _ => rfl
  | d :: rest, hs, hp => by
      simp only [userNamesOfList, List.mem_append, not_or] at hp
      have hfirst := count_freeNames_build hk hdistinct d hs.1 (fun i => (hp i).1)
      have hrest := count_freeNames_buildList hk hdistinct rest hs.2 (fun i => (hp i).2)
      exact List.count_append.trans (congrArg₂ (· + ·) hfirst hrest)

theorem count_freeNames_buildFields {k : Nat} {running : List Nat} (hk : k ∈ running)
    (hdistinct : ∀ i ∈ running, place i = place k → i = k) :
    (fs : List (String × Draft)) → FieldsAreScoped place running fs → (∀ i, place i ∉ userNamesOfFields fs) →
    (Expr.freeNamesOfFields (exprFields place (fun i => Lambda.close (place i)) fs)).count (place k) =
      referencesOfFields k fs
  | [], _, _ => rfl
  | (_, d) :: rest, hs, hp => by
      simp only [userNamesOfFields, List.mem_append, not_or] at hp
      have hfirst := count_freeNames_build hk hdistinct d hs.1 (fun i => (hp i).1)
      have hrest := count_freeNames_buildFields hk hdistinct rest hs.2 (fun i => (hp i).2)
      exact List.count_append.trans (congrArg₂ (· + ·) hfirst hrest)

end

/-- **Builders are hygienic.** The lambda of a builder is the one over the draft in which the arguments of all
builders have names that are used nowhere else, up to the names of variables. Its variable is not bound in
the body, and is found there as often as the argument is used. And the search for a name, here and wherever
else one is made up, comes to an end. -/
theorem builders_are_hygienic {i : Nat} {d : Draft} (hs : d.IsScoped place [i])
    (hp : ∀ k, place k ∉ d.userNames) (hν : Function.Injective ν) (hu : ∀ k, ν k ∉ d.userNames) :
    (d.builtBy place i).nameless = (d.namedBy ν i).nameless ∧
      ((d.namedBy ν i).HasNumbers → (d.namedBy ν i).equal (d.builtBy place i) = true) ∧
      (d.builtBy place i).parameter ∉ (d.builtBy place i).body.boundNames ∧
      (d.builtBy place i).body.names.count (d.builtBy place i).parameter = d.references i ∧
      ∀ taken, ∃ m ≤ taken.length, freshName taken = numberedName m ∧ numberedName m ∉ taken ∧
        ∀ j < m, numberedName j ∈ taken := by
  have hform := nameless_builtBy hν hs hp hu
  have hdistinct : ∀ j ∈ [i], place j = place i → j = i := fun j hj _ => List.mem_singleton.mp hj
  have hreferences := count_freeNames_build (List.mem_singleton_self i) hdistinct d hs hp
  exact ⟨hform, fun hnumbers => (Lambda.equal_iff hnumbers).mpr hform.symm,
    Lambda.parameter_not_mem_boundNames (place i) (d.build place),
    (Lambda.count_parameter_close (place i) (d.build place)).trans hreferences, freshName_eq⟩

/-- Two nested builders, with the argument of the outer one below a variable for which the user took the first of
the names that builders choose. -/
theorem hat_owner_builders :
    let place : Nat → String := fun k => "_build" ++ numberedName k
    let ν : Nat → String := fun k => "argument" ++ numberedName k
    let d : Draft := .aggregateBy (.member (.argument 0) "Weapons") .any 1
      (.aggregateOf (.member (.argument 1) "Hats") .all "_p0"
        (.binary .eq (.member (.param "_p0") "Owner") (.member (.argument 0) "Owner")))
    d.builtBy place 0 =
        ⟨"_p2", .aggregateOf (.member (.param "_p2") "Weapons") .any "_p1"
          (.aggregateOf (.member (.param "_p1") "Hats") .all "_p0"
            (.binary .eq (.member (.param "_p0") "Owner") (.member (.param "_p2") "Owner")))⟩ ∧
      (d.namedBy ν 0).equal (d.builtBy place 0) = true := by
  intro place ν d
  have hscoped : d.IsScoped place [0] := by
    have hother : ∀ k ∈ [0], place k ≠ place 1 := by decide
    have hinside : 0 ∈ [1, 0] := List.mem_cons_of_mem 1 (List.mem_singleton_self 0)
    exact ⟨List.mem_singleton_self 0, hother, List.mem_cons_self, trivial, hinside⟩
  have hplace : ∀ k, place k ∉ d.userNames := by
    intro k
    simp [d, place, Draft.userNames, String.ext_iff]
  have hunused : ∀ k, ν k ∉ d.userNames := by
    intro k
    simp [d, ν, Draft.userNames, String.ext_iff]
  have hinjective : Function.Injective ν := fun j k heq =>
    numberedName_injective (String.append_right_inj _ |>.mp heq)
  obtain ⟨-, hequal, -⟩ := builders_are_hygienic hscoped hplace hinjective hunused
  exact ⟨rfl, hequal ⟨trivial, trivial, trivial, trivial⟩⟩

end Draft

end ResourceQuery
