import ResourceQuery.Proofs.Expr.Capture
import ResourceQuery.Proofs.Expr.Nameless

set_option autoImplicit false

/-! # Substitution and equality

Equal expressions have equal substitutions, although substitution may give new names to different
variables of the two, or to those of one only. In nameless forms there is nothing to rename: substitution
puts a form in the place of a free variable (`Expr.nameless_substitute`), so equal forms have equal
results.

The free variables of a substitution are read off the forms as well: each occurrence of the variable
gives way to those of the replacement (`Expr.freeNames_substitute`).
-/

namespace ResourceQuery

/-! ## Nameless forms -/

namespace Nameless

mutual

/-- The variables that are free, once for each use. -/
def freeNames : Nameless → List String
  | .var (.bound _) => []
  | .var (.free x) => [x]
  | .constant _ => []
  | .member target _ => freeNames target
  | .unary _ operand => freeNames operand
  | .binary _ left right => freeNames left ++ freeNames right
  | .call _ arguments => freeNamesOfList arguments
  | .aggregate target _ => freeNames target
  | .aggregateOf target _ body => freeNames target ++ freeNames body
  | .row fields => freeNamesOfFields fields

/-- The variables that are free in a list of forms. -/
def freeNamesOfList : List Nameless → List String
  | [] => []
  | n :: rest => freeNames n ++ freeNamesOfList rest

/-- The variables that are free in the fields of a row. -/
def freeNamesOfFields : List (String × Nameless) → List String
  | [] => []
  | (_, n) :: rest => freeNames n ++ freeNamesOfFields rest

end

mutual

/-- The form with `r` for the free `x`. -/
def replace (x : String) (r : Nameless) : Nameless → Nameless
  | .var (.bound depth) => .var (.bound depth)
  | .var (.free y) => if y = x then r else .var (.free y)
  | .constant value => .constant value
  | .member target name => .member (replace x r target) name
  | .unary op operand => .unary op (replace x r operand)
  | .binary op left right => .binary op (replace x r left) (replace x r right)
  | .call f arguments => .call f (replaceList x r arguments)
  | .aggregate target a => .aggregate (replace x r target) a
  | .aggregateOf target a body => .aggregateOf (replace x r target) a (replace x r body)
  | .row fields => .row (replaceFields x r fields)

/-- Replacement in a list of forms. -/
def replaceList (x : String) (r : Nameless) : List Nameless → List Nameless
  | [] => []
  | n :: rest => replace x r n :: replaceList x r rest

/-- Replacement in the fields of a row. -/
def replaceFields (x : String) (r : Nameless) : List (String × Nameless) → List (String × Nameless)
  | [] => []
  | (name, n) :: rest => (name, replace x r n) :: replaceFields x r rest

end

/-- The free variables that stand for one after `x` is replaced by what has the free variables `names`. -/
def namesFor (x : String) (names : List String) (y : String) : List String :=
  if y = x then names else [y]

mutual

theorem freeNames_replace (x : String) (r : Nameless) : (n : Nameless) →
    (replace x r n).freeNames = n.freeNames.flatMap (namesFor x r.freeNames)
  | .var (.bound _) => rfl
  | .var (.free y) => by
      by_cases hy : y = x <;> simp [replace, freeNames, namesFor, hy]
  | .constant _ => rfl
  | .member target _ => freeNames_replace x r target
  | .unary _ operand => freeNames_replace x r operand
  | .binary _ left right => by
      simp only [replace, freeNames, List.flatMap_append, freeNames_replace x r left,
        freeNames_replace x r right]
  | .call _ arguments => freeNamesOfList_replace x r arguments
  | .aggregate target _ => freeNames_replace x r target
  | .aggregateOf target _ body => by
      simp only [replace, freeNames, List.flatMap_append, freeNames_replace x r target,
        freeNames_replace x r body]
  | .row fields => freeNamesOfFields_replace x r fields

theorem freeNamesOfList_replace (x : String) (r : Nameless) : (ns : List Nameless) →
    freeNamesOfList (replaceList x r ns) = (freeNamesOfList ns).flatMap (namesFor x r.freeNames)
  | [] => rfl
  | n :: rest => by
      simp only [replaceList, freeNamesOfList, List.flatMap_append, freeNames_replace x r n,
        freeNamesOfList_replace x r rest]

theorem freeNamesOfFields_replace (x : String) (r : Nameless) : (fs : List (String × Nameless)) →
    freeNamesOfFields (replaceFields x r fs) = (freeNamesOfFields fs).flatMap (namesFor x r.freeNames)
  | [] => rfl
  | (_, n) :: rest => by
      simp only [replaceFields, freeNamesOfFields, List.flatMap_append, freeNames_replace x r n,
        freeNamesOfFields_replace x r rest]

end

mutual

/-- Nothing happens where the variable is not free. -/
theorem replace_of_not_free {x : String} (r : Nameless) : (n : Nameless) → x ∉ n.freeNames →
    replace x r n = n
  | .var (.bound _), _ => rfl
  | .var (.free y), h => by
      rw [freeNames, List.mem_singleton] at h
      exact if_neg (Ne.symm h)
  | .constant _, _ => rfl
  | .member target name, h => congrArg (Nameless.member · name) (replace_of_not_free r target h)
  | .unary op operand, h => congrArg (Nameless.unary op) (replace_of_not_free r operand h)
  | .binary op left right, h => by
      rw [freeNames, List.mem_append, not_or] at h
      exact congrArg₂ (Nameless.binary op) (replace_of_not_free r left h.1)
        (replace_of_not_free r right h.2)
  | .call f arguments, h => congrArg (Nameless.call f) (replaceList_of_not_free r arguments h)
  | .aggregate target a, h => congrArg (Nameless.aggregate · a) (replace_of_not_free r target h)
  | .aggregateOf target a body, h => by
      rw [freeNames, List.mem_append, not_or] at h
      exact congrArg₂ (Nameless.aggregateOf · a ·) (replace_of_not_free r target h.1)
        (replace_of_not_free r body h.2)
  | .row fields, h => congrArg Nameless.row (replaceFields_of_not_free r fields h)

theorem replaceList_of_not_free {x : String} (r : Nameless) : (ns : List Nameless) →
    x ∉ freeNamesOfList ns → replaceList x r ns = ns
  | [], _ => rfl
  | n :: rest, h => by
      rw [freeNamesOfList, List.mem_append, not_or] at h
      exact congrArg₂ List.cons (replace_of_not_free r n h.1) (replaceList_of_not_free r rest h.2)

theorem replaceFields_of_not_free {x : String} (r : Nameless) : (fs : List (String × Nameless)) →
    x ∉ freeNamesOfFields fs → replaceFields x r fs = fs
  | [], _ => rfl
  | (name, n) :: rest, h => by
      rw [freeNamesOfFields, List.mem_append, not_or] at h
      exact congrArg₂ List.cons (congrArg (Prod.mk name) (replace_of_not_free r n h.1))
        (replaceFields_of_not_free r rest h.2)

end

end Nameless

namespace Occurrence

theorem resolve_cons (y : String) (scope : List String) :
    resolve (y :: scope) = Function.update (under ∘ resolve scope) y (.bound 0) := by
  funext x
  by_cases hx : x = y
  · rw [hx, resolve_self, Function.update_self]
  · rw [resolve_ne scope hx, Function.update_of_ne hx]
    rfl

end Occurrence

namespace Expr

open Occurrence

/-! ## The form of a substitution -/

/-- What lambdas further out bind moves on by one. -/
theorem Tracks.under {ρ : Renaming} {scope scope' free bound : List String}
    (ht : Tracks ρ (resolve scope) (resolve scope') free bound) :
    Tracks ρ (Occurrence.under ∘ resolve scope) (Occurrence.under ∘ resolve scope') free bound :=
  ht.map Occurrence.under

mutual

/-- Renaming keeps the nameless form. -/
theorem nameless_rename {ρ : Renaming} {scope scope' : List String} : (e : Expr) →
    Tracks ρ (resolve scope) (resolve scope') e.freeNames e.boundNames →
    (rename ρ e).nameless scope' = e.nameless scope
  | .param x, ht => congrArg Nameless.var (ht.same x (by simp [freeNames]))
  | .constant _, _ => rfl
  | .member target name, ht => congrArg (Nameless.member · name) (nameless_rename target ht)
  | .unary op operand, ht => congrArg (Nameless.unary op) (nameless_rename operand ht)
  | .binary op left right, ht =>
      congrArg₂ (Nameless.binary op)
        (nameless_rename left (ht.mono (List.subset_append_left _ _) (List.subset_append_left _ _)))
        (nameless_rename right
          (ht.mono (List.subset_append_right _ _) (List.subset_append_right _ _)))
  | .call f arguments, ht => congrArg (Nameless.call f) (namelessList_rename arguments ht)
  | .aggregate target a, ht => congrArg (Nameless.aggregate · a) (nameless_rename target ht)
  | .aggregateOf target a x body, ht => by
      refine congrArg₂ (Nameless.aggregateOf · a ·)
        (nameless_rename target
          (ht.mono (List.subset_append_left _ _) (List.subset_append_left _ _)))
        (nameless_rename body ?_)
      rw [resolve_cons, resolve_cons]
      exact (ht.mono (List.subset_append_right _ _) (List.subset_append_right _ _)).under.bind _
  | .row fields, ht => congrArg Nameless.row (namelessFields_rename fields ht)

theorem namelessList_rename {ρ : Renaming} {scope scope' : List String} : (es : List Expr) →
    Tracks ρ (resolve scope) (resolve scope') (freeNamesOfList es) (boundNamesOfList es) →
    namelessList scope' (renameList ρ es) = namelessList scope es
  | [], _ => rfl
  | e :: rest, ht =>
      congrArg₂ List.cons
        (nameless_rename e (ht.mono (List.subset_append_left _ _) (List.subset_append_left _ _)))
        (namelessList_rename rest
          (ht.mono (List.subset_append_right _ _) (List.subset_append_right _ _)))

theorem namelessFields_rename {ρ : Renaming} {scope scope' : List String} :
    (fs : List (String × Expr)) →
    Tracks ρ (resolve scope) (resolve scope') (freeNamesOfFields fs) (boundNamesOfFields fs) →
    namelessFields scope' (renameFields ρ fs) = namelessFields scope fs
  | [], _ => rfl
  | (name, e) :: rest, ht =>
      congrArg₂ List.cons
        (congrArg (Prod.mk name)
          (nameless_rename e (ht.mono (List.subset_append_left _ _) (List.subset_append_left _ _))))
        (namelessFields_rename rest
          (ht.mono (List.subset_append_right _ _) (List.subset_append_right _ _)))

end

/-- Lambdas around do not matter if they bind none of the free variables. -/
theorem nameless_of_not_bound {e : Expr} {scope : List String} (h : ∀ y ∈ e.freeNames, y ∉ scope) :
    e.nameless scope = e.nameless [] := by
  have htracks : Tracks [] (resolve []) (resolve scope) e.freeNames e.boundNames :=
    Tracks.of_eq fun y hy => resolve_of_not_mem (h y hy)
  have hrename := nameless_rename e htracks
  rwa [rename_nil] at hrename

mutual

/-- The free variables of the form are those that no lambda around binds. -/
theorem freeNames_nameless : (e : Expr) → (scope : List String) →
    (e.nameless scope).freeNames = e.freeNames.filter (· ∉ scope)
  | .param x, scope => by
      rw [nameless, freeNames]
      by_cases hx : x ∈ scope
      · cases ho : resolve scope x with
        | bound depth => simp [Nameless.freeNames, hx]
        | free y => exact absurd hx (resolve_eq_free_iff.1 ho).1
      · simp [resolve_of_not_mem hx, Nameless.freeNames, hx]
  | .constant _, _ => rfl
  | .member target _, scope => freeNames_nameless target scope
  | .unary _ operand, scope => freeNames_nameless operand scope
  | .binary _ left right, scope => by
      rw [nameless, Nameless.freeNames, freeNames, List.filter_append, freeNames_nameless left scope,
        freeNames_nameless right scope]
  | .call _ arguments, scope => freeNames_namelessList arguments scope
  | .aggregate target _, scope => freeNames_nameless target scope
  | .aggregateOf target _ x body, scope => by
      rw [nameless, Nameless.freeNames, freeNames, List.filter_append, freeNames_nameless target scope,
        freeNames_nameless body (x :: scope), List.filter_filter]
      congr 2
      funext y
      simp [List.mem_cons, not_or, Bool.and_comm]
  | .row fields, scope => freeNames_namelessFields fields scope

theorem freeNames_namelessList : (es : List Expr) → (scope : List String) →
    Nameless.freeNamesOfList (namelessList scope es) = (freeNamesOfList es).filter (· ∉ scope)
  | [], _ => rfl
  | e :: rest, scope => by
      rw [namelessList, Nameless.freeNamesOfList, freeNamesOfList, List.filter_append,
        freeNames_nameless e scope, freeNames_namelessList rest scope]

theorem freeNames_namelessFields : (fs : List (String × Expr)) → (scope : List String) →
    Nameless.freeNamesOfFields (namelessFields scope fs) = (freeNamesOfFields fs).filter (· ∉ scope)
  | [], _ => rfl
  | (_, e) :: rest, scope => by
      rw [namelessFields, Nameless.freeNamesOfFields, freeNamesOfFields, List.filter_append,
        freeNames_nameless e scope, freeNames_namelessFields rest scope]

end

theorem freeNames_nameless_nil (e : Expr) : (e.nameless []).freeNames = e.freeNames := by
  rw [freeNames_nameless]
  simp

mutual

/-- **Substitution replaces in the nameless form**, under lambdas that bind neither the variable before
nor a free variable of the replacement after. -/
theorem nameless_substituteUnder {x : String} {r : Expr} {ρ : Renaming} {scope scope' : List String} :
    (e : Expr) →
    Tracks ρ (resolve scope) (resolve scope') (e.freeNames.filter (· ≠ x)) e.boundNames →
    ρ.lookup x = none → x ∉ scope → (∀ z ∈ r.freeNames, z ∉ scope') →
    (substituteUnder ρ x r e).nameless scope' = Nameless.replace x (r.nameless []) (e.nameless scope)
  | .param y, ht, hx, hscope, hr => by
      rw [substituteUnder, nameless]
      by_cases hyx : y = x
      · subst hyx
        rw [hx, resolve_of_not_mem hscope]
        simp only [if_pos, Nameless.replace]
        exact nameless_of_not_bound hr
      · -- another variable is renamed or stays, and is not replaced
        have hsame : resolve scope' (ρ.apply y) = resolve scope y := ht.same y (by simp [freeNames, hyx])
        have hkept : Nameless.replace x (r.nameless []) (.var (resolve scope y)) =
            .var (resolve scope y) := by
          cases ho : resolve scope y with
          | bound depth => rfl
          | free z =>
              obtain ⟨-, rfl⟩ := resolve_eq_free_iff.1 ho
              exact if_neg hyx
        rw [hkept, ← hsame]
        cases hnew : ρ.lookup y with
        | none =>
            simp only [if_neg hyx]
            rw [Renaming.apply_of_lookup_none hnew, nameless]
        | some new => rw [Renaming.apply_of_lookup_some hnew, nameless]
  | .constant _, _, _, _, _ => rfl
  | .member target name, ht, hx, hscope, hr =>
      congrArg (Nameless.member · name) (nameless_substituteUnder target ht hx hscope hr)
  | .unary op operand, ht, hx, hscope, hr =>
      congrArg (Nameless.unary op) (nameless_substituteUnder operand ht hx hscope hr)
  | .binary op left right, ht, hx, hscope, hr => by
      rw [freeNames, List.filter_append, boundNames] at ht
      exact congrArg₂ (Nameless.binary op)
        (nameless_substituteUnder left
          (ht.mono (List.subset_append_left _ _) (List.subset_append_left _ _)) hx hscope hr)
        (nameless_substituteUnder right
          (ht.mono (List.subset_append_right _ _) (List.subset_append_right _ _)) hx hscope hr)
  | .call f arguments, ht, hx, hscope, hr =>
      congrArg (Nameless.call f) (namelessList_substitute arguments ht hx hscope hr)
  | .aggregate target a, ht, hx, hscope, hr =>
      congrArg (Nameless.aggregate · a) (nameless_substituteUnder target ht hx hscope hr)
  | .aggregateOf target a y body, ht, hx, hscope, hr => by
      rw [freeNames, List.filter_append, boundNames] at ht
      have htarget := nameless_substituteUnder target
        (ht.mono (List.subset_append_left _ _) (List.subset_append_left _ _)) hx hscope hr
      have hunder := ht.mono (List.subset_append_right _ _) (List.subset_append_right _ _)
      obtain ⟨rfl, heq⟩ | ⟨z, ρ', hyx, hz, hx', heq, hinner⟩ :=
        substituteUnder_aggregateOf r ρ target a y body hx
      · -- the body is only renamed, and the variable is not free in its form
        rw [heq]
        refine congrArg₂ (Nameless.aggregateOf · a ·) htarget ?_
        rw [Nameless.replace_of_not_free _ _ (by simp [freeNames_nameless])]
        refine nameless_rename body ?_
        rw [resolve_cons, resolve_cons]
        rw [List.filter_filter] at hunder
        simp only [Bool.and_self] at hunder
        exact hunder.under.bind _
      · rw [heq]
        refine congrArg₂ (Nameless.aggregateOf · a ·) htarget
          (nameless_substituteUnder body ?_ hx' ?_ ?_)
        · rw [resolve_cons, resolve_cons]
          rw [List.filter_comm] at hunder
          exact hinner _ hunder.under
        · simp [hscope, Ne.symm hyx]
        · intro w hw hmem
          rcases List.mem_cons.1 hmem with rfl | hmem
          · exact hz hw
          · exact hr w hw hmem
  | .row fields, ht, hx, hscope, hr =>
      congrArg Nameless.row (namelessFields_substitute fields ht hx hscope hr)

theorem namelessList_substitute {x : String} {r : Expr} {ρ : Renaming} {scope scope' : List String} :
    (es : List Expr) →
    Tracks ρ (resolve scope) (resolve scope') ((freeNamesOfList es).filter (· ≠ x))
      (boundNamesOfList es) →
    ρ.lookup x = none → x ∉ scope → (∀ z ∈ r.freeNames, z ∉ scope') →
    namelessList scope' (substituteList ρ x r es) =
      Nameless.replaceList x (r.nameless []) (namelessList scope es)
  | [], _, _, _, _ => rfl
  | e :: rest, ht, hx, hscope, hr => by
      rw [freeNamesOfList, List.filter_append, boundNamesOfList] at ht
      exact congrArg₂ List.cons
        (nameless_substituteUnder e
          (ht.mono (List.subset_append_left _ _) (List.subset_append_left _ _)) hx hscope hr)
        (namelessList_substitute rest
          (ht.mono (List.subset_append_right _ _) (List.subset_append_right _ _)) hx hscope hr)

theorem namelessFields_substitute {x : String} {r : Expr} {ρ : Renaming} {scope scope' : List String} :
    (fs : List (String × Expr)) →
    Tracks ρ (resolve scope) (resolve scope') ((freeNamesOfFields fs).filter (· ≠ x))
      (boundNamesOfFields fs) →
    ρ.lookup x = none → x ∉ scope → (∀ z ∈ r.freeNames, z ∉ scope') →
    namelessFields scope' (substituteFields ρ x r fs) =
      Nameless.replaceFields x (r.nameless []) (namelessFields scope fs)
  | [], _, _, _, _ => rfl
  | (name, e) :: rest, ht, hx, hscope, hr => by
      rw [freeNamesOfFields, List.filter_append, boundNamesOfFields] at ht
      exact congrArg₂ List.cons
        (congrArg (Prod.mk name)
          (nameless_substituteUnder e
            (ht.mono (List.subset_append_left _ _) (List.subset_append_left _ _)) hx hscope hr))
        (namelessFields_substitute rest
          (ht.mono (List.subset_append_right _ _) (List.subset_append_right _ _)) hx hscope hr)

end

theorem nameless_substitute (e : Expr) (x : String) (r : Expr) :
    (e.substitute x r).nameless [] = Nameless.replace x (r.nameless []) (e.nameless []) :=
  nameless_substituteUnder e (Tracks.of_eq fun _ _ => rfl) rfl List.not_mem_nil
    fun _ _ => List.not_mem_nil

/-- Each free occurrence of the variable gives way to the free variables of the replacement. -/
theorem freeNames_substitute (e : Expr) (x : String) (r : Expr) :
    (e.substitute x r).freeNames = e.freeNames.flatMap (Nameless.namesFor x r.freeNames) := by
  rw [← freeNames_nameless_nil (e.substitute x r), nameless_substitute, Nameless.freeNames_replace,
    freeNames_nameless_nil, freeNames_nameless_nil]

/-- The free variables of a substitution, whether or not the variable is among them. -/
theorem mem_freeNames_substitute_iff {e r : Expr} {x y : String} :
    y ∈ (e.substitute x r).freeNames ↔
      if x ∈ e.freeNames then (y ∈ e.freeNames ∧ y ≠ x) ∨ y ∈ r.freeNames else y ∈ e.freeNames := by
  have hmem : y ∈ (e.substitute x r).freeNames ↔
      ∃ z ∈ e.freeNames, y ∈ Nameless.namesFor x r.freeNames z := by
    rw [freeNames_substitute, List.mem_flatMap]
  rw [hmem]
  constructor
  · rintro ⟨z, hz, hy⟩
    by_cases hzx : z = x
    · rw [Nameless.namesFor, if_pos hzx] at hy
      rw [if_pos (hzx ▸ hz)]
      exact Or.inr hy
    · rw [Nameless.namesFor, if_neg hzx, List.mem_singleton] at hy
      subst hy
      split
      · exact Or.inl ⟨hz, hzx⟩
      · exact hz
  · intro h
    split at h
    · rename_i hx
      rcases h with ⟨hy, hne⟩ | hy
      · exact ⟨y, hy, by simp [Nameless.namesFor, hne]⟩
      · exact ⟨x, hx, by simp [Nameless.namesFor, hy]⟩
    · rename_i hx
      have hne : y ≠ x := fun heq => hx (heq ▸ h)
      exact ⟨y, h, by simp [Nameless.namesFor, hne]⟩

/-- **Substitution respects equality and scopes.** Equal expressions with equal replacements have equal
substitutions, and the free variables are those of the expression, but for the one that is replaced,
and those of the replacement if that variable was free. -/
theorem substitute_respects_equality {a b r s : Expr} (ha : a.HasNumbers) (hr : r.HasNumbers)
    (hab : a.equal b = true) (hrs : r.equal s = true) (x : String) :
    (a.substitute x r).equal (b.substitute x s) = true ∧
      ∀ y, y ∈ (a.substitute x r).freeNames ↔
        if x ∈ a.freeNames then (y ∈ a.freeNames ∧ y ≠ x) ∨ y ∈ r.freeNames else y ∈ a.freeNames := by
  refine ⟨?_, fun y => mem_freeNames_substitute_iff⟩
  have hform : a.nameless [] = b.nameless [] := (equal_iff ha).1 hab
  have hreplacement : r.nameless [] = s.nameless [] := (equal_iff hr).1 hrs
  have hnumbers : (a.substitute x r).HasNumbers := HasNumbers.substituteUnder hr a [] ha
  rw [equal_iff hnumbers, nameless_substitute, nameless_substitute, hform, hreplacement]

/-- The variable of one side is renamed, since the replacement mentions it; that of the other side is
not. -/
theorem substitute_respects_equality_across_renaming :
    let test (k : String) : Expr :=
      .aggregateOf (.param "p") .any k (.binary .lt (.param k) (.param "x"))
    (test "q").substitute "x" (.param "q") =
        .aggregateOf (.param "p") .any "_p0" (.binary .lt (.param "_p0") (.param "q")) ∧
      (test "k").substitute "x" (.param "q") =
        .aggregateOf (.param "p") .any "k" (.binary .lt (.param "k") (.param "q")) ∧
      ((test "q").substitute "x" (.param "q")).equal ((test "k").substitute "x" (.param "q")) = true ∧
      "q" ∈ ((test "q").substitute "x" (.param "q")).freeNames := by
  intro test
  have hnumbers : (test "q").HasNumbers := ⟨trivial, trivial, trivial⟩
  have hvariable : (param "q").HasNumbers := trivial
  have hequal : (test "q").equal (test "k") = true := rfl
  have hreplacement : (param "q").equal (param "q") = true := rfl
  obtain ⟨hresults, hfree⟩ :=
    substitute_respects_equality hnumbers hvariable hequal hreplacement "x"
  refine ⟨rfl, rfl, hresults, (hfree "q").2 ?_⟩
  simp [test, freeNames]

end Expr

end ResourceQuery
