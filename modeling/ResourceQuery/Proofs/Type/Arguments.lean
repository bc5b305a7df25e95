import Mathlib.Logic.Function.Basic
import ResourceQuery.Proofs.Type.Folding
import ResourceQuery.Type.Resolver

set_option autoImplicit false

/-! # Arguments in any spelling

The type of a property in an instance of a generic definition is the declared type with the arguments in
place of the parameters, folded. Folding before that, in the declared type or in the arguments, makes no
difference (`NativeType.canonical_substitute`): so instances with arguments that fold to the same have the
same properties.

What has to be seen is that folding early loses nothing that an argument brings. An instance keeps the number
of its arguments, so it spells a container before exactly if it does after; and where an optional argument
comes into an optional place, the two are folded into one whichever of them is folded first.
-/

namespace ResourceQuery

namespace NativeType

variable {arguments others : List NativeType}

theorem canonicalAll_eq_map (arguments : List NativeType) :
    canonicalAll arguments = arguments.map canonical := by
  induction arguments with
  | nil => rfl
  | cons a as ih => rw [canonicalAll, ih, List.map_cons]

/-! ## Folding the arguments first -/

/-- What a parameter is replaced with is folded in the end. -/
theorem canonical_getD_canonicalAll (arguments : List NativeType) (index : Nat) :
    ((canonicalAll arguments)[index]?.getD (.parameter index)).canonical =
      (arguments[index]?.getD (.parameter index)).canonical := by
  rw [canonicalAll_eq_map, List.getElem?_map]
  cases arguments[index]? with
  | none => rfl
  | some argument => exact canonical_canonical argument

mutual

theorem canonical_substitute_canonicalAll (arguments : List NativeType) : (t : NativeType) →
    (t.substitute (canonicalAll arguments)).canonical = (t.substitute arguments).canonical
  | .value _ => rfl
  | .named _ => rfl
  | .parameter index => canonical_getD_canonicalAll arguments index
  | .list element => congrArg list (canonical_substitute_canonicalAll arguments element)
  | .map k v =>
      congrArg₂ map (canonical_substitute_canonicalAll arguments k) (canonical_substitute_canonicalAll arguments v)
  | .nullable inner => congrArg optional (canonical_substitute_canonicalAll arguments inner)
  | .generic definition inner =>
      congrArg (applied definition) (canonicalAll_substituteAll_canonicalAll arguments inner)

theorem canonicalAll_substituteAll_canonicalAll (arguments : List NativeType) : (ts : List NativeType) →
    canonicalAll (substituteAll (canonicalAll arguments) ts) = canonicalAll (substituteAll arguments ts)
  | [] => rfl
  | t :: ts =>
      congrArg₂ List.cons (canonical_substitute_canonicalAll arguments t)
        (canonicalAll_substituteAll_canonicalAll arguments ts)

end

/-! ## Folding the declared type first -/

theorem optional_optional (t : NativeType) : optional (optional t) = optional t := by
  cases t <;> rfl

/-- An optional place stays one, whether or not it was folded into another. -/
theorem canonical_substitute_optional (arguments : List NativeType) (t : NativeType) :
    ((optional t).substitute arguments).canonical = optional (t.substitute arguments).canonical := by
  cases t with
  | nullable inner => exact (optional_optional (inner.substitute arguments).canonical).symm
  | _ => rfl

/-- An instance that is folded spells the same container as with other arguments, if any. -/
theorem canonical_substitute_applied (arguments : List NativeType) (definition : String) (ts : List NativeType) :
    ((applied definition ts).substitute arguments).canonical =
      applied definition (canonicalAll (substituteAll arguments ts)) := by
  have hinstance : ((generic definition ts).substitute arguments).canonical =
      applied definition (canonicalAll (substituteAll arguments ts)) := rfl
  rw [← hinstance]
  cases hkind : container? definition with
  | none => simp only [applied, hkind]
  | some kind =>
      cases kind with
      | list =>
          match ts with
          | [element] => simp only [applied, hkind, substitute, substituteAll, canonical, canonicalAll]
          | [] | _ :: _ :: _ => simp only [applied, hkind]
      | map =>
          match ts with
          | [k, v] => simp only [applied, hkind, substitute, substituteAll, canonical, canonicalAll]
          | [] | [_] | _ :: _ :: _ :: _ => simp only [applied, hkind]
      | nullable =>
          match ts with
          | [inner] =>
              simp only [applied, hkind, canonical_substitute_optional, substitute, substituteAll, canonical,
                canonicalAll]
          | [] | _ :: _ :: _ => simp only [applied, hkind]

mutual

theorem canonical_substitute_of_canonical (arguments : List NativeType) : (t : NativeType) →
    (t.canonical.substitute arguments).canonical = (t.substitute arguments).canonical
  | .value _ => rfl
  | .parameter _ => rfl
  | .named name => by
      -- neither a name nor the kind that it stands for has a parameter
      cases hkind : ValueKind.ofName? name with
      | none => simp only [canonical, hkind]
      | some kind => simp only [canonical, hkind, substitute]
  | .list element => congrArg list (canonical_substitute_of_canonical arguments element)
  | .map k v =>
      congrArg₂ map (canonical_substitute_of_canonical arguments k) (canonical_substitute_of_canonical arguments v)
  | .nullable inner => by
      rw [canonical, canonical_substitute_optional, canonical_substitute_of_canonical arguments inner, substitute,
        canonical]
  | .generic definition inner => by
      rw [canonical, canonical_substitute_applied, canonicalAll_substituteAll_of_canonicalAll arguments inner,
        substitute, canonical]

theorem canonicalAll_substituteAll_of_canonicalAll (arguments : List NativeType) : (ts : List NativeType) →
    canonicalAll (substituteAll arguments (canonicalAll ts)) = canonicalAll (substituteAll arguments ts)
  | [] => rfl
  | t :: ts =>
      congrArg₂ List.cons (canonical_substitute_of_canonical arguments t)
        (canonicalAll_substituteAll_of_canonicalAll arguments ts)

end

/-- Arguments that fold to the same give types that fold to the same. -/
theorem canonical_substitute_congr (h : canonicalAll others = canonicalAll arguments) (t : NativeType) :
    (t.substitute others).canonical = (t.substitute arguments).canonical := by
  rw [← canonical_substitute_canonicalAll others, h, canonical_substitute_canonicalAll]

end NativeType

namespace Resolution

open NativeType

variable {arguments others : List NativeType}

/-! ## Properties of instances -/

theorem propertyType_congr (h : canonicalAll others = canonicalAll arguments) (d : PropertyDef) :
    propertyType others d = propertyType arguments d :=
  canonical_substitute_congr h d.type

theorem declare_congr (h : canonicalAll others = canonicalAll arguments) (resolve : Resolver)
    (declaring : TypeId) (defs : List PropertyDef) (table : List Property) :
    declare resolve others declaring defs table = declare resolve arguments declaring defs table := by
  induction defs generalizing table with
  | nil => rfl
  | cons d rest ih =>
      rw [declare, declare, propertyType_congr h d]
      simp only [ih]

theorem inherit_congr (h : canonicalAll others = canonicalAll arguments) (resolve : Resolver) (self : String)
    (id : TypeId) (chain : List SourceType) (table : List Property) :
    inherit resolve others self id chain table = inherit resolve arguments self id chain table := by
  induction chain generalizing table with
  | nil => rfl
  | cons source rest ih =>
      rw [inherit, inherit]
      simp only [declare_congr h, ih]

end Resolution

namespace NativeType

/-- **Folding goes along with putting arguments in place of parameters.** Folding twice is folding once. Folded
arguments in a folded type come to the same as the arguments in the type, folded. So instances of a definition
whose arguments fold to the same have the same type for each property, and their property tables are resolved
in the same way. -/
theorem canonical_substitute (t : NativeType) (arguments : List NativeType) :
    t.canonical.canonical = t.canonical ∧
      (t.substitute arguments).canonical = (t.canonical.substitute (arguments.map canonical)).canonical ∧
      ∀ others : List NativeType, others.map canonical = arguments.map canonical →
        (∀ d : PropertyDef, Resolution.propertyType others d = Resolution.propertyType arguments d) ∧
        ∀ resolve self id chain table,
          Resolution.inherit resolve others self id chain table =
            Resolution.inherit resolve arguments self id chain table := by
  simp only [← canonicalAll_eq_map]
  refine ⟨canonical_canonical t, ?_, fun others h =>
    ⟨Resolution.propertyType_congr h, fun _ _ _ _ _ => Resolution.inherit_congr h _ _ _ _ _⟩⟩
  rw [canonical_substitute_of_canonical, canonical_substitute_canonicalAll]

/-- An optional parameter inside a list, with an optional hat in two spellings for it. -/
theorem canonical_substitute_hats :
    let boxed : PropertyDef := .ofType "Boxed" (.generic "IList" [.nullable (.parameter 0)])
    let spelled := [generic "Option" [.nullable (.named "Hat")]]
    let short := [nullable (.named "Hat")]
    spelled.map canonical = short.map canonical ∧
      Resolution.propertyType spelled boxed = .list (.nullable (.named "Hat")) ∧
      Resolution.propertyType short boxed = .list (.nullable (.named "Hat")) := by
  intro boxed spelled short
  have hsame : spelled.map canonical = short.map canonical := by decide
  have hshort : Resolution.propertyType short boxed = .list (.nullable (.named "Hat")) := by decide
  obtain ⟨hproperty, -⟩ := (canonical_substitute boxed.type short).2.2 spelled hsame
  exact ⟨hsame, (hproperty boxed).trans hshort, hshort⟩

end NativeType

end ResourceQuery
