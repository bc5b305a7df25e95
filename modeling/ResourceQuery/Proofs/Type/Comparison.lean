import Mathlib.Data.List.Forall2
import ResourceQuery.Proofs.Type.Course

set_option autoImplicit false

/-! # Two resolutions side by side

A graph numbers its types in the order in which it meets them, so the same type has different numbers in
graphs with different histories. Descriptors are compared up to numbers: `Agrees r` says that two of them are
the same, but for numbers which `r` relates. If `r` is a function, the second is the first renumbered
(`Descriptor.renumber`).

What is in a type is put together by steps that do nothing with numbers but pass them on. So two runs of these
steps answer alike, if what they resolve on the way is answered alike. This is shown once, for anything that may
be meant by *answering alike* as long as it goes through sequences of steps (`Comparison`): each function of the
resolver has one lemma, and `Comparison.related_contents` puts them together.

What a resolution has to do for an expression depends on the registry only. `form` says what it is, and
`runOn_build` that the resolver does it. Where a type is optional, the resolver asks the table for the type
inside; that this is no different needs an invariant, which is left to
`ResourceQuery.Proofs.Type.Description`.
-/

namespace ResourceQuery

/-! ## The same up to numbers -/

section Agrees

variable (r : TypeId → TypeId → Prop)

/-- The same property, but for numbers of types. -/
structure Property.Agrees (p q : Property) : Prop where
  type : r p.type q.type
  declaringType : r p.declaringType q.declaringType
  others : { p with type := q.type, declaringType := q.declaringType } = q

/-- The same members, but for numbers of types. -/
structure Members.Agrees (m n : Members) : Prop where
  properties : List.Forall₂ (Property.Agrees r) m.properties n.properties
  base : Option.Rel r m.base n.base
  others : { m with properties := n.properties, base := n.base } = n

/-- The same parent, but for its number. -/
structure ResourceParent.Agrees (p q : ResourceParent) : Prop where
  type : r p.type q.type
  others : { p with type := q.type } = q

/-- The same address, but for numbers of types. -/
structure ResourceAddress.Agrees (a b : ResourceAddress) : Prop where
  parent : Option.Rel (ResourceParent.Agrees r) a.parent b.parent
  uriBase : r a.uriBase b.uriBase
  relativePath : a.relativePath = b.relativePath

/-- The same shape, but for numbers of types. -/
inductive TypeShape.Agrees : TypeShape → TypeShape → Prop
  | value (kind : ValueKind) : Agrees (.value kind) (.value kind)
  | enum (members : List String) : Agrees (.enum members) (.enum members)
  | collection {e f : TypeId} (element : r e f) : Agrees (.collection e) (.collection f)
  | dictionary {k l v w : TypeId} (key : r k l) (value : r v w) : Agrees (.dictionary k v) (.dictionary l w)
  | structured {m n : Members} (members : m.Agrees r n) : Agrees (.structured m) (.structured n)
  | resource {m n : Members} {a b : ResourceAddress} (members : m.Agrees r n) (address : a.Agrees r b) :
      Agrees (.resource m a) (.resource n b)

/-- The same descriptor, but for numbers of types. -/
structure Descriptor.Agrees (d e : Descriptor) : Prop where
  id : r d.id e.id
  name : d.name = e.name
  nullable : d.nullable = e.nullable
  arguments : List.Forall₂ r d.arguments e.arguments
  shape : d.shape.Agrees r e.shape

end Agrees

/-! ## Other numbers -/

section Renumber

variable (σ : TypeId → TypeId)

/-- The property with other numbers of types. -/
def Property.renumber (p : Property) : Property :=
  { p with type := σ p.type, declaringType := σ p.declaringType }

/-- The members with other numbers of types. -/
def Members.renumber (m : Members) : Members :=
  { m with properties := m.properties.map (Property.renumber σ), base := m.base.map σ }

/-- The parent with another number. -/
def ResourceParent.renumber (p : ResourceParent) : ResourceParent :=
  { p with type := σ p.type }

/-- The address with other numbers of types. -/
def ResourceAddress.renumber (a : ResourceAddress) : ResourceAddress :=
  { a with parent := a.parent.map (ResourceParent.renumber σ), uriBase := σ a.uriBase }

/-- The shape with other numbers of types. -/
def TypeShape.renumber : TypeShape → TypeShape
  | .value kind => .value kind
  | .enum members => .enum members
  | .collection element => .collection (σ element)
  | .dictionary k v => .dictionary (σ k) (σ v)
  | .structured m => .structured (m.renumber σ)
  | .resource m a => .resource (m.renumber σ) (a.renumber σ)

/-- The descriptor with other numbers of types, its own among them. -/
def Descriptor.renumber (d : Descriptor) : Descriptor :=
  { d with id := σ d.id, arguments := d.arguments.map σ, shape := d.shape.renumber σ }

end Renumber

section Function

variable {r : TypeId → TypeId → Prop} {σ : TypeId → TypeId} {α : Type}

theorem map_eq_of_forall₂ {R : α → α → Prop} {f : α → α} (hf : ∀ a b, R a b → f a = b) {xs ys : List α}
    (h : List.Forall₂ R xs ys) : xs.map f = ys := by
  induction h with
  | nil => rfl
  | cons hab _ ih => rw [List.map_cons, hf _ _ hab, ih]

theorem map_eq_of_rel {R : α → α → Prop} {f : α → α} (hf : ∀ a b, R a b → f a = b) {x y : Option α}
    (h : Option.Rel R x y) : x.map f = y := by
  cases h with
  | none => rfl
  | some hab => rw [Option.map_some, hf _ _ hab]

variable (hσ : ∀ i j, r i j → σ i = j)

include hσ

theorem Property.Agrees.renumber_eq {p q : Property} (h : p.Agrees r q) : p.renumber σ = q := by
  rw [Property.renumber, hσ _ _ h.type, hσ _ _ h.declaringType, h.others]

theorem Members.Agrees.renumber_eq {m n : Members} (h : m.Agrees r n) : m.renumber σ = n := by
  rw [Members.renumber, map_eq_of_forall₂ (fun _ _ hp => hp.renumber_eq hσ) h.properties,
    map_eq_of_rel hσ h.base, h.others]

theorem ResourceAddress.Agrees.renumber_eq {a b : ResourceAddress} (h : a.Agrees r b) :
    a.renumber σ = b := by
  have hparent : a.parent.map (ResourceParent.renumber σ) = b.parent :=
    map_eq_of_rel (fun p q hp => by rw [ResourceParent.renumber, hσ _ _ hp.type, hp.others]) h.parent
  rw [ResourceAddress.renumber, hparent, hσ _ _ h.uriBase, h.relativePath]

theorem TypeShape.Agrees.renumber_eq {s t : TypeShape} (h : s.Agrees r t) : s.renumber σ = t := by
  cases h with
  | value kind => rfl
  | enum members => rfl
  | collection helement => rw [TypeShape.renumber, hσ _ _ helement]
  | dictionary hkey hvalue => rw [TypeShape.renumber, hσ _ _ hkey, hσ _ _ hvalue]
  | structured hm => rw [TypeShape.renumber, hm.renumber_eq hσ]
  | resource hm ha => rw [TypeShape.renumber, hm.renumber_eq hσ, ha.renumber_eq hσ]

/-- Where numbers that are related are those of a renumbering, so are the descriptors. -/
theorem Descriptor.Agrees.renumber_eq {d e : Descriptor} (h : d.Agrees r e) : d.renumber σ = e := by
  rw [Descriptor.renumber, hσ _ _ h.id, h.name, h.nullable, map_eq_of_forall₂ hσ h.arguments,
    h.shape.renumber_eq hσ]

end Function

/-! ## What descriptors that agree mention -/

section Mentions

variable {r : TypeId → TypeId → Prop}

theorem forall₂_toList {α : Type} {R : α → α → Prop} {x y : Option α} (h : Option.Rel R x y) :
    List.Forall₂ R x.toList y.toList := by
  cases h with
  | none => exact .nil
  | some hab => exact .cons hab .nil

theorem forall₂_allMentions {ps qs : List Property} (h : List.Forall₂ (Property.Agrees r) ps qs) :
    List.Forall₂ r (Property.allMentions ps) (Property.allMentions qs) := by
  induction h with
  | nil => exact .nil
  | cons hp _ ih => exact .cons hp.type (.cons hp.declaringType ih)

theorem Members.Agrees.mentions {m n : Members} (h : m.Agrees r n) :
    List.Forall₂ r m.mentions n.mentions :=
  List.rel_append (forall₂_toList h.base) (forall₂_allMentions h.properties)

theorem rel_map {α β : Type} {R : α → α → Prop} {S : β → β → Prop} {f : α → β}
    (hf : ∀ a b, R a b → S (f a) (f b)) {x y : Option α} (h : Option.Rel R x y) :
    Option.Rel S (x.map f) (y.map f) := by
  cases h with
  | none => exact .none
  | some hab => exact .some (hf _ _ hab)

theorem ResourceAddress.Agrees.mentions {a b : ResourceAddress} (h : a.Agrees r b) :
    List.Forall₂ r a.mentions b.mentions :=
  .cons h.uriBase (forall₂_toList (rel_map (fun _ _ hp => hp.type) h.parent))

theorem TypeShape.Agrees.mentions {s t : TypeShape} (h : s.Agrees r t) :
    List.Forall₂ r s.mentions t.mentions := by
  cases h with
  | value kind => exact .nil
  | enum members => exact .nil
  | collection helement => exact .cons helement .nil
  | dictionary hkey hvalue => exact .cons hkey (.cons hvalue .nil)
  | structured hm => exact hm.mentions
  | resource hm ha => exact List.rel_append hm.mentions ha.mentions

/-- Descriptors that agree mention numbers that are related, one by one. -/
theorem Descriptor.Agrees.mentions {d e : Descriptor} (h : d.Agrees r e) :
    List.Forall₂ r d.mentions e.mentions :=
  List.rel_append h.arguments h.shape.mentions

end Mentions

namespace Resolution

/-! ## What there is to do for an expression -/

/-- The shape that a type has once more when its values are made optional, told from its expression. -/
def plainShape? (registry : Registry) : NativeType → Option TypeShape
  | .value kind => if kind.isNullable then none else some (.value kind)
  | .nullable inner =>
    match plainShape? registry inner with
    | some (.enum members) => some (.enum members)
    | _ => none
  | .named name =>
    match registry.enumMembers? name, registry.sourceType? name, registry.proxyTarget? name with
    | some members, _, _ => some (.enum members)
    | none, none, some target =>
      if (registry.sourceType? target).isSome then (registry.enumMembers? target).map .enum else none
    | _, _, _ => none
  | _ => none

/-- What is in an optional type that has a number of its own. -/
def optionalContents (resolve : Resolver) (inner : NativeType) (shape : TypeShape) : Resolution Contents := do
  let innerId ← resolve inner
  pure ⟨[innerId], shape⟩

/-- What there is to do for an expression that leads nowhere yet. -/
inductive Form where
  /-- There is no such type. -/
  | none (e : Error)
  /-- It leads where another expression leads. -/
  | shared (other : NativeType)
  /-- It gets a number of its own. -/
  | own (name : String) (isNullable : Bool) (contents : Resolver → TypeId → Resolution Contents)

/-- A source type, with arguments if it is generic. -/
def sourceForm (registry : Registry) (native : NativeType) (source : SourceType)
    (arguments : List NativeType) : Form :=
  match registry.inheritanceChain source.name with
  | .ok chain =>
    let name := if arguments.isEmpty then source.name else native.text
    .own name true fun resolve => sourceContents registry resolve source chain arguments name
  | .error e => .none e

/-- What there is to do for a declared name. -/
def namedForm (registry : Registry) (name : String) : Form :=
  match registry.enumMembers? name with
  | some members => .own name false fun _ _ => pure ⟨[], .enum members⟩
  | none =>
    match registry.sourceType? name with
    | some s =>
      if s.isGeneric then .none (.notSupported (.genericWithoutArguments name s.typeParameters.length))
      else sourceForm registry (.named name) s []
    | none =>
      match registry.proxyTarget? name with
      | some target =>
        if (registry.sourceType? target).isSome then .shared (.named target) else .none (.unknownType target)
      | none => .none (.unknownType name)

/-- What there is to do for an instance of a generic definition. -/
def instanceForm (registry : Registry) (native : NativeType) (definition : String)
    (arguments : List NativeType) : Form :=
  match registry.sourceType? definition with
  | some s =>
    if !s.isGeneric then .none (.unknownType native.text)
    else if s.typeParameters.length ≠ arguments.length then
      .none (.notSupported (.argumentCount definition s.typeParameters.length arguments.length))
    else sourceForm registry native s arguments
  | none => .none (.unknownType native.text)

/-- What there is to do for an expression. -/
def form (registry : Registry) (native : NativeType) : Form :=
  match native with
  | .value kind => .own kind.name kind.isNullable fun _ _ => pure ⟨[], .value kind⟩
  | .nullable inner =>
    match plainShape? registry inner with
    | some shape => .own native.text true fun resolve _ => optionalContents resolve inner shape
    | none => .shared inner
  | .list element => .own native.text true fun resolve _ => listContents resolve element
  | .map key value =>
    if key ≠ .value .string then .none (.notSupported (.dictionaryKey key.text))
    else .own native.text true fun resolve _ => mapContents resolve key value
  | .named name => namedForm registry name
  | .generic definition arguments => instanceForm registry native definition arguments
  | .parameter _ => .none (.unknownType s!"unbound type parameter {native.text}")

/-- Does what there is to do. -/
def Form.build (resolve : Resolver) (native : NativeType) : Form → Resolution TypeId
  | .none e => Action.fail e
  | .shared other => do
    let id ← resolve other
    identify native id
  | .own name isNullable contents => enter native name isNullable (contents resolve)

section Form

variable {registry : Registry} {resolve : Resolver} {native : NativeType}

theorem runOn_source (source : SourceType) (arguments : List NativeType) (s : Session) :
    (Resolution.source registry resolve native source arguments).runOn s =
      ((sourceForm registry native source arguments).build resolve native).runOn s := by
  rw [Resolution.source, Action.runOn_bind, runOn_settled, sourceForm]
  cases registry.inheritanceChain source.name with
  | error e => rfl
  | ok chain => rfl

theorem runOn_named (name : String) (s : Session) :
    (named registry resolve name).runOn s =
      ((namedForm registry name).build resolve (.named name)).runOn s := by
  unfold named namedForm
  cases registry.enumMembers? name with
  | some members => rfl
  | none =>
      cases registry.sourceType? name with
      | some declared =>
          dsimp only
          cases declared.isGeneric with
          | true => rfl
          | false => exact runOn_source declared [] s
      | none =>
          cases registry.proxyTarget? name with
          | none => rfl
          | some target =>
              dsimp only [proxy]
              cases (registry.sourceType? target).isSome <;> rfl

theorem runOn_instance_ (definition : String) (arguments : List NativeType) (s : Session) :
    (instance_ registry resolve native definition arguments).runOn s =
      ((instanceForm registry native definition arguments).build resolve native).runOn s := by
  unfold instance_ instanceForm
  cases registry.sourceType? definition with
  | none => rfl
  | some declared =>
      dsimp only
      cases declared.isGeneric with
      | false => rfl
      | true =>
          by_cases hlength : declared.typeParameters.length = arguments.length
          · simp only [hlength, ne_eq, not_true_eq_false, Bool.not_true, Bool.false_eq_true, if_false]
            exact runOn_source declared arguments s
          · simp only [hlength, ne_eq, not_false_eq_true, Bool.not_true, Bool.false_eq_true, if_false,
              if_true]
            rfl

/-- **The resolver does for an expression what its form says.** Whether an optional type has a number of its
own, the resolver finds out from the table. -/
theorem runOn_build (hnullable : ∀ inner, native ≠ .nullable inner) (s : Session) :
    (build registry resolve native).runOn s = ((form registry native).build resolve native).runOn s := by
  cases native with
  | value kind => rfl
  | nullable inner => exact absurd rfl (hnullable inner)
  | list element => rfl
  | map key value =>
      unfold build form
      dsimp only
      by_cases hkey : key = .value .string
      · rw [if_neg (not_not_intro hkey), if_neg (not_not_intro hkey)]
        rfl
      · rw [if_pos hkey, if_pos hkey]
        rfl
  | named name => exact runOn_named name s
  | generic definition arguments => exact runOn_instance_ definition arguments s
  | parameter index => rfl

theorem sourceForm_ne_shared (source : SourceType) (arguments : List NativeType) (other : NativeType) :
    sourceForm registry native source arguments ≠ .shared other := by
  unfold sourceForm
  cases registry.inheritanceChain source.name with
  | error e => exact nofun
  | ok chain => exact nofun

/-- The expressions that lead where others lead. -/
inductive Shares (registry : Registry) : NativeType → NativeType → Prop
  | optional {inner : NativeType} (h : plainShape? registry inner = none) :
      Shares registry (.nullable inner) inner
  | proxy {name target : String} (henum : registry.enumMembers? name = none)
      (hsource : registry.sourceType? name = none) (hproxy : registry.proxyTarget? name = some target)
      (htarget : (registry.sourceType? target).isSome = true) : Shares registry (.named name) (.named target)

theorem shares_of_namedForm {name : String} {other : NativeType}
    (h : namedForm registry name = .shared other) : Shares registry (.named name) other := by
  unfold namedForm at h
  cases henum : registry.enumMembers? name with
  | some members =>
      rw [henum] at h
      cases h
  | none =>
      rw [henum] at h
      dsimp only at h
      cases hsource : registry.sourceType? name with
      | some declared =>
          rw [hsource] at h
          dsimp only at h
          split at h
          · cases h
          · exact absurd h (sourceForm_ne_shared _ _ _)
      | none =>
          rw [hsource] at h
          dsimp only at h
          cases hproxy : registry.proxyTarget? name with
          | none =>
              rw [hproxy] at h
              cases h
          | some target =>
              rw [hproxy] at h
              dsimp only at h
              split at h
              · rename_i htarget
                cases h
                exact .proxy henum hsource hproxy htarget
              · cases h

theorem instanceForm_ne_shared (definition : String) (arguments : List NativeType) (other : NativeType) :
    instanceForm registry native definition arguments ≠ .shared other := by
  unfold instanceForm
  cases registry.sourceType? definition with
  | none => exact nofun
  | some declared =>
      dsimp only
      split
      · exact nofun
      · split
        · exact nofun
        · exact sourceForm_ne_shared _ _ _

theorem shares_of_form {other : NativeType} (h : form registry native = .shared other) :
    Shares registry native other := by
  cases native with
  | nullable inner =>
      unfold form at h
      dsimp only at h
      cases hplain : plainShape? registry inner with
      | some shape =>
          rw [hplain] at h
          cases h
      | none =>
          rw [hplain] at h
          cases h
          exact .optional hplain
  | map key value =>
      unfold form at h
      dsimp only at h
      split at h <;> cases h
  | named name => exact shares_of_namedForm h
  | generic definition arguments => exact absurd h (instanceForm_ne_shared _ _ _)
  | value kind => cases h
  | list element => cases h
  | parameter index => cases h

/-- The expression whose number another shares is resolved before it. -/
theorem Shares.mem_leads {other : NativeType} (h : Shares registry native other) :
    other ∈ leads registry native := by
  cases h with
  | optional hplain => exact List.mem_cons_self
  | proxy henum hsource hproxy htarget =>
      unfold leads
      simp only [henum, hsource, hproxy, htarget, if_true, List.mem_singleton]

/-- The expressions that get a number of their own, with what their types are called, whether these hold null,
and what is in them. -/
inductive Owns (registry : Registry) :
    NativeType → String → Bool → (Resolver → TypeId → Resolution Contents) → Prop
  | value (kind : ValueKind) :
      Owns registry (.value kind) kind.name kind.isNullable fun _ _ => pure ⟨[], .value kind⟩
  | enum {name : String} {members : List String} (h : registry.enumMembers? name = some members) :
      Owns registry (.named name) name false fun _ _ => pure ⟨[], .enum members⟩
  | optional {inner : NativeType} {shape : TypeShape} (h : plainShape? registry inner = some shape) :
      Owns registry (.nullable inner) (NativeType.nullable inner).text true fun resolve _ =>
        optionalContents resolve inner shape
  | list (element : NativeType) :
      Owns registry (.list element) (NativeType.list element).text true fun resolve _ =>
        listContents resolve element
  | map (value : NativeType) :
      Owns registry (.map (.value .string) value) (NativeType.map (.value .string) value).text true
        fun resolve _ => mapContents resolve (.value .string) value
  | source {native : NativeType} {source : SourceType} {chain : List SourceType}
      {arguments : List NativeType} (h : plainShape? registry native = none)
      (hsource : ∃ key, registry.sourceType? key = some source)
      (hchain : registry.inheritanceChain source.name = .ok chain) :
      Owns registry native (if arguments.isEmpty then source.name else native.text) true fun resolve =>
        sourceContents registry resolve source chain arguments
          (if arguments.isEmpty then source.name else native.text)

variable {name : String} {isNullable : Bool} {contents : Resolver → TypeId → Resolution Contents}

theorem owns_of_sourceForm {source : SourceType} {arguments : List NativeType}
    (hplain : plainShape? registry native = none) (hsource : ∃ key, registry.sourceType? key = some source)
    (h : sourceForm registry native source arguments = .own name isNullable contents) :
    Owns registry native name isNullable contents := by
  unfold sourceForm at h
  cases hchain : registry.inheritanceChain source.name with
  | error e =>
      rw [hchain] at h
      cases h
  | ok chain =>
      rw [hchain] at h
      cases h
      exact .source hplain hsource hchain

theorem owns_of_form (h : form registry native = .own name isNullable contents) :
    Owns registry native name isNullable contents := by
  cases native with
  | value kind =>
      cases h
      exact .value kind
  | nullable inner =>
      unfold form at h
      dsimp only at h
      cases hplain : plainShape? registry inner with
      | some shape =>
          rw [hplain] at h
          cases h
          exact .optional hplain
      | none =>
          rw [hplain] at h
          cases h
  | list element =>
      cases h
      exact .list element
  | map key value =>
      unfold form at h
      dsimp only at h
      split at h
      · cases h
      · rename_i hkey
        cases h
        rw [Classical.not_not.mp hkey]
        exact .map value
  | named declared =>
      unfold form namedForm at h
      dsimp only at h
      cases henum : registry.enumMembers? declared with
      | some members =>
          rw [henum] at h
          cases h
          exact .enum henum
      | none =>
          rw [henum] at h
          dsimp only at h
          cases hsource : registry.sourceType? declared with
          | some source =>
              rw [hsource] at h
              dsimp only at h
              split at h
              · cases h
              · refine owns_of_sourceForm ?_ ⟨declared, hsource⟩ h
                simp only [plainShape?, henum, hsource]
          | none =>
              rw [hsource] at h
              dsimp only at h
              split at h
              · split at h <;> cases h
              · cases h
  | generic definition arguments =>
      unfold form instanceForm at h
      dsimp only at h
      split at h
      · rename_i source hsource
        split at h
        · cases h
        · split at h
          · cases h
          · exact owns_of_sourceForm rfl ⟨definition, hsource⟩ h
      · cases h
  | parameter index => cases h

end Form

/-! ## Types that are optional once more -/

section Plain

variable {registry : Registry} {native other : NativeType} {shape : TypeShape}

/-- Only values and members of enums are optional once more. -/
theorem plainShape?_cases (h : plainShape? registry native = some shape) :
    (∃ kind, shape = .value kind) ∨ ∃ members, shape = .enum members := by
  cases native with
  | value kind =>
      unfold plainShape? at h
      split at h
      · cases h
      · cases h
        exact .inl ⟨kind, rfl⟩
  | nullable inner =>
      unfold plainShape? at h
      split at h
      · cases h
        exact .inr ⟨_, rfl⟩
      · cases h
  | named name =>
      unfold plainShape? at h
      split at h
      · cases h
        exact .inr ⟨_, rfl⟩
      · split at h
        · obtain ⟨members, -, hshape⟩ := Option.map_eq_some_iff.mp h
          exact .inr ⟨members, hshape.symm⟩
        · cases h
      · cases h
  | list element => cases h
  | map key value => cases h
  | generic definition arguments => cases h
  | parameter index => cases h

theorem agrees_of_plainShape? (r : TypeId → TypeId → Prop) (h : plainShape? registry native = some shape) :
    shape.Agrees r shape := by
  rcases plainShape?_cases h with ⟨kind, rfl⟩ | ⟨members, rfl⟩
  · exact .value kind
  · exact .enum members

/-- Expressions that share a number are optional once more in the same way. -/
theorem Shares.plainShape?_eq (h : Shares registry native other) :
    plainShape? registry native = plainShape? registry other := by
  cases h with
  | optional hplain => rw [plainShape?, hplain]
  | proxy henum hsource hproxy htarget =>
      obtain ⟨declared, hdeclared⟩ := Option.isSome_iff_exists.mp htarget
      simp only [plainShape?, henum, hsource, hproxy, hdeclared, Option.isSome_some, if_true]
      cases registry.enumMembers? _ <;> rfl

/-- What is found in a type tells the same of it as its expression. -/
theorem Owns.optionalShape?_eq {name : String} {isNullable : Bool}
    {contents : Resolver → TypeId → Resolution Contents} (h : Owns registry native name isNullable contents)
    {resolve : Resolver} {id new : TypeId} {s s' : Session} {c : Contents}
    (hrun : (contents resolve id).runOn s = (.ok c, s')) :
    optionalShape? ⟨new, name, isNullable, c.arguments, c.shape⟩ = plainShape? registry native := by
  cases h with
  | value kind =>
      cases hrun
      rfl
  | enum henum =>
      cases hrun
      simp only [optionalShape?, plainShape?, henum]
  | @optional inner shape hplain =>
      obtain ⟨innerId, s₁, -, hpure⟩ := exists_of_bind hrun
      cases hpure
      rw [plainShape?, hplain]
      rcases plainShape?_cases hplain with ⟨kind, rfl⟩ | ⟨members, rfl⟩ <;> rfl
  | list element =>
      obtain ⟨elementId, s₁, -, hpure⟩ := exists_of_bind hrun
      cases hpure
      rfl
  | map value =>
      obtain ⟨keyId, s₁, -, hrest⟩ := exists_of_bind hrun
      obtain ⟨valueId, s₂, -, hpure⟩ := exists_of_bind hrest
      cases hpure
      rfl
  | @source _ source chain arguments hplain hsource hchain =>
      obtain ⟨base, s₁, -, hrest⟩ := exists_of_bind hrun
      obtain ⟨argumentIds, s₂, -, hrest⟩ := exists_of_bind hrest
      obtain ⟨properties, s₃, -, hrest⟩ := exists_of_bind hrest
      obtain ⟨constructor, s₄, -, hrest⟩ := exists_of_bind hrest
      obtain ⟨shape, s₅, hshape, hpure⟩ := exists_of_bind hrest
      cases hpure
      rw [hplain]
      unfold shapeOf at hshape
      split at hshape
      · cases hshape
        rfl
      · obtain ⟨address, s₆, -, hpure⟩ := exists_of_bind hshape
        cases hpure
        rfl

end Plain

/-! ## Steps that answer alike -/

/-- What is to be shown of two steps whose answers are to be related in a given way. It goes through sequences
of steps. -/
structure Comparison where
  Related : {α : Type} → (α → α → Prop) → Resolution α → Resolution α → Prop
  related_pure : ∀ {α : Type} {A : α → α → Prop} {a b : α}, A a b → Related A (pure a) (pure b)
  related_bind : ∀ {α β : Type} {A : α → α → Prop} {B : β → β → Prop} {x y : Resolution α}
    {f g : α → Resolution β}, Related A x y → (∀ a b, A a b → Related B (f a) (g b)) →
    Related B (x >>= f) (y >>= g)
  related_settled : ∀ {α : Type} (outcome : Except Error α), Related Eq (settled outcome) (settled outcome)

/-- What is found in a type, but for numbers of types. -/
structure Contents.Agrees (r : TypeId → TypeId → Prop) (c c' : Contents) : Prop where
  arguments : List.Forall₂ r c.arguments c'.arguments
  shape : c.shape.Agrees r c'.shape

section Tables

variable {r : TypeId → TypeId → Prop} {p q : Property} {table table' : List Property}

/-- What does not depend on numbers is the same in properties that agree. -/
theorem eq_of_agrees {α : Type} {f : Property → α}
    (hf : ∀ p type declaringType, f { p with type, declaringType } = f p) (h : p.Agrees r q) : f p = f q :=
  (hf p _ _).symm.trans (congrArg f h.others)

theorem name_eq_of_agrees (h : p.Agrees r q) : p.name = q.name :=
  eq_of_agrees (fun _ _ _ => rfl) h

theorem forall₂_putProperty (hp : p.Agrees r q) (h : List.Forall₂ (Property.Agrees r) table table') :
    List.Forall₂ (Property.Agrees r) (putProperty p table) (putProperty q table') := by
  induction h with
  | nil => exact .cons hp .nil
  | @cons first first' rest rest' hfirst hrest ih =>
      have hsame : first.isNamed p.name = first'.isNamed q.name := by
        unfold Property.isNamed
        rw [name_eq_of_agrees hfirst, name_eq_of_agrees hp]
      unfold putProperty
      rw [← hsame]
      split
      · exact .cons hp hrest
      · exact .cons hfirst ih

theorem rel_find? (name : String) (h : List.Forall₂ (Property.Agrees r) table table') :
    Option.Rel (Property.Agrees r) (table.find? (·.isNamed name)) (table'.find? (·.isNamed name)) := by
  induction h with
  | nil => exact .none
  | @cons first first' rest rest' hfirst hrest ih =>
      have hsame : first.isNamed name = first'.isNamed name := by
        unfold Property.isNamed
        rw [name_eq_of_agrees hfirst]
      rw [List.find?_cons, List.find?_cons, ← hsame]
      cases first.isNamed name with
      | true => exact .some hfirst
      | false => exact ih

/-- What a constructor takes does not depend on numbers of types. -/
theorem parameters_eq_of_agrees (type : String) (names : List String)
    (h : List.Forall₂ (Property.Agrees r) table table') :
    parameters type table names = parameters type table' names := by
  induction names with
  | nil => rfl
  | cons name rest ih =>
      unfold parameters
      cases hfound : table.find? (·.isNamed name) with
      | none =>
          have hother := rel_find? name h
          rw [hfound] at hother
          cases hother' : table'.find? (·.isNamed name) with
          | none => rfl
          | some q =>
              rw [hother'] at hother
              cases hother
      | some p =>
          have hother := rel_find? name h
          rw [hfound] at hother
          cases hother' : table'.find? (·.isNamed name) with
          | none =>
              rw [hother'] at hother
              cases hother
          | some q =>
              rw [hother'] at hother
              cases hother with
              | some hpq =>
                  have hdefault : p.default = q.default := eq_of_agrees (fun _ _ _ => rfl) hpq
                  dsimp only
                  rw [ih, name_eq_of_agrees hpq, hdefault]

theorem constructorNames_eq_of_agrees (chain : List SourceType)
    (h : List.Forall₂ (Property.Agrees r) table table') :
    constructorNames chain table = constructorNames chain table' := by
  have hnames : (table.filter (·.required)).map (·.name) = (table'.filter (·.required)).map (·.name) := by
    induction h with
    | nil => rfl
    | @cons p q rest rest' hp _ ih =>
        have hrequired : p.required = q.required := eq_of_agrees (fun _ _ _ => rfl) hp
        rw [List.filter_cons, List.filter_cons, ← hrequired]
        split
        · rw [List.map_cons, List.map_cons, ih, name_eq_of_agrees hp]
        · exact ih
  unfold constructorNames
  rw [hnames]

theorem members_agree (source : SourceType) {base base' : Option TypeId} (hbase : Option.Rel r base base')
    (h : List.Forall₂ (Property.Agrees r) table table') (constructor : List ConstructorParameter) :
    (members source base table constructor).Agrees r (members source base' table' constructor) := by
  have hid : table.findIdx? (·.isPrimaryId) = table'.findIdx? (·.isPrimaryId) := by
    induction h with
    | nil => rfl
    | @cons p q rest rest' hp _ ih =>
        have hprimary : p.isPrimaryId = q.isPrimaryId := eq_of_agrees (fun _ _ _ => rfl) hp
        rw [List.findIdx?_cons, List.findIdx?_cons, hprimary, ih]
  refine ⟨h, hbase, ?_⟩
  unfold members
  rw [hid]

end Tables

namespace Comparison

variable (C : Comparison) {r : TypeId → TypeId → Prop} {registry : Registry} {resolve resolve' : Resolver}
  {arguments : List NativeType} {id id' : TypeId}
  (h : ∀ native, C.Related r (resolve native) (resolve' native))

include h

theorem related_each (natives : List NativeType) :
    C.Related (List.Forall₂ r) (each resolve natives) (each resolve' natives) := by
  induction natives with
  | nil => exact C.related_pure .nil
  | cons native rest ih =>
      refine C.related_bind (h native) fun _ _ hid => ?_
      exact C.related_bind ih fun _ _ hrest => C.related_pure (.cons hid hrest)

theorem related_numberOf (self name : String) (hid : r id id') :
    C.Related r (numberOf resolve self id name) (numberOf resolve' self id' name) := by
  unfold numberOf
  split
  · exact C.related_pure hid
  · exact h _

theorem related_baseOf (base : Option String) :
    C.Related (Option.Rel r) (baseOf resolve base) (baseOf resolve' base) := by
  cases base with
  | none => exact C.related_pure .none
  | some name => exact C.related_bind (h _) fun _ _ hij => C.related_pure (.some hij)

theorem related_declare (hid : r id id') (defs : List PropertyDef) {table table' : List Property}
    (htable : List.Forall₂ (Property.Agrees r) table table') :
    C.Related (List.Forall₂ (Property.Agrees r)) (declare resolve arguments id defs table)
      (declare resolve' arguments id' defs table') := by
  induction defs generalizing table table' with
  | nil => exact C.related_pure htable
  | cons d rest ih =>
      refine C.related_bind (h _) fun _ _ htype => ih (forall₂_putProperty ?_ htable)
      exact ⟨htype, hid, rfl⟩

theorem related_inherit (self : String) (hid : r id id') (chain : List SourceType)
    {table table' : List Property} (htable : List.Forall₂ (Property.Agrees r) table table') :
    C.Related (List.Forall₂ (Property.Agrees r)) (inherit resolve arguments self id chain table)
      (inherit resolve' arguments self id' chain table') := by
  induction chain generalizing table table' with
  | nil => exact C.related_pure htable
  | cons source rest ih =>
      refine C.related_bind (C.related_numberOf h _ _ hid) fun _ _ hdeclaring => ?_
      exact C.related_bind (C.related_declare h hdeclaring _ htable) fun _ _ => ih

theorem related_parentOf (parent : Option ParentDef) :
    C.Related (Option.Rel (ResourceParent.Agrees r)) (parentOf resolve parent) (parentOf resolve' parent) := by
  cases parent with
  | none => exact C.related_pure .none
  | some parent => exact C.related_bind (h _) fun _ _ hij => C.related_pure (.some ⟨hij, rfl⟩)

theorem related_address (source : SourceType) (chain : List SourceType) (hid : r id id') :
    C.Related (ResourceAddress.Agrees r) (address registry resolve source chain id)
      (address registry resolve' source chain id') := by
  refine C.related_bind (C.related_numberOf h _ _ hid) fun _ _ hbase => ?_
  exact C.related_bind (C.related_parentOf h _) fun _ _ hparent =>
    C.related_pure ⟨hparent, hbase, rfl⟩

theorem related_shapeOf (source : SourceType) (chain : List SourceType) (hid : r id id') {m m' : Members}
    (hm : m.Agrees r m') :
    C.Related (TypeShape.Agrees r) (shapeOf registry resolve source chain id m)
      (shapeOf registry resolve' source chain id' m') := by
  unfold shapeOf
  split
  · exact C.related_pure (.structured hm)
  · exact C.related_bind (C.related_address h _ _ hid) fun _ _ ha => C.related_pure (.resource hm ha)

theorem related_sourceContents (source : SourceType) (chain : List SourceType) (name : String)
    (hid : r id id') :
    C.Related (Contents.Agrees r) (sourceContents registry resolve source chain arguments name id)
      (sourceContents registry resolve' source chain arguments name id') := by
  refine C.related_bind (C.related_baseOf h _) fun _ _ hbase => ?_
  refine C.related_bind (C.related_each h _) fun _ _ hids => ?_
  refine C.related_bind (C.related_inherit h _ hid _ .nil) fun _ _ htable => ?_
  rw [← constructorNames_eq_of_agrees chain htable, ← parameters_eq_of_agrees name _ htable]
  refine C.related_bind (C.related_settled _) fun constructor constructor' hsame => ?_
  subst hsame
  refine C.related_bind (C.related_shapeOf h _ _ hid (members_agree source hbase htable _)) ?_
  exact fun _ _ hshape => C.related_pure ⟨hids, hshape⟩

theorem related_optionalContents (inner : NativeType) {shape : TypeShape} (hshape : shape.Agrees r shape) :
    C.Related (Contents.Agrees r) (optionalContents resolve inner shape)
      (optionalContents resolve' inner shape) :=
  C.related_bind (h inner) fun _ _ hij => C.related_pure ⟨.cons hij .nil, hshape⟩

theorem related_listContents (element : NativeType) :
    C.Related (Contents.Agrees r) (listContents resolve element) (listContents resolve' element) :=
  C.related_bind (h element) fun _ _ hij => C.related_pure ⟨.cons hij .nil, .collection hij⟩

theorem related_mapContents (key value : NativeType) :
    C.Related (Contents.Agrees r) (mapContents resolve key value) (mapContents resolve' key value) :=
  C.related_bind (h key) fun _ _ hkey => C.related_bind (h value) fun _ _ hvalue =>
    C.related_pure ⟨.cons hkey (.cons hvalue .nil), .dictionary hkey hvalue⟩

/-- **What is in a type is told alike**, if what it mentions is answered alike. -/
theorem related_contents {native : NativeType} {name : String} {isNullable : Bool}
    {contents : Resolver → TypeId → Resolution Contents} (howns : Owns registry native name isNullable contents)
    (hid : r id id') :
    C.Related (Contents.Agrees r) (contents resolve id) (contents resolve' id') := by
  cases howns with
  | value kind => exact C.related_pure ⟨.nil, .value kind⟩
  | enum henum => exact C.related_pure ⟨.nil, .enum _⟩
  | optional hplain => exact C.related_optionalContents h _ (agrees_of_plainShape? r hplain)
  | list element => exact C.related_listContents h element
  | map value => exact C.related_mapContents h _ value
  | source hplain hsource hchain => exact C.related_sourceContents h _ _ _ hid

end Comparison

end Resolution

end ResourceQuery
