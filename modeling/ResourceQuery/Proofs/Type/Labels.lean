import ResourceQuery.Proofs.Type.Calls
import ResourceQuery.Proofs.Type.Naming
import ResourceQuery.Proofs.Text.Splitting
import Mathlib.Data.List.TakeWhile

set_option autoImplicit false

/-! # Types under their declared names

A registry refuses a name that is taken, letter for letter. A graph looks names up in other ways: a name of
a value kind is that kind before anything declared under it is considered, and what is looked up by name is
told up to the case of letters, the first one that was resolved being kept. So a declared name may lead to
another declaration (`declared_names_clash`).

`declared_name_leads` says what a declared name leads to in any case, and when it is what was declared under
it. The invariant behind it is that every descriptor has a label: the name of a value kind, a text with an
angle bracket, or the declared name that leads to it (`TypeTable.Labelled`). A resolution keeps it, since all
it does between entering a type and completing it is to resolve others (`Course.preserving`).
-/

namespace ResourceQuery

/-- Only letters have a small letter. -/
theorem CharClass.eq_of_toLower_eq {c d : Char} (hd : d.isAlpha = false) (h : c.toLower = d) : c = d := by
  by_cases halpha : c.isAlpha = true
  · have hsmall : c.toLower.isAlpha = true :=
      CharClass.of_isAlpha (p := fun c => c.toLower.isAlpha = true) (by decide) halpha
    rw [h, hd] at hsmall
    cases hsmall
  · rwa [CharClass.toLower_of_not_isAlpha (Bool.eq_false_iff.mpr halpha)] at h

/-! ## What a resolution does between its entries -/

namespace Resolution

variable {α : Type} {registry : Registry} {resolve : Resolver} {P : Session → Prop}

/-- The course of a property that is kept wherever a type is resolved. Nothing else is entered or completed
on the way. -/
def Course.preserving (P : Session → Prop) : Course where
  Holds pending _ s := pending = [] ∧ P s
  Free _ := False
  Fails _ _ := True

theorem Course.allows_preserving (P : Session → Prop) : (preserving P).Allows where
  forget _ hs := hs
  found hs _ := hs
  reserve _ _ hfree _ := hfree.elim
  fill _ hs _ _ := by cases hs.1
  enter _ _ _ _ _ hfree _ _ := hfree.elim
  identify _ hfree _ := hfree.elim
  fails _ _ := trivial

/-- The property holds after the step if it held before, and the step succeeds. -/
def Preserves (P : Session → Prop) (x : Resolution α) : Prop :=
  ∀ s a s', P s → x.runOn s = (.ok a, s') → P s'

theorem preserves_of_along (known : List TypeId) {gives : α → List TypeId} {x : Resolution α}
    (h : (Course.preserving P).Along [] known gives x) : Preserves P x := by
  intro s a s' hs hrun
  have hends := h s ⟨rfl, hs⟩
  rw [hrun] at hends
  exact (hends.1 a rfl).2

theorem resolves_of_preserves (h : ∀ native, Preserves P (resolve native)) (natives : List NativeType) :
    (Course.preserving P).Resolves [] resolve natives := by
  intro native _ known s hs
  refine ⟨fun id hid => ⟨rfl, ?_⟩, fun _ _ => trivial⟩
  exact h native s id _ hs.2 (Prod.ext hid rfl)

variable (h : ∀ native, Preserves P (resolve native))

include h

theorem preserves_listContents (element : NativeType) : Preserves P (listContents resolve element) :=
  preserves_of_along [] (Course.along_listContents (Course.allows_preserving P)
    (resolves_of_preserves h _))

theorem preserves_mapContents (key value : NativeType) :
    Preserves P (mapContents resolve key value) :=
  preserves_of_along [] (Course.along_mapContents (Course.allows_preserving P)
    (resolves_of_preserves h _))

theorem preserves_sourceContents (source : SourceType) (chain : List SourceType)
    (arguments : List NativeType) (name : String) (id : TypeId) :
    Preserves P (sourceContents registry resolve source chain arguments name id) :=
  preserves_of_along [id] (Course.along_sourceContents (Course.allows_preserving P)
    (resolves_of_preserves h _) List.mem_cons_self)

end Resolution

/-! ## Labels -/

/-- The name is that of a proxy, and not of an enum or a source type. -/
structure Registry.IsProxy (r : Registry) (name target : String) : Prop where
  enum : r.enumMembers? name = none
  source : r.sourceType? name = none
  target : r.proxyTarget? name = some target

/-- The name is that of an enum or of a source type without parameters. -/
def Registry.IsPlain (r : Registry) (name : String) : Prop :=
  (r.enumMembers? name).isSome = true ∨
    ∃ source, r.sourceType? name = some source ∧ source.isGeneric = false

/-- The expression is made of other types. -/
def NativeType.IsComposite : NativeType → Prop
  | .list _ | .map .. | .nullable _ | .generic .. => True
  | .value _ | .named _ | .parameter _ => False

namespace TypeTable

/-- The descriptor is called as its expression is written. -/
def IsLabel (r : Registry) (native : NativeType) (d : Descriptor) : Prop :=
  match native with
  | .value kind => d.name = kind.name
  | .named name => r.IsPlain name ∧ r.Pins (.named name) ∧ d.name = name ∧
      ∀ members, r.enumMembers? name = some members → d.shape = .enum members
  | _ => '<' ∈ d.name.toList

/-- What the descriptors of a table are called, while types may be under way. -/
structure Labelled (r : Registry) (t : TypeTable) : Prop where
  /-- A name that leads somewhere is that of an enum, of a source type, or of a proxy, which leads where its
  target does. -/
  entered : ∀ name id, t.byNative.lookup (.named name) = some id → r.Pins (.named name) ∨
    ∃ target, r.IsProxy name target ∧ (r.sourceType? target).isSome = true ∧
      r.Pins (.named target) ∧ t.byNative.lookup (.named target) = some id
  named : ∀ name id d, r.Pins (.named name) → t.byNative.lookup (.named name) = some id →
    t.get? id = some d → d.name = name ∧
      ∀ members, r.enumMembers? name = some members → d.shape = .enum members
  owned : ∀ id d, t.get? id = some d → (∃ kind : ValueKind, d.name = kind.name) ∨
    '<' ∈ d.name.toList ∨
      r.IsPlain d.name ∧ r.Pins (.named d.name) ∧ t.byNative.lookup (.named d.name) = some id

variable {r : Registry} {t t' : TypeTable} {native : NativeType} {name : String} {d : Descriptor}

theorem labelled_empty (r : Registry) : empty.Labelled r where
  entered := fun _ _ h => nomatch h
  named := fun _ _ _ _ h => nomatch h
  owned := fun _ _ h => nomatch h

theorem Labelled.reserve (h : t.Labelled r)
    (hfree : r.Pins native → t.byNative.lookup native = none)
    (hpins : ∀ name, native = .named name → r.Pins (.named name)) (name : String) :
    (t.reserve native name).2.Labelled r := by
  have hkept : ∀ other id, r.Pins other → t.byNative.lookup other = some id →
      (t.reserve native name).2.byNative.lookup other = some id :=
    (frame_reserve name hfree).natives
  refine ⟨fun other id hid => ?_, fun other id d hpin hid hd => ?_, fun id d hd => ?_⟩
  · rw [lookup_natives_reserve] at hid
    split at hid
    · rename_i hsame
      exact Or.inl (hpins other hsame.symm)
    · refine (h.entered other id hid).imp_right ?_
      rintro ⟨target, hproxy, hsource, hpin, htarget⟩
      exact ⟨target, hproxy, hsource, hpin, hkept _ id hpin htarget⟩
  · rw [get?_reserve] at hd
    have hbelow := lt_of_get? hd
    exact h.named other id d hpin ((frame_reserve name hfree).nativesBack _ id hpin hid hbelow) hd
  · rw [get?_reserve] at hd
    exact (h.owned id d hd).imp_right (Or.imp_right fun ⟨hplain, hpin, hid⟩ =>
      ⟨hplain, hpin, hkept _ id hpin hid⟩)

theorem Labelled.fill (h : t.Labelled r) (hpending : Pending r t native d.name d.id)
    (hlabel : IsLabel r native d) : (t.fill d).Labelled r := by
  have hget : ∀ id e, (t.fill d).get? id = some e → (id = d.id ∧ e = d) ∨ t.get? id = some e := by
    intro id e he
    by_cases hid : id = d.id
    · rw [hid, get?_fill_self hpending.below] at he
      exact Or.inl ⟨hid, (Option.some.inj he).symm⟩
    · rw [get?_fill_of_ne hid] at he
      exact Or.inr he
  refine ⟨h.entered, fun other id e hpin hid he => ?_, fun id e he => ?_⟩
  · rcases hget id e he with ⟨rfl, rfl⟩ | he
    · -- only the expression itself leads to the number
      rw [← hpending.pinned _ hpin hid] at hlabel
      exact hlabel.2.2
    · exact h.named other id e hpin hid he
  · rcases hget id e he with ⟨rfl, rfl⟩ | he
    · cases native with
      | value kind => exact Or.inl ⟨kind, hlabel⟩
      | named name =>
          obtain ⟨hplain, hpin, hname, -⟩ := hlabel
          exact Or.inr (Or.inr ⟨hname.symm ▸ hplain, hname.symm ▸ hpin,
            hname.symm ▸ hpending.pins hpin⟩)
      | list element => exact Or.inr (Or.inl hlabel)
      | map key value => exact Or.inr (Or.inl hlabel)
      | nullable inner => exact Or.inr (Or.inl hlabel)
      | generic definition arguments => exact Or.inr (Or.inl hlabel)
      | parameter index => exact Or.inr (Or.inl hlabel)
    · exact h.owned id e he

theorem Labelled.identify (h : t.Labelled r) {id : TypeId} (hunpinned : ¬r.Pins native)
    (hproxy : ∀ name, native = .named name → ∃ target, r.IsProxy name target ∧
      (r.sourceType? target).isSome = true ∧ r.Pins (.named target) ∧
        t.byNative.lookup (.named target) = some id) :
    (t.identify native id).Labelled r := by
  have hlookup : ∀ other, r.Pins other →
      (t.identify native id).byNative.lookup other = t.byNative.lookup other := by
    intro other hother
    have hne : (other == native) = false := by
      rw [beq_eq_false_iff_ne]
      rintro rfl
      exact hunpinned hother
    simp [TypeTable.identify, List.lookup_cons, hne]
  refine ⟨fun name id' hid => ?_, fun name id' d hpin hid hd => ?_, fun id' d hd => ?_⟩
  · have hold : ∀ target, r.Pins (.named target) → t.byNative.lookup (.named target) = some id' →
        (t.identify native id).byNative.lookup (.named target) = some id' :=
      fun target hpin htarget => (hlookup _ hpin).trans htarget
    simp only [TypeTable.identify, List.lookup_cons] at hid
    split at hid
    · rename_i hsame
      cases hid
      obtain ⟨target, hproxy, hsource, hpin, htarget⟩ := hproxy name (beq_iff_eq.mp hsame).symm
      exact Or.inr ⟨target, hproxy, hsource, hpin, hold target hpin htarget⟩
    · refine (h.entered name id' hid).imp_right ?_
      rintro ⟨target, hproxy, hsource, hpin, htarget⟩
      exact ⟨target, hproxy, hsource, hpin, hold target hpin htarget⟩
  · exact h.named name id' d hpin ((hlookup _ hpin).symm.trans hid) hd
  · rcases h.owned id' d hd with hkind | hbracket | ⟨hplain, hpin, hid⟩
    · exact Or.inl hkind
    · exact Or.inr (Or.inl hbracket)
    · exact Or.inr (Or.inr ⟨hplain, hpin, (hlookup _ hpin).trans hid⟩)

end TypeTable

namespace NativeType.IsComposite

variable {registry : Registry} {native : NativeType} (h : native.IsComposite)

include h

theorem ne_named (name : String) : native ≠ .named name := by
  rintro rfl
  exact h

theorem not_pins : ¬registry.Pins native := by
  cases native with
  | value kind => exact h.elim
  | named name => exact h.elim
  | _ => exact id

/-- Its text has an angle bracket. -/
theorem isLabel {d : Descriptor} (hname : d.name = native.text) :
    TypeTable.IsLabel registry native d := by
  cases native with
  | value kind => exact h.elim
  | named name => exact h.elim
  | parameter index => exact h.elim
  | list element => simp [TypeTable.IsLabel, hname, text]
  | map key value => simp [TypeTable.IsLabel, hname, text]
  | nullable inner => simp [TypeTable.IsLabel, hname, text]
  | generic definition arguments => simp [TypeTable.IsLabel, hname, text]

end NativeType.IsComposite

namespace Resolution

open TypeTable

variable {registry : Registry} {resolve : Resolver} {s s' : Session}

/-- Resolving leads from a sound table with labels to one. -/
def KeepsLabels (registry : Registry) (resolve : Resolver) : Prop :=
  ∀ native s id s', s.table.Sound registry → s.table.Labelled registry →
    (resolve native).runOn s = (.ok id, s') → s'.table.Labelled registry

/-- The session has a sound table with labels, which leaves the table `t` alone. -/
def Follows (registry : Registry) (t : TypeTable) (s : Session) : Prop :=
  s.table.Sound registry ∧ s.table.Labelled registry ∧ Frame registry t s.table

theorem preserves_follows (hresolve : Resolves registry resolve)
    (hlabels : KeepsLabels registry resolve) (t : TypeTable) (native : NativeType) :
    Preserves (Follows registry t) (resolve native) := by
  rintro s id s' ⟨hsound, hlabelled, hframe⟩ hrun
  obtain ⟨hsound', hframe'⟩ := hresolve.keeps native s hsound id s' hrun
  exact ⟨hsound', hlabels native s id s' hsound hlabelled hrun, hframe.trans hframe'⟩

/-- A type is entered under its own name, and its contents are resolved while its number is pending. -/
theorem labelled_enter {native : NativeType} {name : String} {isNullable : Bool}
    {contents : TypeId → Resolution Contents} {id : TypeId} (hs : s.table.Sound registry)
    (hl : s.table.Labelled registry)
    (hfree : registry.Pins native → s.table.byNative.lookup native = none)
    (hcontents : ∀ new t, Preserves (Follows registry t) (contents new))
    (hlabel : ∀ new s₁ c s₂, (contents new).runOn s₁ = (.ok c, s₂) →
      IsLabel registry native ⟨new, name, isNullable, c.arguments, c.shape⟩)
    (hpins : ∀ other, native = .named other → registry.Pins (.named other))
    (hrun : (enter native name isNullable contents).runOn s = (.ok id, s')) :
    s'.table.Labelled registry := by
  obtain ⟨new, s₁, hreserve, hrest⟩ := exists_of_bind hrun
  cases hreserve
  obtain ⟨c, s₂, hinside, hfill⟩ := exists_of_bind hrest
  cases hfill
  obtain ⟨-, hlabelled, hframe⟩ := hcontents _ (s.reserve native name).2.table _ c s₂
    ⟨hs.reserve name hfree, hl.reserve hfree hpins name, .refl _⟩ hinside
  exact hlabelled.fill ((pending_reserve hs native name).frame hframe) (hlabel _ _ c s₂ hinside)

/-- A type that is made of other types is entered under its text. -/
theorem labelled_enter_text {native : NativeType} {isNullable : Bool}
    {contents : TypeId → Resolution Contents} {id : TypeId} (hcomposite : native.IsComposite)
    (hs : s.table.Sound registry) (hl : s.table.Labelled registry)
    (hcontents : ∀ new t, Preserves (Follows registry t) (contents new))
    (hrun : (enter native native.text isNullable contents).runOn s = (.ok id, s')) :
    s'.table.Labelled registry :=
  labelled_enter hs hl (fun hpin => (hcomposite.not_pins hpin).elim) hcontents
    (fun _ _ _ _ _ => hcomposite.isLabel rfl) (fun other hother => (hcomposite.ne_named other hother).elim)
    hrun

theorem preserves_pure {α : Type} {P : Session → Prop} (a : α) :
    Preserves P (pure a : Resolution α) := by
  intro s b s' hs hrun
  cases hrun
  exact hs

theorem labelled_nullable {inner : NativeType} (hresolve : Resolves registry resolve)
    (hlabels : KeepsLabels registry resolve) {id : TypeId}
    (hs : s.table.Sound registry) (hl : s.table.Labelled registry)
    (hrun : (nullable resolve (.nullable inner) inner).runOn s = (.ok id, s')) :
    s'.table.Labelled registry := by
  obtain ⟨innerId, s₁, hinner, hrest⟩ := exists_of_bind hrun
  obtain ⟨d, s₂, hlook, hrest⟩ := exists_of_bind hrest
  cases hlook
  have hs₁ := (hresolve inner s innerId s₁ hs hinner).sound
  have hl₁ := hlabels inner s innerId s₁ hs hl hinner
  have hcomposite : (NativeType.nullable inner).IsComposite := trivial
  cases hshape : (s₁.table.get? innerId).bind optionalShape? with
  | none =>
      rw [hshape] at hrest
      cases hrest
      exact hl₁.identify hcomposite.not_pins fun name hname => by cases hname
  | some shape =>
      rw [hshape] at hrest
      exact labelled_enter_text hcomposite hs₁ hl₁ (fun _ _ => preserves_pure _) hrest

theorem labelled_source (hresolve : Resolves registry resolve) (hlabels : KeepsLabels registry resolve)
    {native : NativeType} {declared : SourceType} {arguments : List NativeType} {id : TypeId}
    (hs : s.table.Sound registry) (hl : s.table.Labelled registry)
    (hfree : registry.Pins native → s.table.byNative.lookup native = none)
    (hlabel : ∀ new isNullable (c : Contents), (registry.inheritanceChain declared.name).isOk = true →
      IsLabel registry native
        ⟨new, if arguments.isEmpty then declared.name else native.text, isNullable, c.arguments, c.shape⟩)
    (hpins : ∀ other, native = .named other →
      (registry.inheritanceChain declared.name).isOk = true → registry.Pins (.named other))
    (hrun : (source registry resolve native declared arguments).runOn s = (.ok id, s')) :
    s'.table.Labelled registry := by
  obtain ⟨chain, s₁, hchain, hrest⟩ := exists_of_bind hrun
  obtain ⟨hchain, hsame⟩ := eq_of_settled hchain
  rw [hsame] at hrest
  have hok : (registry.inheritanceChain declared.name).isOk = true := by rw [hchain]; rfl
  exact labelled_enter hs hl hfree
    (fun new t => preserves_sourceContents (preserves_follows hresolve hlabels t) _ _ _ _ _)
    (fun new s₁ c s₂ _ => hlabel new _ c hok) (fun other hother => hpins other hother hok) hrest

theorem labelled_proxy (hlabels : KeepsLabels registry resolve)
    (hsettles : ∀ native, Settles native (resolve native)) {name target : String} {id : TypeId}
    (hproxy : registry.IsProxy name target) (hs : s.table.Sound registry)
    (hl : s.table.Labelled registry)
    (hrun : (proxy registry resolve (.named name) target).runOn s = (.ok id, s')) :
    s'.table.Labelled registry := by
  unfold proxy at hrun
  split at hrun
  swap
  · cases hrun
  rename_i htarget
  obtain ⟨targetId, s₁, hfound, hidentify⟩ := exists_of_bind hrun
  have hl₁ := hlabels _ s targetId s₁ hs hl hfound
  have hleads := hsettles _ s targetId s₁ hfound
  have hunpinned : ¬registry.Pins (.named name) := fun hpin => by
    have hsome : (registry.declaredNames? name).isSome = true := hpin
    rw [declaredNames?_of_proxy hproxy.enum hproxy.source] at hsome
    cases hsome
  -- the target is a source type, and so no proxy itself
  have hpins : registry.Pins (.named target) := by
    refine (hl₁.entered target targetId hleads).resolve_right ?_
    rintro ⟨other, hother, -⟩
    rw [hother.source] at htarget
    cases htarget
  cases hidentify
  refine hl₁.identify hunpinned fun other hother => ?_
  cases hother
  exact ⟨target, hproxy, htarget, hpins, hleads⟩

theorem labelled_named (hkeyed : registry.KeyedByName) (hresolve : Resolves registry resolve)
    (hlabels : KeepsLabels registry resolve) (hsettles : ∀ native, Settles native (resolve native))
    {name : String} {id : TypeId} (hs : s.table.Sound registry) (hl : s.table.Labelled registry)
    (hnew : s.table.byNative.lookup (.named name) = none)
    (hrun : (named registry resolve name).runOn s = (.ok id, s')) : s'.table.Labelled registry := by
  unfold named at hrun
  cases henum : registry.enumMembers? name with
  | some members =>
      rw [henum] at hrun
      have hpins : registry.Pins (.named name) := by simp [Registry.Pins, Registry.declaredNames?, henum]
      refine labelled_enter hs hl (fun _ => hnew) (fun _ _ => preserves_pure _)
        (fun new s₁ c s₂ hpure => ?_) (fun other hother => ?_) hrun
      · cases hpure
        refine ⟨Or.inl (by rw [henum]; rfl), hpins, rfl, fun other hother => ?_⟩
        rw [henum] at hother
        cases hother
        rfl
      · cases hother
        exact hpins
  | none =>
      rw [henum] at hrun
      dsimp only at hrun
      cases hsource : registry.sourceType? name with
      | some declared =>
          rw [hsource] at hrun
          dsimp only at hrun
          split at hrun
          · cases hrun
          · rename_i hgeneric
            have hname := hkeyed name declared hsource
            have hpins : (registry.inheritanceChain declared.name).isOk = true →
                registry.Pins (.named name) := by
              rw [hname]
              intro hok
              cases hchain : registry.inheritanceChain name with
              | error e =>
                  rw [hchain] at hok
                  cases hok
              | ok chain => simp [Registry.Pins, Registry.declaredNames?, henum, hchain]
            refine labelled_source hresolve hlabels hs hl (fun _ => hnew) (fun new _ c hok => ?_)
              (fun other hother hok => ?_) hrun
            · refine ⟨Or.inr ⟨declared, hsource, Bool.eq_false_iff.mpr hgeneric⟩, hpins hok, hname,
                fun members hmembers => ?_⟩
              rw [henum] at hmembers
              cases hmembers
            · cases hother
              exact hpins hok
      | none =>
          rw [hsource] at hrun
          dsimp only at hrun
          cases hproxy : registry.proxyTarget? name with
          | none =>
              rw [hproxy] at hrun
              cases hrun
          | some target =>
              rw [hproxy] at hrun
              exact labelled_proxy hlabels hsettles ⟨henum, hsource, hproxy⟩ hs hl hrun

theorem labelled_instance_ (hresolve : Resolves registry resolve)
    (hlabels : KeepsLabels registry resolve) {definition : String} {arguments : List NativeType}
    {id : TypeId} (hs : s.table.Sound registry) (hl : s.table.Labelled registry)
    (hrun : (instance_ registry resolve (.generic definition arguments) definition arguments).runOn s =
      (.ok id, s')) : s'.table.Labelled registry := by
  unfold instance_ at hrun
  cases hsource : registry.sourceType? definition with
  | none =>
      rw [hsource] at hrun
      cases hrun
  | some declared =>
      rw [hsource] at hrun
      dsimp only at hrun
      split at hrun
      · cases hrun
      · rename_i hgeneric
        split at hrun
        · cases hrun
        · rename_i hlength
          -- a generic definition has parameters, so the instance has arguments
          have harguments : arguments.isEmpty = false := by
            have hsome : declared.typeParameters ≠ [] := by simpa [SourceType.isGeneric] using hgeneric
            have hsame : declared.typeParameters.length = arguments.length :=
              Classical.not_not.mp hlength
            cases arguments with
            | nil => exact (hsome (List.eq_nil_of_length_eq_zero hsame)).elim
            | cons first rest => rfl
          have hcomposite : (NativeType.generic definition arguments).IsComposite := trivial
          refine labelled_source hresolve hlabels hs hl (fun hpin => (hcomposite.not_pins hpin).elim)
            (fun new _ c _ => hcomposite.isLabel ?_) (fun other hother => by cases hother) hrun
          rw [harguments]
          rfl

theorem labelled_build (hkeyed : registry.KeyedByName) (hresolve : Resolves registry resolve)
    (hlabels : KeepsLabels registry resolve) (hsettles : ∀ native, Settles native (resolve native))
    {native : NativeType} {id : TypeId} (hs : s.table.Sound registry)
    (hl : s.table.Labelled registry) (hnew : s.table.byNative.lookup native = none)
    (hrun : (build registry resolve native).runOn s = (.ok id, s')) : s'.table.Labelled registry := by
  cases native with
  | value kind =>
      exact labelled_enter hs hl (fun _ => hnew) (fun _ _ => preserves_pure _) (fun _ _ _ _ _ => rfl)
        (fun other hother => by cases hother) hrun
  | nullable inner => exact labelled_nullable hresolve hlabels hs hl hrun
  | list element =>
      have hcomposite : (NativeType.list element).IsComposite := trivial
      exact labelled_enter_text hcomposite hs hl
        (fun new t => preserves_listContents (preserves_follows hresolve hlabels t) _) hrun
  | map key value =>
      have hcomposite : (NativeType.map key value).IsComposite := trivial
      unfold build at hrun
      dsimp only at hrun
      split at hrun
      · cases hrun
      · exact labelled_enter_text hcomposite hs hl
          (fun new t => preserves_mapContents (preserves_follows hresolve hlabels t) _ _) hrun
  | named name => exact labelled_named hkeyed hresolve hlabels hsettles hs hl hnew hrun
  | generic definition arguments => exact labelled_instance_ hresolve hlabels hs hl hrun
  | parameter index => cases hrun

/-- **A resolution keeps the labels.** -/
theorem labelled_run (hkeyed : registry.KeyedByName) (depth : Nat) :
    KeepsLabels registry (run registry depth) := by
  have hlookUp : ∀ {native : NativeType} {x : Resolution TypeId} {s s' : Session} {id : TypeId},
      s.table.Labelled registry →
      (s.table.byNative.lookup native = none → x.runOn s = (.ok id, s') →
        s'.table.Labelled registry) →
      (lookUp native x).runOn s = (.ok id, s') → s'.table.Labelled registry := by
    intro native x s s' id hl hbuild hrun
    rw [runOn_lookUp] at hrun
    cases hlookup : s.table.byNative.lookup native with
    | none =>
        rw [hlookup] at hrun
        exact hbuild hlookup hrun
    | some known =>
        rw [hlookup] at hrun
        cases hrun
        exact hl
  induction depth with
  | zero => exact fun native s id s' _ hl hrun => hlookUp hl (fun _ hfail => by cases hfail) hrun
  | succ depth ih =>
      exact fun native s id s' hs hl hrun => hlookUp hl
        (labelled_build hkeyed (resolved_run hkeyed depth) ih (lookup_of_run registry depth) hs hl) hrun

end Resolution

/-! ## Names that are read as themselves -/

namespace NativeType

/-- The text is a name as it stands in a type expression: of letters, digits, underscores and dots, and not
that of a parameter. -/
structure IsName (name : String) : Prop where
  chars : ∀ c ∈ name.toList, isNameChar c = true
  nonempty : name.toList ≠ []
  parameter : parameterIndex? name.toList = none

theorem isWhiteSpace_of_isNameChar {c : Char} (h : isNameChar c = true) :
    CharClass.isWhiteSpace c = false := by
  unfold isNameChar at h
  rcases Bool.or_eq_true _ _ |>.mp h with hrest | hdot
  · exact CharClass.isWhiteSpace_of_isIdentifierRest hrest
  · rw [beq_iff_eq.mp hdot]
    decide

theorem parse_of_isName {name : String} (h : IsName name) (hkind : ValueKind.ofName? name = none) :
    parse name = .ok (.named name) := by
  have hspace : skipSpace name.toList = name.toList := by
    cases hchars : name.toList with
    | nil => rfl
    | cons c rest =>
        have hc := h.chars c (hchars ▸ List.mem_cons_self)
        exact List.dropWhile_cons_of_neg (by rw [isWhiteSpace_of_isNameChar hc]; decide)
  have htake : name.toList.takeWhile isNameChar = name.toList :=
    List.takeWhile_eq_self_iff.mpr h.chars
  have hdrop : name.toList.dropWhile isNameChar = [] := List.dropWhile_eq_nil_iff.mpr h.chars
  have hempty : name.toList.isEmpty = false := by simpa using h.nonempty
  have hread : parseAt name (name.length + 1) name.toList = .ok (.named name, []) := by
    simp only [parseAt, hspace, htake, hdrop, hempty, ofName, h.parameter, String.ofList_toList]
    rfl
  have hcanonical : (named name).canonical = .named name := by
    simp only [canonical, hkind]
  unfold parse
  rw [hread]
  simp only [bind, Except.bind, hcanonical]
  rfl

end NativeType

/-! ## Registries that are built step by step -/

namespace Registry

/-- The registry was built by declarations that were all accepted. -/
inductive IsBuilt : Registry → Prop
  | empty : IsBuilt empty
  | register {r r' : Registry} (h : IsBuilt r) (source : SourceType)
      (hr : r.register source = .ok r') : IsBuilt r'
  | registerEnum {r r' : Registry} (h : IsBuilt r) (name : String) (members : List String)
      (hr : r.registerEnum name members = .ok r') : IsBuilt r'
  | registerProxy {r r' : Registry} (h : IsBuilt r) (name target : String)
      (hr : r.registerProxy name target = .ok r') : IsBuilt r'

variable {r next : Registry} {name : String}

theorem ifFree_eq_ok {r' : Registry} (h : r.ifFree name next = .ok r') :
    r.isFree name = true ∧ r' = next := by
  unfold ifFree at h
  split at h
  · cases h
    exact ⟨‹_›, rfl⟩
  · cases h

theorem ifFree_of_isFree (h : r.isFree name = true) : r.ifFree name next = .ok next :=
  if_pos h

theorem IsBuilt.keyedByName (h : r.IsBuilt) : r.KeyedByName := by
  induction h with
  | empty => exact keyedByName_empty
  | register _ source hr ih => exact (ifFree_eq_ok hr).2 ▸ ih.withType source
  | registerEnum _ name members hr ih => exact (ifFree_eq_ok hr).2 ▸ ih.withEnum name members
  | registerProxy _ name target hr ih => exact (ifFree_eq_ok hr).2 ▸ ih.withProxy name target

/-- No name is declared twice: that of a source type is not that of an enum. -/
theorem IsBuilt.enumMembers?_eq_none (h : r.IsBuilt) (hsource : (r.sourceType? name).isSome = true) :
    r.enumMembers? name = none := by
  have hfree : ∀ {r : Registry} {other : String}, r.isFree other = true →
      r.sourceType? other = none ∧ r.enumMembers? other = none := by
    intro r other hr
    simp only [isFree, Bool.and_eq_true, Option.isNone_iff_eq_none] at hr
    exact hr.1
  induction h with
  | empty => cases hsource
  | register _ source hr ih =>
      obtain ⟨hname, rfl⟩ := ifFree_eq_ok hr
      by_cases hsame : name = source.name
      · exact hsame ▸ (hfree hname).2
      · refine ih ?_
        rwa [sourceType?, withType, Entries.get?_insert_of_ne hsame] at hsource
  | registerEnum _ other members hr ih =>
      obtain ⟨hname, rfl⟩ := ifFree_eq_ok hr
      by_cases hsame : name = other
      · rw [hsame] at hsource
        exact (Option.isSome_iff_ne_none.mp hsource (hfree hname).1).elim
      · rw [enumMembers?, withEnum, Entries.get?_insert_of_ne hsame]
        exact ih hsource
  | registerProxy _ other target hr ih =>
      obtain ⟨-, rfl⟩ := ifFree_eq_ok hr
      exact ih hsource

/-- The names that a graph resolves when it is made: those of the enums, of the source types without
parameters, and of the proxies. -/
def plainNames (r : Registry) : List String :=
  Entries.keys r.enums ++ Entries.keys (r.types.filter fun (_, source) => !source.isGeneric) ++
    Entries.keys r.proxies

theorem mem_plainNames (h : r.IsPlain name) : name ∈ r.plainNames := by
  unfold plainNames Entries.keys
  rw [List.mem_append, List.mem_append]
  rcases h with henum | ⟨source, hsource, hgeneric⟩
  · obtain ⟨members, hmembers⟩ := Option.isSome_iff_exists.mp henum
    exact Or.inl (Or.inl (List.mem_map_of_mem (Entries.mem_of_get? hmembers)))
  · have hmem : (name, source) ∈ r.types.filter fun (_, source) => !source.isGeneric :=
      List.mem_filter.mpr ⟨Entries.mem_of_get? hsource, by simp [hgeneric]⟩
    exact Or.inl (Or.inr (List.mem_map_of_mem hmem))

/-- The descriptor is that of what is declared under the name: of the enum, of the source type, or of the
source type that is the target of the proxy. -/
def Declares (r : Registry) (name : String) (d : Descriptor) : Prop :=
  match r.enumMembers? name, r.sourceType? name, r.proxyTarget? name with
  | some members, _, _ => d.name = name ∧ d.shape = .enum members
  | none, some _, _ => d.name = name ∧ d.members?.isSome = true
  | none, none, some target => d.name = target ∧ d.members?.isSome = true
  | none, none, none => False

/-- Only a proxy leads to a type that is not called as it is. -/
theorem Declares.isProxy_of_name_ne {d : Descriptor} (h : r.Declares name d) (hne : d.name ≠ name) :
    (r.proxyTarget? name).isSome = true := by
  unfold Declares at h
  split at h
  · exact (hne h.1).elim
  · exact (hne h.1).elim
  · rename_i hproxy
    rw [hproxy]
    rfl
  · exact h.elim

/-- Nothing else answers to the name: no other declared name differs from it by case only, it is not
written like a type that is made of others, and that of a proxy is read as itself. -/
structure IsToldApart (r : Registry) (name : String) : Prop where
  others : ∀ other ∈ r.plainNames, Text.sameIgnoringCase other name = true → other = name
  noBracket : '<' ∉ name.toList
  readable : (r.proxyTarget? name).isSome = true → NativeType.IsName name

end Registry

/-! ## Where declared names lead -/

namespace TypeGraph

variable {r : Registry} {g g₀ : TypeGraph} {name : String} {d : Descriptor} {id : TypeId}

/-- The graph is of the registry, and its table is sound and has labels. -/
def HasLabels (r : Registry) (g : TypeGraph) : Prop :=
  g.registry = r ∧ g.table.Sound r ∧ g.table.Labelled r

theorem HasLabels.resolveWithin (hkeyed : r.KeyedByName) (h : g.HasLabels r) (depth : Nat)
    (native : NativeType) : (g.resolveWithin depth native).2.HasLabels r := by
  obtain ⟨hregistry, hsound, hlabels⟩ := h
  refine ⟨(registry_resolveWithin g depth native).trans hregistry, ?_⟩
  cases hrun : (Resolution.run g.registry depth native.canonical).runOn (.begin g.table) with
  | mk outcome s =>
      cases outcome with
      | error e =>
          rw [resolveWithin_of_error hrun]
          exact ⟨hsound, hlabels⟩
      | ok id =>
          rw [resolveWithin_of_ok hrun]
          rw [hregistry] at hrun
          exact ⟨(Resolution.resolved_run hkeyed depth _ (.begin g.table) id s hsound hrun).sound,
            Resolution.labelled_run hkeyed depth _ (.begin g.table) id s hsound hlabels hrun⟩

theorem hasLabels_ofRegistry (hkeyed : r.KeyedByName) (hmade : ofRegistry r = .ok g) :
    g.HasLabels r :=
  resolveAll_induction (fun g => g.HasLabels r) (fun _ native h => h.resolveWithin hkeyed _ native)
    ⟨rfl, TypeTable.sound_empty r, TypeTable.labelled_empty r⟩ hmade

/-- Every name that a graph resolves when it is made leads somewhere. -/
theorem exists_lookup_of_resolveAll {natives : List NativeType} {native : NativeType}
    (h : g.resolveAll natives = .ok g₀) (hmem : native ∈ natives) :
    ∃ id, g₀.table.byNative.lookup native.canonical = some id := by
  induction natives generalizing g with
  | nil => cases hmem
  | cons first rest ih =>
      unfold resolveAll at h
      have hleads := @lookup_of_resolveWithin g Resolution.depthLimit first
      unfold resolve at h
      cases hrun : g.resolveWithin Resolution.depthLimit first with
      | mk outcome next =>
          rw [hrun] at h hleads
          cases outcome with
          | error e => cases h
          | ok id =>
              rcases List.mem_cons.mp hmem with rfl | hlater
              · exact ⟨id, lookup_resolveAll h (hleads rfl)⟩
              · exact ih h hlater

theorem exists_lookup_of_mem_plainNames (hmade : ofRegistry r = .ok g₀) (hname : name ∈ r.plainNames) :
    ∃ id, g₀.table.byNative.lookup (NativeType.named name).canonical = some id :=
  exists_lookup_of_resolveAll hmade (List.mem_append_right _ (List.mem_map_of_mem hname))

/-- What a declared name leads to is what is declared under it. -/
theorem HasLabels.declares (hr : r.IsBuilt) (h : g.HasLabels r)
    (hid : g.table.byNative.lookup (.named name) = some id) (hd : g.table.get? id = some d) :
    r.Declares name d := by
  obtain ⟨-, hsound, hlabels⟩ := h
  -- a source type leads to a type with members
  have htype : ∀ other, (r.sourceType? other).isSome = true → r.Pins (.named other) →
      g.table.byNative.lookup (.named other) = some id → d.name = other ∧ d.members?.isSome = true :=
    fun other hsource hpins hother => ⟨(hlabels.named other id d hpins hother hd).1,
      (hsound.shaped other id d hother hd hpins).2 (hr.enumMembers?_eq_none hsource)⟩
  have hentered := hlabels.entered name id hid
  unfold Registry.Declares
  cases henum : r.enumMembers? name with
  | some members =>
      have hpins : r.Pins (.named name) := by simp [Registry.Pins, Registry.declaredNames?, henum]
      obtain ⟨hname, hshape⟩ := hlabels.named name id d hpins hid hd
      exact ⟨hname, hshape members henum⟩
  | none =>
      cases hsource : r.sourceType? name with
      | some source =>
          have hpins : r.Pins (.named name) := hentered.resolve_right fun ⟨_, hproxy, _⟩ => by
            rw [hproxy.source] at hsource
            cases hsource
          exact htype name (by rw [hsource]; rfl) hpins hid
      | none =>
          have hproxy := hentered.resolve_left fun hpins => by
            have hsome : (r.declaredNames? name).isSome = true := hpins
            rw [Resolution.declaredNames?_of_proxy henum hsource] at hsome
            cases hsome
          obtain ⟨target, hproxy, htarget, hpins, hleads⟩ := hproxy
          rw [hproxy.target]
          exact htype target htarget hpins hleads

/-- A descriptor that answers to a name which is told apart is the one that the name leads to. -/
theorem HasLabels.lookup_of_sameName (h : g.HasLabels r) (hkind : ValueKind.ofName? name = none)
    (hapart : r.IsToldApart name) (hd : g.table.get? id = some d)
    (hsame : Text.asciiLower d.name = Text.asciiLower name) :
    r.IsPlain name ∧ g.table.byNative.lookup (.named name) = some id := by
  rcases h.2.2.owned id d hd with ⟨kind, hname⟩ | hbracket | ⟨hplain, -, hleads⟩
  · -- a name of a value kind is one in any case of letters
    have hknown : ValueKind.ofName? name = some kind := by
      have hself := ValueKind.ofName?_name kind
      unfold ValueKind.ofName? at hself ⊢
      rw [← hsame, hname]
      exact hself
    rw [hknown] at hkind
    cases hkind
  · have hlower : d.name.toList.map Char.toLower = name.toList.map Char.toLower :=
      String.ofList_injective hsame
    have hmapped : '<' ∈ name.toList.map Char.toLower :=
      hlower ▸ List.mem_map.mpr ⟨'<', hbracket, by decide⟩
    obtain ⟨c, hc, hbelow⟩ := List.mem_map.mp hmapped
    have hletter : c = '<' := CharClass.eq_of_toLower_eq (by decide) hbelow
    exact (hapart.noBracket (hletter ▸ hc)).elim
  · have heq : d.name = name :=
      hapart.others d.name (Registry.mem_plainNames hplain) (Text.sameIgnoringCase_iff.mpr hsame)
    exact ⟨heq ▸ hplain, heq ▸ hleads⟩

/-- **What a declared name leads to**, whatever the graph was asked for before. A name of a value kind leads
to the type of that kind. Any other leads to what is declared under it; and looking it up, in whatever way,
answers that, if nothing else answers to the name. -/
theorem declared_name_leads (hr : r.IsBuilt) (hmade : ofRegistry r = .ok g₀)
    (calls : List (Nat × TypeCall)) (hname : name ∈ r.plainNames) :
    (∀ kind, ValueKind.ofName? name = some kind → ∀ depth,
      (g₀.after calls).resolveWithin depth (.named name) = (.ok (valueType kind), g₀.after calls)) ∧
    (ValueKind.ofName? name = none → ∃ d, r.Declares name d ∧
      (∀ depth, (g₀.after calls).resolveTypeWithin depth (.named name) = (.ok d, g₀.after calls)) ∧
      (r.IsToldApart name → ∀ depth,
        (g₀.after calls).byNameWithin depth name = (.ok d, g₀.after calls))) := by
  refine ⟨fun kind hkind depth => ?_, fun hkind => ?_⟩
  · refine resolveWithin_of_lookup ?_ depth
    have hcanonical : (NativeType.named name).canonical = .value kind := by
      simp only [NativeType.canonical, hkind]
    rw [hcanonical]
    exact lookup_after (lookup_value_ofRegistry hmade kind) calls
  have hcanonical : (NativeType.named name).canonical = .named name := by
    simp only [NativeType.canonical, hkind]
  obtain ⟨id, hid⟩ := exists_lookup_of_mem_plainNames hmade hname
  have hthere := lookup_after hid calls
  have hconsistent := (tidy_after (tidy_ofRegistry hmade) calls).isConsistent
  have hlabels : (g₀.after calls).HasLabels r :=
    after_induction (fun g => g.HasLabels r)
      (fun _ depth native h => h.resolveWithin hr.keyedByName depth native)
      (hasLabels_ofRegistry hr.keyedByName hmade) calls
  obtain ⟨d, hd⟩ := hconsistent.exists_of_lookup hthere
  have hresolve : ∀ depth,
      (g₀.after calls).resolveTypeWithin depth (.named name) = (.ok d, g₀.after calls) := fun depth => by
    unfold resolveTypeWithin
    rw [resolveWithin_of_lookup hthere depth]
    exact Prod.ext (get_eq_ok.mpr hd) rfl
  rw [hcanonical] at hthere
  have hdeclares := hlabels.declares hr hthere hd
  refine ⟨d, hdeclares, hresolve, fun hapart depth => ?_⟩
  unfold byNameWithin
  cases hknown : (g₀.after calls).table.byName.lookup (Text.asciiLower name) with
  | some other =>
      obtain ⟨before, later, hentries, -⟩ := List.lookup_eq_some_iff.mp hknown
      obtain ⟨e, he⟩ := hconsistent.names _ other
        (hentries ▸ List.mem_append_right _ List.mem_cons_self)
      have hsame := hlabels.2.1.nameLeads _ other e hknown he
      obtain ⟨-, hother⟩ := hlabels.lookup_of_sameName hkind hapart he hsame
      obtain rfl : other = id := Option.some.inj (hother.symm.trans hthere)
      exact Prod.ext (get_eq_ok.mpr hd) rfl
  | none =>
      -- only the name of a proxy is no descriptor's
      have hproxy : (r.proxyTarget? name).isSome = true := by
        refine hdeclares.isProxy_of_name_ne fun hsame => ?_
        obtain ⟨other, hother⟩ := hlabels.2.1.nameKnown id d hd
        rw [hsame, hknown] at hother
        cases hother
      dsimp only
      rw [NativeType.parse_of_isName (hapart.readable hproxy) hkind]
      exact hresolve depth

/-- A hat of a size, and a cap, which is a hat. -/
def wardrobe : Registry :=
  ((Registry.empty.withEnum "Size" ["Small", "Large"]).withType
    { SourceType.bare "Hat" .valueObject with
      properties := [.ofType "Size" (.named "Size")] }).withProxy "Cap" "Hat"

theorem isBuilt_wardrobe : wardrobe.IsBuilt :=
  ((Registry.IsBuilt.empty.registerEnum _ _ (Registry.ifFree_of_isFree (by decide))).register _
    (Registry.ifFree_of_isFree (by decide))).registerProxy _ _ (Registry.ifFree_of_isFree (by decide))

theorem cap_leads : wardrobe.IsBuilt ∧ ∃ g₀, ofRegistry wardrobe = .ok g₀ ∧
    "Cap" ∈ wardrobe.plainNames ∧ wardrobe.IsToldApart "Cap" ∧ ∃ d, wardrobe.Declares "Cap" d ∧
      ∀ depth, (g₀.after [(9, .byName "hat?")]).byNameWithin depth "Cap" =
        (.ok d, g₀.after [(9, .byName "hat?")]) := by
  have hresolvable : wardrobe.isResolvable = true := by decide +kernel
  have hname : NativeType.IsName "Cap" := ⟨List.all_eq_true.1 (by decide), by decide, by decide⟩
  have hapart : wardrobe.IsToldApart "Cap" := ⟨by decide, by decide, fun _ => hname⟩
  unfold Registry.isResolvable at hresolvable
  cases hmade : ofRegistry wardrobe with
  | error e =>
      rw [hmade] at hresolvable
      cases hresolvable
  | ok g₀ =>
      obtain ⟨d, hd, -, hbyName⟩ := (declared_name_leads isBuilt_wardrobe hmade
        [(9, .byName "hat?")] (by decide : "Cap" ∈ wardrobe.plainNames)).2 (by decide)
      exact ⟨isBuilt_wardrobe, g₀, rfl, by decide, hapart, d, hd, hbyName hapart⟩

/-- Two types whose names differ by case only. -/
def hats : Registry :=
  (Registry.empty.withType (SourceType.bare "Hat" .valueObject)).withType
    (SourceType.bare "hat" .valueObject)

/-- A declared name may lead to another declaration: both types are accepted, and the name of the second
answers with the first. -/
theorem declared_names_clash : ¬∀ (r : Registry) (g : TypeGraph), r.IsBuilt → ofRegistry r = .ok g →
    ∀ name ∈ r.plainNames, ∃ d, r.Declares name d ∧ (g.byName name).1 = .ok d := by
  intro hall
  have hbuilt : hats.IsBuilt :=
    (Registry.IsBuilt.empty.register _ (Registry.ifFree_of_isFree (by decide))).register _
      (Registry.ifFree_of_isFree (by decide))
  have hanswer : ((ofRegistry hats).toOption.bind fun g => (g.byName "hat").1.toOption).map (·.name) =
      some "Hat" := by decide +kernel
  cases hmade : ofRegistry hats with
  | error e =>
      rw [hmade] at hanswer
      cases hanswer
  | ok g =>
      obtain ⟨d, hd, hbyName⟩ := hall hats g hbuilt hmade "hat" (by decide)
      simp only [hmade, Except.toOption, Option.bind_some, hbyName, Option.map_some, Option.some_inj]
        at hanswer
      have hproxy := hd.isProxy_of_name_ne (by rw [hanswer]; decide)
      have hnone : (hats.proxyTarget? "hat").isSome = false := by decide
      rw [hnone] at hproxy
      cases hproxy

end TypeGraph

end ResourceQuery
