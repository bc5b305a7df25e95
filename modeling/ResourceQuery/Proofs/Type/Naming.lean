import ResourceQuery.Proofs.Data.Entries
import ResourceQuery.Proofs.Expr.Typing
import Mathlib.Tactic.IntervalCases

set_option autoImplicit false

/-! # What names lead to

A document tells types by their names, enum members by theirs, and properties by a name whose first
letter is small. Names are compared up to the case of ASCII letters. So names can only be told apart if
they differ by more (`TypeGraph.NamesDiffer`), and then a name that a graph knows leads back to what it
is the name of: a type (`TypeGraph.Arises.byName_name`), a member (`Descriptor.enumMember?_of_mem`) or a
property (`Property.isNamed_jsonName`).
-/

namespace ResourceQuery

/-! ## Letters -/

namespace CharClass

/-- The letters of ASCII. -/
def asciiLetters : List Char :=
  "ABCDEFGHIJKLMNOPQRSTUVWXYZabcdefghijklmnopqrstuvwxyz".toList

theorem asciiLetter_mem {c : Char} (h : c.isAlpha = true) : c ∈ asciiLetters := by
  rw [← Char.ofNat_toNat c]
  rcases (Bool.or_eq_true _ _).mp h with hupper | hlower
  · have hrange : c.val ≥ 'A'.val ∧ c.val ≤ 'Z'.val := of_decide_eq_true hupper
    have hlow : 65 ≤ c.toNat := UInt32.le_iff_toNat_le.mp hrange.1
    have hhigh : c.toNat ≤ 90 := UInt32.le_iff_toNat_le.mp hrange.2
    generalize c.toNat = n at hlow hhigh
    interval_cases n <;> decide
  · obtain ⟨hfrom, hto⟩ := (Bool.and_eq_true _ _).mp hlower
    have hlow : 97 ≤ c.toNat := UInt32.le_iff_toNat_le.mp (of_decide_eq_true hfrom)
    have hhigh : c.toNat ≤ 122 := UInt32.le_iff_toNat_le.mp (of_decide_eq_true hto)
    generalize c.toNat = n at hlow hhigh
    interval_cases n <;> decide

/-- What holds for each of the letters of ASCII holds for any. -/
theorem of_isAlpha {p : Char → Prop} [DecidablePred p]
    (hp : asciiLetters.all (fun d => decide (p d)) = true) {c : Char} (hc : c.isAlpha = true) : p c :=
  of_decide_eq_true (List.all_eq_true.1 hp c (asciiLetter_mem hc))

theorem toLower_of_not_isAlpha {c : Char} (hc : c.isAlpha = false) : c.toLower = c := by
  unfold Char.toLower
  refine dif_neg fun hrange => ?_
  have hupper : c.isUpper = true := decide_eq_true hrange
  have halpha : c.isAlpha = true := (Bool.or_eq_true _ _).mpr (.inl hupper)
  rw [hc] at halpha
  cases halpha

theorem toLower_toLower (c : Char) : c.toLower.toLower = c.toLower := by
  cases halpha : c.isAlpha with
  | true => exact of_isAlpha (p := fun c => c.toLower.toLower = c.toLower) (by decide) halpha
  | false => rw [toLower_of_not_isAlpha halpha, toLower_of_not_isAlpha halpha]

end CharClass

/-! ## Names of properties -/

namespace Property

variable {p q : Property}

/-- Whether the name starts with a letter of ASCII. -/
def startsWithLetter (p : Property) : Bool :=
  p.name.toList.head?.any Char.isAlpha

theorem exists_of_startsWithLetter (h : p.startsWithLetter = true) :
    ∃ c rest, p.name.toList = c :: rest ∧ c.isAlpha = true := by
  unfold startsWithLetter at h
  cases hname : p.name.toList with
  | nil =>
      rw [hname] at h
      cases h
  | cons c rest =>
      rw [hname] at h
      exact ⟨c, rest, rfl, h⟩

/-- The name in documents is the name with a small letter at its start. -/
theorem toList_jsonName {c : Char} {rest : List Char} (hname : p.name.toList = c :: rest)
    (hc : c.isAlpha = true) : p.jsonName.toList = c.toLower :: rest := by
  have hlower : CaseMap.lowerChar c = [c.toLower] :=
    CharClass.of_isAlpha (p := fun c => CaseMap.lowerChar c = [c.toLower]) (by decide) hc
  unfold jsonName
  rw [hname]
  dsimp only
  rw [hlower, String.toList_ofList]
  rfl

theorem isNamed_jsonName (h : p.startsWithLetter = true) : p.isNamed p.jsonName = true := by
  obtain ⟨c, rest, hname, hc⟩ := exists_of_startsWithLetter h
  unfold isNamed Text.sameIgnoringCase
  rw [toList_jsonName hname hc, hname, List.map_cons, List.map_cons, CharClass.toLower_toLower]
  exact beq_self_eq_true _

/-- The marks that a member of a document may start with, if it is not the name of a property. -/
theorem head_jsonName (h : p.startsWithLetter = true) :
    ∃ c rest, p.jsonName.toList = c :: rest ∧ c ∉ ['_', '^', '-', '*', '!'] := by
  obtain ⟨c, rest, hname, hc⟩ := exists_of_startsWithLetter h
  exact ⟨c.toLower, rest, toList_jsonName hname hc,
    CharClass.of_isAlpha (p := fun c => c.toLower ∉ ['_', '^', '-', '*', '!']) (by decide) hc⟩

/-- In a table with distinct names, different properties have different names in documents. -/
theorem eq_of_jsonName {table : List Property} (hdistinct : Resolution.Distinct table)
    (hp : p ∈ table) (hq : q ∈ table) (hpl : p.startsWithLetter = true)
    (hql : q.startsWithLetter = true) (h : p.jsonName = q.jsonName) : p = q :=
  hdistinct.eq_of_named hp hq (isNamed_jsonName hpl) (h ▸ isNamed_jsonName hql)

end Property

/-! ## Names of enum members -/

/-- The members of an enum; none of another type. -/
def Descriptor.memberNames (d : Descriptor) : List String :=
  match d.shape with
  | .enum members => members
  | _ => []

theorem Descriptor.enumMember?_of_mem {d : Descriptor} {members : List String} {member : String}
    (hshape : d.shape = .enum members) (hmember : member ∈ members)
    (hdiffer : d.memberNames.Pairwise fun a b => Text.sameIgnoringCase a b = false) :
    d.enumMember? member = some member := by
  unfold memberNames at hdiffer
  unfold enumMember?
  rw [hshape] at hdiffer ⊢
  dsimp only at hdiffer ⊢
  clear hshape
  induction members with
  | nil => cases hmember
  | cons first rest ih =>
      obtain ⟨hfirst, hrest⟩ := List.pairwise_cons.mp hdiffer
      rw [List.find?_cons]
      rcases List.mem_cons.mp hmember with hself | hlater
      · rw [hself, Text.sameIgnoringCase_refl]
      · rw [hfirst member hlater]
        exact ih hlater hrest

/-! ## Names of types -/

namespace TypeGraph

variable {g : TypeGraph} {id type concrete : TypeId} {d c : Descriptor}

/-- Names differ by more than case: those of types, those of the members of an enum, and those of enums
from those of source types. Names of properties start with a letter; that they differ holds in any
graph. -/
structure NamesDiffer (g : TypeGraph) : Prop where
  types : ∀ d ∈ g.types, ∀ e ∈ g.types, Text.asciiLower d.name = Text.asciiLower e.name → d.id = e.id
  enums : ∀ entry ∈ g.registry.enums, (g.registry.sourceType? entry.1).isNone = true
  members : ∀ d ∈ g.types, d.memberNames.Pairwise fun a b => Text.sameIgnoringCase a b = false
  properties : ∀ d ∈ g.types, ∀ p ∈ d.properties, p.startsWithLetter = true

/-- Where the names of types differ by more than case, the name of a type leads to the type. -/
theorem Arises.byName_of_distinct (hg : g.Arises)
    (hdistinct : ∀ d ∈ g.types, ∀ e ∈ g.types, Text.asciiLower d.name = Text.asciiLower e.name → d.id = e.id)
    (hd : g.table.get? id = some d) : g.byName d.name = (.ok d, g) := by
  obtain ⟨other, hlookup⟩ := hg.sound.nameKnown id d hd
  obtain ⟨e, he⟩ := hg.exists_descriptor (hg.sound.nameBelow _ _ hlookup)
  have hname := hg.sound.nameLeads _ other e hlookup he
  have hsame : e.id = d.id := hdistinct e (mem_types he) d (mem_types hd) hname
  rw [hg.sound.id _ _ he, hg.sound.id _ _ hd] at hsame
  unfold byName byNameWithin
  rw [hlookup]
  dsimp only
  rw [hsame, get_eq_ok.mpr hd]

/-- **The name of a type leads to the type, and nothing is resolved for it.** -/
theorem Arises.byName_name (hg : g.Arises) (hnames : g.NamesDiffer) (hd : g.table.get? id = some d) :
    g.byName d.name = (.ok d, g) :=
  hg.byName_of_distinct hnames.types hd

/-- No name is that of an enum and of a source type. -/
theorem NamesDiffer.enumMembers?_eq_none (hnames : g.NamesDiffer) {name : String}
    (h : (g.registry.sourceType? name).isSome = true) : g.registry.enumMembers? name = none := by
  cases henum : g.registry.enumMembers? name with
  | none => rfl
  | some members =>
      have hnone := hnames.enums (name, members) (Entries.mem_of_get? henum)
      rw [Option.isNone_iff_eq_none.mp hnone] at h
      cases h

theorem Arises.hasMembers_of_inheritsFrom (hg : g.Arises) (hnames : g.NamesDiffer)
    (hd : g.table.get? type = some d) {fuel : Nat} (hc : g.table.get? concrete = some c)
    (hmembers : c.members?.isSome = true) (h : g.inheritsFrom type fuel concrete = true) :
    d.members?.isSome = true := by
  induction fuel generalizing concrete c with
  | zero => cases h
  | succ fuel ih =>
      rcases inheritsFrom_cases hd hc h with hsame | ⟨base, b, hbase, hb, habove⟩
      · exact hsame ▸ hmembers
      · have hbaseMembers : b.members?.isSome = true :=
          hg.sound.hasMembers_base (fun name => hnames.enumMembers?_eq_none) hc hbase hb
        exact ih hb hbaseMembers habove

/-- A slot that takes an instance of a type with members is untyped, or of a type with members. -/
theorem Arises.hasMembers_of_isAssignable (hg : g.Arises) (hnames : g.NamesDiffer)
    (hd : g.table.get? type = some d) (hany : d.isAny = false) (hc : g.table.get? concrete = some c)
    (hmembers : c.members?.isSome = true) (h : g.isAssignable type concrete = true) :
    d.members?.isSome = true :=
  hg.hasMembers_of_inheritsFrom hnames hd hc hmembers (inheritsFrom_of_isAssignable hd hany h)

end TypeGraph

end ResourceQuery
