import ResourceQuery.Proofs.Type.Declarations
import ResourceQuery.Proofs.Wire.Encoding
import ResourceQuery.Proofs.Wire.Decoding

set_option autoImplicit false

/-! # Properties under their names in documents

A document calls a property by its name with a small letter at the start. The small letter is that of Unicode,
while names are looked up up to the case of ASCII letters only. So the two fit together for a name that starts
with a letter of ASCII or with a character that is small already (`Property.isNamed_jsonName_iff`), and for no
other: a property `État` is written as `état`, which is the name of no property
(`Document.propertyNames_lost`).

Names in a type differ by more than case, so a property that is found at all is the right one. With the names that
documents keep for themselves, `_type` and `_uri`, this says exactly when the reader of documents and the compiler
of queries take a member for the property that it was written for
(`Document.names_in_documents_iff`).
-/

namespace ResourceQuery

/-! ## Small letters -/

namespace CharClass

variable {c : Char}

theorem isAlpha_of_not_lt (hc : ¬c.toNat < 128) : c.isAlpha = false := by
  rw [Bool.eq_false_iff]
  exact fun halpha => hc (of_isAlpha (p := fun c => c.toNat < 128) (by decide) halpha)

end CharClass

namespace CaseMap

/-- The marks that say what is to be done with a member. -/
def marks : List Char :=
  ['^', '-', '*', '!']

theorem toNat_of_mem_marks {c : Char} (h : c ∈ marks) : 0 < c.toNat ∧ c.toNat < 128 := by
  simp only [marks, List.mem_cons, List.not_mem_nil, or_false] at h
  rcases h with rfl | rfl | rfl | rfl <;> decide

theorem toNat_ofNat {n : Nat} (h : 0 < (Char.ofNat n).toNat) : (Char.ofNat n).toNat = n := by
  by_cases hvalid : n.isValidChar
  · have hchar : Char.ofNat n = Char.ofNatAux n hvalid := dif_pos hvalid
    rw [hchar]
    rfl
  · have hchar : Char.ofNat n = ⟨0, .inl (by decide)⟩ := dif_neg hvalid
    rw [hchar] at h
    cases h

/-- No character outside ASCII has a mark for its small letter. -/
theorem exists_lowerChar {c : Char} (hc : ¬c.toNat < 128) :
    ∃ first rest, lowerChar c = first :: rest ∧ first ∉ marks := by
  unfold lowerChar image
  rw [if_neg hc]
  split
  · rename_i codes hcodes
    obtain ⟨before, after, hentries, -⟩ := List.lookup_eq_some_iff.mp hcodes
    have hall : (lowerExpansions.all fun entry => (entry.2.map Char.ofNat).head?.any fun first => first ∉ marks) =
        true := by decide
    have hentry : (c.toNat, codes) ∈ lowerExpansions := hentries ▸ List.mem_append_right _ List.mem_cons_self
    obtain ⟨first, hhead, hmark⟩ := (Option.any_eq_true _ _).mp (List.all_eq_true.mp hall _ hentry)
    obtain ⟨rest, hcodes⟩ := List.head?_eq_some_iff.mp hhead
    exact ⟨first, rest, hcodes, of_decide_eq_true hmark⟩
  · split
    · rename_i shift hshift
      have hall : (lowerShifts.all fun shift => marks.all fun mark =>
          !shift.span.holds ((mark.toNat : Int) - shift.offset).toNat) = true := by decide +kernel
      refine ⟨_, [], rfl, fun hmark => ?_⟩
      have hpositive := (toNat_of_mem_marks hmark).1
      have hcode := toNat_ofNat hpositive
      have hholds := List.all_eq_true.mp (List.all_eq_true.mp hall shift (List.mem_of_find?_eq_some hshift)) _ hmark
      have hsame : ((Char.ofNat (Int.toNat (c.toNat + shift.offset))).toNat - shift.offset : Int).toNat = c.toNat := by
        omega
      have hspan := List.find?_some hshift
      rw [hsame, hspan] at hholds
      cases hholds
    · exact ⟨c, [], rfl, fun hmark => hc (toNat_of_mem_marks hmark).2⟩

end CaseMap

/-! ## Names of properties -/

namespace Property

variable {p : Property}

/-- Whether the first character of the name is one of ASCII, or its own small letter. -/
def startsPlainly (p : Property) : Bool :=
  p.name.toList.head?.all fun c => decide (c.toNat < 128) || CaseMap.lowerChar c == [c]

theorem startsPlainly_iff {c : Char} {rest : List Char} (hname : p.name.toList = c :: rest) :
    p.startsPlainly = true ↔ c.toNat < 128 ∨ CaseMap.lowerChar c = [c] := by
  rw [startsPlainly, hname, List.head?_cons, Option.all_some, Bool.or_eq_true, decide_eq_true_eq, beq_iff_eq]

theorem toList_jsonName_cons {c : Char} {rest : List Char} (hname : p.name.toList = c :: rest) :
    p.jsonName.toList = CaseMap.lowerChar c ++ rest := by
  unfold jsonName
  rw [hname]
  exact String.toList_ofList

/-- **The name in documents names the property just when it starts plainly.** -/
theorem isNamed_jsonName_iff (p : Property) : p.isNamed p.jsonName = true ↔ p.startsPlainly = true := by
  cases hname : p.name.toList with
  | nil =>
      refine iff_of_true ?_ (by rw [startsPlainly, hname]; rfl)
      have hjson : p.jsonName.toList = [] := by
        unfold jsonName
        rw [hname]
        rfl
      rw [isNamed, Text.sameIgnoringCase, hname, hjson]
      rfl
  | cons c rest =>
      rw [startsPlainly_iff hname, isNamed, Text.sameIgnoringCase, toList_jsonName_cons hname, hname, beq_iff_eq,
        List.map_append, List.map_cons]
      by_cases hascii : c.toNat < 128
      · refine iff_of_true ?_ (Or.inl hascii)
        rw [CaseMap.lowerChar, if_pos hascii, List.map_singleton, CharClass.toLower_toLower]
        rfl
      · -- the letters behind the first one are as many on both sides
        rw [or_iff_right hascii]
        constructor
        · intro hsame
          have hfirst : [c.toLower] = (CaseMap.lowerChar c).map Char.toLower := List.append_cancel_right hsame
          cases hlower : CaseMap.lowerChar c with
          | nil =>
              rw [hlower] at hfirst
              cases hfirst
          | cons x more =>
              rw [hlower] at hfirst
              obtain ⟨hx, hmore⟩ := List.cons_eq_cons.mp hfirst
              rw [CharClass.toLower_of_not_isAlpha (CharClass.isAlpha_of_not_lt hascii)] at hx
              rw [List.map_eq_nil_iff.mp hmore.symm,
                CharClass.eq_of_toLower_eq (CharClass.isAlpha_of_not_lt hascii) hx.symm]
        · intro hlower
          rw [hlower]
          rfl

/-- The name of an identifier in documents does not start with a mark. -/
theorem exists_jsonName (h : Text.isIdentifier p.name = true) :
    ∃ first rest, p.jsonName.toList = first :: rest ∧ first ∉ CaseMap.marks := by
  unfold Text.isIdentifier at h
  cases hname : p.name.toList with
  | nil =>
      rw [hname] at h
      cases h
  | cons c rest =>
      rw [hname] at h
      have hstart : CharClass.isIdentifierStart c = true := ((Bool.and_eq_true _ _).mp h).1
      rw [toList_jsonName_cons hname]
      by_cases hascii : c.toNat < 128
      · rw [CaseMap.lowerChar, if_pos hascii]
        refine ⟨c.toLower, rest, rfl, ?_⟩
        rw [CharClass.isIdentifierStart, CharClass.isAlphabetic, if_pos hascii, Bool.or_eq_true, beq_iff_eq] at hstart
        rcases hstart with halpha | rfl
        · exact CharClass.of_isAlpha (p := fun c => c.toLower ∉ CaseMap.marks) (by decide) halpha
        · decide
      · obtain ⟨first, more, hlower, hmark⟩ := CaseMap.exists_lowerChar hascii
        exact ⟨first, more ++ rest, by rw [hlower]; rfl, hmark⟩

end Property

namespace Descriptor

variable {d : Descriptor} {p : Property}

/-- A property is found under a name in documents just when that names it. -/
theorem property?_jsonName_iff (hdistinct : Resolution.Distinct d.properties) (hp : p ∈ d.properties) :
    d.property? p.jsonName = some p ↔ p.startsPlainly = true := by
  rw [← p.isNamed_jsonName_iff]
  exact ⟨isNamed_of_property?, property?_of_mem hdistinct hp⟩

end Descriptor

namespace Document

variable {d : Descriptor} {p : Property}

/-- The member is taken for the property just when the lookup finds it, if the name is not one of the format's. -/
theorem fieldOf_jsonName_iff (hname : Text.isIdentifier p.name = true) (path : String) (json : Json) :
    fieldOf d path p.jsonName json = .ok (some ⟨p, json, false, false⟩) ↔
      p.jsonName ≠ "_type" ∧ p.jsonName ≠ "_uri" ∧ d.property? p.jsonName = some p := by
  obtain ⟨first, rest, hfirst, hmark⟩ := Property.exists_jsonName hname
  have hhead : ∀ c ∈ p.jsonName.toList.head?, c ∉ CaseMap.marks := by
    intro c hc
    rw [hfirst] at hc
    cases hc
    exact hmark
  have hunmarked : IsUnmarkedKey p.jsonName := fun c hc hin => hhead c hc (List.mem_cons_of_mem _ hin)
  have hforced : Text.after? "!" p.jsonName = none :=
    after?_eq_none rfl fun c hc => by rintro rfl; exact hhead _ hc (by decide)
  have hescape : Text.after? "^" p.jsonName = none :=
    after?_eq_none rfl fun c hc => by rintro rfl; exact hhead _ hc (by decide)
  unfold fieldOf unescape
  rw [hunmarked.isIdentifierKey, hforced, hescape, Bool.or_false]
  dsimp only [Option.getD_none]
  by_cases hreserved : (p.jsonName == "_type" || p.jsonName == "_uri") = true
  · rw [if_pos hreserved]
    refine iff_of_false nofun fun ⟨htype, huri, _⟩ => ?_
    rw [Bool.or_eq_true, beq_iff_eq, beq_iff_eq] at hreserved
    exact hreserved.elim htype huri
  · rw [if_neg hreserved]
    rw [Bool.or_eq_true, beq_iff_eq, beq_iff_eq, not_or] at hreserved
    rw [and_iff_right hreserved.1, and_iff_right hreserved.2]
    cases hfound : d.property? p.jsonName with
    | none => exact iff_of_false nofun nofun
    | some q =>
        dsimp only
        constructor
        · intro h
          cases h
          rfl
        · intro h
          cases h
          rfl

end Document

namespace StaticType

variable {g : TypeGraph} {id : TypeId} {d : Descriptor} {p : Property}

/-- The member is compiled to the property just when the lookup finds it, if clients may read it. -/
theorem member_jsonName_iff (hd : g.table.get? id = some d) (hdistinct : Resolution.Distinct d.properties)
    (hp : p ∈ d.properties) (hreadable : p.isReadable = true) :
    member g (.mapped id) p.jsonName = .ok (p.name, .mapped p.type) ↔ d.property? p.jsonName = some p := by
  constructor
  · intro hmember
    obtain ⟨d', hd', ⟨-, -, htype⟩ | ⟨q, hq, -, hname, -⟩⟩ := member_mapped hmember
    · cases htype
    · rw [hd] at hd'
      cases hd'
      -- the one that is found has the name of `p`, so it is `p`
      have hnamed : p.isNamed q.name = true := hname ▸ Text.sameIgnoringCase_refl p.name
      rw [hq, hdistinct.eq_of_named hp (Descriptor.mem_of_property? hq) hnamed (Text.sameIgnoringCase_refl q.name)]
  · intro hfound
    exact member_of_property? hd hfound hreadable

end StaticType

namespace Document

variable {g : TypeGraph} {r : Registry} {id : TypeId} {d : Descriptor}

/-- **Which properties are found under their names in documents.** The members that are written for the properties
of a type are called by these names. A lookup of such a name finds the property just when the name starts with a
character of ASCII or one that is its own small letter. Under the same condition the reader takes the member for
the property, unless the name is one that documents keep for themselves, and the compiler of queries does, if
clients may read the property. -/
theorem names_in_documents_iff (h : g.IsReached r) (hd : g.table.get? id = some d)
    (hnames : ∀ p ∈ d.properties, Text.isIdentifier p.name = true) :
    (∀ (w : Writer) (below : Writer.SlotWriter) (slot : WriteSlot) (record : Record) (done members : Entries Json),
      w.properties below slot record done d.properties = .ok members →
        ∀ member ∈ members, member ∈ done ∨ ∃ p ∈ d.properties, member.1 = p.jsonName) ∧
    ∀ p ∈ d.properties,
      (d.property? p.jsonName = some p ↔ p.startsPlainly = true) ∧
      (∀ (path : String) (json : Json), fieldOf d path p.jsonName json = .ok (some ⟨p, json, false, false⟩) ↔
        p.startsPlainly = true ∧ p.jsonName ≠ "_type" ∧ p.jsonName ≠ "_uri") ∧
      (p.isReadable = true → (StaticType.member g (.mapped id) p.jsonName = .ok (p.name, .mapped p.type) ↔
        p.startsPlainly = true)) := by
  have hdistinct := h.distinct hd
  refine ⟨fun w below slot record done members hwritten member hmember => ?_, fun p hp => ?_⟩
  · rcases (Writer.put_of_properties hwritten).source member hmember with hold | ⟨p, hp, hname, -⟩
    · exact .inl hold
    · exact .inr ⟨p, hp, hname⟩
  · have hfound := Descriptor.property?_jsonName_iff hdistinct hp
    refine ⟨hfound, fun path json => ?_, fun hreadable => ?_⟩
    · rw [fieldOf_jsonName_iff (hnames p hp), hfound]
      exact ⟨fun ⟨htype, huri, hplain⟩ => ⟨hplain, htype, huri⟩, fun ⟨hplain, htype, huri⟩ => ⟨htype, huri, hplain⟩⟩
    · rw [StaticType.member_jsonName_iff hd hdistinct hp hreadable, hfound]

/-- A country has a capital and states. Only the former starts with a letter of ASCII. -/
def countries : Registry :=
  Registry.empty.withType
    { SourceType.bare "Country" .valueObject with
      properties := [.ofType "Capital" (.value .string), .ofType "États" (.list (.value .string))] }

theorem exists_country : ∃ (g : TypeGraph) (id : TypeId) (d : Descriptor) (capital states : Property),
    g.IsReached countries ∧ g.table.get? id = some d ∧ (∀ p ∈ d.properties, Text.isIdentifier p.name = true) ∧
      d.properties = [capital, states] ∧ capital.jsonName = "capital" ∧ capital.startsPlainly = true ∧
        states.jsonName = "états" ∧ states.startsPlainly = false := by
  have hevaluated : ((TypeGraph.ofRegistry countries).toOption.bind fun g =>
      ((g.table.byNative.lookup (.named "Country")).bind g.table.get?).map fun d =>
        d.properties.map fun p => (Text.isIdentifier p.name, p.jsonName, p.startsPlainly)) =
      some [(true, "capital", true), (true, "états", false)] := by decide +kernel
  obtain ⟨g, hg, hevaluated⟩ := Option.bind_eq_some_iff.mp hevaluated
  obtain ⟨d, hd, hspelled⟩ := Option.map_eq_some_iff.mp hevaluated
  obtain ⟨id, -, hd⟩ := Option.bind_eq_some_iff.mp hd
  obtain ⟨capital, rest, hproperties, hcapital, hrest⟩ := List.map_eq_cons_iff.mp hspelled
  obtain ⟨states, others, rfl, hstates, hothers⟩ := List.map_eq_cons_iff.mp hrest
  obtain rfl := List.map_eq_nil_iff.mp hothers
  simp only [Prod.mk.injEq] at hcapital hstates
  refine ⟨g, id, d, capital, states, TypeGraph.isReached_of_toOption hg, hd, ?_, hproperties, hcapital.2.1,
    hcapital.2.2, hstates.2.1, hstates.2.2⟩
  rw [hproperties]
  exact List.forall_mem_cons.mpr ⟨hcapital.1, List.forall_mem_singleton.mpr hstates.1⟩

theorem capital_found : ∃ (g : TypeGraph) (id : TypeId) (d : Descriptor) (p : Property), g.IsReached countries ∧
    g.table.get? id = some d ∧ (∀ p ∈ d.properties, Text.isIdentifier p.name = true) ∧ p ∈ d.properties ∧
      p.jsonName = "capital" ∧ d.property? p.jsonName = some p := by
  obtain ⟨g, id, d, capital, states, hreached, hd, hnames, hproperties, hjson, hplain, -⟩ := exists_country
  have hmem : capital ∈ d.properties := hproperties ▸ List.mem_cons_self
  exact ⟨g, id, d, capital, hreached, hd, hnames, hmem, hjson,
    ((names_in_documents_iff hreached hd hnames).2 capital hmem).1.mpr hplain⟩

/-- A property whose name starts with another letter is not found: with the small letter it is another name. -/
theorem propertyNames_lost : ¬∀ (r : Registry) (g : TypeGraph) (id : TypeId) (d : Descriptor), g.IsReached r →
    g.table.get? id = some d → (∀ p ∈ d.properties, Text.isIdentifier p.name = true) →
      ∀ p ∈ d.properties, d.property? p.jsonName = some p := by
  intro hall
  obtain ⟨g, id, d, capital, states, hreached, hd, hnames, hproperties, -, -, -, hplain⟩ := exists_country
  have hmem : states ∈ d.properties := hproperties ▸ List.mem_cons_of_mem _ List.mem_cons_self
  have hfound := (Descriptor.property?_jsonName_iff (hreached.distinct hd) hmem).mp
    (hall countries g id d hreached hd hnames states hmem)
  rw [hplain] at hfound
  cases hfound

end Document

end ResourceQuery
