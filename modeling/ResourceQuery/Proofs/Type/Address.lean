import ResourceQuery.Proofs.Text.Percent
import ResourceQuery.Proofs.Text.Splitting
import ResourceQuery.Proofs.Expr.Spelling
import ResourceQuery.Proofs.Type.Resolution
import ResourceQuery.Type.Address
import Mathlib.Data.List.Forall2

set_option autoImplicit false

/-! # What an address is made of

The address of an object is written from below: the object's own identifier comes last, and what stands
before it is the address of its parent. Whoever reads an address has only the segments between its slashes.
`TypeGraph.IsPlaced` says both at once: an object is placed below a collection, with an identifier, if the
names and identifiers on the way up are such that none of them is torn apart or lost between slashes. Then
the address is those segments (`IsPlaced.uriBelow_eq`), identifiers follow collections in turns
(`IsPlaced.length_collection`), and the template of the type has a part for each of them
(`IsPlaced.exists_template`).
-/

namespace ResourceQuery

/-! ## Segments -/

namespace Text

/-- A text that is one segment of a path: there is something in it, and nothing that ends it or the
path. -/
structure IsSegment (s : String) : Prop where
  nonempty : s ≠ ""
  noSlash : '/' ∉ s.toList
  noMark : '?' ∉ s.toList

instance (s : String) : Decidable (IsSegment s) :=
  decidable_of_iff (s ≠ "" ∧ '/' ∉ s.toList ∧ '?' ∉ s.toList)
    ⟨fun ⟨hsome, hslash, hmark⟩ => ⟨hsome, hslash, hmark⟩, fun h => ⟨h.nonempty, h.noSlash, h.noMark⟩⟩

theorem join_concat (sep : String) {pieces : List String} (h : pieces ≠ []) (last : String) :
    join sep (pieces ++ [last]) = join sep pieces ++ sep ++ last := by
  induction pieces with
  | nil => exact absurd rfl h
  | cons piece pieces ih =>
      cases pieces with
      | nil => rfl
      | cons next later =>
          rw [List.cons_append, join_cons sep piece (by simp), ih (List.cons_ne_nil _ _),
            join_cons sep piece (List.cons_ne_nil _ _)]
          simp only [String.append_assoc]

/-- Two more pieces behind others. -/
theorem join_concat_two (sep : String) (lead : List String) (next name last : String) :
    join sep (lead ++ [next, name] ++ [last]) =
      join sep (lead ++ [next]) ++ sep ++ name ++ sep ++ last := by
  have hsplit : lead ++ [next, name] = lead ++ [next] ++ [name] := by simp
  rw [join_concat sep (by simp), hsplit, join_concat sep (by simp)]

end Text

/-- A text that needs no escapes is its own encoding. -/
theorem Percent.encode_of_kept {keep : Char → Bool} {s : String}
    (h : ∀ c ∈ s.toList, c.toNat < 128 ∧ keep c = true) : encode keep s = s := by
  have hbyte : ∀ c ∈ s.toList, encodeByte keep (byteOf c) = [c] := by
    intro c hc
    obtain ⟨hascii, hkept⟩ := h c hc
    have hvalue : (byteOf c).toNat = c.toNat := by
      show c.toNat % 256 = c.toNat
      omega
    rw [encodeByte, hvalue, Char.ofNat_toNat, hkept, if_pos (by simpa using hascii)]
  have hbytes : bytes s = s.toList.map byteOf := by
    conv_lhs => rw [← String.ofList_toList (s := s)]
    exact bytes_ofList fun c hc => (h c hc).1
  have hflat : (s.toList.map byteOf).flatMap (encodeByte keep) = s.toList := by
    rw [List.flatMap_map]
    exact (List.flatMap_congr hbyte).trans (List.flatMap_singleton' _)
  rw [encode, hbytes, hflat, String.ofList_toList]

/-- A whole number is written with digits and a minus sign. -/
theorem Decimal.mem_intText {n : Int} {c : Char} (hc : c ∈ (intText n).toList) :
    c.isDigit = true ∨ c = '-' := by
  cases n with
  | ofNat m =>
      rw [intText, toList_naturalText] at hc
      exact Or.inl (all_isDigit_toDigits m c hc)
  | negSucc m =>
      rw [intText, String.toList_append, toList_naturalText] at hc
      rcases List.mem_append.1 hc with hsign | hdigit
      · exact Or.inr (List.mem_singleton.1 hsign)
      · exact Or.inl (all_isDigit_toDigits _ c hdigit)

theorem Decimal.encode_intText (n : Int) :
    Percent.encode Percent.keptInSegment (intText n) = intText n := by
  refine Percent.encode_of_kept fun c hc => ?_
  rcases mem_intText hc with hdigit | rfl
  · exact CharClass.of_isDigit (p := fun d => d.toNat < 128 ∧ Percent.keptInSegment d = true)
      (by decide) hdigit
  · decide

namespace TypeGraph

variable {g : TypeGraph} {h : Heap}

/-- An identifier is one encoded text. -/
theorem exists_of_segment {d : Descriptor} {id : Value} {last : String} (hlast : segment d id = .ok last) :
    ∃ text, last = Percent.encode Percent.keptInSegment text := by
  unfold segment at hlast
  split at hlast
  · cases hlast
    exact ⟨_, (Decimal.encode_intText _).symm⟩
  · split at hlast
    · cases hlast
      exact ⟨_, rfl⟩
    · cases hlast

theorem isSegment_of_segment {d : Descriptor} {id : Value} {last : String}
    (hlast : segment d id = .ok last) (hsome : last ≠ "") : Text.IsSegment last := by
  obtain ⟨text, rfl⟩ := exists_of_segment hlast
  exact ⟨hsome, Percent.not_mem_encode (by decide) (by decide) text,
    Percent.not_mem_encode (by decide) (by decide) text⟩

/-! ## Writing an address -/

section

variable {parents : Nat} {object owner : ObjectId} {d above : Descriptor} {a : ResourceAddress}
  {parent : ResourceParent} {p link children : Property} {last lead : String}

theorem uriBelow_of_top (hd : g.get (h.typeOf object) = .ok d) (ha : d.address? = some a)
    (hp : d.primaryId? = some p) (hlast : segment d (p.read h object) = .ok last) (htop : a.parent = none) :
    g.uriBelow h parents object = .ok (a.relativePath ++ "/" ++ last) := by
  unfold uriBelow
  simp only [hd, requireResource_eq_ok.mpr ha, requirePrimaryId_eq_ok.mpr hp, hlast, htop, bind, Except.bind]

theorem uriBelow_of_nested (hd : g.get (h.typeOf object) = .ok d) (ha : d.address? = some a)
    (hp : d.primaryId? = some p) (hlast : segment d (p.read h object) = .ok last)
    (hnested : a.parent = some parent) (hlink : d.property? parent.childToParent = some link)
    (howner : link.read h object = .object owner) (habove : g.get parent.type = .ok above)
    (hchildren : childCollection above parent = .ok children) (hlead : g.uriBelow h parents owner = .ok lead) :
    g.uriBelow h (parents + 1) object = .ok (lead ++ "/" ++ children.uriName ++ "/" ++ last) := by
  unfold uriBelow
  simp only [hd, requireResource_eq_ok.mpr ha, requirePrimaryId_eq_ok.mpr hp, hlast, hnested, hlink, howner, habove,
    hchildren, hlead, bind, Except.bind]

end

/-! ## Places -/

/-- The type of `object` is `own`, it has the address `a` that the type `d` has as well, and `last` is
the identifier of `object`. -/
structure IsIdentified (g : TypeGraph) (h : Heap) (d own : Descriptor) (object : ObjectId)
    (a : ResourceAddress) (last : String) : Prop where
  type : g.get (h.typeOf object) = .ok own
  ownAddress : own.address? = some a
  address : d.address? = some a
  /-- The name of the identifier stands in templates. -/
  id : ∃ p, d.primaryId? = some p ∧ '/' ∉ p.name.toList
  segment : ∃ p, own.primaryId? = some p ∧ TypeGraph.segment own (p.read h object) = .ok last
  nonempty : last ≠ ""

/-- `object` is where an instance of `d` is, and its address has the segments `collection` and then its
identifier `last`. Its own type is `d` or one that is placed as `d` is, and its parent is set and is where
an instance of the parent type is. At most `parents` objects are above it. -/
inductive IsPlaced (g : TypeGraph) (h : Heap) :
    (parents : Nat) → Descriptor → ObjectId → (collection : List String) → (last : String) → Prop where
  | top {parents : Nat} {d own : Descriptor} {object : ObjectId} {a : ResourceAddress} {last : String}
      (identified : g.IsIdentified h d own object a last) (isTop : a.parent = none)
      (path : Text.IsSegment a.relativePath) :
      IsPlaced g h parents d object [a.relativePath] last
  | nested {parents : Nat} {d own : Descriptor} {object : ObjectId} {a : ResourceAddress} {last : String}
      {parent : ResourceParent} {above : Descriptor} {children link : Property} {owner : ObjectId}
      {lead : List String} {ownerLast : String}
      (identified : g.IsIdentified h d own object a last) (isNested : a.parent = some parent)
      (linkName : '/' ∉ parent.childToParent.toList)
      (parentType : g.get parent.type = .ok above)
      (childCollection : TypeGraph.childCollection above parent = .ok children)
      (path : Text.IsSegment children.uriName)
      (parentLink : own.property? parent.childToParent = some link)
      (parentObject : link.read h object = .object owner)
      (owner : IsPlaced g h parents above owner lead ownerLast) :
      IsPlaced g h (parents + 1) d object (lead ++ [ownerLast, children.uriName]) last

variable {parents : Nat} {d own : Descriptor} {object : ObjectId} {a : ResourceAddress}
  {collection : List String} {last : String}

namespace IsPlaced

theorem exists_own (hplaced : g.IsPlaced h parents d object collection last) :
    ∃ own a, g.IsIdentified h d own object a last := by
  cases hplaced with
  | top identified => exact ⟨_, _, identified⟩
  | nested identified => exact ⟨_, _, identified⟩

theorem isSegment_last (hplaced : g.IsPlaced h parents d object collection last) : Text.IsSegment last := by
  obtain ⟨own, a, hidentified⟩ := hplaced.exists_own
  obtain ⟨p, -, hsegment⟩ := hidentified.segment
  exact isSegment_of_segment hsegment hidentified.nonempty

theorem isSegment_collection (hplaced : g.IsPlaced h parents d object collection last) :
    ∀ s ∈ collection, Text.IsSegment s := by
  induction hplaced with
  | top _ _ path => exact fun s hs => List.mem_singleton.1 hs ▸ path
  | nested _ _ _ _ _ path _ _ owner ih =>
      intro s hs
      rcases List.mem_append.1 hs with hlead | hhere
      · exact ih s hlead
      rcases List.mem_cons.1 hhere with rfl | hhere
      · exact owner.isSegment_last
      · exact List.mem_singleton.1 hhere ▸ path

/-- A collection comes first, and behind each identifier comes another collection. -/
theorem length_collection (hplaced : g.IsPlaced h parents d object collection last) :
    collection.length % 2 = 1 := by
  induction hplaced with
  | top => rfl
  | nested _ _ _ _ _ _ _ _ _ ih =>
      rw [List.length_append, List.length_cons, List.length_singleton]
      omega

theorem collection_ne_nil (hplaced : g.IsPlaced h parents d object collection last) : collection ≠ [] := by
  rintro rfl
  exact absurd hplaced.length_collection (by decide)

/-- **The address of an object that is placed is its segments with slashes between them.** -/
theorem uriBelow_eq (hplaced : g.IsPlaced h parents d object collection last) :
    g.uriBelow h parents object = .ok (Text.join "/" (collection ++ [last])) := by
  induction hplaced with
  | top identified isTop path =>
      obtain ⟨p, hid, hsegment⟩ := identified.segment
      exact uriBelow_of_top identified.type identified.ownAddress hid hsegment isTop
  | nested identified isNested _ parentType childCollection _ parentLink parentObject owner ih =>
      obtain ⟨p, hid, hsegment⟩ := identified.segment
      rw [uriBelow_of_nested identified.type identified.ownAddress hid hsegment isNested parentLink parentObject
        parentType childCollection ih, Text.join_concat_two]

/-- **The template of a type has a part for each segment of an object's address**: the same name for a
collection, and a placeholder for an identifier. -/
theorem exists_template (hplaced : g.IsPlaced h parents d object collection last) {links : String}
    (hlinks : '/' ∉ links.toList) :
    ∃ parts placeholder, g.templateBelow parents links d = .ok (Text.join "/" (parts ++ [placeholder])) ∧
      (∀ p ∈ parts ++ [placeholder], '/' ∉ p.toList) ∧ Text.startsWith "\x7b" placeholder = true ∧
      List.Forall₂ (fun part s => part = s ∨ Text.startsWith "\x7b" part = true) parts collection := by
  have hplaceholder : ∀ {name links : String}, '/' ∉ name.toList → '/' ∉ links.toList →
      '/' ∉ ("\x7b" ++ links ++ name ++ "\x7d").toList ∧
        Text.startsWith "\x7b" ("\x7b" ++ links ++ name ++ "\x7d") = true := by
    intro name links hname hlinks
    simp only [String.toList_append, List.mem_append, not_or, Text.startsWith]
    exact ⟨⟨⟨⟨by decide, hlinks⟩, hname⟩, by decide⟩, rfl⟩
  induction hplaced generalizing links with
  | @top parents d own object a last identified isTop path =>
      obtain ⟨p, hid, hname⟩ := identified.id
      obtain ⟨hslash, hstart⟩ := hplaceholder hname hlinks
      refine ⟨[a.relativePath], _, ?_, ?_, hstart, .cons (Or.inl rfl) .nil⟩
      · unfold templateBelow
        simp only [requireResource_eq_ok.mpr identified.address, requirePrimaryId_eq_ok.mpr hid, isTop, bind,
          Except.bind]
        rfl
      · intro part hpart
        rcases List.mem_cons.1 hpart with rfl | hpart
        · exact path.noSlash
        · exact List.mem_singleton.1 hpart ▸ hslash
  | @nested parents d own object a last parent above children link owner lead ownerLast identified
      isNested linkName parentType childCollection path parentLink parentObject owner ih =>
      obtain ⟨p, hid, hname⟩ := identified.id
      obtain ⟨hslash, hstart⟩ := hplaceholder hname hlinks
      have hlinksAbove : '/' ∉ (links ++ parent.childToParent ++ ".").toList := by
        simp only [String.toList_append, List.mem_append, not_or]
        exact ⟨⟨hlinks, linkName⟩, by decide⟩
      obtain ⟨parts, placeholder, htemplate, hslashes, hstartAbove, hfit⟩ := ih hlinksAbove
      refine ⟨parts ++ [placeholder, children.uriName], _, ?_, ?_, hstart, ?_⟩
      · unfold templateBelow
        simp only [requireResource_eq_ok.mpr identified.address, requirePrimaryId_eq_ok.mpr hid, isNested,
          parentType, childCollection, htemplate, bind, Except.bind, Text.join_concat_two]
      · intro part hpart
        have hsplit : parts ++ [placeholder, children.uriName] ++ ["\x7b" ++ links ++ p.name ++ "\x7d"] =
            parts ++ [placeholder] ++ [children.uriName, "\x7b" ++ links ++ p.name ++ "\x7d"] := by simp
        rw [hsplit] at hpart
        rcases List.mem_append.1 hpart with habove | hhere
        · exact hslashes part habove
        rcases List.mem_cons.1 hhere with rfl | hhere
        · exact path.noSlash
        · exact List.mem_singleton.1 hhere ▸ hslash
      · exact List.rel_append hfit (.cons (Or.inr hstartAbove) (.cons (Or.inl rfl) .nil))

end IsPlaced

/-! ## Finding the place -/

theorem eq_ok_of_toOption {α : Type} {outcome : Except Error α} {a : α} (h : outcome.toOption = some a) :
    outcome = .ok a := by
  cases outcome with
  | ok b => exact congrArg Except.ok (Option.some.inj h)
  | error e => cases h

/-- The identifier of an object that is placed as `d` is, and the address of its type. -/
def identify? (g : TypeGraph) (h : Heap) (d : Descriptor) (object : ObjectId) :
    Option (Descriptor × ResourceAddress × String) := do
  let own ← g.table.get? (h.typeOf object)
  let a ← own.address?
  let p ← d.primaryId?
  let q ← own.primaryId?
  let last ← (segment own (q.read h object)).toOption
  if d.address? = some a ∧ '/' ∉ p.name.toList ∧ last ≠ "" then some (own, a, last) else none

/-- The segments of an object's address, if it is placed. -/
def place? (g : TypeGraph) (h : Heap) :
    (parents : Nat) → Descriptor → ObjectId → Option (List String × String)
  | parents, d, object => do
    let (own, a, last) ← g.identify? h d object
    match a.parent with
    | none => if Text.IsSegment a.relativePath then some ([a.relativePath], last) else none
    | some parent =>
      match parents with
      | 0 => none
      | parents + 1 => do
        let above ← g.table.get? parent.type
        let children ← above.property? parent.parentToChild
        let link ← own.property? parent.childToParent
        let owner ← (link.read h object).asObject?
        let (lead, ownerLast) ← g.place? h parents above owner
        if '/' ∉ parent.childToParent.toList ∧ Text.IsSegment children.uriName then
          some (lead ++ [ownerLast, children.uriName], last)
        else none

theorem isIdentified_of_identify? (hfound : g.identify? h d object = some (own, a, last)) :
    g.IsIdentified h d own object a last := by
  unfold identify? at hfound
  simp only [Option.bind_eq_bind, Option.bind_eq_some_iff] at hfound
  obtain ⟨own', hown, a', ha, p, hp, q, hq, last', hlast, hfound⟩ := hfound
  split at hfound
  · rename_i hchecked
    cases hfound
    exact ⟨get_eq_ok.mpr hown, ha, hchecked.1, ⟨p, hp, hchecked.2.1⟩, ⟨q, hq, eq_ok_of_toOption hlast⟩, hchecked.2.2⟩
  · cases hfound

theorem IsIdentified.isPlaced_of_top {last' : String} (hidentified : g.IsIdentified h d own object a last')
    (hparent : a.parent = none)
    (hfound : (if Text.IsSegment a.relativePath then some ([a.relativePath], last') else none) =
      some (collection, last)) : g.IsPlaced h parents d object collection last := by
  rw [Option.ite_none_right_eq_some, Option.some.injEq, Prod.mk.injEq] at hfound
  obtain ⟨hpath, rfl, rfl⟩ := hfound
  exact .top hidentified hparent hpath

/-- An object is placed where its place is found. -/
theorem isPlaced_of_place? (hfound : g.place? h parents d object = some (collection, last)) :
    g.IsPlaced h parents d object collection last := by
  induction parents generalizing d object collection last with
  | zero =>
      unfold place? at hfound
      obtain ⟨⟨own, a, last'⟩, hidentified, hfound⟩ := Option.bind_eq_some_iff.mp hfound
      cases hparent : a.parent with
      | none =>
          simp only [hparent] at hfound
          exact (isIdentified_of_identify? hidentified).isPlaced_of_top hparent hfound
      | some parent =>
          simp only [hparent] at hfound
          cases hfound
  | succ parents ih =>
      unfold place? at hfound
      obtain ⟨⟨own, a, last'⟩, hidentified, hfound⟩ := Option.bind_eq_some_iff.mp hfound
      cases hparent : a.parent with
      | none =>
          simp only [hparent] at hfound
          exact (isIdentified_of_identify? hidentified).isPlaced_of_top hparent hfound
      | some parent =>
          simp only [hparent, Option.bind_eq_bind, Option.bind_eq_some_iff, Option.ite_none_right_eq_some,
            Option.some.injEq, Prod.mk.injEq] at hfound
          obtain ⟨above, habove, children, hchildren, link, hlink, owner, howner, ⟨lead, ownerLast⟩, hlead,
            ⟨hname, hpath⟩, rfl, rfl⟩ := hfound
          have hobject : link.read h object = .object owner := by
            cases hvalue : link.read h object with
            | object id =>
                rw [hvalue] at howner
                exact congrArg Value.object (Option.some.inj howner)
            | _ =>
                rw [hvalue] at howner
                cases howner
          exact .nested (isIdentified_of_identify? hidentified) hparent hname (get_eq_ok.mpr habove)
            (childCollection_eq_ok.mpr hchildren) hpath hlink hobject (ih hlead)

end TypeGraph

end ResourceQuery
