import ResourceQuery.Proofs.Wire.Encoding
import ResourceQuery.Proofs.Wire.Instances

set_option autoImplicit false

/-! # Places in documents

A way from a value down to an object goes through items of lists, values of dictionaries, references that are
loaded and properties of other objects (`Writer.Leads`). The document of the value has a way of the same shape,
which ends at the document of the object, or at a reference that stands for a resource. The end is written where
it is if all paths on the way are expanded (`Writer.Leads.exists_inlined`). A resource whose slot does not ask for
that is not (`Writer.Leads.not_inlined`).

The way must not pass an object twice: a resource is not written inside itself.
-/

namespace ResourceQuery

open Expr (exists_of_bind_eq_ok)

/-- What comes later under other keys changes nothing. -/
theorem Entries.get?_ofList_append_of_ne {α : Type} {key : String} {first more : List (String × α)}
    (h : ∀ pair ∈ more, pair.1 ≠ key) : get? key (ofList (first ++ more)) = get? key (ofList first) := by
  induction more using List.reverseRecOn with
  | nil => rw [List.append_nil]
  | append_singleton more last ih =>
      obtain ⟨hmore, hlast⟩ := List.forall_mem_append.mp h
      rw [← List.append_assoc, ← ih hmore, ofList, List.foldl_concat]
      exact get?_insert_of_ne (hlast last List.mem_cons_self).symm _ _

/-! ## Places -/

namespace Json

/-- A step down in a document. -/
inductive Step where
  | member (name : String)
  | item (index : Nat)

/-- What some steps lead to. -/
def at? : List Step → Json → Option Json
  | [], json => some json
  | .member name :: rest, .object members => (Entries.get? name members).bind (at? rest)
  | .item i :: rest, .array items => items[i]?.bind (at? rest)
  | _, _ => none

theorem at?_member {name : String} {members : Entries Json} {document : Json}
    (h : Entries.get? name members = some document) (rest : List Step) :
    (object members).at? (.member name :: rest) = document.at? rest := by
  rw [at?, h, Option.bind_some]

theorem at?_item {i : Nat} {items : List Json} {document : Json} (h : items[i]? = some document)
    (rest : List Step) : (array items).at? (.item i :: rest) = document.at? rest := by
  rw [at?, h, Option.bind_some]

end Json

/-- The slot at the root of a document. -/
def WriteSlot.root (expected : TypeId) : WriteSlot :=
  ⟨expected, "", true, []⟩

/-- The path of a place that `names` lead to from a place with a path. -/
def WriteSlot.pathAlong (path : String) (names : List String) : String :=
  names.foldl (fun path name => Node.pathBelow path (Text.asciiLower name)) path

namespace Writer

variable {w : Writer} {slot s : WriteSlot} {v : Value} {json json' : Json} {d : Descriptor} {x : ObjectId}
  {names : List String} {steps : List Json.Step}

/-! ## What is written -/

/-- The document of a value in a slot, with some bound on the length of ways. -/
def Writes (w : Writer) (slot : WriteSlot) (v : Value) (json : Json) : Prop :=
  ∃ depth, w.writeWithin depth slot v = .ok json

/-- What is behind objects and references is written like everything else. -/
theorem Writes.exists_below (h : w.Writes slot v json) :
    ∃ below : SlotWriter, writeVia w below slot v = .ok json ∧
      (∀ {slot v json}, writeVia w below slot v = .ok json → w.Writes slot v json) ∧
      ∀ {slot v json}, below slot v = .ok json → w.Writes slot v json := by
  obtain ⟨depth, h⟩ := h
  cases depth with
  | zero => exact ⟨_, h, fun h => ⟨0, h⟩, nofun⟩
  | succ depth => exact ⟨_, h, fun h => ⟨depth + 1, h⟩, fun h => ⟨depth, h⟩⟩

theorem Writes.list {items : List Value} (h : w.Writes slot (.list items) json) :
    ∃ d documents, w.graph.get slot.expected = .ok d ∧ json = .array documents ∧
      List.Forall₂ (w.Writes { slot with expected := itemType d }) items documents := by
  obtain ⟨below, h, hvia, -⟩ := h.exists_below
  rw [writeVia] at h
  obtain ⟨d, hd, h⟩ := exists_of_bind_eq_ok h
  obtain ⟨documents, hdocuments, h⟩ := exists_of_bind_eq_ok h
  exact ⟨d, documents, hd, (Except.ok.inj h).symm, (forall₂_of_writeItems hdocuments).imp fun _ _ => hvia⟩

/-- Each item has its document. -/
theorem exists_document {R : Value → Json → Prop} {vs : List Value} {documents : List Json}
    (h : List.Forall₂ R vs documents) {i : Nat} (hv : vs[i]? = some v) :
    ∃ document, documents[i]? = some document ∧ R v document := by
  obtain ⟨hlength, hall⟩ := List.forall₂_iff_get.mp h
  obtain ⟨hi, rfl⟩ := List.getElem?_eq_some_iff.mp hv
  exact ⟨documents[i], List.getElem?_eq_getElem (hlength ▸ hi), hall i hi (hlength ▸ hi)⟩

/-- Keys are escaped so that they can be told apart again. -/
theorem escape_inj {key other : String} (h : escape key = escape other) : key = other := by
  have hlist : ∀ key : String, (escape key).toList =
      if key.toList.head?.any ['^', '-', '*', '!'].contains then '^' :: key.toList else key.toList := by
    intro key
    unfold escape
    cases hkey : key.toList with
    | nil => simp [hkey]
    | cons c rest =>
        dsimp only
        rw [List.head?_cons, Option.any_some]
        split
        · rw [String.toList_append, hkey]
          rfl
        · exact hkey
  have hsame := (hlist key).symm.trans ((congrArg String.toList h).trans (hlist other))
  refine String.toList_inj.mp ?_
  split at hsame
  · split at hsame
    · exact (List.cons.inj hsame).2
    · -- a key that is not escaped does not start with the mark
      rename_i hother
      rw [← hsame] at hother
      exact absurd rfl hother
  · split at hsame
    · rename_i hkey _
      rw [hsame] at hkey
      exact absurd rfl hkey
    · exact hsame

theorem Writes.map {entries : List (String × Value)} (h : w.Writes slot (.map entries) json) :
    ∃ d members, w.graph.get slot.expected = .ok d ∧ json = .object members ∧
      ∀ entry ∈ entries, (∀ other ∈ entries, other.1 = entry.1 → other = entry) →
        ∃ document, Entries.get? (escape entry.1) members = some document ∧
          w.Writes ⟨entryType d, slot.pathTo entry.1, false, slot.around⟩ entry.2 document := by
  obtain ⟨below, h, hvia, -⟩ := h.exists_below
  rw [writeVia] at h
  obtain ⟨d, hd, h⟩ := exists_of_bind_eq_ok h
  obtain ⟨members, hmembers, h⟩ := exists_of_bind_eq_ok h
  have hentered := entered_of_writeEntries hmembers
  refine ⟨d, members, hd, (Except.ok.inj h).symm, fun entry hentry honly => ?_⟩
  obtain ⟨document, hdocument⟩ := Option.isSome_iff_exists.mp (hentered.written entry hentry)
  rcases hentered.source _ (Entries.mem_of_get? hdocument) with hnone | ⟨other, hother, hkey, hwrite⟩
  · cases hnone
  · rw [honly other hother (escape_inj hkey).symm] at hwrite
    exact ⟨document, hdocument, hvia hwrite⟩

theorem Writes.reference {r : LazyRef} (h : w.Writes slot (.reference r) json) :
    (∃ target, w.heap.state r = .resolved target ∧ w.inlines slot = true ∧ w.Writes slot target json) ∨
      json = Writer.reference r.uri ∧ ∀ target, w.heap.state r = .resolved target → w.inlines slot = false := by
  obtain ⟨below, h, -, hbelow⟩ := h.exists_below
  rw [writeVia] at h
  obtain ⟨d, -, h⟩ := exists_of_bind_eq_ok h
  unfold writeReference at h
  cases hstate : w.heap.state r with
  | resolved target =>
      rw [hstate] at h
      dsimp only at h
      split at h
      · rename_i hinlines
        exact .inl ⟨target, rfl, hinlines, hbelow h⟩
      · rename_i hinlines
        exact .inr ⟨(Except.ok.inj h).symm, fun _ _ => Bool.eq_false_iff.mpr hinlines⟩
  | _ =>
      rw [hstate] at h
      exact .inr ⟨(Except.ok.inj h).symm, nofun⟩

/-! ## Objects that are written where they are -/

/-- The members for an object: the address of a resource, and no reference to it; a document for each property
that clients may read. -/
structure Shows (w : Writer) (slot : WriteSlot) (x : ObjectId) (d : Descriptor) (members : Entries Json) :
    Prop where
  noReference : Entries.get? "_ref" members = none
  address : d.isResource = true → ∃ uri, w.graph.absoluteUri w.heap w.baseUri x = .ok uri ∧
    Entries.get? "_uri" members = some (.string uri)
  properties : ∀ p ∈ d.properties, p.isReadable = true → w.Tells (w.heap.record x) p →
    ∃ document, Entries.get? p.jsonName members = some document ∧
      w.Writes ⟨p.type, slot.pathTo p.name, p.alwaysExpanded, x :: slot.around⟩ (p.read w.heap x) document

/-- The document of an object that is written where it is, and not as a reference. -/
def Inlined (w : Writer) (slot : WriteSlot) (x : ObjectId) (json : Json) : Prop :=
  ∃ d members, w.graph.get (w.heap.typeOf x) = .ok d ∧ json = .object members ∧ w.Shows slot x d members

/-- No reference, nor anything in one, is a document of an object. -/
theorem not_inlined_reference {uri : String} (hat : (Writer.reference uri).at? steps = some json') :
    ¬ w.Inlined s x json' := by
  rintro ⟨d, members, -, rfl, hshows⟩
  cases steps with
  | nil =>
      cases hat
      cases hshows.noReference
  | cons step rest =>
      cases step with
      | item i => cases hat
      | member name =>
          obtain ⟨inner, hinner, hat⟩ := Option.bind_eq_some_iff.mp hat
          have htext : inner = .string uri := by
            rcases List.mem_singleton.mp (Entries.mem_of_get? hinner) with hpair
            exact congrArg Prod.snd hpair
          rw [htext] at hat
          cases rest with
          | nil => cases hat
          | cons step rest => cases step <;> cases hat

theorem address_of_tags {tags : Entries Json} (h : w.tags slot d x = .ok tags) (hresource : d.isResource = true) :
    ∃ uri, w.graph.absoluteUri w.heap w.baseUri x = .ok uri ∧
      Entries.get? "_uri" tags = some (.string uri) := by
  unfold Writer.tags at h
  rw [if_pos hresource] at h
  obtain ⟨uri, huri, h⟩ := exists_of_bind_eq_ok h
  refine ⟨uri, huri, ?_⟩
  rw [← Except.ok.inj h, Entries.ofList, List.foldl_append]
  exact Entries.get?_insert_self _ _ _

section Objects

variable (hg : w.graph.Arises)
  (hletters : ∀ d ∈ w.graph.types, ∀ p ∈ d.properties, p.startsWithLetter = true)

include hg hletters

/-- What is put behind the tags of an object shows it. -/
theorem shows_of_properties {below : SlotWriter} {tags members : Entries Json}
    (hbelow : ∀ {slot v json}, below slot v = .ok json → w.Writes slot v json)
    (hd : w.graph.get (w.heap.typeOf x) = .ok d) (htags : w.tags slot d x = .ok tags)
    (hmembers : Writer.properties w below { slot with around := x :: slot.around } (w.heap.record x) tags
      d.properties = .ok members) : w.Shows slot x d members := by
  have hknown := TypeGraph.get_eq_ok.mp hd
  have hletters := hletters d (TypeGraph.mem_types hknown)
  have hput := put_of_properties hmembers
  have htagged := tagged_of_tags htags
  have htagKey : ∀ {key}, key.toList.head? = some '_' → Entries.get? key members = Entries.get? key tags :=
    fun hkey => hput.other _ fun p hp => Document.jsonName_ne (hletters p hp) hkey
  refine ⟨?_, fun hresource => ?_, fun p hp hreadable htells => ?_⟩
  · rw [htagKey rfl, Option.eq_none_iff_forall_ne_some]
    intro value hvalue
    rcases htagged.keys _ (Entries.mem_of_get? hvalue) with hkey | hkey <;> exact absurd hkey (by simp)
  · rw [htagKey rfl]
    exact address_of_tags htags hresource
  · obtain ⟨document, hdocument⟩ := Option.isSome_iff_exists.mp (hput.written p hp hreadable htells)
    refine ⟨document, hdocument, ?_⟩
    rcases hput.source _ (Entries.mem_of_get? hdocument) with htag | ⟨q, hq, hname, -, hwrite⟩
    · rcases htagged.keys _ htag with hkey | hkey <;>
        exact absurd hkey (Document.jsonName_ne (hletters p hp) rfl)
    · rw [Property.eq_of_jsonName (hg.sound.distinct _ _ hknown) hp hq (hletters p hp) (hletters q hq) hname]
      exact hbelow hwrite

/-- An object is written where it is, or a reference stands for a resource. -/
theorem Writes.object (h : w.Writes slot (.object x) json) :
    ∃ d, w.graph.get (w.heap.typeOf x) = .ok d ∧
      ((d.isResource = true ∧ (x ∈ slot.around ∨ w.inlines slot = false) ∧
          ∃ uri, json = Writer.reference uri) ∨
        (x ∉ slot.around ∧ (d.isResource = true → w.inlines slot = true) ∧ w.Inlined slot x json)) := by
  obtain ⟨below, h, -, hbelow⟩ := h.exists_below
  rw [writeVia] at h
  obtain ⟨_, -, h⟩ := exists_of_bind_eq_ok h
  unfold writeObject at h
  obtain ⟨d, hd, h⟩ := exists_of_bind_eq_ok h
  refine ⟨d, hd, ?_⟩
  dsimp only at h
  split at h
  · rename_i hreference
    obtain ⟨uri, -, h⟩ := exists_of_bind_eq_ok h
    simp only [Bool.and_eq_true, Bool.or_eq_true, List.contains_iff_mem, Bool.not_eq_true'] at hreference
    exact .inl ⟨hreference.1, hreference.2, uri, (Except.ok.inj h).symm⟩
  · rename_i hhere
    split at h
    · cases h
    · rename_i hinside
      obtain ⟨tags, htags, h⟩ := exists_of_bind_eq_ok h
      obtain ⟨members, hmembers, h⟩ := exists_of_bind_eq_ok h
      rw [List.contains_iff_mem] at hinside
      refine .inr ⟨hinside, fun hresource => ?_, d, members, hd, (Except.ok.inj h).symm,
        shows_of_properties hg hletters hbelow hd htags hmembers⟩
      simp only [hresource, Bool.true_and, Bool.or_eq_true, not_or, Bool.not_eq_true',
        Bool.not_eq_false] at hhere
      exact hhere.2

end Objects

/-! ## Ways down -/

/-- A way from a value in a slot to an object: the names of members that it passes, the steps that go along it in
the document, and the slot of the object. -/
inductive Leads (w : Writer) :
    WriteSlot → Value → List String → List Json.Step → WriteSlot → ObjectId → Prop where
  | here (slot : WriteSlot) (x : ObjectId) : Leads w slot (.object x) [] [] slot x
  | behind {slot s : WriteSlot} {r : LazyRef} {target : Value} {names : List String} {steps : List Json.Step}
      {x : ObjectId} (hstate : w.heap.state r = .resolved target)
      (hrest : Leads w slot target names steps s x) : Leads w slot (.reference r) names steps s x
  | item {slot s : WriteSlot} {items : List Value} {d : Descriptor} {i : Nat} {v : Value} {names : List String}
      {steps : List Json.Step} {x : ObjectId} (hd : w.graph.get slot.expected = .ok d)
      (hv : items[i]? = some v) (hrest : Leads w { slot with expected := itemType d } v names steps s x) :
      Leads w slot (.list items) names (.item i :: steps) s x
  | entry {slot s : WriteSlot} {entries : List (String × Value)} {d : Descriptor} {entry : String × Value}
      {names : List String} {steps : List Json.Step} {x : ObjectId} (hd : w.graph.get slot.expected = .ok d)
      (hentry : entry ∈ entries) (honly : ∀ other ∈ entries, other.1 = entry.1 → other = entry)
      (hrest : Leads w ⟨entryType d, slot.pathTo entry.1, false, slot.around⟩ entry.2 names steps s x) :
      Leads w slot (.map entries) (entry.1 :: names) (.member (escape entry.1) :: steps) s x
  | property {slot s : WriteSlot} {y x : ObjectId} {d : Descriptor} {p : Property} {names : List String}
      {steps : List Json.Step} (hd : w.graph.get (w.heap.typeOf y) = .ok d) (hp : p ∈ d.properties)
      (hreadable : p.isReadable = true)
      (hrest : Leads w ⟨p.type, slot.pathTo p.name, p.alwaysExpanded, y :: slot.around⟩ (p.read w.heap y)
        names steps s x) :
      Leads w slot (.object y) (p.name :: names) (.member p.jsonName :: steps) s x

theorem Leads.path (h : w.Leads slot v names steps s x) : s.path = WriteSlot.pathAlong slot.path names := by
  induction h with
  | here => rfl
  | behind _ _ ih => exact ih
  | item _ _ _ ih => exact ih
  | entry _ _ _ _ ih => exact ih
  | property _ _ _ _ ih => exact ih

/-- The objects around a place are around all places below. -/
theorem Leads.around (h : w.Leads slot v names steps s x) : slot.around <:+ s.around := by
  induction h with
  | here => exact List.suffix_refl _
  | behind _ _ ih => exact ih
  | item _ _ _ ih => exact ih
  | entry _ _ _ _ ih => exact ih
  | property _ _ _ _ ih => exact (List.suffix_cons _ _).trans ih

theorem Leads.ne_null (h : w.Leads slot v names steps s x) : v ≠ .null := by
  rintro rfl
  cases h

section Ways

variable (hg : w.graph.Arises)
  (hletters : ∀ d ∈ w.graph.types, ∀ p ∈ d.properties, p.startsWithLetter = true)

include hg hletters

/-- **An object is written where it is if all paths on the way to it are expanded** and no object is passed twice.
The value where the way starts is written inline. -/
theorem Leads.exists_inlined (h : w.Leads slot v names steps s x) (hwrites : w.Writes slot v json)
    (hinlines : w.inlines slot = true)
    (hcovers : ∀ lead, lead <+: names → lead ≠ [] →
      w.expansion.contains (WriteSlot.pathAlong slot.path lead) = true)
    (honce : (x :: s.around).Nodup) : ∃ json', json.at? steps = some json' ∧ w.Inlined s x json' := by
  induction h generalizing json with
  | @here slot x =>
      obtain ⟨d, -, hshown⟩ := hwrites.object hg hletters
      rcases hshown with ⟨-, hreason, -⟩ | ⟨-, -, hinlined⟩
      · rcases hreason with hinside | hnot
        · exact absurd hinside (List.nodup_cons.mp honce).1
        · rw [hinlines] at hnot
          cases hnot
      · exact ⟨json, rfl, hinlined⟩
  | behind hstate _ ih =>
      rcases hwrites.reference with ⟨target, htarget, -, hwrites⟩ | ⟨-, hnot⟩
      · cases hstate.symm.trans htarget
        exact ih hwrites hinlines hcovers honce
      · rw [hnot _ hstate] at hinlines
        cases hinlines
  | item hd hv _ ih =>
      obtain ⟨d', documents, hd', rfl, hall⟩ := hwrites.list
      cases hd.symm.trans hd'
      obtain ⟨document, hdocument, hwrites⟩ := exists_document hall hv
      obtain ⟨json', hat, hinlined⟩ := ih hwrites hinlines hcovers honce
      exact ⟨json', (Json.at?_item hdocument _).trans hat, hinlined⟩
  | @entry slot s entries d entry names steps x hd hentry honly _ ih =>
      obtain ⟨d', members, hd', rfl, hall⟩ := hwrites.map
      cases hd.symm.trans hd'
      obtain ⟨document, hdocument, hwrites⟩ := hall entry hentry honly
      have hnext : w.expansion.contains (slot.pathTo entry.1) = true :=
        hcovers [entry.1] ⟨names, rfl⟩ (List.cons_ne_nil _ _)
      obtain ⟨json', hat, hinlined⟩ := ih hwrites (Bool.or_eq_true_iff.mpr (.inr hnext))
        (fun lead hlead _ => hcovers (entry.1 :: lead) (List.cons_prefix_cons.mpr ⟨rfl, hlead⟩)
          (List.cons_ne_nil _ _)) honce
      exact ⟨json', (Json.at?_member hdocument _).trans hat, hinlined⟩
  | @property slot s y x d p names steps hd hp hreadable hrest ih =>
      have hnext : w.expansion.contains (slot.pathTo p.name) = true :=
        hcovers [p.name] ⟨names, rfl⟩ (List.cons_ne_nil _ _)
      have hinside : y ∉ slot.around :=
        (List.nodup_cons.mp (hrest.around.sublist.nodup (List.nodup_cons.mp honce).2)).1
      obtain ⟨d', -, hshown⟩ := hwrites.object hg hletters
      rcases hshown with ⟨-, hreason, -⟩ | ⟨-, -, d', members, hd', rfl, hshows⟩
      · rcases hreason with hnot | hnot
        · exact absurd hnot hinside
        · rw [hinlines] at hnot
          cases hnot
      · cases hd.symm.trans hd'
        obtain ⟨document, hdocument, hwrites⟩ :=
          hshows.properties p hp hreadable fun hnull => absurd hnull hrest.ne_null
        obtain ⟨json', hat, hinlined⟩ := ih hwrites (Bool.or_eq_true_iff.mpr (.inr hnext))
          (fun lead hlead _ => hcovers (p.name :: lead) (List.cons_prefix_cons.mpr ⟨rfl, hlead⟩)
            (List.cons_ne_nil _ _)) honce
        exact ⟨json', (Json.at?_member hdocument _).trans hat, hinlined⟩

/-- **A resource is not written where it is if neither its property nor the expansion asks for it.** -/
theorem Leads.not_inlined (h : w.Leads slot v names steps s x) (hwrites : w.Writes slot v json)
    (hd : w.graph.get (w.heap.typeOf x) = .ok d) (hresource : d.isResource = true)
    (hnot : w.inlines s = false) (hat : json.at? steps = some json') : ¬ w.Inlined s x json' := by
  induction h generalizing json with
  | here =>
      obtain ⟨d', hd', hshown⟩ := hwrites.object hg hletters
      cases hd.symm.trans hd'
      rcases hshown with ⟨-, -, uri, rfl⟩ | ⟨-, hinlines, -⟩
      · exact not_inlined_reference hat
      · rw [hinlines hresource] at hnot
        cases hnot
  | behind hstate _ ih =>
      rcases hwrites.reference with ⟨target, htarget, -, hwrites⟩ | ⟨rfl, -⟩
      · cases hstate.symm.trans htarget
        exact ih hwrites hd hnot hat
      · exact not_inlined_reference hat
  | item hlist hv _ ih =>
      obtain ⟨d', documents, hd', rfl, hall⟩ := hwrites.list
      cases hlist.symm.trans hd'
      obtain ⟨document, hdocument, hwrites⟩ := exists_document hall hv
      exact ih hwrites hd hnot ((Json.at?_item hdocument _).symm.trans hat)
  | entry hmap hentry honly _ ih =>
      obtain ⟨d', members, hd', rfl, hall⟩ := hwrites.map
      cases hmap.symm.trans hd'
      obtain ⟨document, hdocument, hwrites⟩ := hall _ hentry honly
      exact ih hwrites hd hnot ((Json.at?_member hdocument _).symm.trans hat)
  | property hy hp hreadable hrest ih =>
      obtain ⟨d', -, hshown⟩ := hwrites.object hg hletters
      rcases hshown with ⟨-, -, uri, rfl⟩ | ⟨-, -, d', members, hd', rfl, hshows⟩
      · exact not_inlined_reference hat
      · cases hy.symm.trans hd'
        obtain ⟨document, hdocument, hwrites⟩ :=
          hshows.properties _ hp hreadable fun hnull => absurd hnull hrest.ne_null
        exact ih hwrites hd hnot ((Json.at?_member hdocument _).symm.trans hat)

end Ways

/-! ## Listings -/

/-- The document of a listing has the documents of its items, each written like the root of a document. -/
theorem exists_items_of_writeListing {type : TypeId} {l : Listing} {document : Json}
    (h : w.writeListing type l = .ok document) :
    ∃ members documents, document = .object members ∧ Entries.get? "items" members = some (.array documents) ∧
      List.Forall₂ (w.Writes (.root type)) l.items documents := by
  have heach : ∀ {vs documents}, w.writeEach type vs = .ok documents →
      List.Forall₂ (w.Writes (.root type)) vs documents := by
    intro vs
    induction vs with
    | nil =>
        intro documents hdocuments
        cases hdocuments
        exact .nil
    | cons v rest ih =>
        intro documents hdocuments
        obtain ⟨first, hfirst, hdocuments⟩ := exists_of_bind_eq_ok hdocuments
        obtain ⟨others, hothers, hdocuments⟩ := exists_of_bind_eq_ok hdocuments
        cases hdocuments
        exact .cons ⟨_, hfirst⟩ (ih hothers)
  obtain ⟨documents, hdocuments, h⟩ := exists_of_bind_eq_ok h
  cases h
  refine ⟨_, documents, rfl, ?_, heach hdocuments⟩
  have hother : ∀ {α : Type} (part : Option α) {key : String} (document : α → Json), key ≠ "items" →
      ∀ pair ∈ (part.map fun a => (key, document a)).toList, pair.1 ≠ "items" := by
    intro α part key document hkey pair hpair
    cases part with
    | none => cases hpair
    | some a =>
        rw [List.mem_singleton.mp hpair]
        exact hkey
  rw [Entries.get?_ofList_append_of_ne (hother _ _ (by decide)),
    Entries.get?_ofList_append_of_ne (hother _ _ (by decide)),
    Entries.get?_ofList_append_of_ne (hother _ _ (by decide))]
  rw [Entries.ofList, List.foldl_cons, List.foldl_cons, List.foldl_nil]
  exact Entries.get?_insert_self _ _ _

/-- A resource that `names` lead to from an item of a listing, up to the case of letters, and its place in the
document; no object is passed twice. -/
def ListsAt (w : Writer) (type : TypeId) (items : List Value) (names : List String) (place : List Json.Step)
    (slot : WriteSlot) (x : ObjectId) : Prop :=
  ∃ i v passed steps d, items[i]? = some v ∧ w.Leads (.root type) v passed steps slot x ∧
    passed.map Text.asciiLower = names.map Text.asciiLower ∧ place = .member "items" :: .item i :: steps ∧
    w.graph.get (w.heap.typeOf x) = .ok d ∧ d.isResource = true ∧ (x :: slot.around).Nodup

/-- The object is written at the place, and not referred to. -/
def InlinesAt (w : Writer) (document : Json) (place : List Json.Step) (slot : WriteSlot) (x : ObjectId) : Prop :=
  ∃ json, document.at? place = some json ∧ w.Inlined slot x json

end Writer

end ResourceQuery
