import ResourceQuery.Proofs.Data.Entries
import ResourceQuery.Proofs.Expr.Written
import ResourceQuery.Proofs.Type.Resolution
import ResourceQuery.Wire.Writer

set_option autoImplicit false

/-! # What a document is made of

What has to have happened for a document to be written: the tags of an object, a member for each property
that clients may read, an item for each item of a list, an escaped key for each key of a dictionary. Each
lemma is about one function of the writer and takes apart what it did, so that whoever follows a document
need not open the writer again.
-/

namespace ResourceQuery

open Expr (exists_of_bind_eq_ok)

/-! ## Depth -/

namespace Json

theorem depth_le_of_mem_members {member : String × Json} {members : List (String × Json)}
    (h : member ∈ members) : member.2.depth ≤ depthOfMembers members := by
  induction members with
  | nil => cases h
  | cons first rest ih =>
      unfold depthOfMembers
      rcases List.mem_cons.mp h with hself | hlater
      · rw [hself]
        exact Nat.le_max_left _ _
      · exact (ih hlater).trans (Nat.le_max_right _ _)

end Json

/-! ## Addresses -/

/-- An object that has an address has a primary id that is not null. -/
theorem TypeGraph.exists_primaryId_of_uriOf {g : TypeGraph} {h : Heap} {id : ObjectId} {uri : String}
    {d : Descriptor} (hd : g.table.get? (h.typeOf id) = some d) (huri : g.uriOf h id = .ok uri) :
    ∃ p ∈ d.properties, p.read h id ≠ .null := by
  unfold uriOf uriBelow at huri
  obtain ⟨c, hc, huri⟩ := exists_of_bind_eq_ok huri
  rw [get_eq_ok, hd] at hc
  cases hc
  obtain ⟨_, _, huri⟩ := exists_of_bind_eq_ok huri
  obtain ⟨p, hp, huri⟩ := exists_of_bind_eq_ok huri
  obtain ⟨_, hsegment, _⟩ := exists_of_bind_eq_ok huri
  obtain ⟨m, hm, hplace⟩ := Option.bind_eq_some_iff.mp (requirePrimaryId_eq_ok.mp hp)
  obtain ⟨i, _, hi⟩ := Option.bind_eq_some_iff.mp hplace
  refine ⟨p, ?_, fun hnull => ?_⟩
  · unfold Descriptor.properties
    rw [hm]
    exact List.mem_of_getElem? hi
  · rw [hnull] at hsegment
    cases hsegment

namespace Writer

variable {w : Writer} {below : SlotWriter} {slot : WriteSlot} {d : Descriptor} {x : ObjectId}
  {record : Record} {done members : Entries Json}

/-! ## Objects -/

/-- The tags of an object: its type where the slot has another one, and its address if it has one. -/
structure Tagged (w : Writer) (slot : WriteSlot) (d : Descriptor) (x : ObjectId)
    (tags : Entries Json) : Prop where
  sorted : tags.Sorted
  keys : ∀ tag ∈ tags, tag.1 = "_type" ∨ tag.1 = "_uri"
  type : Entries.get? "_type" tags = none ∧ d.id = slot.expected ∨
    Entries.get? "_type" tags = some (.string d.name)
  uri : Entries.get? "_uri" tags = none ∨ (∃ uri, Entries.get? "_uri" tags = some (.string uri)) ∧
    ∃ uri, w.graph.uriOf w.heap x = .ok uri

/-- The tag of the type, if there is one. -/
def typeTag (slot : WriteSlot) (d : Descriptor) : Entries Json :=
  if d.id = slot.expected then [] else [("_type", .string d.name)]

theorem tagged_typeTag (w : Writer) (slot : WriteSlot) (d : Descriptor) (x : ObjectId) :
    Tagged w slot d x (typeTag slot d) := by
  unfold typeTag
  split
  · rename_i hsame
    exact ⟨Entries.sorted_nil, nofun, Or.inl ⟨rfl, hsame⟩, Or.inl rfl⟩
  · refine ⟨List.pairwise_singleton _ _, fun tag htag => Or.inl ?_, Or.inr rfl, Or.inl rfl⟩
    rw [List.mem_singleton.mp htag]

theorem tagged_of_tags (h : w.tags slot d x = .ok members) : Tagged w slot d x members := by
  have htype := tagged_typeTag w slot d x
  unfold tags at h
  dsimp only at h
  split at h
  · obtain ⟨uri, huri, htags⟩ := exists_of_bind_eq_ok h
    obtain ⟨relative, hrelative, _⟩ := exists_of_bind_eq_ok huri
    -- the address is put beside the type
    have hinsert : Entries.insert "_uri" (.string uri) (typeTag slot d) = members := by
      have hself : Entries.ofList (typeTag slot d) = typeTag slot d := by
        unfold typeTag
        split <;> rfl
      rw [← Except.ok.inj htags, Entries.ofList, List.foldl_append]
      exact congrArg (Entries.insert "_uri" (.string uri)) hself.symm
    rw [← hinsert]
    refine ⟨htype.sorted.insert, fun tag htag => ?_, ?_, Or.inr ⟨⟨uri, ?_⟩, relative, hrelative⟩⟩
    · rcases Entries.mem_insert htag with hnew | hold
      · rw [hnew]
        exact Or.inr rfl
      · exact htype.keys tag hold
    · rw [Entries.get?_insert_of_ne (show "_type" ≠ "_uri" by decide)]
      exact htype.type
    · exact Entries.get?_insert_self _ _ _
  · rw [← Except.ok.inj h]
    exact htype

/-- A property is left out if it is null and its type does not have null. -/
def Tells (w : Writer) (record : Record) (p : Property) : Prop :=
  p.getFrom record = .null → ∃ e, w.graph.table.get? p.type = some e ∧ e.nullable = true

theorem tells_iff_of_isNull {p : Property} {e : Descriptor} (hnull : (p.getFrom record).isNull = true)
    (he : w.graph.get p.type = .ok e) : w.Tells record p ↔ e.nullable = true := by
  have hnull : p.getFrom record = .null := by
    cases hvalue : p.getFrom record with
    | null => rfl
    | _ =>
        rw [hvalue] at hnull
        cases hnull
  unfold Tells
  rw [hnull, TypeGraph.get_eq_ok.mp he]
  refine ⟨fun h => ?_, fun h _ => ⟨e, rfl, h⟩⟩
  obtain ⟨_, hsame, h⟩ := h rfl
  cases hsame
  exact h

/-- What is left when properties were put into members: those that clients may read and that tell
something. -/
structure Put (w : Writer) (below : SlotWriter) (slot : WriteSlot) (record : Record)
    (properties : List Property) (done members : Entries Json) : Prop where
  sorted : done.Sorted → members.Sorted
  kept : ∀ key, (Entries.get? key done).isSome = true → (Entries.get? key members).isSome = true
  other : ∀ key, (∀ p ∈ properties, p.jsonName ≠ key) → Entries.get? key members = Entries.get? key done
  source : ∀ member ∈ members, member ∈ done ∨ ∃ p ∈ properties, member.1 = p.jsonName ∧
    w.Tells record p ∧ below ⟨p.type, slot.pathTo p.name, p.alwaysExpanded, slot.around⟩
      (p.getFrom record) = .ok member.2
  written : ∀ p ∈ properties, p.isReadable = true → w.Tells record p →
    (Entries.get? p.jsonName members).isSome = true

/-- A property that is left out. -/
theorem Put.skip {p : Property} {rest : List Property} (h : Put w below slot record rest done members)
    (hp : p.isReadable = true → w.Tells record p → False) :
    Put w below slot record (p :: rest) done members where
  sorted := h.sorted
  kept := h.kept
  other := fun key hkey => h.other key fun q hq => hkey q (List.mem_cons_of_mem _ hq)
  source := fun member hmember => (h.source member hmember).imp_right
    fun ⟨q, hq, hsource⟩ => ⟨q, List.mem_cons_of_mem _ hq, hsource⟩
  written := fun q hq hreadable htells => by
    rcases List.mem_cons.mp hq with hself | hlater
    · rw [hself] at hreadable htells
      exact (hp hreadable htells).elim
    · exact h.written q hlater hreadable htells

/-- A property that is written. -/
theorem Put.cons {p : Property} {rest : List Property} {json : Json}
    (h : Put w below slot record rest (Entries.insert p.jsonName json done) members)
    (htells : w.Tells record p) (hjson : below ⟨p.type, slot.pathTo p.name, p.alwaysExpanded,
      slot.around⟩ (p.getFrom record) = .ok json) :
    Put w below slot record (p :: rest) done members where
  sorted := fun hdone => h.sorted hdone.insert
  kept := fun key hkey => h.kept key ((Entries.isSome_get?_insert key).mpr (Or.inr hkey))
  other := fun key hkey => by
    rw [h.other key fun q hq => hkey q (List.mem_cons_of_mem _ hq)]
    exact Entries.get?_insert_of_ne (hkey p List.mem_cons_self).symm _ _
  source := fun member hmember => by
    rcases h.source member hmember with hthere | ⟨q, hq, hsource⟩
    · rcases Entries.mem_insert hthere with hnew | hold
      · rw [hnew]
        exact Or.inr ⟨p, List.mem_cons_self, rfl, htells, hjson⟩
      · exact Or.inl hold
    · exact Or.inr ⟨q, List.mem_cons_of_mem _ hq, hsource⟩
  written := fun q hq hreadable hq' => by
    rcases List.mem_cons.mp hq with hself | hlater
    · rw [hself]
      exact h.kept _ ((Entries.isSome_get?_insert _).mpr (Or.inl rfl))
    · exact h.written q hlater hreadable hq'

theorem put_of_properties {list : List Property}
    (h : properties w below slot record done list = .ok members) :
    Put w below slot record list done members := by
  induction list generalizing done with
  | nil =>
      rw [← Except.ok.inj h]
      exact ⟨id, fun _ => id, fun _ _ => rfl, fun _ => Or.inl, fun _ hp => nomatch hp⟩
  | cons p rest ih =>
      unfold properties at h
      split at h
      · rename_i hhidden
        exact (ih h).skip fun hreadable _ => by
          rw [hreadable] at hhidden
          cases hhidden
      · dsimp only at h
        split at h
        · rename_i hnull
          obtain ⟨omitted, homitted, h⟩ := exists_of_bind_eq_ok h
          cases hget : w.graph.get p.type with
          | error e =>
              rw [hget] at homitted
              cases homitted
          | ok e =>
              rw [hget] at homitted
              have htells := tells_iff_of_isNull hnull hget
              have homitted : (!e.nullable) = omitted := Except.ok.inj homitted
              rw [← homitted] at h
              cases hnullable : e.nullable with
              | false =>
                  rw [hnullable] at h htells
                  exact (ih h).skip fun _ hp => Bool.false_ne_true (htells.mp hp)
              | true =>
                  rw [hnullable] at h htells
                  obtain ⟨json, hjson, h⟩ := exists_of_bind_eq_ok h
                  exact (ih h).cons (htells.mpr rfl) hjson
        · rename_i hvalue
          obtain ⟨_, homitted, h⟩ := exists_of_bind_eq_ok h
          cases homitted
          obtain ⟨json, hjson, h⟩ := exists_of_bind_eq_ok h
          exact (ih h).cons (fun hnull => absurd (by rw [hnull]; rfl) hvalue) hjson

/-! ## Lists and dictionaries -/

theorem forall₂_of_writeItems {vs : List Value} {documents : List Json}
    (h : writeItems w below slot vs = .ok documents) :
    List.Forall₂ (fun v json => writeVia w below slot v = .ok json) vs documents := by
  induction vs generalizing documents with
  | nil =>
      rw [writeItems] at h
      rw [← Except.ok.inj h]
      exact .nil
  | cons v rest ih =>
      rw [writeItems] at h
      obtain ⟨json, hjson, h⟩ := exists_of_bind_eq_ok h
      obtain ⟨others, hothers, h⟩ := exists_of_bind_eq_ok h
      rw [← Except.ok.inj h]
      exact .cons hjson (ih hothers)

/-- What is left when entries were put into members: each is there, under its escaped key. -/
structure Entered (w : Writer) (below : SlotWriter) (slot : WriteSlot) (entries : List (String × Value))
    (done members : Entries Json) : Prop where
  kept : ∀ key, (Entries.get? key done).isSome = true → (Entries.get? key members).isSome = true
  source : ∀ member ∈ members, member ∈ done ∨ ∃ entry ∈ entries, member.1 = escape entry.1 ∧
    writeVia w below { slot with path := slot.pathTo entry.1, inline := false } entry.2 = .ok member.2
  written : ∀ entry ∈ entries, (Entries.get? (escape entry.1) members).isSome = true

theorem entered_of_writeEntries {entries : List (String × Value)}
    (h : writeEntries w below slot done entries = .ok members) :
    Entered w below slot entries done members := by
  induction entries generalizing done with
  | nil =>
      rw [writeEntries] at h
      rw [← Except.ok.inj h]
      exact ⟨fun _ => id, fun _ => Or.inl, fun _ hentry => nomatch hentry⟩
  | cons entry rest ih =>
      obtain ⟨key, v⟩ := entry
      rw [writeEntries] at h
      obtain ⟨json, hjson, h⟩ := exists_of_bind_eq_ok h
      have hrest := ih h
      refine ⟨fun other hother => hrest.kept other ((Entries.isSome_get?_insert other).mpr (Or.inr hother)),
        fun member hmember => ?_, fun entry hentry => ?_⟩
      · rcases hrest.source member hmember with hthere | ⟨entry, hentry, hsource⟩
        · rcases Entries.mem_insert hthere with hnew | hold
          · rw [hnew]
            exact Or.inr ⟨(key, v), List.mem_cons_self, rfl, hjson⟩
          · exact Or.inl hold
        · exact Or.inr ⟨entry, List.mem_cons_of_mem _ hentry, hsource⟩
      · rcases List.mem_cons.mp hentry with hself | hlater
        · rw [hself]
          exact hrest.kept _ ((Entries.isSome_get?_insert _).mpr (Or.inl rfl))
        · exact hrest.written entry hlater

end Writer

end ResourceQuery
