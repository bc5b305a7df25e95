import ResourceQuery.Proofs.Type.Templates

set_option autoImplicit false

/-! # Addresses tell objects apart

Two objects of one type, whose owners are of the declared types all the way up, have addresses that are made of the
same names with slashes between them, and differ in the identifiers only. An identifier is escaped, so that there is
no slash in it, and the address can be cut behind its last slash (`Text.append_slash_inj`); and an escape can be taken
back, so that equal segments stand for equal identifiers (`TypeGraph.segment_inj`). Going up from the objects, equal
addresses thus come from equal identifiers at every level (`TypeGraph.identifiers_eq_of_uriOf_eq`). A number and a
text may well have the same segment, and therefore identifiers at one level have to be of one kind.
-/

namespace ResourceQuery

/-! ## Texts -/

namespace Text

/-- Behind the last slash of a text stands what has no slash. -/
theorem append_slash_inj {lead lead' last last' : String} (hlast : '/' ∉ last.toList) (hlast' : '/' ∉ last'.toList)
    (h : lead ++ "/" ++ last = lead' ++ "/" ++ last') : lead = lead' ∧ last = last' := by
  have hchars : lead.toList ++ '/' :: last.toList = lead'.toList ++ '/' :: last'.toList := by
    simpa [String.toList_append] using congrArg String.toList h
  rcases List.append_eq_append_iff.mp hchars with ⟨between, hlead, hrest⟩ | ⟨between, hlead, hrest⟩
  · cases between with
    | nil => exact ⟨String.toList_inj.mp (by simpa using hlead.symm), String.toList_inj.mp (List.cons.inj hrest).2⟩
    | cons c between =>
        obtain ⟨-, hin⟩ := List.cons.inj hrest
        exact absurd (hin ▸ by simp) hlast
  · cases between with
    | nil => exact ⟨String.toList_inj.mp (by simpa using hlead), String.toList_inj.mp (List.cons.inj hrest).2.symm⟩
    | cons c between =>
        obtain ⟨-, hin⟩ := List.cons.inj hrest
        exact absurd (hin ▸ by simp) hlast'

end Text

theorem Percent.encode_injective {keep : Char → Bool} (hpercent : keep '%' = false) :
    Function.Injective (encode keep) := by
  intro s t h
  have hdecoded := congrArg decode? h
  rw [decode?_encode hpercent, decode?_encode hpercent] at hdecoded
  exact Option.some.inj hdecoded

theorem Decimal.intText_injective : Function.Injective intText := by
  have hsign : ∀ m n : Nat, intText (Int.ofNat m) ≠ intText (Int.negSucc n) := by
    intro m n h
    have hminus : '-' ∈ (naturalText m).toList := by
      show '-' ∈ (intText (Int.ofNat m)).toList
      rw [h, intText, String.toList_append]
      exact List.mem_append_left _ (by decide)
    rw [toList_naturalText] at hminus
    exact absurd (all_isDigit_toDigits m _ hminus) (by decide)
  intro m n h
  cases m with
  | ofNat m =>
      cases n with
      | ofNat n => exact congrArg Int.ofNat (naturalText_injective h)
      | negSucc n => exact absurd h (hsign m n)
  | negSucc m =>
      cases n with
      | ofNat n => exact absurd h.symm (hsign n m)
      | negSucc n =>
          have hdigits : naturalText (m + 1) = naturalText (n + 1) := by
            simpa [intText, ← String.toList_inj, String.toList_append] using h
          have hnumber := naturalText_injective hdigits
          rw [Nat.succ.inj hnumber]

namespace TypeGraph

variable {g : TypeGraph} {h : Heap} {parents : Nat} {d : Descriptor} {a b : ObjectId}

/-! ## Identifiers -/

/-- Whether two values are both whole numbers or both texts. -/
def areOfOneKind : Value → Value → Bool
  | .int _, .int _ => true
  | .string _, .string _ => true
  | _, _ => false

theorem no_slash_of_segment {id : Value} {last : String} (h : segment d id = .ok last) : '/' ∉ last.toList := by
  obtain ⟨text, rfl⟩ := exists_of_segment h
  exact Percent.not_mem_encode (by decide) (by decide) text

/-- Identifiers of one kind that have the same segment are the same. -/
theorem segment_inj {id id' : Value} {last : String} (hkind : areOfOneKind id id' = true)
    (h : segment d id = .ok last) (h' : segment d id' = .ok last) : id = id' := by
  unfold areOfOneKind at hkind
  split at hkind
  · rename_i m n
    have htext : Decimal.intText m.toInt = Decimal.intText n.toInt := Except.ok.inj (h.trans h'.symm)
    rw [Int64.toInt_inj.mp (Decimal.intText_injective htext)]
  · rename_i s t
    have htext : Percent.encode Percent.keptInSegment s = Percent.encode Percent.keptInSegment t :=
      Except.ok.inj (h.trans h'.symm)
    rw [Percent.encode_injective (by decide) htext]
  · cases hkind

/-! ## The way up -/

/-- The object that the parent link of an object holds. -/
def owner? (g : TypeGraph) (h : Heap) (object : ObjectId) : Option ObjectId :=
  (g.parentOf? h object).bind fun parent => g.follow? h object parent.childToParent

/-- The object some levels above an object; at level zero it is the object itself. -/
def ancestor? (g : TypeGraph) (h : Heap) : (level : Nat) → ObjectId → Option ObjectId
  | 0, object => some object
  | level + 1, object => (g.owner? h object).bind (ancestor? g h level)

/-- The primary id of the object some levels above an object. -/
def identifierAt? (g : TypeGraph) (h : Heap) (level : Nat) (object : ObjectId) : Option Value :=
  (g.ancestor? h level object).bind (g.identifier? h)

/-- On the way up from an object each parent link that holds an object holds one of just the declared type. -/
def HasDeclaredOwners (g : TypeGraph) (h : Heap) (object : ObjectId) : Prop :=
  ∀ level below parent owner, g.ancestor? h level object = some below → g.parentOf? h below = some parent →
    g.follow? h below parent.childToParent = some owner → h.typeOf owner = parent.type

theorem HasDeclaredOwners.owner {object owner : ObjectId} (hdeclared : g.HasDeclaredOwners h object)
    (howner : g.owner? h object = some owner) : g.HasDeclaredOwners h owner := by
  intro level below parent above hbelow
  exact hdeclared (level + 1) below parent above (by simp [ancestor?, howner, hbelow])

/-- One level of an address: the type's collection and the object's identifier at the end, and the address of the
owner before them, if there is one. -/
theorem exists_level_of_uriBelow {uri : String} (ha : g.table.get? (h.typeOf a) = some d)
    (huri : g.uriBelow h parents a = .ok uri) :
    ∃ address p last, d.address? = some address ∧ d.primaryId? = some p ∧ segment d (p.read h a) = .ok last ∧
      ((address.parent = none ∧ g.owner? h a = none ∧ uri = address.relativePath ++ "/" ++ last) ∨
        ∃ rest parent owner above children lead, parents = rest + 1 ∧ address.parent = some parent ∧
          g.table.get? parent.type = some above ∧ above.property? parent.parentToChild = some children ∧
          g.owner? h a = some owner ∧ g.parentOf? h a = some parent ∧
          g.follow? h a parent.childToParent = some owner ∧ g.uriBelow h rest owner = .ok lead ∧
          uri = lead ++ "/" ++ children.uriName ++ "/" ++ last) := by
  obtain ⟨d', address, p, last, hd, haddress, hp, hlast, hplace⟩ := exists_of_uriBelow huri
  obtain rfl : d' = d := Option.some.inj (hd.symm.trans ha)
  refine ⟨address, p, last, haddress, hp, hlast, ?_⟩
  have hparentOf := parentOf?_eq hd haddress
  rcases hplace with ⟨htop, huri⟩ | ⟨rest, parent, link, owner, above, children, lead, hrest, hparent, hlink, hread,
    habove, hchildren, hlead, huri⟩
  · exact .inl ⟨htop, by simp [owner?, hparentOf, htop], huri⟩
  · have hfollow := follow?_of_read hd hlink hread
    exact .inr ⟨rest, parent, owner, above, children, lead, hrest, hparent, habove, hchildren,
      by simp [owner?, hparentOf, hparent, hfollow], hparentOf.trans hparent, hfollow, hlead, huri⟩

theorem identifierAt?_succ (level : Nat) (object : ObjectId) :
    g.identifierAt? h (level + 1) object = (g.owner? h object).bind (g.identifierAt? h level) := by
  simp only [identifierAt?, ancestor?, Option.bind_assoc]
  rfl

/-- The last level of two addresses of objects of one type: behind the last slash stand the identifiers, and before it
either one path, or the name of one collection behind the addresses of the owners, which are again of one type. -/
theorem levels_of_uriBelow {parents' : Nat} {uri uri' : String} (htype : h.typeOf a = h.typeOf b)
    (hdeclared : g.HasDeclaredOwners h a) (hdeclared' : g.HasDeclaredOwners h b)
    (huri : g.uriBelow h parents a = .ok uri) (huri' : g.uriBelow h parents' b = .ok uri') :
    ∃ d id id' last last' lead lead', g.identifier? h a = some id ∧ g.identifier? h b = some id' ∧
      segment d id = .ok last ∧ segment d id' = .ok last' ∧ uri = lead ++ "/" ++ last ∧ uri' = lead' ++ "/" ++ last' ∧
      ((g.owner? h a = none ∧ g.owner? h b = none ∧ lead = lead') ∨
        ∃ rest rest' above above' upper upper' name, parents = rest + 1 ∧ parents' = rest' + 1 ∧
          g.owner? h a = some above ∧ g.owner? h b = some above' ∧ h.typeOf above = h.typeOf above' ∧
          g.uriBelow h rest above = .ok upper ∧ g.uriBelow h rest' above' = .ok upper' ∧
          lead = upper ++ "/" ++ name ∧ lead' = upper' ++ "/" ++ name) := by
  obtain ⟨d, -, -, -, hd, -⟩ := exists_of_uriBelow huri
  have hd' : g.table.get? (h.typeOf b) = some d := htype ▸ hd
  obtain ⟨address, p, last, haddress, hp, hlast, hplace⟩ := exists_level_of_uriBelow hd huri
  obtain ⟨address', p', last', haddress', hp', hlast', hplace'⟩ := exists_level_of_uriBelow hd' huri'
  obtain rfl : address = address' := Option.some.inj (haddress.symm.trans haddress')
  obtain rfl : p = p' := Option.some.inj (hp.symm.trans hp')
  have hid := identifier?_eq hd hp
  have hid' := identifier?_eq hd' hp
  rcases hplace with ⟨htop, hnone, rfl⟩ |
    ⟨rest, parent, above, t, children, upper, hrest, hnested, ht, hchildren, howner, hparent, hlink, hupper, rfl⟩
  · rcases hplace' with ⟨-, hnone', rfl⟩ | ⟨_, _, _, _, _, _, _, hnested', _⟩
    · exact ⟨d, _, _, last, last', _, _, hid, hid', hlast, hlast', rfl, rfl, .inl ⟨hnone, hnone', rfl⟩⟩
    · rw [htop] at hnested'
      cases hnested'
  · rcases hplace' with ⟨htop', _⟩ |
      ⟨rest', parent', above', t', children', upper', hrest', hnested', ht', hchildren', howner', hparent', hlink',
        hupper', rfl⟩
    · rw [hnested] at htop'
      cases htop'
    · obtain rfl : parent = parent' := Option.some.inj (hnested.symm.trans hnested')
      obtain rfl : t = t' := Option.some.inj (ht.symm.trans ht')
      obtain rfl : children = children' := Option.some.inj (hchildren.symm.trans hchildren')
      have htypes : h.typeOf above = h.typeOf above' :=
        (hdeclared 0 a parent above rfl hparent hlink).trans (hdeclared' 0 b parent above' rfl hparent' hlink').symm
      exact ⟨d, _, _, last, last', _, _, hid, hid', hlast, hlast', rfl, rfl, .inr ⟨rest, rest', above, above', upper,
        upper', children.uriName, hrest, hrest', howner, howner', htypes, hupper, hupper', rfl, rfl⟩⟩

/-- **One level**: objects of one type that have one address have one identifier, and either neither has an owner,
or both have, and the owners are again of one type and have one address. -/
theorem owners_of_uriBelow_eq {uri : String} (htype : h.typeOf a = h.typeOf b) (hdeclared : g.HasDeclaredOwners h a)
    (hdeclared' : g.HasDeclaredOwners h b)
    (hkind : ∀ id id', g.identifier? h a = some id → g.identifier? h b = some id' → areOfOneKind id id' = true)
    (huri : g.uriBelow h parents a = .ok uri) (huri' : g.uriBelow h parents b = .ok uri) :
    g.identifier? h a = g.identifier? h b ∧
      ((g.owner? h a = none ∧ g.owner? h b = none) ∨
        ∃ rest above above' lead, g.owner? h a = some above ∧ g.owner? h b = some above' ∧
          h.typeOf above = h.typeOf above' ∧ g.uriBelow h rest above = .ok lead ∧
          g.uriBelow h rest above' = .ok lead) := by
  obtain ⟨d, id, id', last, last', lead, lead', hid, hid', hlast, hlast', rfl, hpath, hplace⟩ :=
    levels_of_uriBelow htype hdeclared hdeclared' huri huri'
  obtain ⟨rfl, rfl⟩ := Text.append_slash_inj (no_slash_of_segment hlast) (no_slash_of_segment hlast') hpath
  refine ⟨by rw [hid, hid', segment_inj (hkind _ _ hid hid') hlast hlast'], ?_⟩
  rcases hplace with ⟨hnone, hnone', -⟩ |
    ⟨rest, rest', above, above', upper, upper', name, rfl, hrest, howner, howner', htypes, hupper, hupper', hlead,
      hlead'⟩
  · exact .inl ⟨hnone, hnone'⟩
  · obtain rfl := Nat.succ.inj hrest
    -- the collection has the same name in both addresses
    obtain rfl : upper = upper' := by
      simpa [← String.toList_inj, String.toList_append] using hlead.symm.trans hlead'
    exact .inr ⟨rest, above, above', upper, howner, howner', htypes, hupper, hupper'⟩

/-- The same at every level, by going up from object to owner. -/
theorem identifierAt?_eq_of_uriBelow_eq {uri : String} (level : Nat) (htype : h.typeOf a = h.typeOf b)
    (hdeclared : g.HasDeclaredOwners h a) (hdeclared' : g.HasDeclaredOwners h b)
    (hkinds : ∀ level id id', g.identifierAt? h level a = some id → g.identifierAt? h level b = some id' →
      areOfOneKind id id' = true)
    (huri : g.uriBelow h parents a = .ok uri) (huri' : g.uriBelow h parents b = .ok uri) :
    g.identifierAt? h level a = g.identifierAt? h level b := by
  induction level generalizing parents a b uri with
  | zero => exact (owners_of_uriBelow_eq htype hdeclared hdeclared' (hkinds 0) huri huri').1
  | succ level ih =>
      rw [identifierAt?_succ, identifierAt?_succ]
      obtain ⟨-, ⟨hnone, hnone'⟩ | ⟨rest, above, above', lead, howner, howner', htypes, hlead, hlead'⟩⟩ :=
        owners_of_uriBelow_eq htype hdeclared hdeclared' (hkinds 0) huri huri'
      · rw [hnone, hnone']
      · rw [howner, howner']
        refine ih htypes (hdeclared.owner howner) (hdeclared'.owner howner') ?_ hlead hlead'
        intro upper id id' hid hid'
        exact hkinds (upper + 1) id id' (by rw [identifierAt?_succ, howner]; exact hid)
          (by rw [identifierAt?_succ, howner']; exact hid')

/-- **Addresses do not collide**, in any graph. If two objects are of the same type, each parent link on the ways up
from them holds an object of just the declared type, and their primary ids are at each level both whole numbers or
both texts, then they have the same address only if they have the same primary ids at every level. -/
theorem identifiers_eq_of_uriOf_eq (g : TypeGraph) (h : Heap) (a b : ObjectId) (uri : String)
    (htype : h.typeOf a = h.typeOf b) (hdeclared : g.HasDeclaredOwners h a) (hdeclared' : g.HasDeclaredOwners h b)
    (hkinds : ∀ level id id', g.identifierAt? h level a = some id → g.identifierAt? h level b = some id' →
      areOfOneKind id id' = true)
    (huri : g.uriOf h a = .ok uri) (huri' : g.uriOf h b = .ok uri) :
    ∀ level, g.identifierAt? h level a = g.identifierAt? h level b :=
  fun level => identifierAt?_eq_of_uriBelow_eq level htype hdeclared hdeclared' hkinds huri huri'

theorem IsAbove.of_ancestor? {level : Nat} {object below : ObjectId} (h' : g.ancestor? h level object = some below) :
    g.IsAbove h object below := by
  induction level generalizing object with
  | zero => exact Option.some.inj h' ▸ .self
  | succ level ih =>
      obtain ⟨owner, howner, habove⟩ := Option.bind_eq_some_iff.mp h'
      obtain ⟨parent, hparent, hlink⟩ := Option.bind_eq_some_iff.mp howner
      exact (IsAbove.self.owner hparent hlink).trans (ih habove)

theorem IsLinked.hasDeclaredOwners {object : ObjectId} (hlinked : g.IsLinked h object) :
    g.HasDeclaredOwners h object := by
  intro level below parent owner hbelow hparent hlink
  obtain ⟨owner', hlink', htype⟩ := hlinked.owner below parent (.of_ancestor? hbelow) hparent
  rw [hlink] at hlink'
  cases hlink'
  exact htype

/-- Two rooms without a name, in houses with one number on two streets with one name. -/
def twinRooms : Heap :=
  ⟨#[⟨townType "Street", [("Name", .string "é/1?")]⟩, ⟨townType "Street", [("Name", .string "é/1?")]⟩,
     ⟨townType "House", [("No", .int 7), ("On", .object ⟨0⟩)]⟩,
     ⟨townType "House", [("No", .int 7), ("On", .object ⟨1⟩)]⟩,
     ⟨townType "Room", [("Of", .object ⟨2⟩), ("Use", .string "")]⟩,
     ⟨townType "Room", [("Of", .object ⟨3⟩), ("Use", .string "")]⟩], #[]⟩

theorem twinRooms_identified :
    (town.graph.uriOf twinRooms ⟨4⟩).toOption = some "streets/%C3%A9%2F1%3F/houses/7/rooms/" ∧
      (town.graph.uriOf twinRooms ⟨5⟩).toOption = some "streets/%C3%A9%2F1%3F/houses/7/rooms/" ∧
      ∀ level, town.graph.identifierAt? twinRooms level ⟨4⟩ = town.graph.identifierAt? twinRooms level ⟨5⟩ := by
  have huri : ∀ room ∈ [(⟨4⟩ : ObjectId), ⟨5⟩],
      (town.graph.uriOf twinRooms room).toOption = some "streets/%C3%A9%2F1%3F/houses/7/rooms/" := by decide +kernel
  have hlinked : ∀ room ∈ [(⟨4⟩ : ObjectId), ⟨5⟩], town.graph.checkLinked twinRooms 2 room = true := by decide +kernel
  have hkinds : ∀ level < 3, ∀ id ∈ town.graph.identifierAt? twinRooms level ⟨4⟩,
      ∀ id' ∈ town.graph.identifierAt? twinRooms level ⟨5⟩, areOfOneKind id id' = true := by decide +kernel
  have htop : ∀ level, town.graph.identifierAt? twinRooms (level + 3) ⟨4⟩ = none := by
    have howners : town.graph.owner? twinRooms ⟨4⟩ = some ⟨2⟩ ∧ town.graph.owner? twinRooms ⟨2⟩ = some ⟨0⟩ ∧
        town.graph.owner? twinRooms ⟨0⟩ = none := by decide +kernel
    intro level
    rw [identifierAt?_succ, howners.1, Option.bind_some, identifierAt?_succ, howners.2.1, Option.bind_some,
      identifierAt?_succ, howners.2.2, Option.bind_none]
  refine ⟨huri _ (by simp), huri _ (by simp), ?_⟩
  refine identifiers_eq_of_uriOf_eq town.graph twinRooms ⟨4⟩ ⟨5⟩ "streets/%C3%A9%2F1%3F/houses/7/rooms/"
    (by decide +kernel) (isLinked_of_checkLinked (hlinked _ (by simp))).hasDeclaredOwners
    (isLinked_of_checkLinked (hlinked _ (by simp))).hasDeclaredOwners ?_
    (eq_ok_of_toOption (huri _ (by simp))) (eq_ok_of_toOption (huri _ (by simp)))
  intro level id id' hid hid'
  by_cases hlevel : level < 3
  · exact hkinds level hlevel id hid id' hid'
  · obtain ⟨more, rfl⟩ : ∃ more, level = more + 3 := ⟨level - 3, by omega⟩
    rw [htop more] at hid
    cases hid

end TypeGraph

end ResourceQuery
