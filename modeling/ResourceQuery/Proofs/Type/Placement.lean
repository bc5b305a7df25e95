import ResourceQuery.Proofs.Type.Distinction

set_option autoImplicit false

/-! # Objects in their places

The address of an object is cut at its slashes by whoever reads it, and compared with other addresses as a text. Both
need some care with names and identifiers. If no name on the way up from an object is empty or has a slash in it, and
all identifiers are whole numbers and texts with something in them, then the object is placed where its address says
(`TypeGraph.exists_isPlaced`), and the address has a segment for each part of the template. If all owners are of the
types declared for them, addresses of objects of one type have the same number of slashes
(`TypeGraph.slashes_of_uriBelow`), and an address below another one at the next level is that of one of its children
(`Text.startsWith_level_iff`).
-/

namespace ResourceQuery

/-! ## Slashes -/

namespace Text

/-- How many slashes there are in a text. -/
def slashes (s : String) : Nat :=
  s.toList.count '/'

@[simp] theorem slashes_append (s t : String) : slashes (s ++ t) = slashes s + slashes t := by
  simp [slashes, String.toList_append]

theorem slashes_eq_zero {s : String} : slashes s = 0 ↔ '/' ∉ s.toList :=
  List.count_eq_zero

/-- Where a text starts with another one that ends in a slash and has as many slashes, the two are the same up to
there. -/
theorem eq_of_startsWith_slash {lead upper last : String} (hlast : '/' ∉ last.toList)
    (hslashes : slashes lead = slashes upper)
    (h : startsWith (lead ++ "/") (upper ++ "/" ++ last) = true) : lead = upper := by
  unfold startsWith at h
  obtain ⟨behind, hbehind⟩ := List.isPrefixOf_iff_prefix.mp h
  have htext : upper ++ "/" ++ last = lead ++ "/" ++ String.ofList behind := by
    rw [← String.toList_inj, ← hbehind]
    simp only [String.toList_append, String.toList_ofList]
  have hcount := congrArg slashes htext
  have hnone : slashes last = 0 := slashes_eq_zero.mpr hlast
  simp only [slashes_append] at hcount
  have hbare : '/' ∉ (String.ofList behind).toList := slashes_eq_zero.mp (by omega)
  exact (append_slash_inj hlast hbare htext).1.symm

/-- What is one level below `lead` is below `uri` only if the two are the same. -/
theorem startsWith_level_iff {lead uri name last : String} (hlast : '/' ∉ last.toList)
    (hslashes : slashes lead = slashes uri) :
    startsWith (uri ++ "/" ++ name ++ "/") (lead ++ "/" ++ name ++ "/" ++ last) = true ↔ lead = uri := by
  constructor
  · intro h
    have hsame : uri ++ "/" ++ name = lead ++ "/" ++ name :=
      eq_of_startsWith_slash hlast (by simp only [slashes_append, hslashes]) h
    simpa [← String.toList_inj, String.toList_append] using hsame.symm
  · rintro rfl
    unfold startsWith
    rw [String.toList_append (t := last)]
    exact List.isPrefixOf_iff_prefix.mpr (List.prefix_append _ _)

/-- A text with something in it and without a slash. -/
def IsPlain (s : String) : Prop :=
  s ≠ "" ∧ '/' ∉ s.toList

instance (s : String) : Decidable (IsPlain s) :=
  inferInstanceAs (Decidable (_ ∧ _))

theorem IsPlain.isSegment {s : String} (h : IsPlain s) (hmark : '?' ∉ s.toList) : IsSegment s :=
  ⟨h.1, h.2, hmark⟩

end Text

theorem Decimal.intText_ne_empty (n : Int) : intText n ≠ "" := by
  intro h
  have hchars := congrArg String.toList h
  cases n with
  | ofNat m => exact toDigits_ne_nil m ((toList_naturalText m).symm.trans hchars)
  | negSucc m => simp [intText, String.toList_append] at hchars

namespace TypeGraph

variable {g : TypeGraph} {h : Heap} {parents : Nat} {d : Descriptor} {object : ObjectId} {uri : String}

/-! ## Addresses of one type -/

/-- An address stays the same where more parents may be passed. -/
theorem uriBelow_mono {more : Nat} (hmore : parents ≤ more) (huri : g.uriBelow h parents object = .ok uri) :
    g.uriBelow h more object = .ok uri := by
  induction parents using Nat.strong_induction_on generalizing more object uri with
  | _ parents ih =>
      obtain ⟨d, a, p, last, hd, ha, hp, hlast, ⟨htop, rfl⟩ |
        ⟨rest, parent, link, owner, above, children, lead, rfl, hnested, hlink, howner, habove, hchildren, hlead,
          rfl⟩⟩ := exists_of_uriBelow huri
      · exact uriBelow_of_top (get_eq_ok.mpr hd) ha hp hlast htop
      · obtain ⟨more, rfl⟩ : ∃ n, more = n + 1 := ⟨more - 1, by omega⟩
        have hupper : g.uriBelow h more owner = .ok lead := ih rest (by omega) (by omega) hlead
        exact uriBelow_of_nested (get_eq_ok.mpr hd) ha hp hlast hnested hlink howner (get_eq_ok.mpr habove)
          (childCollection_eq_ok.mpr hchildren) hupper

/-- **Addresses of objects of one type have the same number of slashes**, if the owners are of the types declared for
them. -/
theorem slashes_of_uriBelow {parents' : Nat} {a b : ObjectId} {uri' : String} (htype : h.typeOf a = h.typeOf b)
    (hdeclared : g.HasDeclaredOwners h a) (hdeclared' : g.HasDeclaredOwners h b)
    (huri : g.uriBelow h parents a = .ok uri) (huri' : g.uriBelow h parents' b = .ok uri') :
    Text.slashes uri = Text.slashes uri' := by
  induction parents using Nat.strong_induction_on generalizing parents' a b uri uri' with
  | _ parents ih =>
      obtain ⟨d, id, id', last, last', lead, lead', -, -, hlast, hlast', rfl, rfl, hplace⟩ :=
        levels_of_uriBelow htype hdeclared hdeclared' huri huri'
      have hnone := Text.slashes_eq_zero.mpr (no_slash_of_segment hlast)
      have hnone' := Text.slashes_eq_zero.mpr (no_slash_of_segment hlast')
      have hleads : Text.slashes lead = Text.slashes lead' := by
        rcases hplace with ⟨-, -, rfl⟩ |
          ⟨rest, rest', above, above', upper, upper', name, rfl, -, howner, howner', htypes, hupper, hupper', rfl, rfl⟩
        · rfl
        · have hsame : Text.slashes upper = Text.slashes upper' :=
            ih rest (by omega) htypes (hdeclared.owner howner) (hdeclared'.owner howner') hupper hupper'
          simp only [Text.slashes_append, hsame]
      calc Text.slashes (lead ++ "/" ++ last) = Text.slashes lead + Text.slashes "/" := by
            rw [Text.slashes_append, Text.slashes_append, hnone, Nat.add_zero]
        _ = Text.slashes (lead' ++ "/" ++ last') := by
            rw [Text.slashes_append, Text.slashes_append, hleads, hnone', Nat.add_zero]

/-! ## Names and identifiers that stay whole -/

/-- No path, link or property has an empty name or one with a slash. -/
def HasPlainNames (g : TypeGraph) : Prop :=
  ∀ d ∈ g.types,
    (∀ a ∈ d.address?, Text.IsPlain a.relativePath ∧ ∀ parent ∈ a.parent, Text.IsPlain parent.childToParent) ∧
      ∀ p ∈ d.properties, Text.IsPlain p.name ∧ Text.IsPlain p.uriName

instance (g : TypeGraph) : Decidable g.HasPlainNames :=
  inferInstanceAs (Decidable (∀ d ∈ g.types, _))

/-- Whether a value is a whole number or a text with something in it. -/
def isPlainId : Value → Bool
  | .int _ => true
  | .string s => s != ""
  | _ => false

/-- All owners above the object are of the types declared for them, and the identifiers on the way are whole numbers and
texts with something in them. -/
structure HasPlainWay (g : TypeGraph) (h : Heap) (object : ObjectId) : Prop where
  owners : g.HasDeclaredOwners h object
  ids : ∀ level id, g.identifierAt? h level object = some id → isPlainId id = true

/-- The object that the parent link of an object holds, if there is one, is of the type declared for it, and so on. -/
def HasPlainOwner (g : TypeGraph) (h : Heap) (object : ObjectId) : Prop :=
  ∀ parent owner, g.parentOf? h object = some parent → g.follow? h object parent.childToParent = some owner →
    h.typeOf owner = parent.type ∧ g.HasPlainWay h owner

theorem HasPlainWay.owner {owner : ObjectId} (hway : g.HasPlainWay h object) (howner : g.owner? h object = some owner) :
    g.HasPlainWay h owner where
  owners := hway.owners.owner howner
  ids level id hid := hway.ids (level + 1) id (by rw [identifierAt?_succ, howner]; exact hid)

theorem HasPlainOwner.hasDeclaredOwners (hplain : g.HasPlainOwner h object) : g.HasDeclaredOwners h object := by
  intro level below parent owner hbelow hparent hlink
  cases level with
  | zero =>
      obtain rfl : object = below := Option.some.inj hbelow
      exact (hplain parent owner hparent hlink).1
  | succ level =>
      obtain ⟨between, hbetween, hbelow⟩ := Option.bind_eq_some_iff.mp hbelow
      obtain ⟨parent', hparent', hlink'⟩ := Option.bind_eq_some_iff.mp hbetween
      exact (hplain parent' between hparent' hlink').2.owners level below parent owner hbelow hparent hlink

theorem HasPlainOwner.hasPlainWay (hplain : g.HasPlainOwner h object)
    (hid : ∀ id, g.identifier? h object = some id → isPlainId id = true) : g.HasPlainWay h object where
  owners := hplain.hasDeclaredOwners
  ids level id hlevel := by
    cases level with
    | zero => exact hid id hlevel
    | succ level =>
        rw [identifierAt?_succ] at hlevel
        obtain ⟨between, hbetween, hlevel⟩ := Option.bind_eq_some_iff.mp hlevel
        obtain ⟨parent', hparent', hlink'⟩ := Option.bind_eq_some_iff.mp hbetween
        exact (hplain parent' between hparent' hlink').2.ids level id hlevel

/-! ## Finding out about the way up -/

/-- Whether the owner of an object, if there is one, is of the type declared for it and `fits`. -/
def ownerFits (g : TypeGraph) (h : Heap) (fits : ObjectId → Bool) (object : ObjectId) : Bool :=
  (g.parentOf? h object).all fun parent =>
    (g.follow? h object parent.childToParent).all fun owner => decide (h.typeOf owner = parent.type) && fits owner

/-- Finds out whether the way up from an object is plain, `steps` objects upwards. -/
def checkWay (g : TypeGraph) (h : Heap) : (steps : Nat) → ObjectId → Bool
  | 0, object => (g.identifier? h object).all isPlainId && g.ownerFits h (fun _ => false) object
  | steps + 1, object => (g.identifier? h object).all isPlainId && g.ownerFits h (checkWay g h steps) object

theorem hasPlainOwner_of_ownerFits {fits : ObjectId → Bool}
    (hfits : ∀ owner, fits owner = true → g.HasPlainWay h owner) (hchecked : g.ownerFits h fits object = true) :
    g.HasPlainOwner h object := by
  intro parent owner hparent hlink
  rw [ownerFits, hparent, Option.all_some, hlink, Option.all_some, Bool.and_eq_true] at hchecked
  exact ⟨of_decide_eq_true hchecked.1, hfits owner hchecked.2⟩

theorem hasPlainWay_of_checkWay {steps : Nat} (hchecked : g.checkWay h steps object = true) :
    g.HasPlainWay h object := by
  induction steps generalizing object with
  | zero =>
      obtain ⟨hid, howner⟩ := (Bool.and_eq_true _ _).mp hchecked
      refine (hasPlainOwner_of_ownerFits (fun _ hno => by cases hno) howner).hasPlainWay fun id hsome => ?_
      rwa [hsome] at hid
  | succ steps ih =>
      obtain ⟨hid, howner⟩ := (Bool.and_eq_true _ _).mp hchecked
      refine (hasPlainOwner_of_ownerFits (fun _ => ih) howner).hasPlainWay fun id hsome => ?_
      rwa [hsome] at hid

/-! ## Places -/

theorem segment_ne_empty {id : Value} {last : String} (hid : isPlainId id = true) (hlast : segment d id = .ok last) :
    last ≠ "" := by
  unfold isPlainId at hid
  split at hid
  · cases hlast
    exact Decimal.intText_ne_empty _
  · rename_i s
    cases hlast
    intro hempty
    have hnone : Percent.encode Percent.keptInSegment s = Percent.encode Percent.keptInSegment "" := hempty
    rw [Percent.encode_injective (by decide) hnone] at hid
    cases hid
  · cases hid

/-- **An object with an address is placed**, if no name and no identifier on the way up is lost between slashes. -/
theorem exists_isPlaced (hnames : g.HasPlainNames) (hd : g.table.get? (h.typeOf object) = some d)
    (hway : g.HasPlainWay h object) (huri : g.uriBelow h parents object = .ok uri) (hmark : '?' ∉ uri.toList) :
    ∃ collection last, g.IsPlaced h parents d object collection last ∧
      uri = Text.join "/" (collection ++ [last]) := by
  induction parents using Nat.strong_induction_on generalizing d object uri with
  | _ parents ih =>
      obtain ⟨a, p, last, ha, hp, hlast, hlevel⟩ := exists_level_of_uriBelow hd huri
      obtain ⟨haddress, hproperties⟩ := hnames d (mem_types hd)
      obtain ⟨hpath, hlinks⟩ := haddress a ha
      have hidentified : g.IsIdentified h d d object a last :=
        { type := get_eq_ok.mpr hd
          ownAddress := ha
          address := ha
          id := ⟨p, hp, (hproperties p (Descriptor.mem_of_primaryId? hp)).1.2⟩
          segment := ⟨p, hp, hlast⟩
          nonempty := segment_ne_empty (hway.ids 0 _ (identifier?_eq hd hp)) hlast }
      rcases hlevel with ⟨htop, -, rfl⟩ |
        ⟨rest, parent, owner, above, children, upper, rfl, hparent, habove, hchildren, howner, hnested, hfollow, hupper,
          rfl⟩
      · refine ⟨[a.relativePath], last, .top hidentified htop (hpath.isSegment fun hmem => hmark ?_), rfl⟩
        simp [String.toList_append, hmem]
      · obtain ⟨link, hlink, hread⟩ := exists_link_of_follow? hd hfollow
        have htype : h.typeOf owner = parent.type := hway.owners 0 object parent owner rfl hnested hfollow
        have hname : Text.IsPlain children.uriName :=
          ((hnames above (mem_types habove)).2 children (Descriptor.mem_of_property? hchildren)).2
        simp only [String.toList_append, List.mem_append, not_or] at hmark
        obtain ⟨collection, ownerLast, hplaced, rfl⟩ :=
          ih rest (by omega) (htype ▸ habove) (hway.owner howner) hupper hmark.1.1.1.1
        refine ⟨collection ++ [ownerLast, children.uriName], last, ?_, ?_⟩
        · exact .nested hidentified hparent (hlinks parent hparent).2 (get_eq_ok.mpr habove)
            (childCollection_eq_ok.mpr hchildren) (hname.isSegment hmark.1.1.2) hlink hread hplaced
        · rw [Text.join_concat_two]

/-- An object that is placed has no more parents above it than its type has in a template. -/
theorem IsPlaced.of_template {collection : List String} {last links template : String} {fewer : Nat}
    (hplaced : g.IsPlaced h parents d object collection last)
    (htemplate : g.templateBelow fewer links d = .ok template) :
    g.IsPlaced h fewer d object collection last := by
  induction hplaced generalizing fewer links template with
  | top identified isTop path => exact .top identified isTop path
  | @nested parents d own object a last parent above children link owner lead ownerLast identified isNested linkName
      parentType childCollection path parentLink parentObject _ ih =>
      obtain ⟨a', p, ha', -, ⟨htop, -⟩ |
        ⟨rest, parent', above', children', upper, rfl, hparent', habove', -, hupper, -⟩⟩ :=
          exists_of_templateBelow htemplate
      · rw [← Option.some.inj (identified.address.symm.trans ha'), isNested] at htop
        cases htop
      · rw [← Option.some.inj (identified.address.symm.trans ha'), isNested] at hparent'
        obtain rfl : parent = parent' := Option.some.inj hparent'
        obtain rfl : above = above' := Option.some.inj ((get_eq_ok.mp parentType).symm.trans habove')
        exact .nested identified isNested linkName parentType childCollection path parentLink parentObject (ih hupper)

end TypeGraph

end ResourceQuery
