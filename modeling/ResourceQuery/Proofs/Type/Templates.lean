import ResourceQuery.Proofs.Type.Address

set_option autoImplicit false

/-! # Addresses and templates

The template of a resource type and the address of an object are made by two recursions up the same chain of
parents: the one goes from type to type and notes the links it has passed, the other goes from object to object
and reads the links. What they have in common is a list of levels (`TypeGraph.HasLevels`): for each type on the way
the collection that its objects are in, the links that lead to the object, and the name of its primary id. The
template is these levels with a placeholder for each object (`TypeGraph.exists_levels_of_templateBelow`), and the
address is the same levels with the identifiers of the objects that the links lead to
(`TypeGraph.HasLevels.uriBelow_eq`), as long as the objects are of the types that the template was made for.
-/

namespace ResourceQuery

/-! ## Levels -/

/-- A part of a template: a collection and one of its objects. -/
structure Level where
  /-- The path of the collection. -/
  collection : String
  /-- The links that lead to the object from the one that is addressed. -/
  links : List String
  /-- The name of the object's primary id. -/
  id : String

namespace Level

/-- Links, each with a dot behind it. -/
def dotted (links : List String) : String :=
  links.foldl (fun text link => text ++ link ++ ".") ""

/-- What stands for the identifier of the object in a template. -/
def placeholder (l : Level) : String :=
  "\x7b" ++ dotted l.links ++ l.id ++ "\x7d"

/-- The path of levels, the innermost first, with `slot` for each object. -/
def path (slot : Level → String) : List Level → String
  | [] => ""
  | [l] => l.collection ++ "/" ++ slot l
  | l :: above => path slot above ++ "/" ++ l.collection ++ "/" ++ slot l

theorem path_cons (slot : Level → String) (l : Level) {above : List Level} (h : above ≠ []) :
    path slot (l :: above) = path slot above ++ "/" ++ l.collection ++ "/" ++ slot l := by
  cases above with
  | nil => exact absurd rfl h
  | cons next rest => rfl

theorem dotted_concat (links : List String) (link : String) :
    dotted (links ++ [link]) = dotted links ++ link ++ "." :=
  List.foldl_concat ..

end Level

namespace TypeGraph

open Expr (exists_of_bind_eq_ok)

variable {g : TypeGraph} {h : Heap} {parents : Nat} {d : Descriptor} {links : List String} {levels : List Level}

/-! ## Templates -/

/-- The levels of a type whose objects are reached by `links`: its own, and those of the types that it is
nested in. -/
inductive HasLevels (g : TypeGraph) : (links : List String) → Descriptor → List Level → Prop
  | top {links : List String} {d : Descriptor} {a : ResourceAddress} {p : Property} (address : d.address? = some a)
      (isTop : a.parent = none) (id : d.primaryId? = some p) : HasLevels g links d [⟨a.relativePath, links, p.name⟩]
  | nested {links : List String} {d above : Descriptor} {a : ResourceAddress} {parent : ResourceParent}
      {p children : Property} {levels : List Level} (address : d.address? = some a) (isNested : a.parent = some parent)
      (id : d.primaryId? = some p) (parentType : g.table.get? parent.type = some above)
      (collection : above.property? parent.parentToChild = some children)
      (upper : HasLevels g (links ++ [parent.childToParent]) above levels) :
      HasLevels g links d (⟨children.uriName, links, p.name⟩ :: levels)

theorem HasLevels.ne_nil (hlevels : g.HasLevels links d levels) : levels ≠ [] := by
  cases hlevels <;> exact List.cons_ne_nil _ _

/-- What a template is put together from. -/
theorem exists_of_templateBelow {text t : String} (ht : g.templateBelow parents text d = .ok t) :
    ∃ a p, d.address? = some a ∧ d.primaryId? = some p ∧
      ((a.parent = none ∧ t = a.relativePath ++ "/" ++ ("\x7b" ++ text ++ p.name ++ "\x7d")) ∨
        ∃ rest parent above children lead, parents = rest + 1 ∧ a.parent = some parent ∧
          g.table.get? parent.type = some above ∧ above.property? parent.parentToChild = some children ∧
          g.templateBelow rest (text ++ parent.childToParent ++ ".") above = .ok lead ∧
          t = lead ++ "/" ++ children.uriName ++ "/" ++ ("\x7b" ++ text ++ p.name ++ "\x7d")) := by
  unfold templateBelow at ht
  obtain ⟨a, ha, ht⟩ := exists_of_bind_eq_ok ht
  obtain ⟨p, hp, ht⟩ := exists_of_bind_eq_ok ht
  refine ⟨a, p, requireResource_eq_ok.mp ha, requirePrimaryId_eq_ok.mp hp, ?_⟩
  dsimp only at ht
  cases hparent : a.parent with
  | none =>
      rw [hparent] at ht
      exact .inl ⟨rfl, (Except.ok.inj ht).symm⟩
  | some parent =>
      rw [hparent] at ht
      cases parents with
      | zero => cases ht
      | succ rest =>
          obtain ⟨above, habove, ht⟩ := exists_of_bind_eq_ok ht
          obtain ⟨children, hchildren, ht⟩ := exists_of_bind_eq_ok ht
          obtain ⟨lead, hlead, ht⟩ := exists_of_bind_eq_ok ht
          exact .inr ⟨rest, parent, above, children, lead, rfl, rfl, get_eq_ok.mp habove,
            childCollection_eq_ok.mp hchildren, hlead, (Except.ok.inj ht).symm⟩

/-- **A template is the levels of its type with placeholders.** -/
theorem exists_levels_of_templateBelow {t : String} (ht : g.templateBelow parents (Level.dotted links) d = .ok t) :
    ∃ levels, g.HasLevels links d levels ∧ levels.length ≤ parents + 1 ∧ t = Level.path Level.placeholder levels := by
  induction parents generalizing d links t with
  | zero =>
      obtain ⟨a, p, ha, hp, ⟨htop, rfl⟩ | ⟨rest, _, _, _, _, hrest, _⟩⟩ := exists_of_templateBelow ht
      · exact ⟨_, .top ha htop hp, Nat.le_refl _, rfl⟩
      · cases hrest
  | succ parents ih =>
      obtain ⟨a, p, ha, hp, ⟨htop, rfl⟩ |
        ⟨rest, parent, above, children, lead, hrest, hparent, habove, hchildren, hlead, rfl⟩⟩ :=
          exists_of_templateBelow ht
      · exact ⟨_, .top ha htop hp, Nat.le_add_left _ _, rfl⟩
      · cases hrest
        rw [← Level.dotted_concat] at hlead
        obtain ⟨levels, hlevels, hlength, rfl⟩ := ih hlead
        refine ⟨_, .nested ha hparent hp habove hchildren hlevels, Nat.succ_le_succ hlength, ?_⟩
        rw [Level.path_cons _ _ hlevels.ne_nil]
        rfl

/-! ## Objects -/

/-- The object that a link of an object leads to. -/
def follow? (g : TypeGraph) (h : Heap) (object : ObjectId) (link : String) : Option ObjectId := do
  let d ← g.table.get? (h.typeOf object)
  let p ← d.property? link
  (p.read h object).asObject?

/-- The object that several links lead to, one after another. -/
def reach? (g : TypeGraph) (h : Heap) (object : ObjectId) (links : List String) : Option ObjectId :=
  links.foldlM (g.follow? h) object

/-- How the type of an object is nested. -/
def parentOf? (g : TypeGraph) (h : Heap) (object : ObjectId) : Option ResourceParent := do
  let d ← g.table.get? (h.typeOf object)
  let a ← d.address?
  a.parent

/-- The primary id of an object. -/
def identifier? (g : TypeGraph) (h : Heap) (object : ObjectId) : Option Value := do
  let d ← g.table.get? (h.typeOf object)
  let p ← d.primaryId?
  some (p.read h object)

/-- The objects on the way up from an object, which is one of them. -/
inductive IsAbove (g : TypeGraph) (h : Heap) (object : ObjectId) : ObjectId → Prop
  | self : IsAbove g h object object
  | owner {between owner : ObjectId} {parent : ResourceParent} (above : IsAbove g h object between)
      (nested : g.parentOf? h between = some parent) (link : g.follow? h between parent.childToParent = some owner) :
      IsAbove g h object owner

/-- On the way up from an object each parent link holds an object of just the declared type, and each primary id is
a scalar. -/
structure IsLinked (g : TypeGraph) (h : Heap) (object : ObjectId) : Prop where
  owner : ∀ between parent, g.IsAbove h object between → g.parentOf? h between = some parent →
    ∃ owner, g.follow? h between parent.childToParent = some owner ∧ h.typeOf owner = parent.type
  scalar : ∀ between id, g.IsAbove h object between → g.identifier? h between = some id → id.text?.isSome = true

/-- The links of a level lead from the object to one whose primary id has the name that the level says and the text
`text`. -/
def Identifies (g : TypeGraph) (h : Heap) (object : ObjectId) (l : Level) (text : String) : Prop :=
  ∃ reached d p, g.reach? h object l.links = some reached ∧ g.table.get? (h.typeOf reached) = some d ∧
    d.primaryId? = some p ∧ p.name = l.id ∧ (p.read h reached).text? = some text

/-- The encoded identifier of the object that the links of a level lead to. -/
def segmentAt (g : TypeGraph) (h : Heap) (object : ObjectId) (l : Level) : String :=
  Percent.encode Percent.keptInSegment
    ((((g.reach? h object l.links).bind (g.identifier? h)).bind Value.text?).getD "")

variable {object reached owner : ObjectId} {parent : ResourceParent} {a : ResourceAddress} {p link : Property}

theorem identifier?_eq (hd : g.table.get? (h.typeOf object) = some d) (hp : d.primaryId? = some p) :
    g.identifier? h object = some (p.read h object) := by
  simp only [identifier?, hd, hp, Option.bind_eq_bind, Option.bind_some]

theorem Identifies.segmentAt_eq {l : Level} {text : String} (hl : g.Identifies h object l text) :
    g.segmentAt h object l = Percent.encode Percent.keptInSegment text := by
  obtain ⟨reached, d, p, hreach, hd, hp, -, htext⟩ := hl
  rw [segmentAt, hreach, Option.bind_some, identifier?_eq hd hp, Option.bind_some, htext, Option.getD_some]

theorem segment_of_text {id : Value} {text : String} (htext : id.text? = some text) :
    segment d id = .ok (Percent.encode Percent.keptInSegment text) := by
  unfold segment
  split
  · cases htext
    rw [Decimal.encode_intText]
  · rw [htext]

theorem parentOf?_eq (hd : g.table.get? (h.typeOf object) = some d) (ha : d.address? = some a) :
    g.parentOf? h object = a.parent := by
  simp only [parentOf?, hd, ha, Option.bind_eq_bind, Option.bind_some]

theorem exists_link_of_follow? {name : String} (hd : g.table.get? (h.typeOf object) = some d)
    (howner : g.follow? h object name = some owner) :
    ∃ link, d.property? name = some link ∧ link.read h object = .object owner := by
  simp only [follow?, hd, Option.bind_eq_bind, Option.bind_some] at howner
  obtain ⟨link, hlink, hvalue⟩ := Option.bind_eq_some_iff.mp howner
  refine ⟨link, hlink, ?_⟩
  unfold Value.asObject? at hvalue
  split at hvalue
  · rename_i id hread
    rw [hread, Option.some.inj hvalue]
  · cases hvalue

theorem follow?_of_read {name : String} (hd : g.table.get? (h.typeOf object) = some d)
    (hlink : d.property? name = some link) (hread : link.read h object = .object owner) :
    g.follow? h object name = some owner := by
  simp only [follow?, hd, hlink, hread, Option.bind_eq_bind, Option.bind_some, Value.asObject?]

theorem reach?_concat (object : ObjectId) (links : List String) (name : String) :
    g.reach? h object (links ++ [name]) = (g.reach? h object links).bind fun reached => g.follow? h reached name := by
  rw [reach?, List.foldlM_append]
  simp only [List.foldlM_cons, List.foldlM_nil, bind_pure]
  rfl

theorem IsAbove.trans {above : ObjectId} (hfirst : g.IsAbove h object reached) (hsecond : g.IsAbove h reached above) :
    g.IsAbove h object above := by
  induction hsecond with
  | self => exact hfirst
  | owner _ nested link ih => exact ih.owner nested link

theorem IsLinked.above (hlinked : g.IsLinked h object) (habove : g.IsAbove h object reached) :
    g.IsLinked h reached where
  owner between parent hbetween := hlinked.owner between parent (habove.trans hbetween)
  scalar between id hbetween := hlinked.scalar between id (habove.trans hbetween)

/-- The identifier of an object is the one at the level of its type. -/
theorem IsLinked.exists_identifies (hlinked : g.IsLinked h reached) (hreach : g.reach? h object links = some reached)
    (hd : g.table.get? (h.typeOf reached) = some d) (hp : d.primaryId? = some p) (collection : String) :
    ∃ text, g.Identifies h object ⟨collection, links, p.name⟩ text ∧
      segment d (p.read h reached) = .ok (g.segmentAt h object ⟨collection, links, p.name⟩) := by
  obtain ⟨text, htext⟩ := Option.isSome_iff_exists.mp (hlinked.scalar reached _ .self (identifier?_eq hd hp))
  have hl : g.Identifies h object ⟨collection, links, p.name⟩ text := ⟨reached, d, p, hreach, hd, hp, rfl, htext⟩
  exact ⟨text, hl, by rw [hl.segmentAt_eq, segment_of_text htext]⟩

/-- **An address is the levels of the object's type with the identifiers that the links lead to.** -/
theorem HasLevels.uriBelow_eq (hlevels : g.HasLevels links d levels) (hlength : levels.length ≤ parents + 1)
    (hreach : g.reach? h object links = some reached) (hd : g.table.get? (h.typeOf reached) = some d)
    (hlinked : g.IsLinked h reached) :
    g.uriBelow h parents reached = .ok (Level.path (g.segmentAt h object) levels) ∧
      ∀ l ∈ levels, ∃ text, g.Identifies h object l text := by
  induction hlevels generalizing parents reached with
  | @top links d a p address isTop id =>
      obtain ⟨text, hl, hsegment⟩ := hlinked.exists_identifies hreach hd id a.relativePath
      refine ⟨?_, fun l hmem => ⟨text, List.mem_singleton.mp hmem ▸ hl⟩⟩
      exact uriBelow_of_top (get_eq_ok.mpr hd) address id hsegment isTop
  | @nested links d above a parent p children levels address isNested id parentType collection upper ih =>
      obtain ⟨text, hl, hsegment⟩ := hlinked.exists_identifies hreach hd id children.uriName
      have hparent : g.parentOf? h reached = some parent := (parentOf?_eq hd address).trans isNested
      obtain ⟨owner, howner, htype⟩ := hlinked.owner reached parent .self hparent
      obtain ⟨link, hlink, hread⟩ := exists_link_of_follow? hd howner
      obtain ⟨rest, rfl⟩ : ∃ rest, parents = rest + 1 := by
        cases parents with
        | zero =>
            have hupper := List.length_pos_of_ne_nil upper.ne_nil
            rw [List.length_cons] at hlength
            omega
        | succ rest => exact ⟨rest, rfl⟩
      obtain ⟨hlead, hothers⟩ := ih (Nat.le_of_succ_le_succ hlength)
        (by rw [reach?_concat, hreach, Option.bind_some, howner]) (by rw [htype]; exact parentType)
        (hlinked.above (.owner .self hparent howner))
      refine ⟨?_, fun l hmem => ?_⟩
      · rw [uriBelow_of_nested (get_eq_ok.mpr hd) address id hsegment isNested hlink hread (get_eq_ok.mpr parentType)
          (childCollection_eq_ok.mpr collection) hlead, Level.path_cons _ _ upper.ne_nil]
      · rcases List.mem_cons.mp hmem with rfl | hmem
        · exact ⟨text, hl⟩
        · exact hothers l hmem

/-! ## Addresses that there are -/

/-- What an address is put together from. -/
theorem exists_of_uriBelow {uri : String} (huri : g.uriBelow h parents object = .ok uri) :
    ∃ d a p last, g.table.get? (h.typeOf object) = some d ∧ d.address? = some a ∧ d.primaryId? = some p ∧
      segment d (p.read h object) = .ok last ∧
      ((a.parent = none ∧ uri = a.relativePath ++ "/" ++ last) ∨
        ∃ rest parent link owner above children lead, parents = rest + 1 ∧ a.parent = some parent ∧
          d.property? parent.childToParent = some link ∧ link.read h object = .object owner ∧
          g.table.get? parent.type = some above ∧ above.property? parent.parentToChild = some children ∧
          g.uriBelow h rest owner = .ok lead ∧ uri = lead ++ "/" ++ children.uriName ++ "/" ++ last) := by
  unfold uriBelow at huri
  obtain ⟨d, hd, huri⟩ := exists_of_bind_eq_ok huri
  obtain ⟨a, ha, huri⟩ := exists_of_bind_eq_ok huri
  obtain ⟨p, hp, huri⟩ := exists_of_bind_eq_ok huri
  obtain ⟨last, hlast, huri⟩ := exists_of_bind_eq_ok huri
  refine ⟨d, a, p, last, get_eq_ok.mp hd, requireResource_eq_ok.mp ha, requirePrimaryId_eq_ok.mp hp, hlast, ?_⟩
  cases hparent : a.parent with
  | none =>
      rw [hparent] at huri
      exact .inl ⟨rfl, (Except.ok.inj huri).symm⟩
  | some parent =>
      rw [hparent] at huri
      cases parents with
      | zero => cases huri
      | succ rest =>
          dsimp only at huri
          split at huri
          · cases huri
          · rename_i link hlink
            split at huri
            · rename_i owner hread
              obtain ⟨above, habove, huri⟩ := exists_of_bind_eq_ok huri
              obtain ⟨children, hchildren, huri⟩ := exists_of_bind_eq_ok huri
              obtain ⟨lead, hlead, huri⟩ := exists_of_bind_eq_ok huri
              exact .inr ⟨rest, parent, link, owner, above, children, lead, rfl, rfl, hlink, hread,
                get_eq_ok.mp habove, childCollection_eq_ok.mp hchildren, hlead, (Except.ok.inj huri).symm⟩
            · cases huri

/-- An object that is nested has an address only if its parent link holds an object, which has one. -/
theorem exists_owner_of_uriBelow {uri : String} (huri : g.uriBelow h parents object = .ok uri)
    (hparent : g.parentOf? h object = some parent) :
    ∃ rest owner lead, parents = rest + 1 ∧ g.follow? h object parent.childToParent = some owner ∧
      g.uriBelow h rest owner = .ok lead := by
  obtain ⟨d, a, p, last, hd, ha, -, -, hplace⟩ := exists_of_uriBelow huri
  rw [parentOf?_eq hd ha] at hparent
  obtain ⟨hnone, -⟩ |
    ⟨rest, parent', link, owner, above, children, lead, hrest, hparent', hlink, hread, -, -, hlead, -⟩ := hplace
  · rw [hnone] at hparent
    cases hparent
  · rw [hparent'] at hparent
    cases hparent
    exact ⟨rest, owner, lead, hrest, follow?_of_read hd hlink hread, hlead⟩

theorem IsAbove.exists_uriBelow {uri : String} (habove : g.IsAbove h object reached)
    (huri : g.uriBelow h parents object = .ok uri) : ∃ rest lead, g.uriBelow h rest reached = .ok lead := by
  induction habove with
  | self => exact ⟨parents, uri, huri⟩
  | owner _ nested link ih =>
      obtain ⟨rest, lead, hlead⟩ := ih
      obtain ⟨rest', owner, lead', -, howner, hlead'⟩ := exists_owner_of_uriBelow hlead nested
      rw [link] at howner
      cases howner
      exact ⟨rest', lead', hlead'⟩

/-- **The address of an object follows the template of its type**, in any graph. If there is a template, and on the
way up from the object each parent link holds an object of just the declared type and each primary id is a scalar,
then the object has an address: the template with each placeholder replaced by the encoded primary id of the object
that the links in the placeholder lead to. And an object has no address if some parent link on the way up holds no
object. -/
theorem uriOf_follows_template (g : TypeGraph) (h : Heap) (object : ObjectId) :
    (∀ template, g.uriTemplate (h.typeOf object) = .ok template → g.IsLinked h object →
      ∃ d levels, g.table.get? (h.typeOf object) = some d ∧ g.HasLevels [] d levels ∧
        template = Level.path Level.placeholder levels ∧
        g.uriOf h object = .ok (Level.path (g.segmentAt h object) levels) ∧
        ∀ l ∈ levels, ∃ text, g.Identifies h object l text ∧
          g.segmentAt h object l = Percent.encode Percent.keptInSegment text) ∧
    ∀ between parent, g.IsAbove h object between → g.parentOf? h between = some parent →
      g.follow? h between parent.childToParent = none → ∃ fault, g.uriOf h object = .error fault := by
  refine ⟨fun template htemplate hlinked => ?_, fun between parent habove hparent hnone => ?_⟩
  · obtain ⟨d, hd, hbelow⟩ := exists_of_bind_eq_ok htemplate
    have hd := get_eq_ok.mp hd
    -- no links have been passed yet, and so they lead to the object itself
    have hbelow : g.templateBelow parentLimit (Level.dotted []) d = .ok template := hbelow
    have hreach : g.reach? h object [] = some object := rfl
    obtain ⟨levels, hlevels, hlength, hpath⟩ := exists_levels_of_templateBelow hbelow
    obtain ⟨huri, hids⟩ := hlevels.uriBelow_eq hlength hreach hd hlinked
    refine ⟨d, levels, hd, hlevels, hpath, huri, fun l hl => ?_⟩
    obtain ⟨text, htext⟩ := hids l hl
    exact ⟨text, htext, htext.segmentAt_eq⟩
  · cases huri : g.uriOf h object with
    | error fault => exact ⟨fault, rfl⟩
    | ok uri =>
        obtain ⟨rest, lead, hlead⟩ := habove.exists_uriBelow huri
        obtain ⟨rest', owner, lead', -, howner, -⟩ := exists_owner_of_uriBelow hlead hparent
        rw [hnone] at howner
        cases howner

/-- Finds out whether an object is linked, `steps` objects upwards. -/
def checkLinked (g : TypeGraph) (h : Heap) : (steps : Nat) → ObjectId → Bool
  | steps, object =>
    ((g.identifier? h object).all fun id => id.text?.isSome) &&
      match g.parentOf? h object with
      | none => true
      | some parent =>
        match steps with
        | 0 => false
        | steps + 1 =>
          (g.follow? h object parent.childToParent).any fun owner =>
            decide (h.typeOf owner = parent.type) && checkLinked g h steps owner

/-- What is above an object is the object, or above its owner. -/
theorem IsAbove.cases_owner {above : ObjectId} (habove : g.IsAbove h object above) :
    above = object ∨ ∃ parent owner, g.parentOf? h object = some parent ∧
      g.follow? h object parent.childToParent = some owner ∧ g.IsAbove h owner above := by
  induction habove with
  | self => exact .inl rfl
  | owner _ nested link ih =>
      rcases ih with rfl | ⟨parent, owner, hparent, howner, hbetween⟩
      · exact .inr ⟨_, _, nested, link, .self⟩
      · exact .inr ⟨parent, owner, hparent, howner, hbetween.owner nested link⟩

theorem IsLinked.of_owner (hscalar : ∀ id, g.identifier? h object = some id → id.text?.isSome = true)
    (howner : ∀ parent, g.parentOf? h object = some parent → ∃ owner,
      g.follow? h object parent.childToParent = some owner ∧ h.typeOf owner = parent.type ∧ g.IsLinked h owner) :
    g.IsLinked h object where
  owner between parent hbetween hparent := by
    rcases hbetween.cases_owner with rfl | ⟨parent', owner, hparent', hlink, habove⟩
    · obtain ⟨owner, hlink, htype, -⟩ := howner parent hparent
      exact ⟨owner, hlink, htype⟩
    · obtain ⟨owner', hlink', -, hlinked⟩ := howner parent' hparent'
      rw [hlink] at hlink'
      cases hlink'
      exact hlinked.owner between parent habove hparent
  scalar between id hbetween hid := by
    rcases hbetween.cases_owner with rfl | ⟨parent', owner, hparent', hlink, habove⟩
    · exact hscalar id hid
    · obtain ⟨owner', hlink', -, hlinked⟩ := howner parent' hparent'
      rw [hlink] at hlink'
      cases hlink'
      exact hlinked.scalar between id habove hid

theorem isLinked_of_checkLinked {steps : Nat} (hcheck : g.checkLinked h steps object = true) :
    g.IsLinked h object := by
  induction steps generalizing object with
  | zero =>
      unfold checkLinked at hcheck
      obtain ⟨hscalar, hup⟩ := (Bool.and_eq_true _ _).mp hcheck
      refine .of_owner (fun id hid => by rwa [hid] at hscalar) fun parent hparent => ?_
      rw [hparent] at hup
      cases hup
  | succ steps ih =>
      unfold checkLinked at hcheck
      obtain ⟨hscalar, hup⟩ := (Bool.and_eq_true _ _).mp hcheck
      refine .of_owner (fun id hid => by rwa [hid] at hscalar) fun parent hparent => ?_
      rw [hparent] at hup
      obtain ⟨owner, hlink, hrest⟩ := (Option.any_eq_true _ _).mp hup
      obtain ⟨htype, hlinked⟩ := (Bool.and_eq_true _ _).mp hrest
      exact ⟨owner, hlink, of_decide_eq_true htype, ih hlinked⟩

/-- A street has houses, and a house has rooms. -/
def town : Registry :=
  let street : SourceType :=
    { SourceType.bare "Street" .resource with
      properties := [.primaryId "Name" (.value .string), .ofType "Houses" (.list (.named "House"))] }
  let house : SourceType :=
    { SourceType.bare "House" .resource with
      parent := some ⟨"Street", "On", "Houses"⟩
      properties := [.primaryId "No" (.value .int32), .ofType "On" (.named "Street"),
        .ofType "Rooms" (.list (.named "Room"))] }
  let room : SourceType :=
    { SourceType.bare "Room" .resource with
      parent := some ⟨"House", "Of", "Rooms"⟩
      properties := [.primaryId "Use" (.value .string), .ofType "Of" (.named "House")] }
  ((Registry.empty.withType street).withType house).withType room

/-- The number of the declared type called `name` in the town. -/
def townType (name : String) : TypeId :=
  (town.graph.table.byNative.lookup (.named name)).getD ⟨0⟩

/-- A room in a house on a street. -/
def oneRoom : Heap :=
  ⟨#[⟨townType "Street", [("Name", .string "High Street")]⟩, ⟨townType "House", [("No", .int 7), ("On", .object ⟨0⟩)]⟩,
     ⟨townType "Room", [("Of", .object ⟨1⟩), ("Use", .string "study")]⟩], #[]⟩

theorem room_follows_template : ∃ levels,
    town.graph.uriTemplate (oneRoom.typeOf ⟨2⟩) = .ok (Level.path Level.placeholder levels) ∧
      town.graph.IsLinked oneRoom ⟨2⟩ ∧
      Level.path Level.placeholder levels = "streets/\x7bOf.On.Name\x7d/houses/\x7bOf.No\x7d/rooms/\x7bUse\x7d" ∧
      Level.path (town.graph.segmentAt oneRoom ⟨2⟩) levels = "streets/High%20Street/houses/7/rooms/study" := by
  have htemplate : (town.graph.uriTemplate (oneRoom.typeOf ⟨2⟩)).toOption =
      some "streets/\x7bOf.On.Name\x7d/houses/\x7bOf.No\x7d/rooms/\x7bUse\x7d" := by decide +kernel
  have huri : (town.graph.uriOf oneRoom ⟨2⟩).toOption = some "streets/High%20Street/houses/7/rooms/study" := by
    decide +kernel
  have hchecked : town.graph.checkLinked oneRoom 2 ⟨2⟩ = true := by decide +kernel
  have hlinked : town.graph.IsLinked oneRoom ⟨2⟩ := isLinked_of_checkLinked hchecked
  cases ht : town.graph.uriTemplate (oneRoom.typeOf ⟨2⟩) with
  | error e =>
      rw [ht] at htemplate
      cases htemplate
  | ok template =>
      obtain ⟨d, levels, -, -, hpath, hfollows, -⟩ :=
        (uriOf_follows_template town.graph oneRoom ⟨2⟩).1 template ht hlinked
      rw [ht] at htemplate
      rw [hfollows] at huri
      exact ⟨levels, by rw [hpath], hlinked, hpath ▸ Option.some.inj htemplate, Option.some.inj huri⟩

end TypeGraph

end ResourceQuery
