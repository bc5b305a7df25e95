import ResourceQuery.Proofs.Query.Serving
import ResourceQuery.Proofs.Type.Placement

set_option autoImplicit false

/-! # Listings below a parent

A request for the collection `farms/1/critters` is answered about those stored critters whose address starts with
`farms/1/critters/`. The address of a critter is made anew from its parent link, and the path is what the client has
sent; the two are compared as texts. `Server.answer_children` says that this comes out at the children of the farm: the
objects whose parent link holds an object with the address that was asked for, whatever the identifiers are, and at
every depth. What has to be known of types and objects is put together in `Server.IsFamily`.

Four more things have to be so, and are not where a listing goes astray (`Server.listings_astray`). The path of the
collection is cut at the first question mark; a type that is nested in more than 32 others has no template; the objects
of a type are looked for in the collection that the type declares, which need not be its own, and all that is in there
is taken for a child if its address is below the path; and a child without an identifier of its own has no address.
-/

namespace ResourceQuery

theorem Repository.exists_address_of_rootOf {g : TypeGraph} {type base : TypeId} {d : Descriptor}
    (hroot : rootOf g type = .ok (d, base)) : ∃ a, d.address? = some a ∧ a.uriBase = base := by
  obtain ⟨d', -, hroot⟩ := Expr.exists_of_bind_eq_ok hroot
  obtain ⟨a, ha, hroot⟩ := Expr.exists_of_bind_eq_ok hroot
  cases hroot
  exact ⟨a, TypeGraph.requireResource_eq_ok.mp ha, rfl⟩

namespace Registry

theorem KeyedByName.withTypes {r : Registry} (h : r.KeyedByName) (sources : List SourceType) :
    (sources.foldl Registry.withType r).KeyedByName := by
  induction sources generalizing r with
  | nil => exact h
  | cons source rest ih => exact ih (h.withType source)

/-- Where a type can be found, all declarations could be resolved. -/
theorem isResolvable_of_get? {r : Registry} {id : TypeId} {d : Descriptor} (h : r.graph.table.get? id = some d) :
    r.isResolvable = true := by
  unfold graph at h
  unfold isResolvable
  cases hmade : TypeGraph.ofRegistry r with
  | ok g => rfl
  | error e =>
      rw [hmade] at h
      cases h

end Registry

namespace TypeGraph

/-- No two collections have paths that are the same but for case. -/
def HasDistinctEndpoints (g : TypeGraph) : Prop :=
  ∀ e ∈ g.types, ∀ a ∈ e.address?, a.uriBase = e.id →
    ∀ d ∈ g.types, isEndpoint a.relativePath d = true → d.id = e.id

instance (g : TypeGraph) : Decidable g.HasDistinctEndpoints :=
  inferInstanceAs (Decidable (∀ e ∈ g.types, _))

/-- The type `e` has a collection of its own, and all types whose objects are kept there are placed as `e` is. -/
structure HasOwnCollection (g : TypeGraph) (e : Descriptor) (a : ResourceAddress) : Prop where
  root : a.uriBase = e.id
  shared : ∀ d ∈ g.types, ∀ b ∈ d.address?, b.uriBase = e.id → b = a

instance (g : TypeGraph) (e : Descriptor) (a : ResourceAddress) : Decidable (g.HasOwnCollection e a) :=
  decidable_of_iff (a.uriBase = e.id ∧ ∀ d ∈ g.types, ∀ b ∈ d.address?, b.uriBase = e.id → b = a)
    ⟨fun ⟨hroot, hshared⟩ => ⟨hroot, hshared⟩, fun hown => ⟨hown.root, hown.shared⟩⟩

end TypeGraph

namespace Server

variable {g : TypeGraph} {h : Heap} {config : Config} {e : Descriptor} {a : ResourceAddress} {parent : ResourceParent}
  {children : Property} {object : ObjectId} {uri : String} {items : List Value} {served : Served}

/-! ## Parents and children -/

/-- A parent with the address `uri`, the type `e` of its children, and the stored objects `items`. The children are
nested below the parent in the collection `children`, whose name is the path of `e`. Names and identifiers are plain,
and owners are of the types declared for them. -/
structure IsFamily (g : TypeGraph) (h : Heap) (e : Descriptor) (a : ResourceAddress) (parent : ResourceParent)
    (children : Property) (object : ObjectId) (uri : String) (items : List Value) : Prop where
  arises : g.Arises
  names : g.HasPlainNames
  endpoints : g.HasDistinctEndpoints
  type : e ∈ g.types
  address : e.address? = some a
  nested : a.parent = some parent
  collection : ∃ above, g.table.get? parent.type = some above ∧
    above.property? parent.parentToChild = some children
  path : a.relativePath = children.uriName
  subtypes : ∀ d ∈ g.types, g.isAssignable e.id d.id = true →
    ∀ b ∈ d.address?, b.relativePath = a.relativePath ∧ b.parent = a.parent
  parentType : h.typeOf object = parent.type
  parentWay : g.HasPlainWay h object
  parentUri : g.uriOf h object = .ok uri
  stored : ∀ item ∈ items, ∃ child, item = .object child ∧
    Repository.BelongsTo g (h.typeOf child) a.uriBase ∧ g.HasPlainOwner h child

/-- Whether a value is an object that has an address. -/
def hasAddress (g : TypeGraph) (h : Heap) : Value → Bool
  | .object id => (g.uriOf h id).isOk
  | _ => false

/-- Whether a value is an object whose parent link holds an object with the address `uri`. -/
def hasParentAt (uri : String) (g : TypeGraph) (h : Heap) : Value → Bool
  | .object id => (g.owner? h id).any fun owner => (g.uriOf h owner).toOption == some uri
  | _ => false

namespace IsFamily

/-- The address of a child goes on from the one of the object that its parent link holds. -/
theorem exists_level {child : ObjectId} {d : Descriptor} {text : String}
    (hall : IsFamily g h e a parent children object uri items) (hd : g.table.get? (h.typeOf child) = some d)
    (haddress : d.address? = some a) (howners : g.HasDeclaredOwners h child) (htext : g.uriOf h child = .ok text) :
    ∃ owner lead last, g.owner? h child = some owner ∧ h.typeOf owner = h.typeOf object ∧
      g.uriOf h owner = .ok lead ∧ '/' ∉ last.toList ∧ text = lead ++ "/" ++ children.uriName ++ "/" ++ last := by
  obtain ⟨a', p, last, ha', -, hlast, hplace⟩ := TypeGraph.exists_level_of_uriBelow hd htext
  obtain rfl : a = a' := Option.some.inj (haddress.symm.trans ha')
  obtain ⟨above, habove, hchildren⟩ := hall.collection
  rcases hplace with ⟨htop, -⟩ | ⟨rest, parent', owner, above', children', lead, hrest, hparent', habove', hchildren',
    howner, hnested, hfollow, hlead, rfl⟩
  · rw [hall.nested] at htop
    cases htop
  · obtain rfl : parent = parent' := Option.some.inj (hall.nested.symm.trans hparent')
    obtain rfl : above = above' := Option.some.inj (habove.symm.trans habove')
    obtain rfl : children = children' := Option.some.inj (hchildren.symm.trans hchildren')
    have htype : h.typeOf owner = parent.type := howners 0 child parent owner rfl hnested hfollow
    exact ⟨owner, lead, last, howner, htype.trans hall.parentType.symm, TypeGraph.uriBelow_mono (by omega) hlead,
      TypeGraph.no_slash_of_segment hlast, rfl⟩

/-- **Below the collection of a parent are the objects whose parent link holds an object with its address.** The
addresses of both parents have the same number of slashes, and so neither of them goes on where the other one ends. -/
theorem isBelow_eq {child : ObjectId} {d : Descriptor} (hall : IsFamily g h e a parent children object uri items)
    (hd : g.table.get? (h.typeOf child) = some d) (haddress : d.address? = some a)
    (howners : g.HasDeclaredOwners h child) :
    isBelow (uri ++ "/" ++ children.uriName ++ "/") g h (.object child) =
      (hasAddress g h (.object child) && hasParentAt uri g h (.object child)) := by
  cases htext : g.uriOf h child with
  | error e => simp [isBelow, hasAddress, htext, Except.isOk, Except.toBool]
  | ok text =>
      obtain ⟨owner, lead, last, howner, htype, hlead, hlast, rfl⟩ := hall.exists_level hd haddress howners htext
      have hslashes : Text.slashes lead = Text.slashes uri :=
        TypeGraph.slashes_of_uriBelow htype (howners.owner howner) hall.parentWay.owners hlead hall.parentUri
      have hbelow : Text.startsWith (uri ++ "/" ++ children.uriName ++ "/")
          (lead ++ "/" ++ children.uriName ++ "/" ++ last) = true ↔ lead = uri :=
        Text.startsWith_level_iff hlast hslashes
      have hlisted : (hasAddress g h (.object child) && hasParentAt uri g h (.object child)) =
          (some lead == some uri) := by
        simp [hasAddress, hasParentAt, htext, howner, hlead, Except.isOk, Except.toBool, Except.toOption]
      rw [isBelow, htext, hlisted, Bool.eq_iff_iff, hbelow, beq_iff_eq, Option.some.injEq]

/-- The children among the stored objects, in the order they are stored in. -/
theorem filter_isBelow (hall : IsFamily g h e a parent children object uri items) (hown : g.HasOwnCollection e a) :
    items.filter (isBelow (uri ++ "/" ++ children.uriName ++ "/") g h) =
      items.filter fun item => hasAddress g h item && hasParentAt uri g h item := by
  refine List.filter_congr fun item hitem => ?_
  obtain ⟨child, rfl, ⟨d, hroot⟩, howner⟩ := hall.stored item hitem
  have hd : g.table.get? (h.typeOf child) = some d := Repository.get?_of_rootOf hroot
  obtain ⟨b, hb, hbase⟩ := Repository.exists_address_of_rootOf hroot
  obtain rfl : b = a := hown.shared d (TypeGraph.mem_types hd) b hb (hbase.trans hown.root)
  exact hall.isBelow_eq hd hb howner.hasDeclaredOwners

/-! ## The way to the children -/

/-- The path of the collection leads to the type of the children. -/
theorem endpointOf_eq (hall : IsFamily g h e a parent children object uri items) (hroot : a.uriBase = e.id)
    (hname : Text.IsSegment children.uriName) (lead : List String) :
    endpointOf g (lead ++ [children.uriName]) = .ok e := by
  have hresource : e ∈ g.resources :=
    List.mem_filter.mpr ⟨hall.type, by rw [Descriptor.isResource, hall.address]; rfl⟩
  have hpath : TypeGraph.isEndpoint children.uriName e = true := by
    rw [TypeGraph.isEndpoint, hall.address, Option.any_some, hroot, hall.path, beq_self_eq_true, Bool.true_and]
    exact Text.sameIgnoringCase_refl _
  rw [endpointOf, List.getLast?_concat]
  refine endpoint_of_distinct hall.arises hresource hpath (fun d hd hsame => ?_) hname
  exact hall.endpoints e hall.type a hall.address hroot d (List.mem_filter.mp hd).1 (hall.path ▸ hsame)

/-- The template of the children goes on from the one that their parent has on the way to them. -/
theorem exists_level_of_template {template : String} {above : Descriptor}
    (hall : IsFamily g h e a parent children object uri items) (htemplate : g.uriTemplate e.id = .ok template)
    (habove : g.table.get? parent.type = some above) :
    ∃ rest text upper placeholder, '/' ∉ text.toList ∧ g.templateBelow rest text above = .ok upper ∧
      '/' ∉ placeholder.toList ∧ template = upper ++ "/" ++ children.uriName ++ "/" ++ placeholder := by
  obtain ⟨above', habove', hchildren⟩ := hall.collection
  obtain rfl : above = above' := Option.some.inj (habove.symm.trans habove')
  rw [TypeGraph.uriTemplate, get_id hall.arises hall.type] at htemplate
  obtain ⟨a', p, ha', hp, hplace⟩ := TypeGraph.exists_of_templateBelow htemplate
  obtain rfl : a = a' := Option.some.inj (hall.address.symm.trans ha')
  rcases hplace with ⟨htop, -⟩ | ⟨rest, parent', above', children', upper, -, hparent', habove', hchildren', hupper, rfl⟩
  · rw [hall.nested] at htop
    cases htop
  · obtain rfl : parent = parent' := Option.some.inj (hall.nested.symm.trans hparent')
    obtain rfl : above = above' := Option.some.inj (habove.symm.trans habove')
    obtain rfl : children = children' := Option.some.inj (hchildren.symm.trans hchildren')
    obtain ⟨haddress, hproperties⟩ := hall.names e hall.type
    have hlink : '/' ∉ parent.childToParent.toList := ((haddress a ha').2 parent hparent').2
    have hid : '/' ∉ p.name.toList := (hproperties p (Descriptor.mem_of_primaryId? hp)).1.2
    exact ⟨rest, _, upper, _, by simp [String.toList_append, hlink], hupper, by simp [String.toList_append, hid], rfl⟩

/-- The way to the children of a parent that is placed follows the template of their type. -/
theorem checkNesting_eq {template last : String} {lead : List String} {above : Descriptor}
    (hall : IsFamily g h e a parent children object uri items) (htemplate : g.uriTemplate e.id = .ok template)
    (habove : g.table.get? parent.type = some above) (hname : Text.IsSegment children.uriName)
    (hplaced : g.IsPlaced h TypeGraph.parentLimit above object lead last) :
    checkNesting g e (lead ++ [last, children.uriName]) = .ok () := by
  obtain ⟨rest, text, upper, placeholder, hlink, hupper, hown, rfl⟩ := hall.exists_level_of_template htemplate habove
  -- the template of the parent has a part for each segment of its address
  obtain ⟨parts, part, hparts, hslashes, hstart, hfit⟩ := (hplaced.of_template hupper).exists_template hlink
  obtain rfl : upper = Text.join "/" (parts ++ [part]) := Except.ok.inj (hupper.symm.trans hparts)
  rw [← Text.join_concat_two] at htemplate
  refine checkNesting_of_template htemplate ?_ (List.rel_append hfit (.cons (.inr hstart) (.cons (.inl rfl) .nil)))
  rw [List.append_cons parts, List.append_assoc]
  exact List.forall_mem_append.mpr ⟨hslashes, List.forall_mem_cons.mpr ⟨hname.noSlash,
    List.forall_mem_singleton.mpr hown⟩⟩

end IsFamily

/-! ## Finding families -/

/-- The parts of a family, of what is found out about them. -/
structure Family where
  type : Descriptor
  address : ResourceAddress
  parent : ResourceParent
  children : Property
  uri : String

/-- Whether a stored value is an object in the collection of `base` whose owner is plain. -/
def isStored (g : TypeGraph) (h : Heap) (base : TypeId) : Value → Bool
  | .object child => (Repository.rootOf g (h.typeOf child)).toOption.any (·.2 == base) &&
      g.ownerFits h (g.checkWay h TypeGraph.parentLimit) child
  | _ => false

/-- The family of a parent whose children are of the type `type`, if there is one. -/
def family? (g : TypeGraph) (h : Heap) (type : TypeId) (object : ObjectId) (served : Served) : Option Family := do
  let e ← g.table.get? type
  let a ← e.address?
  let parent ← a.parent
  let above ← g.table.get? parent.type
  let children ← above.property? parent.parentToChild
  let uri ← (g.uriOf h object).toOption
  if g.HasPlainNames ∧ g.HasDistinctEndpoints ∧ a.relativePath = children.uriName ∧
      (∀ d ∈ g.types, g.isAssignable e.id d.id = true →
        ∀ b ∈ d.address?, b.relativePath = a.relativePath ∧ b.parent = a.parent) ∧
      h.typeOf object = parent.type ∧ g.checkWay h TypeGraph.parentLimit object = true ∧
      (served.repository.itemsFor e).all (isStored g h a.uriBase) = true then
    some ⟨e, a, parent, children, uri⟩
  else none

theorem exists_of_isStored {base : TypeId} {item : Value} (hstored : isStored g h base item = true) :
    ∃ child, item = .object child ∧ Repository.BelongsTo g (h.typeOf child) base ∧ g.HasPlainOwner h child := by
  unfold isStored at hstored
  split at hstored
  · rename_i child
    obtain ⟨hbase, howner⟩ := (Bool.and_eq_true _ _).mp hstored
    obtain ⟨⟨d, base'⟩, hroot, hsame⟩ := (Option.any_eq_true _ _).mp hbase
    obtain rfl : base' = base := eq_of_beq hsame
    exact ⟨child, rfl, ⟨d, TypeGraph.eq_ok_of_toOption hroot⟩,
      TypeGraph.hasPlainOwner_of_ownerFits (fun _ => TypeGraph.hasPlainWay_of_checkWay) howner⟩
  · cases hstored

theorem type_of_family? {type : TypeId} {f : Family} (hfound : family? g h type object served = some f) :
    g.table.get? type = some f.type := by
  unfold family? at hfound
  simp only [Option.bind_eq_bind, Option.bind_eq_some_iff, Option.ite_none_right_eq_some, Option.some.injEq] at hfound
  obtain ⟨e, he, a, -, parent, -, above, -, children, -, uri, -, -, rfl⟩ := hfound
  exact he

theorem isFamily_of_family? {type : TypeId} {f : Family} (hg : g.Arises)
    (hfound : family? g h type object served = some f) :
    IsFamily g h f.type f.address f.parent f.children object f.uri (served.repository.itemsFor f.type) := by
  unfold family? at hfound
  simp only [Option.bind_eq_bind, Option.bind_eq_some_iff, Option.ite_none_right_eq_some, Option.some.injEq] at hfound
  obtain ⟨e, he, a, ha, parent, hparent, above, habove, children, hchildren, uri, huri,
    ⟨hnames, hendpoints, hpath, hsubtypes, htype, hway, hstored⟩, rfl⟩ := hfound
  exact
    { arises := hg
      names := hnames
      endpoints := hendpoints
      type := TypeGraph.mem_types he
      address := ha
      nested := hparent
      collection := ⟨above, habove, hchildren⟩
      path := hpath
      subtypes := hsubtypes
      parentType := htype
      parentWay := TypeGraph.hasPlainWay_of_checkWay hway
      parentUri := TypeGraph.eq_ok_of_toOption huri
      stored := fun item hitem => exists_of_isStored (List.all_eq_true.mp hstored item hitem) }

/-! ## Answers about given objects -/

/-- The reply to a query string on the objects `items` of a collection. -/
def replyAbout (config : Config) (endpoint : Descriptor) (items : List Value) (query : String) : Serving Reply := do
  let q ← parameters config query
  let reply ← World.resolving fun g h => Reply.ofParameters g h config endpoint items q
  pure (reply.located endpoint query)

/-- The document that answers a query string on the objects `items` of a collection. -/
def answerAbout (config : Config) (endpoint : Descriptor) (items : List Value) (query : String) : Serving Json := do
  let reply ← replyAbout config endpoint items query
  World.ask fun g h =>
    Writer.writeAnswer ⟨g, h, config.baseUri, .ofPaths reply.expand⟩ reply.itemType reply.answer

/-- A query is run on those stored objects for which the restriction holds, in the order they are stored in. -/
theorem runOn_interpret (scope : TypeGraph → Heap → Value → Bool) (query : String) :
    (interpret config e scope query).runOn (h, ⟨g, served⟩) =
      (replyAbout config e ((served.repository.itemsFor e).filter (scope g h)) query).runOn (h, ⟨g, served⟩) := by
  unfold interpret replyAbout
  rw [Action.runOn_bind, Action.runOn_bind]
  -- reading the query string changes nothing but the cache
  unfold parameters World.outside
  simp only [Action.runOn_ofFunction]
  cases served.cache.parse hash config query with
  | mk outcome cache =>
      cases outcome with
      | error fault => rfl
      | ok q => rfl

/-- A request for a collection below a parent is answered about the stored objects with addresses below it, if the way
to it follows the template. -/
theorem answer_collection {request : HttpRequest} {path query : String} {collection : List String}
    (hmethod : request.method = .get) (htarget : target config request.uri = (path, query))
    (hmember : memberOf (segments path) = (collection, none)) (hlength : 1 < collection.length)
    (hendpoint : endpointOf g collection = .ok e) :
    (answer config request).runOn (h, ⟨g, served⟩) =
      match checkNesting g e collection with
      | .ok () => (answerAbout config e ((served.repository.itemsFor e).filter
          (isBelow (Text.join "/" collection ++ "/") g h)) query).runOn (h, ⟨g, served⟩)
      | .error fault => (.error fault, (h, ⟨g, served⟩)) := by
  have hreply : (answerIn config e collection query).runOn (h, ⟨g, served⟩) =
      match checkNesting g e collection with
      | .ok () => (replyAbout config e ((served.repository.itemsFor e).filter
          (isBelow (Text.join "/" collection ++ "/") g h)) query).runOn (h, ⟨g, served⟩)
      | .error fault => (.error fault, (h, ⟨g, served⟩)) := by
    unfold answerIn
    rw [if_pos hlength, Action.runOn_bind]
    simp only [World.runOn_ask]
    cases checkNesting g e collection with
    | error fault => rfl
    | ok _ => exact runOn_interpret _ query
  unfold answer
  simp only [hmethod, htarget, hmember, ne_eq, not_true_eq_false, if_false]
  rw [Action.runOn_bind]
  simp only [World.runOn_ask, hendpoint]
  rw [Action.runOn_bind, Action.runOn_pure]
  dsimp only
  rw [Action.runOn_bind, hreply]
  cases checkNesting g e collection with
  | error fault => rfl
  | ok _ => rw [answerAbout, Action.runOn_bind]

/-! ## Requests for a collection -/

/-- The request asks for what is at a path, by a query string. The path comes behind the base of the server, with or
without a slash between them. -/
structure AsksFor (config : Config) (request : HttpRequest) (path query : String) : Prop where
  method : request.method = .get
  uri : ∃ slash tail, (slash = "" ∨ slash = "/") ∧ (tail = "" ∧ query = "" ∨ tail = "?" ++ query) ∧
    request.uri = Text.trimEndSlashes config.baseUri ++ (slash ++ path ++ tail)

theorem AsksFor.exists_target {request : HttpRequest} {path query : String} (hasked : AsksFor config request path query)
    (hmark : '?' ∉ path.toList) :
    ∃ slash, (slash = "" ∨ slash = "/") ∧ target config request.uri = (slash ++ path, query) := by
  obtain ⟨slash, tail, hslash, htail, huri⟩ := hasked.uri
  have hwhole : '?' ∉ (slash ++ path).toList := by
    rw [String.toList_append, List.mem_append, not_or]
    rcases hslash with rfl | rfl
    · exact ⟨by decide, hmark⟩
    · exact ⟨by decide, hmark⟩
  refine ⟨slash, hslash, ?_⟩
  rw [huri]
  rcases htail with ⟨rfl, rfl⟩ | rfl
  · rw [String.append_empty]
    exact target_append hwhole
  · have hsplit : Text.splitOnce '?' (slash ++ path ++ ("?" ++ query)) = some (slash ++ path, query) := by
      rw [← String.append_assoc]
      exact Text.splitOnce_append hwhole
    rw [target, Text.after?_append, Option.getD_some, hsplit, Option.getD_some]

/-- A path of segments has these segments, whether it starts with a slash or not. -/
theorem segments_of_slash {names : List String} {slash : String} (hnames : ∀ s ∈ names, Text.IsSegment s)
    (hslash : slash = "" ∨ slash = "/") : segments (slash ++ Text.join "/" names) = names := by
  rcases hslash with rfl | rfl
  · cases names with
    | nil => rfl
    | cons first rest =>
        have hkept : (first :: rest).filter (!·.isEmpty) = first :: rest := by
          refine List.filter_eq_self.mpr fun s hs => ?_
          simpa using (hnames s hs).nonempty
        rw [String.empty_append, segments, Text.splitOn_join (List.cons_ne_nil _ _) fun s hs => (hnames s hs).noSlash]
        exact hkept
  · exact segments_join hnames

/-- A request for the children of a parent leads to their type, by way of the parent. -/
theorem IsFamily.exists_collection {query : String} {request : HttpRequest}
    (hall : IsFamily g h e a parent children object uri items) (hroot : a.uriBase = e.id)
    (hmark : '?' ∉ (uri ++ "/" ++ children.uriName).toList)
    (hasked : AsksFor config request (uri ++ "/" ++ children.uriName) query) :
    ∃ path lead last above, target config request.uri = (path, query) ∧
      memberOf (segments path) = (lead ++ [last, children.uriName], none) ∧
      endpointOf g (lead ++ [last, children.uriName]) = .ok e ∧
      Text.join "/" (lead ++ [last, children.uriName]) = uri ++ "/" ++ children.uriName ∧
      g.table.get? parent.type = some above ∧ Text.IsSegment children.uriName ∧
      g.IsPlaced h TypeGraph.parentLimit above object lead last := by
  obtain ⟨slash, hslash, htarget⟩ := hasked.exists_target hmark
  simp only [String.toList_append, List.mem_append, not_or] at hmark
  have hname : Text.IsSegment children.uriName := by
    have hplain := ((hall.names e hall.type).1 a hall.address).1
    rw [hall.path] at hplain
    exact hplain.isSegment hmark.2
  obtain ⟨above, habove, -⟩ := hall.collection
  obtain ⟨lead, last, hplaced, huri⟩ := TypeGraph.exists_isPlaced hall.names (hall.parentType ▸ habove)
    hall.parentWay hall.parentUri hmark.1.1
  have hpath : Text.join "/" (lead ++ [last, children.uriName]) = uri ++ "/" ++ children.uriName := by
    rw [List.append_cons, Text.join_concat "/" (by simp), huri]
  have hnames : ∀ s ∈ lead ++ [last, children.uriName], Text.IsSegment s :=
    List.forall_mem_append.mpr ⟨hplaced.isSegment_collection,
      List.forall_mem_cons.mpr ⟨hplaced.isSegment_last, List.forall_mem_singleton.mpr hname⟩⟩
  -- behind the identifier of the parent there is a collection, and no identifier behind that
  have hlength : (lead ++ [last, children.uriName]).length % 2 ≠ 0 := by
    have hodd := hplaced.length_collection
    rw [List.length_append, List.length_cons, List.length_singleton]
    omega
  have hmember : memberOf (segments (slash ++ (uri ++ "/" ++ children.uriName))) =
      (lead ++ [last, children.uriName], none) := by
    rw [← hpath, segments_of_slash hnames hslash, memberOf, if_neg hlength]
  have hendpoint : endpointOf g (lead ++ [last, children.uriName]) = .ok e := by
    rw [List.append_cons]
    exact hall.endpointOf_eq hroot hname _
  exact ⟨_, lead, last, above, htarget, hmember, hendpoint, hpath, habove, hname, hplaced⟩

/-- **Without a template there is no listing.** A request for the children of a parent fails as their template does. -/
theorem answer_of_no_template {query : String} {request : HttpRequest} {fault : Error}
    (hall : IsFamily g h e a parent children object uri items) (hroot : a.uriBase = e.id)
    (hfault : g.uriTemplate e.id = .error fault) (hmark : '?' ∉ (uri ++ "/" ++ children.uriName).toList)
    (hasked : AsksFor config request (uri ++ "/" ++ children.uriName) query) :
    (answer config request).runOn (h, ⟨g, served⟩) = (.error fault, (h, ⟨g, served⟩)) := by
  obtain ⟨path, lead, last, above, htarget, hmember, hendpoint, -⟩ := hall.exists_collection hroot hmark hasked
  have hnesting : checkNesting g e (lead ++ [last, children.uriName]) = .error fault := by
    simp only [checkNesting, hfault, bind, Except.bind]
  rw [answer_collection hasked.method htarget hmember (by simp) hendpoint, hnesting]

/-- **A listing below a parent shows the children of the parent**, and no others. Let the children have a collection of
their own and a template for their addresses, and let there be no question mark on the way to them. Then a request for
the collection below the address of the parent is answered about those stored objects, in the order they are stored in,
which have an address and whose parent link holds an object with the address of the parent. -/
theorem answer_children {template query : String} {request : HttpRequest}
    (hall : IsFamily g h e a parent children object uri (served.repository.itemsFor e))
    (hown : g.HasOwnCollection e a) (htemplate : g.uriTemplate e.id = .ok template)
    (hmark : '?' ∉ (uri ++ "/" ++ children.uriName).toList)
    (hasked : AsksFor config request (uri ++ "/" ++ children.uriName) query) :
    (answer config request).runOn (h, ⟨g, served⟩) =
      (answerAbout config e ((served.repository.itemsFor e).filter fun item =>
        hasAddress g h item && hasParentAt uri g h item) query).runOn (h, ⟨g, served⟩) := by
  obtain ⟨path, lead, last, above, htarget, hmember, hendpoint, hpath, habove, hname, hplaced⟩ :=
    hall.exists_collection hown.root hmark hasked
  rw [answer_collection hasked.method htarget hmember (by simp) hendpoint,
    hall.checkNesting_eq htemplate habove hname hplaced, hpath, hall.filter_isBelow hown]

/-! ## Rooms of a house -/

/-- Two houses on one street, whose numbers start alike, and three rooms in them. -/
def twoHouses : Heap :=
  ⟨#[⟨TypeGraph.townType "Street", [("Name", .string "é/1?")]⟩,
     ⟨TypeGraph.townType "House", [("No", .int 7), ("On", .object ⟨0⟩)]⟩,
     ⟨TypeGraph.townType "House", [("No", .int 77), ("On", .object ⟨0⟩)]⟩,
     ⟨TypeGraph.townType "Room", [("Of", .object ⟨1⟩), ("Use", .string "study")]⟩,
     ⟨TypeGraph.townType "Room", [("Of", .object ⟨2⟩), ("Use", .string "7/rooms")]⟩,
     ⟨TypeGraph.townType "Room", [("Of", .object ⟨1⟩), ("Use", .string "77")]⟩], #[]⟩

/-- The server of the rooms, before the first request. -/
def housing : Served :=
  ⟨⟨[(TypeGraph.townType "Room", [.object ⟨3⟩, .object ⟨4⟩, .object ⟨5⟩])]⟩, .empty 1⟩

theorem rooms_answered : ∃ e, TypeGraph.town.graph.table.get? (TypeGraph.townType "Room") = some e ∧
    (answer .standard (.fetch "/streets/%C3%A9%2F1%3F/houses/7/rooms?$top=5")).runOn
        (twoHouses, ⟨TypeGraph.town.graph, housing⟩) =
      (answerAbout .standard e [.object ⟨3⟩, .object ⟨5⟩] "$top=5").runOn
        (twoHouses, ⟨TypeGraph.town.graph, housing⟩) := by
  have hfound : (family? TypeGraph.town.graph twoHouses (TypeGraph.townType "Room") ⟨1⟩ housing).any (fun f =>
      decide (f.uri = "streets/%C3%A9%2F1%3F/houses/7" ∧ f.children.uriName = "rooms" ∧
        TypeGraph.town.graph.HasOwnCollection f.type f.address ∧ f.address.uriBase = TypeGraph.townType "Room") &&
      (TypeGraph.town.graph.uriTemplate f.type.id).isOk) = true := by decide +kernel
  have hchildren : ∀ asked ∈ [(3, true), (4, false), (5, true)],
      (hasAddress TypeGraph.town.graph twoHouses (.object ⟨asked.1⟩) &&
        hasParentAt "streets/%C3%A9%2F1%3F/houses/7" TypeGraph.town.graph twoHouses (.object ⟨asked.1⟩)) = asked.2 := by
    decide +kernel
  have hg : TypeGraph.town.graph.Arises :=
    Registry.arises_graph (((Registry.keyedByName_empty.withType _).withType _).withType _) (by decide +kernel)
  obtain ⟨f, hf, hfacts⟩ := (Option.any_eq_true _ _).mp hfound
  simp only [Bool.and_eq_true, decide_eq_true_eq] at hfacts
  obtain ⟨⟨huri, hname, hown, hbase⟩, htemplate⟩ := hfacts
  obtain ⟨template, htemplate⟩ := exists_of_isOk htemplate
  have hall := isFamily_of_family? hg hf
  have hasked : AsksFor .standard (.fetch "/streets/%C3%A9%2F1%3F/houses/7/rooms?$top=5")
      (f.uri ++ "/" ++ f.children.uriName) "$top=5" :=
    ⟨rfl, "/", "?$top=5", .inr rfl, .inr rfl, by rw [huri, hname]; rfl⟩
  have hmark : '?' ∉ (f.uri ++ "/" ++ f.children.uriName).toList := by
    rw [huri, hname]
    decide
  have hitems : housing.repository.itemsFor f.type = [.object ⟨3⟩, .object ⟨4⟩, .object ⟨5⟩] := by
    rw [Repository.itemsFor, hall.address, Option.map_some, hbase]
    simp [housing, Repository.collection]
  refine ⟨f.type, type_of_family? hf, ?_⟩
  rw [answer_children hall hown htemplate hmark hasked, hitems, huri]
  simp [List.filter, hchildren (3, true) (by simp), hchildren (4, false) (by simp), hchildren (5, true) (by simp)]

/-! ## Listings that go astray -/

/-- The number of the declared type called `name`. -/
def numberOf (r : Registry) (name : String) : TypeId :=
  (r.graph.table.byNative.lookup (.named name)).getD ⟨0⟩

/-- The text of an answer. -/
def textOf (outcome : Except Error Json) : Option String :=
  outcome.toOption.map Json.compact

/-- Asks how many objects there are at a path. -/
def countAt (path : String) : HttpRequest :=
  .fetch ("/" ++ path ++ "?$projection=count")

theorem asksFor_countAt (path : String) : AsksFor .standard (countAt path) path "$projection=count" :=
  ⟨rfl, "/", "?$projection=count", .inr rfl, .inr rfl, String.empty_append.symm⟩

/-- A request for the children of a parent is not answered about the stored objects whose parent link holds an object
with the address of the parent. -/
def IsAstray (g : TypeGraph) (h : Heap) (type : TypeId) (object : ObjectId) (served : Served) : Prop :=
  ∃ e a parent children uri request query, g.table.get? type = some e ∧
    IsFamily g h e a parent children object uri (served.repository.itemsFor e) ∧
    AsksFor .standard request (uri ++ "/" ++ children.uriName) query ∧
    (answer .standard request).runOn (h, ⟨g, served⟩) ≠
      (answerAbout .standard e ((served.repository.itemsFor e).filter (hasParentAt uri g h)) query).runOn
        (h, ⟨g, served⟩)

/-- The count of the objects whose parent link holds an object with the address of the parent. -/
def counted (g : TypeGraph) (h : Heap) (served : Served) (f : Family) : Option String :=
  textOf ((answerAbout .standard f.type ((served.repository.itemsFor f.type).filter (hasParentAt f.uri g h))
    "$projection=count").runOn (h, ⟨g, served⟩)).1

theorem isAstray_of_counted {type : TypeId} {f : Family} (hg : g.Arises)
    (hf : family? g h type object served = some f)
    (hcount : textOf ((answer .standard (countAt (f.uri ++ "/" ++ f.children.uriName))).runOn (h, ⟨g, served⟩)).1 ≠
      counted g h served f) : IsAstray g h type object served := by
  refine ⟨f.type, f.address, f.parent, f.children, f.uri, _, _, type_of_family? hf, isFamily_of_family? hg hf,
    asksFor_countAt _, fun hsame => hcount ?_⟩
  rw [hsame]
  rfl

/-- A farm has critters, stalls, pens and dogs. Chicks are kept with the critters that they are nested in, and dogs with
the animals. -/
def farmyard : Registry :=
  let onFarm (name collection : String) : SourceType :=
    { SourceType.bare name .resource with
      parent := some ⟨"Farm", "Farm", collection⟩
      properties := [.primaryId "Id" (.value .int32), .ofType "Farm" (.named "Farm")] }
  let farm : SourceType :=
    { SourceType.bare "Farm" .resource with
      properties := [.primaryId "Id" (.value .int32), .ofType "Critters" (.list (.named "Critter")),
        .ofType "Stalls" (.list (.named "Stall")), .ofType "Pens?" (.list (.named "Pen")),
        .ofType "Dogs" (.list (.named "Dog"))] }
  let critter : SourceType :=
    { onFarm "Critter" "Critters" with
      properties := (onFarm "Critter" "Critters").properties ++ [.ofType "Chicks" (.list (.named "Chick"))] }
  let chick : SourceType :=
    { SourceType.bare "Chick" .resource with
      path := some "chicks"
      parent := some ⟨"Critter", "Hen", "Chicks"⟩
      uriBase := some "Critter"
      properties := [.primaryId "Id" (.value .int32), .ofType "Hen" (.named "Critter")] }
  let animal : SourceType :=
    { SourceType.bare "Animal" .resource with properties := [.primaryId "Id" (.value .int32)] }
  [farm, critter, chick, onFarm "Stall" "Stalls", { onFarm "Pen" "Pens?" with path := some "pens?" }, animal,
    { onFarm "Dog" "Dogs" with path := some "dogs", uriBase := some "Animal" }].foldl .withType .empty

/-- A farm with a critter, its chick, a stall without a number, a pen and a dog. -/
def yard : Heap :=
  ⟨#[⟨numberOf farmyard "Farm", [("Id", .int 1)]⟩,
     ⟨numberOf farmyard "Critter", [("Farm", .object ⟨0⟩), ("Id", .int 5)]⟩,
     ⟨numberOf farmyard "Chick", [("Hen", .object ⟨1⟩), ("Id", .int 6)]⟩,
     ⟨numberOf farmyard "Stall", [("Farm", .object ⟨0⟩)]⟩,
     ⟨numberOf farmyard "Pen", [("Farm", .object ⟨0⟩), ("Id", .int 1)]⟩,
     ⟨numberOf farmyard "Dog", [("Farm", .object ⟨0⟩), ("Id", .int 1)]⟩], #[]⟩

/-- The server of the farm, before the first request. -/
def farmServer : Served :=
  ⟨⟨[(numberOf farmyard "Critter", [.object ⟨1⟩, .object ⟨2⟩]), (numberOf farmyard "Stall", [.object ⟨3⟩]),
    (numberOf farmyard "Pen", [.object ⟨4⟩]), (numberOf farmyard "Animal", [.object ⟨5⟩])]⟩, .empty 1⟩

/-- The name of a box; each box is in a greater one. -/
def boxName (k : Nat) : String :=
  "B" ++ Decimal.naturalText k

/-- The path of the boxes of one size. -/
def boxPath (k : Nat) : String :=
  "b" ++ Decimal.naturalText k

/-- A box of one of 34 sizes. -/
def box (k : Nat) : SourceType :=
  { SourceType.bare (boxName k) .resource with
    path := some (boxPath k)
    parent := if k = 0 then none else some ⟨boxName (k - 1), "In", boxPath k⟩
    properties := [.primaryId "Id" (.value .int32)] ++
      (if k = 0 then [] else [.ofType "In" (.named (boxName (k - 1)))]) ++
      (if k = 33 then [] else [.ofType (boxPath (k + 1)) (.list (.named (boxName (k + 1))))]) }

/-- Boxes of 34 sizes. -/
def boxes : Registry :=
  ((List.range 34).map box).foldl .withType .empty

/-- A box of each size, in the next greater one. -/
def nestOfBoxes : Heap :=
  ⟨((List.range 34).map fun k => ⟨numberOf boxes (boxName k),
      ("Id", .int (Int64.ofNat k)) :: if k = 0 then [] else [("In", .object ⟨k - 1⟩)]⟩).toArray, #[]⟩

/-- The server of the smallest box, before the first request. -/
def boxServer : Served :=
  ⟨⟨[(numberOf boxes (boxName 33), [.object ⟨33⟩])]⟩, .empty 1⟩

theorem isAstray_box : IsAstray boxes.graph nestOfBoxes (numberOf boxes (boxName 33)) ⟨32⟩ boxServer := by
  have hfound : (family? boxes.graph nestOfBoxes (numberOf boxes (boxName 33)) ⟨32⟩ boxServer).any (fun f =>
      decide (f.address.uriBase = f.type.id ∧ '?' ∉ (f.uri ++ "/" ++ f.children.uriName).toList) &&
      (boxes.graph.uriTemplate f.type.id).toOption.isNone &&
      (counted boxes.graph nestOfBoxes boxServer f).isSome) = true := by decide +kernel
  obtain ⟨f, hf, hfacts⟩ := (Option.any_eq_true _ _).mp hfound
  simp only [Bool.and_eq_true, decide_eq_true_eq] at hfacts
  obtain ⟨⟨⟨hroot, hmark⟩, htemplate⟩, hcounted⟩ := hfacts
  have hg : boxes.graph.Arises := Registry.arises_graph (Registry.keyedByName_empty.withTypes ((List.range 34).map box))
    (Registry.isResolvable_of_get? (type_of_family? hf))
  refine isAstray_of_counted hg hf ?_
  cases hfault : boxes.graph.uriTemplate f.type.id with
  | ok template =>
      rw [hfault] at htemplate
      cases htemplate
  | error fault =>
      rw [answer_of_no_template (isFamily_of_family? hg hf) hroot hfault hmark (asksFor_countAt _)]
      intro hnone
      rw [← hnone] at hcounted
      cases hcounted

/-- **Where listings go astray.** In each of these families a request for the children of the parent is not answered
about the stored objects whose parent link holds an object with the address of the parent. A chick in the collection of
the critters is counted with them, as its address is below theirs; a stall without a number is not counted; the
collection of the pens has a question mark in its name; dogs have no collection of their own; and the smallest box is
in 33 others. -/
theorem listings_astray :
    (∀ name ∈ ["Critter", "Stall", "Pen", "Dog"],
      IsAstray farmyard.graph yard (numberOf farmyard name) ⟨0⟩ farmServer) ∧
      IsAstray boxes.graph nestOfBoxes (numberOf boxes (boxName 33)) ⟨32⟩ boxServer := by
  have hcounts : ∀ name ∈ ["Critter", "Stall", "Pen", "Dog"],
      (family? farmyard.graph yard (numberOf farmyard name) ⟨0⟩ farmServer).any (fun f =>
        decide (textOf ((answer .standard (countAt (f.uri ++ "/" ++ f.children.uriName))).runOn
          (yard, ⟨farmyard.graph, farmServer⟩)).1 ≠ counted farmyard.graph yard farmServer f)) = true := by
    decide +kernel
  refine ⟨fun name hname => ?_, isAstray_box⟩
  obtain ⟨f, hf, hcount⟩ := (Option.any_eq_true _ _).mp (hcounts name hname)
  have hg : farmyard.graph.Arises :=
    Registry.arises_graph (Registry.keyedByName_empty.withTypes _) (Registry.isResolvable_of_get? (type_of_family? hf))
  exact isAstray_of_counted hg hf (of_decide_eq_true hcount)

end Server

end ResourceQuery
