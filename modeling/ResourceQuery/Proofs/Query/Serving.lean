import ResourceQuery.Proofs.Query.Caching
import ResourceQuery.Proofs.Query.Identifiers
import ResourceQuery.Proofs.Store.Histories

set_option autoImplicit false

/-! # Where the URI of an object leads

The URI of an object is written by one part of a server and read by another. The reader cuts the path at its
slashes, takes the last collection in it for that of a type, checks the way to it against the template of
that type, and asks for the identifier behind it among the objects below that way. `Server.answer_uri` says
that it comes out at the object, and what this takes: the names and identifiers on the way are segments
(`TypeGraph.IsPlaced`), the collection has the path of its type and no other type has it
(`Server.IsAddressable`), the object is the only one there with its identifier, which all objects there have
under one name (`Server.Holds`), and the identifier is read as itself (`Literal.IsTold`).

The last of these is a gap between the two parts, as is the path of a nested collection: a text such as `42`
is a good primary id, and its URI is answered as if there were no such object (`Server.numeral_not_found`);
and the name that a parent has for a collection need not be the path of its type
(`Server.answer_uri_of_no_endpoint`).

A server remembers what it has read of query strings. What was asked for before changes no answer, as its
cache is faithful at all times (`Server.hasFaithfulCache_after`).
-/

namespace ResourceQuery

namespace Text

theorem after?_append (lead rest : String) : after? lead (lead ++ rest) = some rest := by
  unfold after?
  rw [String.toList_append, if_pos (List.isPrefixOf_iff_prefix.mpr (List.prefix_append _ _)),
    List.drop_left, String.ofList_toList]

theorem startsWith_append (lead rest : String) : startsWith lead (lead ++ rest) = true := by
  unfold startsWith
  rw [String.toList_append]
  exact List.isPrefixOf_iff_prefix.mpr (List.prefix_append _ _)

/-- A character that is in none of the pieces and not in the separator is not in what is joined. -/
theorem not_mem_join {c : Char} {sep : String} (hsep : c ∉ sep.toList) {pieces : List String}
    (h : ∀ p ∈ pieces, c ∉ p.toList) : c ∉ (join sep pieces).toList := by
  induction pieces with
  | nil => exact List.not_mem_nil
  | cons piece pieces ih =>
      have hpiece := h piece List.mem_cons_self
      cases pieces with
      | nil => exact hpiece
      | cons next later =>
          rw [join_cons sep piece (List.cons_ne_nil _ _), String.toList_append, String.toList_append,
            List.mem_append, List.mem_append, not_or, not_or]
          exact ⟨⟨hpiece, hsep⟩, ih fun p hp => h p (List.mem_cons_of_mem _ hp)⟩

theorem trimSlashes_of_isSegment {s : String} (h : IsSegment s) : trimSlashes s = s :=
  trimBoth_of_forall fun _ hc => beq_eq_false_iff_ne.mpr fun heq => h.noSlash (heq ▸ hc)

end Text

namespace Action

variable {σ α β : Type} {P : σ → Prop}

/-- The action leads from states with `P` to such states, also where it fails. -/
def Keeps (P : σ → Prop) (x : Action σ α) : Prop :=
  ∀ s, P s → P (x.runOn s).2

theorem Keeps.bind {x : Action σ α} {next : α → Action σ β} (hx : x.Keeps P)
    (hnext : ∀ a, (next a).Keeps P) : (x >>= next).Keeps P := by
  intro s hs
  have hbetween := hx s hs
  rw [runOn_bind]
  cases hrun : x.runOn s with
  | mk outcome between =>
      rw [hrun] at hbetween
      cases outcome with
      | ok a => exact hnext a between hbetween
      | error e => exact hbetween

theorem keeps_pure (a : α) : (pure a : Action σ α).Keeps P :=
  fun _ hs => hs

theorem keeps_fail (e : Error) : (fail e : Action σ α).Keeps P :=
  fun _ hs => hs

theorem exists_of_runOn_bind {first : Action σ α} {next : α → Action σ β} {s s' : σ} {b : β}
    (h : (first >>= next).runOn s = (.ok b, s')) :
    ∃ a between, first.runOn s = (.ok a, between) ∧ (next a).runOn between = (.ok b, s') := by
  rw [runOn_bind] at h
  cases hfirst : first.runOn s with
  | mk outcome between =>
      rw [hfirst] at h
      cases outcome with
      | error e => cases h
      | ok a => exact ⟨a, between, rfl, h⟩

end Action

theorem World.keeps_ask {τ α : Type} {P : Heap × Surroundings τ → Prop}
    (f : TypeGraph → Heap → Except Error α) : (ask f : World τ α).Keeps P :=
  fun _ hs => hs

theorem World.runOn_ask {τ α : Type} (f : TypeGraph → Heap → Except Error α) (s : Heap × Surroundings τ) :
    (ask f).runOn s = (f s.2.graph s.1, s) := rfl

namespace Server

variable {g : TypeGraph} {h : Heap} {config : Config} {e : Descriptor} {p : Property}
  {object : ObjectId} {collection : List String} {last name : String}

/-! ## The cache of a server -/

/-- The cache of the server is faithful. -/
def HasFaithfulCache (config : Config) (s : Heap × Surroundings Served) : Prop :=
  s.2.rest.cache.IsFaithful config

theorem keeps_interpret (config : Config) (endpoint : Descriptor)
    (scope : TypeGraph → Heap → Value → Bool) (query : String) :
    (interpret config endpoint scope query).Keeps (HasFaithfulCache config) := by
  unfold interpret
  refine .bind (fun s hs => ?_) fun q => .bind (fun s hs => hs) fun stored =>
    .bind (fun s hs => hs) fun reply => Action.keeps_pure _
  -- only a query string that is looked up comes into the cache
  exact hs.parse hash query

theorem keeps_answer (config : Config) (request : HttpRequest) :
    (answer config request).Keeps (HasFaithfulCache config) := by
  have hanswerIn : ∀ endpoint collection query,
      (answerIn config endpoint collection query).Keeps (HasFaithfulCache config) := by
    intro endpoint collection query
    unfold answerIn
    split
    · exact .bind (World.keeps_ask _) fun _ => keeps_interpret config endpoint _ query
    · exact keeps_interpret config endpoint _ query
  unfold answer
  split
  · exact Action.keeps_fail _
  · generalize target config request.uri = located
    obtain ⟨path, query⟩ := located
    dsimp only
    generalize memberOf (segments path) = found
    obtain ⟨collection, id⟩ := found
    dsimp only
    refine .bind (World.keeps_ask _) fun endpoint => ?_
    cases id with
    | some id =>
        exact .bind (World.keeps_ask _) fun query =>
          .bind (hanswerIn endpoint collection query) fun reply => World.keeps_ask _
    | none =>
        exact .bind (Action.keeps_pure query) fun query =>
          .bind (hanswerIn endpoint collection query) fun reply => World.keeps_ask _

/-- The state after requests were answered one after another. -/
def after (config : Config) (requests : List HttpRequest) (s : Heap × Surroundings Served) :
    Heap × Surroundings Served :=
  requests.foldl (fun s request => ((respond config request).runOn s).2) s

/-- **A faithful cache stays faithful, whatever is asked for.** -/
theorem hasFaithfulCache_after (requests : List HttpRequest) {s : Heap × Surroundings Served}
    (hs : HasFaithfulCache config s) : HasFaithfulCache config (after config requests s) := by
  induction requests generalizing s with
  | nil => exact hs
  | cons request rest ih =>
      refine ih ?_
      have hnext := keeps_answer config request s hs
      unfold respond
      simp only [Action.change, Action.runOn_ofFunction]
      split <;> exact hnext

/-! ## Paths -/

/-- What stands behind the base of a URI without a query is its path. -/
theorem target_append {path : String} (hpath : '?' ∉ path.toList) :
    target config (Text.trimEndSlashes config.baseUri ++ path) = (path, "") := by
  rw [target, Text.after?_append, Option.getD_some, Text.splitOnce_of_not_mem hpath, Option.getD_none]

/-- A path of segments has these segments. -/
theorem segments_join {names : List String} (hnames : ∀ s ∈ names, Text.IsSegment s) :
    segments ("/" ++ Text.join "/" names) = names := by
  have hkept : names.filter (!·.isEmpty) = names := by
    refine List.filter_eq_self.mpr fun s hs => ?_
    simpa using (hnames s hs).nonempty
  cases hsome : names with
  | nil => rfl
  | cons first rest =>
      rw [hsome] at hnames hkept
      have hjoin : "/" ++ Text.join "/" (first :: rest) = Text.join "/" ("" :: first :: rest) := by
        rw [Text.join_cons "/" "" (List.cons_ne_nil _ _), String.empty_append]
      have hslashes : ∀ s ∈ "" :: first :: rest, '/' ∉ s.toList :=
        List.forall_mem_cons.mpr ⟨List.not_mem_nil, fun s hs => (hnames s hs).noSlash⟩
      rw [segments, hjoin, Text.splitOn_join (List.cons_ne_nil _ _) hslashes]
      exact hkept

/-- Behind a path to a collection stands an identifier. -/
theorem memberOf_append (hodd : collection.length % 2 = 1) :
    memberOf (collection ++ [last]) = (collection, some last) := by
  have heven : (collection ++ [last]).length % 2 = 0 := by
    rw [List.length_append, List.length_singleton]
    omega
  rw [memberOf, if_pos heven, List.dropLast_concat, List.getLast?_concat]

/-- The URI of an object that is placed is read as its collection and its identifier. -/
theorem exists_path (config : Config)
    (hplaced : g.IsPlaced h TypeGraph.parentLimit e object collection last) :
    ∃ path, target config (Text.trimEndSlashes config.baseUri ++ "/" ++
        Text.join "/" (collection ++ [last])) = (path, "") ∧
      memberOf (segments path) = (collection, some last) := by
  have hsegments : ∀ s ∈ collection ++ [last], Text.IsSegment s :=
    List.forall_mem_append.mpr ⟨hplaced.isSegment_collection,
      List.forall_mem_singleton.mpr hplaced.isSegment_last⟩
  refine ⟨"/" ++ Text.join "/" (collection ++ [last]), ?_, ?_⟩
  · rw [String.append_assoc]
    refine target_append ?_
    rw [String.toList_append, List.mem_append, not_or]
    exact ⟨by decide, Text.not_mem_join (by decide) fun s hs => (hsegments s hs).noMark⟩
  · rw [segments_join hsegments, memberOf_append hplaced.length_collection]

/-! ## Collections -/

/-- A type is found under its number. -/
theorem get_id (hg : g.Arises) (he : e ∈ g.types) : g.get e.id = .ok e := by
  obtain ⟨id, hid⟩ := TypeGraph.exists_of_mem_types he
  rw [TypeGraph.get_eq_ok, hg.sound.id id e hid]
  exact hid

/-- A path that is the path of one collection only leads to this collection. -/
theorem endpoint_of_distinct (hg : g.Arises) (he : e ∈ g.resources) (hpath : TypeGraph.isEndpoint name e = true)
    (hdistinct : ∀ d ∈ g.resources, TypeGraph.isEndpoint name d = true → d.id = e.id)
    (hname : Text.IsSegment name) : g.endpoint name = .ok e := by
  unfold TypeGraph.endpoint
  rw [Text.trimSlashes_of_isSegment hname]
  dsimp only
  cases hfound : g.resources.find? (TypeGraph.isEndpoint name) with
  | none => exact absurd hpath (List.find?_eq_none.mp hfound e he)
  | some d =>
      have hd : d ∈ g.resources := List.mem_of_find?_eq_some hfound
      have hsame : d.id = e.id := hdistinct d hd (List.find?_some hfound)
      -- a type is told by its number
      have hget : g.get e.id = .ok d := hsame ▸ get_id hg (List.mem_filter.mp hd).1
      exact hget.symm.trans (get_id hg (List.mem_filter.mp he).1)

/-- The collection at the path `name` is that of `e` and of no other type, and its objects can be asked for
by `p`, their primary id: clients may read it, and its name is an identifier that stands for nothing else
in expressions. -/
structure IsAddressable (g : TypeGraph) (e : Descriptor) (name : String) (p : Property) : Prop where
  resource : e ∈ g.resources
  path : TypeGraph.isEndpoint name e = true
  distinct : ∀ d ∈ g.resources, TypeGraph.isEndpoint name d = true → d.id = e.id
  id : e.primaryId? = some p
  readable : p.isReadable = true
  identifier : Text.isIdentifier p.name = true
  word : isReserved p.name = false

namespace IsAddressable

theorem exists_address (he : IsAddressable g e name p) :
    ∃ a, e.address? = some a ∧ a.uriBase = e.id := by
  obtain ⟨a, ha, hpath⟩ := (Option.any_eq_true _ _).mp he.path
  exact ⟨a, ha, eq_of_beq ((Bool.and_eq_true _ _).mp hpath).1⟩

theorem get_eq (he : IsAddressable g e name p) (hg : g.Arises) : g.get e.id = .ok e :=
  get_id hg (List.mem_filter.mp he.resource).1

/-- The path leads to the collection. -/
theorem endpoint_eq (he : IsAddressable g e name p) (hg : g.Arises) (hname : Text.IsSegment name) :
    g.endpoint name = .ok e :=
  endpoint_of_distinct hg he.resource he.path he.distinct hname

end IsAddressable

/-- The way to a collection is right if its segments fit the parts of the template. -/
theorem checkNesting_of_template {parts : List String} {placeholder : String}
    (htemplate : g.uriTemplate e.id = .ok (Text.join "/" (parts ++ [placeholder])))
    (hslashes : ∀ p ∈ parts ++ [placeholder], '/' ∉ p.toList)
    (hfit : List.Forall₂ (fun part s => part = s ∨ Text.startsWith "\x7b" part = true) parts collection) :
    checkNesting g e collection = .ok () := by
  have hparts : (Text.splitOn '/' (Text.join "/" (parts ++ [placeholder]))).dropLast = parts := by
    rw [Text.splitOn_join (by simp) hslashes, List.dropLast_concat]
  have hfits : ∀ pair ∈ parts.zip collection, fits pair.1 pair.2 = true := by
    rintro ⟨part, s⟩ hmem
    rcases List.forall₂_zip hfit hmem with rfl | hplaceholder
    · exact Bool.or_eq_true_iff.mpr (Or.inr (Text.sameIgnoringCase_refl part))
    · exact Bool.or_eq_true_iff.mpr (Or.inl hplaceholder)
  simp only [checkNesting, htemplate, bind, Except.bind, hparts]
  exact if_pos ⟨hfit.length_eq, List.all_eq_true.mpr hfits⟩

/-- The way to an object that is placed follows the template of the collection. -/
theorem checkNesting_eq (he : g.get e.id = .ok e)
    (hplaced : g.IsPlaced h TypeGraph.parentLimit e object collection last) :
    checkNesting g e collection = .ok () := by
  have hempty : '/' ∉ "".toList := List.not_mem_nil
  obtain ⟨parts, placeholder, hbelow, hslashes, -, hfit⟩ := hplaced.exists_template hempty
  have htemplate : g.uriTemplate e.id = .ok (Text.join "/" (parts ++ [placeholder])) := by
    rw [TypeGraph.uriTemplate, he]
    exact hbelow
  exact checkNesting_of_template htemplate hslashes hfit

/-- An object that is placed is below its collection. -/
theorem isBelow_collection
    (hplaced : g.IsPlaced h TypeGraph.parentLimit e object collection last) :
    isBelow (Text.join "/" collection ++ "/") g h (.object object) = true := by
  have huri : g.uriOf h object = .ok (Text.join "/" collection ++ "/" ++ last) := by
    rw [TypeGraph.uriOf, hplaced.uriBelow_eq, Text.join_concat "/" hplaced.collection_ne_nil]
  rw [isBelow, huri]
  exact Text.startsWith_append _ _

/-! ## Answers -/

/-- What a collection has of an object that is asked for by the constant `l`: the object, with `l` as its
primary id, and no other object with that id. The objects there call their primary id `name`. -/
structure Holds (g : TypeGraph) (h : Heap) (items : List Value) (name : String) (object : ObjectId)
    (l : Literal) : Prop where
  mem : .object object ∈ items
  id : Repository.idOf g h (.object object) = some l.value
  unique : ∀ item ∈ items, Repository.hasId g h l.value item = true → item = .object object
  shareId : ShareId g h name items

/-- The objects of a part of a collection are those that are in it. -/
theorem Holds.filter {items : List Value} {l : Literal} (hheld : Holds g h items name object l)
    {scope : Value → Bool} (hscope : scope (.object object) = true) :
    Holds g h (items.filter scope) name object l where
  mem := List.mem_filter.mpr ⟨hheld.mem, hscope⟩
  id := hheld.id
  unique := fun item hitem => hheld.unique item (List.mem_filter.mp hitem).1
  shareId := fun item hitem => hheld.shareId item (List.mem_filter.mp hitem).1

variable {served : Served} {l : Literal} {text query : String}

theorem interpret_eq (hg : g.Arises) (hcache : served.cache.IsFaithful config)
    (he : IsAddressable g e name p) (hl : l.Identifies text)
    (hheld : Holds g h (served.repository.collection e.id) p.name object l)
    (hquery : Parameters.parse config query = .ok (identifying p.name l))
    {scope : TypeGraph → Heap → Value → Bool} (hscope : scope g h (.object object) = true) :
    (interpret config e scope query).runOn (h, ⟨g, served⟩) =
      (.ok ⟨.value (.object object), [], e.id⟩,
        (h, ⟨g, { served with cache := (served.cache.parse hash config query).2 }⟩)) := by
  obtain ⟨a, ha, hbase⟩ := he.exists_address
  have hitems : served.repository.itemsFor e = served.repository.collection e.id := by
    rw [Repository.itemsFor, ha, Option.map_some, hbase, Option.getD_some]
  have hscoped := hheld.filter hscope
  have hhas : Repository.hasId g h l.value (.object object) = true := by
    rw [Repository.hasId_of_idOf_eq hheld.id]
    exact hl.looselyEqual_self h
  have hreply := ofParameters_identifying config hg (he.get_eq hg) ha hbase he.id he.readable
    hscoped.shareId hscoped.mem hhas hscoped.unique
  have hparse : (served.cache.parse hash config query) =
      (.ok (identifying p.name l), (served.cache.parse hash config query).2) :=
    Prod.ext ((hcache.parse_eq hash query).trans hquery) rfl
  have hparameters : (parameters config query).runOn (h, ⟨g, served⟩) =
      (.ok (identifying p.name l),
        (h, ⟨g, { served with cache := (served.cache.parse hash config query).2 }⟩)) := by
    unfold parameters World.outside
    rw [Action.runOn_ofFunction]
    dsimp only
    rw [hparse]
  rw [interpret, Action.runOn_bind, hparameters]
  dsimp only
  rw [Action.runOn_bind]
  simp only [World.outside, Action.runOn_ofFunction, hitems]
  rw [Action.runOn_bind]
  simp only [World.resolving, Action.runOn_ofFunction, hreply]
  rfl

theorem answerIn_eq (hg : g.Arises) (hcache : served.cache.IsFaithful config)
    (hplaced : g.IsPlaced h TypeGraph.parentLimit e object collection last)
    (he : IsAddressable g e name p) (hl : l.Identifies text)
    (hheld : Holds g h (served.repository.collection e.id) p.name object l)
    (hquery : Parameters.parse config query = .ok (identifying p.name l)) :
    (answerIn config e collection query).runOn (h, ⟨g, served⟩) =
      (.ok ⟨.value (.object object), [], e.id⟩,
        (h, ⟨g, { served with cache := (served.cache.parse hash config query).2 }⟩)) := by
  unfold answerIn
  split
  · rw [Action.runOn_bind]
    simp only [World.ask, Action.look, Action.runOn_ofFunction, checkNesting_eq (he.get_eq hg) hplaced]
    exact interpret_eq hg hcache he hl hheld hquery (isBelow_collection hplaced)
  · exact interpret_eq hg hcache he hl hheld hquery rfl

/-- The last segment of an object's address is the text of its identifier. -/
theorem last_eq (hplaced : g.IsPlaced h TypeGraph.parentLimit e object collection last)
    (hid : Repository.idOf g h (.object object) = some l.value) (hl : l.Identifies text) :
    last = Percent.encode Percent.keptInSegment text := by
  obtain ⟨own, a, hidentified⟩ := hplaced.exists_own
  obtain ⟨q, hq, hsegment⟩ := hidentified.segment
  rw [Repository.idOf, TypeGraph.get_eq_ok.mp hidentified.type, Option.bind_some, hq, Option.map_some,
    Option.some.injEq] at hid
  rw [hid, hl.segment_eq] at hsegment
  exact (Except.ok.inj hsegment).symm

theorem absoluteUri_eq (hplaced : g.IsPlaced h TypeGraph.parentLimit e object collection last)
    (base : String) :
    g.absoluteUri h base object =
      .ok (Text.trimEndSlashes base ++ "/" ++ Text.join "/" (collection ++ [last])) := by
  rw [TypeGraph.absoluteUri, TypeGraph.uriOf, hplaced.uriBelow_eq]
  rfl

/-- The document of an object on its own, as an item of the collection of `e`. -/
def document (g : TypeGraph) (h : Heap) (config : Config) (e : Descriptor) (object : ObjectId) :
    Except Error Json :=
  (⟨g, h, config.baseUri, .none⟩ : Writer).write e.id (.object object)

/-- **The URI of an object leads back to it.** Let an object be placed below a collection that can be
addressed, and be the only one there with its identifier. Then it has a URI, and a request for that URI is
answered with the document of the object. The identifier must be no text that is written like a whole
number, and the filter for it must keep to the limits of the server. -/
theorem answer_uri (hg : g.Arises) (hcache : served.cache.IsFaithful config)
    (hdepth : 3 ≤ config.maxExpressionDepth)
    (hplaced : g.IsPlaced h TypeGraph.parentLimit e object collection last)
    (hname : collection.getLast? = some name) (he : IsAddressable g e name p)
    (hl : l.Identifies text) (htold : l.IsTold)
    (hheld : Holds g h (served.repository.collection e.id) p.name object l)
    (hlength : ∀ query, memberQuery e last = .ok query → query.utf8ByteSize ≤ config.maxQueryLength) :
    ∃ uri, g.absoluteUri h config.baseUri object = .ok uri ∧
      ∀ request : HttpRequest, request.method = .get → request.uri = uri →
        ∃ cache : ParseCache, cache.IsFaithful config ∧
          (answer config request).runOn (h, ⟨g, served⟩) =
            (document g h config e object, (h, ⟨g, { served with cache }⟩)) ∧
          ∀ json, document g h config e object = .ok json →
            (respond config request).runOn (h, ⟨g, served⟩) =
              (.ok (.ofJson 200 json), (h, ⟨g, { served with cache }⟩)) := by
  refine ⟨_, absoluteUri_eq hplaced config.baseUri, fun request hmethod hrequest => ?_⟩
  obtain ⟨path, htarget, hmember⟩ := exists_path config hplaced
  have hendpoint : endpointOf g collection = .ok e := by
    rw [endpointOf, hname]
    exact he.endpoint_eq hg (hplaced.isSegment_collection name (List.mem_of_getLast? hname))
  have hlast := last_eq hplaced hheld.id hl
  obtain ⟨query, hquery⟩ : ∃ query, memberQuery e last = .ok query :=
    ⟨_, hlast ▸ memberQuery_eq he.id hl htold⟩
  have hparse : Parameters.parse config query = .ok (identifying p.name l) :=
    parse_memberQuery he.id he.identifier he.word hl htold hdepth (hlast ▸ hquery) (hlength query hquery)
  have hrun : (answer config request).runOn (h, ⟨g, served⟩) = (document g h config e object,
      (h, ⟨g, { served with cache := (served.cache.parse hash config query).2 }⟩)) := by
    unfold answer
    simp only [hmethod, hrequest, ne_eq, not_true_eq_false, if_false, htarget, hmember]
    rw [Action.runOn_bind]
    simp only [World.ask, Action.look, Action.runOn_ofFunction, hendpoint]
    rw [Action.runOn_bind]
    simp only [Action.runOn_ofFunction, hquery]
    rw [Action.runOn_bind, answerIn_eq hg hcache hplaced he hl hheld hparse]
    rfl
  refine ⟨_, hcache.parse hash query, hrun, fun json hjson => ?_⟩
  rw [hjson] at hrun
  simp only [respond, Action.change, Action.runOn_ofFunction, hrun]

/-- **A collection is found under the path of its type only.** Where the parent calls it otherwise, and so
does no other collection, a request for the URI of an object there fails. -/
theorem answer_uri_of_no_endpoint
    (hplaced : g.IsPlaced h TypeGraph.parentLimit e object collection last)
    (hname : collection.getLast? = some name)
    (hnone : ∀ d ∈ g.resources, TypeGraph.isEndpoint name d = false) :
    ∃ uri, g.absoluteUri h config.baseUri object = .ok uri ∧
      ∀ request : HttpRequest, request.method = .get → request.uri = uri →
        (answer config request).runOn (h, ⟨g, served⟩) =
          (.error (.unknownType s!"no resource at '{name}'"), (h, ⟨g, served⟩)) := by
  refine ⟨_, absoluteUri_eq hplaced config.baseUri, fun request hmethod hrequest => ?_⟩
  obtain ⟨path, htarget, hmember⟩ := exists_path config hplaced
  have hsegment := hplaced.isSegment_collection name (List.mem_of_getLast? hname)
  have hfound : g.resources.find? (TypeGraph.isEndpoint name) = none :=
    List.find?_eq_none.mpr fun d hd => by rw [hnone d hd]; decide
  have hendpoint : endpointOf g collection = .error (.unknownType s!"no resource at '{name}'") := by
    rw [endpointOf, hname]
    dsimp only
    rw [TypeGraph.endpoint, Text.trimSlashes_of_isSegment hsegment, hfound]
  unfold answer
  simp only [hmethod, hrequest, ne_eq, not_true_eq_false, if_false, htarget, hmember]
  rw [Action.runOn_bind]
  simp only [World.ask, Action.look, Action.runOn_ofFunction, hendpoint]

/-! ## Combs of a hive -/

/-- A hive has combs with labels, and some of them are brood combs. -/
def apiary : Registry :=
  let hive : SourceType :=
    { SourceType.bare "Hive" .resource with
      properties := [.primaryId "Id" (.value .int32), .ofType "Combs" (.list (.named "Comb"))] }
  let comb : SourceType :=
    { SourceType.bare "Comb" .resource with
      parent := some ⟨"Hive", "Hive", "Combs"⟩
      properties := [.primaryId "Label" (.value .string), .ofType "Hive" (.named "Hive")] }
  let brood : SourceType := { SourceType.bare "BroodComb" .resource with base := some "Comb" }
  ((Registry.empty.withType hive).withType comb).withType brood

/-- The type of brood combs, after the value kinds. -/
def broodType : TypeId := ⟨ValueKind.all.length⟩

/-- The type of combs, which brood combs inherit from. -/
def combType : TypeId := ⟨ValueKind.all.length + 1⟩

/-- The type of hives. -/
def hiveType : TypeId := ⟨ValueKind.all.length + 2⟩

/-- A hive, a brood comb whose label a path cannot hold as it is, and a comb with a number on its label. -/
def twoCombs : Heap :=
  ⟨#[⟨hiveType, [("Id", .int 7)]⟩,
     ⟨broodType, [("Hive", .object ⟨0⟩), ("Label", .string "é/1?")]⟩,
     ⟨combType, [("Hive", .object ⟨0⟩), ("Label", .string "42")]⟩],
   #[]⟩

/-- The server of the hive and its combs, before the first request. -/
def beehive : Served :=
  ⟨⟨[(hiveType, [.object ⟨0⟩]), (combType, [.object ⟨1⟩, .object ⟨2⟩])]⟩, .empty 1⟩

theorem arises_apiary : apiary.graph.Arises :=
  Registry.arises_graph (((Registry.keyedByName_empty.withType _).withType _).withType _)
    (by decide +kernel)

theorem exists_comb : ∃ e p, apiary.graph.get combType = .ok e ∧ e.id = combType ∧
    p.name = "Label" ∧ IsAddressable apiary.graph e "combs" p := by
  have hcomb : (apiary.graph.table.get? combType).any (fun e => e.isResource &&
      TypeGraph.isEndpoint "combs" e && e.id == combType &&
        e.primaryId?.any fun p => p.isReadable && p.name == "Label") = true := by decide +kernel
  have hdistinct : apiary.graph.resources.all
      (fun d => !TypeGraph.isEndpoint "combs" d || d.id == combType) = true := by decide +kernel
  obtain ⟨e, he, hfacts⟩ := (Option.any_eq_true _ _).mp hcomb
  simp only [Bool.and_eq_true, beq_iff_eq] at hfacts
  obtain ⟨⟨⟨hresource, hpath⟩, hid⟩, hprimary⟩ := hfacts
  obtain ⟨p, hp, hprimary⟩ := (Option.any_eq_true _ _).mp hprimary
  simp only [Bool.and_eq_true, beq_iff_eq] at hprimary
  obtain ⟨hreadable, hname⟩ := hprimary
  refine ⟨e, p, TypeGraph.get_eq_ok.mpr he, hid, hname,
    { resource := List.mem_filter.mpr ⟨TypeGraph.mem_types he, hresource⟩
      path := hpath
      distinct := fun d hd hsame => ?_
      id := hp
      readable := hreadable
      identifier := by rw [hname]; decide
      word := by rw [hname]; decide }⟩
  have hd := List.all_eq_true.mp hdistinct d hd
  rw [hsame, Bool.not_true, Bool.false_or, beq_iff_eq] at hd
  exact hd.trans hid.symm

/-- Whether a value is the text `label`. -/
def isText (label : String) : Value → Bool
  | .string s => s == label
  | _ => false

/-- Each comb is the only one with its label. -/
theorem holds_comb {i : Nat} {label : String} (hi : (i, label) ∈ [(1, "é/1?"), (2, "42")]) :
    Holds apiary.graph twoCombs (beehive.repository.collection combType) "Label" ⟨i⟩ (.string label) := by
  have hcollection : beehive.repository.collection combType = [.object ⟨1⟩, .object ⟨2⟩] := rfl
  have hlabel : ∀ c ∈ [(1, "é/1?"), (2, "42")],
      (Repository.idOf apiary.graph twoCombs (.object ⟨c.1⟩)).any (isText c.2) = true := by
    decide +kernel
  have hother : ∀ c ∈ [(1, "é/1?"), (2, "42")], ∀ j ∈ [1, 2],
      Repository.hasId apiary.graph twoCombs (.string c.2) (.object ⟨j⟩) = true → j = c.1 := by
    decide +kernel
  have hcalled : ∀ j ∈ [1, 2], ((apiary.graph.table.get? (twoCombs.typeOf ⟨j⟩)).bind
      Descriptor.primaryId?).any (·.isNamed "Label") = true := by decide +kernel
  have hnumber : i ∈ [1, 2] := List.mem_map_of_mem (f := Prod.fst) hi
  rw [hcollection]
  have hitem : ∀ item : Value, item ∈ [Value.object ⟨1⟩, .object ⟨2⟩] →
      ∃ j ∈ [1, 2], item = .object ⟨j⟩ := by simp
  refine ⟨by simpa using hnumber, ?_, fun item hmem hid => ?_, fun item hmem => ?_⟩
  · obtain ⟨v, hv, hsame⟩ := (Option.any_eq_true _ _).mp (hlabel _ hi)
    cases v with
    | string s => rw [hv, eq_of_beq hsame, Literal.value]
    | _ => cases hsame
  · obtain ⟨j, hj, rfl⟩ := hitem item hmem
    rw [hother _ hi j hj hid]
  · obtain ⟨j, hj, rfl⟩ := hitem item hmem
    exact ⟨⟨j⟩, rfl, hcalled j hj⟩

theorem isPlaced_comb {e : Descriptor} (he : apiary.graph.get combType = .ok e) :
    apiary.graph.IsPlaced twoCombs TypeGraph.parentLimit e ⟨1⟩ ["hives", "7", "combs"] "%C3%A9%2F1%3F" ∧
      apiary.graph.IsPlaced twoCombs TypeGraph.parentLimit e ⟨2⟩ ["hives", "7", "combs"] "42" := by
  have hplaces : (apiary.graph.table.get? combType).all (fun e =>
      apiary.graph.place? twoCombs TypeGraph.parentLimit e ⟨1⟩ ==
          some (["hives", "7", "combs"], "%C3%A9%2F1%3F") &&
        apiary.graph.place? twoCombs TypeGraph.parentLimit e ⟨2⟩ == some (["hives", "7", "combs"], "42")) =
      true := by decide +kernel
  rw [TypeGraph.get_eq_ok.mp he, Option.all_some, Bool.and_eq_true, beq_iff_eq, beq_iff_eq] at hplaces
  exact ⟨TypeGraph.isPlaced_of_place? hplaces.1, TypeGraph.isPlaced_of_place? hplaces.2⟩

theorem broodComb_answered : ∃ e cache, apiary.graph.get combType = .ok e ∧
    apiary.graph.absoluteUri twoCombs "/" ⟨1⟩ = .ok "/hives/7/combs/%C3%A9%2F1%3F" ∧
      (answer .standard (.fetch "/hives/7/combs/%C3%A9%2F1%3F")).runOn (twoCombs, ⟨apiary.graph, beehive⟩) =
        (document apiary.graph twoCombs .standard e ⟨1⟩,
          (twoCombs, ⟨apiary.graph, { beehive with cache }⟩)) := by
  obtain ⟨e, p, hget, hid, hname, he⟩ := exists_comb
  have hcache : beehive.cache.IsFaithful .standard := ParseCache.isFaithful_empty _ _
  have hl : (Literal.string "é/1?").Identifies "é/1?" := .string _ (by decide)
  have htold : (Literal.string "é/1?").IsTold := by
    unfold Literal.IsTold
    decide +kernel
  have hheld := @holds_comb 1 "é/1?" (by decide)
  rw [← hid, ← hname] at hheld
  have hlength : ∀ query, memberQuery e "%C3%A9%2F1%3F" = .ok query →
      query.utf8ByteSize ≤ Config.standard.maxQueryLength := by
    have hsegment : "%C3%A9%2F1%3F" = Percent.encode Percent.keptInSegment "é/1?" := by decide +kernel
    rw [hsegment, memberQuery_eq he.id hl htold, hname]
    intro query hquery
    cases hquery
    decide +kernel
  obtain ⟨uri, huri, hanswer⟩ := answer_uri arises_apiary hcache (by decide) (isPlaced_comb hget).1 rfl he
    hl htold hheld hlength
  have htext : (apiary.graph.absoluteUri twoCombs "/" ⟨1⟩).toOption =
      some "/hives/7/combs/%C3%A9%2F1%3F" := by decide +kernel
  have hsame : uri = "/hives/7/combs/%C3%A9%2F1%3F" := by
    have hbase : Config.standard.baseUri = "/" := rfl
    rw [← hbase, huri] at htext
    exact Option.some.inj htext
  obtain ⟨cache, -, hrun, -⟩ := hanswer (.fetch uri) rfl rfl
  exact ⟨e, cache, hget, hsame ▸ huri, hsame ▸ hrun⟩

/-- **A label that is written like a number leads nowhere**, as it is taken for that number. -/
theorem numeral_not_found : ∃ e p, apiary.graph.get combType = .ok e ∧
    IsAddressable apiary.graph e "combs" p ∧
      apiary.graph.IsPlaced twoCombs TypeGraph.parentLimit e ⟨2⟩ ["hives", "7", "combs"] "42" ∧
      (Literal.string "42").Identifies "42" ∧
      Holds apiary.graph twoCombs (beehive.repository.collection e.id) p.name ⟨2⟩ (.string "42") ∧
      (apiary.graph.absoluteUri twoCombs "/" ⟨2⟩).toOption = some "/hives/7/combs/42" ∧
      (document apiary.graph twoCombs .standard e ⟨2⟩).isOk = true ∧
      ((respond .standard (.fetch "/hives/7/combs/42")).runOn
        (twoCombs, ⟨apiary.graph, beehive⟩)).1.toOption = some (.ofError .emptyResult) := by
  obtain ⟨e, p, hget, hid, hname, he⟩ := exists_comb
  have hheld := @holds_comb 2 "42" (by decide)
  rw [← hid, ← hname] at hheld
  have hwritten : ((⟨apiary.graph, twoCombs, "/", .none⟩ : Writer).write combType (.object ⟨2⟩)).isOk =
      true := by decide +kernel
  refine ⟨e, p, hget, he, (isPlaced_comb hget).2, .string _ (by decide), hheld, by decide +kernel, ?_,
    by decide +kernel⟩
  rw [document, hid]
  exact hwritten

end Server

end ResourceQuery
