import ResourceQuery.Client
import ResourceQuery.Proofs.Query.Caching
import ResourceQuery.Proofs.Query.Serving
import ResourceQuery.Proofs.Query.Transport
import ResourceQuery.Proofs.Type.Collections
import ResourceQuery.Proofs.Type.Naming

set_option autoImplicit false

/-! # The type of the items of an answer

A client decodes items as the type that its plan has (`Client.rowType`). The server does not get this type. It
makes one out from the collection that is at the path, from the name in `$oftype`, which is left out where the
type is that of the collection, and from whether anything is selected or grouped. The two are the same
(`Server.itemType_eq_rowType`) in a graph that tells its types and collections apart
(`TypeGraph.TellsApart`): then the path leads back to the type at the root of the collection, and the name
to the type that it is the name of.

Text that is trimmed on the way leads elsewhere: white space around the value of `$oftype`, and slashes around a
path (`Server.trimmed_told_otherwise`).
-/

namespace ResourceQuery

/-! ## What a query string tells of the type -/

namespace Parameters

variable {depth : Nat} {q q' : Parameters} {key value : String} {ps : List (String × String)}

/-- Whether the items are computed. -/
def isComputed (q : Parameters) : Bool :=
  q.groupBy.isSome || q.select.isSome

/-- The keys of what computes items. -/
def computing : List String := ["$groupby", "$select"]

/-- A value that is read is put somewhere. -/
theorem exists_of_map_eq_ok {α : Type} {read : Except Error α} {put : α → Parameters}
    (h : read.map put = .ok q') : ∃ a, put a = q' := by
  cases read with
  | error e => cases h
  | ok a => exact ⟨a, Except.ok.inj h⟩

/-- One more parameter decides on the type, or on whether items are computed, or leaves both as they are. -/
theorem type_of_set (h : q.set depth key value = .ok q') :
    q'.ofType = (if key = "$oftype" then some (Text.trim value) else q.ofType) ∧
      q'.isComputed = (q.isComputed || computing.contains key) := by
  unfold set at h
  split at h
  case h_1 =>
    cases h
    exact ⟨rfl, (Bool.or_false _).symm⟩
  case h_4 =>
    obtain ⟨l, rfl⟩ := exists_of_map_eq_ok h
    exact ⟨rfl, (Bool.or_true _).symm⟩
  case h_5 =>
    obtain ⟨l, rfl⟩ := exists_of_map_eq_ok h
    exact ⟨rfl, (Bool.or_true _).trans (Bool.or_true _).symm⟩
  case h_11 => cases h
  all_goals
    obtain ⟨a, rfl⟩ := exists_of_map_eq_ok h
    exact ⟨rfl, (Bool.or_false _).symm⟩

theorem isComputed_of_setAll (h : setAll depth q ps = .ok q') :
    q'.isComputed = (q.isComputed || ps.any fun part => computing.contains part.1) := by
  induction ps generalizing q with
  | nil =>
      cases h
      exact (Bool.or_false _).symm
  | cons part rest ih =>
      obtain ⟨between, hset, hrest⟩ := Expr.exists_of_bind_eq_ok (by rwa [setAll, List.foldlM_cons] at h)
      rw [ih hrest, (type_of_set hset).2, List.any_cons, Bool.or_assoc]

theorem ofType_of_setAll (h : setAll depth q ps = .ok q') (hnone : ps.any (·.1 == "$oftype") = false) :
    q'.ofType = q.ofType := by
  induction ps generalizing q with
  | nil =>
      cases h
      rfl
  | cons part rest ih =>
      rw [List.any_cons, Bool.or_eq_false_iff] at hnone
      obtain ⟨between, hset, hrest⟩ := Expr.exists_of_bind_eq_ok (by rwa [setAll, List.foldlM_cons] at h)
      rw [ih hrest hnone.2, (type_of_set hset).1, if_neg (beq_eq_false_iff_ne.mp hnone.1)]

end Parameters

namespace Plan

open Parameters

variable {g : TypeGraph} {p : Plan} {u : QueryUri} {ps : List (String × String)}

/-- A plan has a parameter for an optional part if it has the part. -/
theorem any_parameter {α : Type} {key : String} {text : α → Except Error String} {part : Option α}
    (f : String → Bool) (hps : parameter key text part = .ok ps) :
    ps.any (fun entry => f entry.1) = (part.isSome && f key) := by
  cases part with
  | none =>
      cases hps
      rfl
  | some a =>
      obtain ⟨value, -, hps⟩ := Expr.exists_of_bind_eq_ok hps
      cases hps
      exact Bool.or_false _

/-- No type is named only if it is that of the collection. -/
theorem elementType_of_namedType_none {d : Descriptor} {a : ResourceAddress}
    (hd : g.table.get? p.sourceType = some d) (ha : d.address? = some a) (hnamed : p.namedType g = .ok none) :
    p.elementType = a.uriBase := by
  unfold namedType at hnamed
  rw [TypeGraph.get_eq_ok.mpr hd] at hnamed
  simp only [bind, Except.bind, ha, Option.map_some, Option.getD_some] at hnamed
  split at hnamed
  · assumption
  · cases hconcrete : g.get p.elementType with
    | error fault =>
        rw [hconcrete] at hnamed
        cases hnamed
    | ok concrete =>
        rw [hconcrete] at hnamed
        cases hnamed

/-- What is read of the query string is what its parameters set. -/
theorem setAll_of_parse {config : Config} {q : Parameters} (huri : p.uri g = .ok u)
    (hparse : Parameters.parse config u.queryString = .ok q) :
    Parameters.setAll config.maxExpressionDepth .none u.parameters = .ok q := by
  have hlength : u.queryString.utf8ByteSize ≤ config.maxQueryLength := by
    by_contra hlong
    rw [Parameters.parse, if_pos (by omega)] at hparse
    cases hparse
  rwa [QueryUri.parse_queryString (keys_sublist huri) hlength] at hparse

theorem path_of_uri (huri : p.uri g = .ok u) : u.path = p.path := by
  iterate 7 obtain ⟨_, -, huri⟩ := Expr.exists_of_bind_eq_ok huri
  cases huri
  rfl

/-- The type stands first among the parameters, and whether items are computed is told by the others. -/
theorem exists_type_part (huri : p.uri g = .ok u) :
    ∃ named others, p.namedType g = .ok named ∧
      u.parameters = (named.map fun n => ("$oftype", n)).toList ++ others ∧
      others.any (·.1 == "$oftype") = false ∧
      others.any (fun part => computing.contains part.1) = (p.groupBy.isSome || p.select.isSome) := by
  obtain ⟨named, filter, order, group, select, skip, top, hnamed, hfilter, horder, hgroup, hselect, hskip,
    htop, hparameters⟩ := exists_parts huri
  have hall : ∀ f : String → Bool, (filter ++ (order ++ (group ++ (select ++ (skip ++ (top ++
      ((if p.expand.isEmpty then [] else [("$expand", expandText p.expand)]) ++
        ((if p.includeTotalCount then [("$totalcount", "true")] else []) ++
          (p.projection.wireName?.map fun name => ("$projection", name)).toList)))))))).any
        (fun entry => f entry.1) =
      (p.filter.isSome && f "$filter" || (p.orderBy.isSome && f "$orderby" || (p.groupBy.isSome && f "$groupby" ||
        (p.select.isSome && f "$select" || (p.skip.isSome && f "$skip" || (p.top?.isSome && f "$top" ||
          (!p.expand.isEmpty && f "$expand" || (p.includeTotalCount && f "$totalcount" ||
            p.projection.wireName?.isSome && f "$projection")))))))) := by
    intro f
    have hexpand : (if p.expand.isEmpty then [] else [("$expand", expandText p.expand)]).any
        (fun entry => f entry.1) = (!p.expand.isEmpty && f "$expand") := by
      cases p.expand.isEmpty with
      | true => rfl
      | false => exact Bool.or_false _
    have htotal : (if p.includeTotalCount then [("$totalcount", "true")] else []).any
        (fun entry => f entry.1) = (p.includeTotalCount && f "$totalcount") := by
      cases p.includeTotalCount with
      | true => exact Bool.or_false _
      | false => rfl
    have hprojection : (p.projection.wireName?.map fun name => ("$projection", name)).toList.any
        (fun entry => f entry.1) = (p.projection.wireName?.isSome && f "$projection") := by
      cases p.projection.wireName? with
      | none => rfl
      | some name => exact Bool.or_false _
    simp only [List.any_append, any_parameter f hfilter, any_parameter f horder, any_parameter f hgroup,
      any_parameter f hselect, any_parameter f hskip, any_parameter f htop, hexpand, htotal, hprojection]
  refine ⟨named, _, hnamed, hparameters, ?_, ?_⟩
  · rw [hall (· == "$oftype")]
    simp
  · rw [hall computing.contains]
    simp [computing]

/-- What is read of a plan's query string is the type that the plan names, and whether it computes items. -/
theorem type_of_setAll {depth : Nat} {q : Parameters} (huri : p.uri g = .ok u)
    (hset : Parameters.setAll depth .none u.parameters = .ok q) :
    ∃ named, p.namedType g = .ok named ∧ q.ofType = named.map Text.trim ∧
      q.isComputed = (p.groupBy.isSome || p.select.isSome) := by
  obtain ⟨named, others, hnamed, hparameters, hno, hcomputed⟩ := exists_type_part huri
  rw [hparameters] at hset
  refine ⟨named, hnamed, ?_, ?_⟩
  · rw [setAll_append] at hset
    obtain ⟨between, hfirst, hset⟩ := Expr.exists_of_bind_eq_ok hset
    rw [ofType_of_setAll hset hno]
    cases named with
    | none =>
        cases hfirst
        rfl
    | some name =>
        cases hfirst
        rfl
  · rw [isComputed_of_setAll hset, List.any_append, hcomputed]
    cases named with
    | none => rfl
    | some name => rfl

end Plan

/-! ## The type that a server makes out -/

namespace PreparedQuery

variable {g g' : TypeGraph} {address : ResourceAddress} {endpoint : Descriptor} {element : TypeId}
  {q : Parameters} {prepared : PreparedQuery}

theorem isSome_of_lambda {input : StaticType} {l l' : Option Lambda} (h : lambda g input l = .ok l') :
    l'.isSome = l.isSome := by
  cases l with
  | none =>
      cases h
      rfl
  | some l =>
      cases hcompiled : l.compile g input with
      | error e =>
          rw [lambda, hcompiled] at h
          cases h
      | ok compiled =>
          rw [lambda, hcompiled] at h
          cases h
          rfl

theorem isSome_of_grouping {key key' : Option Lambda} {row : StaticType}
    (h : grouping g element key = .ok (key', row)) : key'.isSome = key.isSome := by
  cases key with
  | none =>
      cases h
      rfl
  | some l =>
      cases hcompiled : l.compile g (.mapped element) with
      | error e =>
          rw [grouping, hcompiled] at h
          cases h
      | ok compiled =>
          rw [grouping, hcompiled] at h
          cases h
          rfl

theorem itemType_of_ofElement (h : ofElement g address element q = .ok prepared) :
    prepared.itemType = if q.isComputed then TypeGraph.valueType .any else element := by
  obtain ⟨filter, -, h⟩ := Expr.exists_of_bind_eq_ok h
  obtain ⟨⟨groupBy, row⟩, hgroupBy, h⟩ := Expr.exists_of_bind_eq_ok h
  obtain ⟨orderBy, -, h⟩ := Expr.exists_of_bind_eq_ok h
  obtain ⟨select, hselect, h⟩ := Expr.exists_of_bind_eq_ok h
  obtain ⟨expand, -, h⟩ := Expr.exists_of_bind_eq_ok h
  cases h
  dsimp only
  rw [Parameters.isComputed, isSome_of_lambda hselect, isSome_of_grouping hgroupBy, Bool.or_comm]

/-- The rows are instances of the collection's type, or of a narrower one that is named. -/
theorem exists_ofElement_of_prepare (h : prepare g endpoint q = (.ok prepared, g')) :
    ∃ address element, endpoint.address? = some address ∧ ofElement g' address element q = .ok prepared ∧
      ((q.ofType = none ∧ element = endpoint.id ∧ g' = g) ∨
        ∃ name d, q.ofType = some name ∧ g.byName name = (.ok d, g') ∧ element = d.id ∧
          g'.isAssignable endpoint.id d.id = true) := by
  unfold prepare Descriptor.requireResource at h
  cases haddress : endpoint.address? with
  | none =>
      rw [haddress] at h
      cases h
  | some address =>
      rw [haddress] at h
      dsimp only at h
      cases htype : q.ofType with
      | none =>
          rw [htype] at h
          obtain ⟨hprepared, rfl⟩ := Prod.mk.inj h
          exact ⟨address, _, rfl, hprepared, .inl ⟨rfl, rfl, rfl⟩⟩
      | some name =>
          rw [htype] at h
          dsimp only at h
          cases hname : g.byName name with
          | mk outcome between =>
              rw [hname] at h
              cases outcome with
              | error e => cases h
              | ok d =>
                  dsimp only at h
                  split at h
                  · rename_i hassignable
                    obtain ⟨hprepared, rfl⟩ := Prod.mk.inj h
                    exact ⟨address, _, rfl, hprepared, .inr ⟨name, d, rfl, hname, rfl, hassignable⟩⟩
                  · cases h

theorem exists_element_of_prepare (h : prepare g endpoint q = (.ok prepared, g')) :
    ∃ element, prepared.itemType = (if q.isComputed then TypeGraph.valueType .any else element) ∧
      ((q.ofType = none ∧ element = endpoint.id) ∨
        ∃ name d, q.ofType = some name ∧ (g.byName name).1 = .ok d ∧ element = d.id) := by
  obtain ⟨address, element, -, hprepared, helement⟩ := exists_ofElement_of_prepare h
  refine ⟨element, itemType_of_ofElement hprepared, ?_⟩
  rcases helement with ⟨hnone, hsame, -⟩ | ⟨name, d, hsome, hname, hsame, -⟩
  · exact .inl ⟨hnone, hsame⟩
  · exact .inr ⟨name, d, hsome, by rw [hname], hsame⟩

end PreparedQuery

theorem Reply.exists_of_ofParameters {g g' : TypeGraph} {h : Heap} {config : Config} {endpoint : Descriptor}
    {items : List Value} {q : Parameters} {reply : Reply}
    (hreply : ofParameters g h config endpoint items q = (.ok reply, g')) :
    ∃ prepared, PreparedQuery.prepare g endpoint q = (.ok prepared, g') ∧ reply.itemType = prepared.itemType ∧
      reply.expand = prepared.expand := by
  unfold ofParameters at hreply
  cases hprepared : PreparedQuery.prepare g endpoint q with
  | mk outcome between =>
      rw [hprepared] at hreply
      cases outcome with
      | error e => cases hreply
      | ok prepared =>
          dsimp only at hreply
          cases hrun : prepared.run between h config q items with
          | error e =>
              rw [hrun] at hreply
              cases hreply
          | ok answer =>
              rw [hrun] at hreply
              cases hreply
              exact ⟨prepared, rfl, rfl, rfl⟩

/-- The URL of a listing changes nothing else. -/
theorem Reply.parts_located (r : Reply) (endpoint : Descriptor) (query : String) :
    (r.located endpoint query).itemType = r.itemType ∧ (r.located endpoint query).expand = r.expand := by
  unfold located
  cases r.answer with
  | value v => exact ⟨rfl, rfl⟩
  | listing l => exact ⟨rfl, rfl⟩

/-! ## Types and collections told apart -/

namespace TypeGraph

variable {g g₀ g₁ : TypeGraph}

/-- Names of types differ by more than case, and so do the paths of collections; which collection a type belongs
to follows from what it inherits. -/
structure TellsApart (g : TypeGraph) : Prop where
  types : ∀ d ∈ g.types, ∀ e ∈ g.types, Text.asciiLower d.name = Text.asciiLower e.name → d.id = e.id
  collections : ∀ d ∈ g.types, ∀ e ∈ g.types, ∀ a ∈ e.address?, a.uriBase = e.id →
    isEndpoint a.relativePath d = true → d.id = e.id
  enums : g.registry.KeepsEnumsApart
  bases : g.registry.DeclaresNoBase

/-- The path of a collection leads back to the type at its root. -/
theorem TellsApart.endpoint_id (hg : g.Arises) (hapart : g.TellsApart) {id : TypeId} {root e : Descriptor}
    {b : ResourceAddress} (hroot : g.table.get? id = some root) (hb : root.address? = some b) (hbase : b.uriBase = id)
    (hpath : Text.trimSlashes b.relativePath = b.relativePath) (he : g.endpoint b.relativePath = .ok e) :
    e.id = id := by
  have hid : root.id = id := hg.sound.id id root hroot
  unfold endpoint at he
  rw [hpath] at he
  dsimp only at he
  cases hfound : g.resources.find? (isEndpoint b.relativePath) with
  | none =>
      rw [hfound] at he
      cases he
  | some d =>
      rw [hfound] at he
      have hmem : d ∈ g.types := (List.mem_filter.mp (List.mem_of_find?_eq_some hfound)).1
      rw [← Except.ok.inj he]
      exact (hapart.collections d hmem root (mem_types hroot) b hb (hbase.trans hid.symm)
        (List.find?_some hfound)).trans hid

end TypeGraph

namespace Query

variable {g₀ g₁ : TypeGraph} {typeName : String} {q : Query}

/-- A query over a type starts from its collection. -/
theorem exists_of_onType (hg : g₀.Arises) (h : onType g₀ typeName = (.ok q, g₁)) :
    g₀.GrowsTo g₁ ∧ ∃ d a root, g₁.table.get? q.elementType = some d ∧ d.address? = some a ∧
      g₁.table.get? a.uriBase = some root ∧ q.path = (root.address?.map (·.relativePath)).getD a.relativePath := by
  have hgrows := TypeGraph.growsTo_byName g₀ typeName
  have hstands := @TypeGraph.exists_of_byName g₀ typeName
  unfold onType at h
  cases hname : g₀.byName typeName with
  | mk outcome between =>
      rw [hname] at h hgrows hstands
      cases outcome with
      | error e => cases h
      | ok d =>
          obtain ⟨id, hd⟩ := hstands rfl
          dsimp only at h hgrows hd
          obtain ⟨hsource, rfl⟩ := Prod.mk.inj h
          obtain ⟨a, ha, hsource⟩ := Expr.exists_of_bind_eq_ok hsource
          obtain ⟨root, hroot, hsource⟩ := Expr.exists_of_bind_eq_ok hsource
          cases hsource
          have hid : d.id = id := (hg.grow hgrows).sound.id id d hd
          exact ⟨hgrows, d, a, root, hid ▸ hd, TypeGraph.requireResource_eq_ok.mp ha, TypeGraph.get_eq_ok.mp hroot, rfl⟩

end Query

namespace Server

variable {g₀ g₁ g : TypeGraph} {h : Heap} {config : Config} {served : Served} {e : Descriptor}
  {scope : TypeGraph → Heap → Value → Bool} {query typeName : String} {reply : Reply}
  {s : Heap × Surroundings Served} {q : Query} {operators : List Operator} {p : Plan} {u : QueryUri}

/-- What is read of the query string decides on the type of the items and on what is expanded. -/
theorem exists_prepared_of_interpret (hcache : served.cache.IsFaithful config)
    (hreply : (interpret config e scope query).runOn (h, ⟨g, served⟩) = (.ok reply, s)) :
    ∃ q prepared, Parameters.parse config query = .ok q ∧
      PreparedQuery.prepare g e q = (.ok prepared, s.2.graph) ∧ s.1 = h ∧
      reply.itemType = prepared.itemType ∧ reply.expand = prepared.expand := by
  have hfirst : (parameters config query).runOn (h, ⟨g, served⟩) =
      (Parameters.parse config query,
        (h, ⟨g, { served with cache := (served.cache.parse hash config query).2 }⟩)) := by
    rw [← hcache.parse_eq hash query]
    rfl
  rw [interpret, Action.runOn_bind, hfirst] at hreply
  cases hparse : Parameters.parse config query with
  | error fault =>
      rw [hparse] at hreply
      cases hreply
  | ok q =>
      rw [hparse] at hreply
      dsimp only at hreply
      rw [Action.runOn_bind] at hreply
      simp only [World.outside, Action.runOn_ofFunction] at hreply
      rw [Action.runOn_bind] at hreply
      simp only [World.resolving, Action.runOn_ofFunction] at hreply
      generalize hanswer : Reply.ofParameters g h config e _ q = outcome at hreply
      obtain ⟨outcome, g'⟩ := outcome
      cases outcome with
      | error fault => cases hreply
      | ok answered =>
          obtain ⟨prepared, hprepared, htype, hexpand⟩ := Reply.exists_of_ofParameters hanswer
          obtain ⟨hsameType, hsameExpand⟩ := answered.parts_located e query
          cases hreply
          exact ⟨q, prepared, rfl, hprepared, rfl, hsameType.trans htype, hsameExpand.trans hexpand⟩

/-- The type of the items is worked out from what is read of the query string. -/
theorem exists_of_interpret (hcache : served.cache.IsFaithful config)
    (hreply : (interpret config e scope query).runOn (h, ⟨g, served⟩) = (.ok reply, s)) :
    ∃ q prepared g', Parameters.parse config query = .ok q ∧
      PreparedQuery.prepare g e q = (.ok prepared, g') ∧ reply.itemType = prepared.itemType := by
  obtain ⟨q, prepared, hparse, hprepared, -, htype, -⟩ := exists_prepared_of_interpret hcache hreply
  exact ⟨q, prepared, _, hparse, hprepared, htype⟩

/-- **Client and server agree on the type of the items.** Let a query start from the type called `typeName`, of
whose plan there is a URI. Where the server finds a collection at the path and answers the query string, the
items are of the type that the client decodes them with, in a graph that tells types and collections apart.
The path must not start or end with a slash, nor the name of the plan's type with white space. -/
theorem itemType_eq_rowType (hg : g₀.Arises) (hover : Query.onType g₀ typeName = (.ok q, g₁))
    (hgrows : g₁.GrowsTo g) (hapart : g.TellsApart)
    (hplan : ({ q with operators } : Query).plan = .ok p) (huri : p.uri g = .ok u)
    (hpath : Text.trimSlashes u.path = u.path)
    (hname : ∀ d, g.get p.elementType = .ok d → Text.trim d.name = d.name)
    (hendpoint : g.endpoint u.path = .ok e) (hcache : served.cache.IsFaithful config)
    (hreply : (interpret config e scope u.queryString).runOn (h, ⟨g, served⟩) = (.ok reply, s)) :
    reply.itemType = Client.rowType p := by
  obtain ⟨hstart, d, a, root, hd, ha, hroot, hq⟩ := Query.exists_of_onType hg hover
  have hgraph : g.Arises := hg.grow (hstart.trans hgrows)
  obtain ⟨hsource, hplanPath⟩ := Query.source_of_plan hplan
  -- the path leads to the type at the root of the collection
  have hd : g.table.get? p.sourceType = some d := hsource ▸ hgrows.extends.get? hd
  have hroot := hgrows.extends.get? hroot
  obtain ⟨root', b, hroot', hb, hbase⟩ := hgraph.exists_root hapart.enums hapart.bases hd ha
  obtain rfl : root = root' := Option.some.inj (hroot.symm.trans hroot')
  have hpathRoot : u.path = b.relativePath := by
    rw [Plan.path_of_uri huri, hplanPath, hq, hb, Option.map_some, Option.getD_some]
  have he : e.id = a.uriBase :=
    hapart.endpoint_id hgraph hroot hb hbase (hpathRoot ▸ hpath) (hpathRoot ▸ hendpoint)
  -- the query string tells the plan's type, and whether items are computed
  obtain ⟨read, prepared, g', hparse, hprepared, htype⟩ := exists_of_interpret hcache hreply
  have hlength : u.queryString.utf8ByteSize ≤ config.maxQueryLength := by
    by_contra hlong
    rw [Parameters.parse, if_pos (by omega)] at hparse
    cases hparse
  rw [QueryUri.parse_queryString (Plan.keys_sublist huri) hlength] at hparse
  obtain ⟨named, hnamed, hofType, hcomputed⟩ := Plan.type_of_setAll huri hparse
  obtain ⟨element, hitem, helement⟩ := PreparedQuery.exists_element_of_prepare hprepared
  have hsame : element = p.elementType := by
    cases named with
    | none =>
        rw [Plan.elementType_of_namedType_none hd ha hnamed, ← he]
        rcases helement with ⟨-, hcollected⟩ | ⟨name, narrowed, hsome, -⟩
        · exact hcollected
        · rw [hofType] at hsome
          cases hsome
    | some name =>
        obtain ⟨concrete, hconcrete, rfl⟩ := Plan.exists_of_namedType hnamed
        rw [hofType, Option.map_some, hname concrete hconcrete] at helement
        have hget := TypeGraph.get_eq_ok.mp hconcrete
        rcases helement with ⟨hnone, -⟩ | ⟨name, narrowed, hsome, hleads, hnarrowed⟩
        · cases hnone
        · -- the name leads to the type that it is the name of
          rw [← Option.some.inj hsome, hgraph.byName_of_distinct hapart.types hget] at hleads
          rw [hnarrowed, ← Except.ok.inj hleads]
          exact hgraph.sound.id _ _ hget
  rw [htype, hitem, hcomputed, hsame, Client.rowType, Bool.or_comm]

/-! ## Hats and caps -/

/-- Hats are critters, and so are hats with a blank before their name; next to caps there are caps with a slash
before theirs. -/
def wardrobe : Registry :=
  let id : PropertyDef := .primaryId "Id" (.value .int32)
  let root (name : String) : SourceType := { SourceType.bare name .resource with properties := [id] }
  let critter (name : String) : SourceType := { SourceType.bare name .resource with base := some "Critter" }
  ((((Registry.empty.withType (root "Critter")).withType (critter "Hat")).withType (critter " Hat")).withType
    (root "Cap")).withType (root "/Cap")

/-- A server without objects, before the first request. -/
def emptyServer : Served := ⟨.empty, .empty 1⟩

theorem arises_wardrobe : wardrobe.graph.Arises :=
  Registry.arises_graph
    (((((Registry.keyedByName_empty.withType _).withType _).withType _).withType _).withType _) (by decide +kernel)

theorem tellsApart_wardrobe : wardrobe.graph.TellsApart where
  types := by decide +kernel
  collections := by decide +kernel
  enums := by
    unfold Registry.KeepsEnumsApart
    decide +kernel
  bases := by
    unfold Registry.DeclaresNoBase
    decide +kernel

/-- What comes of a query over a type: its URI, the type of the items that a server answers with, and the type that
the client decodes them with. -/
def exchange (g : TypeGraph) (typeName : String) (operators : List Operator) :
    Except Error (String × TypeId × TypeId) := do
  let q ← (Query.onType g typeName).1
  let p ← ({ q with operators } : Query).plan
  let u ← p.uri g
  let e ← g.endpoint u.path
  let reply ← ((interpret .standard e everything u.queryString).runOn (.empty, ⟨g, emptyServer⟩)).1
  pure (u.text, reply.itemType, Client.rowType p)

/-- The query, its plan and URI, the collection and the reply that an exchange went through. -/
theorem exists_of_exchange {told : String × TypeId × TypeId → Bool}
    (h : (exchange g typeName operators).toOption.any told = true)
    (hknown : (g.table.byName.lookup (Text.asciiLower typeName)).isSome = true) :
    ∃ q p u e reply s, Query.onType g typeName = (.ok q, g) ∧ ({ q with operators } : Query).plan = .ok p ∧
      p.uri g = .ok u ∧ g.endpoint u.path = .ok e ∧
      (interpret .standard e everything u.queryString).runOn (.empty, ⟨g, emptyServer⟩) = (.ok reply, s) ∧
      told (u.text, reply.itemType, Client.rowType p) = true := by
  obtain ⟨answer, hanswer, htold⟩ := (Option.any_eq_true _ _).mp h
  have hsame : (Query.onType g typeName).2 = g := by
    obtain ⟨id, hid⟩ := Option.isSome_iff_exists.mp hknown
    unfold Query.onType TypeGraph.byName TypeGraph.byNameWithin
    rw [hid]
    dsimp only
    cases g.get id with
    | error fault => rfl
    | ok d => rfl
  cases hexchange : exchange g typeName operators with
  | error fault =>
      rw [hexchange] at hanswer
      cases hanswer
  | ok answered =>
      rw [hexchange] at hanswer
      cases hanswer
      obtain ⟨q, hq, hexchange⟩ := Expr.exists_of_bind_eq_ok hexchange
      obtain ⟨p, hplan, hexchange⟩ := Expr.exists_of_bind_eq_ok hexchange
      obtain ⟨u, huri, hexchange⟩ := Expr.exists_of_bind_eq_ok hexchange
      obtain ⟨e, he, hexchange⟩ := Expr.exists_of_bind_eq_ok hexchange
      obtain ⟨reply, hreply, hexchange⟩ := Expr.exists_of_bind_eq_ok hexchange
      cases hexchange
      exact ⟨q, p, u, e, reply, _, Prod.ext hq hsame, hplan, huri, he, Prod.ext hreply rfl, htold⟩

/-- The hats with a number above three, counted. -/
def manyHats : List Operator :=
  [.where_ ⟨"p", .binary .gt (.member (.param "p") "Id") (.constant (.int 3))⟩, .includeTotalCount]

/-- Hats are asked for as a type of critters, and decoded as hats. -/
theorem hats_decoded : ∃ q p u e reply s, Query.onType wardrobe.graph "Hat" = (.ok q, wardrobe.graph) ∧
    ({ q with operators := manyHats } : Query).plan = .ok p ∧ p.uri wardrobe.graph = .ok u ∧
    u.text = "critters?$oftype=Hat&$filter=Id%20gt%203&$totalcount=true" ∧
    wardrobe.graph.endpoint u.path = .ok e ∧
    (interpret .standard e everything u.queryString).runOn (.empty, ⟨wardrobe.graph, emptyServer⟩) =
      (.ok reply, s) ∧
    reply.itemType = Client.rowType p := by
  have hexchange : (exchange wardrobe.graph "Hat" manyHats).toOption.any
      (fun told => told.1 == "critters?$oftype=Hat&$filter=Id%20gt%203&$totalcount=true") = true := by
    decide +kernel
  have htrimmed : ((Query.onType wardrobe.graph "Hat").1.toOption.bind fun q =>
      ({ q with operators := manyHats } : Query).plan.toOption).all (fun p =>
        Text.trimSlashes p.path == p.path &&
          (wardrobe.graph.get p.elementType).toOption.all fun d => Text.trim d.name == d.name) = true := by
    decide +kernel
  obtain ⟨q, p, u, e, reply, s, hover, hplan, huri, he, hreply, htext⟩ :=
    exists_of_exchange hexchange (by decide +kernel)
  rw [hover] at htrimmed
  simp only [Except.toOption, Option.bind_some, hplan, Option.all_some, Bool.and_eq_true, beq_iff_eq] at htrimmed
  obtain ⟨hpath, hnames⟩ := htrimmed
  have hname : ∀ d, wardrobe.graph.get p.elementType = .ok d → Text.trim d.name = d.name := by
    intro d hd
    rw [hd] at hnames
    exact eq_of_beq hnames
  refine ⟨q, p, u, e, reply, s, hover, hplan, huri, eq_of_beq htext, he, hreply, ?_⟩
  exact itemType_eq_rowType arises_wardrobe hover .refl tellsApart_wardrobe hplan huri
    (by rw [Plan.path_of_uri huri, hpath]) hname he (ParseCache.isFaithful_empty _ _) hreply

/-- **What is trimmed on the way is told otherwise.** Types and collections are told apart, and still the hats with
a blank before their name are answered as hats, and the caps with a slash before theirs as caps: the value of
`$oftype` is read without the white space around it, and a path without the slashes around it. -/
theorem trimmed_told_otherwise : wardrobe.graph.Arises ∧ wardrobe.graph.TellsApart ∧
    ∀ asked ∈ [(" Hat", [], "critters?$oftype=%20Hat"),
        ("/Cap", [Operator.terminal .count none], "/caps?$projection=count")],
      ∃ q p u e reply s, Query.onType wardrobe.graph asked.1 = (.ok q, wardrobe.graph) ∧
        ({ q with operators := asked.2.1 } : Query).plan = .ok p ∧ p.uri wardrobe.graph = .ok u ∧
        u.text = asked.2.2 ∧ wardrobe.graph.endpoint u.path = .ok e ∧
        (interpret .standard e everything u.queryString).runOn (.empty, ⟨wardrobe.graph, emptyServer⟩) =
          (.ok reply, s) ∧
        reply.itemType ≠ Client.rowType p := by
  have hexchanges : ∀ asked ∈ [(" Hat", [], "critters?$oftype=%20Hat"),
      ("/Cap", [Operator.terminal .count none], "/caps?$projection=count")],
      (wardrobe.graph.table.byName.lookup (Text.asciiLower asked.1)).isSome = true ∧
        (exchange wardrobe.graph asked.1 asked.2.1).toOption.any
          (fun told => told.1 == asked.2.2 && told.2.1 != told.2.2) = true := by
    decide +kernel
  refine ⟨arises_wardrobe, tellsApart_wardrobe, fun asked hasked => ?_⟩
  obtain ⟨hknown, hexchange⟩ := hexchanges asked hasked
  obtain ⟨q, p, u, e, reply, s, hover, hplan, huri, he, hreply, hdiffer⟩ :=
    exists_of_exchange hexchange hknown
  rw [Bool.and_eq_true, beq_iff_eq, bne_iff_ne] at hdiffer
  exact ⟨q, p, u, e, reply, s, hover, hplan, huri, hdiffer.1, he, hreply, hdiffer.2⟩

end Server

end ResourceQuery
