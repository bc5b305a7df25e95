import ResourceQuery.Proofs.Query.ItemTypes
import ResourceQuery.Proofs.Type.Assignability

set_option autoImplicit false

/-! # Restrictions to types

A chain may restrict its rows to a type more than once, and it starts from a type. A plan has one place for
all of these types, and keeps the last one (`Query.elementType_of_plan`). A server gets its name, or no name at
all if it is the type of the collection, and then goes on with the instances of that type only
(`PreparedQuery.run_eq_filter`).

So no more is known of what is left than that it is an instance of the last type. That is enough exactly if
the last type can be assigned to all the others (`Server.keepsOnly_iff`). Otherwise a restriction is lost, and
a wider one behind it gives back rows that were left out before (`Server.restriction_lost`).
-/

namespace ResourceQuery

/-! ## The types of a chain -/

/-- The type that an operator restricts the rows to. -/
def Operator.restriction? : Operator → Option TypeId
  | .ofType type => some type
  | _ => none

/-- The type that a query starts from, and those that it is restricted to after that. -/
def Query.types (q : Query) : List TypeId :=
  q.elementType :: q.operators.filterMap Operator.restriction?

namespace Plan

variable {p p' : Plan}

theorem elementType_of_add {op : Operator} (hadd : p.add op = .ok p') :
    p'.elementType = op.restriction?.getD p.elementType := by
  cases op with
  | where_ l =>
      obtain ⟨-, -, rfl⟩ := of_addFilter hadd
      rfl
  | select l =>
      cases hadd
      rfl
  | orderBy key =>
      obtain ⟨-, rfl⟩ := of_addOrder hadd
      rfl
  | groupBy key =>
      obtain ⟨-, -, -, -, rfl⟩ := of_addGrouping hadd
      rfl
  | skip count =>
      obtain ⟨-, -, rfl⟩ := of_addSkip hadd
      rfl
  | take count =>
      obtain ⟨-, -, rfl⟩ := of_addTake hadd
      rfl
  | ofType type =>
      obtain ⟨-, -, -, rfl⟩ := of_addType hadd
      rfl
  | expand path =>
      obtain ⟨-, -, -, expand, rfl, -⟩ := of_addExpand hadd
      rfl
  | includeTotalCount =>
      cases hadd
      rfl
  | terminal projection argument =>
      cases hadd
      rfl

/-- The last restriction decides on the type. -/
theorem Adds.elementType {ops : List Operator} (ha : Adds p ops p') :
    p'.elementType = (ops.filterMap Operator.restriction?).getLastD p.elementType := by
  induction ops generalizing p with
  | nil =>
      obtain rfl : p = p' := ha
      rfl
  | cons op rest ih =>
      obtain ⟨between, hadd, ha⟩ := ha
      rw [ih ha, elementType_of_add hadd, List.filterMap_cons]
      cases op.restriction? with
      | none => rfl
      | some type => exact List.getLastD_cons.symm

end Plan

/-- The argument of a projection is no restriction to a type. -/
theorem Operator.filterMap_restriction_steps (op : Operator) :
    op.steps.filterMap Operator.restriction? = op.restriction?.toList := by
  cases op with
  | terminal projection argument =>
      cases argument with
      | none => rfl
      | some l =>
          rw [steps]
          split <;> rfl
  | _ => rfl

/-- **A plan has the last type of its chain.** -/
theorem Query.elementType_of_plan {q : Query} {p : Plan} (hplan : q.plan = .ok p) :
    p.elementType = q.types.getLast (List.cons_ne_nil _ _) := by
  rw [(adds_of_plan hplan).elementType, List.filterMap_flatMap]
  simp only [Operator.filterMap_restriction_steps]
  rw [← List.filterMap_eq_flatMap_toList]
  exact (List.getLast_eq_getLastD (List.cons_ne_nil _ _)).symm

/-! ## What a server goes on with -/

namespace PreparedQuery

variable {g g' : TypeGraph} {h : Heap} {config : Config} {endpoint : Descriptor} {q : Parameters}
  {prepared : PreparedQuery}

/-- Whether an object of the collection is a row. -/
def admits (p : PreparedQuery) (g : TypeGraph) (h : Heap) (item : Value) : Bool :=
  !p.narrow || Rows.isInstance g h p.element item

/-- What is no row has no part in the answer. -/
theorem run_eq_filter (p : PreparedQuery) (g : TypeGraph) (h : Heap) (config : Config) (q : Parameters)
    (items : List Value) :
    p.run g h config q items =
      ({ p with narrow := false } : PreparedQuery).run g h config q (items.filter (p.admits g h)) := by
  have hrows : (if p.narrow then Rows.ofType g h p.element items else items) =
      items.filter (p.admits g h) := by
    unfold admits
    cases p.narrow with
    | true => rfl
    | false => exact (List.filter_eq_self.2 fun _ _ => rfl).symm
  rw [run, hrows]
  rfl

theorem element_of_ofElement {address : ResourceAddress} {element : TypeId}
    (hofElement : ofElement g address element q = .ok prepared) :
    prepared.element = element ∧ prepared.narrow = decide (element ≠ address.uriBase) := by
  obtain ⟨filter, -, hofElement⟩ := Expr.exists_of_bind_eq_ok hofElement
  obtain ⟨⟨groupBy, row⟩, -, hofElement⟩ := Expr.exists_of_bind_eq_ok hofElement
  obtain ⟨orderBy, -, hofElement⟩ := Expr.exists_of_bind_eq_ok hofElement
  obtain ⟨select, -, hofElement⟩ := Expr.exists_of_bind_eq_ok hofElement
  obtain ⟨expand, -, hofElement⟩ := Expr.exists_of_bind_eq_ok hofElement
  cases hofElement
  exact ⟨rfl, rfl⟩

/-- The rows are instances of the collection's type, or of a narrower one that is named. -/
theorem admits_of_prepare (hprepare : prepare g endpoint q = (.ok prepared, g')) :
    ∃ address, endpoint.address? = some address ∧
      prepared.narrow = decide (prepared.element ≠ address.uriBase) ∧
      ((q.ofType = none ∧ prepared.element = endpoint.id ∧ g' = g) ∨
        ∃ name d, q.ofType = some name ∧ g.byName name = (.ok d, g') ∧ prepared.element = d.id ∧
          g'.isAssignable endpoint.id d.id = true) := by
  obtain ⟨address, element, haddress, hofElement, hread⟩ := exists_ofElement_of_prepare hprepare
  obtain ⟨rfl, hnarrow⟩ := element_of_ofElement hofElement
  exact ⟨address, haddress, hnarrow, hread⟩

/-- The objects of a collection that are rows are instances of all of `types`, in every heap. -/
def KeepsOnly (g : TypeGraph) (endpoint : Descriptor) (p : PreparedQuery) (types : List TypeId) : Prop :=
  ∀ h item, Rows.isInstance g h endpoint.id item = true → p.admits g h item = true →
    ∀ type ∈ types, Rows.isInstance g h type item = true

end PreparedQuery

/-- What is an instance of a type is one of any type that this can be assigned to. -/
theorem Rows.isInstance_of_isAssignable {g : TypeGraph} {h : Heap} {target type : TypeId} {item : Value}
    (hassignable : g.isAssignable target type = true) (hitem : isInstance g h type item = true) :
    isInstance g h target item = true := by
  cases item with
  | object id => exact TypeGraph.isAssignable_trans hassignable hitem
  | _ => cases hitem

namespace Server

variable {g₀ g₁ g g' : TypeGraph} {config : Config} {e : Descriptor} {typeName : String} {q : Query}
  {operators : List Operator} {p : Plan} {u : QueryUri} {read : Parameters} {prepared : PreparedQuery}

theorem uriBase_of_endpoint {path : String} {a : ResourceAddress} (hendpoint : g.endpoint path = .ok e)
    (ha : e.address? = some a) : a.uriBase = e.id := by
  unfold TypeGraph.endpoint at hendpoint
  dsimp only at hendpoint
  split at hendpoint
  · rename_i d hfound
    cases hendpoint
    have hat := List.find?_some hfound
    rw [TypeGraph.isEndpoint, ha, Option.any_some, Bool.and_eq_true] at hat
    exact eq_of_beq hat.1
  · cases hendpoint

/-- The rows that a server goes on with are the instances of the plan's type. -/
theorem element_of_uri (hg : g₀.Arises) (hover : Query.onType g₀ typeName = (.ok q, g₁))
    (hgrows : g₁.GrowsTo g) (hapart : g.TellsApart)
    (hplan : ({ q with operators } : Query).plan = .ok p) (huri : p.uri g = .ok u)
    (hpath : Text.trimSlashes u.path = u.path)
    (hname : ∀ d, g.get p.elementType = .ok d → Text.trim d.name = d.name)
    (hendpoint : g.endpoint u.path = .ok e) (hparse : Parameters.parse config u.queryString = .ok read)
    (hprepared : PreparedQuery.prepare g e read = (.ok prepared, g')) :
    g' = g ∧ prepared.element = p.elementType ∧ prepared.narrow = decide (p.elementType ≠ e.id) ∧
      g.isAssignable e.id p.elementType = true := by
  obtain ⟨hstart, d, a, root, hd, ha, hroot, hq⟩ := Query.exists_of_onType hg hover
  have hgraph : g.Arises := hg.grow (hstart.trans hgrows)
  obtain ⟨hsource, hplanPath⟩ := Query.source_of_plan hplan
  have hd : g.table.get? p.sourceType = some d := hsource ▸ hgrows.extends.get? hd
  have hroot := hgrows.extends.get? hroot
  obtain ⟨root', b, hroot', hb, hbase⟩ := hgraph.exists_root hapart.enums hapart.bases hd ha
  obtain rfl : root = root' := Option.some.inj (hroot.symm.trans hroot')
  have hpathRoot : u.path = b.relativePath := by
    rw [Plan.path_of_uri huri, hplanPath, hq, hb, Option.map_some, Option.getD_some]
  have he : e.id = a.uriBase :=
    hapart.endpoint_id hgraph hroot hb hbase (hpathRoot ▸ hpath) (hpathRoot ▸ hendpoint)
  obtain ⟨named, hnamed, hofType, -⟩ := Plan.type_of_setAll huri (Plan.setAll_of_parse huri hparse)
  obtain ⟨own, hown, hnarrow, hread⟩ := PreparedQuery.admits_of_prepare hprepared
  rw [hnarrow, uriBase_of_endpoint hendpoint hown]
  cases named with
  | none =>
      -- no type is named, so that it is that of the collection
      have hroot : p.elementType = e.id :=
        (Plan.elementType_of_namedType_none hd ha hnamed).trans he.symm
      rcases hread with ⟨-, helement, hg'⟩ | ⟨name, narrowed, hsome, -⟩
      · rw [helement, hroot]
        exact ⟨hg', rfl, rfl, TypeGraph.isAssignable_self g e.id⟩
      · rw [hofType] at hsome
        cases hsome
  | some name =>
      obtain ⟨concrete, hconcrete, rfl⟩ := Plan.exists_of_namedType hnamed
      rw [hofType, Option.map_some, hname concrete hconcrete] at hread
      have hget := TypeGraph.get_eq_ok.mp hconcrete
      rcases hread with ⟨hnone, -⟩ | ⟨name, narrowed, hsome, hleads, helement, hassignable⟩
      · cases hnone
      · rw [← Option.some.inj hsome, hgraph.byName_of_distinct hapart.types hget] at hleads
        cases hleads
        rw [hgraph.sound.id _ _ hget] at helement hassignable
        rw [helement]
        exact ⟨rfl, rfl, rfl, hassignable⟩

/-- **The last restriction of a chain counts.** Let a chain from the type called `typeName` be accepted, and
let the server prepare its URI for the collection at the path, in a graph that tells types and collections
apart; no slash stands at an end of the path, and no white space at an end of the name of the plan's type.
The type of the plan is the last of the chain. What the server does not admit has no part in the answer. The
objects of the collection that it admits are instances of all types of the chain exactly if the last type can
be assigned to each of them. -/
theorem keepsOnly_iff (hg : g₀.Arises) (hover : Query.onType g₀ typeName = (.ok q, g₁))
    (hgrows : g₁.GrowsTo g) (hapart : g.TellsApart)
    (hplan : ({ q with operators } : Query).plan = .ok p) (huri : p.uri g = .ok u)
    (hpath : Text.trimSlashes u.path = u.path)
    (hname : ∀ d, g.get p.elementType = .ok d → Text.trim d.name = d.name)
    (hendpoint : g.endpoint u.path = .ok e) (hparse : Parameters.parse config u.queryString = .ok read)
    (hprepared : (PreparedQuery.prepare g e read).1 = .ok prepared) :
    p.elementType = ({ q with operators } : Query).types.getLast (List.cons_ne_nil _ _) ∧
      (∀ h items, prepared.run g h config read items =
        ({ prepared with narrow := false } : PreparedQuery).run g h config read
          (items.filter (prepared.admits g h))) ∧
      (prepared.KeepsOnly g e ({ q with operators } : Query).types ↔
        ∀ type ∈ ({ q with operators } : Query).types, g.isAssignable type p.elementType = true) := by
  obtain ⟨-, helement, hnarrow, hassignable⟩ := element_of_uri hg hover hgrows hapart hplan huri hpath hname
    hendpoint hparse (Prod.ext hprepared rfl)
  refine ⟨Query.elementType_of_plan hplan, fun h items => prepared.run_eq_filter _ h config read items, ?_⟩
  constructor
  · intro hkeeps type htype
    -- an object of the last type is admitted
    have hadmits : prepared.admits g ⟨#[⟨p.elementType, []⟩], #[]⟩ (.object ⟨0⟩) = true := by
      rw [PreparedQuery.admits, helement, Bool.or_eq_true]
      exact Or.inr (TypeGraph.isAssignable_self g p.elementType)
    exact hkeeps ⟨#[⟨p.elementType, []⟩], #[]⟩ (.object ⟨0⟩) hassignable hadmits type htype
  · intro hall h item hitem hadmits type htype
    refine Rows.isInstance_of_isAssignable (hall type htype) ?_
    rw [PreparedQuery.admits, hnarrow, helement, Bool.or_eq_true] at hadmits
    rcases hadmits with hwhole | hinstance
    · obtain hsame : p.elementType = e.id := by simpa using hwhole
      rw [hsame]
      exact hitem
    · exact hinstance

/-! ## Hats and caps of critters -/

/-- A query with its plan and URI, and what a server reads and prepares for the collection at the path. -/
structure Arrival where
  query : Query
  plan : Plan
  uri : QueryUri
  endpoint : Descriptor
  read : Parameters
  prepared : PreparedQuery

/-- How a query over a type arrives. -/
def arrive (g : TypeGraph) (typeName : String) (operators : List Operator) : Except Error Arrival := do
  let query ← (Query.onType g typeName).1
  let plan ← ({ query with operators } : Query).plan
  let uri ← plan.uri g
  let endpoint ← g.endpoint uri.path
  let read ← Parameters.parse .standard uri.queryString
  let prepared ← (PreparedQuery.prepare g endpoint read).1
  pure { query, plan, uri, endpoint, read, prepared }

/-- The arrival of a query over a known type, step by step. -/
structure Arrives (g : TypeGraph) (typeName : String) (operators : List Operator) (a : Arrival) : Prop where
  start : Query.onType g typeName = (.ok a.query, g)
  plan : ({ a.query with operators } : Query).plan = .ok a.plan
  uri : a.plan.uri g = .ok a.uri
  endpoint : g.endpoint a.uri.path = .ok a.endpoint
  read : Parameters.parse .standard a.uri.queryString = .ok a.read
  prepared : (PreparedQuery.prepare g a.endpoint a.read).1 = .ok a.prepared

theorem exists_arrives {told : Arrival → Bool}
    (h : (arrive g typeName operators).toOption.any told = true)
    (hknown : (g.table.byName.lookup (Text.asciiLower typeName)).isSome = true) :
    ∃ a, Arrives g typeName operators a ∧ told a = true := by
  obtain ⟨a, ha, htold⟩ := (Option.any_eq_true _ _).mp h
  have hsame : (Query.onType g typeName).2 = g := by
    obtain ⟨id, hid⟩ := Option.isSome_iff_exists.mp hknown
    unfold Query.onType TypeGraph.byName TypeGraph.byNameWithin
    rw [hid]
    dsimp only
    cases g.get id with
    | error fault => rfl
    | ok d => rfl
  cases harrive : arrive g typeName operators with
  | error fault =>
      rw [harrive] at ha
      cases ha
  | ok arrived =>
      rw [harrive] at ha
      cases ha
      obtain ⟨query, hquery, harrive⟩ := Expr.exists_of_bind_eq_ok harrive
      obtain ⟨plan, hplan, harrive⟩ := Expr.exists_of_bind_eq_ok harrive
      obtain ⟨uri, huri, harrive⟩ := Expr.exists_of_bind_eq_ok harrive
      obtain ⟨endpoint, hendpoint, harrive⟩ := Expr.exists_of_bind_eq_ok harrive
      obtain ⟨read, hread, harrive⟩ := Expr.exists_of_bind_eq_ok harrive
      obtain ⟨prepared, hprepared, harrive⟩ := Expr.exists_of_bind_eq_ok harrive
      cases harrive
      have hover : Query.onType g typeName = (.ok query, g) := Prod.ext hquery hsame
      exact ⟨{ query, plan, uri, endpoint, read, prepared },
        ⟨hover, hplan, huri, hendpoint, hread, hprepared⟩, htold⟩

/-- Hats and caps are critters. -/
def millinery : Registry :=
  let critter (name : String) : SourceType := { SourceType.bare name .resource with base := some "Critter" }
  ((Registry.empty.withType
    { SourceType.bare "Critter" .resource with
      properties := [.primaryId "Id" (.value .int32)] }).withType (critter "Hat")).withType (critter "Cap")

def cap : TypeId := ⟨7⟩

def critter : TypeId := ⟨8⟩

def hat : TypeId := ⟨9⟩

theorem arises_millinery : millinery.graph.Arises :=
  Registry.arises_graph
    (((Registry.keyedByName_empty.withType _).withType _).withType _) (by decide +kernel)

theorem tellsApart_millinery : millinery.graph.TellsApart where
  types := by decide +kernel
  collections := by decide +kernel
  enums := by
    unfold Registry.KeepsEnumsApart
    decide +kernel
  bases := by
    unfold Registry.DeclaresNoBase
    decide +kernel

/-- A cap, a critter and a hat. -/
def window : Heap :=
  ⟨#[⟨cap, [("Id", .int 1)]⟩, ⟨critter, [("Id", .int 2)]⟩, ⟨hat, [("Id", .int 3)]⟩], #[]⟩

def onSale : List Value := [.object ⟨0⟩, .object ⟨1⟩, .object ⟨2⟩]

/-- A number that is answered. -/
def number? : Except Error Answer → Option Int64
  | .ok (.value (.int n)) => some n
  | _ => none

theorem eq_of_number? {answer : Except Error Answer} {n : Int64} (h : number? answer = some n) :
    answer = .ok (.value (.int n)) := by
  unfold number? at h
  split at h
  · cases h
    rfl
  · cases h

/-- The hats with a number, as critters that are hats. -/
def numberedHats : List Operator :=
  [.ofType critter, .where_ ⟨"p", .binary .gt (.member (.param "p") "Id") (.constant (.int 0))⟩, .ofType hat,
    .terminal .count none]

/-- Only hats are counted where the restriction to hats is the last one. -/
theorem hats_kept : ∃ a, Arrives millinery.graph "Critter" numberedHats a ∧
    a.uri.text = "critters?$oftype=Hat&$filter=Id%20gt%200&$projection=count" ∧
    a.prepared.KeepsOnly millinery.graph a.endpoint [critter, critter, hat] := by
  have harrive : (arrive millinery.graph "Critter" numberedHats).toOption.any (fun a =>
      a.uri.text == "critters?$oftype=Hat&$filter=Id%20gt%200&$projection=count" &&
        Text.trimSlashes a.uri.path == a.uri.path && a.query.elementType == critter &&
        (millinery.graph.get a.plan.elementType).toOption.all (fun d => Text.trim d.name == d.name) &&
        [critter, critter, hat].all (millinery.graph.isAssignable · a.plan.elementType)) = true := by
    decide +kernel
  obtain ⟨a, ha, htold⟩ := exists_arrives harrive (by decide +kernel)
  simp only [Bool.and_eq_true, beq_iff_eq] at htold
  obtain ⟨⟨⟨⟨htext, hpath⟩, hcritter⟩, hnames⟩, hall⟩ := htold
  have hname : ∀ d, millinery.graph.get a.plan.elementType = .ok d → Text.trim d.name = d.name := by
    intro d hd
    rw [hd] at hnames
    exact eq_of_beq hnames
  have htypes : ({ a.query with operators := numberedHats } : Query).types = [critter, critter, hat] := by
    show a.query.elementType :: [critter, hat] = _
    rw [hcritter]
  obtain ⟨-, -, hkeeps⟩ := keepsOnly_iff arises_millinery ha.start .refl tellsApart_millinery ha.plan ha.uri
    hpath hname ha.endpoint ha.read ha.prepared
  rw [htypes] at hkeeps
  exact ⟨a, ha, htext, hkeeps.2 (List.all_eq_true.1 hall)⟩

/-- **An earlier restriction is lost.** -/
theorem restriction_lost : millinery.graph.Arises ∧ millinery.graph.TellsApart ∧
    ∀ asked ∈ [("Critter", [Operator.ofType hat, .ofType critter], "critters?$projection=count", (3 : Int64)),
        ("Hat", [.ofType critter], "critters?$projection=count", 3),
        ("Critter", [.ofType hat, .ofType cap], "critters?$oftype=Cap&$projection=count", 1)],
      ∃ a, Arrives millinery.graph asked.1 (asked.2.1 ++ [.terminal .count none]) a ∧
        a.uri.text = asked.2.2.1 ∧
        hat ∈ ({ a.query with operators := asked.2.1 ++ [.terminal .count none] } : Query).types ∧
        a.prepared.admits millinery.graph window (.object ⟨0⟩) = true ∧
        Rows.isInstance millinery.graph window hat (.object ⟨0⟩) = false ∧
        a.prepared.run millinery.graph window .standard a.read onSale = .ok (.value (.int asked.2.2.2)) := by
  have harrive : ∀ asked ∈ [("Critter", [Operator.ofType hat, .ofType critter], "critters?$projection=count",
          (3 : Int64)),
        ("Hat", [.ofType critter], "critters?$projection=count", 3),
        ("Critter", [.ofType hat, .ofType cap], "critters?$oftype=Cap&$projection=count", 1)],
      (millinery.graph.table.byName.lookup (Text.asciiLower asked.1)).isSome = true ∧
      (arrive millinery.graph asked.1 (asked.2.1 ++ [.terminal .count none])).toOption.any (fun a =>
        a.uri.text == asked.2.2.1 &&
        (({ a.query with operators := asked.2.1 ++ [.terminal .count none] } : Query).types.contains hat) &&
        a.prepared.admits millinery.graph window (.object ⟨0⟩) &&
        number? (a.prepared.run millinery.graph window .standard a.read onSale) == some asked.2.2.2) = true := by
    decide +kernel
  refine ⟨arises_millinery, tellsApart_millinery, fun asked hasked => ?_⟩
  obtain ⟨hknown, htold⟩ := harrive asked hasked
  obtain ⟨a, ha, htold⟩ := exists_arrives htold hknown
  simp only [Bool.and_eq_true, beq_iff_eq, List.contains_iff_mem] at htold
  obtain ⟨⟨⟨htext, hhat⟩, hadmits⟩, hnumber⟩ := htold
  exact ⟨a, ha, htext, hhat, hadmits, by decide +kernel, eq_of_number? hnumber⟩

end Server

end ResourceQuery
