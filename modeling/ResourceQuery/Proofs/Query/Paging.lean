import ResourceQuery.Proofs.Query.Restriction

set_option autoImplicit false

/-! # Pages tile a listing

A listing can be asked for page by page: the same query, with `$skip` at a multiple of the page size and `$top`
at the page size. A query that answers a listing answers every page of it as well, and the pages in their order
are the listing (`Reply.pages_tile`).

This rests on where the pages are cut. What comes before, from the restriction to the sort, does not look at the
page (`PreparedQuery.run_eq_arranged`), the count is taken there, and what comes behind, the selection, is made
for each row alone (`Rows.select_page`).
-/

namespace ResourceQuery

open Expr (exists_of_bind_eq_ok)

/-! ## Pieces of a list -/

section

variable {α : Type}

/-- The first pieces of a list, one behind the other, are its start. -/
theorem flatMap_pieces (l : List α) (size count : Nat) :
    (List.range count).flatMap (fun i => (l.drop (i * size)).take size) = l.take (count * size) := by
  induction count with
  | zero => rw [Nat.zero_mul]; rfl
  | succ count ih =>
      rw [List.range_succ, List.flatMap_append, ih, List.flatMap_singleton, Nat.succ_mul, List.take_add]

/-- How many pieces of a size `n` things make. -/
def pageCount (n size : Nat) : Nat := (n + size - 1) / size

theorem lt_pageCount_iff {n size i : Nat} (hsize : 0 < size) : i < pageCount n size ↔ i * size < n := by
  unfold pageCount
  rw [← Nat.succ_le_iff, Nat.le_div_iff_mul_le hsize, Nat.succ_mul]
  omega

/-- Pieces behind the end are empty, and those before are not. -/
theorem piece_eq_nil_iff {l : List α} {size : Nat} (hsize : 0 < size) (i : Nat) :
    (l.drop (i * size)).take size = [] ↔ l.length ≤ i * size := by
  rw [List.take_eq_nil_iff, List.drop_eq_nil_iff]
  exact or_iff_right (Nat.ne_of_gt hsize)

end

/-! ## Steps on rows -/

namespace Rows

variable {g : TypeGraph} {h : Heap}

theorem perm_putSorted {direction : SortDirection} {key row : Value} {before after : List (Value × Value)}
    (hput : putSorted direction key row before = .ok after) : after.Perm ((key, row) :: before) := by
  induction before generalizing after with
  | nil =>
      cases hput
      exact .refl _
  | cons last earlier ih =>
      obtain ⟨order, -, hput⟩ := exists_of_bind_eq_ok hput
      split at hput
      · obtain ⟨moved, hmoved, hput⟩ := exists_of_bind_eq_ok hput
        cases hput
        exact ((ih hmoved).cons last).trans (.swap _ _ _)
      · cases hput
        exact .refl _

theorem perm_sortInto {direction : SortDirection} {pairs sorted after : List (Value × Value)}
    (hsort : sortInto direction sorted pairs = .ok after) : after.Perm (pairs ++ sorted) := by
  induction pairs generalizing sorted with
  | nil =>
      cases hsort
      exact .refl _
  | cons pair rest ih =>
      obtain ⟨next, hnext, hsort⟩ := exists_of_bind_eq_ok hsort
      exact (ih hsort).trans (((perm_putSorted hnext).append_left rest).trans List.perm_middle)

/-- Sorting loses no row and repeats none, whatever the order of the keys is. -/
theorem perm_sortBy {key : SortKey} {rows sorted : List Value} (hsort : sortBy g h key rows = .ok sorted) :
    sorted.Perm rows := by
  obtain ⟨keys, hkeys, hsort⟩ := exists_of_bind_eq_ok hsort
  obtain ⟨value, -, rfl⟩ := select_iff.mp hkeys
  obtain ⟨pairs, hpairs, hsort⟩ := exists_of_bind_eq_ok hsort
  cases hsort
  have hrows := ((List.reverse_perm pairs).trans (perm_sortInto hpairs)).map Prod.snd
  rwa [List.append_nil, List.map_snd_zip (List.length_map value).ge] at hrows

/-- What is selected on a page is that page of what is selected. -/
theorem select_page {selector : Lambda} {rows cells : List Value} (hselect : select g h selector rows = .ok cells)
    (skip top : Option UInt64) :
    select g h selector (PreparedQuery.page skip top rows) = .ok (PreparedQuery.page skip top cells) := by
  obtain ⟨value, hvalue, rfl⟩ := select_iff.mp hselect
  refine select_iff.mpr ⟨value, fun row hrow => hvalue row ?_, ?_⟩
  · unfold PreparedQuery.page at hrow
    cases top with
    | none => exact List.mem_of_mem_drop hrow
    | some n => exact List.mem_of_mem_drop (List.mem_of_mem_take hrow)
  · unfold PreparedQuery.page
    cases top with
    | none => exact List.map_drop.symm
    | some n => rw [List.map_take, List.map_drop]

end Rows

/-! ## Pages -/

/-- Whether a projection leaves rows a listing does not depend on the rows. -/
theorem Projection.answer?_eq_none {projection : Projection} {rows : List Value}
    (h : projection.answer? rows = .ok none) (others : List Value) : projection.answer? others = .ok none := by
  have hmap : ∀ outcome : Except Error Value, outcome.map some ≠ .ok none := by
    rintro (e | v) h <;> cases h
  cases projection with
  | enumerable => rfl
  | toUri => rfl
  | firstOrDefault => cases h
  | any => cases h
  | count => cases h
  | _ => exact absurd h (hmap _)

/-- The query for one page: `size` rows, behind `i` pages of that size. -/
def Parameters.atPage (q : Parameters) (size : UInt64) (i : Nat) : Parameters :=
  { q with skip := some (UInt64.ofNat (i * size.toNat)), top := some size }

/-- One page of a listing: `size` rows, behind `i` pages of that size. -/
def Listing.page (l : Listing) (size : UInt64) (i : Nat) : Listing :=
  { l with
    items := (l.items.drop (i * size.toNat)).take size.toNat
    skip := some (UInt64.ofNat (i * size.toNat)) }

namespace PreparedQuery

variable {g g' g₁ : TypeGraph} {h : Heap} {config : Config} {p : PreparedQuery} {q : Parameters}
  {items rows : List Value}

/-- The rows that pages are cut from. -/
def arranged (p : PreparedQuery) (g : TypeGraph) (h : Heap) (items : List Value) : Except Error (List Value) := do
  let rows := if p.narrow then Rows.ofType g h p.element items else items
  let rows ← step p.filter (Rows.filter g h) rows
  let rows ← step p.groupBy (Rows.groupBy g h) rows
  step p.orderBy (Rows.sortBy g h) rows

/-- What is answered with the rows that pages are cut from. -/
def answered (p : PreparedQuery) (g : TypeGraph) (h : Heap) (config : Config) (q : Parameters)
    (rows : List Value) : Except Error Answer := do
  let cells ← step p.select (Rows.select g h) (page q.skip (limit config q) rows)
  match ← q.projection.answer? cells with
  | some v => .ok (.value v)
  | none =>
    .ok (.listing ⟨cells, q.skip, if q.includeTotalCount then some (UInt64.ofNat rows.length) else none, none⟩)

/-- **The rows are arranged before the page is looked at.** -/
theorem run_eq_arranged (p : PreparedQuery) (g : TypeGraph) (h : Heap) (config : Config) (q : Parameters)
    (items : List Value) :
    p.run g h config q items = p.arranged g h items >>= p.answered g h config q := by
  unfold run arranged
  generalize (if p.narrow then Rows.ofType g h p.element items else items) = typed
  dsimp only
  cases step p.filter (Rows.filter g h) typed with
  | error e => rfl
  | ok kept =>
      show (step p.groupBy (Rows.groupBy g h) kept >>= _) = (step p.groupBy (Rows.groupBy g h) kept >>= _) >>= _
      cases step p.groupBy (Rows.groupBy g h) kept with
      | error e => rfl
      | ok counted =>
          show (step p.orderBy (Rows.sortBy g h) counted >>= _) = step p.orderBy (Rows.sortBy g h) counted >>= _
          cases hsort : step p.orderBy (Rows.sortBy g h) counted with
          | error e => rfl
          | ok sorted =>
              have hlength : sorted.length = counted.length := by
                unfold step at hsort
                split at hsort
                · exact (Rows.perm_sortBy hsort).length_eq
                · cases hsort
                  rfl
              show _ = p.answered g h config q sorted
              unfold answered
              rw [hlength]
              rfl

theorem step_select_page {select : Option Lambda} {rows cells : List Value}
    (hselect : step select (Rows.select g h) rows = .ok cells) (skip top : Option UInt64) :
    step select (Rows.select g h) (page skip top rows) = .ok (page skip top cells) := by
  cases select with
  | none =>
      cases hselect
      rfl
  | some selector => exact Rows.select_page hselect skip top

theorem length_of_step_select {select : Option Lambda} {rows cells : List Value}
    (hselect : step select (Rows.select g h) rows = .ok cells) : cells.length = rows.length := by
  cases select with
  | none =>
      cases hselect
      rfl
  | some selector =>
      obtain ⟨value, -, rfl⟩ := Rows.select_iff.mp hselect
      exact List.length_map value

/-- Preparing a query again, in the graph that it made grow, gives the same, where the names of types differ by more
than case and the query spells that of its type as it is declared. -/
theorem prepare_again {endpoint : Descriptor} (hprepare : prepare g endpoint q = (.ok p, g')) (hg : g'.Arises)
    (hapart : ∀ d ∈ g'.types, ∀ e ∈ g'.types, Text.asciiLower d.name = Text.asciiLower e.name → d.id = e.id)
    (hspelled : ∀ name d, q.ofType = some name → g.byName name = (.ok d, g') → d.name = name) :
    prepare g' endpoint q = prepare g endpoint q := by
  obtain ⟨address, element, -, -, hread⟩ := exists_ofElement_of_prepare hprepare
  rcases hread with ⟨-, -, rfl⟩ | ⟨name, d, htype, hname, -, -⟩
  · rfl
  · have hagain : g'.byName name = (.ok d, g') := by
      obtain ⟨id, hid⟩ := TypeGraph.exists_of_byName (congrArg Prod.fst hname)
      rw [hname] at hid
      rw [← hspelled name d htype hname]
      exact hg.byName_of_distinct hapart hid
    unfold prepare at hprepare ⊢
    rw [htype]
    cases hresource : endpoint.requireResource with
    | error e =>
        rw [hresource] at hprepare
        cases hprepare
    | ok address =>
        dsimp only
        rw [hname, hagain]

theorem page_atPage {size : UInt64} {i : Nat} (hi : i * size.toNat < UInt64.size) (rows : List Value) :
    page (some (UInt64.ofNat (i * size.toNat))) (some size) rows =
      (rows.drop (i * size.toNat)).take size.toNat := by
  have hskip : (UInt64.ofNat (i * size.toNat)).toNat = i * size.toNat := UInt64.toNat_ofNat_of_lt' hi
  rw [page, Option.map_some, Option.getD_some, hskip]

section

variable (hdefault : config.defaultPageSize = none) (hmost : config.maxPageSize = none)

include hmost

theorem limit_atPage (size : UInt64) (i : Nat) : limit config (q.atPage size i) = some size := by
  unfold limit
  split
  · unfold Config.effectiveTop
    rw [hmost]
    rfl
  · rfl

include hdefault

theorem limit_of_unpaged (htop : q.top = none) : limit config q = none := by
  unfold limit
  split
  · unfold Config.effectiveTop
    rw [htop, hdefault, hmost]
    rfl
  · exact htop

/-- What the listing of an unpaged query consists of. -/
theorem exists_of_answered_unpaged (hskip : q.skip = none) (htop : q.top = none) {l : Listing}
    (hanswered : p.answered g h config q rows = .ok (.listing l)) :
    step p.select (Rows.select g h) rows = .ok l.items ∧ q.projection.answer? l.items = .ok none ∧
      l.skip = none ∧ l.url = none ∧
      l.totalCount = if q.includeTotalCount then some (UInt64.ofNat rows.length) else none := by
  obtain ⟨cells, hcells, hanswered⟩ := exists_of_bind_eq_ok hanswered
  obtain ⟨answer, hanswer, hanswered⟩ := exists_of_bind_eq_ok hanswered
  have hunpaged : page q.skip (limit config q) rows = rows := by
    rw [hskip, limit_of_unpaged hdefault hmost htop]
    rfl
  rw [hunpaged] at hcells
  cases answer with
  | some v => cases hanswered
  | none =>
      cases hanswered
      exact ⟨hcells, hanswer, hskip, rfl, rfl⟩

/-- **A query that answers a listing answers each page of it**, once the rows are arranged. -/
theorem answered_atPage (hskip : q.skip = none) (htop : q.top = none) {l : Listing}
    (hanswered : p.answered g h config q rows = .ok (.listing l)) {size : UInt64} {i : Nat}
    (hi : i * size.toNat < UInt64.size) :
    p.answered g h config (q.atPage size i) rows = .ok (.listing (l.page size i)) := by
  obtain ⟨hcells, hanswer, -, hurl, htotal⟩ := exists_of_answered_unpaged hdefault hmost hskip htop hanswered
  have hpage : step p.select (Rows.select g h)
      (page (q.atPage size i).skip (limit config (q.atPage size i)) rows) =
        .ok ((l.items.drop (i * size.toNat)).take size.toNat) := by
    rw [limit_atPage hmost, ← page_atPage hi]
    exact step_select_page hcells _ _
  unfold answered Listing.page
  rw [hpage, hurl, htotal]
  show ((q.projection.answer? _) >>= _) = _
  rw [Projection.answer?_eq_none hanswer]
  rfl

end

end PreparedQuery

/-! ## The listing -/

namespace Reply

variable {g g' g₁ : TypeGraph} {h : Heap} {config : Config} {endpoint : Descriptor} {items : List Value}
  {q : Parameters}

/-- The answer of a query is a reply where preparing and running succeed. -/
theorem ofParameters_eq_listing {l : Listing} {expand : List String} {itemType : TypeId} :
    ofParameters g h config endpoint items q = (.ok ⟨.listing l, expand, itemType⟩, g') ↔
      ∃ p, PreparedQuery.prepare g endpoint q = (.ok p, g') ∧ p.run g' h config q items = .ok (.listing l) ∧
        p.expand = expand ∧ p.itemType = itemType := by
  unfold ofParameters
  constructor
  · intro hreply
    cases hprepare : PreparedQuery.prepare g endpoint q with
    | mk outcome between =>
        rw [hprepare] at hreply
        cases outcome with
        | error e => cases hreply
        | ok p =>
            dsimp only at hreply
            cases hrun : p.run between h config q items with
            | error e =>
                rw [hrun] at hreply
                cases hreply
            | ok answer =>
                rw [hrun] at hreply
                cases hreply
                exact ⟨p, rfl, hrun, rfl, rfl⟩
  · rintro ⟨p, hprepare, hrun, rfl, rfl⟩
    rw [hprepare]
    dsimp only
    rw [hrun]
    rfl

/-- **Pages tile the listing.** A query without `$skip` and `$top` that answers a listing, where nothing limits the
size of pages, answers every page of it, in the same graph or in any that prepares the query in the same way (as
one does that has grown by it, `PreparedQuery.prepare_again`). The pages up to some number are not empty, and are
the listing one behind the other; those behind are empty; and all report the number of rows, where that is asked for.
Rows are counted in 64 bits, and `$skip` is a number of 64 bits. -/
theorem pages_tile (hdefault : config.defaultPageSize = none) (hmost : config.maxPageSize = none)
    (hskip : q.skip = none) (htop : q.top = none) {l : Listing} {expand : List String} {itemType : TypeId}
    (hreply : ofParameters g h config endpoint items q = (.ok ⟨.listing l, expand, itemType⟩, g'))
    (hfits : l.items.length < UInt64.size)
    (hprepare : PreparedQuery.prepare g₁ endpoint q = PreparedQuery.prepare g endpoint q)
    {size : UInt64} (hsize : 0 < size) :
    (∀ i, i * size.toNat < UInt64.size → ofParameters g₁ h config endpoint items (q.atPage size i) =
      (.ok ⟨.listing (l.page size i), expand, itemType⟩, g')) ∧
    (∃ count,
      (∀ i < count, i * size.toNat < UInt64.size ∧ (l.page size i).items ≠ []) ∧
      (∀ i, count ≤ i → (l.page size i).items = []) ∧
      (List.range count).flatMap (fun i => (l.page size i).items) = l.items) ∧
    (∀ i, (l.page size i).totalCount = l.totalCount) ∧
    (∀ total, l.totalCount = some total → total.toNat = l.items.length) ∧
    (l.totalCount.isSome = q.includeTotalCount) := by
  obtain ⟨p, hp, hrun, rfl, rfl⟩ := ofParameters_eq_listing.mp hreply
  rw [PreparedQuery.run_eq_arranged] at hrun
  obtain ⟨rows, hrows, hanswered⟩ := exists_of_bind_eq_ok hrun
  obtain ⟨hcells, -, -, -, htotal⟩ :=
    PreparedQuery.exists_of_answered_unpaged hdefault hmost hskip htop hanswered
  have hlength : l.items.length = rows.length := PreparedQuery.length_of_step_select hcells
  refine ⟨fun i hi => ?_, ?_, fun i => rfl, fun total h => ?_, ?_⟩
  · refine ofParameters_eq_listing.mpr ⟨p, hprepare.trans hp, ?_, rfl, rfl⟩
    rw [PreparedQuery.run_eq_arranged, hrows]
    exact PreparedQuery.answered_atPage hdefault hmost hskip htop hanswered hi
  · have hsize : 0 < size.toNat := UInt64.lt_iff_toNat_lt.mp hsize
    refine ⟨pageCount l.items.length size.toNat, fun i hi => ?_, fun i hi => ?_, ?_⟩
    · have hbefore := (lt_pageCount_iff hsize).mp hi
      exact ⟨hbefore.trans hfits, fun hnil => absurd ((piece_eq_nil_iff hsize i).mp hnil) (Nat.not_le.mpr hbefore)⟩
    · exact (piece_eq_nil_iff hsize i).mpr (Nat.not_lt.mp fun hbefore =>
        absurd ((lt_pageCount_iff hsize).mpr hbefore) (Nat.not_lt.mpr hi))
    · have hend : l.items.length ≤ pageCount l.items.length size.toNat * size.toNat :=
        Nat.not_lt.mp fun h => lt_irrefl _ ((lt_pageCount_iff hsize).mpr h)
      exact (flatMap_pieces l.items size.toNat _).trans (List.take_of_length_le hend)
  · rw [htotal] at h
    split at h
    · rw [← Option.some.inj h, hlength]
      exact UInt64.toNat_ofNat_of_lt' (hlength ▸ hfits)
    · cases h
  · rw [htotal]
    cases q.includeTotalCount <;> rfl

/-! ### A herd -/

/-- Critters with a number. -/
def herdGraph : TypeGraph :=
  (Registry.empty.withType
    { SourceType.bare "Critter" .resource with properties := [.primaryId "Id" (.value .int32)] }).graph

/-- The type of the critters, after the value kinds. -/
def herdType : TypeId := ⟨ValueKind.all.length⟩

/-- The collection of the critters. -/
def herdEndpoint : Descriptor :=
  (herdGraph.table.get? herdType).get (by decide +kernel)

/-- Five critters. -/
def herd : Heap :=
  ⟨([2, 5, 3, 1, 4] : List Int64).map (fun n => ⟨herdType, [("Id", .int n)]⟩) |>.toArray, #[]⟩

/-- The numbers above 1, the greatest first, and how many there are. -/
def greatNumbers : Parameters :=
  { Parameters.none with
    filter := some ⟨"c", .binary .gt (.member (.param "c") "Id") (.constant (.int 1))⟩
    orderBy := some ⟨⟨"c", .member (.param "c") "Id"⟩, .descending⟩
    select := some ⟨"c", .member (.param "c") "Id"⟩
    includeTotalCount := true }

/-- What the herd answers. -/
def askHerd (q : Parameters) : Except Error Reply × TypeGraph :=
  ofParameters herdGraph herd .standard herdEndpoint ((List.range 5).map fun i => .object ⟨i⟩) q

/-- The numbers among rows. -/
def numbers (rows : List Value) : List Int64 :=
  rows.filterMap fun
    | .int n => some n
    | _ => none

/-- The listing among answers. -/
def listing? : Except Error Reply → Option Listing
  | .ok ⟨.listing l, _, _⟩ => some l
  | _ => none

/-- The four numbers are two pages of three. -/
theorem greatNumbers_tiled : ∃ l expand itemType g',
    askHerd greatNumbers = (.ok ⟨.listing l, expand, itemType⟩, g') ∧ numbers l.items = [5, 4, 3, 2] ∧
      (∀ i, i * 3 < UInt64.size →
        askHerd (greatNumbers.atPage 3 i) = (.ok ⟨.listing (l.page 3 i), expand, itemType⟩, g')) ∧
      numbers (l.page 3 1).items = [2] ∧ (l.page 3 1).totalCount = some 4 ∧ (l.page 3 2).items = [] := by
  have hanswer : (listing? (askHerd greatNumbers).1).any (fun l =>
      numbers l.items == [5, 4, 3, 2] && l.items.length == 4 && l.totalCount == some 4 &&
        numbers (l.page 3 1).items == [2] && (l.page 3 2).items.isEmpty) = true := by decide +kernel
  cases hreply : askHerd greatNumbers with
  | mk outcome g' =>
      rw [hreply] at hanswer
      cases outcome with
      | error e => cases hanswer
      | ok reply =>
          obtain ⟨answer, expand, itemType⟩ := reply
          cases answer with
          | value v => cases hanswer
          | listing l =>
              simp only [listing?, Option.any_some, Bool.and_eq_true, beq_iff_eq, List.isEmpty_iff] at hanswer
              obtain ⟨⟨⟨⟨hnumbers, hlength⟩, htotal⟩, hsecond⟩, hthird⟩ := hanswer
              have hfits : l.items.length < UInt64.size := hlength ▸ by decide
              have htiles := pages_tile rfl rfl rfl rfl hreply hfits rfl (by decide : (0 : UInt64) < 3)
              exact ⟨l, expand, itemType, g', rfl, hnumbers, htiles.1, hsecond, htotal, hthird⟩

end Reply

end ResourceQuery
