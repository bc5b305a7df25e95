import ResourceQuery.Proofs.Query.Canonical
import ResourceQuery.Proofs.Query.ItemTypes
import ResourceQuery.Proofs.Wire.Places

set_option autoImplicit false

/-! # Paths that are expanded behind a selection

A path that is expanded behind a selection is counted from what is selected. A plan has the path counted from the
rows before the selection (`Query.expand_of_plan`), and sends it so. A server checks it against the type of these
rows, in which it is spelled as it is declared (`PreparedQuery.exists_of_expandPath`). Then it selects, and the
writer counts paths from what it writes, which is what was selected.

So the path that is looked for and the path that is expanded differ by the path of the selection. A resource is
written inline all the same where both start alike, as with hats on hats (`Server.inlinesAt_iff`); without a
selection this is always so. The brand of a hat, in a list of the hats of critters, is a reference although it was
to be expanded (`Server.expansion_lost`).
-/

namespace ResourceQuery

/-! ## Sets of paths -/

namespace Expansion

/-- Names below each other, as a path. -/
theorem foldl_pathBelow {names : List String} (hnames : ∀ name ∈ names, name ≠ "") :
    names.foldl Node.pathBelow "" = Text.join "." names := by
  have hsome : ∀ {names : List String}, names ≠ [] → (∀ name ∈ names, name ≠ "") →
      Text.join "." names ≠ "" := by
    intro names hnil hnames hempty
    cases names with
    | nil => exact hnil rfl
    | cons first rest =>
        refine hnames first List.mem_cons_self ?_
        cases rest with
        | nil => exact hempty
        | cons next later =>
            rw [Text.join_cons _ _ (List.cons_ne_nil _ _)] at hempty
            simpa using congrArg String.toList hempty
  induction names using List.reverseRecOn with
  | nil => rfl
  | append_singleton names last ih =>
      obtain ⟨hlead, hlast⟩ := List.forall_mem_append.mp hnames
      rw [List.foldl_concat, ih hlead, Node.pathBelow]
      by_cases hnil : names = []
      · rw [hnil]
        rfl
      · rw [Text.join_concat _ hnil, if_neg fun hempty => hsome hnil hlead (String.isEmpty_iff.mp hempty)]

theorem mem_prefixes {path lead : String} {segments : List String} :
    path ∈ prefixes lead segments ↔
      ∃ first, first <+: segments ∧ first ≠ [] ∧ path = first.foldl Node.pathBelow lead := by
  induction segments generalizing lead with
  | nil =>
      refine ⟨fun h => absurd h List.not_mem_nil, ?_⟩
      rintro ⟨first, hfirst, hsome, -⟩
      exact absurd (List.prefix_nil.mp hfirst) hsome
  | cons segment rest ih =>
      rw [prefixes, List.mem_cons, ih]
      constructor
      · rintro (rfl | ⟨first, hfirst, -, rfl⟩)
        · exact ⟨[segment], ⟨rest, rfl⟩, List.cons_ne_nil _ _, rfl⟩
        · exact ⟨segment :: first, List.cons_prefix_cons.mpr ⟨rfl, hfirst⟩, List.cons_ne_nil _ _, rfl⟩
      · rintro ⟨first, hfirst, hsome, rfl⟩
        cases first with
        | nil => exact absurd rfl hsome
        | cons name first =>
            obtain ⟨rfl, hrest⟩ := List.cons_prefix_cons.mp hfirst
            cases first with
            | nil => exact .inl rfl
            | cons next later => exact .inr ⟨next :: later, hrest, List.cons_ne_nil _ _, rfl⟩

/-- A place is expanded with a path if its names start the path, up to the case of letters. -/
theorem contains_ofPaths_iff {path names : List String} (hsome : path ≠ []) (hplace : names ≠ [])
    (hpath : ∀ name ∈ path, Text.isIdentifier name = true)
    (hnames : ∀ name ∈ names, Text.isIdentifier name = true) :
    (ofPaths [Text.join "." path]).contains (WriteSlot.pathAlong "" names) = true ↔
      names.map Text.asciiLower <+: path.map Text.asciiLower := by
  have hpath := Text.isIdentifier_map hpath
  have hnames := Text.isIdentifier_map hnames
  have hpieces : prefixesOf (Text.join "." path) = prefixes "" (path.map Text.asciiLower) := by
    rw [prefixesOf, Text.asciiLower_join, Text.splitOn_join_identifiers (by simpa using hsome) hpath]
    refine congrArg _ (List.filter_eq_self.mpr fun name hname => ?_)
    simpa using Text.ne_empty_of_isIdentifier (hpath name hname)
  have hfold : ∀ {names : List String}, (∀ name ∈ names, Text.isIdentifier name = true) →
      names.foldl Node.pathBelow "" = Text.join "." names :=
    fun hnames => foldl_pathBelow fun name hname => Text.ne_empty_of_isIdentifier (hnames name hname)
  have halong : Text.asciiLower (WriteSlot.pathAlong "" names) = Text.join "." (names.map Text.asciiLower) := by
    have hsmall : (names.map Text.asciiLower).map Text.asciiLower = names.map Text.asciiLower := by
      rw [List.map_map]
      exact List.map_congr_left fun name _ => Text.asciiLower_asciiLower name
    rw [WriteSlot.pathAlong, ← List.foldl_map, hfold hnames, Text.asciiLower_join, hsmall]
  rw [ofPaths, List.flatMap_singleton, contains, List.contains_iff_mem, halong, hpieces, mem_prefixes]
  constructor
  · rintro ⟨first, hfirst, hfirstSome, hsame⟩
    have hidentifiers : ∀ name ∈ first, Text.isIdentifier name = true :=
      fun name hname => hpath name (hfirst.subset hname)
    -- both are split into their names
    rw [hfold hidentifiers] at hsame
    rw [← Text.splitOn_join_identifiers (by simpa using hplace) hnames, hsame,
      Text.splitOn_join_identifiers hfirstSome hidentifiers]
    exact hfirst
  · intro hprefix
    exact ⟨_, hprefix, by simpa using hplace, (hfold hnames).symm⟩

end Expansion

/-! ## What a chain expands -/

namespace Expr

theorem substitute_chainOf (x : String) (names : List String) (replacement : Expr) :
    (chainOf x names).substitute x replacement = names.foldl .member replacement := by
  induction names using List.reverseRecOn with
  | nil => exact if_pos rfl
  | append_singleton names name ih =>
      unfold chainOf at ih ⊢
      rw [List.foldl_concat, List.foldl_concat, ← ih]
      rfl

end Expr

namespace Lambda

/-- The members `names`, one of the other, of the argument `x`. -/
abbrev chainOf (x : String) (names : List String) : Lambda :=
  ⟨x, Expr.chainOf x names⟩

theorem simplified_chainOf (x : String) (names : List String) : (chainOf x names).simplified = chainOf x names :=
  congrArg (Lambda.mk x) (Expr.simplify_chainOf x names)

/-- Members of members are members that are further down. -/
theorem compose_chainOf (x y : String) (outer inner : List String) :
    (chainOf y outer).compose (chainOf x inner) = chainOf x (inner ++ outer) := by
  have hbody : ((Expr.chainOf y outer).substitute y (Expr.chainOf x inner)).simplify =
      Expr.chainOf x (inner ++ outer) := by
    rw [Expr.substitute_chainOf, ← List.foldl_append]
    exact Expr.simplify_chainOf x _
  exact congrArg (Lambda.mk x) hbody

theorem memberPath?_chainOf (x : String) {names : List String} (hsome : names ≠ []) :
    (chainOf x names).memberPath? = some (Text.join "." names) := by
  unfold memberPath?
  rw [Expr.pathFrom_chainOf x names [] (by simpa using hsome), List.append_nil, Option.map_some]

end Lambda

/-- The members `selected` of the rows, or the rows themselves if none are named, with the path `expanded` to be
expanded. -/
def Query.expanding (q : Query) (x y : String) (selected expanded : List String) : Query :=
  { q with
    operators := (if selected = [] then [] else [.select (.chainOf x selected)]) ++
      [.expand (.chainOf y expanded)] }

/-- **What is expanded behind a selection is expanded below what is selected.** -/
theorem Query.expand_of_plan {q : Query} {x y : String} {selected expanded : List String} {p : Plan}
    (hsome : expanded ≠ []) (hplan : (q.expanding x y selected expanded).plan = .ok p) :
    p.expand = [Text.join "." (selected ++ expanded)] := by
  have hlast : ∀ {p p' : Plan} {path : Lambda} {text : String}, p.expand = [] →
      (p.rebase path).memberPath? = some text → p.add (.expand path) = .ok p' → p'.expand = [text] := by
    intro p p' path text hnone hpath hadd
    obtain ⟨-, other, hother, expand, rfl, htaken⟩ := Plan.of_addExpand hadd
    obtain rfl : text = other := Option.some.inj (hpath.symm.trans hother)
    rw [hnone] at htaken
    rcases htaken with ⟨-, hthere⟩ | ⟨rfl, -⟩
    · cases hthere
    · rfl
  have hadds := Query.adds_of_plan hplan
  unfold expanding at hadds
  by_cases hselected : selected = []
  · rw [hselected] at hadds ⊢
    obtain ⟨between, hadd, rfl⟩ := hadds
    refine hlast rfl ?_ hadd
    rw [Plan.rebase]
    exact (congrArg Lambda.memberPath? (Lambda.simplified_chainOf y expanded)).trans
      (Lambda.memberPath?_chainOf y hsome)
  · simp only [if_neg hselected] at hadds
    obtain ⟨first, hselect, between, hadd, rfl⟩ := hadds
    cases hselect
    refine hlast rfl ?_ hadd
    rw [Plan.rebase]
    dsimp only
    rw [Plan.rebase]
    dsimp only [Plan.ofSource]
    rw [Lambda.simplified_chainOf, Lambda.compose_chainOf]
    exact Lambda.memberPath?_chainOf x (by simp [hsome])

/-! ## What arrives of it -/

namespace Parameters

variable {depth : Nat} {q q' : Parameters} {key value : String} {ps : List (String × String)}

/-- No other parameter decides on what is expanded. -/
theorem expand_of_set (hkey : key ≠ "$expand") (h : q.set depth key value = .ok q') : q'.expand = q.expand := by
  unfold set at h
  split at h
  case h_1 =>
    cases h
    rfl
  case h_8 => exact absurd rfl hkey
  case h_11 => cases h
  all_goals
    obtain ⟨a, rfl⟩ := exists_of_map_eq_ok h
    rfl

theorem expand_of_setAll (hnone : ∀ part ∈ ps, part.1 ≠ "$expand") (h : setAll depth q ps = .ok q') :
    q'.expand = q.expand := by
  induction ps generalizing q with
  | nil =>
      cases h
      rfl
  | cons part rest ih =>
      obtain ⟨hpart, hrest⟩ := List.forall_mem_cons.mp hnone
      rw [setAll, List.foldlM_cons] at h
      obtain ⟨between, hset, h⟩ := Expr.exists_of_bind_eq_ok h
      rw [ih hrest h, expand_of_set hpart hset]

theorem isPath_join {names : List String} (hsome : names ≠ [])
    (hnames : ∀ name ∈ names, Text.isIdentifier name = true) : IsPath (Text.join "." names) := by
  rw [IsPath, Text.splitOn_join_identifiers hsome hnames]
  exact List.all_eq_true.mpr hnames

end Parameters

/-- The only path of a plan arrives, in small letters. -/
theorem Plan.expand_of_setAll {g : TypeGraph} {p : Plan} {u : QueryUri} {depth : Nat} {q : Parameters}
    {path : String} (huri : p.uri g = .ok u) (hexpand : p.expand = [path]) (hpath : Parameters.IsPath path)
    (hset : Parameters.setAll depth .none u.parameters = .ok q) : q.expand = [Text.asciiLower path] := by
  have hmem : ("$expand", expandText p.expand) ∈ u.parameters := by
    obtain ⟨_, _, _, _, _, _, _, -, -, -, -, -, -, -, hparameters⟩ := exists_parts huri
    rw [hparameters, hexpand]
    simp
  have hnodup := (keys_sublist huri).nodup Parameters.nodup_keys
  obtain ⟨before, after, hsplit⟩ := List.append_of_mem hmem
  rw [hsplit, List.map_append, List.map_cons] at hnodup
  rw [hsplit, Parameters.setAll_append] at hset
  -- the key stands there once, so that what it set is kept
  obtain ⟨-, hrest, -⟩ := List.nodup_append.mp hnodup
  have hafter : ∀ part ∈ after, part.1 ≠ "$expand" :=
    fun part hpart heq => (List.nodup_cons.mp hrest).1 (List.mem_map.mpr ⟨part, hpart, heq⟩)
  obtain ⟨first, hfirst, hset⟩ := Expr.exists_of_bind_eq_ok hset
  rw [Parameters.setAll, List.foldlM_cons, Parameters.set, Parameters.paths_expandText (by simp [hexpand])
    (by simpa [hexpand] using hpath)] at hset
  obtain ⟨second, hsecond, hset⟩ := Expr.exists_of_bind_eq_ok hset
  cases hsecond
  rw [Parameters.expand_of_setAll hafter hset, hexpand]
  rfl

namespace Expr

variable {g : TypeGraph} {scope : TypeScope}

/-- Members that are checked keep their names up to the case of letters. -/
theorem compile_chainOf {x : String} {names : List String} {e : Expr} {t : StaticType}
    (h : compile g scope (chainOf x names) = .ok (e, t)) :
    ∃ spelled, e = chainOf x spelled ∧ spelled.map Text.asciiLower = names.map Text.asciiLower := by
  have hmember : ∀ {s t : StaticType} {name spelled : String}, s.member g name = .ok (spelled, t) →
      Text.asciiLower spelled = Text.asciiLower name := by
    intro s t name spelled hmember
    cases s with
    | unknown =>
        cases hmember
        rfl
    | group key element =>
        obtain ⟨hname, rfl, -⟩ := StaticType.member_group hmember
        exact (Text.sameIgnoringCase_iff.mp hname).symm
    | mapped type =>
        obtain ⟨d, -, ⟨-, rfl, -⟩ | ⟨p, hp, -, rfl, -⟩⟩ := StaticType.member_mapped hmember
        · rfl
        · exact Text.sameIgnoringCase_iff.mp (Descriptor.isNamed_of_property? hp)
  induction names using List.reverseRecOn generalizing e t with
  | nil => exact ⟨[], (compile_param h).1, rfl⟩
  | append_singleton names name ih =>
      unfold chainOf at h
      rw [List.foldl_concat] at h
      obtain ⟨target, s, last, htarget, hlast, rfl⟩ := compile_member h
      obtain ⟨spelled, rfl, hspelled⟩ := ih htarget
      refine ⟨spelled ++ [last], ?_, ?_⟩
      · unfold chainOf
        rw [List.foldl_concat]
      · rw [List.map_append, List.map_append, hspelled, List.map_singleton, List.map_singleton, hmember hlast]

end Expr

namespace PreparedQuery

variable {g g' : TypeGraph} {endpoint : Descriptor} {element : TypeId} {q : Parameters} {prepared : PreparedQuery}

/-- A path that is checked keeps its names up to the case of letters. -/
theorem exists_of_expandPath {names : List String} {path : String} (hsome : names ≠ [])
    (hnames : ∀ name ∈ names, Text.isIdentifier name = true)
    (h : expandPath g element (Text.join "." names) = .ok path) :
    ∃ spelled, path = Text.join "." spelled ∧ spelled.map Text.asciiLower = names.map Text.asciiLower := by
  unfold expandPath Lambda.compile Lambda.ofMemberPath at h
  dsimp only at h
  rw [Text.splitOn_join_identifiers hsome hnames] at h
  cases hbody : Expr.compile g [(numberedName 0, .mapped element)] (Expr.chainOf (numberedName 0) names) with
  | error fault =>
      rw [hbody] at h
      cases h
  | ok compiled =>
      obtain ⟨body, t⟩ := compiled
      rw [hbody] at h
      obtain ⟨spelled, rfl, hspelled⟩ := Expr.compile_chainOf hbody
      cases h
      have hspelledSome : spelled ≠ [] := by
        rintro rfl
        exact hsome (List.map_eq_nil_iff.mp hspelled.symm)
      exact ⟨spelled, congrArg (Option.getD · _) (Lambda.memberPath?_chainOf _ hspelledSome), hspelled⟩

theorem exists_expand_of_prepare (h : prepare g endpoint q = (.ok prepared, g')) :
    ∃ element, q.expand.mapM (expandPath g' element) = .ok prepared.expand := by
  obtain ⟨address, element, -, h, -⟩ := exists_ofElement_of_prepare h
  obtain ⟨filter, -, h⟩ := Expr.exists_of_bind_eq_ok h
  obtain ⟨⟨groupBy, row⟩, -, h⟩ := Expr.exists_of_bind_eq_ok h
  obtain ⟨orderBy, -, h⟩ := Expr.exists_of_bind_eq_ok h
  obtain ⟨select, -, h⟩ := Expr.exists_of_bind_eq_ok h
  obtain ⟨expand, hexpand, h⟩ := Expr.exists_of_bind_eq_ok h
  cases h
  exact ⟨element, hexpand⟩

end PreparedQuery

/-! ## What is written inline -/

/-- The writer of a reply. -/
def Reply.writer (r : Reply) (config : Config) (s : Heap × Surroundings Served) : Writer :=
  ⟨s.2.graph, s.1, config.baseUri, .ofPaths r.expand⟩

namespace Server

variable {g₀ g : TypeGraph} {h : Heap} {config : Config} {served : Served} {e : Descriptor} {reply : Reply}
  {s : Heap × Surroundings Served} {q : Query} {p : Plan} {u : QueryUri} {document : Json} {x y : String}
  {selected expanded : List String}

/-- A request for the URI of a query is answered by the collection at its path. -/
theorem exists_reply_of_answer (hpath : Text.IsSegment u.path) (hsome : u.parameters ≠ [])
    (hanswer : (answer config (.fetch (Client.absolute config u.text))).runOn (h, ⟨g, served⟩) =
      (.ok document, s)) :
    ∃ e reply, g.endpoint u.path = .ok e ∧
      (interpret config e everything u.queryString).runOn (h, ⟨g, served⟩) = (.ok reply, s) ∧
      (reply.writer config s).writeAnswer reply.itemType reply.answer = .ok document := by
  have htext : Client.absolute config u.text =
      Text.trimEndSlashes config.baseUri ++ ("/" ++ u.path ++ String.ofList ['?'] ++ u.queryString) := by
    rw [Client.absolute, QueryUri.text, if_neg (by simpa using hsome)]
    simp only [String.append_assoc]
  have htarget : target config (Client.absolute config u.text) = ("/" ++ u.path, u.queryString) := by
    have hmark : '?' ∉ ("/" ++ u.path).toList := by
      rw [String.toList_append, List.mem_append, not_or]
      exact ⟨by decide, hpath.noMark⟩
    rw [target, htext, Text.after?_append, Option.getD_some, Text.splitOnce_append hmark, Option.getD_some]
  have hall : ∀ name ∈ [u.path], Text.IsSegment name := List.forall_mem_singleton.mpr hpath
  have hsegments : memberOf (segments ("/" ++ u.path)) = ([u.path], none) := congrArg memberOf (segments_join hall)
  unfold answer HttpRequest.fetch at hanswer
  dsimp only at hanswer
  rw [if_neg (by decide), htarget] at hanswer
  dsimp only at hanswer
  rw [hsegments] at hanswer
  dsimp only at hanswer
  obtain ⟨e, s₁, hendpoint, hbehind⟩ := Action.exists_of_runOn_bind hanswer
  rw [World.runOn_ask] at hendpoint
  obtain ⟨hfound, rfl⟩ := Prod.mk.inj hendpoint
  obtain ⟨query, s₂, hquery, hrest⟩ := Action.exists_of_runOn_bind hbehind
  rw [Action.runOn_pure] at hquery
  obtain ⟨hplain, rfl⟩ := Prod.mk.inj hquery
  obtain ⟨reply, s₃, hreply, hlast⟩ := Action.exists_of_runOn_bind hrest
  rw [World.runOn_ask] at hlast
  obtain ⟨hdocument, hafter⟩ := Prod.mk.inj hlast
  rw [← Except.ok.inj hplain, answerIn, if_neg (by simp), hafter] at hreply
  rw [hafter] at hdocument
  exact ⟨e, reply, hfound, hreply, hdocument⟩

/-- The expansion of an answer has one path, that of the plan up to the case of letters. -/
theorem exists_expand_of_interpret (hnames : ∀ name ∈ selected ++ expanded, Text.isIdentifier name = true)
    (hsome : expanded ≠ []) (hplan : (q.expanding x y selected expanded).plan = .ok p) (huri : p.uri g₀ = .ok u)
    (hcache : served.cache.IsFaithful config)
    (hreply : (interpret config e everything u.queryString).runOn (h, ⟨g, served⟩) = (.ok reply, s)) :
    g.GrowsTo s.2.graph ∧ ∃ spelled, reply.expand = [Text.join "." spelled] ∧
      spelled.map Text.asciiLower = (selected ++ expanded).map Text.asciiLower := by
  have hall : selected ++ expanded ≠ [] := by simp [hsome]
  obtain ⟨read, prepared, hparse, hprepared, -, -, hexpand⟩ := exists_prepared_of_interpret hcache hreply
  have hgrows : g.GrowsTo s.2.graph := by
    obtain ⟨-, -, -, -, ⟨-, -, hsame⟩ | ⟨name, d, -, hname, -⟩⟩ :=
      PreparedQuery.exists_ofElement_of_prepare hprepared
    · exact hsame ▸ .refl
    · have hgrows := TypeGraph.growsTo_byName g name
      rwa [hname] at hgrows
  refine ⟨hgrows, ?_⟩
  have hread : read.expand = [Text.join "." ((selected ++ expanded).map Text.asciiLower)] := by
    rw [Plan.expand_of_setAll huri (Query.expand_of_plan hsome hplan) (Parameters.isPath_join hall hnames)
      (Plan.setAll_of_parse huri hparse), Text.asciiLower_join]
  obtain ⟨element, hpaths⟩ := PreparedQuery.exists_expand_of_prepare hprepared
  rw [hread, List.mapM_cons, List.mapM_nil] at hpaths
  obtain ⟨path, hpath, hpaths⟩ := Expr.exists_of_bind_eq_ok hpaths
  obtain ⟨spelled, rfl, hspelled⟩ := PreparedQuery.exists_of_expandPath (by simpa using hall)
    (Text.isIdentifier_map hnames) hpath
  refine ⟨spelled, hexpand.trans (Except.ok.inj hpaths).symm, hspelled.trans ?_⟩
  rw [List.map_map]
  exact List.map_congr_left fun name _ => Text.asciiLower_asciiLower name

/-- **A selection keeps what is expanded only where the paths agree.** Let a query select the members `selected` of
its rows, or nothing if none are named, and expand the path `expanded` behind that; and let the server answer the
URI of the query, whose path is a single name, with a document. Names of properties start with a letter, and the
names of both paths are identifiers.

A resource at the path `expanded` of an item is written inline if `expanded` is where `selected` and `expanded`
start together, such as when nothing is selected. If its property is not always expanded, it is written inline
in no other case. -/
theorem inlinesAt_iff (hg : g.Arises)
    (hletters : ∀ d ∈ s.2.graph.types, ∀ p ∈ d.properties, p.startsWithLetter = true)
    (hnames : ∀ name ∈ selected ++ expanded, Text.isIdentifier name = true) (hsome : expanded ≠ [])
    (hplan : (q.expanding x y selected expanded).plan = .ok p) (huri : p.uri g₀ = .ok u)
    (hpath : Text.IsSegment u.path) (hcache : served.cache.IsFaithful config)
    (hanswer : (answer config (.fetch (Client.absolute config u.text))).runOn (h, ⟨g, served⟩) =
      (.ok document, s)) :
    ∃ e reply, g.endpoint u.path = .ok e ∧
      (interpret config e everything u.queryString).runOn (h, ⟨g, served⟩) = (.ok reply, s) ∧
      ∀ l, reply.answer = .listing l → ∀ place slot object,
        (reply.writer config s).ListsAt reply.itemType l.items expanded place slot object →
        (expanded.map Text.asciiLower <+: (selected ++ expanded).map Text.asciiLower →
          (reply.writer config s).InlinesAt document place slot object) ∧
        (slot.inline = false → (reply.writer config s).InlinesAt document place slot object →
          expanded.map Text.asciiLower <+: (selected ++ expanded).map Text.asciiLower) := by
  have hparameters : u.parameters ≠ [] := by
    obtain ⟨_, _, _, _, _, _, _, -, -, -, -, -, -, -, hparts⟩ := Plan.exists_parts huri
    rw [hparts, Query.expand_of_plan hsome hplan]
    simp
  obtain ⟨e, reply, hendpoint, hreply, hdocument⟩ := exists_reply_of_answer hpath hparameters hanswer
  refine ⟨e, reply, hendpoint, hreply, fun l hlisting place slot object hplace => ?_⟩
  obtain ⟨hgrows, spelled, hexpand, hspelled⟩ :=
    exists_expand_of_interpret hnames hsome hplan huri hcache hreply
  rw [hlisting] at hdocument
  obtain ⟨members, documents, rfl, hitems, hall⟩ := Writer.exists_items_of_writeListing hdocument
  obtain ⟨i, v, passed, steps, d, hv, hleads, hpassed, rfl, hd, hresource, honce⟩ := hplace
  obtain ⟨json, hjson, hwrites⟩ := Writer.exists_document hall hv
  have hat : (Json.object members).at? (.member "items" :: .item i :: steps) = json.at? steps :=
    (Json.at?_member hitems _).trans (Json.at?_item hjson _)
  have hgraph : (reply.writer config s).graph.Arises := hg.grow hgrows
  have hsame : ∀ {names others : List String}, names.map Text.asciiLower = others.map Text.asciiLower →
      (∀ name ∈ others, Text.isIdentifier name = true) → ∀ name ∈ names, Text.isIdentifier name = true := by
    intro names others hsame hothers name hname
    rw [← Text.isIdentifier_asciiLower]
    exact Text.isIdentifier_map hothers _ (hsame ▸ List.mem_map_of_mem hname)
  have hidentifiers := hsame hpassed fun name hname => hnames name (List.mem_append_right _ hname)
  -- a path below the item is expanded if the whole path starts with its names
  have hcontains : ∀ lead, lead <+: passed → lead ≠ [] →
      ((reply.writer config s).expansion.contains (WriteSlot.pathAlong "" lead) = true ↔
        lead.map Text.asciiLower <+: (selected ++ expanded).map Text.asciiLower) := by
    intro lead hlead hleadSome
    have hspelledSome : spelled ≠ [] := by
      rintro rfl
      exact hsome (List.append_eq_nil_iff.mp (List.map_eq_nil_iff.mp hspelled.symm)).2
    rw [← hspelled, Reply.writer, hexpand]
    exact Expansion.contains_ofPaths_iff hspelledSome hleadSome (hsame hspelled hnames)
      fun name hname => hidentifiers name (hlead.subset hname)
  refine ⟨fun hprefix => ?_, fun hinline hinlined => ?_⟩
  · obtain ⟨found, hfound, hinlined⟩ := hleads.exists_inlined hgraph hletters hwrites rfl
      (fun lead hlead hleadSome => (hcontains lead hlead hleadSome).mpr
        ((hlead.map _).trans (hpassed ▸ hprefix))) honce
    exact ⟨found, hat.trans hfound, hinlined⟩
  · obtain ⟨found, hfound, hinlined⟩ := hinlined
    have hpassedSome : passed ≠ [] := by
      rintro rfl
      exact hsome (List.map_eq_nil_iff.mp hpassed.symm)
    rw [← hpassed, ← hcontains passed (List.prefix_refl _) hpassedSome]
    by_contra hnot
    refine hleads.not_inlined hgraph hletters hwrites hd hresource ?_ (hat.symm.trans hfound) hinlined
    rw [Writer.inlines, hinline, Bool.false_or, hleads.path]
    exact Bool.eq_false_iff.mpr hnot

/-! ## Hats on hats -/

/-- What comes of a query for the URI of which a server is asked: its plan and URI, the document that answers it
with the reply that is written in it, and the state after that. -/
structure Delivery where
  query : Query
  plan : Plan
  uri : QueryUri
  document : Json
  reply : Reply
  after : Heap × Surroundings Served

/-- How a query over a type is answered that selects members and expands a path behind that. -/
def deliver (g : TypeGraph) (h : Heap) (served : Served) (typeName : String) (selected expanded : List String) :
    Except Error Delivery := do
  let query ← (Query.onType g typeName).1
  let plan ← (query.expanding "x" "x" selected expanded).plan
  let uri ← plan.uri g
  let endpoint ← g.endpoint uri.path
  let answered := (answer .standard (.fetch (Client.absolute .standard uri.text))).runOn (h, ⟨g, served⟩)
  let document ← answered.1
  let reply ← ((interpret .standard endpoint everything uri.queryString).runOn (h, ⟨g, served⟩)).1
  pure { query, plan, uri, document, reply, after := answered.2 }

/-- The answer to a query, step by step. -/
structure Delivers (g : TypeGraph) (h : Heap) (served : Served) (typeName : String)
    (selected expanded : List String) (d : Delivery) : Prop where
  start : (Query.onType g typeName).1 = .ok d.query
  plan : (d.query.expanding "x" "x" selected expanded).plan = .ok d.plan
  uri : d.plan.uri g = .ok d.uri
  answer : (answer .standard (.fetch (Client.absolute .standard d.uri.text))).runOn (h, ⟨g, served⟩) =
    (.ok d.document, d.after)
  reply : ∃ e, g.endpoint d.uri.path = .ok e ∧
    ((interpret .standard e everything d.uri.queryString).runOn (h, ⟨g, served⟩)).1 = .ok d.reply

theorem exists_delivers {typeName : String} {told : Delivery → Bool}
    (hdeliver : (deliver g h served typeName selected expanded).toOption.any told = true) :
    ∃ d, Delivers g h served typeName selected expanded d ∧ told d = true := by
  obtain ⟨d, hd, htold⟩ := (Option.any_eq_true _ _).mp hdeliver
  cases hdelivered : deliver g h served typeName selected expanded with
  | error fault =>
      rw [hdelivered] at hd
      cases hd
  | ok delivered =>
      rw [hdelivered] at hd
      cases hd
      obtain ⟨query, hquery, hrest⟩ := Expr.exists_of_bind_eq_ok hdelivered
      obtain ⟨plan, hplan, hrest⟩ := Expr.exists_of_bind_eq_ok hrest
      obtain ⟨uri, huri, hrest⟩ := Expr.exists_of_bind_eq_ok hrest
      obtain ⟨endpoint, hendpoint, hrest⟩ := Expr.exists_of_bind_eq_ok hrest
      generalize hanswer : (answer .standard (.fetch (Client.absolute .standard uri.text))).runOn
        (h, ⟨g, served⟩) = answered at hrest
      obtain ⟨outcome, after⟩ := answered
      obtain ⟨document, rfl, hrest⟩ := Expr.exists_of_bind_eq_ok hrest
      obtain ⟨reply, hreply, hrest⟩ := Expr.exists_of_bind_eq_ok hrest
      cases hrest
      exact ⟨{ query, plan, uri, document, reply, after },
        ⟨hquery, hplan, huri, hanswer, endpoint, hendpoint, hreply⟩, htold⟩

/-- Whether a value is an object. -/
def isAt (x : ObjectId) : Value → Bool
  | .object y => y == x
  | _ => false

/-- Whether an object is listed first, and a member of it that is not always expanded leads to a resource. -/
def Delivery.leads (d : Delivery) (y x : ObjectId) (name key : String) : Bool :=
  (match d.reply.answer with
    | .listing l => l.items[0]?.any (isAt y)
    | .value _ => false) &&
  (d.after.2.graph.get (d.after.1.typeOf y)).toOption.any fun t => t.properties.any fun p =>
    p.name == name && p.jsonName == key && p.isReadable && !p.alwaysExpanded && isAt x (p.read d.after.1 y) &&
      (d.after.2.graph.get (d.after.1.typeOf x)).toOption.any (·.isResource)

theorem exists_listsAt {d : Delivery} {y x : ObjectId} {name key : String} (hne : x ≠ y)
    (hleads : d.leads y x name key = true) :
    ∃ l slot, d.reply.answer = .listing l ∧ slot.inline = false ∧
      (d.reply.writer .standard d.after).ListsAt d.reply.itemType l.items [name]
        [.member "items", .item 0, .member key] slot x := by
  have hat : ∀ {x : ObjectId} {v : Value}, isAt x v = true → v = .object x := by
    intro x v hv
    cases v with
    | object y => exact congrArg Value.object (eq_of_beq hv)
    | _ => cases hv
  have hget : ∀ {id : TypeId} {t : Descriptor}, (d.after.2.graph.get id).toOption = some t →
      d.after.2.graph.get id = .ok t := by
    intro id t ht
    cases hid : d.after.2.graph.get id with
    | error fault =>
        rw [hid] at ht
        cases ht
    | ok other =>
        rw [hid] at ht
        exact congrArg Except.ok (Option.some.inj ht)
  obtain ⟨hitem, hmember⟩ := (Bool.and_eq_true _ _).mp hleads
  obtain ⟨t, ht, hmember⟩ := (Option.any_eq_true _ _).mp hmember
  obtain ⟨p, hp, hmember⟩ := List.any_eq_true.mp hmember
  simp only [Bool.and_eq_true, beq_iff_eq, Bool.not_eq_true'] at hmember
  obtain ⟨⟨⟨⟨⟨rfl, rfl⟩, hreadable⟩, hplain⟩, hread⟩, hresource⟩ := hmember
  obtain ⟨c, hc, hresource⟩ := (Option.any_eq_true _ _).mp hresource
  cases hlisting : d.reply.answer with
  | value v =>
      rw [hlisting] at hitem
      cases hitem
  | listing l =>
      rw [hlisting] at hitem
      obtain ⟨v, hv, hfirst⟩ := (Option.any_eq_true _ _).mp hitem
      let slot : WriteSlot := ⟨p.type, (WriteSlot.root d.reply.itemType).pathTo p.name, p.alwaysExpanded, [y]⟩
      refine ⟨l, slot, rfl, hplain, 0, v, [p.name], [.member p.jsonName], c, hv, ?_, rfl, rfl, hget hc,
        hresource, ?_⟩
      · rw [hat hfirst]
        refine .property (hget ht) hp hreadable ?_
        rw [show p.read (d.reply.writer .standard d.after).heap y = .object x from hat hread]
        exact .here _ _
      · simpa [slot] using hne

/-- Critters have hats, and a hat has a brand and another hat on top. -/
def haberdashery : Registry :=
  let resource (name : String) (properties : List PropertyDef) : SourceType :=
    { SourceType.bare name .resource with properties := .primaryId "Id" (.value .int32) :: properties }
  ((Registry.empty.withType (resource "Brand" [])).withType
    (resource "Critter" [.ofType "Hat" (.named "Hat")])).withType
    (resource "Hat" [.ofType "Brand" (.named "Brand"), .ofType "Hat" (.named "Hat")])

/-- A critter with a hat of some brand and another hat on top. -/
def stacked : Heap :=
  ⟨#[⟨⟨7⟩, [("Id", .int 1)]⟩, ⟨⟨8⟩, [("Hat", .object ⟨2⟩), ("Id", .int 1)]⟩,
    ⟨⟨9⟩, [("Brand", .object ⟨0⟩), ("Hat", .object ⟨3⟩), ("Id", .int 1)]⟩, ⟨⟨9⟩, [("Id", .int 2)]⟩], #[]⟩

/-- The server of the critter and its hats, before the first request. -/
def hatter : Served :=
  ⟨⟨[(⟨7⟩, [.object ⟨0⟩]), (⟨8⟩, [.object ⟨1⟩]), (⟨9⟩, [.object ⟨2⟩, .object ⟨3⟩])]⟩, .empty 1⟩

theorem arises_haberdashery : haberdashery.graph.Arises :=
  Registry.arises_graph (((Registry.keyedByName_empty.withType _).withType _).withType _) (by decide +kernel)

/-- The hat on top of a hat is written inline behind the selection of hats: the path of hats of critters starts as
that of hats of hats does. -/
theorem top_hat_inline : ∃ d l slot,
    Delivers haberdashery.graph stacked hatter "Critter" ["Hat"] ["Hat"] d ∧
      d.uri.text = "critters?$select=Hat&$expand=hat.hat" ∧ d.reply.answer = .listing l ∧
      (d.reply.writer .standard d.after).ListsAt d.reply.itemType l.items ["Hat"]
        [.member "items", .item 0, .member "hat"] slot ⟨3⟩ ∧
      (d.reply.writer .standard d.after).InlinesAt d.document [.member "items", .item 0, .member "hat"] slot ⟨3⟩ := by
  have hdeliver : (deliver haberdashery.graph stacked hatter "Critter" ["Hat"] ["Hat"]).toOption.any (fun d =>
      d.uri.text == "critters?$select=Hat&$expand=hat.hat" && decide (Text.IsSegment d.uri.path) &&
        d.after.2.graph.types.all (fun t => t.properties.all Property.startsWithLetter) &&
        d.leads ⟨2⟩ ⟨3⟩ "Hat" "hat") = true := by
    decide +kernel
  obtain ⟨d, hd, htold⟩ := exists_delivers hdeliver
  simp only [Bool.and_eq_true, beq_iff_eq, decide_eq_true_eq, List.all_eq_true] at htold
  obtain ⟨⟨⟨htext, hpath⟩, hletters⟩, hleads⟩ := htold
  obtain ⟨l, slot, hlisting, -, hlists⟩ := exists_listsAt (by decide) hleads
  obtain ⟨e, reply, hendpoint, hreply, hinline⟩ := inlinesAt_iff arises_haberdashery hletters (by decide)
    (by decide) hd.plan hd.uri hpath (ParseCache.isFaithful_empty _ _) hd.answer
  have hsame : reply = d.reply := by
    obtain ⟨e', hendpoint', hreply'⟩ := hd.reply
    cases hendpoint.symm.trans hendpoint'
    rw [hreply] at hreply'
    exact Except.ok.inj hreply'
  rw [hsame] at hinline
  exact ⟨d, l, slot, hd, htext, hlisting, hlists, (hinline l hlisting _ _ _ hlists).1 (by decide)⟩

/-- Whether a document has a text under a key, and nothing under another key. -/
def tells (key text other : String) : Json → Bool
  | .object members =>
    (Entries.get? key members).bind Json.asString? == some text && (Entries.get? other members).isNone
  | _ => false

theorem exists_of_tells {key text other : String} {place : List Json.Step}
    (h : (document.at? place).any (tells key text other) = true) :
    ∃ members, document.at? place = some (.object members) ∧
      Entries.get? key members = some (.string text) ∧ Entries.get? other members = none := by
  obtain ⟨json, hjson, htells⟩ := (Option.any_eq_true _ _).mp h
  cases json with
  | object members =>
      obtain ⟨hkey, hother⟩ := (Bool.and_eq_true _ _).mp htells
      obtain ⟨value, hvalue, htext⟩ := Option.bind_eq_some_iff.mp (eq_of_beq hkey)
      refine ⟨members, hjson, ?_, Option.isNone_iff_eq_none.mp hother⟩
      cases value with
      | string s => rw [hvalue, Option.some.inj htext]
      | _ => cases htext
  | _ => cases htells

/-- **An expansion is lost behind a selection.** The brand of a hat is written inline where hats are listed with
their brands. It is a reference where the hats are selected from critters before. -/
theorem expansion_lost : ∃ d l slot d',
    Delivers haberdashery.graph stacked hatter "Critter" ["Hat"] ["Brand"] d ∧
      d.uri.text = "critters?$select=Hat&$expand=hat.brand" ∧ d.reply.answer = .listing l ∧
      (d.reply.writer .standard d.after).ListsAt d.reply.itemType l.items ["Brand"]
        [.member "items", .item 0, .member "brand"] slot ⟨0⟩ ∧
      (∃ members, d.document.at? [.member "items", .item 0, .member "brand"] = some (.object members) ∧
        Entries.get? "_ref" members = some (.string "/brands/1") ∧ Entries.get? "_uri" members = none) ∧
      Delivers haberdashery.graph stacked hatter "Hat" [] ["Brand"] d' ∧ d'.uri.text = "hats?$expand=brand" ∧
      ∃ members, d'.document.at? [.member "items", .item 0, .member "brand"] = some (.object members) ∧
        Entries.get? "_uri" members = some (.string "/brands/1") ∧ Entries.get? "_ref" members = none := by
  have hselected : (deliver haberdashery.graph stacked hatter "Critter" ["Hat"] ["Brand"]).toOption.any (fun d =>
      d.uri.text == "critters?$select=Hat&$expand=hat.brand" && d.leads ⟨2⟩ ⟨0⟩ "Brand" "brand" &&
        (d.document.at? [.member "items", .item 0, .member "brand"]).any (tells "_ref" "/brands/1" "_uri")) =
      true := by
    decide +kernel
  have hlisted : (deliver haberdashery.graph stacked hatter "Hat" [] ["Brand"]).toOption.any (fun d =>
      d.uri.text == "hats?$expand=brand" &&
        (d.document.at? [.member "items", .item 0, .member "brand"]).any (tells "_uri" "/brands/1" "_ref")) =
      true := by
    decide +kernel
  obtain ⟨d, hd, htold⟩ := exists_delivers hselected
  obtain ⟨d', hd', htold'⟩ := exists_delivers hlisted
  simp only [Bool.and_eq_true, beq_iff_eq] at htold htold'
  obtain ⟨⟨htext, hleads⟩, hreference⟩ := htold
  obtain ⟨htext', hinline⟩ := htold'
  obtain ⟨l, slot, hlisting, -, hlists⟩ := exists_listsAt (by decide) hleads
  exact ⟨d, l, slot, d', hd, htext, hlisting, hlists, exists_of_tells hreference, hd', htext',
    exists_of_tells hinline⟩

end Server

end ResourceQuery
