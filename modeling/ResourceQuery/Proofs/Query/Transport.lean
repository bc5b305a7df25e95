import ResourceQuery.Proofs.Expr.Soundness
import ResourceQuery.Proofs.Query.Canonical
import ResourceQuery.Proofs.Text.Percent
import ResourceQuery.Proofs.Text.Splitting
import ResourceQuery.Query.Parameters
import ResourceQuery.Query.Uri

set_option autoImplicit false

/-! # What arrives of a plan

A plan goes to a server as the query string of its URI. What the server reads there (`Plan.received`) has
every part of the plan: expressions as the grammar reads their texts, everything else as it was. No
character of a constant or a name can change this, for three reasons, which are the sections below. A value
is encoded without the marks that separate parameters, and decoded to itself (`decode_encode`). So the
string falls into the keys and values that it was made of (`readSegments_segments`). And each key is one
that the server knows and occurs once, because the keys stand in the order of `Parameters.keys`
(`Plan.keys_sublist`).

A path that stands twice in a plan is expanded once; a plan that was made from a query has none.
-/

namespace ResourceQuery

/-! ## What is to arrive -/

/-- The projection that a server is asked for: what is fetched later is a first row, and the URI of a
listing is that of the listing. -/
def Projection.requested : Projection → Projection
  | .firstLazy => .first
  | .toUri => .enumerable
  | p => p

namespace Plan

/-- The type that a plan names: its own, unless this is the one at the root of the collection. -/
def namedType (g : TypeGraph) (p : Plan) : Except Error (Option String) := do
  let declared ← g.get p.sourceType
  let root := (declared.address?.map (·.uriBase)).getD p.sourceType
  if p.elementType = root then .ok none
  else (g.get p.elementType).map fun d => some d.name

/-- An optional part, read from its text. -/
def readBack {α β : Type} (text : α → Except Error String) (read : String → Except Error β) :
    Option α → Except Error (Option β)
  | none => .ok none
  | some part => do
    let written ← text part
    (read written).map some

/-- The paths to expand in small letters, each once. -/
def expandedPaths (p : Plan) : List String :=
  (p.expand.map Text.asciiLower).eraseDups

/-- What a server that allows `depth` levels of nesting is told of a plan. -/
def received (g : TypeGraph) (depth : Nat) (p : Plan) : Except Error Parameters := do
  let ofType ← p.namedType g
  let filter ← readBack Lambda.text (Lambda.parse · depth) p.filter
  let orderBy ← readBack SortKey.text (SortKey.parse · depth) p.orderBy
  let groupBy ← readBack Lambda.text (Lambda.parse · depth) p.groupBy
  let select ← readBack Lambda.selectionText (Lambda.parseSelection · depth) p.select
  .ok { ofType, filter, orderBy, groupBy, select, skip := p.skip, top := p.top?,
        expand := p.expandedPaths, includeTotalCount := p.includeTotalCount,
        projection := p.projection.requested }

end Plan

/-! ## Keys and values -/

namespace Parameters

/-- The keys of parameters, in the order in which a URI has them. -/
def keys : List String :=
  ["$oftype", "$filter", "$orderby", "$groupby", "$select", "$skip", "$top", "$expand", "$totalcount",
    "$projection"]

theorem nodup_keys : keys.Nodup := by decide

/-- What a key looks like: a dollar sign first, no mark that separates or escapes, and small letters. -/
theorem key_spec : ∀ key ∈ keys, Text.startsWith "$" key = true ∧ Text.asciiLower key = key ∧
    '&' ∉ key.toList ∧ '=' ∉ key.toList ∧ decode key = .ok key := by
  simp only [keys, List.forall_mem_cons, List.not_mem_nil, false_implies, implies_true, and_true]
  refine ⟨?_, ?_, ?_, ?_, ?_, ?_, ?_, ?_, ?_, ?_⟩ <;>
    exact ⟨by decide, by decide, by decide, by decide, by rfl⟩

/-- The characters that are kept in a value are none of the marks that separate or escape. -/
structure EscapesMarks (keep : Char → Bool) : Prop where
  percent : keep '%' = false
  plus : keep '+' = false
  ampersand : keep '&' = false

theorem escapesMarks_queryValue : EscapesMarks Percent.keptInQueryValue :=
  ⟨by decide, by decide, by decide⟩

variable {keep : Char → Bool}

/-- A value is decoded to itself: plus signs and percent signs are escaped in it. -/
theorem decode_encode (hkeep : EscapesMarks keep) (value : String) :
    decode (Percent.encode keep value) = .ok value := by
  have hplus : '+' ∉ (Percent.encode keep value).toList :=
    Percent.not_mem_encode hkeep.plus (by decide) value
  have hkept : (Percent.encode keep value).toList.map (fun c => if c = '+' then ' ' else c) =
      (Percent.encode keep value).toList := by
    refine (List.map_congr_left fun c hc => if_neg fun heq => ?_).trans (List.map_id _)
    exact hplus (heq ▸ hc)
  rw [decode, hkept, String.ofList_toList, Percent.decode?_encode hkeep.percent]

/-- A key and its encoded value. -/
def segment (keep : Char → Bool) (parameter : String × String) : String :=
  parameter.1 ++ "=" ++ Percent.encode keep parameter.2

theorem toList_segment (keep : Char → Bool) (parameter : String × String) :
    (segment keep parameter).toList =
      parameter.1.toList ++ '=' :: (Percent.encode keep parameter.2).toList := by
  rw [segment, String.toList_append, String.toList_append, List.append_assoc]
  rfl

theorem not_mem_segment (hkeep : EscapesMarks keep) {parameter : String × String}
    (hkey : parameter.1 ∈ keys) : '&' ∉ (segment keep parameter).toList := by
  rw [toList_segment, List.mem_append, List.mem_cons]
  rintro (hmem | hmem | hmem)
  · exact (key_spec _ hkey).2.2.1 hmem
  · exact absurd hmem (by decide)
  · exact Percent.not_mem_encode hkeep.ampersand (by decide) _ hmem

theorem keyAndValue_segment {parameter : String × String} (hkey : parameter.1 ∈ keys) :
    keyAndValue (segment keep parameter) = .ok (parameter.1, Percent.encode keep parameter.2) := by
  obtain ⟨-, hlower, -, hequals, hdecode⟩ := key_spec _ hkey
  have hsplit : Text.splitOnce '=' (segment keep parameter) =
      some (parameter.1, Percent.encode keep parameter.2) :=
    Text.splitOnce_append hequals
  rw [keyAndValue, hsplit, Option.getD_some]
  dsimp only
  rw [hdecode, Except.map, hlower]

/-! ## The query string -/

/-- Takes up parameters one after another. -/
def setAll (depth : Nat) (q : Parameters) (parameters : List (String × String)) :
    Except Error Parameters :=
  parameters.foldlM (fun q parameter => q.set depth parameter.1 parameter.2) q

/-- Segments that were made from different known keys set the values of these keys. -/
theorem readSegments_segments (hkeep : EscapesMarks keep) (depth : Nat)
    {parameters : List (String × String)} (hknown : ∀ parameter ∈ parameters, parameter.1 ∈ keys)
    (hnodup : (parameters.map (·.1)).Nodup) (q : Parameters) (seen : List String)
    (hseen : ∀ parameter ∈ parameters, parameter.1 ∉ seen) :
    readSegments depth q seen (parameters.map (segment keep)) = setAll depth q parameters := by
  induction parameters generalizing q seen with
  | nil => rfl
  | cons parameter rest ih =>
      have hkey := hknown parameter List.mem_cons_self
      rw [List.map_cons, List.nodup_cons] at hnodup
      have hsome : (segment keep parameter).isEmpty = false := by
        rw [← Bool.not_eq_true, String.isEmpty_iff, ← String.toList_inj, toList_segment]
        simp
      have hfresh : seen.contains parameter.1 = false := by
        rw [← Bool.not_eq_true, List.contains_iff_mem]
        exact hseen parameter List.mem_cons_self
      -- the keys behind this one differ from it, and so from all that were read
      have hrest : ∀ q', readSegments depth q' (parameter.1 :: seen) (rest.map (segment keep)) =
          setAll depth q' rest := by
        intro q'
        refine ih (fun p hp => hknown p (List.mem_cons_of_mem _ hp)) hnodup.2 q' _ fun p hp => ?_
        rw [List.mem_cons, not_or]
        exact ⟨fun heq => hnodup.1 (heq ▸ List.mem_map_of_mem hp),
          hseen p (List.mem_cons_of_mem _ hp)⟩
      rw [List.map_cons, readSegments, hsome, if_neg (by nofun), keyAndValue_segment hkey, setAll,
        List.foldlM_cons]
      simp only [bind, Except.bind, (key_spec _ hkey).1, hfresh, decode_encode hkeep, Bool.not_true,
        Bool.false_eq_true, if_false]
      cases q.set depth parameter.1 parameter.2 with
      | error e => rfl
      | ok q' => exact hrest q'

/-- **Segments with separators between them are read as the parameters they were made of.** -/
theorem parse_segments (hkeep : EscapesMarks keep) {config : Config}
    {parameters : List (String × String)} (hkeys : (parameters.map (·.1)).Sublist keys)
    (hlength : (Text.join "&" (parameters.map (segment keep))).utf8ByteSize ≤ config.maxQueryLength) :
    parse config (Text.join "&" (parameters.map (segment keep))) =
      setAll config.maxExpressionDepth .none parameters := by
  have hknown : ∀ parameter ∈ parameters, parameter.1 ∈ keys := fun parameter hmem =>
    hkeys.subset (List.mem_map_of_mem hmem)
  have hreads := readSegments_segments hkeep config.maxExpressionDepth hknown
    (hkeys.nodup nodup_keys) .none [] fun _ _ => List.not_mem_nil
  rw [parse, if_neg (by omega)]
  cases parameters with
  | nil => rfl
  | cons parameter rest =>
      -- the string starts with a key, and so not with a question mark
      have hstart : Text.after? "?" (Text.join "&" ((parameter :: rest).map (segment keep))) = .none := by
        obtain ⟨cs, hcs⟩ : ∃ cs, (Text.join "&" ((parameter :: rest).map (segment keep))).toList =
            parameter.1.toList ++ cs := by
          rw [List.map_cons]
          cases rest with
          | nil => exact ⟨_, toList_segment keep parameter⟩
          | cons next later =>
              rw [List.map_cons, Text.join_cons _ _ (List.cons_ne_nil _ _), String.toList_append,
                String.toList_append, toList_segment, List.append_assoc, List.append_assoc]
              exact ⟨_, rfl⟩
        have hdollar := (key_spec _ (hknown parameter List.mem_cons_self)).1
        cases hchars : parameter.1.toList with
        | nil =>
            rw [Text.startsWith, hchars] at hdollar
            cases hdollar
        | cons c more =>
            rw [Text.startsWith, hchars] at hdollar
            have hc : '$' = c := by simpa using hdollar
            rw [Text.after?, hcs, hchars, ← hc]
            rfl
      have hsplit : Text.splitOn '&' (Text.join "&" ((parameter :: rest).map (segment keep))) =
          (parameter :: rest).map (segment keep) := by
        refine Text.splitOn_join (List.cons_ne_nil _ _) fun piece hpiece => ?_
        obtain ⟨p, hp, rfl⟩ := List.mem_map.1 hpiece
        exact not_mem_segment hkeep (hknown p hp)
      rw [hstart, Option.getD_none, hsplit, hreads]

end Parameters

namespace QueryUri

variable {u : QueryUri}

/-- A query string is read as the parameters it was made of. -/
theorem parse_queryString {config : Config} (hkeys : (u.parameters.map (·.1)).Sublist Parameters.keys)
    (hlength : u.queryString.utf8ByteSize ≤ config.maxQueryLength) :
    Parameters.parse config u.queryString =
      Parameters.setAll config.maxExpressionDepth .none u.parameters :=
  Parameters.parse_segments Parameters.escapesMarks_queryValue hkeys hlength

end QueryUri

/-! ## Values that are no expressions -/

theorem Decimal.uint64?_naturalText (n : UInt64) : uint64? (naturalText n.toNat) = some n := by
  have hdigits : (naturalText n.toNat).toList = Nat.toDigits 10 n.toNat := toList_naturalText _
  have hfits : n.toNat < Word.uint64Bound := n.toNat_lt
  have hword : Word.uint64? n.toNat = some n := by
    rw [Word.uint64?, if_pos hfits, UInt64.ofNat_toNat]
  unfold uint64?
  rw [hdigits]
  split
  · -- the first character is a digit, and not a plus sign
    rename_i rest hplus
    have hdigit := all_isDigit_toDigits n.toNat '+' (hplus ▸ List.mem_cons_self)
    cases hdigit
  · dsimp only
    rw [natural?_toDigits, Option.bind_some, hword]

theorem Text.trim_naturalText (n : Nat) : trim (Decimal.naturalText n) = Decimal.naturalText n := by
  refine trim_of_forall fun c hc => ?_
  rw [Decimal.toList_naturalText] at hc
  exact CharClass.of_isDigit (p := fun d => CharClass.isWhiteSpace d = false) (by decide)
    (Decimal.all_isDigit_toDigits n c hc)

namespace Parameters

theorem count_naturalText (key : String) (n : UInt64) :
    count key (Decimal.naturalText n.toNat) = .ok n := by
  unfold count
  rw [Text.trim_naturalText, Decimal.uint64?_naturalText]

/-! ## Paths -/

/-- A path: identifiers with points between them. -/
def IsPath (path : String) : Prop :=
  (Text.splitOn '.' path).all Text.isIdentifier = true

theorem mem_path {path : String} (hpath : IsPath path) {c : Char} (hc : c ∈ path.toList) :
    c = '.' ∨ CharClass.isIdentifierRest c = true := by
  have hplace : c = '.' ∨ ∃ piece ∈ Text.splitChars '.' path.toList, c ∈ piece :=
    Text.mem_splitChars hc
  refine hplace.imp id ?_
  rintro ⟨piece, hpiece, hmem⟩
  have hidentifier : Text.isIdentifier (String.ofList piece) = true :=
    List.all_eq_true.1 hpath _ (List.mem_map_of_mem hpiece)
  exact Text.isIdentifierRest_of_mem hidentifier (by rwa [String.toList_ofList])

theorem IsPath.asciiLower {path : String} (hpath : IsPath path) : IsPath (Text.asciiLower path) := by
  have hpoint : ∀ c : Char, c.toLower = '.' ↔ c = '.' := by
    intro c
    refine ⟨fun h => ?_, by rintro rfl; decide⟩
    by_cases hcapital : 65 ≤ c.toNat ∧ c.toNat ≤ 90
    · -- a capital becomes a letter
      exfalso
      obtain ⟨hlow, hhigh⟩ := hcapital
      rw [← Char.ofNat_toNat c] at h
      generalize c.toNat = n at h hlow hhigh
      interval_cases n <;> exact absurd h (by decide)
    · have hsame : c.toLower = c := by
        unfold Char.toLower
        exact dif_neg hcapital
      exact hsame ▸ h
  have hsplit : Text.splitOn '.' (Text.asciiLower path) =
      (Text.splitOn '.' path).map Text.asciiLower := by
    unfold Text.splitOn Text.asciiLower
    rw [String.toList_ofList, Text.splitChars_map hpoint, List.map_map, List.map_map]
    exact List.map_congr_left fun cs _ => by simp
  rw [IsPath, hsplit, List.all_map]
  refine (congrArg (List.all _) (funext fun s => ?_)).trans hpath
  exact Text.isIdentifier_asciiLower s

/-- Paths in small letters are taken up in order, each once. -/
theorem addPaths_eq {paths : List String} (hpaths : ∀ path ∈ paths, IsPath path)
    (hlower : ∀ path ∈ paths, Text.asciiLower path = path) (done : List String)
    (hdone : ∀ path ∈ done, Text.asciiLower path = path) :
    addPaths done paths = .ok (done ++ (paths.filter fun path => !done.contains path).eraseDups) := by
  induction paths generalizing done with
  | nil => simp [addPaths]
  | cons path rest ih =>
      have hpath := hpaths path List.mem_cons_self
      have hsmall := hlower path List.mem_cons_self
      have hrest := fun d hd => ih (fun p hp => hpaths p (List.mem_cons_of_mem _ hp))
        (fun p hp => hlower p (List.mem_cons_of_mem _ hp)) d hd
      have hsome : path.isEmpty = false := by
        rw [← Bool.not_eq_true, String.isEmpty_iff]
        rintro rfl
        cases hpath
      -- among small letters, the same up to case is the same
      have hsame : (done.any fun other => Text.sameIgnoringCase other path) = done.contains path := by
        rw [Bool.eq_iff_iff, List.any_eq_true, List.contains_iff_mem]
        constructor
        · rintro ⟨other, hother, heq⟩
          rw [Text.sameIgnoringCase_iff, hdone other hother, hsmall] at heq
          exact heq ▸ hother
        · exact fun hmem => ⟨path, hmem, Text.sameIgnoringCase_refl path⟩
      rw [IsPath] at hpath
      rw [addPaths, hsome, if_neg (by nofun), hpath, Bool.not_true, if_neg (by nofun), hsame]
      by_cases hmem : done.contains path = true
      · rw [if_pos hmem, hrest done hdone, List.filter_cons_of_neg (by rw [hmem]; nofun)]
      · rw [if_neg hmem, hrest (done ++ [path]), List.filter_cons_of_pos (by simpa using hmem),
          List.eraseDups_cons, List.append_assoc, List.singleton_append, List.filter_filter]
        · congr 5
          funext other
          rw [List.contains_append, Bool.not_or, Bool.and_comm, List.contains_cons, List.contains_nil,
            Bool.or_false]
        · intro p hp
          rcases List.mem_append.1 hp with hp | hp
          · exact hdone p hp
          · exact List.mem_singleton.1 hp ▸ hsmall

theorem paths_expandText {paths : List String} (hsome : paths ≠ [])
    (hpaths : ∀ path ∈ paths, IsPath path) :
    Parameters.paths (Plan.expandText paths) = .ok (paths.map Text.asciiLower).eraseDups := by
  have hlowered : ∀ path ∈ paths.map Text.asciiLower, IsPath path := by
    intro path hpath
    obtain ⟨original, horiginal, rfl⟩ := List.mem_map.1 hpath
    exact (hpaths original horiginal).asciiLower
  have hcomma : ∀ path ∈ paths.map Text.asciiLower, ',' ∉ path.toList := by
    intro path hpath hmem
    rcases mem_path (hlowered path hpath) hmem with heq | hrest
    · exact absurd heq (by decide)
    · exact absurd hrest (by decide)
  have hsplit : Text.splitOn ',' (Plan.expandText paths) = paths.map Text.asciiLower :=
    Text.splitOn_join (by simpa using hsome) hcomma
  have htrimmed : (paths.map Text.asciiLower).map Text.trim = paths.map Text.asciiLower := by
    refine (List.map_congr_left fun path hpath => ?_).trans (List.map_id _)
    refine Text.trim_of_forall fun c hc => ?_
    rcases mem_path (hlowered path hpath) hc with rfl | hrest
    · decide
    · exact CharClass.isWhiteSpace_of_isIdentifierRest hrest
  have hlower : ∀ path ∈ paths.map Text.asciiLower, Text.asciiLower path = path := by
    intro path hpath
    obtain ⟨original, -, rfl⟩ := List.mem_map.1 hpath
    exact Text.asciiLower_asciiLower original
  have hall : (paths.map Text.asciiLower).filter (fun path => !([] : List String).contains path) =
      paths.map Text.asciiLower := List.filter_eq_self.2 fun _ _ => rfl
  rw [Parameters.paths, hsplit, htrimmed, addPaths_eq hlowered hlower [] nofun, List.nil_append, hall]

/-! ## The parts of a plan -/

variable {depth : Nat}

theorem setAll_append (q : Parameters) (first second : List (String × String)) :
    setAll depth q (first ++ second) = setAll depth q first >>= (setAll depth · second) := by
  rw [setAll, List.foldlM_append]
  rfl

/-- What the parameter of an optional part sets, in front of further parameters. -/
theorem setAll_parameter {α β : Type} {key : String} {text : α → Except Error String}
    {part : Option α} {ps : List (String × String)} (read : String → Except Error β)
    (put : Option β → Parameters) (hps : Plan.parameter key text part = .ok ps)
    (hset : ∀ value, (put Option.none).set depth key value = (read value).map fun b => put (some b))
    (rest : List (String × String)) :
    setAll depth (put Option.none) (ps ++ rest) =
      Plan.readBack text read part >>= fun b => setAll depth (put b) rest := by
  rw [setAll_append]
  cases part with
  | none =>
      cases hps
      rfl
  | some a =>
      obtain ⟨value, hvalue, hps⟩ := Expr.exists_of_bind_eq_ok hps
      cases hps
      rw [setAll, List.foldlM_cons, hset, Plan.readBack, hvalue]
      cases hread : read value with
      | error e => simp [bind, Except.bind, Except.map, hread]
      | ok b => simp [bind, Except.bind, Except.map, hread, pure, Except.pure]

/-- A count arrives as it is. -/
theorem setAll_count {key : String} {n : Option UInt64} {ps : List (String × String)}
    (put : Option UInt64 → Parameters) (hps : Plan.parameter key Plan.countText n = .ok ps)
    (hset : ∀ value, (put Option.none).set depth key value = (count key value).map fun n => put (some n))
    (rest : List (String × String)) :
    setAll depth (put Option.none) (ps ++ rest) = setAll depth (put n) rest := by
  have hback : Plan.readBack Plan.countText (count key) n = .ok n := by
    cases n with
    | none => rfl
    | some n => simp [Plan.readBack, Plan.countText, bind, Except.bind, count_naturalText, Except.map]
  rw [setAll_parameter _ put hps hset, hback]
  rfl

theorem setAll_expand {q : Parameters} (hq : q.expand = []) {p : Plan}
    (hpaths : ∀ path ∈ p.expand, IsPath path) (rest : List (String × String)) :
    setAll depth q ((if p.expand.isEmpty then [] else [("$expand", Plan.expandText p.expand)]) ++ rest) =
      setAll depth { q with expand := p.expandedPaths } rest := by
  by_cases hempty : p.expand = []
  · have hnone : p.expandedPaths = q.expand := by
      rw [hq, Plan.expandedPaths, hempty]
      rfl
    rw [hempty, hnone]
    rfl
  · have hsome : p.expand.isEmpty = false := List.isEmpty_eq_false_iff.2 hempty
    have hset : q.set depth "$expand" (Plan.expandText p.expand) =
        .ok { q with expand := p.expandedPaths } := by
      rw [set, paths_expandText hempty hpaths]
      rfl
    rw [hsome, if_neg (by nofun), List.singleton_append, setAll, List.foldlM_cons, hset]
    rfl

theorem setAll_total {q : Parameters} (hq : q.includeTotalCount = false) (total : Bool)
    (rest : List (String × String)) :
    setAll depth q ((if total then [("$totalcount", "true")] else []) ++ rest) =
      setAll depth { q with includeTotalCount := total } rest := by
  cases total with
  | true => rfl
  | false =>
      have hsame : { q with includeTotalCount := false } = q := by rw [← hq]
      rw [hsame]
      rfl

theorem setAll_projection {q : Parameters} (hq : q.projection = .enumerable) (projection : Projection) :
    setAll depth q (projection.wireName?.map fun name => ("$projection", name)).toList =
      .ok { q with projection := projection.requested } := by
  cases hwire : projection.wireName? with
  | none =>
      have hplain : projection.requested = q.projection := by
        rw [hq]
        cases projection <;> first | rfl | cases hwire
      rw [hplain]
      rfl
  | some name =>
      have hread : projectionOf name = .ok projection.requested := by
        cases projection <;> cases hwire <;> rfl
      have hset : q.set depth "$projection" name = .ok { q with projection := projection.requested } := by
        rw [set, hread]
        rfl
      rw [Option.map_some, Option.toList_some, setAll, List.foldlM_cons, hset]
      rfl

end Parameters

namespace Plan

variable {g : TypeGraph} {p : Plan}

theorem keys_parameter {α : Type} {key : String} {text : α → Except Error String} {part : Option α}
    {ps : List (String × String)} (hps : parameter key text part = .ok ps) :
    (ps.map (·.1)).Sublist [key] := by
  cases part with
  | none =>
      cases hps
      exact List.nil_sublist _
  | some a =>
      obtain ⟨value, -, hps⟩ := Expr.exists_of_bind_eq_ok hps
      cases hps
      exact List.Sublist.refl _

theorem typeParameter_eq (g : TypeGraph) (p : Plan) :
    p.typeParameter g = (p.namedType g).map fun name => (name.map fun n => ("$oftype", n)).toList := by
  unfold typeParameter namedType
  cases g.get p.sourceType with
  | error e => rfl
  | ok declared =>
      simp only [bind, Except.bind]
      split
      · rfl
      · cases g.get p.elementType with
        | error e => rfl
        | ok d => rfl

theorem exists_of_namedType {name : String} (hnamed : p.namedType g = .ok (some name)) :
    ∃ d, g.get p.elementType = .ok d ∧ d.name = name := by
  obtain ⟨declared, -, hnamed⟩ := Expr.exists_of_bind_eq_ok hnamed
  dsimp only at hnamed
  split at hnamed
  · cases hnamed
  · cases hd : g.get p.elementType with
    | error e =>
        rw [hd] at hnamed
        cases hnamed
    | ok d =>
        rw [hd] at hnamed
        cases hnamed
        exact ⟨d, rfl, rfl⟩

/-- The parameters that a URI of a plan has. -/
theorem exists_parts {u : QueryUri} (huri : p.uri g = .ok u) :
    ∃ named filter order group select skip top,
      p.namedType g = .ok named ∧
      parameter "$filter" Lambda.text p.filter = .ok filter ∧
      parameter "$orderby" SortKey.text p.orderBy = .ok order ∧
      parameter "$groupby" Lambda.text p.groupBy = .ok group ∧
      parameter "$select" Lambda.selectionText p.select = .ok select ∧
      parameter "$skip" countText p.skip = .ok skip ∧
      parameter "$top" countText p.top? = .ok top ∧
      u.parameters = (named.map fun n => ("$oftype", n)).toList ++ (filter ++ (order ++ (group ++ (select ++
        (skip ++ (top ++ ((if p.expand.isEmpty then [] else [("$expand", expandText p.expand)]) ++
          ((if p.includeTotalCount then [("$totalcount", "true")] else []) ++
            (p.projection.wireName?.map fun name => ("$projection", name)).toList)))))))) := by
  obtain ⟨type, htype, huri⟩ := Expr.exists_of_bind_eq_ok huri
  obtain ⟨filter, hfilter, huri⟩ := Expr.exists_of_bind_eq_ok huri
  obtain ⟨order, horder, huri⟩ := Expr.exists_of_bind_eq_ok huri
  obtain ⟨group, hgroup, huri⟩ := Expr.exists_of_bind_eq_ok huri
  obtain ⟨select, hselect, huri⟩ := Expr.exists_of_bind_eq_ok huri
  obtain ⟨skip, hskip, huri⟩ := Expr.exists_of_bind_eq_ok huri
  obtain ⟨top, htop, huri⟩ := Expr.exists_of_bind_eq_ok huri
  rw [typeParameter_eq] at htype
  cases hnamed : p.namedType g with
  | error e =>
      rw [hnamed] at htype
      cases htype
  | ok named =>
      rw [hnamed] at htype
      cases htype
      cases huri
      refine ⟨named, filter, order, group, select, skip, top, rfl, hfilter, horder, hgroup, hselect, hskip,
        htop, ?_⟩
      simp only [List.append_assoc]

/-- The keys of a URI stand in the order of all keys. -/
theorem keys_sublist {u : QueryUri} (huri : p.uri g = .ok u) :
    (u.parameters.map (·.1)).Sublist Parameters.keys := by
  obtain ⟨named, filter, order, group, select, skip, top, -, hfilter, horder, hgroup, hselect, hskip, htop,
    hparameters⟩ := exists_parts huri
  have htype : ((named.map fun n => ("$oftype", n)).toList.map (·.1)).Sublist ["$oftype"] := by
    cases named with
    | none => exact List.nil_sublist _
    | some name => exact List.Sublist.refl _
  have hexpand : ((if p.expand.isEmpty then [] else [("$expand", expandText p.expand)]).map (·.1)).Sublist
      ["$expand"] := by
    split
    · exact List.nil_sublist _
    · exact List.Sublist.refl _
  have htotal : ((if p.includeTotalCount then [("$totalcount", "true")] else []).map (·.1)).Sublist
      ["$totalcount"] := by
    split
    · exact List.Sublist.refl _
    · exact List.nil_sublist _
  have hprojection : ((p.projection.wireName?.map fun name => ("$projection", name)).toList.map (·.1)).Sublist
      ["$projection"] := by
    cases p.projection.wireName? with
    | none => exact List.nil_sublist _
    | some name => exact List.Sublist.refl _
  rw [hparameters]
  simp only [List.map_append]
  exact htype.append ((keys_parameter hfilter).append ((keys_parameter horder).append
    ((keys_parameter hgroup).append ((keys_parameter hselect).append ((keys_parameter hskip).append
      ((keys_parameter htop).append (hexpand.append (htotal.append hprojection))))))))

/-- The parameters of a plan's URI set what is to arrive of the plan. -/
theorem setAll_uri {u : QueryUri} {depth : Nat} (huri : p.uri g = .ok u)
    (hname : ∀ d, g.get p.elementType = .ok d → Text.trim d.name = d.name)
    (hpaths : ∀ path ∈ p.expand, Parameters.IsPath path) :
    Parameters.setAll depth .none u.parameters = p.received g depth := by
  obtain ⟨named, filter, order, group, select, skip, top, hnamed, hfilter, horder, hgroup, hselect, hskip,
    htop, hparameters⟩ := exists_parts huri
  have htype : ∀ rest, Parameters.setAll depth .none
      ((named.map fun n => ("$oftype", n)).toList ++ rest) =
      Parameters.setAll depth { Parameters.none with ofType := named } rest := by
    intro rest
    cases named with
    | none => rfl
    | some name =>
        have htrim : Text.trim name = name := by
          obtain ⟨d, hd, rfl⟩ := exists_of_namedType hnamed
          exact hname d hd
        have hset : Parameters.set depth .none "$oftype" name =
            .ok { Parameters.none with ofType := some name } := by
          rw [Parameters.set, htrim]
        rw [Option.map_some, Option.toList_some, List.singleton_append, Parameters.setAll,
          List.foldlM_cons, hset]
        rfl
  rw [hparameters, htype, received, hnamed]
  -- the expressions, each read from its text before the next parameter is looked at
  refine (Parameters.setAll_parameter (Lambda.parse · depth)
    (fun f => { Parameters.none with ofType := named, filter := f })
    hfilter (fun _ => rfl) _).trans (bind_congr fun filter => ?_)
  refine (Parameters.setAll_parameter (SortKey.parse · depth)
    (fun k => { Parameters.none with ofType := named, filter, orderBy := k })
    horder (fun _ => rfl) _).trans (bind_congr fun orderBy => ?_)
  refine (Parameters.setAll_parameter (Lambda.parse · depth)
    (fun k => { Parameters.none with ofType := named, filter, orderBy, groupBy := k })
    hgroup (fun _ => rfl) _).trans (bind_congr fun groupBy => ?_)
  refine (Parameters.setAll_parameter (Lambda.parseSelection · depth)
    (fun l => { Parameters.none with ofType := named, filter, orderBy, groupBy, select := l })
    hselect (fun _ => rfl) _).trans (bind_congr fun select => ?_)
  -- what is left arrives as it is
  refine (Parameters.setAll_count
    (fun n => { Parameters.none with ofType := named, filter, orderBy, groupBy, select, skip := n })
    hskip (fun _ => by rw [Parameters.set]) _).trans ?_
  refine (Parameters.setAll_count
    (fun n => { Parameters.none with
      ofType := named, filter, orderBy, groupBy, select, skip := p.skip, top := n })
    htop (fun _ => by rw [Parameters.set]) _).trans ?_
  rw [Parameters.setAll_expand rfl hpaths, Parameters.setAll_total rfl, Parameters.setAll_projection rfl]

/-! ## The whole plan -/

/-- Different paths are all expanded. -/
theorem expandedPaths_eq (hdistinct : DistinctNames p.expand) :
    p.expandedPaths = p.expand.map Text.asciiLower := by
  have hnodup : (p.expand.map Text.asciiLower).Nodup := by
    refine List.pairwise_map.2 (hdistinct.imp fun {a b} hab heq => ?_)
    rw [← Text.sameIgnoringCase_iff, hab] at heq
    cases heq
  unfold expandedPaths
  generalize p.expand.map Text.asciiLower = paths at hnodup
  induction paths with
  | nil => rfl
  | cons path rest ih =>
      rw [List.nodup_cons] at hnodup
      have hothers : rest.filter (fun other => !other == path) = rest :=
        List.filter_eq_self.2 fun other hother => by
          simpa using fun heq : other = path => hnodup.1 (heq ▸ hother)
      rw [List.eraseDups_cons, hothers, ih hnodup.2]

/-- Why an optional part did not arrive: its text is not read. -/
def Misread {α β : Type} (text : α → Except Error String) (read : String → Except Error β)
    (part : Option α) (e : Error) : Prop :=
  ∃ a ∈ part, ∃ written, text a = .ok written ∧ read written = .error e

theorem misread_of_readBack {α β : Type} {key : String} {text : α → Except Error String}
    {read : String → Except Error β} {part : Option α} {ps : List (String × String)} {e : Error}
    (hps : parameter key text part = .ok ps) (hback : readBack text read part = .error e) :
    Misread text read part e := by
  cases part with
  | none => cases hback
  | some a =>
      obtain ⟨written, hwritten, -⟩ := Expr.exists_of_bind_eq_ok hps
      rw [readBack, hwritten] at hback
      cases hread : read written with
      | error fault =>
          simp only [bind, Except.bind, hread, Except.map] at hback
          cases hback
          exact ⟨a, rfl, written, hwritten, hread⟩
      | ok b =>
          simp only [bind, Except.bind, hread, Except.map] at hback
          cases hback

theorem error_of_bind {α β : Type} {first : Except Error α} {next : α → Except Error β} {e : Error}
    (h : first >>= next = .error e) : first = .error e ∨ ∃ a, next a = .error e := by
  cases first with
  | error fault =>
      cases h
      exact Or.inl rfl
  | ok a => exact Or.inr ⟨a, h⟩

/-- A plan that has a URI arrives, unless the text of one of its expressions is not read. -/
theorem misread_of_received {u : QueryUri} {depth : Nat} {e : Error} (huri : p.uri g = .ok u)
    (hreceived : p.received g depth = .error e) :
    Misread Lambda.text (Lambda.parse · depth) p.filter e ∨
      Misread SortKey.text (SortKey.parse · depth) p.orderBy e ∨
        Misread Lambda.text (Lambda.parse · depth) p.groupBy e ∨
          Misread Lambda.selectionText (Lambda.parseSelection · depth) p.select e := by
  obtain ⟨named, filter, order, group, select, skip, top, hnamed, hfilter, horder, hgroup, hselect, -⟩ :=
    exists_parts huri
  rw [received, hnamed] at hreceived
  rcases error_of_bind hreceived with hnone | ⟨_, hreceived⟩
  · cases hnone
  rcases error_of_bind hreceived with hback | ⟨_, hreceived⟩
  · exact Or.inl (misread_of_readBack hfilter hback)
  rcases error_of_bind hreceived with hback | ⟨_, hreceived⟩
  · exact Or.inr (Or.inl (misread_of_readBack horder hback))
  rcases error_of_bind hreceived with hback | ⟨_, hreceived⟩
  · exact Or.inr (Or.inr (Or.inl (misread_of_readBack hgroup hback)))
  rcases error_of_bind hreceived with hback | ⟨_, hreceived⟩
  · exact Or.inr (Or.inr (Or.inr (misread_of_readBack hselect hback)))
  · cases hreceived

/-- **Nothing of a plan is lost on the way.** Let a plan have a URI, with no white space at the ends of its
type's name and with paths of identifiers to expand, and let the query string be no longer than a server
reads. Then the server reads from it what is to arrive of the plan, or fails as the reader of one of the
expressions fails on its text. The paths to expand arrive in order and in small letters, each once; and no
path stands twice in the plan of a query. -/
theorem parse_uri_eq_received {u : QueryUri} {config : Config} (huri : p.uri g = .ok u)
    (hname : ∀ d, g.get p.elementType = .ok d → Text.trim d.name = d.name)
    (hpaths : ∀ path ∈ p.expand, Parameters.IsPath path)
    (hlength : u.queryString.utf8ByteSize ≤ config.maxQueryLength) :
    Parameters.parse config u.queryString = p.received g config.maxExpressionDepth ∧
      (∀ e, Parameters.parse config u.queryString = .error e →
        Misread Lambda.text (Lambda.parse · config.maxExpressionDepth) p.filter e ∨
          Misread SortKey.text (SortKey.parse · config.maxExpressionDepth) p.orderBy e ∨
            Misread Lambda.text (Lambda.parse · config.maxExpressionDepth) p.groupBy e ∨
              Misread Lambda.selectionText (Lambda.parseSelection · config.maxExpressionDepth) p.select e) ∧
      (DistinctNames p.expand → p.expandedPaths = p.expand.map Text.asciiLower) ∧
      ∀ q : Query, q.plan = .ok p → DistinctNames p.expand := by
  have hreceived : Parameters.parse config u.queryString = p.received g config.maxExpressionDepth :=
    (QueryUri.parse_queryString (keys_sublist huri) hlength).trans (setAll_uri huri hname hpaths)
  refine ⟨hreceived, fun e he => ?_, expandedPaths_eq, fun q hplan => ?_⟩
  · exact misread_of_received huri (hreceived.symm.trans he)
  · exact ((isSettled_ofSource _ _).adds (Query.adds_of_plan hplan)).paths

/-- The dogs behind the third whose name is one that a URI cannot hold as it is, the last of them first. -/
def oddlyNamed : Plan :=
  { ofSource petType "pets" with
    ofType := some dogType
    filter := some ⟨"p", .binary .ne (.member (.param "p") "Name") (.constant (.string "100% & é+'=?"))⟩
    orderBy := some ⟨⟨"p", .member (.param "p") "Name"⟩, .descending⟩
    skip := some 3
    expand := ["Friends.Secret", "Friends"]
    includeTotalCount := true
    projection := .firstLazy }

/-- The parameters of their URI. -/
def oddlyNamedQuery : String :=
  "$oftype=Dog&$filter=Name%20ne%20'100%25%20%26%20%C3%A9%2B''%3D%3F'&$orderby=Name%20desc&$skip=3&$top=1" ++
    "&$expand=friends.secret,friends&$totalcount=true&$projection=first"

theorem oddlyNamed_received : ∃ u, oddlyNamed.uri pets.graph = .ok u ∧ u.queryString = oddlyNamedQuery ∧
    Parameters.parse .standard oddlyNamedQuery = oddlyNamed.received pets.graph 256 ∧
      (oddlyNamed.received pets.graph 256).isOk = true := by
  obtain ⟨u, hu⟩ := exists_of_isOk (by decide +kernel : (oddlyNamed.uri pets.graph).isOk = true)
  have hquery : u.queryString = oddlyNamedQuery := by
    have hstring : (oddlyNamed.uri pets.graph).toOption.map QueryUri.queryString =
        some oddlyNamedQuery := by decide +kernel
    rw [hu] at hstring
    exact Option.some.inj hstring
  have hname : ∀ d, pets.graph.get oddlyNamed.elementType = .ok d → Text.trim d.name = d.name := by
    have hall : (pets.graph.get oddlyNamed.elementType).toOption.all
        (fun d => Text.trim d.name == d.name) = true := by decide +kernel
    intro d hd
    rw [hd] at hall
    exact eq_of_beq hall
  have hpaths : ∀ path ∈ oddlyNamed.expand, Parameters.IsPath path := by
    unfold Parameters.IsPath
    decide +kernel
  have hlength : u.queryString.utf8ByteSize ≤ Config.standard.maxQueryLength := by
    rw [hquery]
    decide +kernel
  obtain ⟨hreceived, -⟩ := parse_uri_eq_received hu hname hpaths hlength
  exact ⟨u, hu, hquery, hquery ▸ hreceived, by decide +kernel⟩

end Plan

end ResourceQuery
