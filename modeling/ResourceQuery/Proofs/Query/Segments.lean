import ResourceQuery.Proofs.Query.Transport
import Mathlib.Data.List.Nodup

set_option autoImplicit false

/-! # The order of parameters

A query string is a row of segments, read from left to right until one of them fails. Still, the order of
the segments makes no difference to what is read. What a segment says (`Parameters.said`) does not depend
on the segments before it, and a row of segments is read exactly when each of them can be read on its own
and no key occurs twice; what is read is then the settings put on the plain listing, one after another
(`Parameters.readSegments_eq_ok_iff`). These conditions hold of a row in every order or in none, and
settings with different keys change different parts of the parameters (`Parameters.put_comm`). So two
orders are read alike (`Parameters.parse_regardless_of_order`). Which error comes first is the only thing
that an order decides.

Segments that say nothing are those that are empty and those whose keys do not start with a dollar sign.
They can stand anywhere, also among segments that fail.
-/

namespace ResourceQuery

namespace Parameters

/-! ## Settings -/

/-- What a parameter says. -/
inductive Setting where
  | ofType (name : String)
  | filter (condition : Lambda)
  | orderBy (key : SortKey)
  | groupBy (key : Lambda)
  | select (selection : Lambda)
  | skip (n : UInt64)
  | top (n : UInt64)
  | expand (paths : List String)
  | totalCount (included : Bool)
  | projection (p : Projection)

/-- The key of the parameter that says this. -/
def Setting.key : Setting → String
  | .ofType _ => "$oftype"
  | .filter _ => "$filter"
  | .orderBy _ => "$orderby"
  | .groupBy _ => "$groupby"
  | .select _ => "$select"
  | .skip _ => "$skip"
  | .top _ => "$top"
  | .expand _ => "$expand"
  | .totalCount _ => "$totalcount"
  | .projection _ => "$projection"

/-- The parameters with one part replaced. -/
def put (q : Parameters) : Setting → Parameters
  | .ofType name => { q with ofType := some name }
  | .filter condition => { q with filter := some condition }
  | .orderBy key => { q with orderBy := some key }
  | .groupBy key => { q with groupBy := some key }
  | .select selection => { q with select := some selection }
  | .skip n => { q with skip := some n }
  | .top n => { q with top := some n }
  | .expand paths => { q with expand := paths }
  | .totalCount included => { q with includeTotalCount := included }
  | .projection p => { q with projection := p }

/-- What the value of a key says. -/
def setting (depth : Nat) (key value : String) : Except Error Setting :=
  match key with
  | "$oftype" => .ok (.ofType (Text.trim value))
  | "$filter" => (Lambda.parse value depth).map .filter
  | "$orderby" => (SortKey.parse value depth).map .orderBy
  | "$groupby" => (Lambda.parse value depth).map .groupBy
  | "$select" => (Lambda.parseSelection value depth).map .select
  | "$skip" => (count key value).map .skip
  | "$top" => (count key value).map .top
  | "$expand" => (paths value).map .expand
  | "$totalcount" => (flag value).map .totalCount
  | "$projection" => (projectionOf value).map .projection
  | _ => invalid (.unknownParameter key)

variable {depth : Nat} {q q' : Parameters} {key value : String} {s t : Setting}

theorem set_eq_put (depth : Nat) (q : Parameters) (key value : String) :
    q.set depth key value = (setting depth key value).map q.put := by
  have hmap : ∀ {α : Type} (read : Except Error α) (say : α → Setting),
      (read.map say).map q.put = read.map fun a => q.put (say a) := by
    intro α read say
    cases read <;> rfl
  unfold set
  split <;> rw [setting]
  -- a name is read as it is, other values by a reader each, and an unknown key not at all
  all_goals first
    | assumption
    | rw [hmap]
      rfl
    | rfl

/-- What the value of a key says, it says under this key. -/
theorem key_of_setting (h : setting depth key value = .ok s) : s.key = key := by
  have hmap : ∀ {α : Type} {read : Except Error α} {say : α → Setting},
      read.map say = .ok s → ∃ a, s = say a := by
    intro α read say hread
    cases read with
    | error e => cases hread
    | ok a =>
        cases hread
        exact ⟨a, rfl⟩
  unfold setting at h
  split at h
  · cases h
    rfl
  all_goals first
    | obtain ⟨a, rfl⟩ := hmap h
      rfl
    | cases h

/-- Settings with different keys can be put in either order. -/
theorem put_comm (q : Parameters) (hne : s.key ≠ t.key) : (q.put s).put t = (q.put t).put s := by
  cases s <;> cases t <;> first
    | rfl
    | exact absurd rfl hne

/-! ## What a segment says -/

/-- What a segment says, if it says anything, whatever stands before it. -/
def said (depth : Nat) (segment : String) : Except Error (Option Setting) :=
  if segment.isEmpty then .ok .none
  else do
    let (key, encoded) ← keyAndValue segment
    if !Text.startsWith "$" key then .ok .none
    else
      let value ← decode encoded
      (setting depth key value).map some

/-- The segment is empty, or its key can be decoded and does not start with a dollar sign. -/
def saysNothing (segment : String) : Bool :=
  segment.isEmpty ||
    match keyAndValue segment with
    | .ok (key, _) => !Text.startsWith "$" key
    | .error _ => false

/-- What the segments say that can be read. -/
def settings (depth : Nat) (segments : List String) : List Setting :=
  segments.filterMap fun segment => (said depth segment).toOption.join

variable {segment : String} {segments others seen : List String}

theorem settings_cons_of_none (h : said depth segment = .ok .none) :
    settings depth (segment :: segments) = settings depth segments := by
  rw [settings, List.filterMap_cons_none (by rw [h]; rfl), settings]

theorem settings_cons_of_some (h : said depth segment = .ok (some s)) :
    settings depth (segment :: segments) = s :: settings depth segments := by
  rw [settings, List.filterMap_cons_some (by rw [h]; rfl), settings]

theorem saysNothing_iff : saysNothing segment = true ↔ segment.isEmpty = true ∨
    ∃ key encoded, keyAndValue segment = .ok (key, encoded) ∧ Text.startsWith "$" key = false := by
  rw [saysNothing, Bool.or_eq_true]
  refine or_congr_right ?_
  cases keyAndValue segment with
  | error e => simp
  | ok pair => simp [Prod.ext_iff]

/-- A segment that says nothing is passed over. -/
theorem readSegments_cons_of_saysNothing (h : saysNothing segment = true) :
    readSegments depth q seen (segment :: segments) = readSegments depth q seen segments := by
  rcases saysNothing_iff.1 h with hempty | ⟨key, encoded, hread, hkey⟩
  · rw [readSegments, if_pos hempty]
  · simp [readSegments, hread, hkey, bind, Except.bind]

theorem said_of_saysNothing (h : saysNothing segment = true) : said depth segment = .ok .none := by
  rcases saysNothing_iff.1 h with hempty | ⟨key, encoded, hread, hkey⟩
  · rw [said, if_pos hempty]
  · simp [said, hread, hkey, bind, Except.bind]

/-- The first segment is read, and the others behind it: the step from which everything here follows. -/
theorem readSegments_cons_eq_ok_iff :
    readSegments depth q seen (segment :: segments) = .ok q' ↔
      (said depth segment = .ok .none ∧ readSegments depth q seen segments = .ok q') ∨
        ∃ s, said depth segment = .ok (some s) ∧ s.key ∉ seen ∧
          readSegments depth (q.put s) (s.key :: seen) segments = .ok q' := by
  by_cases hnothing : saysNothing segment = true
  · rw [readSegments_cons_of_saysNothing hnothing, said_of_saysNothing hnothing]
    simp
  -- the segment has a key with a dollar sign, or one that cannot be decoded
  have hempty : ¬segment.isEmpty = true := fun hempty => hnothing (saysNothing_iff.2 (Or.inl hempty))
  rw [readSegments, said, if_neg hempty, if_neg hempty]
  cases hread : keyAndValue segment with
  | error e => simp [bind, Except.bind]
  | ok pair =>
      obtain ⟨key, encoded⟩ := pair
      have hdollar : Text.startsWith "$" key = true := by
        rw [← Bool.not_eq_false]
        exact fun hkey => hnothing (saysNothing_iff.2 (Or.inr ⟨key, encoded, hread, hkey⟩))
      simp only [bind, Except.bind, hdollar, Bool.not_true, Bool.false_eq_true, if_false, set_eq_put]
      -- a key that was read before is an error here, whatever its value says
      cases decode encoded with
      | error e => split <;> simp [invalid]
      | ok value =>
          cases hsetting : setting depth key value with
          | error e => split <;> simp [invalid, hsetting, Except.map]
          | ok s =>
              have hkey : s.key = key := key_of_setting hsetting
              by_cases hseen : key ∈ seen
              · rw [if_pos (List.contains_iff_mem.2 hseen)]
                simp [invalid, hsetting, Except.map, hkey, hseen]
              · rw [if_neg (mt List.contains_iff_mem.1 hseen)]
                simp [hsetting, Except.map, hkey, hseen]

/-! ## Rows of segments -/

/-- **What a row of segments says.** It is read when each segment can be read and no key occurs twice, also
not among those that were read before; then what the segments say is put on the parameters. -/
theorem readSegments_eq_ok_iff :
    readSegments depth q seen segments = .ok q' ↔
      (∀ segment ∈ segments, (said depth segment).isOk = true) ∧
        ((settings depth segments).map Setting.key).Nodup ∧
          (∀ s ∈ settings depth segments, s.key ∉ seen) ∧ (settings depth segments).foldl put q = q' := by
  induction segments generalizing q seen with
  | nil => simp [readSegments, settings]
  | cons segment segments ih =>
      rw [readSegments_cons_eq_ok_iff, List.forall_mem_cons]
      cases hsaid : said depth segment with
      | error e => simp [Except.isOk, Except.toBool]
      | ok what =>
          cases what with
          | none =>
              rw [settings_cons_of_none hsaid, ih]
              simp [Except.isOk, Except.toBool]
          | some s =>
              rw [settings_cons_of_some hsaid, List.map_cons, List.nodup_cons, List.forall_mem_cons,
                List.foldl_cons]
              simp only [Except.ok.injEq, reduceCtorEq, false_and, Option.some.injEq, false_or,
                exists_eq_left', ih]
              -- that no later key is this one is said among the keys that were read, or as `Nodup`
              have hfresh : (∀ t ∈ settings depth segments, t.key ∉ s.key :: seen) ↔
                  s.key ∉ (settings depth segments).map Setting.key ∧
                    ∀ t ∈ settings depth segments, t.key ∉ seen := by
                simp only [List.mem_cons, not_or, List.mem_map, not_exists, not_and]
                exact ⟨fun h => ⟨fun t ht heq => (h t ht).1 heq, fun t ht => (h t ht).2⟩,
                  fun h t ht => ⟨h.1 t ht, h.2 t ht⟩⟩
              rw [hfresh]
              simp only [Except.isOk, Except.toBool, true_and]
              tauto

/-- Settings with different keys give the same parameters in every order. -/
theorem foldl_put_of_perm {ss ts : List Setting} (h : ss.Perm ts) (hnodup : (ss.map Setting.key).Nodup)
    (q : Parameters) : ss.foldl put q = ts.foldl put q := by
  refine h.foldl_eq' (fun s hs t ht q => ?_) q
  by_cases hst : s = t
  · rw [hst]
  · exact put_comm q fun hkey => hst (List.inj_on_of_nodup_map hnodup hs ht hkey)

/-- A row of segments is read as it is read in another order, if it is read. -/
theorem readSegments_of_perm (h : segments.Perm others) :
    readSegments depth q seen segments = .ok q' ↔ readSegments depth q seen others = .ok q' := by
  have hsettings : (settings depth segments).Perm (settings depth others) := h.filterMap _
  rw [readSegments_eq_ok_iff, readSegments_eq_ok_iff]
  refine and_congr (forall_congr' fun segment => imp_congr_left h.mem_iff) ?_
  rw [(hsettings.map Setting.key).nodup_iff]
  refine and_congr_right fun hnodup => and_congr (forall_congr' fun s => imp_congr_left hsettings.mem_iff) ?_
  rw [foldl_put_of_perm hsettings.symm hnodup]

/-- Segments that say nothing can be left out. -/
theorem readSegments_filter (depth : Nat) (q : Parameters) (seen segments : List String) :
    readSegments depth q seen (segments.filter fun segment => !saysNothing segment) =
      readSegments depth q seen segments := by
  induction segments generalizing q seen with
  | nil => rfl
  | cons segment segments ih =>
      by_cases hnothing : saysNothing segment = true
      · rw [List.filter_cons_of_neg (by rw [hnothing]; nofun), ih,
          readSegments_cons_of_saysNothing hnothing]
      · rw [List.filter_cons_of_pos (by rw [Bool.not_eq_true] at hnothing; rw [hnothing]; rfl)]
        simp only [readSegments, ih]

/-! ## Query strings -/

/-- The query string with these segments. -/
def queryString (segments : List String) : String :=
  "?" ++ Text.join "&" segments

theorem after?_queryString (segments : List String) :
    Text.after? "?" (queryString segments) = some (Text.join "&" segments) := by
  have hchars : (queryString segments).toList = '?' :: (Text.join "&" segments).toList :=
    String.toList_append
  rw [Text.after?, hchars]
  simp

theorem utf8ByteSize_join (segments : List String) :
    (Text.join "&" segments).utf8ByteSize =
      (segments.map String.utf8ByteSize).sum + (segments.length - 1) := by
  induction segments with
  | nil => rfl
  | cons segment segments ih =>
      cases segments with
      | nil => simp [Text.join]
      | cons next rest =>
          have hmark : "&".utf8ByteSize = 1 := rfl
          rw [Text.join_cons _ _ (List.cons_ne_nil _ _), String.utf8ByteSize_append,
            String.utf8ByteSize_append, ih, hmark]
          simp only [List.map_cons, List.sum_cons, List.length_cons]
          omega

theorem utf8ByteSize_queryString_of_perm (h : segments.Perm others) :
    (queryString segments).utf8ByteSize = (queryString others).utf8ByteSize := by
  rw [queryString, queryString, String.utf8ByteSize_append, String.utf8ByteSize_append,
    utf8ByteSize_join, utf8ByteSize_join, (h.map String.utf8ByteSize).sum_nat, h.length_eq]

/-- A query string falls into the segments it was made of. -/
theorem readSegments_splitOn (hparts : ∀ segment ∈ segments, '&' ∉ segment.toList) (depth : Nat)
    (q : Parameters) (seen : List String) :
    readSegments depth q seen (Text.splitOn '&' (Text.join "&" segments)) =
      readSegments depth q seen segments := by
  cases segments with
  | nil => exact readSegments_cons_of_saysNothing (by decide)
  | cons segment segments =>
      have hsplit : Text.splitOn '&' (Text.join "&" (segment :: segments)) = segment :: segments :=
        Text.splitOn_join (List.cons_ne_nil _ _) hparts
      rw [hsplit]

theorem parse_queryString {config : Config} (hparts : ∀ segment ∈ segments, '&' ∉ segment.toList) :
    parse config (queryString segments) =
      if (queryString segments).utf8ByteSize > config.maxQueryLength then
        invalid (.queryLength (queryString segments).utf8ByteSize config.maxQueryLength)
      else readSegments config.maxExpressionDepth .none [] segments := by
  rw [parse, after?_queryString, Option.getD_some, readSegments_splitOn hparts]

/-- **The order of parameters is irrelevant, and segments that say nothing are.** Let no segment have an
ampersand in it, and let the segments be joined to a query string. If it is read, then in every other order
of the segments the same parameters are read; and if it is not read, then in no order. A query string that
differs only in segments that say nothing, wherever these stand, is read alike or fails with the same error,
as long as both strings are no longer than a server reads. -/
theorem parse_regardless_of_order {config : Config} {segments others : List String}
    (hsegments : ∀ segment ∈ segments, '&' ∉ segment.toList)
    (hothers : ∀ segment ∈ others, '&' ∉ segment.toList) :
    (segments.Perm others → ∀ q : Parameters,
        parse config (queryString segments) = .ok q ↔ parse config (queryString others) = .ok q) ∧
      ((segments.filter fun segment => !saysNothing segment) =
          (others.filter fun segment => !saysNothing segment) →
        (queryString segments).utf8ByteSize ≤ config.maxQueryLength →
        (queryString others).utf8ByteSize ≤ config.maxQueryLength →
          parse config (queryString segments) = parse config (queryString others)) := by
  rw [parse_queryString hsegments, parse_queryString hothers]
  refine ⟨fun hperm q => ?_, fun hfilter hlength hlength' => ?_⟩
  · rw [utf8ByteSize_queryString_of_perm hperm]
    by_cases hlength : (queryString others).utf8ByteSize > config.maxQueryLength
    · rw [if_pos hlength, if_pos hlength]
    · rw [if_neg hlength, if_neg hlength]
      exact readSegments_of_perm hperm
  · rw [if_neg (by omega), if_neg (by omega), ← readSegments_filter, hfilter, readSegments_filter]

/-- The first two by name whose number is above five. -/
def firstByName : List String :=
  ["$filter=Id+gt+5", "$OrderBy=Name%20desc", "%24top=2"]

/-- The same with segments that say nothing, some of them not even when they are decoded. -/
def firstByNameTraced : List String :=
  ["trace=on", "$filter=Id+gt+5", "", "$OrderBy=Name%20desc", "filter=%", "%24top=2", ""]

theorem parse_firstByName : ∃ q, parse .standard (queryString firstByName) = .ok q ∧
    parse .standard (queryString firstByName.reverse) = .ok q ∧
      parse .standard (queryString firstByNameTraced) = .ok q := by
  obtain ⟨q, hq⟩ := exists_of_isOk
    (by decide +kernel : (parse .standard (queryString firstByName)).isOk = true)
  have hparts : ∀ segment ∈ firstByName, '&' ∉ segment.toList := by decide +kernel
  have htraced : ∀ segment ∈ firstByNameTraced, '&' ∉ segment.toList := by decide +kernel
  have hreversed : ∀ segment ∈ firstByName.reverse, '&' ∉ segment.toList := fun segment hsegment =>
    hparts segment (List.mem_reverse.1 hsegment)
  have horder : parse .standard (queryString firstByName) = .ok q ↔
      parse .standard (queryString firstByName.reverse) = .ok q :=
    (parse_regardless_of_order hparts hreversed).1 (List.reverse_perm _).symm q
  have hsilent : parse .standard (queryString firstByName) =
      parse .standard (queryString firstByNameTraced) :=
    (parse_regardless_of_order hparts htraced).2 (by decide +kernel) (by decide +kernel)
      (by decide +kernel)
  exact ⟨q, hq, horder.1 hq, hsilent.symm.trans hq⟩

end Parameters

end ResourceQuery
