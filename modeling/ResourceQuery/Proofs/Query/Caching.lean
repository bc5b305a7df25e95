import ResourceQuery.Query.ParseCache
import Mathlib.Logic.Function.Basic

set_option autoImplicit false

/-! # What a cache of query strings answers

A cache is faithful to a configuration if what it holds of a text is what the text is read as. The empty
cache is, and looking a text up keeps it so (`ParseCache.IsFaithful.parse`), whatever the digests are and
whatever had to make room. So the answer of a faithful cache is the one without a cache
(`ParseCache.IsFaithful.parse_eq`).

None of this depends on which entries make room for others. Any map will do that never answers for a key
what was not put there last (`RecentMap.IsHonest`): read through it, a text is read as it is without
(`RecentMap.IsHonest.answers_eq`). The entries of a `ParseCache` are such a map (`ParseCache.isHonest_recency`),
and the cache reads through them (`ParseCache.parse_recency`).
-/

namespace ResourceQuery

namespace ParseCache

/-- What is held of a text is what it is read as. -/
def IsFaithful (config : Config) (c : ParseCache) : Prop :=
  ∀ e ∈ c.entries, Parameters.parse config e.text = .ok e.parameters

variable {config : Config} {c : ParseCache}

theorem isFaithful_empty (config : Config) (capacity : Nat) : (empty capacity).IsFaithful config :=
  List.forall_mem_nil _

namespace IsFaithful

theorem put (h : c.IsFaithful config) {e : ParsedText}
    (he : Parameters.parse config e.text = .ok e.parameters) : (c.put e).IsFaithful config := by
  intro other hother
  rcases List.mem_cons.mp (List.mem_of_mem_take hother) with rfl | hold
  · exact he
  · exact h other (List.mem_filter.mp hold).1

theorem entry? (h : c.IsFaithful config) {digest : UInt64} {e : ParsedText}
    (he : c.entry? digest = some e) : Parameters.parse config e.text = .ok e.parameters :=
  h e (List.mem_of_find?_eq_some he)

theorem touch (h : c.IsFaithful config) (digest : UInt64) : (c.touch digest).IsFaithful config := by
  unfold ParseCache.touch
  cases he : c.entry? digest with
  | none => exact h
  | some e => exact h.put (h.entry? he)

theorem get? (h : c.IsFaithful config) {digest : UInt64} {text : String} {q : Parameters}
    (hq : c.get? digest text = some q) : Parameters.parse config text = .ok q := by
  obtain ⟨e, he, hsame⟩ := Option.bind_eq_some_iff.mp hq
  split at hsame
  · rename_i htext
    cases hsame
    exact htext ▸ h.entry? he
  · cases hsame

/-- **The answer of a faithful cache is that of the reader.** -/
theorem parse_eq (h : c.IsFaithful config) (digest : String → UInt64) (text : String) :
    (c.parse digest config text).1 = Parameters.parse config text := by
  unfold ParseCache.parse
  dsimp only
  cases hheld : c.get? (digest text) text with
  | some q => exact (h.get? hheld).symm
  | none => cases Parameters.parse config text <;> rfl

/-- A faithful cache stays faithful. -/
theorem parse (h : c.IsFaithful config) (digest : String → UInt64) (text : String) :
    (c.parse digest config text).2.IsFaithful config := by
  unfold ParseCache.parse
  dsimp only
  cases c.get? (digest text) text with
  | some q => exact h.touch _
  | none =>
      cases hread : Parameters.parse config text with
      | ok q => exact (h.touch _).put hread
      | error e => exact h.touch _

end IsFaithful

/-! ## One text after another -/

/-- What the cache answers to texts, one after another. -/
def answers (digest : String → UInt64) (config : Config) : ParseCache → List String →
    List (Except Error Parameters)
  | _, [] => []
  | c, text :: rest =>
    (c.parse digest config text).1 :: answers digest config (c.parse digest config text).2 rest

theorem IsFaithful.answers_eq (h : c.IsFaithful config) (digest : String → UInt64) (texts : List String) :
    c.answers digest config texts = texts.map (Parameters.parse config) := by
  induction texts generalizing c with
  | nil => rfl
  | cons text rest ih => rw [answers, h.parse_eq, ih (h.parse digest text), List.map_cons]

end ParseCache

/-! ## Maps that forget -/

/-- A map from keys to values that has room for a number of entries and may drop any of them. Looking a key
up may change what is dropped later. -/
structure RecentMap (κ ν : Type) where
  Contents : Type
  /-- The map without entries, with room for a number of them. -/
  new : (capacity : Nat) → Contents
  get : Contents → κ → Option ν × Contents
  put : Contents → κ → ν → Contents

namespace RecentMap

section Honesty

variable {κ ν : Type} [DecidableEq κ]

/-- Contents that a map can have, with what was put last under each key. -/
inductive LastPut (m : RecentMap κ ν) : m.Contents → (κ → Option ν) → Prop
  | new {capacity : Nat} (room : 0 < capacity) : LastPut m (m.new capacity) fun _ => none
  | get {c : m.Contents} {last : κ → Option ν} (key : κ) (before : LastPut m c last) :
      LastPut m (m.get c key).2 last
  | put {c : m.Contents} {last : κ → Option ν} (key : κ) (value : ν) (before : LastPut m c last) :
      LastPut m (m.put c key value) (Function.update last key (some value))

/-- For a key the map answers nothing, or what was put there last. -/
def IsHonest (m : RecentMap κ ν) : Prop :=
  ∀ c last key, m.LastPut c last → (m.get c key).1 = none ∨ (m.get c key).1 = last key

end Honesty

/-! ## Reading through a map -/

variable (m : RecentMap UInt64 (String × Parameters)) (digest : String → UInt64) (config : Config)

/-- The map that texts are read through, if there is to be room for any. -/
def start (capacity : Nat) : Option m.Contents :=
  if capacity = 0 then none else some (m.new capacity)

/-- Reads a text and puts it into the map. What cannot be read is not put there. -/
def readAnew (c : m.Contents) (text : String) : Except Error Parameters × Option m.Contents :=
  match Parameters.parse config text with
  | .ok q => (.ok q, some (m.put c (digest text) (text, q)))
  | .error e => (.error e, some c)

/-- Reads a text for which the map holds an entry under its digest, or none. An entry with another text does not
count. -/
def readKnowing (c : m.Contents) (text : String) : Option (String × Parameters) →
    Except Error Parameters × Option m.Contents
  | some (known, q) => if known = text then (.ok q, some c) else m.readAnew digest config c text
  | none => m.readAnew digest config c text

/-- What a query string asks for. -/
def parse : Option m.Contents → String → Except Error Parameters × Option m.Contents
  | none, text => (Parameters.parse config text, none)
  | some c, text => m.readKnowing digest config (m.get c (digest text)).2 text (m.get c (digest text)).1

/-- What is answered to texts, one after another. -/
def answers : Option m.Contents → List String → List (Except Error Parameters)
  | _, [] => []
  | c, text :: rest => (m.parse digest config c text).1 :: answers (m.parse digest config c text).2 rest

variable {m digest config}

/-- Each entry that was put last under its key is the reading of its own text. -/
def IsFaithful (m : RecentMap UInt64 (String × Parameters)) (config : Config) (contents : Option m.Contents) : Prop :=
  ∀ c, contents = some c → ∃ last, m.LastPut c last ∧
    ∀ key text q, last key = some (text, q) → Parameters.parse config text = .ok q

theorem isFaithful_start (capacity : Nat) : m.IsFaithful config (m.start capacity) := by
  intro c hc
  by_cases hzero : capacity = 0
  · simp [start, hzero] at hc
  · obtain rfl : m.new capacity = c := by simpa [start, hzero] using hc
    exact ⟨_, .new (Nat.pos_of_ne_zero hzero), fun key text q hlast => by simp at hlast⟩

/-- Reading a text anew answers what the reader does, and a faithful map stays faithful. -/
theorem readAnew_spec {c : m.Contents} (h : m.IsFaithful config (some c)) (digest : String → UInt64) (text : String) :
    (m.readAnew digest config c text).1 = Parameters.parse config text ∧
      m.IsFaithful config (m.readAnew digest config c text).2 := by
  unfold readAnew
  cases hread : Parameters.parse config text with
  | error e => exact ⟨rfl, h⟩
  | ok q =>
      refine ⟨rfl, ?_⟩
      intro c' hc'
      obtain rfl : m.put c (digest text) (text, q) = c' := Option.some.inj hc'
      obtain ⟨last, hlast, hall⟩ := h c rfl
      refine ⟨_, .put (digest text) (text, q) hlast, ?_⟩
      intro key text' q' hkey
      by_cases hsame : key = digest text
      · rw [hsame, Function.update_self] at hkey
        cases hkey
        exact hread
      · rw [Function.update_of_ne hsame] at hkey
        exact hall key text' q' hkey

/-- **One text**: the answer of a faithful map is that of the reader, and the map stays faithful. -/
theorem IsHonest.parse_spec (hm : m.IsHonest) {contents : Option m.Contents} (h : m.IsFaithful config contents)
    (digest : String → UInt64) (text : String) :
    (m.parse digest config contents text).1 = Parameters.parse config text ∧
      m.IsFaithful config (m.parse digest config contents text).2 := by
  cases contents with
  | none => exact ⟨rfl, h⟩
  | some c =>
      obtain ⟨last, hlast, hall⟩ := h c rfl
      have hafter : m.IsFaithful config (some (m.get c (digest text)).2) := by
        intro c' hc'
        obtain rfl : (m.get c (digest text)).2 = c' := Option.some.inj hc'
        exact ⟨last, hlast.get (digest text), hall⟩
      have hhonest := hm c last (digest text) hlast
      show (m.readKnowing digest config (m.get c (digest text)).2 text (m.get c (digest text)).1).1 = _ ∧
        m.IsFaithful config (m.readKnowing digest config (m.get c (digest text)).2 text (m.get c (digest text)).1).2
      cases hheld : (m.get c (digest text)).1 with
      | none => exact readAnew_spec hafter digest text
      | some entry =>
          obtain ⟨known, q⟩ := entry
          unfold readKnowing
          by_cases hsame : known = text
          · -- the entry was put last under the digest, and so it is the reading of the text
            have hread : Parameters.parse config known = .ok q := by
              rcases hhonest with hnone | hput
              · simp [hheld] at hnone
              · exact hall (digest text) known q (by rw [← hput, hheld])
            simp only [hsame] at hread
            simp only [if_pos hsame, hread]
            exact ⟨trivial, hafter⟩
          · simp only [if_neg hsame]
            exact readAnew_spec hafter digest text

theorem IsHonest.answers_eq (hm : m.IsHonest) {contents : Option m.Contents} (h : m.IsFaithful config contents)
    (digest : String → UInt64) (texts : List String) :
    m.answers digest config contents texts = texts.map (Parameters.parse config) := by
  induction texts generalizing contents with
  | nil => rfl
  | cons text rest ih =>
      obtain ⟨hanswer, hafter⟩ := hm.parse_spec h digest text
      rw [answers, hanswer, ih hafter, List.map_cons]

end RecentMap

/-! ## The entries of a cache as a map -/

namespace ParseCache

variable {c : ParseCache}

/-- The entries of caches, where the one used least recently makes room. -/
def recency : RecentMap UInt64 (String × Parameters) where
  Contents := ParseCache
  new := empty
  get c digest := ((c.entry? digest).map fun e => (e.text, e.parameters), c.touch digest)
  put c digest entry := c.put ⟨digest, entry.1, entry.2⟩

theorem mem_put {e other : ParsedText} (h : other ∈ (c.put e).entries) :
    other = e ∨ other ∈ c.entries ∧ other.digest ≠ e.digest := by
  rcases List.mem_cons.mp (List.mem_of_mem_take h) with rfl | hold
  · exact .inl rfl
  · exact .inr (by simpa using List.mem_filter.mp hold)

theorem mem_touch {digest : UInt64} {e : ParsedText} (h : e ∈ (c.touch digest).entries) : e ∈ c.entries := by
  unfold touch at h
  cases hfound : c.entry? digest with
  | none => rwa [hfound] at h
  | some used =>
      rw [hfound] at h
      rcases mem_put h with rfl | ⟨hold, -⟩
      · exact List.mem_of_find?_eq_some hfound
      · exact hold

/-- What a cache holds under a digest was put there last. -/
theorem last_of_mem {c : recency.Contents} {last : UInt64 → Option (String × Parameters)}
    (h : recency.LastPut c last) : ∀ e ∈ ParseCache.entries c, last e.digest = some (e.text, e.parameters) := by
  induction h with
  | new room => exact fun e he => absurd he List.not_mem_nil
  | get key before ih => exact fun e he => ih e (mem_touch he)
  | put key value before ih =>
      intro e he
      rcases mem_put he with rfl | ⟨hold, hother⟩
      · exact Function.update_self ..
      · rw [Function.update_of_ne hother]
        exact ih e hold

theorem isHonest_recency : recency.IsHonest := by
  intro (c : ParseCache) last key hlast
  show (c.entry? key).map (fun e => (e.text, e.parameters)) = none ∨
    (c.entry? key).map (fun e => (e.text, e.parameters)) = last key
  cases hfound : c.entry? key with
  | none => exact .inl rfl
  | some e =>
      have hkey : e.digest = key := by simpa using List.find?_some hfound
      have hlast := last_of_mem hlast e (List.mem_of_find?_eq_some hfound)
      exact .inr (by rw [← hkey, hlast, Option.map_some])

/-- A cache reads through its entries. -/
theorem parse_recency (c : ParseCache) (digest : String → UInt64) (config : Config) (text : String) :
    recency.parse digest config (some c) text =
      ((c.parse digest config text).1, some (c.parse digest config text).2) := by
  have hanew : ∀ c' : ParseCache, recency.readAnew digest config c' text =
      match Parameters.parse config text with
      | .ok q => (.ok q, some (c'.put ⟨digest text, text, q⟩))
      | .error e => (.error e, some c') := fun _ => rfl
  show recency.readKnowing digest config (c.touch (digest text)) text
    ((c.entry? (digest text)).map fun e => (e.text, e.parameters)) = _
  unfold RecentMap.readKnowing ParseCache.parse
  cases hfound : c.entry? (digest text) with
  | none =>
      simp only [get?, hfound, Option.map_none, Option.bind_none, hanew]
      cases Parameters.parse config text <;> rfl
  | some e =>
      simp only [get?, hfound, Option.map_some, Option.bind_some]
      by_cases hsame : e.text = text
      · simp only [if_pos hsame]
        rfl
      · simp only [if_neg hsame, hanew]
        cases Parameters.parse config text <;> rfl

/-- **A cache changes no answer**, whatever the digests are, also where they collide, and however few entries there
is room for: texts that are looked up one after another are answered as the reader answers them, and those that it
refuses are refused. The same holds of any map in place of the entries that never answers for a key what was not put
there last. -/
theorem answers_as_read (digest : String → UInt64) (config : Config) (texts : List String) :
    (∀ capacity, (empty capacity).answers digest config texts = texts.map (Parameters.parse config)) ∧
      ∀ m : RecentMap UInt64 (String × Parameters), m.IsHonest → ∀ capacity,
        m.answers digest config (m.start capacity) texts = texts.map (Parameters.parse config) :=
  ⟨fun capacity => (isFaithful_empty config capacity).answers_eq digest texts,
    fun _ hm capacity => hm.answers_eq (RecentMap.isFaithful_start capacity) digest texts⟩

/-- There is room for one text, and all texts have the same digest. -/
theorem answers_as_read_colliding :
    recency.IsHonest ∧
      recency.answers (fun _ => 0) .standard (recency.start 1) ["$top=2", "$skip=2", "$top=x", "$skip=2", "$top=2"] =
        ["$top=2", "$skip=2", "$top=x", "$skip=2", "$top=2"].map (Parameters.parse .standard) ∧
      (["$top=2", "$skip=2", "$top=x", "$skip=2", "$top=2"].map fun text =>
        (Parameters.parse .standard text).toOption.map fun q => (q.top, q.skip)) =
          [some (some 2, none), some (none, some 2), none, some (none, some 2), some (some 2, none)] :=
  ⟨isHonest_recency, (answers_as_read _ _ _).2 recency isHonest_recency 1, by decide +kernel⟩

end ParseCache

end ResourceQuery
