import ResourceQuery.Query.Parameters

/-! # The cache of query strings

The query strings that were read last, with what they ask for. Entries are found by a digest of the
text; an entry counts only if its text is the one that is looked for, so that a collision of digests
costs a reading and never gives a wrong answer. What is used least recently makes room.
-/

namespace ResourceQuery

/-- A query string that was read, by the digest of its text. -/
structure ParsedText where
  digest : UInt64
  text : String
  parameters : Parameters

/-- Query strings that were read, the one used last first. -/
structure ParseCache where
  capacity : Nat
  entries : List ParsedText

namespace ParseCache

/-- The cache without entries. -/
def empty (capacity : Nat) : ParseCache := ⟨capacity, []⟩

/-- The entry with a digest. -/
def entry? (c : ParseCache) (digest : UInt64) : Option ParsedText :=
  c.entries.find? (·.digest = digest)

/-- The parameters of a text that was read. -/
def get? (c : ParseCache) (digest : UInt64) (text : String) : Option Parameters :=
  (c.entry? digest).bind fun e => if e.text = text then some e.parameters else none

/-- The cache with `e` in place of an entry with its digest, as the one used last. -/
def put (c : ParseCache) (e : ParsedText) : ParseCache :=
  { c with entries := (e :: c.entries.filter (·.digest ≠ e.digest)).take c.capacity }

/-- The cache where the entry with a digest is the one used last. -/
def touch (c : ParseCache) (digest : UInt64) : ParseCache :=
  match c.entry? digest with
  | some e => c.put e
  | none => c

/-- What a query string asks for; a text that can be read is an entry afterwards. -/
def parse (digest : String → UInt64) (config : Config) (c : ParseCache) (text : String) :
    Except Error Parameters × ParseCache :=
  let key := digest text
  let touched := c.touch key
  match c.get? key text with
  | some q => (.ok q, touched)
  | none =>
    match Parameters.parse config text with
    | .ok q => (.ok q, touched.put ⟨key, text, q⟩)
    | .error e => (.error e, touched)

end ParseCache

end ResourceQuery
