import ResourceQuery.Toml.Scalar

/-! # Reading TOML

`Toml.parse?` reads a whole configuration file. A key is set once; a table is opened by one header,
may have been implied by the headers of tables inside it before, and takes dotted keys only from
where it was opened itself.
-/

namespace ResourceQuery

namespace Toml

/-! ## Blanks and keys -/

/-- `cs` without blanks at its start. -/
def skipBlanks (cs : List Char) : List Char :=
  cs.dropWhile fun c => c == ' ' || c == '\t'

/-- `cs` after a comment at its start, if there is one and it is printable. -/
def skipComment? : List Char → Option (List Char)
  | '#' :: rest =>
    let inLine (c : Char) : Bool := c != '\n' && c != '\r'
    if (rest.takeWhile inLine).all isPrintable then some (rest.dropWhile inLine) else none
  | cs => some cs

/-- `cs` after blanks, an optional comment and the end of the line or text. -/
def endLine? (cs : List Char) : Option (List Char) :=
  (skipComment? (skipBlanks cs)).bind fun rest =>
    match rest with
    | [] => some []
    | _ => afterLineEnd? rest

/-- `cs` after blanks, comments and line ends. -/
def skipLines? : (fuel : Nat) → List Char → Option (List Char)
  | 0, cs => some cs
  | fuel + 1, cs =>
    let cs := skipBlanks cs
    match cs with
    | '#' :: _ => (skipComment? cs).bind (skipLines? fuel)
    | _ =>
      match afterLineEnd? cs with
      | some rest => skipLines? fuel rest
      | none => some cs

/-- Whether `c` may stand in a key without quotes. -/
def isKeyChar (c : Char) : Bool :=
  c.isAlphanum || c == '_' || c == '-'

/-- One part of a key. -/
def keyPart? (cs : List Char) : Option (String × List Char) :=
  match cs with
  | '"' :: rest => line? '"' false (rest.length + 1) [] rest
  | '\'' :: rest => line? '\'' true (rest.length + 1) [] rest
  | _ =>
    let part := cs.takeWhile isKeyChar
    if part.isEmpty then none else some (String.ofList part, cs.dropWhile isKeyChar)

/-- A key: parts with dots between them, with blanks around each. -/
def key? : (fuel : Nat) → List Char → Option (List String × List Char)
  | 0, _ => none
  | fuel + 1, cs => do
    let (part, rest) ← keyPart? (skipBlanks cs)
    match skipBlanks rest with
    | '.' :: rest =>
      let (parts, rest) ← key? fuel rest
      some (part :: parts, rest)
    | rest => some ([part], rest)

/-- Keys have fewer parts than this, and so do arrays and inline tables have levels. -/
def nestingLimit : Nat := 80

/-- A key with less than the limit of parts. -/
def path? (cs : List Char) : Option (List String × List Char) :=
  (key? (cs.length + 1) cs).bind fun (parts, rest) =>
    if parts.length < nestingLimit then some (parts, rest) else none

/-! ## Building tables -/

/-- A step at a place in a tree of tables: the table there, changed. -/
abbrev Edit := TomlOrigin → KeyedList Toml → Option (TomlOrigin × KeyedList Toml)

/-- `items` with its last element changed by `f`. -/
def editLast (f : Toml → Option Toml) : List Toml → Option (List Toml)
  | [] => none
  | [last] => (f last).map ([·])
  | item :: rest => (editLast f rest).map (item :: ·)

/-- Applies `edit` to the table at `path` below a table, opening tables on the way with `origin`. At a
repeated header the way leads through its last table. A dotted path does not enter a table that has a
header of its own. -/
def editAt (origin : TomlOrigin) (edit : Edit) : (path : List String) → Edit
  | [], at_, entries => edit at_ entries
  | key :: path, at_, entries =>
    let below : Toml → Option Toml
      | .table .inline _ => none
      | .table inner children =>
        if origin = .dotted ∧ inner = .header then none
        else (editAt origin edit path inner children).map fun (o, es) => .table o es
      | _ => none
    match KeyedList.get? key entries with
    | none =>
      (editAt origin edit path origin []).map fun (o, es) =>
        (at_, KeyedList.put key (.table o es) entries)
    | some (.tables items) =>
      let inner : Toml → Option Toml
        | .table o es => (editAt origin edit path o es).map fun (o, es) => .table o es
        | _ => none
      (editLast inner items).map fun items => (at_, KeyedList.put key (.tables items) entries)
    | some child =>
      (below child).map fun child => (at_, KeyedList.put key child entries)

/-- Sets `key`, which must be new; a dotted key only in a table that dotted keys opened. -/
def setKey (dotted : Bool) (key : String) (value : Toml) : Edit := fun origin entries =>
  if (origin = .dotted) ≠ dotted then none
  else
    match KeyedList.get? key entries with
    | some _ => none
    | none => some (origin, KeyedList.put key value entries)

/-- Sets the value at a key of one or more parts. -/
def setPath (path : List String) (value : Toml) : Edit := fun origin entries =>
  match path.getLast? with
  | none => none
  | some key =>
    let parents := path.dropLast
    editAt .dotted (setKey (!parents.isEmpty) key value) parents origin entries

/-- Opens the table of a header: a new one, or one that was implied before, which moves to the end. -/
def openTable (key : String) : Edit := fun origin entries =>
  match KeyedList.get? key entries with
  | none => some (origin, KeyedList.put key (.table .header []) entries)
  | some (.table .implied children) =>
    some (origin, KeyedList.put key (.table .header children) (KeyedList.erase key entries))
  | some _ => none

/-- Adds a table under a repeated header. -/
def addTable (key : String) : Edit := fun origin entries =>
  match KeyedList.get? key entries with
  | none => some (origin, KeyedList.put key (.tables [.table .header []]) entries)
  | some (.tables items) =>
    some (origin, KeyedList.put key (.tables (items ++ [.table .header []])) entries)
  | some _ => none

/-! ## Values -/

/-- Whether `c` may belong to a number, a date or a truth value. -/
def isWordChar (c : Char) : Bool :=
  c.isAlphanum || c == '_' || c == '+' || c == '-' || c == '.' || c == ':'

/-- Splits the longest word off `cs`. A blank between a date and a time of day belongs to it. -/
def splitWord (cs : List Char) : List Char × List Char :=
  let word := cs.takeWhile isWordChar
  let rest := cs.dropWhile isWordChar
  match rest with
  | ' ' :: more =>
    let time := more.takeWhile isWordChar
    let startsTime := match time with
      | a :: b :: ':' :: _ => a.isDigit && b.isDigit
      | _ => false
    let isDate := match date? word with
      | some (_, []) => true
      | _ => false
    if isDate && startsTime then (word ++ ' ' :: time, more.dropWhile isWordChar) else (word, rest)
  | _ => (word, rest)

/-- The items of an array after its opening bracket. Line ends and comments may stand anywhere, and
after the last item a comma. -/
def items? (item : List Char → Option (Toml × List Char)) :
    (fuel : Nat) → (done : List Toml) → List Char → Option (Toml × List Char)
  | 0, _, _ => none
  | fuel + 1, done, cs => do
    match ← skipLines? (cs.length + 1) cs with
    | ']' :: rest => some (.array done.reverse, rest)
    | cs =>
      let (value, rest) ← item cs
      match ← skipLines? (rest.length + 1) rest with
      | ',' :: rest => items? item fuel (value :: done) rest
      | ']' :: rest => some (.array (value :: done).reverse, rest)
      | _ => none

/-- The entries of an inline table after its opening brace and blanks. -/
def inline? (item : List Char → Option (Toml × List Char)) :
    (fuel : Nat) → (done : KeyedList Toml) → List Char → Option (Toml × List Char)
  | 0, _, _ => none
  | fuel + 1, done, cs => do
    let (path, rest) ← path? cs
    match rest with
    | '=' :: rest =>
      let (value, rest) ← item (skipBlanks rest)
      let (_, done) ← setPath path value .inline done
      match skipBlanks rest with
      | ',' :: rest => inline? item fuel done rest
      | '\x7d' :: rest => some (.table .inline done, rest)
      | _ => none
    | _ => none

mutual

/-- A table that dotted keys opened between braces, closed like the braces. -/
def closed : Toml → Toml
  | .table _ entries => .table .inline (closedEntries entries)
  | .array items => .array items
  | value => value

/-- The entries of such a table. -/
def closedEntries : List (String × Toml) → List (String × Toml)
  | [] => []
  | (key, value) :: rest => (key, closed value) :: closedEntries rest

end

/-- Reads one value; `depth` arrays and inline tables may be open at once. -/
def value? : (depth : Nat) → List Char → Option (Toml × List Char)
  | depth, cs =>
    match cs with
    | '"' :: rest => (string? '"' rest).map fun (s, rest) => (.string s, rest)
    | '\'' :: rest => (string? '\'' rest).map fun (s, rest) => (.string s, rest)
    | '[' :: rest =>
      match depth with
      | 0 => none
      | depth + 1 => items? (value? depth) (rest.length + 1) [] rest
    | '\x7b' :: rest =>
      match depth with
      | 0 => none
      | depth + 1 =>
        match skipBlanks rest with
        | '\x7d' :: rest => some (.table .inline [], rest)
        | rest =>
          (inline? (value? depth) (rest.length + 1) [] rest).map fun (t, rest) =>
            (closed t, rest)
    | cs =>
      let (word, rest) := splitWord cs
      (word? word).map fun value => (value, rest)

/-! ## Documents -/

/-- Reads the lines of a document into `entries`, the tables so far; `place` is the path of the last
header. -/
def lines? : (fuel : Nat) → (place : List String) → KeyedList Toml → List Char →
    Option (KeyedList Toml)
  | 0, _, _, _ => none
  | fuel + 1, place, entries, cs => do
    match ← skipLines? (cs.length + 1) cs with
    | [] => some entries
    | '[' :: '[' :: rest =>
      let (path, rest) ← path? rest
      let key ← path.getLast?
      match rest with
      | ']' :: ']' :: rest =>
        let (_, entries) ← editAt .implied (addTable key) path.dropLast .header entries
        lines? fuel path entries (← endLine? rest)
      | _ => none
    | '[' :: rest =>
      let (path, rest) ← path? rest
      let key ← path.getLast?
      match rest with
      | ']' :: rest =>
        let (_, entries) ← editAt .implied (openTable key) path.dropLast .header entries
        lines? fuel path entries (← endLine? rest)
      | _ => none
    | cs =>
      let (path, rest) ← path? cs
      match rest with
      | '=' :: rest =>
        let (value, rest) ← value? (nestingLimit - 1) (skipBlanks rest)
        let (_, entries) ← editAt .implied (setPath path value) place .header entries
        lines? fuel place entries (← endLine? rest)
      | _ => none

/-- The entries of the document that `text` writes. A byte order mark at its start is skipped. -/
def parse? (text : String) : Option (KeyedList Toml) :=
  let cs := match text.toList with
    | '\uFEFF' :: rest => rest
    | cs => cs
  lines? (cs.length + 1) [] [] cs

end Toml

end ResourceQuery
