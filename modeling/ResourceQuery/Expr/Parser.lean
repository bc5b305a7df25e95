import ResourceQuery.Action
import ResourceQuery.Expr.Lambda
import ResourceQuery.Expr.Token

/-! # Reading expressions

The grammar of expressions. A word names a member of the row, unless an aggregate around it calls its
variable so.

```
expr      ::= unary (operator unary)*              operators by precedence, to the left
unary     ::= 'not' unary | '-' unary | primary postfix*
postfix   ::= '.' word | '.' aggregate '(' (word ':' expr)? ')'
primary   ::= constant | 'this' | word | function '(' expr (',' expr)* ')' | '(' expr ')'
selection ::= expr ('as' word)? (',' expr ('as' word)?)*
order     ::= expr ('asc' | 'desc')?
```

Reading stops where the nesting passes a limit. The limit goes down with every `expr` and `unary` that
is entered, so the functions recurse on what is left of it; repetitions take a token in each round, and
the number of tokens bounds them.

The variables that a text writes do not come into the tree: the row is `_p0`, and the variables of
aggregates are `_p1`, `_p2`, … in the order of the text.
-/

namespace ResourceQuery

namespace Parser

/-! ## State -/

/-- Where reading is: the tokens ahead, the length of the text in bytes, and the number of the next
variable. -/
structure State where
  ahead : List Lexeme
  finish : Nat
  nextVariable : Nat

/-- Limits that hold during the whole reading. -/
structure Bounds where
  /-- How deep expressions may be nested. -/
  nesting : Nat
  /-- How many tokens there are. -/
  tokens : Nat

/-- A variable as the text calls it and as the tree calls it, for each aggregate around a place,
innermost first. -/
abbrev Scopes := List (String × String)

/-- The name of the row in the tree. -/
def rowName : String := numberedName 0

namespace State

/-- The number of bytes before the next token. -/
def offset (s : State) : Nat :=
  match s.ahead with
  | lexeme :: _ => lexeme.offset
  | [] => s.finish

/-- The next token as messages show it. -/
def found (s : State) : String :=
  match s.ahead with
  | lexeme :: _ => lexeme.token.describe
  | [] => "end of input"

/-- Whether the next token is the mark `m`. -/
def isAt (s : State) (m : Mark) : Bool :=
  match s.ahead with
  | ⟨.mark n, _⟩ :: _ => n == m
  | _ => false

/-- Whether the next token is the word `word`. -/
def isAtWord (s : State) (word : String) : Bool :=
  match s.ahead with
  | ⟨.word w, _⟩ :: _ => Text.sameIgnoringCase w word
  | _ => false

/-- The operator that the next token is. -/
def operator? (s : State) : Option BinaryOp :=
  match s.ahead with
  | ⟨.word w, _⟩ :: _ => BinaryOp.ofKeyword? w
  | _ => none

/-- The state behind the next token. -/
def skip (s : State) : State :=
  { s with ahead := s.ahead.drop 1 }

end State

end Parser

/-- Reads something from tokens. A failure tells how far it came. -/
abbrev Parser (α : Type) := Action Parser.State α

namespace Parser

variable {α : Type}

/-! ## Single tokens -/

/-- Fails with a fault at a place. -/
def fault (f : SyntaxFault) (offset : Nat) : Parser α :=
  Action.fail (.invalidQuery (.syntaxAt f offset))

/-- Takes the next token, if there is one. -/
def advance : Parser (Option Token) :=
  Action.change fun s => ((s.ahead.head?).map Lexeme.token, s.skip)

/-- Takes the mark `m`, if it is next. -/
def takes (m : Mark) : Parser Bool :=
  Action.change fun s => if s.isAt m then (true, s.skip) else (false, s)

/-- Takes the word `word`, if it is next. -/
def takesWord (word : String) : Parser Bool :=
  Action.change fun s => if s.isAtWord word then (true, s.skip) else (false, s)

/-- Takes the mark `m`, which must be next. -/
def expect (m : Mark) : Parser Unit :=
  Action.ofFunction fun s =>
    if s.isAt m then (.ok (), s.skip)
    else (.error (.invalidQuery (.syntaxAt (.expected m.describe s.found) s.offset)), s)

/-- Checks that no token is left. -/
def expectEnd : Parser Unit :=
  Action.look fun s =>
    if s.ahead.isEmpty then .ok ()
    else .error (.invalidQuery (.syntaxAt (.unexpected s.found) s.offset))

/-- Takes a word, which must be next. -/
def identifier : Parser String := do
  let s ← get
  match ← advance with
  | some (.word w) => pure w
  | _ => fault (.identifierExpected s.found) s.offset

/-- A name for the variable of an aggregate. -/
def newVariable : Parser String :=
  Action.change fun s => (numberedName s.nextVariable, { s with nextVariable := s.nextVariable + 1 })

/-- The outcome of `p`, a failure included. -/
def outcome (p : Parser α) : Parser (Except Error α) :=
  Action.change fun s => p.runOn s

/-- Fails because the nesting is too deep. -/
def tooDeep (bounds : Bounds) : Parser α :=
  Action.fail (.invalidQuery (.nesting bounds.nesting))

/-! ## Parts of expressions -/

/-- Operators and operands behind `left`, as long as the operators bind at least as tightly as `least`.
`operand` reads an operand for operators from a precedence on. -/
def operators (operand : Nat → Parser Expr) (least : Nat) : (fuel : Nat) → (left : Expr) → Parser Expr
  | 0, left => pure left
  | fuel + 1, left => do
    match (← get).operator? with
    | none => pure left
    | some op =>
      if op.precedence < least then pure left
      else
        let _ ← advance
        let right ← operand (op.precedence + 1)
        operators operand least fuel (.binary op left right)

/-- The rest of an aggregate of `target`, after its name. -/
def aggregate (expr : Scopes → Parser Expr) (scopes : Scopes) (target : Expr) (a : Aggregate) :
    Parser Expr := do
  expect .leftParen
  if ← takes .rightParen then pure (.aggregate target a)
  else
    let shown ← identifier
    expect .colon
    let parameter ← newVariable
    let body ← outcome (expr ((shown, parameter) :: scopes))
    expect .rightParen
    match body with
    | .ok body => pure (.aggregateOf target a parameter body)
    | .error e => Action.fail e

/-- Members and aggregates behind `target`. -/
def members (expr : Scopes → Parser Expr) (scopes : Scopes) :
    (fuel : Nat) → (target : Expr) → Parser Expr
  | 0, target => pure target
  | fuel + 1, target => do
    if ← takes .dot then
      let offset := (← get).offset
      let name ← identifier
      if (← get).isAt .leftParen then
        match Aggregate.ofName? name with
        | none => fault (.unknownMethod name) offset
        | some a =>
          let applied ← aggregate expr scopes target a
          members expr scopes fuel applied
      else members expr scopes fuel (.member target name)
    else pure target

/-- Arguments after commas, put behind those in `done`. -/
def moreArguments (argument : Parser Expr) : (fuel : Nat) → (done : List Expr) → Parser (List Expr)
  | 0, done => pure done
  | fuel + 1, done => do
    if ← takes .comma then
      let next ← argument
      moreArguments argument fuel (done ++ [next])
    else pure done

/-- The rest of a call, after its name. -/
def call (bounds : Bounds) (argument : Parser Expr) (name : String) (offset : Nat) :
    Parser Expr := do
  match TextFunction.ofName? name with
  | none => fault (.unknownFunction name) offset
  | some f =>
    expect .leftParen
    let first ← argument
    let arguments ← moreArguments argument bounds.tokens [first]
    expect .rightParen
    if f.takes arguments.length then pure (.call f arguments)
    else fault (.argumentCount f.name arguments.length) offset

/-- What a word that is not called stands for. -/
def ofWord (scopes : Scopes) (word : String) : Option Expr :=
  match scopes.find? fun (shown, _) => Text.sameIgnoringCase shown word with
  | some (_, parameter) => some (.param parameter)
  | none =>
    match Text.asciiLower word with
    | "this" => some (.param rowName)
    | "null" => some (.constant .null)
    | "true" => some (.constant (.bool true))
    | "false" => some (.constant (.bool false))
    | lower => if isReserved lower then none else some (.member (.param rowName) word)

/-- A constant, a word, a call, or an expression in parentheses. -/
def primary (bounds : Bounds) (expr : Scopes → Parser Expr) (scopes : Scopes) : Parser Expr := do
  let s ← get
  match ← advance with
  | some (.int magnitude) =>
    match Word.int64? magnitude with
    | some n => pure (.constant (.int n))
    | none => fault (.integerRange (Decimal.naturalText magnitude)) s.offset
  | some (.float magnitude) => pure (.constant (.float magnitude))
  | some (.string text) => pure (.constant (.string text))
  | some (.dateTime t) => pure (.constant (.dateTime t))
  | some (.mark .leftParen) =>
    let inner ← expr scopes
    expect .rightParen
    pure inner
  | some (.word word) =>
    if (← get).isAt .leftParen then call bounds (expr scopes) word s.offset
    else
      match ofWord scopes word with
      | some e => pure e
      | none => fault (.keyword word) s.offset
  | _ => fault (.unexpected s.found) s.offset

/-- A number after a minus sign, if one is next. -/
def negativeNumber : Parser (Option Expr) := do
  let s ← get
  match s.ahead with
  | ⟨.int magnitude, offset⟩ :: _ =>
    let _ ← advance
    match Word.int64? (-magnitude) with
    | some n => pure (some (.constant (.int n)))
    | none => fault (.integerRange ("-" ++ Decimal.naturalText magnitude)) offset
  | ⟨.float magnitude, _⟩ :: _ =>
    let _ ← advance
    pure (some (.constant (.float (-magnitude))))
  | _ => pure none

/-! ## Expressions -/

mutual

/-- An expression whose operators bind at least as tightly as `least`; `budget` more levels may be
entered. -/
def binary (bounds : Bounds) : (budget : Nat) → (scopes : Scopes) → (least : Nat) → Parser Expr
  | 0, _, _ => tooDeep bounds
  | budget + 1, scopes, least => do
    let left ← unary bounds budget scopes
    operators (fun p => binary bounds budget scopes p) least bounds.tokens left

/-- An operand with its prefix operators. -/
def unary (bounds : Bounds) : (budget : Nat) → (scopes : Scopes) → Parser Expr
  | 0, _ => tooDeep bounds
  | budget + 1, scopes => do
    if ← takesWord "not" then
      let operand ← unary bounds budget scopes
      pure (.unary .not operand)
    else if ← takes .minus then
      match ← negativeNumber with
      | some number =>
        members (fun scopes => binary bounds budget scopes 0) scopes bounds.tokens number
      | none =>
        let operand ← unary bounds budget scopes
        pure (.unary .negate operand)
    else
      let first ← primary bounds (fun scopes => binary bounds budget scopes 0) scopes
      members (fun scopes => binary bounds budget scopes 0) scopes bounds.tokens first

end

/-- An expression about the row. -/
def expr (bounds : Bounds) : Parser Expr :=
  binary bounds bounds.nesting [] 0

/-- The alias of a selected expression that has none of its own: the last member's name, or a number. -/
def impliedAlias (position : Nat) : Expr → String
  | .member _ name => name
  | _ => "Item" ++ Decimal.naturalText position

/-- Selected expressions with their aliases, put behind those in `done`, and whether one of the aliases
was written. -/
def selections (bounds : Bounds) : (fuel : Nat) → (done : List (String × Expr)) → (aliased : Bool) →
    Parser (List (String × Expr) × Bool)
  | 0, done, aliased => pure (done, aliased)
  | fuel + 1, done, aliased => do
    let value ← expr bounds
    let written ← takesWord "as"
    let field ← if written then identifier else pure (impliedAlias (done.length + 1) value)
    if done.any fun (name, _) => Text.sameIgnoringCase name field then
      Action.fail (.invalidQuery (.duplicateAlias field))
    else
      let done := done ++ [(field, value)]
      if ← takes .comma then selections bounds fuel done (aliased || written)
      else pure (done, aliased || written)

/-- The value of a selection: the expression itself if it is the only one and has no alias, else a
row. -/
def selected : List (String × Expr) × Bool → Expr
  | ([(_, e)], false) => e
  | (fields, _) => .row fields

/-- A direction after a sort key. -/
def direction : Parser SortDirection := do
  if ← takesWord "desc" then pure .descending
  else
    let _ ← takesWord "asc"
    pure .ascending

/-- Checks that no second sort key follows. -/
def expectOneKey : Parser Unit :=
  Action.look fun s =>
    if s.isAt .comma then .error (.notSupported .orderByMany) else .ok ()

/-- Reads all of `text` with `p`, with at most `limit` levels of nesting. -/
def readAll (p : Bounds → Parser α) (text : String) (limit : Nat) : Except Error α := do
  let tokens ← Token.scan text
  let bounds : Bounds := ⟨limit, tokens.length + 1⟩
  let whole : Parser α := do
    let a ← p bounds
    expectEnd
    pure a
  (whole.runOn ⟨tokens, text.utf8ByteSize, 1⟩).1

end Parser

/-! ## Texts -/

/-- The expression that `text` writes, about the row. -/
def Lambda.parse (text : String) (limit : Nat) : Except Error Lambda :=
  (Parser.readAll Parser.expr text limit).map (⟨Parser.rowName, ·⟩)

/-- The selection that `text` writes. -/
def Lambda.parseSelection (text : String) (limit : Nat) : Except Error Lambda :=
  let fields := fun (bounds : Parser.Bounds) => Parser.selections bounds bounds.tokens [] false
  (Parser.readAll fields text limit).map fun read => ⟨Parser.rowName, Parser.selected read⟩

/-- The sort key that `text` writes. -/
def SortKey.parse (text : String) (limit : Nat) : Except Error SortKey :=
  let key := fun (bounds : Parser.Bounds) => do
    let body ← Parser.expr bounds
    let direction ← Parser.direction
    Parser.expectOneKey
    pure (SortKey.mk ⟨Parser.rowName, body⟩ direction)
  Parser.readAll key text limit

end ResourceQuery
