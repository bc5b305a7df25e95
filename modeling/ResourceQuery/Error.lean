import ResourceQuery.Access
import ResourceQuery.Number.Decimal

/-! # Failures

Everything that can go wrong, as causes. An `Error` belongs to one of ten classes; the classes with
many causes have a type of causes each, whose wording is its `text`. A failure that came from another
party by class and message, over a transport, is kept as `reported` in its class.

`Error.code`, `Error.message` and `Error.status` are what a caller sees: the class, the text and the
suggested response status.
-/

namespace ResourceQuery

/-! ## Causes -/

/-- Why a chain of query operators has no canonical plan. -/
inductive Rejection where
  | afterTerminal (operator : String)
  | filterAfterPaging
  | filterAfterGrouping
  | orderAfterPaging
  | secondGrouping
  | groupAfterPaging
  | groupAfterSelect
  | groupAfterOrder
  | pageWithoutOrder (operator : String)
  | secondPage (operator : String)
  | lateTypeRestriction
  | expandAfterGrouping
  | expandNotPath
  deriving DecidableEq

/-- Why something well-formed is not supported. -/
inductive Unsupported where
  | reported (message : String)
  | inheritanceCycle (type : String)
  | dictionaryKey (type : String)
  | genericWithoutArguments (type : String) (count : Nat)
  | argumentCount (type : String) (expected found : Nat)
  | constructorProperty (parameter type : String)
  | constructorParameter (parameter type : String)
  | endlessType (type : String)
  | notResource (type : String)
  | noPrimaryId (type : String)
  | noMemberId (type : String)
  | parentCycle (type : String)
  | noChildCollection (parent collection : String)
  | noParentProperty (type property : String)
  | reentrantReference (uri : String)
  | orderByMany
  | memberName (name : String)
  | callArity (function : String) (least most found : Nat)
  | nestedProjection
  | unboundInText (parameter : String)
  | emptyProjection
  | aliasName (name : String)
  | chain (rejection : Rejection)
  | cyclicValue (type path : String)
  | methodNotServed (method : HttpMethod)
  deriving DecidableEq

/-- Why an expression does not fit the types it is compiled for. -/
inductive Miscompiled where
  | reported (message : String)
  | unboundParameter (name : String)
  | groupMember (name : String)
  | noMember (type name : String)
  | unreadable (type name : String)
  | notCollection (method type : String)
  deriving DecidableEq

/-- Why a document does not have the shape that its type asks for. Paths are those of properties from
the document's root. -/
inductive Misshapen where
  | reported (message : String)
  | malformedJson
  | malformedResponse (uri : String)
  | resultObject (found : String)
  | resultTag
  | resultItems
  | resultUrl (found : String)
  | resultCount (member : String)
  | null (type path : String)
  | boxedType (found expected path : String)
  | boxTag
  | boxValue
  | enumName (type path found : String)
  | enumMember (text type path : String)
  | notScalar (type path : String)
  | typeTag (found : String)
  | arrayExpected (path found : String)
  | objectExpected (path found : String)
  | identifierProperty (type property path : String)
  | noItem (property identifier path : String)
  | reservedKey (key path : String)
  | notAssignable (found expected path : String)
  | uriTag (found : String)
  | refTag (found : String)
  | notStructured (type : String)
  | abstractType (type path : String)
  | noProperty (type property path : String)
  | scalarExpected (kind path found : String)
  | int32Range (value : Int) (path : String)
  | timestamp (text path : String)
  | referenceWithoutUri
  | parentValue (type property found : String)
  | identifierKind (type found : String)
  deriving DecidableEq

/-- Why a text is not an expression. -/
inductive SyntaxFault where
  | unterminatedString
  | wideInteger (text : String)
  | dateTime (text : String)
  | character (c : Char)
  | integerRange (text : String)
  | unknownMethod (name : String)
  | unknownFunction (name : String)
  | argumentCount (function : String) (found : Nat)
  | keyword (word : String)
  | expected (token found : String)
  | identifierExpected (found : String)
  | unexpected (found : String)
  deriving DecidableEq

/-- Why a query string or the evaluation of a query fails. -/
inductive QueryFault where
  | reported (message : String)
  | syntaxAt (fault : SyntaxFault) (offset : Nat)
  | nesting (limit : Nat)
  | duplicateAlias (name : String)
  | queryLength (bytes limit : Nat)
  | malformedEncoding
  | duplicateParameter (key : String)
  | unknownParameter (key : String)
  | count (key value : String)
  | expandPath (path : String)
  | totalCount (value : String)
  | projection (value : String)
  | unboundParameter (name : String)
  | notEnumerable (method kind : String)
  | unresolvedMember (name uri : String)
  | memberOfScalar (name kind : String)
  | overflow (operation : String)
  | divisionByZero
  | unaryOperand (operator kind : String)
  | binaryOperands (operator left right : String)
  | incomparable (left right : String)
  | unordered (left right : String)
  | stringArgument (function kind : String)
  | integerArgument (function kind : String)
  | negativeIndex (function : String) (index : Int)
  | sumOperand (kind : String)
  | notSubtype (type base : String)
  | pathShape (path template : String)
  | identifierEncoding
  deriving DecidableEq

/-- Why a configuration, a schema or a type name cannot be used. -/
inductive ConfigFault where
  | reported (message : String)
  | typeNameExpected (offset : Nat) (text : String)
  | unterminatedArguments (text : String)
  | trailingTypeName (text : String)
  | declaredTwice (name : String)
  | schema
  | config
  | unreadable (path : String)
  | tableDefault (property : String)
  | dateDefault (property : String)
  deriving DecidableEq

/-- A failure. -/
inductive Error where
  | unknownType (name : String)
  | notSupported (cause : Unsupported)
  | filterCompilation (cause : Miscompiled)
  | serializationFormat (cause : Misshapen)
  | missingProperty (type property path : String)
  | accessDenied (type property : String) (method : HttpMethod)
  | emptyResult
  | invalidQuery (cause : QueryFault)
  | transport (status : Nat) (message : String)
  | config (cause : ConfigFault)
  deriving DecidableEq

/-! ## Wording -/

/-- The place in a document, after a message: nothing for the root. -/
def atPath (path : String) : String :=
  if path.isEmpty then "" else s!" at '{path}'"

namespace Rejection

/-- Operator and reason. -/
def text : Rejection → String
  | .afterTerminal operator => s!"{operator}: no operator may follow a terminal projection"
  | .filterAfterPaging => "Where: filtering after Skip/Take is not supported"
  | .filterAfterGrouping => "Where: filtering after GroupBy is not supported"
  | .orderAfterPaging => "OrderBy: requires OrderBy before paging"
  | .secondGrouping => "GroupBy: only one GroupBy allowed"
  | .groupAfterPaging => "GroupBy: grouping after Skip/Take is not supported"
  | .groupAfterSelect => "GroupBy: grouping after Select is not supported"
  | .groupAfterOrder => "GroupBy: grouping after OrderBy is not supported"
  | .pageWithoutOrder operator => s!"{operator}: requires OrderBy before paging"
  | .secondPage operator => s!"{operator}: only one Skip/Take allowed"
  | .lateTypeRestriction => "OfType: type restriction must precede Skip, Take, GroupBy and Select"
  | .expandAfterGrouping => "Expand: expansion after GroupBy is not supported"
  | .expandNotPath => "Expand: expansion must be a member path"

end Rejection

namespace Unsupported

/-- The reason. -/
def text : Unsupported → String
  | .reported message => message
  | .inheritanceCycle type => s!"inheritance cycle through '{type}'"
  | .dictionaryKey type => s!"dictionary keys must be strings, found '{type}'"
  | .genericWithoutArguments type count =>
    s!"generic definition '{type}' needs {count} type argument(s)"
  | .argumentCount type expected found =>
    s!"'{type}' takes {expected} type argument(s), got {found}"
  | .constructorProperty parameter type =>
    s!"constructor parameter '{parameter}' of '{type}' has no matching property"
  | .constructorParameter parameter type =>
    s!"constructor parameter '{parameter}' of '{type}' has no property"
  | .endlessType type => s!"resolution of '{type}' does not come to an end"
  | .notResource type => s!"'{type}' is not a resource type"
  | .noPrimaryId type => s!"resource '{type}' has no primary id"
  | .noMemberId type => s!"'{type}' has no primary id"
  | .parentCycle type => s!"parent chain of '{type}' is cyclic"
  | .noChildCollection parent collection => s!"'{parent}' has no child collection '{collection}'"
  | .noParentProperty type property => s!"'{type}' has no parent property '{property}'"
  | .reentrantReference uri => s!"re-entrant resolution of '{uri}'"
  | .orderByMany => "ordering by more than one key"
  | .memberName name => s!"member name '{name}' cannot be written in a query"
  | .callArity function least most found =>
    s!"{function} takes {least}..={most} argument(s), got {found}"
  | .nestedProjection => "anonymous projections are only supported at the top of $select"
  | .unboundInText parameter => s!"parameter '{parameter}' is not bound in this expression"
  | .emptyProjection => "empty projection"
  | .aliasName name => s!"projection alias '{name}' is not an identifier"
  | .chain rejection => rejection.text
  | .cyclicValue type path => s!"cyclic value object '{type}' at '{path}'"
  | .methodNotServed method => method.verb ++ " is not served by the local transport"

end Unsupported

namespace Miscompiled

/-- The reason. -/
def text : Miscompiled → String
  | .reported message => message
  | .unboundParameter name => s!"unbound parameter '{name}'"
  | .groupMember name => s!"groups have no member '{name}' (only Key)"
  | .noMember type name => s!"'{type}' has no member '{name}'"
  | .unreadable type name => s!"member '{type}.{name}' is not readable"
  | .notCollection method type => s!"{method}() needs a collection, '{type}' is not one"

end Miscompiled

namespace Misshapen

/-- The reason and the place. -/
def text : Misshapen → String
  | .reported message => message
  | .malformedJson => "malformed JSON"
  | .malformedResponse uri => s!"malformed response from '{uri}'"
  | .resultObject found => s!"expected a query result object, got {found}"
  | .resultTag => "query result lacks _type '__result__'"
  | .resultItems => "query result lacks an items array"
  | .resultUrl found => s!"query result url must be a string, got {found}"
  | .resultCount member => s!"'{member}' must be a non-negative integer"
  | .null type path => s!"null is not a valid '{type}'" ++ atPath path
  | .boxedType found expected path =>
    s!"boxed '{found}' where '{expected}' was expected" ++ atPath path
  | .boxTag => "boxed value lacks a _type property"
  | .boxValue => "boxed value lacks a value property"
  | .enumName type path found => s!"expected a '{type}' member name" ++ atPath path ++ s!", got {found}"
  | .enumMember text type path => s!"'{text}' is not a member of '{type}'" ++ atPath path
  | .notScalar type path => s!"'{type}' cannot be read as a scalar" ++ atPath path
  | .typeTag found => s!"_type must be a string, got {found}"
  | .arrayExpected path found => "expected an array" ++ atPath path ++ s!", got {found}"
  | .objectExpected path found => "expected an object" ++ atPath path ++ s!", got {found}"
  | .identifierProperty type property path =>
    s!"'{type}' has no property '{property}' to identify items by" ++ atPath path
  | .noItem property identifier path => s!"no item with {property} = {identifier}" ++ atPath path
  | .reservedKey key path => s!"unescaped reserved character in key '{key}'" ++ atPath path
  | .notAssignable found expected path =>
    s!"'{found}' is not assignable to '{expected}'" ++ atPath path
  | .uriTag found => s!"_uri must be a string, got {found}"
  | .refTag found => s!"_ref must be a string, got {found}"
  | .notStructured type => s!"'{type}' is not a structured type"
  | .abstractType type path => s!"cannot create abstract type '{type}'" ++ atPath path
  | .noProperty type property path => s!"'{type}' has no property '{property}'" ++ atPath path
  | .scalarExpected kind path found => s!"expected {kind}" ++ atPath path ++ s!", got {found}"
  | .int32Range value path => Decimal.intText value ++ " is out of range for Int32" ++ atPath path
  | .timestamp text path => s!"invalid timestamp '{text}'" ++ atPath path
  | .referenceWithoutUri => "reference node without a URI"
  | .parentValue type property found =>
    s!"'{type}.{property}' must hold the parent resource, found {found}"
  | .identifierKind type found => s!"identifier of '{type}' cannot be used in a URI ({found})"

end Misshapen

namespace SyntaxFault

/-- The reason, without the place. -/
def text : SyntaxFault → String
  | .unterminatedString => "unterminated string"
  | .wideInteger text => s!"integer '{text}' is out of range"
  | .dateTime text => s!"invalid datetime '{text}'"
  | .character c => "unexpected character '" ++ String.singleton c ++ "'"
  | .integerRange text => s!"integer {text} is out of range"
  | .unknownMethod name => s!"unknown method '{name}'"
  | .unknownFunction name => s!"unknown function '{name}'"
  | .argumentCount function found => s!"{function} does not take {found} argument(s)"
  | .keyword word => s!"unexpected keyword '{word}'"
  | .expected token found => s!"expected {token}, found {found}"
  | .identifierExpected found => s!"expected identifier, found {found}"
  | .unexpected found => s!"unexpected {found}"

end SyntaxFault

namespace QueryFault

/-- The reason. -/
def text : QueryFault → String
  | .reported message => message
  | .syntaxAt fault offset => fault.text ++ s!" at offset {offset}"
  | .nesting limit => s!"expression nesting exceeds {limit} levels"
  | .duplicateAlias name => s!"duplicate projection alias '{name}'"
  | .queryLength bytes limit => s!"query string of {bytes} bytes exceeds the limit of {limit}"
  | .malformedEncoding => "malformed encoding"
  | .duplicateParameter key => s!"duplicate parameter {key}"
  | .unknownParameter key => s!"unknown parameter {key}"
  | .count key value => s!"{key} must be a non-negative integer, found '{value}'"
  | .expandPath path => s!"malformed expand path '{path}'"
  | .totalCount value => s!"$totalcount must be true or false, found '{value}'"
  | .projection value => s!"unknown projection '{value}'"
  | .unboundParameter name => s!"unbound parameter '{name}'"
  | .notEnumerable method kind => s!"{method}() applied to {kind}"
  | .unresolvedMember name uri => s!"member '{name}' of unresolved reference '{uri}'"
  | .memberOfScalar name kind => s!"member '{name}' of {kind}"
  | .overflow operation => s!"integer overflow in {operation}"
  | .divisionByZero => "division by zero"
  | .unaryOperand operator kind => s!"cannot apply {operator} to {kind}"
  | .binaryOperands operator left right => s!"cannot apply {operator} to {left} and {right}"
  | .incomparable left right => s!"cannot compare {left} with {right}"
  | .unordered left right => s!"cannot order {left} against {right}"
  | .stringArgument function kind => s!"{function}() expects a string, found {kind}"
  | .integerArgument function kind => s!"{function}() expects an integer, found {kind}"
  | .negativeIndex function index =>
    function ++ "() index " ++ Decimal.intText index ++ " is negative"
  | .sumOperand kind => s!"cannot sum {kind}"
  | .notSubtype type base => s!"$oftype '{type}' is not a subtype of '{base}'"
  | .pathShape path template => s!"'{path}' does not match '{template}'"
  | .identifierEncoding => "id segment is not UTF-8"

end QueryFault

namespace ConfigFault

/-- The reason. -/
def text : ConfigFault → String
  | .reported message => message
  | .typeNameExpected offset text => s!"expected type name at offset {offset} in '{text}'"
  | .unterminatedArguments text => s!"unterminated generic argument list in '{text}'"
  | .trailingTypeName text => s!"unexpected trailing input in type name '{text}'"
  | .declaredTwice name => s!"type '{name}' declared twice"
  | .schema => "schema"
  | .config => "config"
  | .unreadable path => s!"cannot read {path}"
  | .tableDefault property => s!"default of '{property}' cannot be a table"
  | .dateDefault property => s!"default of '{property}'"

end ConfigFault

namespace Error

/-- The class, as machines read it. -/
def code : Error → String
  | .unknownType _ => "UnknownType"
  | .notSupported _ => "NotSupported"
  | .filterCompilation _ => "FilterCompilation"
  | .serializationFormat _ => "SerializationFormat"
  | .missingProperty .. => "MissingProperty"
  | .accessDenied .. => "AccessDenied"
  | .emptyResult => "EmptyResult"
  | .invalidQuery _ => "InvalidQuery"
  | .transport .. => "Transport"
  | .config _ => "Config"

/-- The full text. -/
def message : Error → String
  | .unknownType name => s!"unknown type '{name}'"
  | .notSupported cause => "not supported: " ++ cause.text
  | .filterCompilation cause => "filter compilation failed: " ++ cause.text
  | .serializationFormat cause => "serialization format error: " ++ cause.text
  | .missingProperty type property path =>
    s!"missing required property '{property}' on type '{type}' at '{path}'"
  | .accessDenied type property method =>
    "access denied: " ++ method.verb ++ s!" of property '{property}' on type '{type}'"
  | .emptyResult => "sequence contains no matching element"
  | .invalidQuery cause => "invalid query: " ++ cause.text
  | .transport status message => s!"transport returned status {status}: {message}"
  | .config cause => "configuration error: " ++ cause.text

/-- The full text after its class in brackets. -/
def tagged (e : Error) : String :=
  "[" ++ e.code ++ "] " ++ e.message

/-- The response status that suits the failure. -/
def status : Error → Nat
  | .unknownType _ => 404
  | .emptyResult => 404
  | .accessDenied .. => 403
  | .transport status _ => status
  | .config _ => 500
  | _ => 400

/-! ## Failures over a transport -/

/-- The message that travels beside the code: without the words that the class adds, where the class
can be put together again from it. -/
def bareMessage : Error → String
  | .unknownType name => name
  | .notSupported cause => cause.text
  | .filterCompilation cause => cause.text
  | .invalidQuery cause => cause.text
  | e => e.message

/-- The failure that another party reported by code, message and response status. A class that cannot
be put together again is a transport failure. -/
def ofReport (code message : String) (status : Nat) : Error :=
  match code with
  | "EmptyResult" => .emptyResult
  | "NotSupported" => .notSupported (.reported message)
  | "FilterCompilation" => .filterCompilation (.reported message)
  | "InvalidQuery" => .invalidQuery (.reported message)
  | "UnknownType" => .unknownType message
  | _ => .transport status message

/-- Whether two failures are the same to a caller: same class, same text, same status. -/
def same (a b : Error) : Bool :=
  a.code == b.code && a.message == b.message && a.status == b.status

end Error

end ResourceQuery
