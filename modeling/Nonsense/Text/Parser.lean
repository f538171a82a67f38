import Nonsense.Text.Lexer

/-!
# The parser

`nlohmann::detail::parser::sax_parse_internal` with `json_sax_dom_parser`, which builds the
value.  The parser takes one token after the other; `ParsePc` are the places where it calls
`get_token`.

`frames` is `ref_stack`, innermost first: the arrays and objects that are open, and what they
have so far.  `states`, the stack of the parser, says of the same ones whether each is an
array.  An element or a member is put in once it is complete; nobody looks at it before.
-/

namespace Nonsense

namespace Parser

open Lexer

/-- An array or object that is open. -/
inductive Frame
  | array (elements : List Json)
  /-- `key` is that of `object_element`, the member that comes next. -/
  | object (members : Object) (key : Option String)

/-- Where the parser calls `get_token`. -/
inductive ParsePc
  /-- For the first token of a value. -/
  | value
  /-- Behind `[`, for the end or the first value. -/
  | arrayStart
  /-- Behind `{`, for the end or the first key. -/
  | objectStart
  /-- Behind a comma in an object. -/
  | key
  /-- Behind a key. -/
  | separator
  /-- Behind a value. -/
  | evaluation

inductive State
  | running (pc : ParsePc) (frames : List Frame)
  /-- `sax_parse_internal` has returned `true`, and the text has to be over. -/
  | finished (root : Json)
  | accepted (root : Json)
  | errored

/-- `handle_value`, or the end of an array or object, and where the parser goes on. -/
def handleValue (v : Json) : List Frame → State
  | [] => .finished v
  | .array elements :: frames => .running .evaluation (.array (elements ++ [v]) :: frames)
  | .object members (some key) :: frames =>
    .running .evaluation (.object (members.insert key v) none :: frames)
  -- `assert(object_element)`
  | .object _ none :: _ => .errored

/-- The value of a token that is one. -/
def scalar : Token → Option Json
  | .literalTrue => some (.boolean true)
  | .literalFalse => some (.boolean false)
  | .literalNull => some .null
  | .valueString s => some (.string (Utf8.decode s))
  | .valueUnsigned n => some (.integer n)
  | .valueInteger n => some (.integer n)
  -- what is not finite is an overflow
  | .valueFloat x => x.map .float
  | _ => none

/-- The top of the loop, with the first token of a value. -/
def value (frames : List Frame) : Token → State
  | .beginObject => .running .objectStart (.object [] none :: frames)
  | .beginArray => .running .arrayStart (.array [] :: frames)
  | token =>
    match scalar token with
    | some v => handleValue v frames
    | none => .errored

/-- A key, which has to be a string. -/
def key (frames : List Frame) : Token → State
  | .valueString s =>
    match frames with
    | .object members _ :: frames =>
      .running .separator (.object members (some (Utf8.decode s)) :: frames)
    | _ => .errored
  | _ => .errored

/-- What becomes of a token. -/
def State.step : State → Token → State
  | .running .value frames, token => value frames token
  | .running .arrayStart frames, token =>
    match token, frames with
    | .endArray, _ :: frames => handleValue (.array []) frames
    | token, frames => value frames token
  | .running .objectStart frames, token =>
    match token, frames with
    | .endObject, _ :: frames => handleValue (.object []) frames
    | token, frames => key frames token
  | .running .key frames, token => key frames token
  | .running .separator frames, token =>
    match token with
    | .nameSeparator => .running .value frames
    | _ => .errored
  | .running .evaluation frames, token =>
    match frames, token with
    | .array _ :: _, .valueSeparator => .running .value frames
    | .array elements :: frames, .endArray => handleValue (.array elements) frames
    | .object _ _ :: _, .valueSeparator => .running .key frames
    | .object members _ :: frames, .endObject => handleValue (.object members) frames
    | _, _ => .errored
  | .finished root, token =>
    match token with
    | .endOfInput => .accepted root
    | _ => .errored
  | .accepted root, _ => .accepted root
  | .errored, _ => .errored

def State.run (s : State) (tokens : List Token) : State := tokens.foldl State.step s

end Parser

/-- `nlohmann::json::parse`, with nothing for a text that is not one of a value: there it
throws, or the result is discarded. -/
def parseText (F : Floats) (text : Bytes) : Option Json :=
  match (Lexer.skipBom text).map fun text =>
      (Parser.State.running .value []).run (Lexer.tokens F (text.length + 1) text) with
  | some (.accepted root) => some root
  | _ => none

end Nonsense
