import PostCortex.JsonPath.Grammar
import PostCortex.Parsing.Text

/-!
# Parsing of paths

`parse` of `jsonpath.rs` over the bytes of its input.
-/

namespace PostCortex
namespace JsonPath

open PostCortex.KeyValue
open PostCortex.Numeric
open PostCortex.Parsing

structure ParseError where
  byteOffset : Nat
  message : String
  deriving DecidableEq

/-- Why there is no path: an error is returned, or the parser panics at bytes that are
no text or at an overflow of the depth.  The last case is that of too little fuel. -/
inductive Stop where
  | error (e : ParseError)
  | notText
  | overflow
  | unfinished
  deriving DecidableEq

structure Cursor where
  pos : Nat
  rest : List UInt8

namespace Cursor

def advance (c : Cursor) (n : Nat) : Cursor :=
  ⟨c.pos + n, c.rest.drop n⟩

/-- `pos < len && bytes[pos] == b`. -/
def sees (c : Cursor) (b : Char) : Bool :=
  c.rest.head? == some b.toUInt8

end Cursor

def fail {result : Type} (offset : Nat) (message : String) : Except Stop result :=
  Except.error (Stop.error ⟨offset, message⟩)

/-- `std::str::from_utf8(..).unwrap()`. -/
def unwrapUtf8 (bytes : List UInt8) : Except Stop String :=
  match textOf bytes with
  | some text => Except.ok text
  | none => Except.error Stop.notText

def isFieldChar (b : UInt8) : Bool :=
  ('0'.toUInt8 ≤ b && b ≤ '9'.toUInt8) || ('A'.toUInt8 ≤ b && b ≤ 'Z'.toUInt8) ||
    ('a'.toUInt8 ≤ b && b ≤ 'z'.toUInt8) || b == '_'.toUInt8

/-!
# Brackets
-/

def parseInt (offset : Nat) (s : List Char) : Except ParseError Isize :=
  match parseIsize s with
  | some i => Except.ok i
  | none => Except.error ⟨offset, "expected integer, got '" ++ String.ofList s ++ "'"⟩

def parseBound (offset : Nat) (part : List Char) : Except ParseError (Option Isize) :=
  if trimBy isWhitespace part = [] then Except.ok none
  else (parseInt offset (trimBy isWhitespace part)).map some

def parseBracketContent (offset : Nat) (content : String) :
    Except ParseError PathSegment :=
  let content := trimBy isWhitespace content.toList
  if ['(', ')'] <:+ content then
    Except.error
      ⟨offset, "function calls (" ++ String.ofList content ++ ") are not allowed"⟩
  else if ':' ∈ content then
    match content.splitOn ':' with
    | [first, last] => do
        let start ← parseBound offset first
        let stop ← parseBound offset last
        Except.ok (PathSegment.slice start stop)
    | _ => Except.error ⟨offset, "slice step [a:b:c] is not allowed"⟩
  else if ',' ∈ content then
    ((content.splitOn ',').mapM
      (fun p => parseInt offset (trimBy isWhitespace p))).map PathSegment.union
  else (parseInt offset content).map PathSegment.index

/-- `depth += 1` of 32 bits, with or without overflow checks. -/
def deeper (checks : Bool) (depth : Nat) : Except Stop Nat :=
  if depth + 1 < 4294967296 then Except.ok (depth + 1)
  else if checks then Except.error Stop.overflow
  else Except.ok 0

/-- The bytes up to the bracket that closes the first depth, and the bytes from it on. -/
def scanBrackets (checks : Bool) : Nat -> List UInt8 -> Except Stop (List UInt8 × List UInt8)
  | _, [] => Except.ok ([], [])
  | 0, b :: rest => Except.ok ([], b :: rest)
  | depth + 1, b :: rest =>
      if b = ']'.toUInt8 then
        if depth = 0 then Except.ok ([], b :: rest)
        else (scanBrackets checks depth rest).map (fun r => (b :: r.1, r.2))
      else if b = '['.toUInt8 then do
        let depth ← deeper checks (depth + 1)
        (scanBrackets checks depth rest).map (fun r => (b :: r.1, r.2))
      else (scanBrackets checks (depth + 1) rest).map (fun r => (b :: r.1, r.2))

def readBracketContent (checks : Bool) (start : Cursor) : Except Stop (String × Cursor) := do
  let (bytes, _) ← scanBrackets checks 1 start.rest
  let text ← unwrapUtf8 bytes
  Except.ok (String.ofList (trimBy isWhitespace text.toList), start.advance bytes.length)

def expectByte (start : Cursor) (expected : Char) (context : String) : Except Stop Cursor :=
  if start.sees expected then Except.ok (start.advance 1)
  else fail start.pos
    ("expected '" ++ expected.toString ++ "' after '" ++ context ++ "'")

/-!
# Segments
-/

def dotSegment (start : Cursor) : Except Stop (PathSegment × Cursor) :=
  if start.sees '.' then fail (start.pos - 1) "recursive descent (..) is not allowed"
  else if start.sees '*' then Except.ok (PathSegment.wildcard, start.advance 1)
  else
    let name := start.rest.takeWhile isFieldChar
    let stop := start.advance name.length
    if name = [] then fail stop.pos "expected field name after '.'"
    else do
      let fieldName ← unwrapUtf8 name
      if stop.sees '(' then
        fail start.pos ("function calls (" ++ fieldName ++ "()) are not allowed")
      else Except.ok (PathSegment.field fieldName, stop)

def bracketSegment (checks : Bool) (start : Cursor) :
    Except Stop (PathSegment × Cursor) :=
  if start.sees '?' then
    fail (start.pos - 1) "filter expressions [?(...)] are not allowed"
  else if start.sees '*' then do
    let stop ← expectByte (start.advance 1) ']' "*"
    Except.ok (PathSegment.wildcard, stop)
  else do
    let (content, close) ← readBracketContent checks start
    let stop ← expectByte close ']' content
    let segment ← (parseBracketContent start.pos content).mapError Stop.error
    Except.ok (segment, stop)

def parseSegment (checks : Bool) (b : UInt8) (start : Cursor) :
    Except Stop (PathSegment × Cursor) :=
  if b = '.'.toUInt8 then dotSegment (start.advance 1)
  else if b = '['.toUInt8 then bracketSegment checks (start.advance 1)
  else fail start.pos
    ("unexpected character '" ++ (Char.ofNat b.toNat).toString ++
      "'; expected '.' or '['")

def parseSegments (checks : Bool) : Nat -> Cursor -> Except Stop (List PathSegment)
  | _, ⟨_, []⟩ => Except.ok []
  | 0, _ => Except.error Stop.unfinished
  | fuel + 1, ⟨pos, b :: rest⟩ => do
      let (segment, next) ← parseSegment checks b ⟨pos, b :: rest⟩
      let segments ← parseSegments checks fuel next
      Except.ok (segment :: segments)

def parse (checks : Bool) (input : String) : Except Stop Path :=
  let start : Cursor := ⟨0, bytesOf input⟩
  if start.sees '$' then
    (parseSegments checks (bytesOf input).length (start.advance 1)).map Path.mk
  else fail 0 "JSONPath must start with '$'"

end JsonPath
end PostCortex
