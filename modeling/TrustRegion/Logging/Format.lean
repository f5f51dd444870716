/-
  The layout of a line in a log.

  A layout is a text with fields in it. A field is written `%(name)`, then flags, a least width, a
  precision and a letter that says how the value is shown; `%%` stands for a percent sign. A layout
  without any field is refused.
-/
import TrustRegion.Logging.Level
import TrustRegion.Fault

namespace TrustRegion

namespace Logging

/-- How the value of a field is shown. -/
structure FieldStyle where
  /-- Blanks are added on the right. -/
  leftAligned : Bool
  /-- A number is filled up with zeros. -/
  zeroFilled : Bool
  /-- A positive number gets a plus sign. -/
  plusSign : Bool
  /-- A positive number gets a blank in place of a sign. -/
  blankSign : Bool
  /-- The least number of characters. -/
  width : Nat
  /-- The most characters of a text, or the least digits of a number. -/
  precision : Option Nat
  /-- The letter at the end. -/
  letter : Char
deriving Repr, DecidableEq

/-- A part of a layout. -/
inductive Piece
  /-- A character that stands for itself. -/
  | literal (c : Char)
  /-- A field. -/
  | field (name : String) (style : FieldStyle)
  /-- Something after a percent sign that is no field. -/
  | broken
deriving Repr, DecidableEq

/-- The layout of a line. -/
structure Format where
  /-- Its parts, in order. -/
  pieces : List Piece
deriving Repr, DecidableEq

namespace Format

/-- The characters of a flag. -/
def isFlag (c : Char) : Bool := c == '#' || c == '0' || c == '+' || c == ' ' || c == '-'

/-- The letters that end a field. -/
def isLetter (c : Char) : Bool := "diouxefgcrsa%".toList.contains c.toLower

/-- The characters of a field's name. -/
def isWord (c : Char) : Bool := c.isAlphanum || c == '_' || 128 ≤ c.toNat

/-- A count, or an asterisk in its place, taken off the front if there is one. -/
def dropCount (cs : List Char) : List Char :=
  match cs with
  | '*' :: rest => rest
  | _ => cs.dropWhile Char.isDigit

/-- A precision taken off the front if there is one. -/
def dropPrecision (cs : List Char) : List Char :=
  match cs with
  | '.' :: rest => if (dropCount rest).length < rest.length then dropCount rest else cs
  | _ => cs

/-- Whether a list of characters begins with a field. -/
def beginsWithField (cs : List Char) : Bool :=
  match cs with
  | '%' :: '(' :: rest =>
    !(rest.takeWhile isWord).isEmpty &&
      match rest.dropWhile isWord with
      | ')' :: spec =>
        match dropPrecision (dropCount (spec.dropWhile isFlag)) with
        | letter :: _ => isLetter letter
        | [] => false
      | _ => false
  | _ => false

/-- Whether a field begins anywhere in a list of characters. -/
def hasField : List Char → Bool
  | [] => false
  | c :: cs => beginsWithField (c :: cs) || hasField cs

/-- The number that decimal digits stand for. -/
def number (digits : List Char) : Nat :=
  digits.foldl (fun acc c => 10 * acc + (c.toNat - '0'.toNat)) 0

/-- The style in which flags, width, precision and letter are written. -/
def style (spec : List Char) (letter : Char) : FieldStyle :=
  let flags := spec.takeWhile isFlag
  let rest := spec.dropWhile isFlag
  let width := rest.takeWhile Char.isDigit
  let precision := match rest.dropWhile Char.isDigit with
    | '.' :: digits => some (number digits)
    | _ => none
  { leftAligned := flags.contains '-'
    zeroFilled := flags.contains '0'
    plusSign := flags.contains '+'
    blankSign := flags.contains ' '
    width := number width
    precision := precision
    letter := letter }

/-- Where in a layout a reader is. -/
inductive Place
  /-- Between fields. -/
  | text
  /-- After a percent sign. -/
  | percent
  /-- In the name of a field, read so far. -/
  | name (read : List Char)
  /-- After the name, if there is one, in the flags and counts read so far. -/
  | spec (name : Option String) (read : List Char)

/-- The piece that ends with a letter. -/
def close (name : Option String) (spec : List Char) (letter : Char) : Piece :=
  if letter = '%' then .literal '%'
  else
    match name with
    | some name => if isLetter letter then .field name (style spec letter) else .broken
    | none => .broken

/-- Reads the pieces of a layout. -/
def read : Place → List Char → List Piece
  | .text, [] => []
  | .percent, [] | .name _, [] | .spec .., [] => [.broken]
  | .text, c :: cs => if c = '%' then read .percent cs else .literal c :: read .text cs
  | .percent, c :: cs =>
    if c = '(' then read (.name []) cs
    else if isFlag c || c.isDigit || c == '.' then read (.spec none [c]) cs
    else close none [] c :: read .text cs
  | .name soFar, c :: cs =>
    if c = ')' then read (.spec (some (String.ofList soFar.reverse)) []) cs
    else read (.name (c :: soFar)) cs
  | .spec name soFar, c :: cs =>
    if isFlag c || c.isDigit || c == '.' then read (.spec name (soFar ++ [c])) cs
    else close name soFar c :: read .text cs

/-- The layout that a text describes; a text without a field is refused. -/
def parse {α : Type} (text : String) : Except (Fault α) Format :=
  if hasField text.toList then pure ⟨read .text text.toList⟩ else throw .logFormat

end Format

/-- A message on its way to a log. -/
structure Message where
  /-- The logger it was given to. -/
  logger : String
  /-- Its importance. -/
  level : Level
  /-- What it says. -/
  text : String
deriving Repr, DecidableEq

namespace FieldStyle

/-- Blanks added up to the width. -/
def pad (style : FieldStyle) (text : List Char) : List Char :=
  let blanks := List.replicate (style.width - text.length) ' '
  if style.leftAligned then text ++ blanks else blanks ++ text

/-- A text shown as a field. -/
def showText (style : FieldStyle) (text : String) : Option (List Char) :=
  if style.letter = 's' then
    some (style.pad (match style.precision with
      | some most => text.toList.take most
      | none => text.toList))
  else none

/-- A number shown as a field. -/
def showNumber (style : FieldStyle) (value : Int) : Option (List Char) :=
  if style.letter = 's' then style.showText value.repr
  else if style.letter = 'd' || style.letter = 'i' || style.letter = 'u' then
    let digits := Nat.toDigits 10 value.natAbs
    let digits := List.replicate (style.precision.getD 0 - digits.length) '0' ++ digits
    let sign := if value < 0 then ['-'] else if style.plusSign then ['+']
      else if style.blankSign then [' '] else []
    let fill := if style.zeroFilled && !style.leftAligned then
      List.replicate (style.width - sign.length - digits.length) '0' else []
    some (style.pad (sign ++ fill ++ digits))
  else none

end FieldStyle

namespace Piece

/-- A piece filled in for a message, if its field is known. -/
def fill (message : Message) : Piece → Option (List Char)
  | literal c => some [c]
  | field "message" style => style.showText message.text
  | field "name" style => style.showText message.logger
  | field "levelname" style => style.showText message.level.name
  | field "levelno" style => style.showNumber message.level
  | field _ _ => none
  | broken => none

end Piece

/-- The line for a message, if every field of the layout is known. -/
def Format.line (format : Format) (message : Message) : Option String :=
  (format.pieces.mapM (Piece.fill message)).map fun parts => String.ofList parts.flatten

end Logging

end TrustRegion
