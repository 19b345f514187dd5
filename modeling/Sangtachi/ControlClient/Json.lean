import Sangtachi.ControlClient.Utf8
import Mathlib.Data.Nat.Digits.Defs

/-! # The JSON of control bodies

Values, the parser and the writer. The parser is written on what is left of the text. A loop of
the source is a recursion on a number of rounds that the text bounds. -/
namespace Sangtachi.Json

open Sangtachi.BigEndian (U8)
open Sangtachi.Utf8 (charLength appendUtf8 isValidUtf8 byte)

abbrev Bytes := List U8

def maxBodyBytes : ℕ := 4096
def maxDepth : ℕ := 32

abbrev Int64Value := { n : ℤ // -9223372036854775808 ≤ n ∧ n ≤ 9223372036854775807 }

inductive Value where
  | null
  | bool (value : Bool)
  | integer (value : Int64Value)
  | otherNumber
  | string (text : Bytes)
  | array (items : List Value)
  | object (members : List (Bytes × Value))

def Value.asBool : Value → Option Bool
  | .bool b => some b
  | _ => none

def Value.asInteger : Value → Option Int64Value
  | .integer n => some n
  | _ => none

def Value.asString : Value → Option Bytes
  | .string s => some s
  | _ => none

def Value.asArray : Value → Option (List Value)
  | .array items => some items
  | _ => none

def Value.asObject : Value → Option (List (Bytes × Value))
  | .object members => some members
  | _ => none

def Value.find (v : Value) (key : Bytes) : Option Value :=
  match v with
  | .object members => (members.find? fun m => m.1 == key).map Prod.snd
  | _ => none

def Value.pushBack (v item : Value) : Value × Bool :=
  match v with
  | .array items => (.array (items ++ [item]), true)
  | v => (v, false)

def Value.insert (v : Value) (key : Bytes) (item : Value) : Value × Bool :=
  match v with
  | .object members =>
    match (Value.object members).find key with
    | some _ => (.object members, false)
    | none => (.object (members ++ [(key, item)]), true)
  | v => (v, false)

inductive ParseError where
  | tooLarge | tooDeep | badSyntax | controlCharacter | badEscape | badSurrogate | badUtf8
  | duplicateKey | trailingData
  deriving DecidableEq, Repr

def ParseError.token : ParseError → String
  | .tooLarge => "too_large"
  | .tooDeep => "too_deep"
  | .badSyntax => "syntax"
  | .controlCharacter => "control_character"
  | .badEscape => "bad_escape"
  | .badSurrogate => "bad_surrogate"
  | .badUtf8 => "bad_utf8"
  | .duplicateKey => "duplicate_key"
  | .trailingData => "trailing_data"

/-! ## Characters -/

def quote : U8 := 0x22
def backslash : U8 := 0x5C
def slash : U8 := 0x2F
def openBrace : U8 := 0x7B
def closeBrace : U8 := 0x7D
def openBracket : U8 := 0x5B
def closeBracket : U8 := 0x5D
def comma : U8 := 0x2C
def colon : U8 := 0x3A
def minus : U8 := 0x2D
def zero : U8 := 0x30
def letterU : U8 := 0x75

def wordTrue : Bytes := [0x74, 0x72, 0x75, 0x65]
def wordFalse : Bytes := [0x66, 0x61, 0x6C, 0x73, 0x65]
def wordNull : Bytes := [0x6E, 0x75, 0x6C, 0x6C]

def isDigit (c : U8) : Bool := 0x30 ≤ c && c ≤ 0x39

def isSpace (c : U8) : Bool := c == 0x20 || c == 0x09 || c == 0x0A || c == 0x0D

def hexValue (c : U8) : Option ℕ :=
  if 0x30 ≤ c ∧ c ≤ 0x39 then some (c.toNat - 0x30)
  else if 0x61 ≤ c ∧ c ≤ 0x66 then some (c.toNat - 0x61 + 10)
  else if 0x41 ≤ c ∧ c ≤ 0x46 then some (c.toNat - 0x41 + 10)
  else none

/-! ## The parser -/

def skipWs (rest : Bytes) : Bytes := rest.dropWhile isSpace

def literal (word rest : Bytes) : Except ParseError Bytes :=
  if rest.take word.length = word then .ok (rest.drop word.length) else .error .badSyntax

/-- The four digits behind `\u`. -/
def hex4 : Bytes → Except ParseError (ℕ × Bytes)
  | a :: b :: c :: d :: rest =>
    match hexValue a, hexValue b, hexValue c, hexValue d with
    | some a, some b, some c, some d => .ok ((((a <<< 4 ||| b) <<< 4 ||| c) <<< 4) ||| d, rest)
    | _, _, _, _ => .error .badEscape
  | _ => .error .badEscape

/-- What follows a backslash, and the text with the character appended. -/
def parseEscape (rest out : Bytes) : Except ParseError (Bytes × Bytes) :=
  match rest with
  | [] => .error .badSyntax
  | c :: rest =>
    if c = quote then .ok (out ++ [quote], rest)
    else if c = backslash then .ok (out ++ [backslash], rest)
    else if c = slash then .ok (out ++ [slash], rest)
    else if c = 0x62 then .ok (out ++ [0x08], rest)
    else if c = 0x66 then .ok (out ++ [0x0C], rest)
    else if c = 0x6E then .ok (out ++ [0x0A], rest)
    else if c = 0x72 then .ok (out ++ [0x0D], rest)
    else if c = 0x74 then .ok (out ++ [0x09], rest)
    else if c ≠ letterU then .error .badEscape
    else
      match hex4 rest with
      | .error e => .error e
      | .ok (cp, rest) =>
        if 0xDC00 ≤ cp ∧ cp ≤ 0xDFFF then .error .badSurrogate
        else if 0xD800 ≤ cp ∧ cp ≤ 0xDBFF then
          if rest.take 2 ≠ [backslash, letterU] then .error .badSurrogate
          else
            match hex4 (rest.drop 2) with
            | .error e => .error e
            | .ok (low, rest) =>
              if low < 0xDC00 ∨ 0xDFFF < low then .error .badSurrogate
              else .ok (appendUtf8 out (0x10000 + ((cp - 0xD800) <<< 10) + (low - 0xDC00)), rest)
        else .ok (appendUtf8 out cp, rest)

/-- The loop of `parse_string` behind the opening quote. Every round takes at least a byte. -/
def stringFrom : ℕ → Bytes → Bytes → Except ParseError (Bytes × Bytes)
  | 0, _, _ => .error .badSyntax
  | _ + 1, [], _ => .error .badSyntax
  | rounds + 1, b :: rest, out =>
    if b = quote then .ok (out, rest)
    else if b = backslash then
      match parseEscape rest out with
      | .error e => .error e
      | .ok (out, rest) => stringFrom rounds rest out
    else if b < 0x20 then .error .controlCharacter
    else
      match charLength (b :: rest) with
      | 0 => .error .badUtf8
      | n + 1 => stringFrom rounds (rest.drop n) (out ++ (b :: rest).take (n + 1))

/-- `rest` starts with the opening quote. -/
def parseString (rest : Bytes) : Except ParseError (Bytes × Bytes) :=
  stringFrom rest.length (rest.drop 1) []

/-- The digits of an integer: whether they fit under the limit, and their value while they do. -/
def scanDigits (limit : ℕ) : Bool → ℕ → Bytes → Bool × ℕ × Bytes
  | fits, magnitude, [] => (fits, magnitude, [])
  | fits, magnitude, c :: rest =>
    if isDigit c then
      let d := c.toNat - 0x30
      let fits := fits && !decide ((limit - d) / 10 < magnitude)
      scanDigits limit fits (if fits then magnitude * 10 + d else magnitude) rest
    else (fits, magnitude, c :: rest)

def skipDigits (rest : Bytes) : Bytes := rest.dropWhile isDigit

/-- The fraction, if there is one. The flag tells whether the number is still an integer. -/
def parseFraction (rest : Bytes) : Except ParseError (Bool × Bytes) :=
  match rest with
  | [] => .ok (true, [])
  | c :: tail =>
    if c = 0x2E then
      match tail with
      | [] => .error .badSyntax
      | d :: _ => if isDigit d then .ok (false, skipDigits tail) else .error .badSyntax
    else .ok (true, c :: tail)

def parseExponent (integral : Bool) (rest : Bytes) : Except ParseError (Bool × Bytes) :=
  match rest with
  | [] => .ok (integral, [])
  | c :: tail =>
    if c = 0x65 ∨ c = 0x45 then
      let tail := match tail with
        | s :: more => if s = 0x2B ∨ s = minus then more else s :: more
        | [] => []
      match tail with
      | [] => .error .badSyntax
      | d :: _ => if isDigit d then .ok (false, skipDigits tail) else .error .badSyntax
    else .ok (integral, c :: tail)

def magnitudeLimit (negative : Bool) : ℕ :=
  if negative then 9223372036854775808 else 9223372036854775807

/-- The integer of a sign and a magnitude, which is within the limit of that sign here. -/
def toInteger (negative : Bool) (magnitude : ℕ) : Value :=
  if h : magnitude ≤ magnitudeLimit negative then
    .integer ⟨if negative then -(magnitude : ℤ) else magnitude, by
      unfold magnitudeLimit at h
      cases negative <;> simp at h ⊢ <;> omega⟩
  else .otherNumber

/-- The integer part of a number: a zero, or digits that start with another one. -/
def parseIntegerPart (negative : Bool) (rest : Bytes) : Except ParseError (Bool × ℕ × Bytes) :=
  match rest with
  | [] => .error .badSyntax
  | c :: tail =>
    if !isDigit c then .error .badSyntax
    else if c = zero then
      match tail with
      | [] => .ok (true, 0, [])
      | d :: _ => if isDigit d then .error .badSyntax else .ok (true, 0, tail)
    else .ok (scanDigits (magnitudeLimit negative) true 0 (c :: tail))

def parseUnsigned (negative : Bool) (rest : Bytes) : Except ParseError (Value × Bytes) :=
  match parseIntegerPart negative rest with
  | .error e => .error e
  | .ok (fits, magnitude, rest) =>
    match parseFraction rest with
    | .error e => .error e
    | .ok (integral, rest) =>
      match parseExponent integral rest with
      | .error e => .error e
      | .ok (integral, rest) =>
        if !integral || !fits then .ok (.otherNumber, rest)
        else .ok (toInteger negative magnitude, rest)

def parseNumber (rest : Bytes) : Except ParseError (Value × Bytes) :=
  match rest with
  | [] => .error .badSyntax
  | c :: tail => if c = minus then parseUnsigned true tail else parseUnsigned false (c :: tail)

mutual

/-- `depth` arrays and objects are around the value. -/
def parseValue : ℕ → ℕ → Bytes → Except ParseError (Value × Bytes)
  | 0, _, _ => .error .badSyntax
  | _ + 1, _, [] => .error .badSyntax
  | rounds + 1, depth, c :: rest =>
    if c = openBrace then
      if maxDepth < depth + 1 then .error .tooDeep
      else
        match skipWs rest with
        | [] => .error .badSyntax
        | d :: more =>
          if d = closeBrace then .ok (.object [], more)
          else parseMembers rounds (depth + 1) (d :: more) (.object [])
    else if c = openBracket then
      if maxDepth < depth + 1 then .error .tooDeep
      else
        match skipWs rest with
        | [] => .error .badSyntax
        | d :: more =>
          if d = closeBracket then .ok (.array [], more)
          else parseItems rounds (depth + 1) (d :: more) (.array [])
    else if c = quote then (parseString (c :: rest)).map fun r => (.string r.1, r.2)
    else if c = 0x74 then (literal wordTrue (c :: rest)).map fun rest => (.bool true, rest)
    else if c = 0x66 then (literal wordFalse (c :: rest)).map fun rest => (.bool false, rest)
    else if c = 0x6E then (literal wordNull (c :: rest)).map fun rest => (.null, rest)
    else parseNumber (c :: rest)

/-- The loop of `parse_object`. -/
def parseMembers : ℕ → ℕ → Bytes → Value → Except ParseError (Value × Bytes)
  | 0, _, _, _ => .error .badSyntax
  | rounds + 1, depth, rest, out =>
    match skipWs rest with
    | [] => .error .badSyntax
    | c :: rest =>
      if c ≠ quote then .error .badSyntax
      else
        match parseString (c :: rest) with
        | .error e => .error e
        | .ok (key, rest) =>
          match skipWs rest with
          | [] => .error .badSyntax
          | c :: rest =>
            if c ≠ colon then .error .badSyntax
            else
              match parseValue rounds depth (skipWs rest) with
              | .error e => .error e
              | .ok (item, rest) =>
                match out.insert key item with
                | (_, false) => .error .duplicateKey
                | (out, true) =>
                  match skipWs rest with
                  | [] => .error .badSyntax
                  | c :: rest =>
                    if c = comma then parseMembers rounds depth rest out
                    else if c = closeBrace then .ok (out, rest)
                    else .error .badSyntax

/-- The loop of `parse_array`. -/
def parseItems : ℕ → ℕ → Bytes → Value → Except ParseError (Value × Bytes)
  | 0, _, _, _ => .error .badSyntax
  | rounds + 1, depth, rest, out =>
    match parseValue rounds depth (skipWs rest) with
    | .error e => .error e
    | .ok (item, rest) =>
      match skipWs rest with
      | [] => .error .badSyntax
      | c :: rest =>
        if c = comma then parseItems rounds depth rest (out.pushBack item).1
        else if c = closeBracket then .ok ((out.pushBack item).1, rest)
        else .error .badSyntax

end

/-- `Parser::run`, in at most so many rounds of nested loops. -/
def run (rounds : ℕ) (text : Bytes) : Except ParseError Value :=
  match parseValue rounds 0 (skipWs text) with
  | .error e => .error e
  | .ok (v, rest) => if skipWs rest = [] then .ok v else .error .trailingData

def parse (text : Bytes) : Except ParseError Value :=
  if maxBodyBytes < text.length then .error .tooLarge else run (2 * text.length) text

/-! ## The writer -/

def hexDigit (n : ℕ) : U8 := if n < 10 then byte (0x30 + n) else byte (0x61 + (n - 10))

def writeByte (b : U8) : Bytes :=
  if b = quote then [backslash, quote]
  else if b = backslash then [backslash, backslash]
  else if b = 0x08 then [backslash, 0x62]
  else if b = 0x0C then [backslash, 0x66]
  else if b = 0x0A then [backslash, 0x6E]
  else if b = 0x0D then [backslash, 0x72]
  else if b = 0x09 then [backslash, 0x74]
  else if b < 0x20 then
    [backslash, letterU, zero, zero, hexDigit (b.toNat >>> 4), hexDigit (b.toNat &&& 0x0F)]
  else [b]

def writeString (s : Bytes) : Option Bytes :=
  if isValidUtf8 s then some ([quote] ++ s.flatMap writeByte ++ [quote]) else none

def decimal (n : ℕ) : Bytes :=
  if n = 0 then [zero] else (Nat.digits 10 n).reverse.map fun d => byte (0x30 + d)

/-- `std::to_string`. -/
def integerText (n : Int64Value) : Bytes :=
  if n.1 < 0 then minus :: decimal n.1.natAbs else decimal n.1.natAbs

mutual

def writeValue (depth : ℕ) : Value → Option Bytes
  | .null => some wordNull
  | .bool b => some (if b then wordTrue else wordFalse)
  | .integer n => some (integerText n)
  | .otherNumber => none
  | .string s => writeString s
  | .array items =>
    if maxDepth < depth + 1 then none
    else (writeItems (depth + 1) true items).map fun body => [openBracket] ++ body ++ [closeBracket]
  | .object members =>
    if maxDepth < depth + 1 then none
    else (writeMembers (depth + 1) true members).map fun body => [openBrace] ++ body ++ [closeBrace]

def writeItems (depth : ℕ) (first : Bool) : List Value → Option Bytes
  | [] => some []
  | item :: items =>
    match writeValue depth item with
    | none => none
    | some text =>
      (writeItems depth false items).map fun more => (if first then [] else [comma]) ++ text ++ more

def writeMembers (depth : ℕ) (first : Bool) : List (Bytes × Value) → Option Bytes
  | [] => some []
  | (key, item) :: members =>
    match writeString key with
    | none => none
    | some name =>
      match writeValue depth item with
      | none => none
      | some text =>
        (writeMembers depth false members).map fun more =>
          (if first then [] else [comma]) ++ name ++ [colon] ++ text ++ more

end

def serialize (v : Value) : Option Bytes := writeValue 0 v

end Sangtachi.Json
