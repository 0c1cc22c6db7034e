import Quill.Number.Layout

/-!
# JSON documents

A document as a tree whose objects keep their fields in written order, with two printers:

* `Json.compact`: no white space at all.
* `Json.pretty`: one item a line, two spaces a level, empty arrays and objects on one line.
-/

namespace Quill

/-- A JSON document. -/
inductive Json where
  /-- The null value. -/
  | null
  /-- A count, written as an integer. -/
  | natural (n : Nat)
  /-- A number of the language; null if it is not finite. -/
  | number (n : Number)
  /-- A text. -/
  | string (s : String)
  /-- Items in order. -/
  | array (items : List Json)
  /-- Named fields in order. -/
  | object (fields : List (String × Json))

namespace Json

/-! ## Text -/

/-- The escape of a control by two hexadecimal digits. -/
def controlEscape (c : Char) : List Char :=
  "\\u00".toList ++ [Nat.digitChar (c.toNat / 16), Nat.digitChar (c.toNat % 16)]

/-- One character of a JSON text. -/
def escapeChar (c : Char) : List Char :=
  if c = '"' then "\\\"".toList
  else if c = '\\' then "\\\\".toList
  else if c = '\n' then "\\n".toList
  else if c = '\r' then "\\r".toList
  else if c = '\t' then "\\t".toList
  else if c = '\x08' then "\\b".toList
  else if c = '\x0c' then "\\f".toList
  else if c.toNat < 0x20 then controlEscape c
  else [c]

/-- A text between double quotes. -/
def quote (s : String) : String :=
  String.ofList ('"' :: s.toList.flatMap escapeChar ++ ['"'])

/-- The text of a number, null if it is not finite. -/
def numberText (n : Number) : String :=
  n.jsonText?.getD "null"

/-! ## The compact form -/

mutual

/-- Appends the compact form of a document. -/
def compactOnto (out : String) : Json → String
  | .null => out ++ "null"
  | .natural n => out ++ toString n
  | .number n => out ++ numberText n
  | .string s => out ++ quote s
  | .array items => compactItemsOnto (out ++ "[") items ++ "]"
  | .object fields => compactFieldsOnto (out ++ "\x7b") fields ++ "\x7d"

/-- Appends items with commas between them. -/
def compactItemsOnto (out : String) : List Json → String
  | [] => out
  | [item] => compactOnto out item
  | item :: rest => compactItemsOnto (compactOnto out item ++ ",") rest

/-- Appends fields with commas between them. -/
def compactFieldsOnto (out : String) : List (String × Json) → String
  | [] => out
  | [(key, value)] => compactOnto (out ++ quote key ++ ":") value
  | (key, value) :: rest =>
    compactFieldsOnto (compactOnto (out ++ quote key ++ ":") value ++ ",") rest

end

/-- The document without white space. -/
def compact (document : Json) : String :=
  compactOnto "" document

/-! ## The indented form -/

/-- A new line, indented to a level. -/
def newline (level : Nat) : String :=
  String.ofList ('\n' :: List.replicate (2 * level) ' ')

mutual

/-- Appends the indented form of a document that starts at a level. -/
def prettyOnto (level : Nat) (out : String) : Json → String
  | .null => out ++ "null"
  | .natural n => out ++ toString n
  | .number n => out ++ numberText n
  | .string s => out ++ quote s
  | .array [] => out ++ "[]"
  | .array (item :: rest) =>
    let first := prettyOnto (level + 1) (out ++ "[" ++ newline (level + 1)) item
    prettyItemsOnto (level + 1) first rest ++ newline level ++ "]"
  | .object [] => out ++ "\x7b\x7d"
  | .object ((key, value) :: rest) =>
    let opening := out ++ "\x7b" ++ newline (level + 1) ++ quote key ++ ": "
    prettyFieldsOnto (level + 1) (prettyOnto (level + 1) opening value) rest
      ++ newline level ++ "\x7d"

/-- Appends the items that follow the first one of an array. -/
def prettyItemsOnto (level : Nat) (out : String) : List Json → String
  | [] => out
  | item :: rest => prettyItemsOnto level (prettyOnto level (out ++ "," ++ newline level) item) rest

/-- Appends the fields that follow the first one of an object. -/
def prettyFieldsOnto (level : Nat) (out : String) : List (String × Json) → String
  | [] => out
  | (key, value) :: rest =>
    prettyFieldsOnto level
      (prettyOnto level (out ++ "," ++ newline level ++ quote key ++ ": ") value) rest

end

/-- The document with one item a line. -/
def pretty (document : Json) : String :=
  prettyOnto 0 "" document

end Json

end Quill
