import GameScript.Text.Printable

/-!
# Strings in quotes

Two ways to write a string between double quotes. `quote` is for people: what would not be seen is written as an
escape with its code point. `Json.quote` is for tools: only what the JSON format demands is escaped.
-/

namespace GameScript.Text

/-- The digits of a number in base sixteen, lower case. -/
def hexDigits (n : Nat) : String := String.ofList (Nat.toDigits 16 n)

/-- A character inside quotes, for people. -/
def quoteChar (c : Char) : String :=
  if c = '\x00' then "\\0"
  else if c = '\t' then "\\t"
  else if c = '\r' then "\\r"
  else if c = '\n' then "\\n"
  else if c = '\\' then "\\\\"
  else if c = '"' then "\\\""
  else if 0x20 ≤ c.toNat ∧ c.toNat < 0x7F then c.toString
  else if isGraphemeExtend c || isShapeless c then "\\u\x7b" ++ hexDigits c.toNat ++ "\x7d"
  else c.toString

/-- A string in quotes, for people. -/
def quote (s : String) : String := "\"" ++ String.join (s.toList.map quoteChar) ++ "\""

/-- A list of strings in quotes, between square brackets. -/
def quoteList (ss : List String) : String := "[" ++ ", ".intercalate (ss.map quote) ++ "]"

namespace Json

/-- A character inside a JSON string. -/
def quoteChar (c : Char) : String :=
  if c = '"' then "\\\""
  else if c = '\\' then "\\\\"
  else if c = '\x08' then "\\b"
  else if c = '\x0c' then "\\f"
  else if c = '\n' then "\\n"
  else if c = '\r' then "\\r"
  else if c = '\t' then "\\t"
  else if c.toNat < 0x20 then
    let digits := hexDigits c.toNat
    "\\u" ++ String.ofList (List.replicate (4 - digits.length) '0') ++ digits
  else c.toString

/-- A JSON string. -/
def quote (s : String) : String := "\"" ++ String.join (s.toList.map quoteChar) ++ "\""

end Json

end GameScript.Text
