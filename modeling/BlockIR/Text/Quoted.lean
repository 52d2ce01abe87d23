import BlockIR.Text.Hidden
/-!
# Quoted text

A quoted text stands between double quotes. A double quote and a backslash
get a backslash, four controls are written by name, and every other hidden
character is written by its code point in hexadecimal. Which characters are
hidden is a choice that listings can make; the usual one is `isHidden`.
-/

namespace BlockIR

namespace Text

/-- A code point in hexadecimal, between braces. -/
def codePoint (c : Char) : List Char :=
  "\\u\x7b".toList ++ Nat.toDigits 16 c.toNat ++ "\x7d".toList

/-- How one character is written inside a quoted text. -/
def escape (hidden : Char → Bool) (c : Char) : List Char :=
  if c = '"' then "\\\"".toList
  else if c = '\\' then "\\\\".toList
  else if c = Char.ofNat 0 then "\\0".toList
  else if c = '\t' then "\\t".toList
  else if c = '\n' then "\\n".toList
  else if c = '\r' then "\\r".toList
  else if hidden c then codePoint c
  else [c]

/-- The text between double quotes, escaped. -/
def quoteBy (hidden : Char → Bool) (s : String) : String :=
  "\"" ++ String.ofList (s.toList.flatMap (escape hidden)) ++ "\""

/-- The quoted text, with the usual choice of hidden characters. -/
def quote (s : String) : String := quoteBy isHidden s

end Text

end BlockIR
