import TraceAtlas.Text.Hidden

/-!
# Quoted texts

A quoted text stands between double quotes. Double quotes, backslashes and the common controls are
written with a backslash, and a character that does not show as its code point in hexadecimal,
`\u{301}`. Names and paths in descriptions and messages are quoted this way.
-/

namespace TraceAtlas.Quoted

/-- The lower-case hexadecimal digits of a number. -/
def hex (n : Nat) : List Char := Nat.toDigits 16 n

def escape (c : Char) : List Char :=
  if c = '\x00' then ['\\', '0']
  else if c = '\t' then ['\\', 't']
  else if c = '\r' then ['\\', 'r']
  else if c = '\n' then ['\\', 'n']
  else if c = '\\' then ['\\', '\\']
  else if c = '"' then ['\\', '"']
  else if Hidden.isHidden c then ['\\', 'u', '\x7b'] ++ hex c.toNat ++ ['\x7d']
  else [c]

/-- A text between quotes. -/
def text (s : String) : String :=
  String.ofList ('"' :: s.toList.flatMap escape ++ ['"'])

example : text "a\"b\n" = "\"a\\\"b\\n\"" := by decide
example : text "it's" = "\"it's\"" := by decide

end TraceAtlas.Quoted
