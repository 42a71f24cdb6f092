/-
  ExprMachine.Text.Quoted

  Two ways to show a text unambiguously. The quoted form stands between double
  quotes and keeps every character that shows as itself; the plain ASCII form of
  one character keeps visible ASCII only. Both write any other character as a
  named escape or as its code point in braces.
-/
import ExprMachine.Text.Extending
import ExprMachine.Text.Numerals
import ExprMachine.Text.Unprintable

namespace ExprMachine.Text

/-- The code point of `c` in braces, in base sixteen. -/
def codePointEscape (c : Char) : String :=
  "\\u\x7b" ++ hexadecimal c.toNat ++ "\x7d"

/-! ## Quoted texts -/

/-- A character inside double quotes. A mark that joins the character before it
    is written as its code point, so that it cannot join the wrong one. -/
def quotedChar (c : Char) : String :=
  if c = '\x00' then "\\0"
  else if c = '\t' then "\\t"
  else if c = '\r' then "\\r"
  else if c = '\n' then "\\n"
  else if c = '\\' then "\\\\"
  else if c = '"' then "\\\""
  else if isExtending c || isUnprintable c then codePointEscape c
  else c.toString

/-- A text between double quotes. -/
def quoted (text : String) : String :=
  "\"" ++ text.foldl (fun shown c => shown ++ quotedChar c) "" ++ "\""

/-! ## Single characters -/

/-- A character in visible ASCII. -/
def asciiEscape (c : Char) : String :=
  if c = '\t' then "\\t"
  else if c = '\r' then "\\r"
  else if c = '\n' then "\\n"
  else if c = '\'' then "\\'"
  else if c = '"' then "\\\""
  else if c = '\\' then "\\\\"
  else if ' ' ≤ c ∧ c ≤ '~' then c.toString
  else codePointEscape c

end ExprMachine.Text
