import KerberosHttp.Text.Ascii
import KerberosHttp.Text.Blank

/-!
# Quoted text

The form in which diagnostics show a text: between double quotes, with a
backslash before quotes and backslashes, short escapes for the common control
characters, and a numbered escape for every other character that would not
show.
-/

namespace KerberosHttp.Text

/-- Whether a character above ASCII is shown as itself: it is no control or
format character, no blank, no combining mark of the basic block, and not in an
area for private use.

This goes by blocks and not by the whole tables of Unicode, which hide more: a
character that is not assigned, such as U+0378, and a combining mark outside the
basic block, such as U+0483 or U+0591, is shown as itself here. -/
def isShown (c : Char) : Bool :=
  let n := c.toNat
  !(n < 0xA0 || isBlank c || n == 0xAD || (0x300 ≤ n && n ≤ 0x36F)
    || (0x600 ≤ n && n ≤ 0x605) || n == 0x61C || n == 0x6DD || n == 0x70F || n == 0x180E
    || (0x200B ≤ n && n ≤ 0x200F) || (0x202A ≤ n && n ≤ 0x202E)
    || (0x2060 ≤ n && n ≤ 0x206F) || (0xE000 ≤ n && n ≤ 0xF8FF)
    || (0xFE00 ≤ n && n ≤ 0xFE0F) || n == 0xFEFF || (0xFFF0 ≤ n && n ≤ 0xFFFB)
    || n == 0xFFFE || n == 0xFFFF || 0xE0000 ≤ n)

/-- One character of a quoted text. -/
def quoteChar (c : Char) : String :=
  if c = '"' then "\\\""
  else if c = '\\' then "\\\\"
  else if c = '\t' then "\\t"
  else if c = '\r' then "\\r"
  else if c = '\n' then "\\n"
  else if c.toNat = 0 then "\\0"
  else if (32 ≤ c.toNat ∧ c.toNat < 127) ∨ isShown c then c.toString
  else
    let digits := Ascii.hex c.toNat
    s!"\\u\x7b{digits}\x7d"

/-- A text between quotes, with escapes for what would not show. -/
def quote (text : String) : String :=
  "\"" ++ String.join (text.toList.map quoteChar) ++ "\""

/-- An optional text as diagnostics show it. -/
def quoteOption : Option String → String
  | none => "None"
  | some text => s!"Some({text})"

end KerberosHttp.Text
