import RenderGraph.Text.CombiningMark
import RenderGraph.Text.Unprintable

/-! Names inside messages are quoted: double quotes around the text, a backslash before a quote or
a backslash, short escapes for four controls, and the code point in hexadecimal for every other
character that has no glyph of its own or attaches to the character before it. -/

namespace RenderGraph.Text

def codePointEscape (c : Char) : List Char :=
  ['\\', 'u', '\x7b'] ++ Nat.toDigits 16 c.toNat ++ ['\x7d']

def isPlain (c : Char) : Bool :=
  if c.toNat < 0x7f then 0x20 ≤ c.toNat else !isCombiningMark c && !isUnprintable c

def quotedChar (c : Char) : List Char :=
  if c = '\x00' then ['\\', '0']
  else if c = '\t' then ['\\', 't']
  else if c = '\r' then ['\\', 'r']
  else if c = '\n' then ['\\', 'n']
  else if c = '"' || c = '\\' then ['\\', c]
  else if isPlain c then [c]
  else codePointEscape c

def quote (s : String) : String :=
  String.ofList (['"'] ++ s.toList.flatMap quotedChar ++ ['"'])

end RenderGraph.Text
