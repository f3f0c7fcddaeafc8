import FurthestMatch.Text.Cursor
import FurthestMatch.Text.Hidden

/-!
# Quoted text

Two written forms of a text between double quotes. Both escape the quote and the backslash; the document form
also escapes the controls below the space, the inspection form every hidden character.
-/

namespace FurthestMatch.Quoted

def hex (n : Nat) : List Char :=
  Nat.toDigits 16 n

def escapeDocument (c : Char) : List Char :=
  if c = '"' then ['\\', '"']
  else if c = '\\' then ['\\', '\\']
  else if c = '\x08' then ['\\', 'b']
  else if c = '\x0c' then ['\\', 'f']
  else if c = '\n' then ['\\', 'n']
  else if c = '\r' then ['\\', 'r']
  else if c = '\t' then ['\\', 't']
  else if c.toNat < 0x10 then ['\\', 'u', '0', '0', '0'] ++ hex c.toNat
  else if c.toNat < 0x20 then ['\\', 'u', '0', '0'] ++ hex c.toNat
  else [c]

/-- A character in the inspection form, where what cannot be seen is named by its code point. -/
def escapeInspect (c : Char) : List Char :=
  if c = '"' then ['\\', '"']
  else if c = '\\' then ['\\', '\\']
  else if c = '\n' then ['\\', 'n']
  else if c = '\r' then ['\\', 'r']
  else if c = '\t' then ['\\', 't']
  else if c = '\x00' then ['\\', '0']
  else if isHidden c then ['\\', 'u', '\x7b'] ++ hex c.toNat ++ ['\x7d']
  else [c]

def documentBody (text : Text) : Text :=
  text.flatMap escapeDocument

def document (text : Text) : Text :=
  '"' :: documentBody text ++ ['"']

def inspect (text : Text) : Text :=
  '"' :: text.flatMap escapeInspect ++ ['"']

end FurthestMatch.Quoted
