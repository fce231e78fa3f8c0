import ScriptMachine.Text.Digits
import ScriptMachine.Text.Hidden
/-! Quoted text: double quotes around the text, a backslash in front of quotes
and backslashes, short forms for the common control characters, and the code
point in hexadecimal for every other hidden character. A quoted text holds no
line break. -/
namespace ScriptMachine.Text

def escape (c : Char) : List Char :=
  if c = '\x00' then ['\\','0']
  else if c = '\t' then ['\\','t']
  else if c = '\r' then ['\\','r']
  else if c = '\n' then ['\\','n']
  else if c = '"' then ['\\','"']
  else if c = '\\' then ['\\','\\']
  else if isHidden c then '\\' :: 'u' :: '\x7b' :: hexText c.toNat ++ ['\x7d']
  else [c]

def quotedText (cs : List Char) : List Char :=
  '"' :: cs.flatMap escape ++ ['"']

def quote (s : String) : String :=
  String.ofList (quotedText s.toList)

end ScriptMachine.Text
