import LinkParse.Text.Unseen

/-!
# Quoted texts

The form in which a text stands between quotation marks where a value is
shown with its structure: marks, backslashes and characters that cannot be
seen are escaped, so different texts have different forms.
-/

namespace LinkParse

namespace Text

/-- How one character is written between the marks. -/
def escape (c : Char) : List Char :=
  if c = '"' then ['\\', '"']
  else if c = '\\' then ['\\', '\\']
  else if c = '\n' then ['\\', 'n']
  else if c = '\t' then ['\\', 't']
  else if c = '\r' then ['\\', 'r']
  else if c = '\x00' then ['\\', '0']
  else if isUnseen c then ['\\', 'u', '\x7b'] ++ Nat.toDigits 16 c.toNat ++ ['\x7d']
  else [c]

def quoted (s : String) : String := String.ofList ('"' :: s.toList.flatMap escape ++ ['"'])

end Text

end LinkParse
