import LinkParse.Text.Quoted

/-!
# Values shown with their structure

A value is shown by the name of what it is and by its parts, which are shown
in the same way: a record with named parts in braces, a case with its one part
in parentheses, a list in brackets. Texts within are quoted.
-/

namespace LinkParse

namespace Text

def braced (name : String) (parts : List String) : String :=
  name ++ " \x7b " ++ ", ".intercalate parts ++ " \x7d"

/-- A part under the name that it has in its record. -/
def named (part : String × String) : String := part.1 ++ ": " ++ part.2

def record (name : String) (parts : List (String × String)) : String :=
  braced name (parts.map named)

/-- A record of which not all parts are shown. -/
def partialRecord (name : String) (parts : List (String × String)) : String :=
  braced name (parts.map named ++ [".."])

def wrapped (name part : String) : String := name ++ "(" ++ part ++ ")"

def listed (parts : List String) : String := "[" ++ ", ".intercalate parts ++ "]"

def optional : Option String → String
  | some part => wrapped "Some" part
  | none => "None"

end Text

end LinkParse
