/-! The written form of records, lists and optional values on one line. -/

namespace RenderGraph.Text

def record (name : String) (fields : List (String × String)) : String :=
  name ++ " \x7b " ++ ", ".intercalate (fields.map fun field => field.1 ++ ": " ++ field.2) ++
    " \x7d"

def wrapped (name content : String) : String := name ++ "(" ++ content ++ ")"

def optional : Option String → String
  | none => "None"
  | some content => wrapped "Some" content

def listed (items : List String) : String := "[" ++ ", ".intercalate items ++ "]"

end RenderGraph.Text
