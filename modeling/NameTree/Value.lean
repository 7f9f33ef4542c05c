/-!
Arguments whose type is checked only when an operation runs: numbers that may turn out to be
something else, and collections of tags.
-/

namespace NameTree

/-- A value given where a number or a tag is expected. What is not a number or a text is told apart
only by its type, which is all that a refusal mentions. -/
inductive Value where
  | null
  | flag
  | int (number : Int)
  | float
  | text (content : String)
  | list
  | object
  deriving DecidableEq

def Value.typeName : Value → String
  | .null => "NoneType"
  | .flag => "bool"
  | .int _ => "int"
  | .float => "float"
  | .text _ => "str"
  | .list => "list"
  | .object => "dict"

/-- Tags as given: a collection, or one bare text, which is always refused. -/
inductive Tags where
  | bare (content : String)
  | items (values : List Value)
  deriving DecidableEq

end NameTree
