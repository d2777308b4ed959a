import GraphQuery.Datum

/-! Why a value is not a graph in surface notation: the cause, its wording, and the part of the
input that it lies in. -/
namespace GraphQuery.Surface

inductive Malformed where
  /-- The last element of `node` is a tag. -/
  | tagWithoutValue (tag : MetaTag) (node : Datum)
  | noIdentifier (node : Datum)
  | identifier (value : Datum)
  | operationName (value : Datum)
  | parameterList (value : Datum)
  | entry (value : Datum)
  | collection (value : Datum)
  | key (value : Datum)
  | duplicateKey (key : String) (collection : Datum)
  | argumentValue (value : Datum)
  | notFinite (n : Number)
  | parameterShape (value : Datum)
  | parameterNames (value : Datum)
  deriving Repr

def Malformed.message : Malformed → String
  | .tagWithoutValue t _ => "Metadata tag " ++ (Mark.tag t).text ++ " has no value"
  | .noIdentifier _ => "Graph node has no object identifier"
  | .identifier d => "Unencodable object identifier: " ++ d.describe
  | .operationName d => "Operation name must be a string, got " ++ d.describe
  | .parameterList _ => "Operation parameters must be an array of parameter specs"
  | .entry d => "Input entries must be [key, value] pairs, got " ++ d.describe
  | .collection d => "Expected input fields, got " ++ d.describe
  | .key d => "Input key must be a string, got " ++ d.describe
  | .duplicateKey k _ => "Duplicate input key: " ++ k
  | .argumentValue d => "Unencodable argument value: " ++ d.describe
  | .notFinite n => "Cannot encode non-finite number " ++ n.text
  | .parameterShape d => "Unreadable parameter spec: " ++ d.describe
  | .parameterNames _ => "Parameter name and type must be strings"

/-- The offending part of the input. -/
def Malformed.value : Malformed → Datum
  | .tagWithoutValue _ d | .noIdentifier d | .identifier d | .operationName d | .parameterList d
  | .entry d | .collection d | .key d | .duplicateKey _ d | .argumentValue d
  | .parameterShape d | .parameterNames d => d
  | .notFinite n => .number n

end GraphQuery.Surface
