import ScriptMachine.Text.Blank
import ScriptMachine.Text.Fold
/-! Static types: what is known, when a script is compiled, of a value on the
evaluation stack or in a local. The set is closed; what cannot be pinned down
is an object. -/
namespace ScriptMachine

inductive StaticType where
  | void
  | string
  | decimal
  | long
  | int
  | bool
  | object
  | array (element : StaticType)
  deriving DecidableEq, Repr

namespace StaticType

def isValueType : StaticType → Bool
  | decimal | long | int | bool => true
  | _ => false

def isArray : StaticType → Bool
  | array _ => true
  | _ => false

def isVoid : StaticType → Bool
  | void => true
  | _ => false

def element? : StaticType → Option StaticType
  | array element => some element
  | _ => none

def name : StaticType → String
  | void => "void"
  | string => "string"
  | decimal => "decimal"
  | long => "long"
  | int => "int"
  | bool => "bool"
  | object => "object"
  | array element => element.name ++ "[]"

def ofWord? : String → Option StaticType
  | "string" => some string
  | "decimal" => some decimal
  | "long" | "int64" => some long
  | "int" | "int32" => some int
  | "bool" | "boolean" => some bool
  | "object" => some object
  | _ => none

def qualifier : List Char := "system.".toList

/-- Blanks around a name and the case of its letters do not count, and one
qualifier may stand in front of it. -/
def ofName? (written : String) : Option StaticType :=
  let word := (Text.fold (Text.trimmed written)).toList
  ofWord? (String.ofList
    (if qualifier.isPrefixOf word then word.drop qualifier.length else word))

end StaticType
end ScriptMachine
