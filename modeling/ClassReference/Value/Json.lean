import ClassReference.Json
import ClassReference.Value

/-!
# Structured data as JSON

A text is given to JSON as the code points that it stands for. It stands for its own characters,
unless another spelling is given: a spelling may have surrogates, which no character is.
-/

namespace ClassReference.Value

mutual

/-- The value as JSON data, with the code points that each of its texts stands for. Keys stand for
themselves. -/
def json (spell : String → List CodePoint) : Value → Json
  | null => .null
  | bool b => .bool b
  | int n => .int n
  | real text _ => .real text
  | str s => .str (spell s)
  | list items => .list (jsonItems spell items)
  | map entries => .map (jsonEntries spell entries)

/-- The values of a list as JSON data. -/
def jsonItems (spell : String → List CodePoint) : List Value → List Json
  | [] => []
  | v :: vs => json spell v :: jsonItems spell vs

/-- The entries of a mapping as JSON data. -/
def jsonEntries (spell : String → List CodePoint) :
    List (String × Value) → List (List CodePoint × Json)
  | [] => []
  | (k, v) :: es => (Text.codes k, json spell v) :: jsonEntries spell es

end

/-- The value written as JSON. -/
def toJson (v : Value) (spell : String → List CodePoint := Text.codes) : String :=
  (v.json spell).write

end ClassReference.Value
