import ClassReference.Text.Quoted

/-!
# Structured data

Configuration, manifests and template descriptions are structured data of no fixed shape, and so is
the dumped model. Whoever reads such data takes from it what has the right shape. Of a number that
is not a whole one only its text is used, and whether it is zero.
-/

namespace ClassReference

/-- A piece of structured data. -/
inductive Value where
  /-- Nothing. -/
  | null
  /-- A truth value. -/
  | bool (b : Bool)
  /-- A whole number. -/
  | int (n : Int)
  /-- Any other number, by the text that is shown for it. -/
  | real (text : String) (zero : Bool)
  /-- A text. -/
  | str (s : String)
  /-- A list. -/
  | list (items : List Value)
  /-- A mapping from keys to values, each key at most once. -/
  | map (entries : List (String × Value))
deriving Repr, BEq, Inhabited

namespace Value

/-- Whether a value counts as given. Nothing, false, zero and whatever is empty do not. -/
def truthy : Value → Bool
  | null => false
  | bool b => b
  | int n => n != 0
  | real _ zero => !zero
  | str s => s != ""
  | list items => !items.isEmpty
  | map entries => !entries.isEmpty

/-- Whether a value is missing or an empty text. -/
def isMissing : Value → Bool
  | null => true
  | str s => s == ""
  | _ => false

/-- The value of a key in a list of entries. -/
def lookup (key : String) (entries : List (String × Value)) : Option Value :=
  (entries.find? (·.1 == key)).map (·.2)

/-- A text, if the value is one. -/
def text? : Value → Option String
  | str s => some s
  | _ => none

/-- A text, or nothing where there is none. -/
def ofOption : Option String → Value
  | some s => str s
  | none => null

mutual

/-- A value as it is shown inside another. -/
def inner : Value → String
  | null => "None"
  | bool true => "True"
  | bool false => "False"
  | int n => toString n
  | real text _ => text
  | str s => Text.quoted s
  | list items => "[" ++ innerItems items ++ "]"
  | map entries => "\x7b" ++ innerEntries entries ++ "\x7d"

/-- The values of a list as they are shown. -/
def innerItems : List Value → String
  | [] => ""
  | [v] => inner v
  | v :: vs => inner v ++ ", " ++ innerItems vs

/-- The entries of a mapping as they are shown. -/
def innerEntries : List (String × Value) → String
  | [] => ""
  | [(k, v)] => Text.quoted k ++ ": " ++ inner v
  | (k, v) :: es => Text.quoted k ++ ": " ++ inner v ++ ", " ++ innerEntries es

end

/-- A value as text. A text stands for itself. -/
def text : Value → String
  | str s => s
  | v => v.inner

end Value

end ClassReference
