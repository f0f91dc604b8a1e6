namespace DialogueScript

inductive JsonValue where
  | null
  | bool (value : Bool)
  | number (value : Nat)
  | text (value : String)
  | array (items : List JsonValue)
  | object (fields : List (String × JsonValue))

namespace JsonValue

def escapeChar (c : Char) : List Char :=
  if c = '"' then ['\\', '"']
  else if c = '\\' then ['\\', '\\']
  else if c = '\x08' then ['\\', 'b']
  else if c = '\x0c' then ['\\', 'f']
  else if c = '\n' then ['\\', 'n']
  else if c = '\r' then ['\\', 'r']
  else if c = '\t' then ['\\', 't']
  else if c < ' ' then
    ['\\', 'u', '0', '0', Nat.digitChar (c.toNat / 16), Nat.digitChar (c.toNat % 16)]
  else [c]

def quote (text : String) : String := "\"" ++ String.ofList (text.toList.flatMap escapeChar) ++ "\""

def ofOption {α : Type} (write : α → JsonValue) : Option α → JsonValue
  | some a => write a
  | none => null

/-- A field that is left out if there is no value for it. -/
def optionalField {α : Type} (key : String) (write : α → JsonValue) (value : Option α) :
    List (String × JsonValue) :=
  (value.map fun a => (key, write a)).toList

mutual

def compact : JsonValue → String
  | null => "null"
  | bool value => if value then "true" else "false"
  | number value => toString value
  | text value => quote value
  | array items => "[" ++ compactItems items ++ "]"
  | object fields => "\x7b" ++ compactFields fields ++ "\x7d"

def compactItems : List JsonValue → String
  | [] => ""
  | [item] => item.compact
  | item :: rest => item.compact ++ "," ++ compactItems rest

def compactFields : List (String × JsonValue) → String
  | [] => ""
  | [(key, value)] => quote key ++ ":" ++ value.compact
  | (key, value) :: rest => quote key ++ ":" ++ value.compact ++ "," ++ compactFields rest

end

def newline (depth : Nat) : String := "\n" ++ String.ofList (List.replicate (2 * depth) ' ')

mutual

def prettyAt (depth : Nat) : JsonValue → String
  | null => "null"
  | bool value => if value then "true" else "false"
  | number value => toString value
  | text value => quote value
  | array items =>
    if items.isEmpty then "[]"
    else "[" ++ prettyItems (depth + 1) items ++ newline depth ++ "]"
  | object fields =>
    if fields.isEmpty then "\x7b\x7d"
    else "\x7b" ++ prettyFields (depth + 1) fields ++ newline depth ++ "\x7d"

def prettyItems (depth : Nat) : List JsonValue → String
  | [] => ""
  | [item] => newline depth ++ item.prettyAt depth
  | item :: rest => newline depth ++ item.prettyAt depth ++ "," ++ prettyItems depth rest

def prettyFields (depth : Nat) : List (String × JsonValue) → String
  | [] => ""
  | [(key, value)] => newline depth ++ quote key ++ ": " ++ value.prettyAt depth
  | (key, value) :: rest =>
    newline depth ++ quote key ++ ": " ++ value.prettyAt depth ++ "," ++ prettyFields depth rest

end

def pretty (value : JsonValue) : String := value.prettyAt 0

end JsonValue

end DialogueScript
