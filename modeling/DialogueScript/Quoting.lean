import DialogueScript.CharTable

namespace DialogueScript

def escapeChar (c : Char) : List Char :=
  if c = '\\' then ['\\', '\\']
  else if c = '"' then ['\\', '"']
  else if c = '\n' then ['\\', 'n']
  else if c = '\t' then ['\\', 't']
  else if c = '\r' then ['\\', 'r']
  else [c]

def escapeChars (text : List Char) : List Char := text.flatMap escapeChar

def escape (text : String) : String := String.ofList (escapeChars text.toList)

/-- The string literal for `text`, in its quotes. -/
def stringLiteral (text : String) : String := "\"" ++ escape text ++ "\""

/-- How a quotation between two `delimiter`s shows one character. -/
def quoteChar (delimiter c : Char) : List Char :=
  if c = '\x00' then ['\\', '0']
  else if c = '\t' then ['\\', 't']
  else if c = '\r' then ['\\', 'r']
  else if c = '\n' then ['\\', 'n']
  else if c = delimiter ∨ c = '\\' then ['\\', c]
  else if CharTable.isExtender c || !CharTable.isPrintable c then
    "\\u\x7b".toList ++ Nat.toDigits 16 c.toNat ++ "\x7d".toList
  else [c]

def quote (delimiter : Char) (text : List Char) : String :=
  String.ofList (delimiter :: text.flatMap (quoteChar delimiter) ++ [delimiter])

def quotedString (text : String) : String := quote '"' text.toList

def quotedChar (c : Char) : String := quote '\'' [c]

end DialogueScript
