import RuleBase.Json.Basic

/-!
# Writing JSON

Texts of JSON values: on one line without blanks, or with one member or item a line, indented by
two spaces. In strings only what JSON does not allow there is escaped.

* `Json.render`, `Json.compress`: the text on one line, as characters and as a string;
* `Json.renderPretty`, `Json.pretty`: the indented text.
-/

namespace RuleBase.Json

/-- A digit of the escape sequence of a control character. -/
def hexDigit (n : Nat) : Char := Nat.digitChar n

/-- A character inside a string, escaped if it has to be. -/
def renderChar (c : Char) : List Char :=
  if c = '"' then ['\\', '"']
  else if c = '\\' then ['\\', '\\']
  else if c = '\n' then ['\\', 'n']
  else if c = '\r' then ['\\', 'r']
  else if c = '\t' then ['\\', 't']
  else if c.toNat = 8 then ['\\', 'b']
  else if c.toNat = 12 then ['\\', 'f']
  else if c.toNat < 32 then ['\\', 'u', '0', '0', hexDigit (c.toNat / 16), hexDigit (c.toNat % 16)]
  else [c]

/-- A string in its quotes. -/
def renderString (s : String) : List Char := '"' :: (s.toList.flatMap renderChar ++ ['"'])

/-- The text of a value that holds no others. -/
def renderScalar : Json → List Char
  | .bool true => "true".toList
  | .bool false => "false".toList
  | .int n => (toString n).toList
  | .real numeral => numeral.toList
  | .string s => renderString s
  | _ => "null".toList

mutual
/-- The text of a value on one line. -/
def render : Json → List Char
  | .array items => '[' :: (renderItems items ++ [']'])
  | .object members => '{' :: (renderMembers members ++ ['}'])
  | scalar => renderScalar scalar

/-- The items of an array, joined by commas. -/
def renderItems : List Json → List Char
  | [] => []
  | [item] => item.render
  | item :: rest => item.render ++ ',' :: renderItems rest

/-- The members of an object, joined by commas. -/
def renderMembers : List (String × Json) → List Char
  | [] => []
  | [(name, value)] => renderString name ++ ':' :: value.render
  | (name, value) :: rest => renderString name ++ ':' :: (value.render ++ ',' :: renderMembers rest)
end

/-- The text of a value on one line. -/
def compress (j : Json) : String := String.ofList j.render

/-- The start of a line at some depth. -/
def newLine (depth : Nat) : List Char := '\n' :: List.replicate (2 * depth) ' '

mutual
/-- The indented text of a value that stands at some depth. -/
def renderPretty (depth : Nat) : Json → List Char
  | .array [] => ['[', ']']
  | .array items => '[' :: (prettyItems (depth + 1) items ++ newLine depth ++ [']'])
  | .object [] => ['{', '}']
  | .object members => '{' :: (prettyMembers (depth + 1) members ++ newLine depth ++ ['}'])
  | scalar => renderScalar scalar

/-- The items of an array, one a line. -/
def prettyItems (depth : Nat) : List Json → List Char
  | [] => []
  | [item] => newLine depth ++ item.renderPretty depth
  | item :: rest => newLine depth ++ (item.renderPretty depth ++ ',' :: prettyItems depth rest)

/-- The members of an object, one a line. -/
def prettyMembers (depth : Nat) : List (String × Json) → List Char
  | [] => []
  | [(name, value)] =>
    newLine depth ++ (renderString name ++ ':' :: ' ' :: value.renderPretty depth)
  | (name, value) :: rest =>
    newLine depth ++ (renderString name ++ ':' :: ' ' ::
      (value.renderPretty depth ++ ',' :: prettyMembers depth rest))
end

/-- The indented text of a value. -/
def pretty (j : Json) : String := String.ofList (j.renderPretty 0)

end RuleBase.Json
