/-!
# Consequences

The consequence of a rule is free text. Two consequences are compared in a reduced form: comments,
which run from `//` to the end of their line, are dropped, and then every line break, tab and
space. The form is lossy, since a `//` inside a quoted text starts a comment too.

* `Consequence.withoutComments`, `Consequence.normalize`.
-/

namespace RuleBase.Consequence

/-- The characters that carry no meaning in a consequence. -/
def isLayout (c : Char) : Bool := c == '\n' || c == '\r' || c == '\t' || c == ' '

/-- A text without its comments; the flag says that the text starts inside one. -/
def withoutComments : Bool → List Char → List Char
  | _, [] => []
  | true, c :: rest =>
    if c = '\n' then c :: withoutComments false rest else withoutComments true rest
  | false, '/' :: '/' :: rest => withoutComments true rest
  | false, c :: rest => c :: withoutComments false rest

/-- The characters of a consequence that are compared. -/
def normalizeChars (text : List Char) : List Char :=
  (withoutComments false text).filter fun c => !isLayout c

/-- The reduced form of a consequence. -/
def normalize (text : String) : String := String.ofList (normalizeChars text.toList)

end RuleBase.Consequence
