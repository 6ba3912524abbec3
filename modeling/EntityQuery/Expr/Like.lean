import EntityQuery.Text.Regex

/-!
# Patterns

A pattern describes whole texts: `%` stands for any run of characters, `_` for any one character, a
backslash takes the next character literally, and letters match in either case. Patterns are matched
as regular expressions.

* `likeRegex` — the regular expression of a pattern, which is bound to both ends of a text.
* `like` — whether a text matches a pattern.
-/

namespace EntityQuery

/-- The regular expression of a pattern within a text. A backslash at its end stands for itself. -/
def likeBody : List Char → List Char
  | [] => []
  | ['\\'] => escape '\\'
  | '\\' :: c :: cs => escape c ++ likeBody cs
  | '%' :: cs => '.' :: '*' :: likeBody cs
  | '_' :: cs => '.' :: likeBody cs
  | c :: cs => escape c ++ likeBody cs

/-- The regular expression of a pattern. -/
def likeRegex (pattern : List Char) : List Char := '^' :: (likeBody pattern ++ ['$'])

/-- Whether a text matches a pattern. -/
def like (subject pattern : String) : Bool :=
  (readRegex? (likeRegex pattern.toList)).any (regexFound subject.toList)

end EntityQuery
