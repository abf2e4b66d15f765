/-!
Patterns for `LIKE`. The characters with a meaning of their own are escaped by a backslash, so a
pattern stands for the text itself at the start, at the end or anywhere.
-/

namespace EntityStore.Sql

inductive PatternKind
  | contains
  | startsWith
  | endsWith
  deriving DecidableEq, Repr

/-- The characters of a text, with a backslash before `\`, `%` and `_`. -/
def escapeLikeChars : List Char → List Char
  | [] => []
  | c :: rest =>
    if c = '\\' ∨ c = '%' ∨ c = '_' then '\\' :: c :: escapeLikeChars rest
    else c :: escapeLikeChars rest

def escapeLike (text : String) : String :=
  String.ofList (escapeLikeChars text.toList)

/-- The pattern that finds a text. -/
def PatternKind.wrap (kind : PatternKind) (text : String) : String :=
  match kind with
  | .contains => "%" ++ escapeLike text ++ "%"
  | .startsWith => escapeLike text ++ "%"
  | .endsWith => "%" ++ escapeLike text

end EntityStore.Sql
