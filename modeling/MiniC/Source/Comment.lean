/-!
# Removing comments

Outside strings, `//` starts a comment that runs to the end of its line, and `/*` starts one that
runs to the next `*/`. A string runs from a quote to the next quote. Comments are removed before
scanning in such a way that every lexeme stays on its line: the newline after a line comment is
kept, and a block comment leaves its newlines and one space. A comment or string that is never
closed runs to the end of the text.
-/

namespace MiniC.Source

mutual

/-- Outside strings and comments. -/
def stripCode : List Char → List Char
  | [] => []
  | '"' :: cs => '"' :: stripString cs
  | '/' :: '/' :: cs => stripLine cs
  | '/' :: '*' :: cs => stripBlock false cs
  | c :: cs => c :: stripCode cs

/-- Inside a string: everything is kept. -/
def stripString : List Char → List Char
  | [] => []
  | c :: cs => c :: if c = '"' then stripCode cs else stripString cs

/-- Inside a line comment: only the newline that ends it is kept. -/
def stripLine : List Char → List Char
  | [] => []
  | c :: cs => if c = '\n' then '\n' :: stripCode cs else stripLine cs

/-- Inside a block comment: only newlines are kept, and a space stands for the comment.
    `starred` tells whether the last character of the comment was a star; the star of the opening
    does not count. -/
def stripBlock (starred : Bool) : List Char → List Char
  | [] => [' ']
  | c :: cs =>
    if starred && c = '/' then ' ' :: stripCode cs
    else if c = '\n' then '\n' :: stripBlock false cs
    else stripBlock (c = '*') cs

end

/-- **The text without its comments.** -/
def stripComments (source : String) : String := String.ofList (stripCode source.toList)

end MiniC.Source
