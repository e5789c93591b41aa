/-!
# Line ends

A file may end its lines with a line feed, with a carriage return, or with
both. A program sees line feeds only.
-/

namespace Blockscript.Text

/-- A text with every line end written as a line feed: a carriage return stands
    for one, together with the line feed that may follow it. -/
def unifyNewlines : List Char → List Char
  | '\r' :: '\n' :: rest => '\n' :: unifyNewlines rest
  | '\r' :: rest => '\n' :: unifyNewlines rest
  | c :: rest => c :: unifyNewlines rest
  | [] => []

end Blockscript.Text
