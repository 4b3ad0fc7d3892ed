/-!
# Lines

A line ends at a line feed, a carriage return, both together, or one of the other characters that
start a new line. The end of the text closes a last line that has characters.
-/

namespace PassTrace.Text

/-- The characters that end a line. -/
def isLineEnd (c : Char) : Bool :=
  let n := c.toNat
  (0x0a ≤ n && n ≤ 0x0d) || (0x1c ≤ n && n ≤ 0x1e) || n == 0x85 || n == 0x2028 || n == 0x2029

/-- The lines of a text, where `line` holds the characters of the line under way, last first. A
carriage return with a line feed behind it is one line end. -/
def linesFrom (line : List Char) : List Char → List (List Char)
  | [] => if line.isEmpty then [] else [line.reverse]
  | '\r' :: '\n' :: rest => line.reverse :: linesFrom [] rest
  | c :: rest =>
    if isLineEnd c then line.reverse :: linesFrom [] rest else linesFrom (c :: line) rest

/-- The lines of a text, without the characters that end them. -/
def lines (text : String) : List String :=
  (linesFrom [] text.toList).map String.ofList

/-- The text with each carriage return, and each carriage return before a line feed, replaced by
one line feed. -/
def unifyLineFeeds : List Char → List Char
  | [] => []
  | '\r' :: '\n' :: rest => '\n' :: unifyLineFeeds rest
  | c :: rest => (if c = '\r' then '\n' else c) :: unifyLineFeeds rest

end PassTrace.Text
