/-!
The lines of a text.
-/
namespace DaoLedger.Text

def unlines (lines : List String) : String := String.join (lines.map (· ++ "\n"))

def withoutReturn : List Char → List Char
  | [] => []
  | ['\r'] => []
  | c :: cs => c :: withoutReturn cs

def linesFrom (begun : List Char) : List Char → List (List Char)
  | [] => if begun.isEmpty then [] else [begun.reverse]
  | '\n' :: cs => withoutReturn begun.reverse :: linesFrom [] cs
  | c :: cs => linesFrom (c :: begun) cs

/-- The lines of a text. The last one needs no end; a carriage return counts as part of an end. -/
def lines (s : String) : List String := (linesFrom [] s.toList).map String.ofList

def hanging (margin : String) (s : String) : String :=
  ("\n" ++ margin).intercalate (s.splitOn "\n")

end DaoLedger.Text
