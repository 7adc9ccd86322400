/-! Line ends: a line feed, a carriage return, or both of them. -/
namespace Crontab.Text

/-- Every line ends with a line feed, whichever of the three line ends it had. -/
def foldLineEnds : List Char → List Char
  | [] => []
  | '\r' :: '\n' :: rest => '\n' :: foldLineEnds rest
  | '\r' :: rest => '\n' :: foldLineEnds rest
  | c :: rest => c :: foldLineEnds rest

end Crontab.Text
