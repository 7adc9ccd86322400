/-! Texts by their code points, with surrogates that may stand alone. -/
namespace Crontab.Text

def points (s : String) : List Nat :=
  s.toList.map Char.toNat

def isSurrogate (n : Nat) : Bool :=
  0xD800 ≤ n && n ≤ 0xDFFF

/-- The surrogates U+DC80 to U+DCFF stand for octets, all others have no encoding. -/
def isUnencodable (n : Nat) : Bool :=
  isSurrogate n && !(0xDC80 ≤ n && n ≤ 0xDCFF)

/-- The place of the first code point without an encoding, and the surrogates from there on. -/
def unencodable? (ns : List Nat) : Option (Nat × List Nat) :=
  (ns.findIdx? isUnencodable).map fun i => (i, (ns.drop i).takeWhile isSurrogate)

end Crontab.Text
