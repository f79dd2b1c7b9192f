import LineRules.Unicode.Table

namespace LineRules.Unicode

/-- Code points with the property White_Space. -/
def whiteSpaceTable : Table :=
  [(9, 13), (32, 32), (133, 133), (160, 160), (5760, 5760), (8192, 8202), (8232, 8233),
   (8239, 8239), (8287, 8287), (12288, 12288)]

def isWhiteSpace (c : Char) : Bool :=
  whiteSpaceTable.covers c.toNat

end LineRules.Unicode
