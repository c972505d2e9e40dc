import KaleidoscopeFrontEnd.Text.CodePoints

namespace KaleidoscopeFrontEnd

-- Bidirectional types B, S and WS and the space separators; not the zero-width space and the byte order mark.
def blankRanges : List (Nat × Nat) :=
  [(9, 13), (28, 32), (133, 133), (160, 160), (5760, 5760), (8192, 8202), (8232, 8233),
   (8239, 8239), (8287, 8287), (12288, 12288)]

def isBlank (c : Char) : Bool := within blankRanges c.toNat

end KaleidoscopeFrontEnd
