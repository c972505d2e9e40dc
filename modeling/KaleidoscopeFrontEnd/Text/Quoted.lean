import KaleidoscopeFrontEnd.Text.Printable

namespace KaleidoscopeFrontEnd

-- The single quote is preferred; the double quote stands in only where it saves an escape.
def quoteMark (text : List Char) : Char :=
  if text.contains '\'' && !text.contains '"' then '"' else '\''

def hexPlaces : Nat → Nat → List Char
  | 0, _ => []
  | places + 1, n => hexPlaces places (n / 16) ++ [Nat.digitChar (n % 16)]

def numericEscape (point : Nat) : List Char :=
  if point < 0x100 then '\\' :: 'x' :: hexPlaces 2 point
  else if point < 0x10000 then '\\' :: 'u' :: hexPlaces 4 point
  else '\\' :: 'U' :: hexPlaces 8 point

def quotedChar (mark c : Char) : List Char :=
  if c = mark ∨ c = '\\' then ['\\',c]
  else if c = '\n' then ['\\','n']
  else if c = '\r' then ['\\','r']
  else if c = '\t' then ['\\','t']
  else if isPrintable c then [c]
  else numericEscape c.toNat

def quoted (text : String) : String :=
  let mark := quoteMark text.toList
  String.ofList (mark :: text.toList.flatMap (quotedChar mark) ++ [mark])

end KaleidoscopeFrontEnd
