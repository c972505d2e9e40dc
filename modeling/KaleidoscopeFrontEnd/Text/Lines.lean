namespace KaleidoscopeFrontEnd

-- A carriage return ends a line by itself and together with the line feed behind it.
def unifyLineEnds : List Char → List Char
  | [] => []
  | '\r' :: '\n' :: later => '\n' :: unifyLineEnds later
  | c :: later => (if c = '\r' then '\n' else c) :: unifyLineEnds later

end KaleidoscopeFrontEnd
