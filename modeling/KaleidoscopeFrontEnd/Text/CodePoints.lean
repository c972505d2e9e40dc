namespace KaleidoscopeFrontEnd

-- Ranges are increasing, both ends included; the search stops at the first one that starts beyond the point.
def within : List (Nat × Nat) → Nat → Bool
  | [], _ => false
  | (low, high) :: later, point =>
      if point < low then false else point ≤ high || within later point

end KaleidoscopeFrontEnd
