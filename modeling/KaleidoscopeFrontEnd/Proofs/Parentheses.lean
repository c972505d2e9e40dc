import KaleidoscopeFrontEnd.Proofs.Composition

namespace KaleidoscopeFrontEnd

-- The parentheses of a list of tokens that have no partner in it. All the closings stand in front of
-- all the openings.
structure Unpaired where
  closings : Nat
  openings : Nat
  deriving DecidableEq

def unpaired : List Token → Unpaired
  | [] => ⟨0,0⟩
  | t :: later =>
      let others := unpaired later
      if t.kind = .openParen then ⟨others.closings - 1,others.openings + (1 - others.closings)⟩
      else if t.kind = .closeParen then ⟨others.closings + 1,others.openings⟩
      else others

def Balanced (w : List Token) : Prop := unpaired w = ⟨0,0⟩

theorem unpaired_opening (opening : t.kind = .openParen) (later : List Token) : unpaired (t :: later) =
    ⟨(unpaired later).closings - 1,(unpaired later).openings + (1 - (unpaired later).closings)⟩ := if_pos opening

theorem unpaired_closing (closing : t.kind = .closeParen) (later : List Token) : unpaired (t :: later) =
    ⟨(unpaired later).closings + 1,(unpaired later).openings⟩ := by
  have other : t.kind ≠ .openParen := by simp [closing]
  exact (if_neg other).trans (if_pos closing)

theorem unpaired_other (opening : t.kind ≠ .openParen) (closing : t.kind ≠ .closeParen) (later : List Token) :
    unpaired (t :: later) = unpaired later := (if_neg opening).trans (if_neg closing)

theorem unpaired_append (w v : List Token) : unpaired (w ++ v) =
    ⟨(unpaired w).closings + ((unpaired v).closings - (unpaired w).openings),
      (unpaired v).openings + ((unpaired w).openings - (unpaired v).closings)⟩ := by
  induction w with
  | nil => simp [unpaired]
  | cons t w ih =>
      rw [List.cons_append]
      by_cases opening : t.kind = .openParen
      · rw [unpaired_opening opening,unpaired_opening opening,ih,Unpaired.mk.injEq]
        constructor <;> simp only <;> omega
      · by_cases closing : t.kind = .closeParen
        · rw [unpaired_closing closing,unpaired_closing closing,ih,Unpaired.mk.injEq]
          constructor <;> simp only
          omega
        · rw [unpaired_other opening closing,unpaired_other opening closing,ih]

theorem unpaired_openings (opens : ∀ t ∈ w, t.kind = .openParen) : unpaired w = ⟨0,w.length⟩ := by
  induction w with
  | nil => rfl
  | cons t w ih =>
      obtain ⟨opening,opens⟩ := List.forall_mem_cons.mp opens
      rw [unpaired_opening opening,ih opens]
      rfl

theorem unpaired_closings (closes : ∀ t ∈ w, t.kind = .closeParen) : unpaired w = ⟨w.length,0⟩ := by
  induction w with
  | nil => rfl
  | cons t w ih =>
      obtain ⟨closing,closes⟩ := List.forall_mem_cons.mp closes
      rw [unpaired_closing closing,ih closes]
      rfl

theorem Balanced.single (known : t.kind = k) (opening : k ≠ .openParen) (closing : k ≠ .closeParen) : Balanced [t] :=
  unpaired_other (known ▸ opening) (known ▸ closing) []

theorem Balanced.append (first : Balanced w) (second : Balanced v) : Balanced (w ++ v) := by
  rw [Balanced,unpaired_append,first,second]
  rfl

theorem Balanced.enclosed (opening : o.kind = .openParen) (inside : Balanced w) (closing : c.kind = .closeParen) :
    Balanced (o :: w ++ [c]) := by
  rw [Balanced,List.cons_append,unpaired_opening opening,unpaired_append,inside,unpaired_closing closing]
  rfl

theorem balanced_compositional : Derivation.Compositional (fun w _ => Balanced w) (fun w _ => Balanced w) where
  number t kind := .single kind (by decide) (by decide)
  reference t kind := .single kind (by decide) (by decide)
  binary left operator right _ := by
    have symbol : Balanced [_] := .single (Token.binary_operator_kind operator) (by decide) (by decide)
    exact left.append (symbol.append right)
  group o c opening closing inside := .enclosed opening inside closing
  call n o c named opening closing _ inside := by
    have name : Balanced [n] := .single named (by decide) (by decide)
    exact name.append (.enclosed opening inside closing)
  none := rfl
  single argument := argument
  add before t comma argument := by
    have separator : Balanced [t] := .single comma (by decide) (by decide)
    exact before.append (separator.append argument)

end KaleidoscopeFrontEnd
