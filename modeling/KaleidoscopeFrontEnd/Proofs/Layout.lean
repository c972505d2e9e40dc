import KaleidoscopeFrontEnd.Lexeme
import Mathlib.Data.List.TakeWhile

namespace KaleidoscopeFrontEnd

-- Between two lexemes stand blanks, and comments together with the line feed that ends each of them.
inductive Layout : List Char → Prop where
  | nil : Layout []
  | blank (c : Char) (blank : isBlank c = true) (later : Layout w) : Layout (c :: w)
  | comment (inner : '\n' ∉ body) (later : Layout w) : Layout ('#' :: body ++ '\n' :: w)

-- Behind the last lexeme a comment may also run to the end of the text.
inductive FinalLayout : List Char → Prop where
  | closed (layout : Layout w) : FinalLayout w
  | comment (before : Layout w) (inner : '\n' ∉ body) : FinalLayout (w ++ '#' :: body)

def Solid (c : Char) : Prop := isBlank c = false ∧ c ≠ '#'

theorem feed_blank : isBlank '\n' = true := by decide

theorem Solid.no_feed (solid : Solid c) : c ≠ '\n' := by
  rintro rfl
  exact absurd feed_blank (by rw [solid.1]; decide)

theorem Layout.append (first : Layout g) (second : Layout h) : Layout (g ++ h) := by
  induction first with
  | nil => exact second
  | blank c blank _ ih => exact .blank c blank ih
  | @comment body w inner _ ih =>
      have joined : Layout ('#' :: body ++ '\n' :: (w ++ h)) := .comment inner ih
      simpa only [List.append_assoc,List.cons_append] using joined

theorem Layout.final (first : Layout g) (last : FinalLayout h) : FinalLayout (g ++ h) := by
  cases last with
  | closed layout => exact .closed (first.append layout)
  | comment before inner =>
      rw [← List.append_assoc]
      exact .comment (first.append before) inner

theorem layout_then_solid (text : List Char) :
    FinalLayout text ∨ ∃ g c later, text = g ++ c :: later ∧ Layout g ∧ Solid c := by
  induction size : text.length using Nat.strong_induction_on generalizing text with
  | _ size ih =>
      subst size
      have behind : ∀ g later, text = g ++ later → later.length < text.length → Layout g →
          FinalLayout text ∨ ∃ g c later, text = g ++ c :: later ∧ Layout g ∧ Solid c := by
        intro g later split shorter layout
        rcases ih _ shorter later rfl with final | ⟨h,c,rest,rfl,more,solid⟩
        · exact .inl (split ▸ layout.final final)
        · exact .inr ⟨g ++ h,c,rest,by rw [split,List.append_assoc],layout.append more,solid⟩
      cases text with
      | nil => exact .inl (.closed .nil)
      | cons c later =>
          cases blank : isBlank c with
          | true => exact behind [c] later rfl (by simp) (.blank c blank .nil)
          | false =>
              by_cases mark : c = '#'
              · subst mark
                by_cases feed : '\n' ∈ later
                · obtain ⟨body,rest,rfl,inner⟩ := List.eq_append_cons_of_mem feed
                  exact behind ('#' :: body ++ ['\n']) rest (by simp) (by simp; omega) (.comment inner .nil)
                · exact .inl (.comment .nil feed)
              · exact .inr ⟨[],c,later,rfl,.nil,blank,mark⟩

theorem split_comment (inner : '\n' ∉ body) (later : List Char) :
    splitLayout true (body ++ '\n' :: later) =
      (body ++ '\n' :: (splitLayout false later).1,(splitLayout false later).2) := by
  induction body with
  | nil => rfl
  | cons c body ih =>
      obtain ⟨other,inner⟩ := not_or.mp (List.mem_cons.not.mp inner)
      have goes : (c != '\n') = true := bne_iff_ne.mpr (Ne.symm other)
      simp only [List.cons_append,splitLayout,Bool.true_or,if_true,goes,ih inner]

theorem split_last_comment (inner : '\n' ∉ body) : splitLayout true body = (body,[]) := by
  induction body with
  | nil => rfl
  | cons c body ih =>
      obtain ⟨other,inner⟩ := not_or.mp (List.mem_cons.not.mp inner)
      have goes : (c != '\n') = true := bne_iff_ne.mpr (Ne.symm other)
      simp only [splitLayout,Bool.true_or,if_true,goes,ih inner]

theorem split_mark (later : List Char) : splitLayout false ('#' :: later) =
    ('#' :: (splitLayout true later).1,(splitLayout true later).2) := rfl

theorem split_solid (solid : Solid c) (later : List Char) :
    splitLayout false (c :: later) = ([],c :: later) := by
  obtain ⟨blank,mark⟩ := solid
  simp [splitLayout,blank,commentMark,mark]

theorem split_layout (layout : Layout g) (later : List Char) : splitLayout false (g ++ later) =
    (g ++ (splitLayout false later).1,(splitLayout false later).2) := by
  induction layout with
  | nil => rfl
  | @blank w c blank _ ih =>
      have unmarked : (c == commentMark) = false := by
        refine beq_eq_false_iff_ne.mpr ?_
        rintro rfl
        exact absurd blank (by decide)
      simp only [List.cons_append,splitLayout,blank,unmarked,Bool.false_or,Bool.true_or,if_true,
        Bool.false_eq_true,if_false,ih]
  | comment inner _ ih =>
      simp only [List.cons_append,List.append_assoc,split_mark,split_comment inner,ih]

theorem split_layout_solid (layout : Layout g) (solid : Solid c) (later : List Char) :
    splitLayout false (g ++ c :: later) = (g,c :: later) := by
  rw [split_layout layout,split_solid solid,List.append_nil]

theorem split_final_layout (final : FinalLayout g) : splitLayout false g = (g,[]) := by
  cases final with
  | closed layout =>
      have whole := split_layout layout []
      rwa [List.append_nil,splitLayout,List.append_nil] at whole
  | comment before inner => rw [split_layout before,split_mark,split_last_comment inner]

end KaleidoscopeFrontEnd
