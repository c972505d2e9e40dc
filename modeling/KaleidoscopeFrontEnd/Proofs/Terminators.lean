import KaleidoscopeFrontEnd.Proofs.TextLines
import KaleidoscopeFrontEnd.Proofs.Transcript

namespace KaleidoscopeFrontEnd

-- The flag says that a comment is open, and the line feed that ends a comment belongs to it.
def outsideComments : Bool → List Char → List Char
  | _, [] => []
  | true, c :: later => outsideComments (c != '\n') later
  | false, c :: later => if c = '#' then outsideComments true later else c :: outsideComments false later

theorem outside_mark (later : List Char) : outsideComments false ('#' :: later) = outsideComments true later := rfl

theorem outside_plain (other : c ≠ '#') (later : List Char) :
    outsideComments false (c :: later) = c :: outsideComments false later := if_neg other

theorem outside_comment (inner : '\n' ∉ body) (later : List Char) :
    outsideComments true (body ++ '\n' :: later) = outsideComments false later := by
  induction body with
  | nil => rfl
  | cons c body ih =>
      obtain ⟨other,inner⟩ := not_or.mp (List.mem_cons.not.mp inner)
      have goes : (c != '\n') = true := bne_iff_ne.mpr (Ne.symm other)
      rw [List.cons_append,outsideComments,goes]
      exact ih inner

theorem outside_last_comment (inner : '\n' ∉ body) : outsideComments true body = [] := by
  induction body with
  | nil => rfl
  | cons c body ih =>
      obtain ⟨other,inner⟩ := not_or.mp (List.mem_cons.not.mp inner)
      have goes : (c != '\n') = true := bne_iff_ne.mpr (Ne.symm other)
      rw [outsideComments,goes]
      exact ih inner

theorem outside_unmarked (unmarked : '#' ∉ w) (later : List Char) :
    outsideComments false (w ++ later) = w ++ outsideComments false later := by
  induction w with
  | nil => rfl
  | cons c w ih =>
      obtain ⟨other,unmarked⟩ := not_or.mp (List.mem_cons.not.mp unmarked)
      rw [List.cons_append,outside_plain (Ne.symm other),ih unmarked]
      rfl

theorem outside_line (inner : '\n' ∉ line) (later : List Char) : ';' ∈ outsideComments false (line ++ '\n' :: later) ↔
    ';' ∈ line.takeWhile (· != '#') ∨ ';' ∈ outsideComments false later := by
  induction line with
  | nil =>
      rw [List.nil_append,outside_plain (by decide)]
      simp
  | cons c line ih =>
      obtain ⟨_,behind⟩ := not_or.mp (List.mem_cons.not.mp inner)
      by_cases mark : c = '#'
      · subst mark
        rw [List.cons_append,outside_mark,outside_comment behind]
        simp
      · have passes : (c != '#') = true := bne_iff_ne.mpr mark
        rw [List.cons_append,outside_plain mark,List.mem_cons,ih behind,List.takeWhile_cons,if_pos passes,List.mem_cons,or_assoc]

theorem outside_subset (seen : Bool) (text : List Char) : outsideComments seen text ⊆ text := by
  induction text generalizing seen with
  | nil => cases seen <;> exact List.Subset.refl _
  | cons c later ih =>
      cases seen with
      | true => exact List.Subset.trans (ih _) (List.subset_cons_self c later)
      | false =>
          rw [outsideComments]
          split
          · exact List.Subset.trans (ih _) (List.subset_cons_self c later)
          · exact List.cons_subset_cons c (ih _)

theorem outside_closed (closed : Closed w) (fresh : w = [] → seen = false) (later : List Char) :
    outsideComments seen (w ++ later) = outsideComments seen w ++ outsideComments false later := by
  induction w generalizing seen with
  | nil =>
      rw [fresh rfl]
      rfl
  | cons c w ih =>
      have behind : Closed w := Closed.behind (w := [c]) closed
      have feed : w = [] → c = '\n' := by
        rintro rfl
        exact closed c rfl
      cases seen with
      | true =>
          refine ih behind fun empty => ?_
          rw [feed empty]
          rfl
      | false =>
          by_cases mark : c = '#'
          · subst mark
            exact ih behind fun empty => absurd (feed empty) (by decide)
          · rw [List.cons_append,outside_plain mark,outside_plain mark,ih behind fun _ => rfl]
            rfl

theorem Layout.outside (layout : Layout g) (later : List Char) :
    ';' ∈ outsideComments false (g ++ later) ↔ ';' ∈ outsideComments false later := by
  induction layout with
  | nil => exact Iff.rfl
  | @blank w c blank _ ih =>
      have mark : c ≠ '#' := by
        rintro rfl
        exact absurd blank (by decide)
      have terminator : ';' ≠ c := by
        rintro rfl
        exact absurd blank (by decide)
      rw [List.cons_append,outside_plain mark,List.mem_cons,or_iff_right terminator]
      exact ih
  | @comment body w inner _ ih =>
      rw [List.append_assoc,List.cons_append,outside_mark,List.cons_append,outside_comment inner]
      exact ih

theorem FinalLayout.outside (final : FinalLayout g) : ';' ∉ outsideComments false g := by
  cases final with
  | closed layout =>
      have same := layout.outside []
      rw [List.append_nil] at same
      exact fun member => absurd (same.mp member) List.not_mem_nil
  | comment before inner =>
      rw [before.outside,outside_mark,outside_last_comment inner]
      exact List.not_mem_nil

theorem Lexeme.terminator (lexeme : Lexeme w rest kind value) :
    ';' ∈ w ↔ kind = .operator ∧ value = some (.text ";") := by
  have letter : isLetter ';' = false := by decide +kernel
  have literal : isLiteralChar ';' = false := by decide +kernel
  cases lexeme with
  | definition | external | opening | closing | comma => simp
  | identifier nonempty word =>
      have other : ';' ∉ w := fun member => Bool.false_ne_true (letter.symm.trans (word.inside _ member))
      simp [other]
  | number run form =>
      have other : ';' ∉ w := fun member => Bool.false_ne_true (literal.symm.trans (run.inside _ member))
      simp [other]
  | @operator c =>
      have same : String.ofList [c] = String.ofList [';'] ↔ [c] = [';'] := String.ofList_inj
      simp only [List.mem_singleton,true_and,Option.some.injEq,TokenValue.text.injEq]
      exact eq_comm.trans (List.singleton_inj.symm.trans same.symm)

theorem Scanned.outside (scanned : Scanned file source done tokens rest) : ';' ∈ outsideComments false source ↔
    (∃ t ∈ tokens, Language.Terminator t) ∨ ';' ∈ outsideComments false rest := by
  induction scanned with
  | start => simp
  | @token done tokens g w rest kind value before layout lexeme ih =>
      have unmarked : '#' ∉ w := fun member => (lexeme.solid '#' member).2 rfl
      rw [ih,List.append_assoc,layout.outside,outside_unmarked unmarked,List.mem_append,lexeme.terminator]
      simp only [List.mem_append,List.mem_singleton,or_and_right,exists_or,exists_eq_left,Language.Terminator,or_assoc]

-- A text has the terminator among its tokens exactly if it has its character outside the comments.
theorem terminator_outside (complete : (Lexing.ofText file text).complete = .ok all) :
    (∃ t ∈ all, Language.Terminator t) ↔ ';' ∈ outsideComments false text := by
  have begun : Scanned file text [] [] text := .start
  rcases begun.ends with ⟨done,tokens,rest,scanned,final⟩ | ⟨done,tokens,g,w,rest,scanned,layout,broken⟩
  · cases complete.symm.trans (scanned.complete_final final)
    rw [scanned.outside,or_iff_left final.outside]
    simp [Token.endOfInput,Language.Terminator]
  · cases complete.symm.trans (scanned.complete_malformed layout broken)

theorem line_terminated (closed : Closed before) (unmarked : ';' ∉ before) (inner : '\n' ∉ line)
    (complete : (Lexing.ofText file (before ++ line ++ ['\n'])).complete = .ok all) :
    (∃ t ∈ all, Language.Terminator t) ↔ ';' ∈ line.takeWhile (· != '#') := by
  have front : ';' ∉ outsideComments false before := fun member => unmarked (outside_subset false before member)
  rw [terminator_outside complete,List.append_assoc,outside_closed closed fun _ => rfl,List.mem_append,or_iff_right front,
    outside_line inner]
  simp [outsideComments]

-- The terminator itself is among the tokens exactly if the character stands in front of the last line's comment.
def Terminated (statement : List Char) : Prop :=
  ∃ before line, statement = before ++ line ++ ['\n'] ∧ Closed before ∧ ';' ∉ before ∧ '\n' ∉ line ∧ ';' ∈ line ∧
    ∀ tokens, (Lexing.ofText inputName statement).complete = .ok tokens →
      ((∃ t ∈ tokens, Language.Terminator t) ↔ ';' ∈ line.takeWhile (· != '#'))

theorem marked_terminated (closed : Closed before) (unmarked : ';' ∉ before) (inner : '\n' ∉ line) (marked : ';' ∈ line) :
    Terminated (before ++ line ++ ['\n']) :=
  ⟨before,line,rfl,closed,unmarked,inner,marked,fun _ => line_terminated closed unmarked inner⟩

theorem read_terminated (read : Session.readStatement input = (some statement,rest)) (more : rest ≠ []) :
    Terminated statement := by
  rcases marked_line input with ⟨before,line,rfl,closed,unmarked,inner⟩ | ⟨before,line,later,rfl,closed,unmarked,inner,marked⟩
  · by_cases empty : before ++ line = []
    · rw [empty] at read
      cases read
    · cases read.symm.trans (read_last unmarked inner empty)
      exact absurd rfl more
  · cases read.symm.trans (read_marked unmarked inner marked later)
    exact marked_terminated closed unmarked inner marked

theorem Grouped.terminated (grouped : Grouped text groups) : ∀ g ∈ groups.dropLast, Terminated g := by
  induction grouped with
  | nil => exact fun g nothing => absurd nothing List.not_mem_nil
  | last => exact fun g nothing => absurd nothing List.not_mem_nil
  | @statement before line text groups closed unmarked inner marked later ih =>
      intro g member
      cases groups with
      | nil => exact absurd member List.not_mem_nil
      | cons next groups =>
          rcases List.mem_cons.mp member with rfl | member
          · exact marked_terminated closed unmarked inner marked
          · exact ih g member

namespace Session

theorem run_parts (s : Session) (input : List Char) : ∃ later, statements input = (s.run input).evaluated ++ later ∧
    (s.run input).last = later.head? ∧ (s.run input).rest = (later.drop 1).flatten ∧ ∀ g ∈ later.head?, Idle g := by
  simp only [run,List.span_eq_takeWhile_dropWhile]
  refine ⟨_,List.takeWhile_append_dropWhile.symm,rfl,rfl,?_⟩
  intro g first
  have stopped := List.head?_dropWhile_not (fun statement => !isEmptyStatement statement) (statements input)
  rw [Option.mem_def.mp first] at stopped
  exact idle_exact.mpr (by simpa using stopped)

theorem run_ends (s : Session) (input : List Char) : (s.run input).rest = [] ∨
    ∃ statement, (s.run input).last = some statement ∧ Idle statement ∧ Terminated statement := by
  obtain ⟨later,cut,last,rest,idle⟩ := s.run_parts input
  rcases later with _ | ⟨statement,_ | ⟨next,later⟩⟩
  · exact .inl rest
  · exact .inl rest
  · refine .inr ⟨statement,last,idle statement rfl,?_⟩
    apply (statements_grouped input).terminated
    rw [cut,List.dropLast_append_of_ne_nil (List.cons_ne_nil _ _)]
    exact List.mem_append_right _ List.mem_cons_self

-- A statement ends with the first line that has the terminator's character in it, also in a comment. A session ends
-- with its input, or behind such a statement with no tokens but terminators.
theorem statement_ends (s : Session) :
    (∀ input statement rest, readStatement input = (some statement,rest) → rest ≠ [] → Terminated statement) ∧
    ∀ input, (s.run input).rest = [] ∨
      ∃ statement, (s.run input).last = some statement ∧ Idle statement ∧ Terminated statement := by
  refine ⟨?_,s.run_ends⟩
  intro input statement rest read more
  exact read_terminated read more

theorem statement_ends_second_line : Terminated "f(x # one\n); # ;\n".toList := by
  have read : readStatement "f(x # one\n); # ;\ny;".toList = (some "f(x # one\n); # ;\n".toList,"y;".toList) := by
    decide +kernel
  exact (statement_ends ⟨"",false⟩).1 _ _ _ read (by decide)

-- The line behind the comment is not read into the statement, and the session stops there.
theorem comment_ends_statement :
    let text := "# a; b\nx;\n".toList
    let comment := "# a; b\n".toList
    readStatement text = (some comment,"x;\n".toList) ∧
      (∃ tokens, (Lexing.ofText inputName comment).complete = .ok tokens ∧ ¬ ∃ t ∈ tokens, Language.Terminator t) ∧
      ∀ s : Session, (s.run text).rest ≠ [] ∧ (s.run text).last = some comment := by
  intro text comment
  have cut : statements text = [comment,"x;\n".toList] := by decide +kernel
  have empty : isEmptyStatement comment = true := by decide +kernel
  refine ⟨by decide +kernel,⟨[.endOfInput (some ⟨inputName,2,1,7⟩)],by decide +kernel,by decide +kernel⟩,?_⟩
  intro s
  simp only [run,cut,List.span_eq_takeWhile_dropWhile,List.dropWhile_cons,empty]
  exact ⟨by decide,rfl⟩

end Session

end KaleidoscopeFrontEnd
