import KaleidoscopeFrontEnd.Proofs.Agreement

namespace KaleidoscopeFrontEnd

-- Whole lines through the first one with the terminator's character in it, and in the end what no such line follows.
inductive Grouped : List Char → List (List Char) → Prop where
  | nil : Grouped [] []
  | last (closed : Closed before) (unmarked : ';' ∉ before) (inner : '\n' ∉ line) (nonempty : before ++ line ≠ []) :
      Grouped (before ++ line) [before ++ line]
  | statement (closed : Closed before) (unmarked : ';' ∉ before) (inner : '\n' ∉ line) (marked : ';' ∈ line)
      (later : Grouped text groups) : Grouped (before ++ line ++ '\n' :: text) ((before ++ line ++ ['\n']) :: groups)

theorem closed_nil : Closed [] := fun c last => absurd last (by simp)

theorem marked_line (text : List Char) :
    (∃ before line, text = before ++ line ∧ Closed before ∧ ';' ∉ before ∧ '\n' ∉ line) ∨
    ∃ before line later, text = before ++ line ++ '\n' :: later ∧ Closed before ∧ ';' ∉ before ∧ '\n' ∉ line ∧ ';' ∈ line := by
  induction size : text.length using Nat.strong_induction_on generalizing text with
  | _ size ih =>
      subst size
      by_cases feed : '\n' ∈ text
      · obtain ⟨first,rest,rfl,inner⟩ := List.eq_append_cons_of_mem feed
        by_cases marked : ';' ∈ first
        · exact .inr ⟨[],first,rest,rfl,closed_nil,List.not_mem_nil,inner,marked⟩
        · have passed : ∀ {before : List Char}, ';' ∉ before → ';' ∉ first ++ ['\n'] ++ before := by
            intro before unmarked
            simp only [List.mem_append,List.mem_singleton,not_or]
            exact ⟨⟨marked,by decide⟩,unmarked⟩
          have shorter : rest.length < (first ++ '\n' :: rest).length := by
            rw [List.length_append,List.length_cons]
            omega
          have regroup : first ++ '\n' :: rest = first ++ ['\n'] ++ rest := List.append_cons first '\n' rest
          rcases ih _ shorter rest rfl with ⟨before,line,rfl,closed,unmarked,ends⟩ | ⟨before,line,later,rfl,closed,unmarked,ends,here⟩
          · refine .inl ⟨first ++ ['\n'] ++ before,line,?_,closed.append (closed_line first),passed unmarked,ends⟩
            rw [regroup]
            simp only [List.append_assoc]
          · refine .inr ⟨first ++ ['\n'] ++ before,line,later,?_,closed.append (closed_line first),passed unmarked,ends,here⟩
            rw [regroup]
            simp only [List.append_assoc]
      · exact .inl ⟨[],text,rfl,closed_nil,List.not_mem_nil,feed⟩

theorem grouped_exists (text : List Char) : ∃ groups, Grouped text groups := by
  induction size : text.length using Nat.strong_induction_on generalizing text with
  | _ size ih =>
      subst size
      rcases marked_line text with ⟨before,line,rfl,closed,unmarked,inner⟩ | ⟨before,line,later,rfl,closed,unmarked,inner,marked⟩
      · by_cases empty : before ++ line = []
        · rw [empty]
          exact ⟨[],.nil⟩
        · exact ⟨_,.last closed unmarked inner empty⟩
      · have shorter : later.length < (before ++ line ++ '\n' :: later).length := by
          rw [List.length_append,List.length_cons]
          omega
        obtain ⟨groups,grouped⟩ := ih _ shorter later rfl
        exact ⟨_,.statement closed unmarked inner marked grouped⟩

theorem Grouped.flatten (grouped : Grouped text groups) : groups.flatten = text := by
  induction grouped with
  | nil => rfl
  | last => exact List.flatten_singleton
  | statement closed unmarked inner marked later ih => rw [List.flatten_cons,ih,← List.append_cons]

theorem split_unmarked (unmarked : ';' ∉ before) (text : List Char) : splitStatement false (before ++ text) =
    (before ++ (splitStatement false text).1,(splitStatement false text).2) := by
  induction before with
  | nil => rfl
  | cons c before ih =>
      obtain ⟨other,unmarked⟩ := not_or.mp (List.mem_cons.not.mp unmarked)
      have unseen : (c == ';') = false := beq_eq_false_iff_ne.mpr (Ne.symm other)
      simp only [List.cons_append,splitStatement,Bool.and_false,Bool.false_eq_true,if_false,Bool.false_or,unseen,ih unmarked]

theorem split_open (inner : '\n' ∉ line) (seen : Bool) : splitStatement seen line = (line,[]) := by
  induction line generalizing seen with
  | nil => rfl
  | cons c line ih =>
      obtain ⟨other,inner⟩ := not_or.mp (List.mem_cons.not.mp inner)
      have goes : (c == '\n') = false := beq_eq_false_iff_ne.mpr (Ne.symm other)
      simp only [splitStatement,goes,Bool.false_and,Bool.false_eq_true,if_false,ih inner]

theorem split_marked (inner : '\n' ∉ line) (marked : seen = true ∨ ';' ∈ line) (later : List Char) :
    splitStatement seen (line ++ '\n' :: later) = (line ++ ['\n'],later) := by
  induction line generalizing seen with
  | nil =>
      have here : seen = true := marked.resolve_right List.not_mem_nil
      rw [here]
      rfl
  | cons c line ih =>
      obtain ⟨other,inner⟩ := not_or.mp (List.mem_cons.not.mp inner)
      have goes : (c == '\n') = false := beq_eq_false_iff_ne.mpr (Ne.symm other)
      have known : (seen || c == ';') = true ∨ ';' ∈ line := by
        rcases marked with here | member
        · exact .inl (by rw [here,Bool.true_or])
        · rcases List.mem_cons.mp member with mark | behind
          · exact .inl (by rw [← mark,beq_self_eq_true,Bool.or_true])
          · exact .inr behind
      simp only [List.cons_append,splitStatement,goes,Bool.false_and,Bool.false_eq_true,if_false,ih inner known]

theorem read_last (unmarked : ';' ∉ before) (inner : '\n' ∉ line) (nonempty : before ++ line ≠ []) :
    Session.readStatement (before ++ line) = (some (before ++ line),[]) := by
  have split : splitStatement false (before ++ line) = (before ++ line,[]) := by
    rw [split_unmarked unmarked,split_open inner]
  cases whole : before ++ line with
  | nil => exact absurd whole nonempty
  | cons c rest => simp only [Session.readStatement,← whole,split]

theorem read_marked (unmarked : ';' ∉ before) (inner : '\n' ∉ line) (marked : ';' ∈ line) (later : List Char) :
    Session.readStatement (before ++ line ++ '\n' :: later) = (some (before ++ line ++ ['\n']),later) := by
  have split : splitStatement false (before ++ line ++ '\n' :: later) = (before ++ line ++ ['\n'],later) := by
    rw [List.append_assoc,split_unmarked unmarked,split_marked inner (.inr marked),List.append_assoc]
  cases whole : before ++ line ++ '\n' :: later with
  | nil => exact absurd whole (by simp)
  | cons c rest => simp only [Session.readStatement,← whole,split]

theorem statements_read (read : Session.readStatement text = (some statement,later)) :
    statements text = statement :: statements later := by
  cases text with
  | nil => cases read
  | cons c rest =>
      cases read
      rw [statements]

theorem Grouped.exact (grouped : Grouped text groups) : statements text = groups := by
  induction grouped with
  | nil => rw [statements]
  | last closed unmarked inner nonempty => rw [statements_read (read_last unmarked inner nonempty),statements]
  | statement closed unmarked inner marked later ih => rw [statements_read (read_marked unmarked inner marked _),ih]

theorem statements_grouped (text : List Char) : Grouped text (statements text) := by
  obtain ⟨groups,grouped⟩ := grouped_exists text
  rwa [grouped.exact]

-- A statement that was entered for its terminators only, if at all. It lexes.
def Idle (statement : List Char) : Prop :=
  ∃ w stop, (Lexing.ofText inputName statement).complete = .ok (w ++ [stop]) ∧ stop.isEnd = true ∧
    ∀ t ∈ w, Language.Terminator t

theorem idle_exact : Idle statement ↔ Session.isEmptyStatement statement = true := by
  constructor
  · rintro ⟨w,stop,complete,ended,only⟩
    obtain ⟨v,last,drains,same⟩ := lexes_complete.mp complete
    obtain ⟨rfl,_⟩ := List.append_inj' same rfl
    exact (Session.empty_exact ⟨last,drains⟩).mpr fun t member => Language.terminator_exact.mp (only t member)
  · intro empty
    cases ending : (Lexing.ofText inputName statement).ending with
    | error fault => simp only [Session.isEmptyStatement,ending] at empty; cases empty
    | ok stop =>
        obtain ⟨last,drains⟩ := lexes_exact.mpr ⟨rfl,stop,ending⟩
        have only := (Session.empty_exact ⟨last,drains⟩).mp empty
        exact ⟨_,last,lexes_complete.mpr ⟨_,last,drains,rfl⟩,drains.ended,
          fun t member => Language.terminator_exact.mpr (only t member)⟩

theorem Derivation.Items.empty (derived : Items w []) : ∀ t ∈ w, t.isTerminator = true := by
  generalize none : ([] : List Item) = items at derived
  induction derived with
  | nil => exact fun t member => absurd member List.not_mem_nil
  | terminator before t terminator ih =>
      intro u member
      rcases List.mem_append.mp member with earlier | last
      · exact ih none u earlier
      · rwa [List.mem_singleton.mp last]
  | item before next ih => exact absurd none (by simp)

namespace Session

variable {s : Session}

theorem render_nonempty (rendered : s.render file text = .ok lines) : "" ∉ lines := by
  obtain ⟨a,_,rfl⟩ := render_exact.mp rendered
  intro member
  rcases List.mem_append.mp member with shown | printed
  · split at shown
    · have same := List.mem_singleton.mp shown
      simp [tokenLine] at same
    · exact absurd shown List.not_mem_nil
  · obtain ⟨i,_,same⟩ := List.mem_map.mp printed
    simp [itemLine] at same

theorem intercalate_nonempty (filled : lines ≠ []) (nonempty : "" ∉ lines) : "\n".intercalate lines ≠ "" := by
  cases lines with
  | nil => exact absurd rfl filled
  | cons line later =>
      obtain ⟨behind,same⟩ := intercalate_first line later
      rw [same]
      intro empty
      exact nonempty (List.mem_cons.mpr (.inl (String.append_eq_empty_iff.mp empty).1.symm))

-- The test for an empty statement and the reading of it agree.
theorem evaluate_nonempty (filled : ¬ Idle statement) : s.evaluate statement ≠ "" := by
  cases rendered : s.render inputName statement with
  | error fault =>
      rw [evaluate_failed rendered]
      unfold faultLine
      split <;> simp
  | ok lines =>
      rw [evaluate_rendered rendered]
      refine intercalate_nonempty ?_ (render_nonempty rendered)
      rintro rfl
      obtain ⟨a,analyzed,none⟩ := render_exact.mp rendered
      obtain ⟨w,stop,drains,_,reply⟩ := analysis_exact.mp analyzed
      have items : a.items = [] := List.map_eq_nil_iff.mp (List.append_eq_nil_iff.mp none).2
      rw [items] at reply
      have only := (Program.read_derives reply).2.empty
      exact filled ⟨w,stop,lexes_complete.mpr ⟨w,stop,drains,rfl⟩,drains.ended,
        fun t member => Language.terminator_exact.mpr (only t member)⟩

-- One turn of the session: it prompts, reads a statement and answers it, unless there is none or it is empty.
theorem run_loop (s : Session) (input : List Char) : s.run input =
    match readStatement input with
    | (none,_) => ⟨s.prompt ++ "\n",[],none,[]⟩
    | (some statement,rest) =>
        if isEmptyStatement statement then ⟨s.prompt ++ "\n",[],some statement,rest⟩
        else
          let later := s.run rest
          { later with
            output := s.prompt ++ s.answer statement ++ later.output
            evaluated := statement :: later.evaluated } := by
  cases read : readStatement input with
  | mk found rest =>
      cases found with
      | none =>
          cases input with
          | nil => simp [run,statements]
          | cons c later => cases read
      | some statement =>
          have cut := statements_read read
          simp only
          split
          · rename_i empty
            simp only [run,cut,List.span_eq_takeWhile_dropWhile,List.takeWhile_cons,List.dropWhile_cons,empty,Bool.not_true,
              Bool.false_eq_true,if_false,List.map_nil,String.join_nil,String.empty_append,List.head?_cons,
              List.drop_succ_cons,List.drop_zero,(statements_grouped rest).flatten]
          · rename_i filled
            simp only [run,cut,List.span_eq_takeWhile_dropWhile,List.takeWhile_cons,List.dropWhile_cons,
              eq_false_of_ne_true filled,Bool.not_false,if_true,List.map_cons,String.join_cons,String.append_assoc]

theorem answer_filled (filled : ¬ Idle statement) : s.answer statement = s.evaluate statement ++ "\n" :=
  if_neg (evaluate_nonempty filled)

-- An empty statement, or the end, leaves a prompt without an answer, and nothing behind it matters.
inductive Conversation (s : Session) : List (List Char) → String → Prop where
  | ended : Conversation s [] (s.prompt ++ "\n")
  | idle (idle : Idle statement) : Conversation s (statement :: later) (s.prompt ++ "\n")
  | answered (filled : ¬ Idle statement) (behind : Conversation s later output) :
      Conversation s (statement :: later) (s.prompt ++ s.evaluate statement ++ "\n" ++ output)

theorem turn (cut : readStatement text = (some statement,rest)) (behind : Conversation s later (s.run rest).output) :
    Conversation s (statement :: later) (s.run text).output := by
  rw [run_loop,cut]
  by_cases idle : Idle statement
  · simp only [idle_exact.mp idle,if_true]
    exact .idle idle
  · simp only [if_neg (idle_exact.not.mp idle),answer_filled idle,← String.append_assoc]
    exact .answered idle behind

theorem run_conversation (s : Session) (grouped : Grouped text groups) : Conversation s groups (s.run text).output := by
  induction grouped with
  | nil =>
      rw [run_loop]
      exact .ended
  | last closed unmarked inner nonempty =>
      refine turn (read_last unmarked inner nonempty) ?_
      rw [run_loop]
      exact .ended
  | statement closed unmarked inner marked later ih => exact turn (read_marked unmarked inner marked _) ih

theorem Conversation.shown (conversation : Conversation s groups output) : ∃ answered later, groups = answered ++ later ∧
    (∀ g ∈ answered, ¬ Idle g) ∧ (∀ g ∈ later.head?, Idle g) ∧
    output = String.join (answered.map fun g => s.prompt ++ s.evaluate g ++ "\n") ++ s.prompt ++ "\n" := by
  induction conversation with
  | ended => exact ⟨[],[],rfl,by simp,by simp,by simp⟩
  | @idle statement later idle => exact ⟨[],statement :: later,rfl,by simp,by simpa using idle,by simp⟩
  | @answered statement _ _ filled behind ih =>
      obtain ⟨answered,later,rfl,before,after,rfl⟩ := ih
      refine ⟨statement :: answered,later,rfl,List.forall_mem_cons.mpr ⟨filled,before⟩,after,?_⟩
      simp only [List.map_cons,String.join_cons,String.append_assoc]

-- A session writes the answers to its statements, each behind a prompt, up to the first empty one. The statements are
-- the one way to cut the input by its lines; each answer is that of its statement alone.
theorem session_transcript (s : Session) (input : List Char) : ∃ groups answered later,
    Grouped input groups ∧ groups.flatten = input ∧ (∀ others, Grouped input others → others = groups) ∧
    groups = answered ++ later ∧ (∀ g ∈ answered, ¬ Idle g) ∧ (∀ g ∈ later.head?, Idle g) ∧
    (s.run input).output = String.join (answered.map fun g => s.prompt ++ s.evaluate g ++ "\n") ++ s.prompt ++ "\n" ∧
    ∀ g ∈ answered, s.evaluate g ≠ "" ∧ ∀ prompt, evaluate ⟨prompt,s.showTokens⟩ g = s.evaluate g := by
  have grouped := statements_grouped input
  obtain ⟨answered,later,split,filled,ends,output⟩ := (s.run_conversation grouped).shown
  exact ⟨_,answered,later,grouped,grouped.flatten,fun others other => other.exact.symm,split,filled,ends,output,
    fun g member => ⟨evaluate_nonempty (filled g member),fun _ => rfl⟩⟩

end Session

end KaleidoscopeFrontEnd
