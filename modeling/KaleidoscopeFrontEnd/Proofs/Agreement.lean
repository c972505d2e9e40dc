import KaleidoscopeFrontEnd.Proofs.Analyzed
import KaleidoscopeFrontEnd.Proofs.Separation
import Mathlib.Data.List.TakeDrop

namespace KaleidoscopeFrontEnd

-- What is printed for tokens, if they can be read to their end.
def Prints (w : List Token) (lines : List String) : Prop :=
  ∃ items, Program.read w = .accepted items [] ∧ lines = items.map Session.itemLine

theorem prints_nil : Prints [] lines ↔ lines = [] := by
  constructor
  · rintro ⟨items,accepted,rfl⟩
    cases accepted
    rfl
  · rintro rfl
    exact ⟨[],rfl,rfl⟩

theorem Prints.unplaced {w v : List Token} (prints : Prints w lines)
    (same : w.map View.unplaced.token = v.map View.unplaced.token) : Prints v lines := by
  obtain ⟨items,accepted,rfl⟩ := prints
  obtain ⟨others,read,printed⟩ := read_unplaced same accepted
  refine ⟨others,read,?_⟩
  have lines := congrArg (List.map ("Parsed: " ++ ·)) printed
  rw [List.map_map,List.map_map] at lines
  exact lines.symm

theorem prints_unplaced : Prints (w.map View.unplaced.token) lines ↔ Prints w lines := by
  have same : (w.map View.unplaced.token).map View.unplaced.token = w.map View.unplaced.token := by
    rw [List.map_map]
    rfl
  exact ⟨fun prints => prints.unplaced same,fun prints => prints.unplaced same.symm⟩

theorem prints_separated (terminator : t.isTerminator = true) : Prints (w ++ t :: v) lines ↔
    ∃ first second, Prints w first ∧ Prints v second ∧ lines = first ++ second := by
  constructor
  · rintro ⟨items,accepted,rfl⟩
    obtain ⟨left,right,before,behind,rfl⟩ := (Program.read_separated terminator).mp accepted
    exact ⟨_,_,⟨left,before,rfl⟩,⟨right,behind,rfl⟩,List.map_append⟩
  · rintro ⟨_,_,⟨left,before,rfl⟩,⟨right,behind,rfl⟩,rfl⟩
    have whole := (Program.read_separated terminator).mpr ⟨left,right,before,behind,rfl⟩
    exact ⟨left ++ right,whole,List.map_append.symm⟩

theorem prints_terminated (terminator : t.isTerminator = true) : Prints (w ++ [t]) lines ↔ Prints w lines := by
  rw [prints_separated terminator]
  constructor
  · rintro ⟨first,second,prints,nothing,rfl⟩
    rwa [prints_nil.mp nothing,List.append_nil]
  · exact fun prints => ⟨lines,[],prints,prints_nil.mpr rfl,(List.append_nil lines).symm⟩

theorem prints_empty (empty : ∀ t ∈ w, t.isTerminator = true) : Prints w [] := by
  induction w with
  | nil => exact prints_nil.mpr rfl
  | cons t w ih =>
      obtain ⟨first,later⟩ := List.forall_mem_cons.mp empty
      exact (prints_separated (w := []) first).mpr ⟨[],[],prints_nil.mpr rfl,ih later,rfl⟩

theorem intercalate_first (line : String) (later : List String) :
    ∃ behind, "\n".intercalate (line :: later) = line ++ behind := by
  cases later with
  | nil => exact ⟨"",by rw [String.intercalate_singleton,String.append_empty]⟩
  | cons next later => exact ⟨_,by rw [String.intercalate_cons_cons,String.append_assoc]⟩

theorem intercalate_lines (line : String) (later : List String) :
    "\n".intercalate (line :: later) ++ "\n" = String.join ((line :: later).map (· ++ "\n")) := by
  induction later generalizing line with
  | nil => rw [String.intercalate_singleton,List.map_singleton,String.join_cons,String.join_nil,String.append_empty]
  | cons next later ih =>
      rw [String.intercalate_cons_cons,String.append_assoc,ih]
      exact String.join_cons.symm

namespace Session

variable {s : Session}

theorem render_exact : s.render file text = .ok lines ↔ ∃ a, Analysis.ofText file text = .ok a ∧
    (if s.showTokens then [tokenLine a.tokens] else []) ++ a.items.map itemLine = lines := map_ok

theorem render_lexes (quiet : s.showTokens = false) (lexes : Lexes file text w) :
    s.render file text = .ok lines ↔ Prints w lines := by
  rw [render_exact,quiet]
  constructor
  · rintro ⟨a,analyzed,rfl⟩
    obtain ⟨v,stop,drains,_,accepted⟩ := analysis_exact.mp analyzed
    rw [lexes.unique ⟨stop,drains⟩]
    exact ⟨a.items,accepted,rfl⟩
  · rintro ⟨items,accepted,rfl⟩
    obtain ⟨stop,drains⟩ := lexes
    exact ⟨⟨w ++ [stop],items⟩,analysis_exact.mpr ⟨w,stop,drains,rfl,accepted⟩,rfl⟩

theorem render_line (rendered : s.render file text = .ok lines) (quiet : s.showTokens = false) :
    ∀ line ∈ lines, ∃ shown, line = "Parsed: " ++ shown := by
  obtain ⟨a,_,rfl⟩ := render_exact.mp rendered
  rw [quiet]
  intro line member
  obtain ⟨i,_,rfl⟩ := List.mem_map.mp member
  exact ⟨i.sexpr,rfl⟩

theorem evaluate_rendered (rendered : s.render inputName text = .ok lines) :
    s.evaluate text = "\n".intercalate lines := by
  rw [evaluate,rendered]

theorem evaluate_failed (failed : s.render inputName text = .error fault) :
    s.evaluate text = faultLine fault.diagnostic := by
  rw [evaluate,failed]

theorem evaluate_error (quiet : s.showTokens = false) :
    "Error:".toList <+: (s.evaluate text).toList ↔ ∃ fault, s.render inputName text = .error fault := by
  constructor
  · intro started
    cases rendered : s.render inputName text with
    | error fault => exact ⟨fault,rfl⟩
    | ok lines =>
        rw [evaluate_rendered rendered] at started
        have shown := render_line rendered quiet
        cases lines with
        | nil => exact absurd started (by decide)
        | cons line later =>
            obtain ⟨tree,rfl⟩ := shown line List.mem_cons_self
            obtain ⟨behind,same⟩ := intercalate_first ("Parsed: " ++ tree) later
            rw [same] at started
            simp at started
  · rintro ⟨fault,failed⟩
    rw [evaluate_failed failed]
    unfold faultLine
    split <;> simp

theorem evaluate_passes (quiet : s.showTokens = false) :
    (∃ lines, s.render inputName text = .ok lines) ↔ ¬ "Error:".toList <+: (s.evaluate text).toList := by
  rw [evaluate_error quiet]
  cases s.render inputName text <;> simp

theorem answer_rendered (rendered : s.render inputName text = .ok lines) (quiet : s.showTokens = false) :
    s.answer text = String.join (lines.map (· ++ "\n")) := by
  have shown := render_line rendered quiet
  rw [answer,evaluate_rendered rendered]
  cases lines with
  | nil => rfl
  | cons line later =>
      obtain ⟨tree,rfl⟩ := shown line List.mem_cons_self
      have nonempty : "\n".intercalate (("Parsed: " ++ tree) :: later) ≠ "" := by
        obtain ⟨behind,same⟩ := intercalate_first ("Parsed: " ++ tree) later
        simp [same]
      rw [← intercalate_lines]
      simp only [nonempty,if_false]

end Session

def Session.Renders (s : Session) (file : String) : List (List Char) → List (List String) → Prop :=
  List.Forall₂ fun text lines => s.render file text = .ok lines

theorem Parted.prints {s : Session} (quiet : s.showTokens = false) (parted : Parted file rest w) :
    Prints w lines ↔ ∃ parts, s.Renders file rest parts ∧ lines = parts.flatten := by
  induction parted generalizing lines with
  | nil =>
      rw [prints_nil]
      constructor
      · rintro rfl
        exact ⟨[],.nil,rfl⟩
      · rintro ⟨parts,none,rfl⟩
        cases none
        rfl
  | last lexes =>
      rw [prints_unplaced,← Session.render_lexes quiet lexes]
      constructor
      · intro rendered
        exact ⟨[lines],.cons rendered .nil,(List.append_nil lines).symm⟩
      · rintro ⟨parts,only,rfl⟩
        cases only with
        | cons rendered none =>
            cases none
            rwa [List.flatten_singleton]
  | @next text w t rest v lexes terminator later ih =>
      have ends := Language.terminator_exact.mp terminator
      have seen : (View.unplaced.token t).isTerminator = true := (View.unplaced.terminator t).trans ends
      have alone : ∀ part, Prints (w.map View.unplaced.token) part ↔ s.render file text = .ok part := by
        intro part
        rw [prints_unplaced,← prints_terminated ends,Session.render_lexes quiet lexes]
      rw [List.map_append,List.map_singleton,← List.append_cons,prints_separated seen]
      constructor
      · rintro ⟨first,second,before,behind,rfl⟩
        obtain ⟨parts,rendered,rfl⟩ := ih.mp behind
        exact ⟨first :: parts,.cons ((alone first).mp before) rendered,rfl⟩
      · rintro ⟨parts,rendered,rfl⟩
        cases rendered with
        | cons first others => exact ⟨_,_,(alone _).mpr first,ih.mpr ⟨_,others,rfl⟩,rfl⟩

theorem Parted.lexes (parted : Parted file rest w) : ∀ text ∈ rest, ∃ v, Lexes file text v := by
  induction parted with
  | nil => exact fun text member => absurd member List.not_mem_nil
  | last lexes => exact List.forall_mem_singleton.mpr ⟨_,lexes⟩
  | next lexes terminator later ih => exact List.forall_mem_cons.mpr ⟨⟨_,lexes⟩,ih⟩

namespace Session

variable {s : Session}

theorem renders_exists (s : Session) (file : String) (texts : List (List Char)) :
    (∃ parts, s.Renders file texts parts) ↔ ∀ text ∈ texts, ∃ lines, s.render file text = .ok lines := by
  induction texts with
  | nil => exact ⟨fun _ text member => absurd member List.not_mem_nil,fun _ => ⟨[],.nil⟩⟩
  | cons text texts ih =>
      rw [List.forall_mem_cons,← ih]
      constructor
      · rintro ⟨parts,rendered⟩
        cases rendered with
        | cons first others => exact ⟨⟨_,first⟩,_,others⟩
      · rintro ⟨⟨lines,first⟩,parts,others⟩
        exact ⟨lines :: parts,.cons first others⟩

theorem Renders.answers (rendered : s.Renders inputName texts parts) (quiet : s.showTokens = false) :
    String.join (texts.map s.answer) = String.join (parts.flatten.map (· ++ "\n")) := by
  induction rendered with
  | nil => rfl
  | cons first others ih =>
      rw [List.map_cons,String.join_cons,answer_rendered first quiet,ih,List.flatten_cons,List.map_append,String.join_append]

theorem empty_exact (lexes : Lexes inputName text w) :
    isEmptyStatement text = true ↔ ∀ t ∈ w, t.isTerminator = true := by
  obtain ⟨rfl,stop,ending⟩ := lexes_exact.mp lexes
  simp only [isEmptyStatement,ending,List.all_eq_true]

theorem empty_answer (lexes : Lexes inputName text w) (quiet : s.showTokens = false)
    (empty : isEmptyStatement text = true) : s.answer text = "" := by
  have rendered := (render_lexes quiet lexes).mpr (prints_empty ((empty_exact lexes).mp empty))
  rw [answer_rendered rendered quiet]
  rfl

end Session

theorem join_take {α : Type} {all : List α} {p : α → Bool} {shown : α → String}
    (early : ∀ x ∈ all.dropLast, p x = true)
    (silent : ∀ x ∈ all, p x = false → shown x = "") :
    String.join ((all.takeWhile p).map shown) = String.join (all.map shown) := by
  induction all with
  | nil => rfl
  | cons x all ih =>
      cases all with
      | nil =>
          cases passes : p x with
          | true => rw [List.takeWhile_cons_of_pos passes,List.takeWhile_nil]
          | false =>
              rw [List.takeWhile_cons_of_neg (by rw [passes]; exact Bool.false_ne_true),List.map_singleton,
                silent x List.mem_cons_self passes]
              rfl
      | cons y all =>
          rw [List.dropLast_cons_cons] at early
          obtain ⟨passes,early⟩ := List.forall_mem_cons.mp early
          rw [List.takeWhile_cons_of_pos passes,List.map_cons,List.map_cons,String.join_cons,String.join_cons,
            ih early fun z member => silent z (List.mem_cons_of_mem x member)]

namespace Session

variable {s : Session}

theorem render_statements (quiet : s.showTokens = false) (lexes : Lexes file text w) (ended : LinesTerminated text w) :
    s.render file text = .ok lines ↔ ∃ parts, s.Renders file (statements text) parts ∧ lines = parts.flatten := by
  rw [render_lexes quiet lexes,← prints_unplaced]
  exact (lexes.parted ended).prints quiet

-- The session stops early only at the last statement, which would not have been answered.
theorem run_answers (quiet : s.showTokens = false) (unprompted : s.prompt = "")
    (lexes : ∀ statement ∈ statements text, ∃ w, Lexes inputName statement w)
    (filled : ∀ statement ∈ (statements text).dropLast,
      ∃ t ∈ (Lexing.ofText inputName statement).tokens, ¬ Language.Terminator t) :
    (s.run text).output = String.join ((statements text).map s.answer) ++ "\n" := by
  have early : ∀ statement ∈ (statements text).dropLast, (!isEmptyStatement statement) = true := by
    intro statement member
    obtain ⟨w,lexed⟩ := lexes statement (List.dropLast_subset _ member)
    obtain ⟨t,inside,other⟩ := filled statement member
    rw [(lexes_exact.mp lexed).1] at inside
    cases empty : isEmptyStatement statement with
    | false => rfl
    | true => exact absurd (Language.terminator_exact.mpr ((empty_exact lexed).mp empty t inside)) other
  have silent : ∀ statement ∈ statements text, (!isEmptyStatement statement) = false → s.answer statement = "" := by
    intro statement member empty
    obtain ⟨w,lexed⟩ := lexes statement member
    exact empty_answer lexed quiet (by simpa using empty)
  rw [run,List.span_eq_takeWhile_dropWhile]
  simp only [unprompted,String.empty_append,String.append_empty]
  rw [join_take early silent]

end Session

-- Where statements end their lines it makes no difference whether a text is read as a whole or
-- statement by statement: the one fails where the other does, and prints the same lines.
theorem session_agrees (text : List Char) (lexes : ∃ all, (Lexing.ofText inputName text).complete = .ok all)
    (ended : LinesTerminated text (Lexing.ofText inputName text).tokens)
    (filled : ∀ statement ∈ (statements text).dropLast,
      ∃ t ∈ (Lexing.ofText inputName statement).tokens, ¬ Language.Terminator t) :
    let s : Session := ⟨"",false⟩
    ((∃ lines, s.render inputName text = .ok lines) ↔
      ∀ statement ∈ statements text, ¬ "Error:".toList <+: (s.evaluate statement).toList) ∧
    ∀ lines, s.render inputName text = .ok lines →
      (s.run text).output = String.join (lines.map (· ++ "\n")) ++ "\n" := by
  intro s
  obtain ⟨all,complete⟩ := lexes
  obtain ⟨stop,ending,_⟩ := map_ok.mp complete
  have whole : Lexes inputName text (Lexing.ofText inputName text).tokens := lexes_exact.mpr ⟨rfl,stop,ending⟩
  have quiet : s.showTokens = false := rfl
  constructor
  · simp only [← Session.evaluate_passes quiet,← Session.renders_exists,Session.render_statements quiet whole ended]
    constructor
    · rintro ⟨_,parts,rendered,_⟩
      exact ⟨parts,rendered⟩
    · rintro ⟨parts,rendered⟩
      exact ⟨_,parts,rendered,rfl⟩
  · intro lines rendered
    obtain ⟨parts,alone,rfl⟩ := (Session.render_statements quiet whole ended).mp rendered
    rw [Session.run_answers quiet rfl (whole.parted ended).lexes filled,alone.answers quiet]

-- The mark in the comment is no terminator.
theorem session_agrees_group :
    let s : Session := ⟨"",false⟩
    let text := "a; # ;\n(b)".toList
    (∀ statement ∈ statements text, ¬ "Error:".toList <+: (s.evaluate statement).toList) ∧
      (s.run text).output = "Parsed: (def anonymous () a)\nParsed: (def anonymous () b)\n\n" := by
  intro s text
  have lexes : (Lexing.ofText inputName text).complete =
    .ok ((Lexing.ofText inputName text).tokens ++ [.endOfInput (some ⟨inputName,2,4,10⟩)]) := by decide +kernel
  have ended : LinesTerminated text (Lexing.ofText inputName text).tokens := by decide +kernel
  have filled : ∀ statement ∈ (statements text).dropLast,
    ∃ t ∈ (Lexing.ofText inputName statement).tokens, ¬ Language.Terminator t := by decide +kernel
  have rendered : s.render inputName text = .ok ["Parsed: (def anonymous () a)","Parsed: (def anonymous () b)"] := by
    decide +kernel
  obtain ⟨agree,output⟩ := session_agrees text ⟨_,lexes⟩ ended filled
  exact ⟨agree.mp ⟨_,rendered⟩,output _ rendered⟩

end KaleidoscopeFrontEnd
