import KaleidoscopeFrontEnd.Proofs.Evaluation
import KaleidoscopeFrontEnd.Proofs.FileRuns
import KaleidoscopeFrontEnd.Proofs.Renaming

namespace KaleidoscopeFrontEnd

-- Lexemes and values are put in quotes, which escape every break, so a token is shown on one line.

theorem hex_unbroken (places n : Nat) : ∀ c ∈ hexPlaces places n, isLineBreak c = false := by
  have digits : ∀ digit < 16, isLineBreak (Nat.digitChar digit) = false := by decide
  induction places generalizing n with
  | zero => exact fun c nothing => absurd nothing List.not_mem_nil
  | succ places ih =>
      intro c member
      rcases List.mem_append.mp member with earlier | last
      · exact ih _ c earlier
      · exact List.mem_singleton.mp last ▸ digits _ (Nat.mod_lt n (by decide))

theorem escape_unbroken (point : Nat) : ∀ c ∈ numericEscape point, isLineBreak c = false := by
  have label : ∀ {letter places}, isLineBreak letter = false →
      ∀ c ∈ '\\' :: letter :: hexPlaces places point, isLineBreak c = false := fun known =>
    List.forall_mem_cons.mpr ⟨by decide,List.forall_mem_cons.mpr ⟨known,hex_unbroken _ point⟩⟩
  unfold numericEscape
  split
  · exact label (by decide)
  · split <;> exact label (by decide)

theorem quoted_char_unbroken (mark : Char) (unbroken : isLineBreak c = false) :
    ∀ d ∈ quotedChar mark c, isLineBreak d = false := by
  have pair : ∀ {d}, isLineBreak d = false → ∀ e ∈ ['\\',d], isLineBreak e = false := fun known =>
    List.forall_mem_cons.mpr ⟨by decide,List.forall_mem_singleton.mpr known⟩
  unfold quotedChar
  split
  · exact pair unbroken
  · repeat' split
    · exact pair (by decide)
    · exact pair (by decide)
    · exact pair (by decide)
    · exact List.forall_mem_singleton.mpr unbroken
    · exact escape_unbroken c.toNat

theorem quoted_unbroken (unbroken : Unbroken text) : Unbroken (quoted text) := by
  have mark : isLineBreak (quoteMark text.toList) = false := by
    unfold quoteMark
    split <;> decide
  intro c member
  rw [quoted,String.toList_ofList,List.mem_append,List.mem_cons,List.mem_flatMap,List.mem_singleton] at member
  rcases member with (rfl | ⟨d,inside,shown⟩) | rfl
  · exact mark
  · exact quoted_char_unbroken _ (unbroken d inside) c shown
  · exact mark

theorem amount_unbroken (m : Magnitude) : Unbroken (Binary64.signed false m).text := by
  intro c member
  rw [Binary64.text,String.toList_ofList] at member
  cases m with
  | infinite =>
      have text : Unbroken "inf" := by decide
      exact text c member
  | finite significand exponent canonical =>
      obtain ⟨r,numeral,_⟩ := chars_numeral canonical
      rcases numeral.shape.2 c member with digit | mark
      · exact (digit_solid digit).unbroken
      · have marks : ['.','e','+','-'].any isLineBreak = false := by decide
        exact eq_false_of_ne_true (List.any_eq_false.mp marks c mark)

theorem Lexeme.unbroken (lexeme : Lexeme w rest kind value) : Unbroken (String.ofList w) := by
  intro c member
  rw [String.toList_ofList] at member
  exact (lexeme.solid c member).unbroken

theorem Lexeme.display_unbroken (lexeme : Lexeme w rest kind (some value)) : Unbroken value.display := by
  have word := lexeme.unbroken
  cases lexeme with
  | identifier => exact quoted_unbroken word
  | number => exact amount_unbroken _
  | operator => exact quoted_unbroken word

theorem Token.Spelled.unbroken {t : Token} (spelled : t.Spelled) : Unbroken t.text := by
  obtain ⟨rest,lexeme⟩ := spelled
  have kind : Unbroken t.kind.name := by cases t.kind <;> decide
  have opening : Unbroken "(" := by decide
  have word := lexeme.unbroken
  rw [String.ofList_toList] at word
  have shown := (kind.append opening).append (quoted_unbroken word)
  unfold Token.text
  split
  · exact kind
  · rename_i value given
    rw [given] at lexeme
    have arrow : Unbroken " -> " := by decide
    have closing : Unbroken ")" := by decide
    split
    · exact shown.append closing
    · exact (shown.append arrow).enclosed lexeme.display_unbroken

namespace Session

theorem token_line_unbroken (spelled : ∀ t ∈ w, t.Spelled) (stop : Token) : Unbroken (tokenLine (w ++ [stop])) := by
  have opening : Unbroken "Lexed: [" := by decide
  have separator : Unbroken ", " := by decide
  have closing : Unbroken "]" := by decide
  rw [tokenLine,List.dropLast_concat]
  refine (opening.append (unbroken_intercalate separator ?_)).append closing
  exact List.forall_mem_map.mpr fun t member => (spelled t member).unbroken

variable {s : Session}

theorem rendered_line (rendered : s.render file source = .ok lines) :
    ∀ line ∈ lines, Unbroken line ∧ ∃ c ∈ line.toList.head?, c ≠ 'E' := by
  obtain ⟨a,analyzed,rfl⟩ := render_exact.mp rendered
  intro line member
  rcases List.mem_append.mp member with first | item
  · split at first
    · cases List.mem_singleton.mp first
      obtain ⟨w,stop,drains,tokens,_⟩ := analysis_exact.mp analyzed
      have spelled : ∀ t ∈ w, t.Spelled := fun t inside => drains.spelled t (List.mem_map_of_mem inside)
      rw [tokens]
      exact ⟨token_line_unbroken spelled stop,'L',by simp [tokenLine],by decide⟩
    · exact absurd first List.not_mem_nil
  · obtain ⟨i,inside,rfl⟩ := List.mem_map.mp item
    obtain ⟨printable,same⟩ := analysis_told analyzed inside
    have unbroken := printable.unbroken
    rw [itemLine,same] at unbroken
    exact ⟨unbroken,'P',by simp [itemLine],by decide⟩

-- So the lines of an answer are those that were printed, and the answer is no report of an error.
theorem rendered_answer (rendered : s.render inputName source = .ok lines) :
    textLines (s.evaluate source) = lines ∧ ¬ "Error:".toList <+: (s.evaluate source).toList := by
  have shown := rendered_line rendered
  rw [evaluate_rendered rendered]
  constructor
  · apply text_lines_joined fun line member => (shown line member).1
    intro empty
    obtain ⟨_,c,first,_⟩ := shown "" empty
    cases first
  · rintro ⟨later,started⟩
    cases lines with
    | nil => exact absurd started (by simp)
    | cons line lines =>
        obtain ⟨_,c,first,other⟩ := shown line List.mem_cons_self
        obtain ⟨front,whole⟩ := List.head?_eq_some_iff.mp first
        obtain ⟨behind,same⟩ := intercalate_first line lines
        rw [same,String.toList_append,whole] at started
        exact other (List.cons.inj started).1.symm

def reported (message : String) (line column : Int) : String :=
  "Error: " ++ message ++ " (at " ++ inputName ++ ":" ++ toString line ++ ":" ++ toString column ++ ")"

theorem failed_answer (failed : s.render inputName source = .error fault) : ∃ line column offset,
    fault.diagnostic.location = some ⟨inputName,line,column,offset⟩ ∧
      s.evaluate source = reported fault.diagnostic.message line column := by
  obtain ⟨offset,wrong⟩ := fault_located (map_error.mp failed)
  refine ⟨_,_,_,wrong.location,?_⟩
  rw [evaluate_failed failed,faultLine,wrong.location]
  unfold reported
  simp only [Location.text,String.append_assoc,place]

end Session

-- A position is read back from the end of a report: no numeral has the separator in it.

theorem last_separator {c : Char} (first : c ∉ s) (second : c ∉ t) (same : w ++ c :: s = v ++ c :: t) : w = v ∧ s = t := by
  rcases List.append_eq_append_iff.mp same with ⟨between,rfl,split⟩ | ⟨between,rfl,split⟩
  · cases between with
    | nil => exact ⟨(List.append_nil w).symm,(List.cons.inj split).2⟩
    | cons d between =>
        obtain ⟨rfl,rfl⟩ := List.cons.inj split
        exact absurd (List.mem_append_right between List.mem_cons_self) first
  · cases between with
    | nil => exact ⟨List.append_nil v,(List.cons.inj split).2.symm⟩
    | cons d between =>
        obtain ⟨rfl,rfl⟩ := List.cons.inj split
        exact absurd (List.mem_append_right between List.mem_cons_self) second

theorem natural_chars (n : Nat) : (toString n).toList = decimalDigits n := by simp [decimalDigits]

theorem integer_chars (n : Int) : ∀ c ∈ (toString n).toList, isDecimalDigit c = true ∨ c = '-' := by
  cases n with
  | ofNat n =>
      intro c member
      exact .inl (decimal_digits n c (natural_chars n ▸ member))
  | negSucc n =>
      intro c member
      change c ∈ ("-" ++ toString (n + 1)).toList at member
      rw [String.toList_append,natural_chars] at member
      rcases List.mem_append.mp member with sign | digit
      · exact .inr (List.mem_singleton.mp sign)
      · exact .inl (decimal_digits _ c digit)

theorem natural_injective {m n : Nat} (same : toString m = toString n) : m = n := by
  have digits := congrArg String.toList same
  rw [natural_chars,natural_chars] at digits
  rw [← decimal_digits_value m,digits,decimal_digits_value]

theorem integer_injective {m n : Int} (same : toString m = toString n) : m = n := by
  have unsigned : ∀ {a b : Nat}, toString a ≠ "-" ++ toString b := by
    intro a b same
    have sign : '-' ∈ (toString a).toList := by
      rw [same,String.toList_append]
      exact List.mem_cons_self
    have digit := decimal_digits a '-' (natural_chars a ▸ sign)
    exact absurd digit (by decide)
  cases m with
  | ofNat a =>
      cases n with
      | ofNat b => exact congrArg Int.ofNat (natural_injective same)
      | negSucc b => exact absurd same unsigned
  | negSucc a =>
      cases n with
      | ofNat b => exact absurd same.symm unsigned
      | negSucc b =>
          have chars := congrArg String.toList same
          change ("-" ++ toString (a + 1)).toList = ("-" ++ toString (b + 1)).toList at chars
          rw [String.toList_append,String.toList_append] at chars
          have digits := String.toList_inj.mp (List.append_cancel_left chars)
          exact congrArg Int.negSucc (Nat.succ.inj (natural_injective digits))

theorem reported_unique (same : Session.reported m l c = Session.reported n k d) : m = n ∧ l = k ∧ c = d := by
  have free : ∀ z : Int, ':' ∉ (toString z).toList := by
    intro z member
    rcases integer_chars z ':' member with digit | sign
    · exact absurd digit (by decide)
    · exact absurd sign (by decide)
  have ended : ∀ z : Int, ':' ∉ (toString z).toList ++ [')'] := by
    intro z member
    rcases List.mem_append.mp member with numeral | last
    · exact free z numeral
    · exact absurd last (by decide)
  have shape : ∀ m l c, (Session.reported m l c).toList = "Error: ".toList ++ m.toList ++ " (at <stdin>".toList ++
      ':' :: (toString l).toList ++ ':' :: ((toString c).toList ++ [')']) := by
    intro m l c
    unfold Session.reported
    simp [inputName]
  have chars := congrArg String.toList same
  rw [shape,shape] at chars
  obtain ⟨front,columns⟩ := last_separator (ended c) (ended d) chars
  obtain ⟨messages,lines⟩ := last_separator (free l) (free k) front
  have message := List.append_cancel_left (List.append_cancel_right messages)
  exact ⟨String.toList_inj.mp message,integer_injective (String.toList_inj.mp lines),
    integer_injective (String.toList_inj.mp (List.append_cancel_right columns))⟩

theorem Journal.text_quiet (file : String) (source : List Char) : (ofText file source).filter Record.isFailure = [] := by
  unfold ofText ofLexing ofItems
  generalize Lexing.ofText file source = lexing
  obtain ⟨tokens,ending,cursor⟩ := lexing
  cases ending <;> simp [Record.isFailure]

namespace CommandLine

theorem run_text_records (s : Settings) (path : String) (source : List Char) :
    (runText s path source).records = Journal.ofText path source := by
  unfold runText
  cases (s.session "").render path source <;> rfl

section

variable {text prompt : String} {files : String → Except ReadFault ByteArray}

theorem readable_run (ordinary : Ordinary path) (flags : ∀ f ∈ before ++ after, f = "--tokens")
    (found : files path = .ok text.toUTF8) (input : List Char) (prompt : String) : ∃ s : Settings,
      (∀ source, (s.session "").render path source = (Session.render ⟨prompt,(before ++ after).contains "--tokens"⟩
        inputName source).mapError (·.inFile path)) ∧
      run (before ++ path :: after) files input = { runText s path (unifyLineEnds text.toList) with records := [] } := by
  have spelled : ∀ f ∈ before ++ after, f ∈ flagSpellings := fun f member => flags f member ▸ List.mem_cons_self
  have missing : ∀ g, g ≠ "--tokens" → (before ++ after).contains g = false := by
    intro g other
    rw [← Bool.not_eq_true,List.contains_iff_mem]
    exact fun member => other (flags g member)
  have quiet : (Settings.initial.flagged (before ++ after)).verbose = false := by
    simp only [Settings.flagged,missing "--verbose" (by decide),missing "-v" (by decide)]
    rfl
  have shown : (Settings.initial.flagged (before ++ after)).showTokens = (before ++ after).contains "--tokens" :=
    Bool.false_or _
  have opened : textOfContent (files path) = .ok (unifyLineEnds text.toList) := by
    rw [found]
    exact text_of_bytes text
  refine ⟨{ Settings.initial.flagged (before ++ after) with file := some path, fileTaken := true },?_,?_⟩
  · intro source
    rw [← Session.render_in_file]
    simp only [Session.render,Settings.session,shown]
  · unfold run
    rw [invocation_file ordinary spelled]
    simp only [runSettings,quiet,runFile,opened,run_text_records,Journal.text_quiet]
    rfl

theorem run_lines (ordinary : Ordinary path) (flags : ∀ f ∈ before ++ after, f = "--tokens") (found : files path = .ok text.toUTF8)
    (input : List Char) (rendered : Session.render ⟨prompt,(before ++ after).contains "--tokens"⟩ inputName
      (unifyLineEnds text.toList) = .ok lines) :
    run (before ++ path :: after) files input = ⟨.returned 0,String.join (lines.map (· ++ "\n")),"",[]⟩ := by
  obtain ⟨settings,alike,ran⟩ := readable_run ordinary flags found input prompt
  rw [ran,runText,alike,rendered]
  rfl

theorem run_report (ordinary : Ordinary path) (flags : ∀ f ∈ before ++ after, f = "--tokens") (found : files path = .ok text.toUTF8)
    (input : List Char) (rendered : Session.render ⟨prompt,(before ++ after).contains "--tokens"⟩ inputName
      (unifyLineEnds text.toList) = .error fault) :
    run (before ++ path :: after) files input = ⟨.returned 1,"",(fault.inFile path).diagnostic.report,[]⟩ := by
  obtain ⟨settings,alike,ran⟩ := readable_run ordinary flags found input prompt
  rw [ran,runText,alike,rendered]
  rfl

end

-- A run on a readable file prints the lines of the answer to its text, or nothing if that is an error, however many
-- items are in front of it; the error that is reported is the same, at the same place of the file.
theorem file_run_answer {text : String} {files : String → Except ReadFault ByteArray} (ordinary : Ordinary path)
    (flags : ∀ f ∈ before ++ after, f = "--tokens") (found : files path = .ok text.toUTF8) (input : List Char) (prompt : String) :
    let s : Session := ⟨prompt,(before ++ after).contains "--tokens"⟩
    let answer := s.evaluate (unifyLineEnds text.toList)
    let outcome := run (before ++ path :: after) files input
    outcome.records = [] ∧
    (¬ "Error:".toList <+: answer.toList → outcome.ending = .returned 0 ∧ outcome.errors = "" ∧
      outcome.output = String.join ((textLines answer).map (· ++ "\n"))) ∧
    ("Error:".toList <+: answer.toList → ∃ message line column, answer = Session.reported message line column) ∧
    ∀ message line column, answer = Session.reported message line column →
      outcome.ending = .returned 1 ∧ outcome.output = "" ∧
        ∃ fault offset, s.render inputName (unifyLineEnds text.toList) = .error fault ∧ fault.diagnostic.message = message ∧
          fault.diagnostic.location = some ⟨inputName,line,column,offset⟩ ∧
          outcome.errors = { fault.diagnostic with location := some ⟨path,line,column,offset⟩ }.report := by
  intro s answer outcome
  have starts : ∀ {message line column}, answer = Session.reported message line column → "Error:".toList <+: answer.toList := by
    intro message line column same
    rw [same]
    unfold Session.reported
    simp
  cases rendered : s.render inputName (unifyLineEnds text.toList) with
  | ok lines =>
      obtain ⟨same,passed⟩ := Session.rendered_answer rendered
      have printed := run_lines ordinary flags found input rendered
      refine ⟨congrArg Outcome.records printed,?_,fun wrong => absurd wrong passed,?_⟩
      · intro _
        rw [show textLines answer = lines from same]
        exact ⟨congrArg Outcome.ending printed,congrArg Outcome.errors printed,congrArg Outcome.output printed⟩
      · intro message line column wrong
        exact absurd (starts wrong) passed
  | error fault =>
      obtain ⟨line,column,offset,located,told⟩ := Session.failed_answer rendered
      have reported := run_report ordinary flags found input rendered
      refine ⟨congrArg Outcome.records reported,?_,fun _ => ⟨_,_,_,told⟩,?_⟩
      · intro passed
        exact absurd (starts told) passed
      · intro message l c same
        obtain ⟨rfl,rfl,rfl⟩ := reported_unique (told.symm.trans same)
        refine ⟨congrArg Outcome.ending reported,congrArg Outcome.output reported,fault,offset,rfl,rfl,located,?_⟩
        refine (congrArg Outcome.errors reported).trans ?_
        rw [Fault.diagnostic_in_file,Diagnostic.inFile,located]
        rfl

theorem file_run_answer_late :
    let folder : Folder := [("b.ks",.file "def f(x) x;\r\n(1 2".toUTF8)]
    Ordinary "b.ks" ∧ (∀ f ∈ ["--tokens"] ++ [], f = "--tokens") ∧ folder.content "b.ks" = .ok "def f(x) x;\r\n(1 2".toUTF8 ∧
      (run ["--tokens","b.ks"] folder.content []).ending = .returned 1 ∧ (run ["--tokens","b.ks"] folder.content []).output = "" ∧
      (run ["--tokens","b.ks"] folder.content []).errors =
        "ERROR[P001]: Expected ')' after expression, found number '2'\n  --> b.ks:2:4\n" := by
  intro folder
  have ordinary : Ordinary "b.ks" := by decide
  have flags : ∀ f ∈ ["--tokens"] ++ [], f = "--tokens" := by decide
  have found : folder.content "b.ks" = .ok "def f(x) x;\r\n(1 2".toUTF8 := by cbv
  have answered : Session.evaluate ⟨"",true⟩ (unifyLineEnds "def f(x) x;\r\n(1 2".toList) =
      Session.reported "Expected ')' after expression, found number '2'" 2 4 := by decide +kernel
  have wrong : (Session.render ⟨"",true⟩ inputName (unifyLineEnds "def f(x) x;\r\n(1 2".toList)) =
      .error (.syntactic (.unexpected .groupClosing ⟨.number,"2",some (.number (.ofLiteral ['2'])),some ⟨inputName,2,4,15⟩⟩)) := by
    decide +kernel
  obtain ⟨_,_,_,failed⟩ := file_run_answer ordinary flags found [] ""
  obtain ⟨ended,silent,fault,offset,rendered,_,located,errors⟩ := failed _ _ _ answered
  cases wrong.symm.trans rendered
  cases located
  refine ⟨ordinary,flags,found,ended,silent,errors.trans ?_⟩
  decide +kernel

end CommandLine

end KaleidoscopeFrontEnd
