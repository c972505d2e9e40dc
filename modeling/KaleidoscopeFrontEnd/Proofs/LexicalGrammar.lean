import KaleidoscopeFrontEnd.Lexing
import KaleidoscopeFrontEnd.Proofs.Layout

namespace KaleidoscopeFrontEnd

-- Facts about the character tables. Each table is searched only where the other one has points.

theorem within_range (inside : within ranges point = true) :
    ∃ range ∈ ranges, range.1 ≤ point ∧ point ≤ range.2 := by
  induction ranges with
  | nil => cases inside
  | cons range ranges ih =>
      simp only [within] at inside
      split at inside
      · cases inside
      · rename_i reached
        rcases Bool.or_eq_true_iff.mp inside with here | later
        · exact ⟨range,List.mem_cons_self,Nat.not_lt.mp reached,of_decide_eq_true here⟩
        · obtain ⟨found,member,bounds⟩ := ih later
          exact ⟨found,List.mem_cons_of_mem range member,bounds⟩

theorem blank_outside (ranges : List (Nat × Nat))
    (apart : ∀ range ∈ blankRanges, ∀ point ∈ List.range' range.1 (range.2 + 1 - range.1), within ranges point = false)
    (blank : isBlank c = true) : within ranges c.toNat = false := by
  obtain ⟨range,member,low,high⟩ := within_range blank
  exact apart range member c.toNat (List.mem_range'_1.mpr ⟨low,by omega⟩)

theorem blank_not_letter (blank : isBlank c = true) : isLetter c = false :=
  blank_outside letterRanges (by decide +kernel) blank

theorem blank_not_numeral (blank : isBlank c = true) : isNumeral c = false :=
  blank_outside numeralRanges (by decide +kernel) blank

theorem letter_beyond (letter : isLetter c = true) : 65 ≤ c.toNat := by
  have none : ∀ point < 65, within letterRanges point = false := by decide +kernel
  refine Nat.not_lt.mp fun below => ?_
  rw [isLetter,none c.toNat below] at letter
  cases letter

theorem decimal_digit_exact : isDecimalDigit c = true ↔ 48 ≤ c.toNat ∧ c.toNat ≤ 57 := by
  simp only [isDecimalDigit,Bool.and_eq_true,decide_eq_true_eq,Char.le_def,UInt32.le_iff_toNat_le]
  rfl

theorem ascii_numeral_digit (numeral : isNumeral c = true) (ascii : c.toNat < 128) : isDecimalDigit c = true := by
  have only : ∀ point < 128, within numeralRanges point = true → 48 ≤ point ∧ point ≤ 57 := by decide +kernel
  exact decimal_digit_exact.mpr (only c.toNat ascii numeral)

theorem digit_numeral (digit : isDecimalDigit c = true) : isNumeral c = true := by
  have all : ∀ point < 58, 48 ≤ point → within numeralRanges point = true := by decide
  obtain ⟨low,high⟩ := decimal_digit_exact.mp digit
  exact all c.toNat (by omega) low

theorem digit_not_letter (digit : isDecimalDigit c = true) : isLetter c = false := by
  have bounds := decimal_digit_exact.mp digit
  cases letter : isLetter c with
  | false => rfl
  | true => exact absurd (letter_beyond letter) (by omega)

theorem letter_solid (letter : isLetter c = true) : Solid c := by
  constructor
  · cases blank : isBlank c with
    | false => rfl
    | true => rw [blank_not_letter blank] at letter; cases letter
  · rintro rfl
    exact absurd (letter_beyond letter) (by decide)

theorem literal_solid (literal : isLiteralChar c = true) : Solid c := by
  rcases Bool.or_eq_true_iff.mp literal with numeral | point
  · constructor
    · cases blank : isBlank c with
      | false => rfl
      | true => rw [blank_not_numeral blank] at numeral; cases numeral
    · rintro rfl
      have foreign : isNumeral '#' = false := by decide +kernel
      rw [foreign] at numeral
      cases numeral
  · rw [eq_of_beq point]
    exact ⟨by decide,by decide⟩

theorem digit_solid (digit : isDecimalDigit c = true) : Solid c := by
  refine literal_solid ?_
  rw [isLiteralChar,digit_numeral digit,Bool.true_or]

structure Longest (p : Char → Bool) (w rest : List Char) : Prop where
  inside : ∀ c ∈ w, p c = true
  ends : ∀ c ∈ rest.head?, p c = false

theorem longest_take (p : Char → Bool) (text : List Char) : Longest p (text.takeWhile p) (text.dropWhile p) := by
  refine ⟨fun c => List.mem_takeWhile_imp,?_⟩
  intro c first
  have stopped := List.head?_dropWhile_not p text
  rw [Option.mem_def.mp first] at stopped
  exact eq_false_of_ne_true (by simpa using stopped)

theorem Longest.taken (run : Longest p w rest) :
    (w ++ rest).takeWhile p = w ∧ (w ++ rest).dropWhile p = rest := by
  rw [List.takeWhile_append_of_pos run.inside,List.dropWhile_append_of_pos run.inside]
  cases rest with
  | nil => simp
  | cons c rest =>
      have stops : ¬ p c = true := by rw [run.ends c rfl]; exact Bool.false_ne_true
      rw [List.takeWhile_cons_of_neg stops,List.dropWhile_cons_of_neg stops,List.append_nil]
      exact ⟨rfl,rfl⟩

def Decimal (w : List Char) : Prop :=
  ∃ whole, whole ≠ [] ∧ (∀ c ∈ whole, isDecimalDigit c = true) ∧
    (w = whole ∨ ∃ fraction, (∀ c ∈ fraction, isDecimalDigit c = true) ∧ w = whole ++ '.' :: fraction)

-- The lexemes, each with the text behind it. Keywords are words like any other; whatever starts no other lexeme is an
-- operator of one character.
inductive Lexeme : List Char → List Char → TokenKind → Option TokenValue → Prop where
  | definition (word : Longest isLetter ['d','e','f'] rest) : Lexeme ['d','e','f'] rest .definition none
  | external (word : Longest isLetter ['e','x','t','e','r','n'] rest) :
      Lexeme ['e','x','t','e','r','n'] rest .external none
  | identifier (nonempty : w ≠ []) (word : Longest isLetter w rest) (definition : w ≠ ['d','e','f'])
      (external : w ≠ ['e','x','t','e','r','n']) :
      Lexeme w rest .identifier (some (.text (String.ofList w)))
  | number (run : Longest isLiteralChar w rest) (form : Decimal w) :
      Lexeme w rest .number (some (.number (.ofLiteral w)))
  | opening : Lexeme ['('] rest .openParen none
  | closing : Lexeme [')'] rest .closeParen none
  | comma : Lexeme [','] rest .comma none
  | operator (solid : Solid c) (letter : isLetter c = false) (digit : isDecimalDigit c = false)
      (other : c ∉ ['(',')',',']) : Lexeme [c] rest .operator (some (.text (String.ofList [c])))

-- A literal that is no number: a numeral of another script took part in it, or a second point.
structure Malformed (w rest : List Char) : Prop where
  starts : ∃ d ∈ w.head?, isDecimalDigit d = true
  run : Longest isLiteralChar w rest
  broken : (∃ c ∈ w, 128 ≤ c.toNat) ∨ 2 ≤ w.count '.'

theorem point_not_digit : isDecimalDigit '.' = false := by decide

theorem Decimal.starts (form : Decimal w) : ∃ d later, w = d :: later ∧ isDecimalDigit d = true := by
  obtain ⟨whole,nonempty,digits,form⟩ := form
  cases whole with
  | nil => exact absurd rfl nonempty
  | cons d whole =>
      have digit := digits d List.mem_cons_self
      rcases form with rfl | ⟨fraction,_,rfl⟩
      · exact ⟨d,whole,rfl,digit⟩
      · exact ⟨d,whole ++ '.' :: fraction,rfl,digit⟩

theorem number_literal_exact : isNumberLiteral w = true ↔ (∀ c ∈ w, c.toNat < 128) ∧ w.count '.' ≤ 1 := by
  simp only [isNumberLiteral,Bool.and_eq_true,List.all_eq_true,decide_eq_true_eq]

theorem not_number_literal : isNumberLiteral w = false ↔ (∃ c ∈ w, 128 ≤ c.toNat) ∨ 2 ≤ w.count '.' := by
  rw [← Bool.not_eq_true,number_literal_exact,not_and_or]
  simp only [not_forall,Nat.not_lt,Nat.not_le,exists_prop]
  rfl

theorem digits_no_point {w : List Char} (digits : ∀ c ∈ w, isDecimalDigit c = true) : w.count '.' = 0 := by
  refine List.count_eq_zero.mpr fun member => ?_
  have digit := digits '.' member
  rw [point_not_digit] at digit
  cases digit

theorem decimal_literal (form : Decimal w) : isNumberLiteral w = true := by
  have small : ∀ {v : List Char}, (∀ c ∈ v, isDecimalDigit c = true) → ∀ c ∈ v, c.toNat < 128 := by
    intro v digits c member
    have bounds := decimal_digit_exact.mp (digits c member)
    omega
  obtain ⟨whole,_,digits,rfl | ⟨fraction,places,rfl⟩⟩ := form
  · exact number_literal_exact.mpr ⟨small digits,by rw [digits_no_point digits]; decide⟩
  · refine number_literal_exact.mpr ⟨?_,?_⟩
    · intro c member
      rcases List.mem_append.mp member with before | behind
      · exact small digits c before
      · rcases List.mem_cons.mp behind with rfl | behind
        · decide
        · exact small places c behind
    · rw [List.count_append,List.count_cons_self,digits_no_point digits,digits_no_point places]

theorem literal_decimal (inside : ∀ c ∈ w, isLiteralChar c = true)
    (starts : ∃ d ∈ w.head?, isDecimalDigit d = true) (literal : isNumberLiteral w = true) : Decimal w := by
  obtain ⟨ascii,points⟩ := number_literal_exact.mp literal
  have digits : ∀ c ∈ w, c ≠ '.' → isDecimalDigit c = true := by
    intro c member other
    have numeral : isNumeral c = true := by
      simpa [isLiteralChar,other] using inside c member
    exact ascii_numeral_digit numeral (ascii c member)
  obtain ⟨d,first,digit⟩ := starts
  by_cases point : '.' ∈ w
  · obtain ⟨whole,fraction,rfl,none⟩ := List.eq_append_cons_of_mem point
    have last : '.' ∉ fraction := by
      rw [List.count_append,List.count_cons_self] at points
      exact List.count_eq_zero.mp (by omega)
    refine ⟨whole,?_,?_,.inr ⟨fraction,?_,rfl⟩⟩
    · rintro rfl
      cases first
      rw [point_not_digit] at digit
      cases digit
    · intro c member
      refine digits c (List.mem_append_left _ member) ?_
      rintro rfl
      exact none member
    · intro c member
      refine digits c (List.mem_append_right _ (List.mem_cons_of_mem _ member)) ?_
      rintro rfl
      exact last member
  · refine ⟨w,?_,?_,.inl rfl⟩
    · rintro rfl
      cases first
    · intro c member
      refine digits c member ?_
      rintro rfl
      exact point member

theorem prolongs_letter (letter : isLetter first = true) : prolongs first = isLetter := by
  funext c
  simp only [prolongs,letter,if_true]

theorem prolongs_digit (digit : isDecimalDigit first = true) : prolongs first = isLiteralChar := by
  funext c
  simp only [prolongs,digit_not_letter digit,Bool.false_eq_true,if_false,digit,Bool.true_and]

theorem prolongs_other (letter : isLetter first = false) (digit : isDecimalDigit first = false) :
    prolongs first = fun _ => false := by
  funext c
  simp only [prolongs,letter,Bool.false_eq_true,if_false,digit,Bool.false_and]

theorem longest_nothing (rest : List Char) : Longest (fun _ => false) [] rest :=
  ⟨fun _ member => absurd member List.not_mem_nil,fun _ _ => rfl⟩

theorem no_punctuation (other : c ∉ ['(',')',',']) : punctuation.lookup c = none := by
  simp only [List.mem_cons,List.not_mem_nil,or_false,not_or] at other
  obtain ⟨opening,closing,comma⟩ := other
  simp only [punctuation,List.lookup_cons,List.lookup_nil,beq_eq_false_iff_ne.mpr opening,beq_eq_false_iff_ne.mpr closing,
    beq_eq_false_iff_ne.mpr comma]

theorem no_keyword (definition : w ≠ ['d','e','f']) (external : w ≠ ['e','x','t','e','r','n']) :
    keywords.lookup (String.ofList w) = none := by
  have differs : ∀ text : String, w ≠ text.toList → (String.ofList w == text) = false := by
    intro text other
    refine beq_eq_false_iff_ne.mpr ?_
    rintro rfl
    exact other String.toList_ofList.symm
  simp only [keywords,List.lookup_cons,List.lookup_nil,differs "def" definition,differs "extern" external]

def Reads (w rest : List Char) (result : Option (TokenKind × Option TokenValue)) : Prop :=
  ∃ first later, w = first :: later ∧ Solid first ∧ Longest (prolongs first) later rest ∧
    classify first w = result

theorem Longest.tail (run : Longest p (c :: w) rest) : Longest p w rest :=
  ⟨fun d member => run.inside d (List.mem_cons_of_mem c member),run.ends⟩

theorem word_reads (nonempty : w ≠ []) (word : Longest isLetter w rest) :
    Reads w rest (some (match keywords.lookup (String.ofList w) with
      | some kind => (kind,none)
      | none => (.identifier,some (.text (String.ofList w))))) := by
  cases w with
  | nil => exact absurd rfl nonempty
  | cons first later =>
      have letter := word.inside first List.mem_cons_self
      have beyond := letter_beyond letter
      have other : first ∉ ['(',')',','] := by
        intro listed
        simp only [List.mem_cons,List.not_mem_nil,or_false] at listed
        rcases listed with rfl | rfl | rfl <;> exact absurd beyond (by decide)
      refine ⟨first,later,rfl,letter_solid letter,?_,?_⟩
      · rw [prolongs_letter letter]
        exact word.tail
      · simp only [classify,no_punctuation other,letter,if_true]
        cases keywords.lookup (String.ofList (first :: later)) <;> rfl

theorem literal_reads (starts : ∃ d ∈ w.head?, isDecimalDigit d = true) (run : Longest isLiteralChar w rest) :
    Reads w rest (if isNumberLiteral w then some (.number,some (.number (.ofLiteral w))) else none) := by
  obtain ⟨first,head,digit⟩ := starts
  cases w with
  | nil => cases head
  | cons d later =>
      cases head
      have other : first ∉ ['(',')',','] := by
        intro listed
        simp only [List.mem_cons,List.not_mem_nil,or_false] at listed
        rcases listed with rfl | rfl | rfl <;> exact absurd digit (by decide)
      refine ⟨first,later,rfl,digit_solid digit,?_,?_⟩
      · rw [prolongs_digit digit]
        exact run.tail
      · simp only [classify,no_punctuation other,digit_not_letter digit,Bool.false_eq_true,if_false,digit,if_true]

theorem single_reads (solid : Solid c) (letter : isLetter c = false) (digit : isDecimalDigit c = false)
    (rest : List Char) : Reads [c] rest (some (match punctuation.lookup c with
      | some kind => (kind,none)
      | none => (.operator,some (.text (String.ofList [c]))))) := by
  refine ⟨c,[],rfl,solid,?_,?_⟩
  · rw [prolongs_other letter digit]
    exact longest_nothing rest
  · simp only [classify,letter,digit,Bool.false_eq_true,if_false]
    cases punctuation.lookup c <;> rfl

theorem lexeme_reads (lexeme : Lexeme w rest kind value) : Reads w rest (some (kind,value)) := by
  cases lexeme with
  | definition word => exact word_reads (by decide) word
  | external word => exact word_reads (by decide) word
  | identifier nonempty word definition external =>
      have reads := word_reads nonempty word
      rwa [no_keyword definition external] at reads
  | number run form =>
      obtain ⟨d,later,rfl,digit⟩ := form.starts
      have reads := literal_reads ⟨d,rfl,digit⟩ run
      rwa [if_pos (decimal_literal form)] at reads
  | opening | closing | comma => exact single_reads (by unfold Solid; decide) (by decide) (by decide) rest
  | operator solid letter digit other =>
      have reads := single_reads solid letter digit rest
      rwa [no_punctuation other] at reads

theorem malformed_reads (malformed : Malformed w rest) : Reads w rest none := by
  have reads := literal_reads malformed.starts malformed.run
  rwa [not_number_literal.mpr malformed.broken] at reads

theorem word_lexeme (nonempty : w ≠ []) (word : Longest isLetter w rest) : ∃ kind value, Lexeme w rest kind value := by
  by_cases definition : w = ['d','e','f']
  · subst definition
    exact ⟨_,_,.definition word⟩
  · by_cases external : w = ['e','x','t','e','r','n']
    · subst external
      exact ⟨_,_,.external word⟩
    · exact ⟨_,_,.identifier nonempty word definition external⟩

theorem literal_lexeme (starts : ∃ d ∈ w.head?, isDecimalDigit d = true) (run : Longest isLiteralChar w rest) :
    (∃ kind value, Lexeme w rest kind value) ∨ Malformed w rest := by
  cases literal : isNumberLiteral w with
  | true => exact .inl ⟨_,_,.number run (literal_decimal run.inside starts literal)⟩
  | false => exact .inr ⟨starts,run,not_number_literal.mp literal⟩

theorem single_lexeme (solid : Solid c) (letter : isLetter c = false) (digit : isDecimalDigit c = false)
    (rest : List Char) : ∃ kind value, Lexeme [c] rest kind value := by
  by_cases listed : c ∈ ['(',')',',']
  · simp only [List.mem_cons,List.not_mem_nil,or_false] at listed
    rcases listed with rfl | rfl | rfl
    · exact ⟨_,_,.opening⟩
    · exact ⟨_,_,.closing⟩
    · exact ⟨_,_,.comma⟩
  · exact ⟨_,_,.operator solid letter digit listed⟩

-- The lexical grammar leaves nothing over: what is not layout is a lexeme or a literal that is no
-- number.
theorem solid_lexeme (solid : Solid first) (later : List Char) : ∃ w rest, first :: later = w ++ rest ∧
    ((∃ kind value, Lexeme w rest kind value) ∨ Malformed w rest) := by
  cases letter : isLetter first with
  | true =>
      have run := longest_take isLetter (first :: later)
      rw [List.takeWhile_cons_of_pos letter] at run
      refine ⟨_,_,?_,.inl (word_lexeme (List.cons_ne_nil _ _) run)⟩
      rw [← List.takeWhile_cons_of_pos letter,List.takeWhile_append_dropWhile]
  | false =>
      cases digit : isDecimalDigit first with
      | true =>
          have prolongs : isLiteralChar first = true := by
            rw [isLiteralChar,digit_numeral digit,Bool.true_or]
          have run := longest_take isLiteralChar (first :: later)
          rw [List.takeWhile_cons_of_pos prolongs] at run
          refine ⟨_,_,?_,literal_lexeme ⟨first,rfl,digit⟩ run⟩
          rw [← List.takeWhile_cons_of_pos prolongs,List.takeWhile_append_dropWhile]
      | false => exact ⟨[first],later,rfl,.inl (single_lexeme solid letter digit later)⟩

namespace Cursor

variable {c : Cursor}

theorem past_append (c : Cursor) (w v between rest : List Char) :
    (c.past w between).past v rest = c.past (w ++ v) rest := by
  simp only [past,Position.past,List.foldl_append]

inductive Pull (c : Cursor) : LexicalEvent → Cursor → Prop where
  | last (final : FinalLayout c.rest) : Pull c (.ok (c.past c.rest []).endToken) (c.past c.rest [])
  | token (split : c.rest = g ++ w ++ later) (layout : Layout g) (lexeme : Lexeme w later kind value) :
      Pull c (.ok ⟨kind,String.ofList w,value,some (c.past g (w ++ later)).location⟩) (c.past (g ++ w) later)
  | malformed (split : c.rest = g ++ w ++ later) (layout : Layout g) (broken : Malformed w later) :
      Pull c (.error ⟨String.ofList w,some (c.past g (w ++ later)).location⟩) (c.past (g ++ w) later)

theorem next_final (final : FinalLayout c.rest) :
    c.next = (.ok (c.past c.rest []).endToken,c.past c.rest []) := by
  have there : c.skipLayout = c.past c.rest [] := by rw [skipLayout,split_final_layout final]
  rw [next,there]
  rfl

def delivered (w : List Char) (location : Location) : Option (TokenKind × Option TokenValue) → LexicalEvent
  | some (kind,value) => .ok ⟨kind,String.ofList w,value,some location⟩
  | none => .error ⟨String.ofList w,some location⟩

theorem next_reads (split : c.rest = g ++ w ++ later) (layout : Layout g) (reads : Reads w later result) :
    c.next = (delivered w (c.past g (w ++ later)).location result,c.past (g ++ w) later) := by
  obtain ⟨first,tail,rfl,solid,run,classified⟩ := reads
  obtain ⟨taken,dropped⟩ := run.taken
  have there : c.skipLayout = c.past g (first :: (tail ++ later)) := by
    rw [skipLayout,split,List.append_assoc,List.cons_append,split_layout_solid layout solid]
  have here : c.next = (c.past g (first :: (tail ++ later))).lexemeAt first (tail ++ later) := by
    rw [next,there]
    rfl
  rw [here,lexemeAt,taken,dropped,classified,past_append]
  cases result <;> rfl

theorem pull_exists (c : Cursor) : ∃ event after, Pull c event after := by
  rcases layout_then_solid c.rest with final | ⟨g,first,later,split,layout,solid⟩
  · exact ⟨_,_,.last final⟩
  · obtain ⟨w,rest,here,⟨kind,value,lexeme⟩ | broken⟩ := solid_lexeme solid later
    · exact ⟨_,_,.token (by rw [split,here,List.append_assoc]) layout lexeme⟩
    · exact ⟨_,_,.malformed (by rw [split,here,List.append_assoc]) layout broken⟩

theorem Pull.next (pull : Pull c event after) : c.next = (event,after) := by
  cases pull with
  | last final => exact next_final final
  | token split layout lexeme => exact next_reads split layout (lexeme_reads lexeme)
  | malformed split layout broken => exact next_reads split layout (malformed_reads broken)

theorem next_exact : c.next = (event,after) ↔ Pull c event after := by
  constructor
  · intro pulled
    obtain ⟨event,after,pull⟩ := pull_exists c
    cases pull.next.symm.trans pulled
    exact pull
  · exact Pull.next

end Cursor

end KaleidoscopeFrontEnd
