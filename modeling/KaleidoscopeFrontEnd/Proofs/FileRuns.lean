import KaleidoscopeFrontEnd.CommandLine.Run
import KaleidoscopeFrontEnd.Proofs.MachineRuns
import Mathlib

namespace KaleidoscopeFrontEnd

-- A file holds a text if its bytes are those of some text, and that is then the only one.

theorem decoded_exact (bytes : ByteArray) (text : String) : String.fromUTF8? bytes = some text ↔ text.toUTF8 = bytes := by
  unfold String.fromUTF8?
  constructor
  · intro decoded
    split at decoded
    · cases decoded
      rfl
    · cases decoded
  · rintro rfl
    exact dif_pos text.isValidUTF8

theorem text_of_bytes (text : String) : textOfBytes text.toUTF8 = .ok (unifyLineEnds text.toList) := by
  rw [textOfBytes,(decoded_exact _ text).mpr rfl]

theorem no_text_of_bytes (foreign : ∀ text : String, text.toUTF8 ≠ bytes) : textOfBytes bytes = .error .notText := by
  unfold textOfBytes
  cases decoded : String.fromUTF8? bytes with
  | none => rfl
  | some text => exact absurd ((decoded_exact bytes text).mp decoded) (foreign text)

namespace Folder

theorem find_refused {place : List String} (failed : find folder path place names = .error fault) : fault.isRefusal = true := by
  induction names generalizing place with
  | nil =>
      unfold find at failed
      split at failed <;> cases failed
      rfl
  | cons step later ih =>
      unfold find at failed
      split at failed
      · cases failed; rfl
      · cases failed; rfl
      · split at failed
        · exact ih failed
        · split at failed
          · cases failed; rfl
          · exact ih failed

theorem content_refused (failed : content folder path = .error fault) :
    fault.isRefusal = true ∧ '\x00' ∉ path.toList ∨ fault = .nullInPath ∧ '\x00' ∈ path.toList := by
  unfold content at failed
  split at failed
  · rename_i null
    cases failed
    exact .inr ⟨rfl,List.contains_iff_mem.mp null⟩
  · rename_i plain
    refine .inl ⟨?_,fun null => plain (List.contains_iff_mem.mpr null)⟩
    split at failed
    · cases failed; rfl
    · split at failed
      · cases failed; rfl
      · split at failed
        · rename_i other found
          cases failed
          exact find_refused found
        · cases failed; rfl
        · split at failed <;> cases failed
          rfl

end Folder

namespace CommandLine

def flagSpellings : List String := ["--tokens","--verbose","-v"]

def flagOption (flag : String) : CommandOption := if flag = "--tokens" then .tokens else .verbose

def flagArgument (flag : String) : Argument :=
  if isLong flag then .long (flagOption flag) none else .letters (flagOption flag) none

-- A name that no option is spelled like.
def Ordinary (path : String) : Prop := path.toList.head? ≠ some '-'

instance (path : String) : Decidable (Ordinary path) := inferInstanceAs (Decidable (¬ _))

theorem flag_cases (flag : f ∈ flagSpellings) : f = "--tokens" ∨ f = "--verbose" ∨ f = "-v" := by
  simpa [flagSpellings] using flag

theorem classify_flag (flag : f ∈ flagSpellings) : classify f = .ok (flagArgument f) ∧ f ≠ separator := by
  rcases flag_cases flag with rfl | rfl | rfl <;> exact ⟨rfl,by decide⟩

theorem interpret_flag (f : String) (s : Settings) (left : List String) (later : List Argument) :
    interpret s left (flagArgument f :: later) = interpret (s.set (flagOption f)) left later := by
  unfold flagArgument flagOption
  split <;> split <;> simp [interpret,Settings.setAll]

theorem classify_ordinary (ordinary : Ordinary path) : classify path = .ok (.plain path) ∧ path ≠ separator := by
  have dashes : ∀ entry ∈ CommandOption.spellings, entry.1.toList.head? = some '-' := by decide
  have unlisted : CommandOption.spellings.lookup path = none := by
    rw [List.lookup_eq_none_iff]
    intro entry member
    refine bne_iff_ne.mpr ?_
    rintro rfl
    exact ordinary (dashes entry member)
  constructor
  · unfold classify
    rw [unlisted]
    dsimp only
    split
    · rename_i second later chars
      exact absurd (by rw [chars]; rfl) ordinary
    · rfl
  · intro same
    subst same
    exact ordinary (by decide)

theorem classify_all_cons (first : classify argument = .ok a) (other : argument ≠ separator)
    (behind : classifyAll later = .ok all) : classifyAll (argument :: later) = .ok (a :: all) := by
  rw [classifyAll,if_neg other,first,behind]
  rfl

theorem classify_flags (flags : ∀ f ∈ w, f ∈ flagSpellings) (behind : classifyAll later = .ok all) :
    classifyAll (w ++ later) = .ok (w.map flagArgument ++ all) := by
  induction w with
  | nil => exact behind
  | cons f w ih =>
      obtain ⟨flag,others⟩ := List.forall_mem_cons.mp flags
      obtain ⟨classified,other⟩ := classify_flag flag
      exact classify_all_cons classified other (ih others)

def Settings.flagged (s : Settings) (flags : List String) : Settings :=
  { s with
    showTokens := s.showTokens || flags.contains "--tokens"
    verbose := s.verbose || flags.contains "--verbose" || flags.contains "-v" }

theorem set_flagged (flag : f ∈ flagSpellings) (s : Settings) (w : List String) :
    (s.set (flagOption f)).flagged w = s.flagged (f :: w) := by
  rcases flag_cases flag with rfl | rfl | rfl <;>
    simp [Settings.flagged,Settings.set,flagOption,Bool.or_assoc,Bool.or_comm]

theorem interpret_flags (flags : ∀ f ∈ w, f ∈ flagSpellings) (s : Settings) (left : List String) (later : List Argument) :
    interpret s left (w.map flagArgument ++ later) = interpret (s.flagged w) left later := by
  induction w generalizing s with
  | nil => simp [Settings.flagged]
  | cons f w ih =>
      obtain ⟨flag,others⟩ := List.forall_mem_cons.mp flags
      rw [List.map_cons,List.cons_append,interpret_flag f,ih others,set_flagged flag]

theorem interpret_file (free : s.fileTaken = false) (later : ∀ a ∈ rest.head?, a ≠ .separator) (left : List String) :
    interpret s left (.plain path :: rest) = interpret { s with file := some path, fileTaken := true } left rest := by
  cases rest with
  | nil => simp [interpret,free]
  | cons a rest =>
      cases a with
      | separator => exact absurd rfl (later _ rfl)
      | plain | long | letters | unknown => simp [interpret,free]

theorem flagged_parts (s : Settings) (path : String) (before after : List String) :
    Settings.flagged { s.flagged before with file := some path, fileTaken := true } after =
      { s.flagged (before ++ after) with file := some path, fileTaken := true } := by
  simp [Settings.flagged,Bool.or_assoc,Bool.or_left_comm]

-- Among such flags an ordinary name is the file, wherever it stands.
theorem invocation_file (ordinary : Ordinary path) (flags : ∀ f ∈ before ++ after, f ∈ flagSpellings) :
    invocation (before ++ path :: after) =
      .run { Settings.initial.flagged (before ++ after) with file := some path, fileTaken := true } := by
  obtain ⟨front,back⟩ := List.forall_mem_append.mp flags
  obtain ⟨classified,other⟩ := classify_ordinary ordinary
  have nothing : classifyAll [] = .ok [] := rfl
  have behind := classify_flags back nothing
  rw [List.append_nil] at behind
  have whole := classify_flags front (classify_all_cons classified other behind)
  have flag : ∀ a ∈ (after.map flagArgument ++ []).head?, a ≠ .separator := by
    intro a first
    obtain ⟨f,_,rfl⟩ := List.mem_map.mp (List.mem_of_mem_head? (List.append_nil (after.map flagArgument) ▸ first))
    unfold flagArgument
    split <;> exact Argument.noConfusion
  unfold invocation
  rw [whole]
  dsimp only
  rw [interpret_flags front,interpret_file rfl flag,interpret_flags back,flagged_parts]
  simp [interpret]

theorem file_ending (ordinary : Ordinary path) (flags : ∀ f ∈ before ++ after, f ∈ flagSpellings)
    (files : String → Except ReadFault ByteArray) (input : List Char) :
    ∃ s, (run (before ++ path :: after) files input).ending = (runFile s path (files path)).ending := by
  unfold run
  rw [invocation_file ordinary flags]
  exact ⟨_,rfl⟩

def textStatus (path : String) (source : List Char) : Nat :=
  match Analysis.ofText path source with
  | .ok _ => 0
  | .error _ => 1

theorem run_text_ending (s : Settings) (path : String) (source : List Char) :
    (runText s path source).ending = .returned (textStatus path source) := by
  unfold runText Session.render textStatus
  cases Analysis.ofText path source <;> rfl

theorem refused_ending (s : Settings) (path : String) (refused : fault.isRefusal = true) :
    (runFile s path (.error fault)).ending = .returned 1 := by
  simp only [runFile,textOfContent,Except.bind,refused,if_true]

theorem text_ending (s : Settings) (path text : String) :
    (runFile s path (.ok text.toUTF8)).ending = .returned (textStatus path (unifyLineEnds text.toList)) := by
  rw [← run_text_ending s]
  simp only [runFile,textOfContent,Except.bind,text_of_bytes]

theorem foreign_ending (s : Settings) (path : String) (foreign : ∀ text : String, text.toUTF8 ≠ bytes) :
    (runFile s path (.ok bytes)).ending = .unhandled (.read .notText) := by
  simp only [runFile,textOfContent,Except.bind,no_text_of_bytes foreign]
  rfl

-- A run on a file returns zero if the file is read to its end as a program, and one if it is not or cannot be opened.
-- A file that is no text is no fault of the system's: nothing handles that one, and the run does not return.
theorem file_run_status (folder : Folder) (ordinary : Ordinary path)
    (flags : ∀ f ∈ before ++ after, f ∈ flagSpellings) (input : List Char) :
    let ending := (run (before ++ path :: after) folder.content input).ending
    (∀ fault, folder.content path = .error fault →
      ending = if '\x00' ∈ path.toList then .unhandled (.read .nullInPath) else .returned 1) ∧
    ∀ bytes, folder.content path = .ok bytes →
      (∀ text : String, text.toUTF8 = bytes → ending = .returned (textStatus path (unifyLineEnds text.toList))) ∧
      ((∀ text : String, text.toUTF8 ≠ bytes) → ending = .unhandled (.read .notText)) := by
  intro ending
  obtain ⟨s,same⟩ := file_ending ordinary flags folder.content input
  refine ⟨?_,?_⟩
  · intro fault failed
    change (run _ _ _).ending = _
    rw [same,failed]
    rcases Folder.content_refused failed with ⟨refused,plain⟩ | ⟨rfl,null⟩
    · rw [if_neg plain]
      exact refused_ending s path refused
    · rw [if_pos null]
      rfl
  · intro bytes found
    change (∀ text : String, _ → (run _ _ _).ending = _) ∧ (_ → (run _ _ _).ending = _)
    rw [same,found]
    refine ⟨?_,foreign_ending s path⟩
    rintro text rfl
    exact text_ending s path text

theorem file_run_status_incomplete :
    let folder : Folder := [("b.ks",.file "f(1".toUTF8)]
    Ordinary "b.ks" ∧ (∀ f ∈ ["--tokens"] ++ ["-v"], f ∈ flagSpellings) ∧ folder.content "b.ks" = .ok "f(1".toUTF8 ∧
      (run ["--tokens","b.ks","-v"] folder.content []).ending = .returned 1 := by
  intro folder
  have ordinary : Ordinary "b.ks" := by decide
  have flags : ∀ f ∈ ["--tokens"] ++ ["-v"], f ∈ flagSpellings := by decide
  have found : folder.content "b.ks" = .ok "f(1".toUTF8 := by cbv
  have wrong : textStatus "b.ks" (unifyLineEnds "f(1".toList) = 1 := by decide +kernel
  have ended := ((file_run_status folder ordinary flags []).2 _ found).1 "f(1" rfl
  rw [wrong] at ended
  exact ⟨ordinary,flags,found,ended⟩

-- One byte that starts no character is enough.
theorem file_run_escapes :
    let folder : Folder := [("b.ks",.file ⟨#[0xff]⟩)]
    Ordinary "b.ks" ∧ ∀ status, (run ["b.ks"] folder.content []).ending ≠ .returned status := by
  intro folder
  have ordinary : Ordinary "b.ks" := by decide
  have found : folder.content "b.ks" = .ok ⟨#[0xff]⟩ := by cbv
  have undecoded : String.fromUTF8? ⟨#[0xff]⟩ = none := by decide +kernel
  have foreign : ∀ text : String, text.toUTF8 ≠ ⟨#[0xff]⟩ := by
    intro text encoded
    rw [(decoded_exact _ text).mpr encoded] at undecoded
    cases undecoded
  have flags : ∀ f ∈ [] ++ [], f ∈ flagSpellings := by decide
  obtain ⟨s,same⟩ := file_ending ordinary flags folder.content []
  refine ⟨ordinary,?_⟩
  intro status returned
  have ended := same.symm.trans returned
  rw [found,foreign_ending s "b.ks" foreign] at ended
  cases ended

end CommandLine

end KaleidoscopeFrontEnd
