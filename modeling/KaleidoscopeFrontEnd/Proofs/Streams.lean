import KaleidoscopeFrontEnd.Grammar.Program
import KaleidoscopeFrontEnd.Proofs.MachineRuns
import KaleidoscopeFrontEnd.TokenStream
import Mathlib.Data.List.TakeWhile

namespace KaleidoscopeFrontEnd

variable {σ α β : Type}

namespace Reply

theorem result_ok {reply : Reply α} : reply.result stop = .ok value ↔ ∃ rest, reply = .accepted value rest := by
  cases reply <;> simp [result]

theorem map_result (f : α → β) (reply : Reply α) : (reply.map f).result stop = (reply.result stop).map f := by
  cases reply <;> rfl

theorem map_rest (f : α → β) (reply : Reply α) : (reply.map f).rest = reply.rest := by
  cases reply <;> rfl

end Reply

theorem fault_found (reason : Refusal) (t : Token) :
    (reason.fault t).found = t ∧ (reason.fault t).isIncomplete = false := by
  cases reason <;> exact ⟨rfl,rfl⟩

-- What can be read of a token list: everything in front of its first end token.
def content (tokens : List Token) : List Token := tokens.takeWhile fun t => !t.isEnd

theorem content_self (endless : ∀ t ∈ tokens, t.isEnd = false) : content tokens = tokens := by
  unfold content
  rw [List.takeWhile_eq_self_iff]
  intro t member
  rw [endless t member]
  rfl

theorem content_append_end (tokens : List Token) (ended : t.isEnd = true) :
    content (tokens ++ [t]) = content tokens := by
  induction tokens with
  | nil => simp [content,ended]
  | cons u tokens ih =>
      simp only [content,List.cons_append,List.takeWhile_cons] at ih ⊢
      cases u.isEnd with
      | true => rfl
      | false => simpa using ih

theorem content_endless (tokens : List Token) : ∀ t ∈ content tokens, t.isEnd = false := by
  intro t member
  simpa using List.mem_takeWhile_imp member

theorem content_prefix (tokens : List Token) : content tokens <+: tokens := List.takeWhile_prefix _

theorem content_through (endless : ∀ u ∈ w, u.isEnd = false) (inner : t.isEnd = false) (later : List Token) :
    content (w ++ t :: later) = w ++ t :: content later := by
  have through : ∀ u ∈ w ++ [t], (!u.isEnd) = true := by
    intro u member
    rcases List.mem_append.mp member with before | last
    · rw [endless u before]; rfl
    · rw [List.mem_singleton.mp last,inner]; rfl
  have split : content (w ++ [t] ++ later) = w ++ [t] ++ content later := List.takeWhile_append_of_pos through
  rwa [List.append_assoc,List.append_assoc] at split

theorem content_until (endless : ∀ t ∈ w, t.isEnd = false) (ended : ∀ t ∈ later.head?, t.isEnd = true) :
    content (w ++ later) = w := by
  have inner : ∀ t ∈ w, (!t.isEnd) = true := fun t member => by rw [endless t member]; rfl
  have nothing : content later = [] := by
    cases later with
    | nil => rfl
    | cons t later => simp [content,ended t rfl]
  rw [content,List.takeWhile_append_of_pos inner]
  exact (congrArg (w ++ ·) nothing).trans (List.append_nil w)

namespace TokenStream

variable {s : TokenStream} {rest : List Token}

theorem of_tokens_place (tokens : List Token) : (ofTokens tokens).place = 0 := by
  unfold ofTokens
  split
  · rfl
  · split <;> rfl

theorem of_tokens_closed (w : List Token) (ended : t.isEnd = true) : ofTokens (w ++ [t]) = ⟨w ++ [t],0⟩ := by
  simp only [ofTokens,List.getLast?_concat,ended,if_true]

theorem of_tokens_whole (tokens : List Token) : (ofTokens tokens).unread = content (ofTokens tokens).tokens := by
  rw [unread,ahead,of_tokens_place,List.drop_zero]
  rfl

theorem of_tokens_unread (tokens : List Token) : (ofTokens tokens).unread = content tokens := by
  rw [of_tokens_whole]
  unfold ofTokens
  split
  · rename_i empty
    rw [List.getLast?_eq_none_iff.mp empty]
    rfl
  · rename_i last _
    split
    · rfl
    · exact content_append_end tokens rfl

theorem of_tokens_body (tokens : List Token) : (ofTokens tokens).body = content tokens := by
  rw [body,of_tokens_place,List.take_zero,List.nil_append,of_tokens_unread]

def beyond (s : TokenStream) : List Token := s.ahead.dropWhile fun t => !t.isEnd

theorem ahead_split (s : TokenStream) : s.ahead = s.unread ++ s.beyond := List.takeWhile_append_dropWhile.symm

theorem tokens_split (s : TokenStream) : s.tokens = s.body ++ s.beyond := by
  rw [body,List.append_assoc,← ahead_split]
  exact (List.take_append_drop s.place s.tokens).symm

theorem unread_endless (s : TokenStream) : ∀ t ∈ s.unread, t.isEnd = false := content_endless s.ahead

theorem beyond_ended (s : TokenStream) : ∀ t ∈ s.beyond.head?, t.isEnd = true := by
  intro t here
  have unlike := List.head?_dropWhile_not (fun t => !t.isEnd) s.ahead
  rw [beyond] at here
  rw [Option.mem_def.mp here] at unlike
  simpa using unlike

theorem stop_beyond (s : TokenStream) : s.stop = s.beyond.headD (.endOfInput none) := by
  have inner : s.unread.find? Token.isEnd = none := by
    refine List.find?_eq_none.mpr fun t member => ?_
    rw [s.unread_endless t member]
    exact Bool.false_ne_true
  have ended := s.beyond_ended
  rw [stop,ahead_split,List.find?_append,inner,Option.none_or]
  cases behind : s.beyond with
  | nil => rfl
  | cons t later =>
      rw [behind] at ended
      rw [List.find?_cons_of_pos (ended t rfl)]
      rfl

theorem stop_end (s : TokenStream) : s.stop.isEnd = true := by
  unfold stop
  cases found : s.ahead.find? Token.isEnd with
  | none => rfl
  | some t => exact List.find?_some found

def before (s : TokenStream) (rest : List Token) : TokenStream := { s with place := s.body.length - rest.length }

theorem apply_exact (s : TokenStream) (reading : List Token → Reply α) :
    s.apply reading = ((reading s.unread).result s.stop,s.before (reading s.unread).rest) := rfl

theorem before_ahead (s : TokenStream) (left : rest <:+ s.unread) : (s.before rest).ahead = rest ++ s.beyond := by
  obtain ⟨w,split⟩ := left
  have place : s.body.length - rest.length = (s.tokens.take s.place ++ w).length := by
    rw [body,← split,← List.append_assoc,List.length_append,Nat.add_sub_cancel]
  have tokens : s.tokens = s.tokens.take s.place ++ w ++ (rest ++ s.beyond) := by
    rw [List.append_assoc,← List.append_assoc w,split,← List.append_assoc]
    exact s.tokens_split
  change s.tokens.drop (s.body.length - rest.length) = rest ++ s.beyond
  rw [place]
  exact (congrArg (List.drop _) tokens).trans List.drop_left

theorem before_unread (s : TokenStream) (left : rest <:+ s.unread) : (s.before rest).unread = rest := by
  have endless : ∀ t ∈ rest, t.isEnd = false := fun t member => s.unread_endless t (left.subset member)
  rw [unread,before_ahead s left]
  exact content_until endless s.beyond_ended

theorem before_beyond (s : TokenStream) (left : rest <:+ s.unread) : (s.before rest).beyond = s.beyond := by
  have split := (s.before rest).ahead_split
  rw [before_ahead s left,before_unread s left] at split
  exact (List.append_cancel_left split).symm

theorem before_stop (s : TokenStream) (left : rest <:+ s.unread) : (s.before rest).stop = s.stop := by
  rw [stop_beyond,before_beyond s left,stop_beyond]

theorem before_body (s : TokenStream) (left : rest <:+ s.unread) : (s.before rest).body = s.body := by
  have split := (s.before rest).tokens_split.symm.trans s.tokens_split
  rw [before_beyond s left] at split
  exact List.append_cancel_right split

theorem before_before (s : TokenStream) (left : rest <:+ s.unread) (other : List Token) :
    (s.before rest).before other = s.before other := by
  rw [before,before_body s left]
  rfl

-- A place inside the list; operations only move from one to another.
def Placed (s : TokenStream) : Prop := s.place ≤ s.body.length

instance (s : TokenStream) : Decidable s.Placed := inferInstanceAs (Decidable (s.place ≤ s.body.length))

theorem placed_inside : s.Placed ↔ s.place ≤ s.tokens.length := by
  have consumed : s.body.length = min s.place s.tokens.length + s.unread.length := by
    rw [body,List.length_append,List.length_take]
  have short : s.unread <+: s.tokens.drop s.place := content_prefix s.ahead
  have bound := short.length_le
  rw [List.length_drop] at bound
  unfold Placed
  omega

theorem before_placed (s : TokenStream) (left : rest <:+ s.unread) : (s.before rest).Placed := by
  unfold Placed
  rw [before_body s left]
  exact Nat.sub_le _ _

theorem placed_before (s : TokenStream) (placed : s.Placed) : s.before s.unread = s := by
  have same : s.body.length - s.unread.length = s.place := by
    rw [body,List.length_append,Nat.add_sub_cancel,List.length_take]
    exact Nat.min_eq_left (placed_inside.mp placed)
  unfold before
  rw [same]

end TokenStream

end KaleidoscopeFrontEnd
