import KaleidoscopeFrontEnd.Proofs.Analyzed
import KaleidoscopeFrontEnd.Proofs.Guises
import KaleidoscopeFrontEnd.Proofs.Interleaving

namespace KaleidoscopeFrontEnd

variable {α : Type}

def Token.endedAt (place : Location) (t : Token) : Token := if t.isEnd then { t with location := some place } else t

theorem ended_inner {t : Token} (inner : t.isEnd = false) (place : Location) : t.endedAt place = t := by
  rw [Token.endedAt,inner,if_neg Bool.false_ne_true]

theorem map_fixed {f : Token → Token} {w : List Token} (fixed : ∀ t ∈ w, f t = t) : w.map f = w := by
  rw [List.map_congr_left fixed,List.map_id']

theorem Reply.image_fixed {f : Token → Token} (reply : Reply α) (fixed : ∀ t ∈ reply.rest, f t = t) :
    reply.image id f = reply := by
  cases reply with
  | accepted value rest => exact congrArg (accepted value) (map_fixed fixed)
  | refused reason found later =>
      obtain ⟨first,behind⟩ := List.forall_mem_cons.mp fixed
      rw [image,first,map_fixed behind]
  | exhausted expected => rfl

-- No reading meets an end token, so none goes by its place.
theorem Kept.ended {reading : List Token → Reply α} (sighted : Sighted reading) (place : Location) :
    Kept (Token.endedAt place) id reading := by
  intro tokens inner
  have fixed : ∀ t ∈ tokens, t.endedAt place = t := fun t member => ended_inner (inner t member) place
  rw [map_fixed fixed,Reply.image_fixed]
  exact fun t member => fixed t ((sighted.suffix tokens).subset member)

def Guise.ended (place : Location) : Guise where
  token := Token.endedAt place
  header := id
  expr := id
  item := id
  node := id
  kind t := by
    unfold Token.endedAt
    split <;> rfl
  binary t := by
    unfold Token.endedAt
    split <;> rfl
  items := by
    rw [List.map_id_fun]
    exact .ended (.run Program.machine (.between [])) place
  topLevel := .ended (.run TopLevel.machine .start) place
  bareExpression := .ended .read_expression place
  heading := .ended (.run Header.machine .name) place
  expression := .ended (.run Expression.machine Expression.start) place
  primary := .ended (.run Primary.machine .start) place
  arguments := by
    rw [List.map_id_fun]
    exact .ended (.demanded (.map (.run Primary.machine _) _) _ _) place
  operands least := by
    rw [Prod.map_id,List.map_id_fun]
    exact .ended (.run (Operands.machine least) (.between [])) place
  first least := by
    rw [Prod.map_id,List.map_id_fun]
    exact .ended (.read_first least) place
  hasSpan _ := rfl
  join left others := by
    rw [Prod.map_id,List.map_id]
    rfl

namespace TokenStream

def Answer.endedAt (place : Location) : Answer → Answer
  | .ok (.token t) => .ok (.token (t.endedAt place))
  | .error (.reading f) => .error (.reading (f.map (.endedAt place)))
  | other => other

theorem answer_ended (place : Location) (a : Answer) : (Guise.ended place).answer a = Answer.endedAt place a := by
  rcases a with (f | f) | v
  · rfl
  · rfl
  · cases v with
    | items all => exact congrArg (fun all => Except.ok (Value.items all)) (List.map_id all)
    | exprs all => exact congrArg (fun all => Except.ok (Value.exprs all)) (List.map_id all)
    | item | header | expr | node | token | number | truth => rfl

end TokenStream

theorem Scanner.calls_iterate {s : Scanner} {w : List Token} (drains : s.cursor.Drains (w.map .ok) stop) :
    (s.calls (List.replicate (w.length + 1) .iterate)).1 = w.map (fun t => .event (.ok t)) ++ [.finished] := by
  have step (n : Nat) : (s.calls (List.replicate (n + 1) .iterate)).1 =
      iterated s.cursor.next.1 :: (calls { s with cursor := s.cursor.next.2 } (List.replicate n .iterate)).1 := rfl
  induction w generalizing s with
  | nil =>
      cases drains with
      | last pulled ended =>
          rw [step,pulled,iterated,if_pos ended]
          rfl
  | cons t w ih =>
      cases drains with
      | @event _ _ after _ _ pulled more later =>
          have first : iterated (.ok t) = .event (.ok t) := if_neg (Bool.eq_false_iff.mp more)
          rw [List.length_cons,step,pulled,first,ih (s := { s with cursor := after }) later fun _ => rfl]
          rfl

namespace TokenStream

theorem of_tokens_open {w : List Token} (inner : ∀ t ∈ w, t.isEnd = false) :
    ofTokens w = ⟨w ++ [.endOfInput (w.getLast?.bind Token.location)],0⟩ := by
  unfold ofTokens
  cases last : w.getLast? with
  | none =>
      rw [List.getLast?_eq_none_iff.mp last]
      rfl
  | some t =>
      have other : ¬ t.isEnd = true := Bool.eq_false_iff.mp (inner t (List.mem_of_getLast? last))
      dsimp only
      rw [if_neg other]
      rfl

theorem of_tokens_ended_at {w : List Token} (inner : ∀ t ∈ w, t.isEnd = false) (last : Location) :
    ofTokens (w ++ [.endOfInput (some last)]) = (ofTokens w).map (.endedAt last) := by
  have fixed : w.map (Token.endedAt last) = w := map_fixed fun t member => ended_inner (inner t member) last
  rw [of_tokens_closed w rfl,of_tokens_open inner,map,List.map_append,fixed]
  rfl

theorem calls_ended_at {s : TokenStream} (ended : s.beyond ≠ []) (last : Location) (asked : List Call) :
    (s.map (.endedAt last)).calls asked =
      ((s.calls asked).1.map (.endedAt last),(s.calls asked).2.map (.endedAt last)) := by
  have same : asked.map (Guise.ended last).call = asked :=
    (List.map_congr_left fun c _ => by cases c <;> rfl).trans (List.map_id' asked)
  have named : ∀ c ∈ asked, (Guise.ended last).Names c := by
    intro c _
    cases c with
    | operands => exact fun _ => rfl
    | _ => trivial
  have seen := (Guise.ended last).calls_seen ended named
  rw [same,funext (answer_ended last)] at seen
  exact seen

end TokenStream

theorem Token.describe_ended_at (last : Location) (t : Token) : (t.endedAt last).describe = t.describe := by
  unfold endedAt
  split <;> simp only [describe]

namespace SyntaxFault

theorem message_ended_at (last : Location) (f : SyntaxFault) : (f.map (.endedAt last)).message = f.message := by
  cases f with
  | unexpected expected t =>
      exact congrArg (fun shown => "Expected " ++ expected.text ++ ", found " ++ shown) (t.describe_ended_at last)
  | notExpression t => exact congrArg (fun shown => "Expected expression, found " ++ shown) (t.describe_ended_at last)
  | commaInParameters | incomplete => rfl

theorem suggestions_ended_at (last : Location) (f : SyntaxFault) :
    (f.map (.endedAt last)).suggestions = f.suggestions := by
  have suggests (t : Token) : suggestsOperators (t.endedAt last) = suggestsOperators t := by
    unfold Token.endedAt
    split <;> simp only [suggestsOperators,Token.word]
  cases f with
  | unexpected expected t =>
      rw [map,suggestions,suggests]
      rfl
  | notExpression | commaInParameters | incomplete => rfl

theorem diagnostic_ended_at (last : Location) (f : SyntaxFault) :
    (f.map (.endedAt last)).isIncomplete = f.isIncomplete ∧
      (f.map (.endedAt last)).diagnostic = { f.diagnostic with location := (f.found.endedAt last).location } := by
  rw [diagnostic,message_ended_at,suggestions_ended_at]
  cases f <;> exact ⟨rfl,rfl⟩

end SyntaxFault

-- The place of the end token has no part in reading: with one of its own or with the one that is added a list answers
-- all calls alike, but for that place where the end token itself is answered or found.
theorem end_place_unread (lexed : (Lexing.ofText file source).complete = .ok all)
    (asked : List TokenStream.Call) :
    let w := (Lexing.ofText file source).tokens
    let last := place file source source.length
    let bare := TokenStream.ofTokens w
    let closed := TokenStream.ofTokens all
    ((Scanner.start file source).calls (List.replicate (w.length + 1) .iterate)).1 =
      w.map (fun t => .event (.ok t)) ++ [.finished] ∧
    bare.tokens = w ++ [.endOfInput (w.getLast?.bind Token.location)] ∧ closed.tokens = w ++ [.endOfInput (some last)] ∧
    (closed.calls asked).1 = (bare.calls asked).1.map (.endedAt last) ∧
      (closed.calls asked).2.place = (bare.calls asked).2.place ∧
    ∀ f : SyntaxFault, (f.map (.endedAt last)).isIncomplete = f.isIncomplete ∧
      (f.map (.endedAt last)).diagnostic = { f.diagnostic with location := (f.found.endedAt last).location } := by
  obtain ⟨w,stop,drains,rfl⟩ := lexes_complete.mp lexed
  obtain rfl := drains.stop_place
  have inner : ∀ t ∈ w, t.isEnd = false := Lexes.inner ⟨_,drains⟩
  obtain ⟨tokens,_⟩ := Lexing.of_drains drains
  intro v last bare closed
  obtain rfl : v = w := tokens
  have seen := TokenStream.calls_ended_at (TokenStream.of_tokens_beyond v) last asked
  rw [← TokenStream.of_tokens_ended_at inner] at seen
  refine ⟨Scanner.calls_iterate drains,?_,?_,congrArg Prod.fst seen,?_,SyntaxFault.diagnostic_ended_at last⟩
  · exact congrArg TokenStream.tokens (TokenStream.of_tokens_open inner)
  · exact congrArg TokenStream.tokens (TokenStream.of_tokens_closed v rfl)
  · exact congrArg (fun answered => answered.2.place) seen

theorem end_place_unread_argument :
    let lexing := Lexing.ofText "m" "f(x".toList
    let bare := TokenStream.ofTokens lexing.tokens
    let x := Token.endOfInput (some ⟨"m",1,3,2⟩)
    let behind := Token.endOfInput (some ⟨"m",1,4,3⟩)
    let closed := TokenStream.ofTokens (lexing.tokens ++ [behind])
    let unread (stop : Token) : List TokenStream.Answer :=
      [.error (.reading (.incomplete .argumentsContinuation stop)),.ok (.token stop)]
    lexing.complete = .ok (lexing.tokens ++ [behind]) ∧
      (bare.calls [.expression,.peek]).1 = unread x ∧ (closed.calls [.expression,.peek]).1 = unread behind := by
  intro lexing bare x behind closed unread
  have complete : lexing.complete = .ok (lexing.tokens ++ [behind]) := of_to_option (by decide +kernel)
  have tokens : lexing.tokens = [⟨.identifier,"f",some (.text "f"),some ⟨"m",1,1,0⟩⟩,
    ⟨.openParen,"(",none,some ⟨"m",1,2,1⟩⟩,⟨.identifier,"x",some (.text "x"),some ⟨"m",1,3,2⟩⟩] := by decide +kernel
  have asked : (bare.calls [.expression,.peek]).1 = unread x := by
    simp only [bare,tokens]
    rfl
  obtain ⟨_,_,_,answers,_⟩ := end_place_unread complete [.expression,.peek]
  have last : place "m" "f(x".toList "f(x".toList.length = ⟨"m",1,4,3⟩ := by decide +kernel
  refine ⟨complete,asked,answers.trans ?_⟩
  change (bare.calls [.expression,.peek]).1.map _ = _
  rw [asked,last]
  rfl

end KaleidoscopeFrontEnd
