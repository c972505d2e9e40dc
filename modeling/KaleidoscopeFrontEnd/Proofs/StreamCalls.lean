import KaleidoscopeFrontEnd.Proofs.Lookahead

namespace KaleidoscopeFrontEnd

theorem content_length (tokens : List Token) : (content tokens).length = tokens.findIdx Token.isEnd := by
  have same : (fun t : Token => !!t.isEnd) = Token.isEnd := funext fun t => Bool.not_not t.isEnd
  rw [content,List.takeWhile_eq_take_findIdx_not,same,List.length_take]
  exact Nat.min_eq_left List.findIdx_le_length

theorem Reply.result_fault {reply : Reply α} (failed : reply.result stop = .error fault)
    (endless : ∀ t ∈ reply.rest, t.isEnd = false) (ended : stop.isEnd = true) :
    fault.found = reply.rest.headD stop ∧ (fault.isIncomplete = true ↔ (reply.rest.headD stop).isEnd = true) := by
  cases reply with
  | accepted value rest => cases failed
  | refused reason found later =>
      cases failed
      obtain ⟨same,complete⟩ := fault_found reason found
      have inner : found.isEnd = false := endless found List.mem_cons_self
      simp only [rest,List.headD_cons,same,complete,inner,true_and]
  | exhausted expected =>
      cases failed
      simp only [rest,List.headD_nil,ended,iff_true]
      exact ⟨rfl,rfl⟩

theorem through_alike {later other : List Token} (w : List Token) (stop : Token) (below : i ≤ w.length) :
    (w ++ stop :: other)[i]? = (w ++ stop :: later)[i]? := by
  have inside : i < (w ++ [stop]).length := by
    rw [List.length_append,List.length_singleton]
    exact Nat.lt_succ_of_le below
  rw [List.append_cons,List.append_cons w stop later,List.getElem?_append_left inside,List.getElem?_append_left inside]

namespace TokenStream

variable {s t : TokenStream} {rest : List Token}

theorem of_tokens_added (tokens : List Token) : ∃ added, (ofTokens tokens).tokens = tokens ++ added := by
  unfold ofTokens
  split
  · rename_i empty
    rw [List.getLast?_eq_none_iff.mp empty]
    exact ⟨_,rfl⟩
  · split
    · exact ⟨[],(List.append_nil tokens).symm⟩
    · exact ⟨_,rfl⟩

theorem of_tokens_ended (tokens : List Token) : ∃ t ∈ (ofTokens tokens).tokens, t.isEnd = true := by
  unfold ofTokens
  split
  · exact ⟨_,List.mem_singleton_self _,rfl⟩
  · rename_i last found
    split
    · rename_i ended
      exact ⟨last,List.mem_of_getLast? found,ended⟩
    · exact ⟨_,List.mem_append_right _ (List.mem_singleton_self _),rfl⟩

-- A stream moves forward over tokens that stay the same, and with them the end token it cannot pass.
structure Advances (s t : TokenStream) : Prop where
  tokens : t.tokens = s.tokens
  body : t.body = s.body
  placed : t.Placed
  forward : s.place ≤ t.place

theorem Advances.refl (placed : s.Placed) : Advances s s := ⟨rfl,rfl,placed,Nat.le_refl _⟩

theorem Advances.trans (first : Advances s t) (second : Advances t u) : Advances s u :=
  ⟨second.tokens.trans first.tokens,second.body.trans first.body,second.placed,first.forward.trans second.forward⟩

theorem before_advances (placed : s.Placed) (left : rest <:+ s.unread) : Advances s (s.before rest) := by
  obtain ⟨w,split⟩ := left
  refine ⟨rfl,before_body s ⟨w,split⟩,before_placed s ⟨w,split⟩,?_⟩
  rw [before_place (placed_inside.mp placed) split.symm]
  exact Nat.le_add_right _ _

theorem call_advances (placed : s.Placed) (call : Call) : Advances s (s.call call).2 := by
  cases call.asks with
  | reading reading answer sighted _ asked =>
      rw [asked]
      exact before_advances placed (sighted.suffix s.unread)
  | look answer asked =>
      rw [asked]
      exact .refl placed
  | back previous =>
      rw [previous]
      exact .refl placed

theorem calls_advance (placed : s.Placed) (calls : List Call) : Advances s (s.calls calls).2 := by
  induction calls generalizing s with
  | nil => exact .refl placed
  | cons call later ih =>
      have first := call_advances placed call
      exact first.trans (ih first.placed)

theorem call_tokens (s : TokenStream) (call : Call) : (s.call call).2.tokens = s.tokens := by
  cases call.asks with
  | reading reading answer sighted _ asked => rw [asked]; rfl
  | look answer asked => rw [asked]
  | back previous => rw [previous]; rfl

theorem before_peek (left : rest <:+ s.unread) : (s.before rest).peek = rest.headD s.stop := by
  rw [peek,before_unread s left,before_stop s left]

theorem call_fault {call : Call} (failed : (s.call call).1 = .error (.reading fault)) :
    fault.found = (s.call call).2.peek ∧ (fault.isIncomplete = true ↔ (s.call call).2.peek.isEnd = true) := by
  cases call.asks with
  | look answer asked => rw [asked] at failed; cases failed
  | back previous => rw [previous] at failed; cases failed
  | reading reading answer sighted faults asked =>
      have left := sighted.suffix s.unread
      have endless : ∀ t ∈ (reading s.unread).rest, t.isEnd = false :=
        fun t member => s.unread_endless t (left.subset member)
      rw [asked] at failed ⊢
      rw [apply_exact,before_peek left]
      exact Reply.result_fault ((faults _ _).mp failed) endless s.stop_end

theorem peek_found (ended : s.body.length < s.tokens.length) : s.tokens[s.place]? = some s.peek := by
  have behind : s.beyond ≠ [] := by
    intro none
    rw [s.tokens_split,none,List.append_nil] at ended
    exact Nat.lt_irrefl _ ended
  obtain ⟨e,later,beyond⟩ := List.exists_cons_of_ne_nil behind
  have here : s.tokens[s.place]? = s.ahead.head? := by
    rw [ahead,List.head?_drop]
  rw [here,ahead_split,peek,stop_beyond,beyond,List.head?_append]
  cases s.unread <;> rfl

theorem previous_found (placed : s.Placed) (ended : s.body.length < s.tokens.length) :
    s.tokens[s.place - 1]? = some s.previous := by
  have bound : s.place - 1 < s.tokens.length := by
    unfold Placed at placed
    omega
  rw [previous,List.getElem?_eq_getElem bound]
  rfl

-- Nothing but the tokens through the end token has a part in what calls answer.
theorem calls_alike (calls : List Call) (placed : s.Placed) (ended : s.body.length < s.tokens.length)
    (same : t.place = s.place) (alike : ∀ i ≤ s.body.length, t.tokens[i]? = s.tokens[i]?) :
    (t.calls calls).1 = (s.calls calls).1 ∧ (t.calls calls).2.place = (s.calls calls).2.place := by
  induction calls generalizing s t with
  | nil => exact ⟨rfl,same⟩
  | cons call later ih =>
      have moved := call_advances placed call
      have first : (t.call call).1 = (s.call call).1 ∧ (t.call call).2.place = (s.call call).2.place := by
        by_cases looks : call = .previous
        · have found := previous_found placed ended
          have within : s.place - 1 ≤ s.body.length := (Nat.sub_le _ _).trans placed
          rw [← alike _ within,← same] at found
          have previous : t.previous = s.previous := by rw [TokenStream.previous,found]; rfl
          subst looks
          exact ⟨congrArg (fun t => Except.ok (Value.token t)) previous,same⟩
        · refine call_alike looks (Nat.lt_of_le_of_lt placed ended) same fun i _ below => alike i ?_
          exact below.trans (moved.body ▸ moved.placed)
      obtain ⟨answer,place⟩ := first
      obtain ⟨answers,places⟩ := ih (s := (s.call call).2) (t := (t.call call).2) moved.placed
        (by rw [moved.body,moved.tokens]; exact ended) place
        (by rw [moved.body,moved.tokens,t.call_tokens]; exact alike)
      exact ⟨by rw [calls,answer,answers]; rfl,places⟩

theorem of_tokens_placed (tokens : List Token) : (ofTokens tokens).Placed := by
  unfold Placed
  rw [of_tokens_place]
  exact Nat.zero_le _

theorem of_tokens_bound (tokens : List Token) :
    (ofTokens tokens).body.length = (ofTokens tokens).tokens.findIdx Token.isEnd := by
  rw [body,of_tokens_place,List.take_zero,List.nil_append,of_tokens_whole,content_length]

theorem of_tokens_within (tokens : List Token) : (ofTokens tokens).body.length < (ofTokens tokens).tokens.length := by
  rw [of_tokens_bound]
  exact List.findIdx_lt_length_of_exists (of_tokens_ended tokens)

theorem of_tokens_alike {tokens w later : List Token} {stop : Token} (inner : ∀ t ∈ w, t.isEnd = false)
    (stops : stop.isEnd = true) (split : (ofTokens tokens).tokens = w ++ stop :: later) (other : List Token) :
    ∀ i ≤ (ofTokens tokens).body.length, (ofTokens (w ++ stop :: other)).tokens[i]? = (ofTokens tokens).tokens[i]? := by
  have length : (ofTokens tokens).body.length = w.length := by
    rw [of_tokens_bound,← content_length,split,content_until inner fun t found => by cases found; exact stops]
  obtain ⟨added,whole⟩ := of_tokens_added (w ++ stop :: other)
  intro i below
  rw [length] at below
  rw [whole,split,List.append_assoc]
  exact through_alike w stop below

-- Whatever is asked and whether it succeeds, the place never moves back and never passes the first end token, and what
-- stands behind that one has no part in any answer.
theorem calls_safe (tokens : List Token) (earlier : List Call) (call : Call) :
    let start := ofTokens tokens
    let here := (start.calls earlier).2
    let there := (here.call call).2
    let first := start.tokens.findIdx Token.isEnd
    (first < start.tokens.length ∧ here.place ≤ there.place ∧ there.place ≤ first ∧ there.tokens = start.tokens ∧
      start.tokens[there.place]? = some there.peek ∧ start.tokens[there.place - 1]? = some there.previous) ∧
    (∀ fault, (here.call call).1 = .error (.reading fault) → fault.found = there.peek ∧
      fault.diagnostic.location = there.peek.location ∧ (fault.isIncomplete = true ↔ there.peek.isEnd = true)) ∧
    ∀ w stop later other, (∀ t ∈ w, t.isEnd = false) → stop.isEnd = true → start.tokens = w ++ stop :: later →
      let all := earlier ++ [call]
      let others := ofTokens (w ++ stop :: other)
      (others.calls all).1 = (start.calls all).1 ∧ (others.calls all).2.place = (start.calls all).2.place := by
  intro start here there first
  have bound : start.body.length = first := of_tokens_bound tokens
  have ended := of_tokens_within tokens
  have before := calls_advance (of_tokens_placed tokens) earlier
  have moved := call_advances before.placed call
  have whole := before.trans moved
  have within : there.body.length < there.tokens.length := by
    rw [whole.body,whole.tokens]
    exact ended
  have peek := peek_found within
  have previous := previous_found moved.placed within
  rw [whole.tokens] at peek previous
  refine ⟨⟨bound ▸ ended,moved.forward,?_,whole.tokens,peek,previous⟩,?_,?_⟩
  · rw [← bound,← whole.body]
    exact moved.placed
  · intro fault failed
    obtain ⟨found,incomplete⟩ := call_fault failed
    exact ⟨found,congrArg Token.location found,incomplete⟩
  · intro w stop later other inner stops split all others
    have same : others.place = start.place := (of_tokens_place _).trans (of_tokens_place _).symm
    exact calls_alike all (of_tokens_placed tokens) ended same (of_tokens_alike inner stops split other)

end TokenStream

end KaleidoscopeFrontEnd
