import KaleidoscopeFrontEnd.Grammar.Machine

namespace KaleidoscopeFrontEnd

variable {σ τ α β γ : Type}

theorem map_ok {ε : Type} {e : Except ε α} {f : α → β} : e.map f = .ok b ↔ ∃ a, e = .ok a ∧ f a = b := by
  cases e <;> simp [Except.map]

theorem map_error {ε : Type} {e : Except ε α} {f : α → β} {x : ε} : e.map f = .error x ↔ e = .error x := by
  cases e <;> simp [Except.map]

theorem of_to_option {ε : Type} {e : Except ε α} (found : e.toOption = some a) : e = .ok a := by
  cases e with
  | error => cases found
  | ok => cases found; rfl

namespace Move

theorem and_then_shift {m : Move σ α} {shifted : σ → β} {after : α → Move β γ} :
    m.andThen shifted after = .shift next ↔
      (∃ s, m = .shift s ∧ shifted s = next) ∨ ∃ value, m = .done value ∧ after value = .shift next := by
  cases m <;> simp [andThen]

theorem and_then_of_shift {m : Move σ α} {shifted : σ → β} {after : α → Move β γ} (moved : m = .shift s) :
    m.andThen shifted after = .shift (shifted s) := by
  rw [moved]
  rfl

theorem and_then_done {m : Move σ α} {shifted : σ → β} {after : α → Move β γ} :
    m.andThen shifted after = .done result ↔ ∃ value, m = .done value ∧ after value = .done result := by
  cases m <;> simp [andThen]

theorem of_begin_shift {begun : Except Refusal σ} :
    (ofBegin begun : Move σ α) = .shift next ↔ begun = .ok next := by
  cases begun <;> simp [ofBegin]

theorem of_begin_refuse {begun : Except Refusal σ} :
    (ofBegin begun : Move σ α) = .refuse reason ↔ begun = .error reason := by
  cases begun <;> simp [ofBegin]

theorem of_begin_not_done {begun : Except Refusal σ} {value : α} : ofBegin begun ≠ .done value := by
  cases begun <;> simp [ofBegin]

end Move

namespace Machine

variable {m : Machine σ α}

-- Unlike a run this says nothing about how the reading ends, so words can be put together.
def consume (m : Machine σ α) : σ → List Token → Option σ
  | s,[] => some s
  | s,t :: later =>
      match m.step s t with
      | .shift next => m.consume next later
      | _ => none

theorem consume_cons (shifted : m.step s t = .shift next) :
    m.consume s (t :: later) = m.consume next later := by
  simp [consume,shifted]

theorem consume_single (shifted : m.step s t = .shift next) : m.consume s [t] = some next :=
  consume_cons shifted

theorem consume_append (first : m.consume s w = some middle) :
    m.consume s (w ++ v) = m.consume middle v := by
  induction w generalizing s with
  | nil => cases first; rfl
  | cons t w ih =>
      simp only [consume] at first
      split at first
      · rename_i next shifted
        rw [List.cons_append,consume_cons shifted]
        exact ih first
      · cases first

theorem run_consume (consumed : m.consume s w = some next) : m.run s (w ++ rest) = m.run next rest := by
  induction w generalizing s with
  | nil => cases consumed; rfl
  | cons t w ih =>
      simp only [consume] at consumed
      split at consumed
      · rename_i middle shifted
        simpa only [List.cons_append,run,shifted] using ih consumed
      · cases consumed

inductive Verdict (m : Machine σ α) (s : σ) : List Token → Reply α → Prop where
  | finished (value : m.finish s = .ok v) : Verdict m s [] (.accepted v [])
  | exhausted (wanted : m.finish s = .error expected) : Verdict m s [] (.exhausted expected)
  | done (value : m.step s t = .done v) : Verdict m s (t :: later) (.accepted v (t :: later))
  | refused (refusal : m.step s t = .refuse reason) : Verdict m s (t :: later) (.refused reason t later)

theorem Verdict.run (verdict : Verdict m s rest reply) : m.run s rest = reply := by
  cases verdict with
  | finished value => simp [Machine.run,value]
  | exhausted wanted => simp [Machine.run,wanted]
  | done value => simp [Machine.run,value]
  | refused refusal => simp [Machine.run,refusal]

theorem run_verdict (m : Machine σ α) (s : σ) (tokens : List Token) :
    ∃ w stopped rest, tokens = w ++ rest ∧ m.consume s w = some stopped ∧
      Verdict m stopped rest (m.run s tokens) := by
  induction tokens generalizing s with
  | nil =>
      refine ⟨[],s,[],rfl,rfl,?_⟩
      cases value : m.finish s with
      | ok v => simpa [run,value] using Verdict.finished value
      | error expected => simpa [run,value] using Verdict.exhausted value
  | cons t later ih =>
      cases moved : m.step s t with
      | shift next =>
          obtain ⟨w,stopped,rest,split,consumed,verdict⟩ := ih next
          refine ⟨t :: w,stopped,rest,by rw [split]; rfl,(consume_cons moved).trans consumed,?_⟩
          simpa only [run,moved] using verdict
      | done v => exact ⟨[],s,t :: later,rfl,rfl,by simpa [run,moved] using Verdict.done moved⟩
      | refuse reason => exact ⟨[],s,t :: later,rfl,rfl,by simpa [run,moved] using Verdict.refused moved⟩

-- A run is a consumed word and the verdict of the state behind it; both are determined.
theorem run_exact : m.run s tokens = reply ↔
    ∃ w stopped rest, tokens = w ++ rest ∧ m.consume s w = some stopped ∧ Verdict m stopped rest reply := by
  constructor
  · intro ran
    exact ran ▸ run_verdict m s tokens
  · rintro ⟨w,stopped,rest,rfl,consumed,verdict⟩
    exact (run_consume consumed).trans verdict.run

theorem Verdict.rest_exact (verdict : Verdict m s rest reply) : reply.rest = rest := by
  cases verdict <;> rfl

theorem run_rest_suffix (m : Machine σ α) (s : σ) (tokens : List Token) :
    (m.run s tokens).rest <:+ tokens := by
  obtain ⟨w,stopped,rest,split,_,verdict⟩ := run_verdict m s tokens
  rw [verdict.rest_exact,split]
  exact List.suffix_append w rest

theorem consume_invariant {Reached : σ → List Token → Prop}
    (kept : ∀ {s w t next}, Reached s w → m.step s t = .shift next → Reached next (w ++ [t]))
    (reached : Reached s w) (consumed : m.consume s v = some next) : Reached next (w ++ v) := by
  induction v generalizing s w with
  | nil => cases consumed; simpa using reached
  | cons t v ih =>
      simp only [consume] at consumed
      split at consumed
      · rename_i middle shifted
        simpa using ih (kept reached shifted) consumed
      · cases consumed

theorem consume_inside {outer : Machine τ β} (inside : Token → σ → τ)
    (shifts : ∀ {last s t next}, m.step s t = .shift next → outer.step (inside last s) t = .shift (inside t next))
    (last : Token) (consumed : m.consume s w = some next) :
    outer.consume (inside last s) w = some (inside (w.getLastD last) next) := by
  induction w generalizing s last with
  | nil => cases consumed; rfl
  | cons t w ih =>
      simp only [consume] at consumed
      split at consumed
      · rename_i middle shifted
        rw [consume_cons (shifts shifted),List.getLastD_cons]
        exact ih t consumed
      · cases consumed

end Machine

namespace Reply

def andThen (reply : Reply α) (after : α → List Token → Reply β) : Reply β :=
  match reply with
  | .accepted value rest => after value rest
  | .refused reason found later => .refused reason found later
  | .exhausted expected => .exhausted expected

end Reply

def Reply.image (value : α → β) (token : Token → Token) : Reply α → Reply β
  | .accepted v rest => .accepted (value v) (rest.map token)
  | .refused reason found later => .refused reason (token found) (later.map token)
  | .exhausted expected => .exhausted expected

theorem Reply.image_id (reply : Reply α) (value : α → β) : reply.image value id = reply.map value := by
  cases reply <;> simp only [image,map,List.map_id,id]

theorem Machine.run_image {m : Machine σ α} {outer : Machine τ β} (state : σ → τ) (value : α → β)
    (token : Token → Token)
    (step : ∀ s t, outer.step (state s) (token t) = (m.step s t).andThen state fun v => .done (value v))
    (finish : ∀ s, outer.finish (state s) = (m.finish s).map value) (s : σ) (tokens : List Token) :
    outer.run (state s) (tokens.map token) = (m.run s tokens).image value token := by
  induction tokens generalizing s with
  | nil =>
      simp only [List.map_nil,Machine.run,finish]
      cases m.finish s <;> rfl
  | cons t later ih =>
      simp only [List.map_cons,Machine.run,step]
      cases m.step s t with
      | shift next => exact ih next
      | done v => rfl
      | refuse reason => rfl

-- The outer machine starts as the inner one and, where that is done, is in a state of its own
-- in front of the same token: its run is the inner run and then one from there.
theorem Machine.run_and_then {m : Machine σ α} {outer : Machine τ β} (inside : σ → τ) (behind : α → τ)
    (step : ∀ s t, outer.step (inside s) t = (m.step s t).andThen inside fun v => outer.step (behind v) t)
    (finish : ∀ s, outer.finish (inside s) = (m.finish s).bind fun v => outer.finish (behind v))
    (s : σ) (tokens : List Token) :
    outer.run (inside s) tokens = (m.run s tokens).andThen fun v rest => outer.run (behind v) rest := by
  induction tokens generalizing s with
  | nil =>
      simp only [Machine.run,finish]
      cases m.finish s <;> rfl
  | cons t later ih =>
      simp only [Machine.run,step]
      cases m.step s t with
      | shift next => exact ih next
      | done v => rfl
      | refuse reason => rfl

end KaleidoscopeFrontEnd
