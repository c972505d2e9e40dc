import KaleidoscopeFrontEnd.Proofs.Completeness
import KaleidoscopeFrontEnd.Proofs.Soundness
import Mathlib.Data.Nat.Init

namespace KaleidoscopeFrontEnd

theorem Derivation.Run.begins (run : Run (t :: w) r) : t.kind = .number ∨ t.kind = .openParen ∨ t.kind = .identifier := by
  obtain ⟨e,consumed,_⟩ := Expression.run_consumed run
  simp only [Machine.consume] at consumed
  split at consumed
  · obtain ⟨p,operand,_⟩ := map_ok.mp (TopLevel.expression_begin ‹_›)
    exact Primary.begin_kind operand
  · cases consumed

theorem Derivation.TopItem.nonempty (derived : TopItem w i) : w ≠ [] := by
  cases derived <;> simp

theorem TopLevel.step_started (shifted : TopLevel.step s t = .shift next) : next ≠ .start := by
  cases s with
  | start =>
      have begun : begin t = .ok next := Move.of_begin_shift.mp shifted
      unfold begin at begun
      split at begun
      · cases begun; exact State.noConfusion
      · cases begun; exact State.noConfusion
      · obtain ⟨e,_,rfl⟩ := map_ok.mp begun
        exact State.noConfusion
  | definition k h last =>
      rcases Move.and_then_shift.mp shifted with ⟨_,_,rfl⟩ | ⟨p,_,begun⟩
      · exact State.noConfusion
      · obtain ⟨e,_,rfl⟩ := map_ok.mp (Move.of_begin_shift.mp begun)
        exact State.noConfusion
  | external | body | expression =>
      rcases Move.and_then_shift.mp shifted with ⟨_,_,rfl⟩ | ⟨_,_,nothing⟩
      · exact State.noConfusion
      · cases nothing

theorem TopLevel.read_derives (read : TopLevel.read w = .accepted i rest) :
    ∃ v, w = v ++ rest ∧ Derivation.TopItem v i := by
  obtain ⟨v,stopped,left,rfl,consumed,verdict⟩ := Machine.run_exact.mp read
  have reached : Reached stopped ([] ++ v) := Machine.consume_invariant step_reached .start consumed
  cases verdict with
  | finished value => exact ⟨v,rfl,finish_derives reached value⟩
  | done value => exact ⟨v,rfl,step_derives reached value⟩

namespace Program

theorem inside_run (started : s ≠ .start) (items : List Item) (tokens : List Token) : machine.run ⟨items,s⟩ tokens =
    (TopLevel.machine.run s tokens).andThen fun i rest => machine.run (.between (items ++ [i])) rest := by
  induction tokens generalizing s with
  | nil =>
      cases value : TopLevel.finish s with
      | ok i => simp only [Machine.run,TopLevel.machine,value,item_finish value started]; rfl
      | error expected => simp only [Machine.run,TopLevel.machine,machine,finish_inside started,value]; rfl
  | cons t later ih =>
      cases moved : TopLevel.step s t with
      | shift next =>
          simp only [Machine.run,TopLevel.machine,item_shift moved,moved]
          exact ih (TopLevel.step_started moved)
      | done i => simp only [Machine.run,TopLevel.machine,item_done moved started,moved]; rfl
      | refuse reason => simp only [Machine.run,TopLevel.machine,machine,step_inside started,moved]; rfl

theorem item_read (other : t.isTerminator = false) (items : List Item) (later : List Token) :
    machine.run (.between items) (t :: later) =
      (TopLevel.read (t :: later)).andThen fun i rest => machine.run (.between (items ++ [i])) rest := by
  cases begun : TopLevel.begin t with
  | ok next =>
      have shifted : TopLevel.step .start t = .shift next := Move.of_begin_shift.mpr begun
      have entered : machine.step (.between items) t = .shift ⟨items,next⟩ := item_shift shifted items
      simp only [Machine.run,entered,TopLevel.read,TopLevel.machine,shifted]
      exact inside_run (TopLevel.step_started shifted) items later
  | error reason =>
      have refused : machine.step (.between items) t = .refuse reason := by
        simp only [machine,step,State.between,begin,other,Bool.false_eq_true,if_false,begun]
        rfl
      have alike : TopLevel.step .start t = .refuse reason := by simp only [TopLevel.step,begun,Move.ofBegin]
      simp only [Machine.run,refused,TopLevel.read,TopLevel.machine,alike]
      rfl

-- In front stands a terminator, or the next item is read from there, and what that leaves unread comes next.
inductive Readings : List Token → List Item → Prop where
  | nil : Readings [] []
  | terminator (t : Token) (terminator : t.isTerminator = true) (later : Readings w is) : Readings (t :: w) is
  | item (read : TopLevel.read (v ++ w) = .accepted i w) (derived : Derivation.TopItem v i) (later : Readings w is) :
      Readings (v ++ w) (i :: is)

theorem Readings.parts (readings : Readings w is) : ∀ i ∈ is, ∃ before v after, w = before ++ v ++ after ∧
    TopLevel.read (v ++ after) = .accepted i after ∧ Derivation.TopItem v i := by
  induction readings with
  | nil => exact fun i nothing => absurd nothing List.not_mem_nil
  | terminator t terminator later ih =>
      intro i member
      obtain ⟨before,v,after,rfl,found⟩ := ih i member
      exact ⟨t :: before,v,after,rfl,found⟩
  | @item u w i is read derived later ih =>
      intro j member
      rcases List.mem_cons.mp member with rfl | member
      · exact ⟨[],u,w,rfl,read,derived⟩
      · obtain ⟨before,v,after,rfl,found⟩ := ih j member
        exact ⟨u ++ before,v,after,by simp only [List.append_assoc],found⟩

theorem Readings.items (readings : Readings w is) : ∀ i ∈ is, ∃ v, v ⊆ w ∧ Derivation.TopItem v i := by
  intro i member
  obtain ⟨before,v,after,rfl,_,derived⟩ := readings.parts i member
  exact ⟨v,fun t inside => List.mem_append_left after (List.mem_append_right before inside),derived⟩

theorem run_readings (accepted : machine.run (.between items) w = .accepted all []) :
    ∃ is, all = items ++ is ∧ Readings w is := by
  induction size : w.length using Nat.strong_induction_on generalizing items w with
  | _ size ih =>
      subst size
      cases w with
      | nil =>
          cases accepted
          exact ⟨[],(List.append_nil items).symm,.nil⟩
      | cons t later =>
          cases terminator : t.isTerminator with
          | true =>
              rw [terminator_run terminator] at accepted
              obtain ⟨is,split,readings⟩ := ih _ (Nat.lt_succ_self _) accepted rfl
              exact ⟨is,split,.terminator t terminator readings⟩
          | false =>
              rw [item_read terminator] at accepted
              cases read : TopLevel.read (t :: later) with
              | refused | exhausted => rw [read] at accepted; cases accepted
              | accepted i rest =>
                  rw [read] at accepted
                  obtain ⟨v,whole,derived⟩ := TopLevel.read_derives read
                  have positive := List.length_pos_iff.mpr derived.nonempty
                  have shorter : rest.length < (t :: later).length := by
                    rw [whole,List.length_append]
                    omega
                  obtain ⟨is,rfl,readings⟩ := ih _ shorter accepted rfl
                  rw [whole] at read ⊢
                  exact ⟨i :: is,List.append_cons items i is |>.symm,.item read derived readings⟩

theorem read_readings (accepted : read w = .accepted items []) : Readings w items := by
  obtain ⟨is,rfl,readings⟩ := run_readings accepted
  exact readings

end Program

end KaleidoscopeFrontEnd
