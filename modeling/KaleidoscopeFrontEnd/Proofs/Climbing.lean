import KaleidoscopeFrontEnd.Proofs.Derivation
import KaleidoscopeFrontEnd.Proofs.Grouping
import KaleidoscopeFrontEnd.Proofs.Streams

namespace KaleidoscopeFrontEnd

namespace Reply

variable {α β : Type}

theorem and_then_error {reply : Reply α} (failed : reply.result stop = .error fault)
    (after : α → List Token → Reply β) :
    (reply.andThen after).result stop = .error fault ∧ (reply.andThen after).rest = reply.rest := by
  cases reply with
  | accepted value rest => cases failed
  | refused reason found later => cases failed; exact ⟨rfl,rfl⟩
  | exhausted expected => cases failed; exact ⟨rfl,rfl⟩

end Reply

theorem Operands.run_operand (least : Int) (earlier : List (BinaryOperator × Expr)) (o : BinaryOperator)
    (tokens : List Token) : (machine least).run (.operand earlier o .start) tokens =
      (Primary.read tokens).andThen fun e rest => (machine least).run (.between (earlier ++ [(o,e)])) rest := by
  refine Machine.run_and_then (State.operand earlier o) (fun e => State.between (earlier ++ [(o,e)]))
    (fun _ _ => rfl) ?_ .start tokens
  intro p
  cases value : Primary.finish p <;> simp only [machine,finish,Primary.machine,value] <;> rfl

namespace TokenStream

-- The longest run of sufficient operators, each with what the reading of a primary delivers behind it.
inductive Pairs (least : Int) : TokenStream → List (BinaryOperator × Expr) → TokenStream → Prop where
  | stop {s : TokenStream} (ends : ∀ o ∈ s.operator?, o.precedence < least) : Pairs least s [] s
  | next {s : TokenStream} (operator : s.operator? = some o) (sufficient : least ≤ o.precedence)
      (operand : s.advance.2.apply Primary.read = (.ok e,middle)) (later : Pairs least middle others after) :
      Pairs least s ((o,e) :: others) after

inductive Broken (least : Int) : TokenStream → SyntaxFault → TokenStream → Prop where
  | here {s : TokenStream} (operator : s.operator? = some o) (sufficient : least ≤ o.precedence)
      (failed : s.advance.2.apply Primary.read = (.error fault,after)) : Broken least s fault after
  | later {s : TokenStream} (operator : s.operator? = some o) (sufficient : least ≤ o.precedence)
      (operand : s.advance.2.apply Primary.read = (.ok e,middle)) (broken : Broken least middle fault after) :
      Broken least s fault after

variable {s : TokenStream} {least : Int}

theorem operator_unread (operator : s.operator? = some o) :
    ∃ t later, s.unread = t :: later ∧ t.binaryOperator? = some o := by
  unfold operator? peek at operator
  cases left : s.unread with
  | nil =>
      rw [left,List.headD_nil] at operator
      have ended : s.stop.kind = .endOfInput := of_decide_eq_true s.stop_end
      rw [Token.binary_operator_kind operator] at ended
      cases ended
  | cons t later => exact ⟨t,later,rfl,by rwa [left] at operator⟩

theorem operand_exact (operator : s.operator? = some o)
    (operand : s.advance.2.apply Primary.read = (result,after)) :
    ∃ t later, s.unread = t :: later ∧ t.binaryOperator? = some o ∧
      (Primary.read later).result s.stop = result ∧ s.before (Primary.read later).rest = after := by
  obtain ⟨t,later,left,binary⟩ := operator_unread operator
  have advanced : s.advance.2 = s.before later := by
    unfold advance
    rw [apply_exact,left]
    rfl
  have suffix : later <:+ s.unread := left ▸ List.suffix_cons t later
  rw [advanced,apply_exact,before_unread s suffix,before_stop s suffix,before_before s suffix] at operand
  cases operand
  exact ⟨t,later,left,binary,rfl,rfl⟩

theorem operand_read (operator : s.operator? = some o)
    (operand : s.advance.2.apply Primary.read = (.ok e,middle)) :
    ∃ t later rest, s.unread = t :: later ∧ t.binaryOperator? = some o ∧
      Primary.read later = .accepted e rest ∧ middle = s.before rest ∧ rest <:+ s.unread ∧
      rest.length < s.unread.length := by
  obtain ⟨t,later,left,binary,result,rfl⟩ := operand_exact operator operand
  obtain ⟨rest,read⟩ := Reply.result_ok.mp result
  have suffix : (Primary.read later).rest <:+ later := Machine.run_rest_suffix _ _ _
  rw [read] at suffix ⊢
  refine ⟨t,later,rest,left,binary,read,rfl,?_,?_⟩
  · exact suffix.trans (left ▸ List.suffix_cons t later)
  · rw [left]
    exact Nat.lt_succ_of_le suffix.length_le

theorem run_stop (ends : ∀ o ∈ s.operator?, o.precedence < least) (earlier : List (BinaryOperator × Expr)) :
    (Operands.machine least).run (.between earlier) s.unread = .accepted earlier s.unread := by
  unfold operator? peek at ends
  cases left : s.unread with
  | nil => rfl
  | cons t later =>
      rw [left,List.headD_cons] at ends
      have done : Operands.between least earlier t = .done earlier := by
        unfold Operands.between
        cases binary : t.binaryOperator? with
        | none => rfl
        | some o => exact if_neg (Int.not_le.mpr (ends o binary))
      simp only [Machine.run,Operands.machine,Operands.step,done]

theorem run_next (left : s.unread = t :: later) (binary : t.binaryOperator? = some o)
    (sufficient : least ≤ o.precedence) (earlier : List (BinaryOperator × Expr)) :
    (Operands.machine least).run (.between earlier) s.unread = (Primary.read later).andThen fun e rest =>
      (Operands.machine least).run (.between (earlier ++ [(o,e)])) rest := by
  have shifted : Operands.between least earlier t = .shift (.operand earlier o .start) := by
    simp only [Operands.between,binary,if_pos sufficient]
  rw [left,← Operands.run_operand]
  simp only [Machine.run,Operands.machine,Operands.step,shifted]

theorem pairs_read (pairs : Pairs least s others after) (placed : s.Placed)
    (earlier : List (BinaryOperator × Expr)) :
    ((Operands.machine least).run (.between earlier) s.unread).result s.stop = .ok (earlier ++ others) ∧
    s.before ((Operands.machine least).run (.between earlier) s.unread).rest = after := by
  induction pairs generalizing earlier with
  | stop ends =>
      rw [run_stop ends,List.append_nil]
      exact ⟨rfl,placed_before _ placed⟩
  | @next o middle e others after s operator sufficient operand later ih =>
      obtain ⟨t,later,rest,left,binary,read,rfl,suffix,_⟩ := operand_read operator operand
      have continued := ih (before_placed s suffix) (earlier ++ [(o,e)])
      rw [before_unread s suffix,before_stop s suffix,before_before s suffix,List.append_assoc] at continued
      rw [run_next left binary sufficient,read]
      exact continued

theorem broken_read (broken : Broken least s fault after) (earlier : List (BinaryOperator × Expr)) :
    ((Operands.machine least).run (.between earlier) s.unread).result s.stop = .error fault ∧
    s.before ((Operands.machine least).run (.between earlier) s.unread).rest = after := by
  induction broken generalizing earlier with
  | here operator sufficient failed =>
      obtain ⟨t,later,left,binary,read,rfl⟩ := operand_exact operator failed
      rw [run_next left binary sufficient]
      obtain ⟨result,rest⟩ := Reply.and_then_error read _
      exact ⟨result,congrArg _ rest⟩
  | @later o middle e fault after s operator sufficient operand broken ih =>
      obtain ⟨t,later,rest,left,binary,read,rfl,suffix,_⟩ := operand_read operator operand
      have continued := ih (earlier ++ [(o,e)])
      rw [before_unread s suffix,before_stop s suffix,before_before s suffix] at continued
      rw [run_next left binary sufficient,read]
      exact continued

theorem pairs_or_broken (least : Int) (s : TokenStream) :
    (∃ others after, Pairs least s others after) ∨ ∃ fault after, Broken least s fault after := by
  induction size : s.unread.length using Nat.strong_induction_on generalizing s with
  | _ size ih =>
      subst size
      by_cases sufficient : ∃ o ∈ s.operator?, least ≤ o.precedence
      · obtain ⟨o,operator,sufficient⟩ := sufficient
        cases operand : s.advance.2.apply Primary.read with
        | mk result middle =>
            cases result with
            | error fault => exact .inr ⟨fault,middle,.here operator sufficient operand⟩
            | ok e =>
                obtain ⟨t,later,rest,_,_,_,rfl,suffix,shorter⟩ := operand_read operator operand
                rcases ih _ ((before_unread s suffix).symm ▸ shorter) _ rfl with ⟨others,after,pairs⟩ | ⟨fault,after,broken⟩
                · exact .inl ⟨_,after,.next operator sufficient operand pairs⟩
                · exact .inr ⟨fault,after,.later operator sufficient operand broken⟩
      · exact .inl ⟨[],s,.stop fun o operator => Int.not_le.mp fun bound => sufficient ⟨o,operator,bound⟩⟩

theorem operands_exact {left : Node} (spanned : left.hasSpan = true) (least : Int) (s : TokenStream) :
    s.operands least left =
      ((((Operands.read least s.unread).result s.stop).map left.join).mapError .reading,
        s.before (Operands.read least s.unread).rest) := by
  simp only [operands,spanned,if_true,apply_exact,Reply.map_result,Reply.map_rest]

-- Behind a node of any known kind all sufficient operators are read, and the result is the only tree over these
-- operands that precedence and left association allow.
theorem operands_climb (least : Int) (left : Node) (spanned : left.hasSpan = true) (s : TokenStream)
    (placed : s.Placed) :
    (∀ others after, Pairs least s others after →
      ∃ t : OperatorTree Node, s.operands least left = (.ok (.ofTree t),after) ∧
        t.leaves = left :: others.map (fun next => next.2.toNode) ∧ t.operators = others.map Prod.fst ∧
        t.Grouped ∧ ∀ u : OperatorTree Node, u.leaves = t.leaves → u.operators = t.operators →
          u.Grouped → u = t) ∧
    (∀ fault after, Broken least s fault after → s.operands least left = (.error (.reading fault),after)) ∧
    ((∃ others after, Pairs least s others after) ∨ ∃ fault after, Broken least s fault after) := by
  refine ⟨?_,?_,pairs_or_broken least s⟩
  · intro others after pairs
    obtain ⟨result,rest⟩ := pairs_read pairs placed []
    let run : OperandRun Node := ⟨left,others.map fun next => (next.1,next.2.toNode)⟩
    have leaves : run.tree.leaves = left :: others.map (fun next => next.2.toNode) := by
      rw [run.tree_leaves,List.map_map]
      rfl
    have operators : run.tree.operators = others.map Prod.fst := by
      rw [run.tree_operators,List.map_map]
      rfl
    refine ⟨run.tree,?_,leaves,operators,run.tree_grouped,?_⟩
    · rw [operands_exact spanned]
      unfold Operands.read
      rw [result,rest]
      rfl
    · intro u sameLeaves sameOperators grouped
      exact run.tree_unique grouped (sameLeaves.trans run.tree_leaves) (sameOperators.trans run.tree_operators)
  · intro fault after broken
    obtain ⟨result,rest⟩ := broken_read broken []
    rw [operands_exact spanned]
    unfold Operands.read
    rw [result,rest]
    rfl

-- `- b * c - d` behind `a`, with a least precedence that ends the run in front of `<`.
theorem operands_climb_difference :
    let s := ofTokens [.ofSymbol "-",.ofName "b",.ofSymbol "*",.ofName "c",.ofSymbol "-",.ofName "d",
      .ofSymbol "<",.ofName "e"]
    (Node.reference "a" none).hasSpan = true ∧ s.Placed ∧ (s.operands 20 (.reference "a" none)).1 =
      .ok (.binary (.binary (.reference "a" none) "-"
        (.binary (.reference "b" none) "*" (.reference "c" none) none) none) "-" (.reference "d" none) none) := by
  intro s
  have placed : s.Placed := by decide
  have second : s.advance.2.apply Primary.read = (.ok (.reference "b" none),{ s with place := 2 }) := rfl
  have third : ({ s with place := 2 } : TokenStream).advance.2.apply Primary.read =
      (.ok (.reference "c" none),{ s with place := 4 }) := rfl
  have fourth : ({ s with place := 4 } : TokenStream).advance.2.apply Primary.read =
      (.ok (.reference "d" none),{ s with place := 6 }) := rfl
  have pairs : Pairs 20 s [(.minus,.reference "b" none),(.times,.reference "c" none),(.minus,.reference "d" none)]
      { s with place := 6 } :=
    .next rfl (by decide) second (.next rfl (by decide) third (.next rfl (by decide) fourth (.stop (by decide))))
  obtain ⟨t,result,leaves,operators,_,unique⟩ :=
    (operands_climb 20 (.reference "a" none) rfl s placed).1 _ _ pairs
  have grouped : (OperatorTree.node (.node (.leaf (Node.reference "a" none)) .minus
      (.node (.leaf (.reference "b" none)) .times (.leaf (.reference "c" none)))) .minus
      (.leaf (.reference "d" none))).Grouped :=
    .node (.node (.leaf _) (.node (.leaf _) (.leaf _) (by decide) (by decide)) (by decide) (by decide))
      (.leaf _) (by decide) (by decide)
  have tree := unique _ (by rw [leaves]; rfl) (by rw [operators]; rfl) grouped
  rw [result,← tree]
  exact ⟨rfl,placed,rfl⟩

end TokenStream

end KaleidoscopeFrontEnd
