import KaleidoscopeFrontEnd.Proofs.Descent

namespace KaleidoscopeFrontEnd

namespace Descent

open TokenStream

variable {ε α β : Type} {s : TokenStream} {rest later : List Token} {t : Token}

-- The outcome that a reply on the unread tokens stands for, wherever in them it was asked for.
def settled (s : TokenStream) (reply : Reply α) : Outcome SyntaxFault α :=
  some (reply.result s.stop,s.before reply.rest)

theorem settled_and_then {reply : Reply α} {next : α → List Token → Reply β}
    {after : α → TokenStream → Outcome SyntaxFault β}
    (goes : ∀ v left, reply = .accepted v left → after v (s.before left) = settled s (next v left)) :
    andThen (settled s reply) after = settled s (reply.andThen next) := by
  cases reply with
  | accepted v left => exact goes v left rfl
  | refused | exhausted => rfl

theorem settled_map {reply : Reply α} {f : α → β} {after : α → TokenStream → Outcome SyntaxFault β}
    (goes : ∀ v left, reply = .accepted v left → after v (s.before left) = some (.ok (f v),s.before left)) :
    andThen (settled s reply) after = settled s (reply.map f) := by
  cases reply with
  | accepted v left => exact goes v left rfl
  | refused | exhausted => rfl

theorem apply_settled (left : rest <:+ s.unread) (reading : List Token → Reply α) :
    some ((s.before rest).apply reading) = settled s (reading rest) := by
  rw [apply_exact,before_unread s left,before_stop s left,before_before s left]
  rfl

theorem advance_next (left : t :: later <:+ s.unread) (after : Token → TokenStream → Outcome SyntaxFault β) :
    andThen (some (s.before (t :: later)).advance) after = after t (s.before later) := by
  rw [advance,apply_settled left]
  rfl

theorem expect_next {reading : List Token → Reply β} {after : Token → TokenStream → Outcome SyntaxFault β}
    (left : rest <:+ s.unread) (inner : k ≠ .endOfInput) {expected : Expectation}
    (goes : ∀ t later, rest = t :: later → t.kind = k → after t (s.before later) = settled s (reading (t :: later))) :
    andThen (some ((s.before rest).expect k expected)) after = settled s (demand k expected reading rest) := by
  rw [expect,apply_settled left]
  cases rest with
  | nil =>
      simp only [demand,if_neg inner]
      rfl
  | cons t later =>
      by_cases kind : t.kind = k
      · rw [demand,if_pos kind,demand,if_pos kind]
        exact goes t later rfl kind
      · rw [demand,if_neg kind,demand,if_neg kind]
        rfl

theorem demand_met {reading : List Token → Reply α} (kind : t.kind = k) :
    settled s (demand k expected reading (t :: later)) = settled s (reading (t :: later)) :=
  congrArg (settled s) (if_pos kind)

theorem suffix_tail (left : t :: later <:+ s.unread) : later <:+ s.unread := (List.suffix_cons t later).trans left

theorem inner_kind (left : t :: later <:+ s.unread) : t.kind ≠ .endOfInput := by
  have inner := s.unread_endless t (left.subset List.mem_cons_self)
  exact of_decide_eq_false inner

theorem stop_kind (s : TokenStream) : s.stop.kind = .endOfInput := of_decide_eq_true s.stop_end

theorem peek_nil (left : [] <:+ s.unread) : (s.before []).peek = s.stop := before_peek left

theorem peek_cons (left : t :: later <:+ s.unread) : (s.before (t :: later)).peek = t := before_peek left

theorem check_exact (left : rest <:+ s.unread) (inner : kind ≠ .endOfInput) :
    (s.before rest).check kind = true ↔ ∃ t ∈ rest.head?, t.kind = kind := by
  rw [check,decide_eq_true_eq]
  cases rest with
  | nil =>
      rw [peek_nil left,stop_kind]
      exact ⟨fun same => absurd same.symm inner,by rintro ⟨t,none,_⟩; cases none⟩
  | cons t later =>
      rw [peek_cons left]
      exact ⟨fun same => ⟨t,rfl,same⟩,by rintro ⟨u,first,same⟩; cases first; exact same⟩

theorem before_previous (placed : s.Placed) (split : s.unread = w ++ z :: rest) : (s.before rest).previous = z := by
  have place : (s.before rest).place = s.place + (w ++ [z]).length :=
    before_place (placed_inside.mp placed) (by rw [split,List.append_assoc]; rfl)
  have here : s.tokens[s.place + w.length]? = some z := by
    have ahead : s.ahead[w.length]? = some z := by
      rw [ahead_split,split,List.append_assoc,List.getElem?_append_right (Nat.le_refl _),Nat.sub_self]
      rfl
    rwa [TokenStream.ahead,List.getElem?_drop] at ahead
  have behind : (s.before rest).place - 1 = s.place + w.length := by
    rw [place,List.length_append,List.length_singleton]
    rfl
  rw [previous,behind]
  change (s.tokens[s.place + w.length]?).getD _ = z
  rw [here]
  rfl

theorem passed_previous (placed : s.Placed) (left : later <:+ s.unread) (split : later = w ++ rest) :
    (s.before rest).previous = w.getLastD (s.before later).previous := by
  subst split
  rcases List.eq_nil_or_concat w with rfl | ⟨inner,z,rfl⟩
  · rfl
  · obtain ⟨front,split⟩ := left
    rw [List.concat_eq_append,List.getLastD_concat]
    refine before_previous (w := front ++ inner) placed ?_
    rw [← split]
    simp only [List.concat_eq_append,List.append_assoc,List.singleton_append]

theorem keyword_previous (placed : s.Placed) (left : t :: later <:+ s.unread) : (s.before later).previous = t :=
  before_previous placed left.choose_spec.symm

theorem operator_ahead (left : rest <:+ s.unread) (least : Int) :
    ((∀ t ∈ rest.head?, ∀ o, t.binaryOperator? = some o → o.precedence < least) ∧
      ∀ o, (s.before rest).operator? = some o → o.precedence < least) ∨
      ∃ t later o, rest = t :: later ∧ (s.before rest).operator? = some o ∧ t.binaryOperator? = some o ∧
        least ≤ o.precedence := by
  rcases Operands.first_operator least rest with ends | ⟨t,later,o,rfl,binary,sufficient⟩
  · refine .inl ⟨ends,fun o found => ?_⟩
    cases rest with
    | nil =>
        rw [operator?,peek_nil left,Token.not_binary (stop_kind s) (by decide)] at found
        cases found
    | cons t later =>
        rw [operator?,peek_cons left] at found
        exact ends t rfl o found
  · exact .inr ⟨t,later,o,rfl,by rw [operator?,peek_cons left,binary],binary,sufficient⟩

-- Three calls for every unread token and a few more are enough. A procedure that enters another in front of the same
-- token needs a call more than that.
structure Returns (n : Nat) : Prop where
  expression {s : TokenStream} {rest : List Token} (placed : s.Placed) (left : rest <:+ s.unread)
    (deep : 3 * rest.length + 3 ≤ n) : expression n (s.before rest) = settled s (Expression.read rest)
  primary {s : TokenStream} {rest : List Token} (placed : s.Placed) (left : rest <:+ s.unread)
    (deep : 3 * rest.length + 2 ≤ n) : primary n (s.before rest) = settled s (Primary.read rest)
  group {s : TokenStream} {rest : List Token} (placed : s.Placed) (left : rest <:+ s.unread)
    (deep : 3 * rest.length + 1 ≤ n) : group n (s.before rest) = settled s (Primary.readGroup rest)
  name {s : TokenStream} {rest : List Token} (placed : s.Placed) (left : rest <:+ s.unread)
    (deep : 3 * rest.length + 1 ≤ n) : name n (s.before rest) = settled s (Primary.readName rest)
  arguments {s : TokenStream} {rest : List Token} (placed : s.Placed) (left : rest <:+ s.unread)
    (deep : 3 * rest.length + 2 ≤ n) (callee : Token) : arguments n (s.before rest) =
      settled s (demand .openParen .argumentsOpening
        (fun tokens => (Primary.machine.run ⟨.name callee,[]⟩ tokens).map Expr.arguments) rest)
  moreArguments {s : TokenStream} {rest : List Token} (placed : s.Placed) (left : rest <:+ s.unread)
    (deep : 3 * rest.length + 4 ≤ n) (callee : Token) (read : List Expr) : moreArguments n read (s.before rest) =
      settled s ((Primary.machine.run ⟨.operand,[.ofBracket (.arguments callee read)]⟩ rest).map Expr.arguments)
  operand {s : TokenStream} {t : Token} {later : List Token} (placed : s.Placed) (left : t :: later <:+ s.unread)
    (deep : 3 * later.length + 3 ≤ n) (o : BinaryOperator) : operand n o (s.before (t :: later)) =
      settled s (Operands.tightened o later)
  binary {s : TokenStream} {rest : List Token} (placed : s.Placed) (left : rest <:+ s.unread)
    (deep : 3 * rest.length + 2 ≤ n) (least : Int) (first : Expr) : binary n least first (s.before rest) =
      settled s ((Operands.read least rest).map (Expression.join first))

theorem number_settled (placed : s.Placed) (left : rest <:+ s.unread) :
    number (s.before rest) = settled s (Primary.readNumber rest) := by
  refine expect_next left (by decide) fun t later split kind => ?_
  subst split
  rw [keyword_previous placed left,Primary.read_number kind]
  rfl

namespace Returns

variable (returns : Returns n)
include returns

theorem expression_next (placed : s.Placed) (left : rest <:+ s.unread) (deep : 3 * rest.length + 3 ≤ n + 1) :
    Descent.expression (n + 1) (s.before rest) = settled s (Expression.read rest) := by
  rw [Descent.expression,returns.primary placed left (by omega),Expression.read_first]
  refine settled_and_then fun first behind accepted => ?_
  have shorter := Primary.read_shorter accepted
  exact returns.binary placed ((Machine.run_suffix accepted).trans left) (by omega) 0 first

theorem primary_next (placed : s.Placed) (left : rest <:+ s.unread) (deep : 3 * rest.length + 2 ≤ n + 1) :
    Descent.primary (n + 1) (s.before rest) = settled s (Primary.read rest) := by
  cases rest with
  | nil =>
      simp only [Descent.primary,peek_nil left,stop_kind]
      rfl
  | cons t later =>
      have inner := inner_kind left
      simp only [Descent.primary,peek_cons left]
      cases kind : t.kind with
      | endOfInput => exact absurd kind inner
      | number => exact (number_settled placed left).trans (demand_met kind)
      | openParen => exact (returns.group placed left (by omega)).trans (demand_met kind)
      | identifier => exact (returns.name placed left (by omega)).trans (demand_met kind)
      | definition | external | closeParen | comma | operator =>
          rw [Primary.read_other (by rw [kind]; decide) (by rw [kind]; decide) (by rw [kind]; decide)]
          rfl

theorem group_next (placed : s.Placed) (left : rest <:+ s.unread) (deep : 3 * rest.length + 1 ≤ n + 1) :
    Descent.group (n + 1) (s.before rest) = settled s (Primary.readGroup rest) := by
  refine expect_next left (by decide) fun t later split opening => ?_
  subst split
  rw [List.length_cons] at deep
  have tail := suffix_tail left
  rw [Primary.read_group opening,returns.expression placed tail (by omega)]
  refine settled_and_then fun e behind accepted => ?_
  rw [expect,apply_settled ((Machine.run_suffix accepted).trans tail)]
  exact settled_and_then fun c final _ => rfl

theorem name_next (placed : s.Placed) (left : rest <:+ s.unread) (deep : 3 * rest.length + 1 ≤ n + 1) :
    Descent.name (n + 1) (s.before rest) = settled s (Primary.readName rest) := by
  refine expect_next left (by decide) fun t later split named => ?_
  subst split
  rw [List.length_cons] at deep
  have tail := suffix_tail left
  rw [Primary.read_name named]
  by_cases opening : (s.before later).check .openParen = true
  · obtain ⟨o,first,opens⟩ := (check_exact tail (by decide)).mp opening
    obtain ⟨behind,rfl⟩ := List.head?_eq_some_iff.mp first
    rw [if_pos opening,returns.arguments placed tail (by omega) t,demand_met opens]
    cases reply : Primary.machine.run ⟨.name t,[]⟩ (o :: behind) with
    | refused | exhausted => rfl
    | accepted e final =>
        obtain ⟨w,c,es,whole,rfl⟩ := Primary.read_call named opens ((Primary.read_name named _).trans reply)
        obtain ⟨front,split⟩ := left
        have closed : (s.before final).previous = c := by
          refine before_previous (w := front ++ w) placed ?_
          rw [List.append_assoc,← whole,split]
        simp only [Reply.map,settled,andThen,Reply.result,Reply.rest,closed]
        rfl
  · have apart : ∀ o ∈ later.head?, o.kind ≠ .openParen := fun o first same =>
      opening ((check_exact tail (by decide)).mpr ⟨o,first,same⟩)
    rw [if_neg opening,Primary.reference_run apart,keyword_previous placed left]
    rfl

theorem arguments_next (placed : s.Placed) (left : rest <:+ s.unread) (deep : 3 * rest.length + 2 ≤ n + 1)
    (callee : Token) : Descent.arguments (n + 1) (s.before rest) = settled s (demand .openParen .argumentsOpening
      (fun tokens => (Primary.machine.run ⟨.name callee,[]⟩ tokens).map Expr.arguments) rest) := by
  refine expect_next left (by decide) fun t later split opening => ?_
  subst split
  rw [List.length_cons] at deep
  have tail := suffix_tail left
  rw [Primary.call_run opening]
  by_cases closing : (s.before later).check .closeParen = true
  · obtain ⟨c,first,closes⟩ := (check_exact tail (by decide)).mp closing
    obtain ⟨behind,rfl⟩ := List.head?_eq_some_iff.mp first
    rw [if_pos closing,advance_next tail,Primary.bare_run closes]
    rfl
  · have some : ∀ c ∈ later.head?, c.kind ≠ .closeParen := fun c first same =>
      closing ((check_exact tail (by decide)).mpr ⟨c,first,same⟩)
    rw [if_neg closing,Primary.arguments_run some,returns.moreArguments placed tail (by omega) callee]

theorem more_arguments_next (placed : s.Placed) (left : rest <:+ s.unread) (deep : 3 * rest.length + 4 ≤ n + 1)
    (callee : Token) (read : List Expr) : Descent.moreArguments (n + 1) read (s.before rest) =
      settled s ((Primary.machine.run ⟨.operand,[.ofBracket (.arguments callee read)]⟩ rest).map Expr.arguments) := by
  rw [Descent.moreArguments,returns.expression placed left (by omega),Primary.argument_run,Reply.map_and_then]
  refine settled_and_then fun e behind accepted => ?_
  have shorter := Expression.read_shorter accepted
  have tail : behind <:+ s.unread := (Machine.run_suffix accepted).trans left
  cases behind with
  | nil =>
      simp only [peek_nil tail,stop_kind]
      rfl
  | cons t later =>
      have inner := inner_kind tail
      simp only [peek_cons tail,Primary.behindArgument,advance_next tail]
      cases kind : t.kind with
      | endOfInput => exact absurd kind inner
      | comma =>
          rw [List.length_cons] at shorter
          exact returns.moreArguments placed (suffix_tail tail) (by omega) callee (read ++ [e])
      | closeParen | definition | external | identifier | number | openParen | operator => rfl

theorem operand_next (placed : s.Placed) (left : t :: later <:+ s.unread) (deep : 3 * later.length + 3 ≤ n + 1)
    (o : BinaryOperator) :
    Descent.operand (n + 1) o (s.before (t :: later)) = settled s (Operands.tightened o later) := by
  have tail := suffix_tail left
  rw [Descent.operand,advance_next left,Operands.tightened,returns.primary placed tail (by omega)]
  refine settled_and_then fun right behind accepted => ?_
  have shorter := Primary.read_shorter accepted
  have further : behind <:+ s.unread := (Machine.run_suffix accepted).trans tail
  by_cases tighter : o.precedence < (s.before behind).precedence
  · rw [if_pos tighter]
    exact returns.binary placed further (by omega) (o.precedence + 1) right
  · rw [if_neg tighter]
    rcases operator_ahead further (o.precedence + 1) with ⟨ends,_⟩ | ⟨u,final,next,_,found,_,binds⟩
    · rw [Operands.read_ended ends]
      rfl
    · rw [precedence,found] at tighter
      exact absurd (Int.lt_of_add_one_le binds) tighter

theorem binary_next (placed : s.Placed) (left : rest <:+ s.unread) (deep : 3 * rest.length + 2 ≤ n + 1) (least : Int)
    (first : Expr) : Descent.binary (n + 1) least first (s.before rest) =
      settled s ((Operands.read least rest).map (Expression.join first)) := by
  rw [Descent.binary]
  rcases operator_ahead left least with ⟨ends,loose⟩ | ⟨t,later,o,rfl,found,binary,sufficient⟩
  · rw [Operands.read_ended ends]
    cases found : (s.before rest).operator? with
    | none => rfl
    | some o => exact if_pos (loose o found)
  · rw [List.length_cons] at deep
    have joined : (Operands.read least (t :: later)).map (Expression.join first) =
        (Operands.tightened o later).andThen fun right rest => (Operands.read least rest).map
          (Expression.join (.binary first o right (Span.join first.span right.span))) :=
      Operands.read_joined (fun tight loose => Expression.join_operation tight loose first _) binary sufficient later
    simp only [found,if_neg (Int.not_lt.mpr sufficient)]
    rw [returns.operand placed left (by omega) o,joined]
    refine settled_and_then fun right behind accepted => ?_
    have shorter := Operands.tightened_shorter accepted
    exact returns.binary placed (Operands.tightened_suffix accepted |>.trans (suffix_tail left)) (by omega) least _

end Returns

theorem returns (n : Nat) : Returns n := by
  induction n with
  | zero => exact ⟨by omega,by omega,by omega,by omega,by omega,by omega,by omega,by omega⟩
  | succ n ih => exact ⟨ih.expression_next,ih.primary_next,ih.group_next,ih.name_next,ih.arguments_next,
      ih.more_arguments_next,ih.operand_next,ih.binary_next⟩

theorem reported_and_then {reply : Reply α} {next : α → List Token → Reply β}
    {after : α → TokenStream → Outcome OperandFault β}
    (goes : ∀ v left, reply = .accepted v left → after v (s.before left) = reported (settled s (next v left))) :
    andThen (reported (settled s reply)) after = reported (settled s (reply.andThen next)) := by
  cases reply with
  | accepted v left => exact goes v left rfl
  | refused | exhausted => rfl

theorem spanned_settled (placed : s.Placed) (left : rest <:+ s.unread) (deep : 3 * rest.length + 2 ≤ n) (least : Int)
    (first : Node) (spanned : first.hasSpan = true) : binaryNode n least first (s.before rest) =
      reported (settled s ((Operands.read least rest).map first.join)) := by
  -- Joining makes a node with a place for a span, whatever the right operand is.
  induction n generalizing rest first with
  | zero => omega
  | succ n ih =>
      rw [binaryNode]
      rcases operator_ahead left least with ⟨ends,loose⟩ | ⟨t,later,o,rfl,found,binary,sufficient⟩
      · rw [Operands.read_ended ends]
        cases found : (s.before rest).operator? with
        | none => rfl
        | some o => exact if_pos (loose o found)
      · rw [List.length_cons] at deep
        have joined : (Operands.read least (t :: later)).map first.join =
            (Operands.tightened o later).andThen fun right rest => (Operands.read least rest).map
              (Node.join (.binary first o.symbol right.toNode (Span.join first.span right.toNode.span))) :=
          Operands.read_joined (fun tight loose => Node.join_operation tight loose first _) binary sufficient later
        simp only [found,if_neg (Int.not_lt.mpr sufficient),spanned,if_true]
        rw [(returns n).operand placed left (by omega) o,joined]
        refine reported_and_then fun right behind accepted => ?_
        have shorter := Operands.tightened_shorter accepted
        exact ih ((Operands.tightened_suffix accepted).trans (suffix_tail left)) (by omega) _ rfl

-- Behind a node without a place for a span the first operator is read and no other.
theorem spanless_settled (placed : s.Placed) (deep : 3 * s.unread.length + 2 ≤ n) (least : Int) (first : Node)
    (spanless : first.hasSpan = false) : binaryNode n least first s = some (s.operands least first) := by
  have here := placed_before s placed
  have whole : s.unread <:+ s.unread := List.suffix_refl _
  cases n with
  | zero => omega
  | succ n =>
      simp only [binaryNode,operands,apply_exact,spanless,Bool.false_eq_true,if_false]
      rcases operator_ahead whole least with ⟨ends,loose⟩ | ⟨t,later,o,split,found,binary,sufficient⟩
      · rw [here] at loose
        rw [Operands.first_ended ends,Reply.rest,here]
        cases found : s.operator? with
        | none => rfl
        | some o => exact if_pos (loose o found)
      · rw [here] at found
        rw [split,List.length_cons] at deep
        have left : t :: later <:+ s.unread := ⟨[],split.symm⟩
        have taken := (returns n).operand placed left (by omega) o
        rw [← split,here] at taken
        simp only [found,if_neg (Int.not_lt.mpr sufficient),taken,split,Operands.first_taken binary sufficient,
          Operands.tightened]
        cases Primary.read later with
        | refused | exhausted => rfl
        | accepted e rest =>
            simp only [Reply.andThen]
            cases Operands.read (o.precedence + 1) rest <;> rfl

theorem parameters_settled (placed : s.Placed) (left : rest <:+ s.unread) (deep : rest.length + 1 ≤ n) (name : Token)
    (read : List String) : parameters n name read (s.before rest) =
      settled s (Header.machine.run (.parameters name read) rest) := by
  induction n generalizing rest read with
  | zero => omega
  | succ n ih =>
      cases rest with
      | nil =>
          simp only [parameters,peek_nil left,stop_kind]
          rfl
      | cons t later =>
          have inner := inner_kind left
          have tail := suffix_tail left
          rw [List.length_cons] at deep
          simp only [parameters,peek_cons left,advance_next left,Machine.run,Header.machine,Header.step]
          cases kind : t.kind with
          | endOfInput => exact absurd kind inner
          | identifier => exact ih tail (by omega) (read ++ [t.word])
          | closeParen =>
              rw [keyword_previous placed left]
              cases later <;> rfl
          | comma | definition | external | number | openParen | operator => rfl

theorem header_settled (placed : s.Placed) (left : rest <:+ s.unread) (deep : rest.length ≤ n) :
    header n (s.before rest) = settled s (Header.read rest) := by
  rw [Header.read_demands]
  refine expect_next left (by decide) fun t later split named => ?_
  subst split
  rw [Header.read_name named,Header.opening_demands]
  refine expect_next (suffix_tail left) (by decide) fun o behind split opening => ?_
  subst split
  rw [List.length_cons,List.length_cons] at deep
  rw [Header.opening_run opening]
  exact parameters_settled placed (suffix_tail (suffix_tail left)) (by omega) t []

theorem definition_settled (placed : s.Placed) (left : rest <:+ s.unread) (deep : 3 * rest.length + 3 ≤ n) :
    definition n (s.before rest) = settled s (TopLevel.readDefinition rest) := by
  refine expect_next left (by decide) fun t later split keyword => ?_
  subst split
  rw [List.length_cons] at deep
  have tail := suffix_tail left
  obtain ⟨w,split,ran⟩ := TopLevel.header_run t t later
  rw [TopLevel.read_kind]
  simp only [keyword]
  rw [ran,header_settled placed tail (by omega)]
  refine settled_and_then fun p behind accepted => ?_
  simp only [accepted,Reply.rest] at split
  have shorter := Machine.run_shorter accepted
  have further := (Machine.run_suffix accepted).trans tail
  obtain ⟨v,parts,ran⟩ := TopLevel.body_run t (w.getLastD t) p behind
  rw [ran,(returns n).expression placed further (by omega)]
  refine settled_map fun e final accepted => ?_
  simp only [accepted,Reply.rest] at parts
  rw [passed_previous placed further parts,passed_previous placed tail split,keyword_previous placed left]
  rfl

theorem external_settled (placed : s.Placed) (left : rest <:+ s.unread) (deep : rest.length ≤ n) :
    external n (s.before rest) = settled s (TopLevel.readExternal rest) := by
  refine expect_next left (by decide) fun t later split keyword => ?_
  subst split
  rw [List.length_cons] at deep
  have tail := suffix_tail left
  obtain ⟨w,split,ran⟩ := TopLevel.external_run t t later
  rw [TopLevel.read_kind]
  simp only [keyword]
  rw [ran,header_settled placed tail (by omega)]
  refine settled_map fun p behind accepted => ?_
  simp only [accepted,Reply.rest] at split
  rw [passed_previous placed tail split,keyword_previous placed left]
  rfl

theorem bare_expression_settled (placed : s.Placed) (left : rest <:+ s.unread) (deep : 3 * rest.length + 3 ≤ n) :
    bareExpression n (s.before rest) = settled s (TopLevel.readExpression rest) := by
  rw [bareExpression,(returns n).expression placed left deep]
  cases rest with
  | nil => rfl
  | cons t later =>
      obtain ⟨w,split,ran⟩ := TopLevel.anonymous_run t later
      rw [ran]
      refine settled_map fun e behind accepted => ?_
      have shorter := Expression.read_shorter accepted
      simp only [accepted,Reply.rest] at split
      cases w with
      | nil => exact absurd (split ▸ shorter) (Nat.lt_irrefl _)
      | cons u w =>
          obtain ⟨rfl,parts⟩ := List.cons.inj split
          rw [peek_cons left,passed_previous placed (suffix_tail left) parts,keyword_previous placed left,
            List.getLastD_cons]

theorem item_settled (placed : s.Placed) (left : rest <:+ s.unread) (deep : 3 * rest.length + 3 ≤ n) :
    item n (s.before rest) = settled s (TopLevel.read rest) := by
  unfold item
  cases rest with
  | nil =>
      simp only [peek_nil left,stop_kind]
      rfl
  | cons t later =>
      have inner := inner_kind left
      simp only [peek_cons left]
      cases kind : t.kind with
      | endOfInput => exact absurd kind inner
      | definition => exact (definition_settled placed left deep).trans (demand_met kind)
      | external => exact (external_settled placed left (by omega)).trans (demand_met kind)
      | identifier | number | openParen | closeParen | comma | operator =>
          rw [TopLevel.read_kind]
          simp only [kind]
          exact bare_expression_settled placed left deep

theorem program_settled (placed : s.Placed) (left : rest <:+ s.unread) (deep : 3 * rest.length + 4 ≤ n)
    (items : List Item) : program n items (s.before rest) = settled s (Program.machine.run (.between items) rest) := by
  induction n generalizing rest items with
  | zero => omega
  | succ n ih =>
      rw [program]
      cases rest with
      | nil =>
          have other : s.stop.isTerminator = false := by
            cases terminator : s.stop.isTerminator with
            | false => rfl
            | true => exact absurd ((stop_kind s).symm.trans (Token.terminator_parts terminator).1) (by decide)
          rw [isAtEnd,peek_nil left,other,s.stop_end]
          rfl
      | cons t later =>
          rw [isAtEnd,peek_cons left]
          cases terminator : t.isTerminator with
          | true =>
              rw [List.length_cons] at deep
              rw [if_pos rfl,advance_next left,Program.terminator_run terminator]
              exact ih (suffix_tail left) (by omega) items
          | false =>
              have inner : t.isEnd = false := s.unread_endless t (left.subset List.mem_cons_self)
              rw [inner,Program.item_read terminator,item_settled placed left (by omega)]
              refine settled_and_then fun i behind accepted => ?_
              obtain ⟨v,split,derived⟩ := TopLevel.read_derives accepted
              have positive := List.length_pos_iff.mpr derived.nonempty
              have length := congrArg List.length split
              rw [List.length_append] at length
              exact ih ((Machine.run_suffix accepted).trans left) (by omega) (items ++ [i])

theorem answered_settled {procedure : TokenStream → Outcome SyntaxFault α} {reading : List Token → Reply α}
    (placed : s.Placed) (value : α → Value) (settles : procedure (s.before s.unread) = settled s (reading s.unread)) :
    answered value (procedure s) = some (TokenStream.answered value (s.apply reading)) := by
  rw [placed_before s placed] at settles
  rw [settles]
  rfl

theorem operands_settled (placed : s.Placed) (deep : 3 * s.unread.length + 2 ≤ n) (least : Int) (left : Node) :
    binaryNode n least left s = some (s.operands least left) := by
  cases spanned : left.hasSpan with
  | false => exact spanless_settled placed deep least left spanned
  | true =>
      have settles := spanned_settled placed (List.suffix_refl _) deep least left spanned
      rw [placed_before s placed] at settles
      rw [settles,operands,if_pos spanned]
      rfl

theorem call_settled (placed : s.Placed) (call : Call) (deep : 3 * s.unread.length + 4 ≤ n) :
    Descent.call n s call = some (s.call call) := by
  have whole : s.unread <:+ s.unread := List.suffix_refl _
  cases call with
  | item => exact answered_settled placed _ (item_settled placed whole (by omega))
  | definition => exact answered_settled placed _ (definition_settled placed whole (by omega))
  | external => exact answered_settled placed _ (external_settled placed whole (by omega))
  | bareExpression => exact answered_settled placed _ (bare_expression_settled placed whole (by omega))
  | program => exact answered_settled placed _ (program_settled placed whole deep [])
  | header => exact answered_settled placed _ (header_settled placed whole (by omega))
  | expression => exact answered_settled placed _ ((returns n).expression placed whole (by omega))
  | primary => exact answered_settled placed _ ((returns n).primary placed whole (by omega))
  | number => exact answered_settled placed _ (number_settled placed whole)
  | group => exact answered_settled placed _ ((returns n).group placed whole (by omega))
  | name => exact answered_settled placed _ ((returns n).name placed whole (by omega))
  | arguments => exact answered_settled placed _ ((returns n).arguments placed whole (by omega) _)
  | operands least left =>
      rw [Descent.call,operands_settled placed (by omega)]
      rfl
  | precedence | peek | previous | isAtEnd | check | advance | expect => rfl

end Descent

end KaleidoscopeFrontEnd
