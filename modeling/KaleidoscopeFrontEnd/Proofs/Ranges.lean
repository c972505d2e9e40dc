import KaleidoscopeFrontEnd.Proofs.Parentheses
import KaleidoscopeFrontEnd.Proofs.Spans

namespace KaleidoscopeFrontEnd

def Span.tokens (s : Span) (w : List Token) : List Token :=
  let behind := w.dropWhile fun t => decide (t.location ≠ some s.first)
  behind.takeWhile (fun t => decide (t.location ≠ some s.last)) ++
    (behind.dropWhile fun t => decide (t.location ≠ some s.last)).take 1

theorem InOrder.elsewhere (order : InOrder (w ++ t :: v)) (located : t.location = some l) :
    ∀ u ∈ w, decide (u.location ≠ some l) = true := by
  intro u member
  rw [decide_eq_true_iff]
  intro here
  have apart := (List.pairwise_append.mp order.ordered).2.2 u member t List.mem_cons_self l here l located
  exact absurd apart (Int.lt_irrefl _)

theorem InOrder.span_tokens {s : Span} (order : InOrder (before ++ range)) (first : k ∈ range.head?) (last : z ∈ range.getLast?)
    (names : s.Names k z) (after : List Token) : s.tokens (before ++ range ++ after) = range := by
  obtain ⟨later,rfl⟩ := List.head?_eq_some_iff.mp first
  obtain ⟨inner,whole⟩ := List.getLast?_eq_some_iff.mp last
  have start : (before ++ k :: later ++ after).dropWhile (fun t => decide (t.location ≠ some s.first)) = k :: later ++ after := by
    rw [List.append_assoc,List.dropWhile_append_of_pos (order.elsewhere names.1)]
    exact List.dropWhile_cons_of_neg (by simp [names.1])
  have front : ∀ u ∈ inner, decide (u.location ≠ some s.last) = true := by
    have rest := order.part (List.sublist_append_right before (k :: later))
    rw [whole] at rest
    exact rest.elsewhere names.2
  unfold Span.tokens
  simp only [start]
  rw [whole,List.append_assoc,List.takeWhile_append_of_pos front,List.dropWhile_append_of_pos front]
  simp [names.2]

-- The tokens and nothing else are an expression.
def ReadAlone (w : List Token) (e : Expr) : Prop :=
  ∃ s, (TokenStream.ofTokens w).apply Expression.read = (.ok e,s) ∧ s.isAtEnd = true

theorem Expression.read_exact : Expression.read w = .accepted e [] ↔ Derivation.Derives w e := by
  constructor
  · intro read
    obtain ⟨v,stopped,left,rfl,consumed,verdict⟩ := Machine.run_exact.mp read
    have reached : Reached stopped ([] ++ v) := Machine.consume_invariant step_reached (.first Primary.start_reached) consumed
    cases verdict
    rename_i value
    obtain ⟨r,run,same⟩ := finish_derives reached value
    rw [List.append_nil]
    exact ⟨r,run,same.symm⟩
  · rintro ⟨r,run,rfl⟩
    obtain ⟨s,consumed,offers⟩ := run_consumed run
    exact Machine.run_exact.mpr ⟨w,s,[],(List.append_nil w).symm,consumed,.finished offers.finish⟩

theorem TokenStream.at_end_exact (s : TokenStream) : s.isAtEnd = true ↔ s.unread = [] := by
  have endless := s.unread_endless
  unfold isAtEnd peek
  cases unread : s.unread with
  | nil => simp [s.stop_end]
  | cons t later =>
      have inner := endless t (unread ▸ List.mem_cons_self)
      simp [inner]

theorem read_alone_exact (inner : ∀ t ∈ w, t.isEnd = false) : ReadAlone w e ↔ Derivation.Derives w e := by
  rw [← Expression.read_exact]
  have left := Machine.run_rest_suffix Expression.machine Expression.start w
  have begun : (TokenStream.ofTokens w).unread = w := (TokenStream.of_tokens_unread w).trans (content_self inner)
  have rest : ((TokenStream.ofTokens w).before (Expression.read w).rest).unread = (Expression.read w).rest :=
    TokenStream.before_unread _ (begun.symm ▸ left)
  unfold ReadAlone
  rw [TokenStream.apply_exact,begun]
  constructor
  · rintro ⟨s,same,ended⟩
    obtain ⟨accepted,rfl⟩ := Prod.mk.inj same
    obtain ⟨others,read⟩ := Reply.result_ok.mp accepted
    rw [TokenStream.at_end_exact,rest,read] at ended
    exact read.trans (congrArg (Reply.accepted e) ended)
  · intro read
    rw [read] at rest ⊢
    exact ⟨_,rfl,(TokenStream.at_end_exact _).mpr rest⟩

-- The parentheses around a range are those that have no partner in it, and `depth` pairs around these.
structure Framed (opening range closing : List Token) (depth : Nat) (s : Span) : Prop where
  opens : ∀ t ∈ opening, t.kind = .openParen
  closes : ∀ t ∈ closing, t.kind = .closeParen
  openings : opening.length = (unpaired range).closings + depth
  closings : closing.length = (unpaired range).openings + depth
  first : ∃ k ∈ range.head?, k.location = some s.first
  last : ∃ z ∈ range.getLast?, z.location = some s.last

namespace Framed

theorem bare (order : InOrder w) (balanced : Balanced w) (first : k ∈ w.head?) (last : z ∈ w.getLast?) :
    ∃ s, k.spanTo z = some s ∧ Framed [] w [] 0 s := by
  obtain ⟨s,spanned,names,_⟩ := order.spanned first last
  refine ⟨s,spanned,fun t nothing => absurd nothing List.not_mem_nil,fun t nothing => absurd nothing List.not_mem_nil,?_,?_,
    ⟨k,first,names.1⟩,⟨z,last,names.2⟩⟩ <;> rw [balanced] <;> rfl

theorem enclosed (framed : Framed opening range closing depth s) (opens : o.kind = .openParen) (closes : c.kind = .closeParen) :
    Framed (o :: opening) range (closing ++ [c]) (depth + 1) s where
  opens := List.forall_mem_cons.mpr ⟨opens,framed.opens⟩
  closes t member := by
    rcases List.mem_append.mp member with inner | last
    · exact framed.closes t inner
    · exact List.mem_singleton.mp last ▸ closes
  openings := by rw [List.length_cons,framed.openings,Nat.add_assoc]
  closings := by rw [List.length_append,framed.closings,List.length_singleton,Nat.add_assoc]
  first := framed.first
  last := framed.last

theorem counted (framed : Framed opening range closing 0 s) : unpaired range = ⟨opening.length,closing.length⟩ := by
  rw [framed.openings,framed.closings]
  rfl

theorem closed (framed : Framed opening range closing depth s) : unpaired (range ++ closing) = ⟨opening.length,0⟩ := by
  have openings := framed.openings
  have closings := framed.closings
  rw [unpaired_append,unpaired_closings framed.closes,Unpaired.mk.injEq]
  constructor <;> simp only <;> omega

theorem opened (framed : Framed opening range closing depth s) : unpaired (opening ++ range) = ⟨0,closing.length⟩ := by
  have openings := framed.openings
  have closings := framed.closings
  rw [unpaired_append,unpaired_openings framed.opens,Unpaired.mk.injEq]
  constructor <;> simp only <;> omega

-- An operation's range ends inside its operands' parentheses: those at its ends have lost their partners,
-- and those in its middle have not.
theorem joined (left : Framed opening one behind depth a) (symbol : Balanced [t])
    (right : Framed front two closing height b) :
    Framed opening (one ++ behind ++ t :: (front ++ two)) closing 0 ⟨a.first,b.last⟩ := by
  have counted : unpaired (one ++ behind ++ t :: (front ++ two)) = ⟨opening.length,closing.length⟩ := by
    rw [List.append_cons,unpaired_append,unpaired_append (one ++ behind),left.closed,right.opened,symbol]
    simp
  obtain ⟨k,starts,here⟩ := left.first
  obtain ⟨z,ends,there⟩ := right.last
  obtain ⟨later,rfl⟩ := List.head?_eq_some_iff.mp starts
  obtain ⟨before,rfl⟩ := List.getLast?_eq_some_iff.mp ends
  refine ⟨left.opens,right.closes,by rw [counted]; rfl,by rw [counted]; rfl,⟨k,rfl,here⟩,⟨z,?_,there⟩⟩
  rw [← List.append_assoc front,← List.cons_append,← List.append_assoc]
  exact List.getLast?_concat

end Framed

def Node.isOperation : Node → Bool
  | .binary .. => true
  | _ => false

def Node.isExpression : Node → Bool
  | .number .. | .reference .. | .binary .. | .call .. => true
  | _ => false

structure Ranged (w : List Token) (n : Node) (opening range closing : List Token) (s : Span) (e : Expr) : Prop where
  span : n.span = some s
  node : e.toNode = n
  inside : opening ++ range ++ closing <:+: w
  framed : Framed opening range closing 0 s
  derived : Derivation.Derives (opening ++ range ++ closing) e
  plain : n.isOperation = false → Balanced range

def HasRange (w : List Token) (n : Node) : Prop := ∃ opening range closing s e, Ranged w n opening range closing s e

def Spanned (w v : List Token) (e : Expr) : Prop :=
  v <:+: w → (∃ opening range closing depth s, v = opening ++ range ++ closing ∧ e.span = some s ∧
    Framed opening range closing depth s) ∧ ∀ n ∈ e.toNode.walk, HasRange w n

def AllSpanned (w v : List Token) (es : List Expr) : Prop := v <:+: w → ∀ e ∈ es, ∀ n ∈ e.toNode.walk, HasRange w n

namespace Spanned

variable {w u v : List Token}

theorem whole (order : InOrder w) (part : v <:+: w) (derived : Derivation.Operand v e) (first : k ∈ v.head?)
    (last : z ∈ v.getLast?) (span : e.span = k.spanTo z) :
    (∃ opening range closing depth s, v = opening ++ range ++ closing ∧ e.span = some s ∧
      Framed opening range closing depth s) ∧ HasRange w e.toNode := by
  have balanced : Balanced v := balanced_compositional.operand derived
  obtain ⟨s,spanned,framed⟩ := Framed.bare (order.part part.sublist) balanced first last
  have alone : v = [] ++ v ++ [] := (List.append_nil v).symm
  refine ⟨⟨[],v,[],0,s,alone,span.trans spanned,framed⟩,[],v,[],s,e,(e.node_span.trans span).trans spanned,rfl,?_,framed,?_,
    fun _ => balanced⟩
  · exact alone ▸ part
  · exact alone ▸ ⟨_,.single derived,rfl⟩

theorem leaf (order : InOrder w) (t : Token) (derived : Derivation.Operand [t] e) (span : e.span = t.spanTo t)
    (alone : e.toNode.walk = [e.toNode]) : Spanned w [t] e := by
  intro part
  obtain ⟨framed,ranged⟩ := whole order part derived rfl rfl span
  refine ⟨framed,fun n inside => ?_⟩
  rw [alone] at inside
  exact List.mem_singleton.mp inside ▸ ranged

theorem binary (left : Spanned w u l) (operator : t.binaryOperator? = some o) (right : Spanned w v r)
    (derived : Derivation.Derives (u ++ t :: v) (.binary l o r (Span.join l.span r.span))) :
    Spanned w (u ++ t :: v) (.binary l o r (Span.join l.span r.span)) := by
  intro part
  obtain ⟨⟨opening,first,inner,depth,a,rfl,here,front⟩,inLeft⟩ := left ((List.prefix_append u (t :: v)).isInfix.trans part)
  obtain ⟨⟨outer,second,closing,height,b,rfl,there,back⟩,inRight⟩ :=
    right (((List.suffix_cons t v).trans (List.suffix_append _ _)).isInfix.trans part)
  have symbol : Balanced [t] := .single (Token.binary_operator_kind operator) (by decide) (by decide)
  have framed := front.joined symbol back
  have regroup : opening ++ first ++ inner ++ t :: (outer ++ second ++ closing) =
      opening ++ (first ++ inner ++ t :: (outer ++ second)) ++ closing := by simp only [List.append_assoc,List.cons_append]
  have span : Span.join l.span r.span = some ⟨a.first,b.last⟩ := by
    rw [here,there]
    rfl
  rw [regroup] at part derived ⊢
  refine ⟨⟨_,_,_,0,_,rfl,span,framed⟩,fun n inside => ?_⟩
  rw [Expr.toNode,Node.walk,List.mem_cons,List.mem_append] at inside
  rcases inside with rfl | inside | inside
  · exact ⟨_,_,_,_,_,span,rfl,part,framed,derived,fun other => absurd other (by simp [Node.isOperation])⟩
  · exact inLeft n inside
  · exact inRight n inside

theorem group (inside : Spanned w v e) (opening : o.kind = .openParen) (closing : c.kind = .closeParen) :
    Spanned w (o :: v ++ [c]) e := by
  intro part
  have inner : v <:+: o :: v ++ [c] := ⟨[o],[c],rfl⟩
  obtain ⟨⟨front,range,back,depth,s,rfl,span,framed⟩,covered⟩ := inside (inner.trans part)
  refine ⟨⟨o :: front,range,back ++ [c],depth + 1,s,?_,span,framed.enclosed opening closing⟩,covered⟩
  simp only [List.append_assoc,List.cons_append]

theorem call (order : InOrder w) (derived : Derivation.Operand (n :: o :: v ++ [c]) (Primary.callOf n c es))
    (inside : AllSpanned w v es) : Spanned w (n :: o :: v ++ [c]) (Primary.callOf n c es) := by
  intro part
  have inner : v <:+: n :: o :: v ++ [c] := ⟨[n,o],[c],rfl⟩
  obtain ⟨framed,ranged⟩ := whole order part derived (k := n) rfl List.getLast?_concat rfl
  refine ⟨framed,fun m member => ?_⟩
  rw [Primary.callOf,Expr.toNode,Node.walk,Node.walk_all,Expr.to_nodes_map,List.mem_cons,List.mem_flatMap] at member
  rcases member with rfl | ⟨_,argument,inArgument⟩
  · rw [← Expr.to_nodes_map]
    exact ranged
  · obtain ⟨e,given,rfl⟩ := List.mem_map.mp argument
    exact inside (inner.trans part) e given m inArgument

theorem compositional (order : InOrder w) : Derivation.Compositional (Spanned w) (AllSpanned w) where
  number t kind := leaf order t (.number t kind) rfl rfl
  reference t kind := leaf order t (.reference t kind) rfl rfl
  binary left operator right derived := binary left operator right derived
  group o c opening closing inside := group inside opening closing
  call n o c _ _ _ derived inside := call order derived inside
  none _ := fun e nothing => absurd nothing List.not_mem_nil
  single argument part e member := List.mem_singleton.mp member ▸ (argument part).2
  add {u v es e} before t _ argument part f member := by
    have back : v <:+: u ++ t :: v := ((List.suffix_cons t v).trans (List.suffix_append u _)).isInfix
    rcases List.mem_append.mp member with earlier | last
    · exact before ((List.prefix_append u (t :: v)).isInfix.trans part) f earlier
    · exact List.mem_singleton.mp last ▸ (argument (back.trans part)).2

end Spanned

theorem item_ranges (order : InOrder w) (derived : Derivation.TopItem v i) (part : v <:+: w) :
    ∀ n ∈ i.toNode.walk, n.isExpression = true → HasRange w n := by
  have header : i.toNode.isExpression = false ∧ i.prototype.toNode.isExpression = false := ⟨rfl,rfl⟩
  have body : ∀ e ∈ i.body, ∀ n ∈ e.toNode.walk, HasRange w n := by
    cases derived with
    | @definition h p b r k keyword heading body =>
        have behind : b <:+: k :: h ++ b := (List.suffix_append _ b).isInfix
        intro e given
        cases given
        exact ((Spanned.compositional order).expr body (behind.trans part)).2
    | external => exact fun e nothing => absurd nothing (by simp [TopLevel.external])
    | expression t body =>
        intro e given
        cases given
        exact ((Spanned.compositional order).expr body part).2
  intro n member expression
  rw [Item.toNode,Node.walk,List.mem_cons,List.mem_append] at member
  rcases member with rfl | member | member
  · exact absurd expression Bool.false_ne_true
  · cases List.mem_singleton.mp member
    exact absurd expression Bool.false_ne_true
  · cases given : i.body with
    | none =>
        rw [given] at member
        exact absurd member List.not_mem_nil
    | some e =>
        simp only [given,Option.map_some,Option.getD_some,e.node_present] at member
        exact body e given n member

-- Put back are the parentheses that have lost their partners, which stand directly around the tokens of the span.
structure Node.Reads (tokens : List Token) (n : Node) (s : Span) (e : Expr) : Prop where
  span : n.span = some s
  node : e.toNode = n
  widened : ∃ before opening closing after, tokens = before ++ (opening ++ s.tokens tokens ++ closing) ++ after ∧
    (∀ t ∈ opening, t.kind = .openParen) ∧ (∀ t ∈ closing, t.kind = .closeParen) ∧
    unpaired (s.tokens tokens) = ⟨opening.length,closing.length⟩ ∧ ReadAlone (opening ++ s.tokens tokens ++ closing) e
  alone : ∀ f, ReadAlone (s.tokens tokens) f ↔ Balanced (s.tokens tokens) ∧ f = e
  plain : n.isOperation = false → Balanced (s.tokens tokens)

theorem ReadAlone.unique (first : ReadAlone w e) (second : ReadAlone w f) : e = f := by
  obtain ⟨s,read,_⟩ := first
  obtain ⟨u,again,_⟩ := second
  exact Except.ok.inj (congrArg Prod.fst (read.symm.trans again))

theorem ReadAlone.balanced (inner : ∀ t ∈ w, t.isEnd = false) (read : ReadAlone w e) : Balanced w := by
  obtain ⟨r,run,_⟩ := (read_alone_exact inner).mp read
  exact balanced_compositional.expr run

section

variable {w opening range closing : List Token} {n : Node} {s : Span} {e : Expr}

theorem Ranged.alone (ranged : Ranged w n opening range closing s e) (inner : ∀ t ∈ w, t.isEnd = false) (f : Expr) :
    ReadAlone range f ↔ Balanced range ∧ f = e := by
  have part : range <:+: opening ++ range ++ closing := ⟨opening,closing,rfl⟩
  have own : ∀ t ∈ range, t.isEnd = false := fun t member => inner t ((part.trans ranged.inside).subset member)
  have bare : Balanced range → ReadAlone range e := by
    intro balanced
    obtain ⟨front,back⟩ := Unpaired.mk.inj (ranged.framed.counted.symm.trans balanced)
    have derived := ranged.derived
    rw [List.eq_nil_of_length_eq_zero front,List.eq_nil_of_length_eq_zero back,List.append_nil] at derived
    exact (read_alone_exact own).mpr derived
  constructor
  · intro read
    exact ⟨read.balanced own,read.unique (bare (read.balanced own))⟩
  · rintro ⟨balanced,rfl⟩
    exact bare balanced

theorem Ranged.tokens (ranged : Ranged w n opening range closing s e) (order : InOrder w) (behind : List Token) :
    s.tokens (w ++ behind) = range := by
  obtain ⟨before,after,rfl⟩ := ranged.inside
  obtain ⟨k,first,here⟩ := ranged.framed.first
  obtain ⟨z,last,there⟩ := ranged.framed.last
  have front : (before ++ opening ++ range) <+: before ++ (opening ++ range ++ closing) ++ after :=
    ⟨closing ++ after,by simp only [List.append_assoc]⟩
  have named := (order.part front.sublist).span_tokens first last ⟨here,there⟩ (closing ++ after ++ behind)
  simpa only [List.append_assoc] using named

theorem Ranged.reads (ranged : Ranged w n opening range closing s e) (order : InOrder w) (inner : ∀ t ∈ w, t.isEnd = false)
    (behind : List Token) : n.Reads (w ++ behind) s e := by
  obtain ⟨before,after,split⟩ := ranged.inside
  have own : ∀ t ∈ opening ++ range ++ closing, t.isEnd = false := fun t member => inner t (ranged.inside.subset member)
  have read := (read_alone_exact own).mpr ranged.derived
  have whole : w ++ behind = before ++ (opening ++ range ++ closing) ++ (after ++ behind) := by
    rw [← split,List.append_assoc _ after behind]
  refine ⟨ranged.span,ranged.node,?_,?_,?_⟩ <;> rw [ranged.tokens order behind]
  · exact ⟨before,opening,closing,after ++ behind,whole,ranged.framed.opens,ranged.framed.closes,ranged.framed.counted,read⟩
  · exact ranged.alone inner
  · exact ranged.plain

end

-- Alone the tokens that a span names are read as its node exactly if no parenthesis has lost its partner.
theorem range_reads (analyzed : Analysis.ofText file source = .ok a) : ∀ i ∈ a.items, ∀ n ∈ i.toNode.walk,
    n.isExpression = true → ∃ s e, n.Reads a.tokens s e := by
  intro i member n inside expression
  obtain ⟨w,stop,drains,tokens,read⟩ := analysis_exact.mp analyzed
  have lexes : Lexes file source w := ⟨stop,drains⟩
  obtain ⟨before,v,after,split,_,derived⟩ := (Program.read_readings read).parts i member
  obtain ⟨opening,range,closing,s,e,ranged⟩ := item_ranges lexes.order derived ⟨before,after,split.symm⟩ n inside expression
  rw [tokens]
  exact ⟨s,e,ranged.reads lexes.order lexes.inner [stop]⟩

theorem range_reads_operands : ∃ a, Analysis.ofText inputName "def f(a) (a - 1) + g(a, 2) * (a)".toList = .ok a ∧
    a.items.map Item.sexpr = ["(def f (a) (+ (- a 1) (* (call g a 2) a)))"] ∧
    ∀ i ∈ a.items, ∀ n ∈ i.toNode.walk, n.isExpression = true → ∃ s e, n.Reads a.tokens s e := by
  have printed : ((Analysis.ofText inputName "def f(a) (a - 1) + g(a, 2) * (a)".toList).map fun a =>
      a.items.map Item.sexpr).toOption = some ["(def f (a) (+ (- a 1) (* (call g a 2) a)))"] := by decide +kernel
  obtain ⟨a,analyzed,shown⟩ := map_ok.mp (of_to_option printed)
  exact ⟨a,analyzed,shown,range_reads analyzed⟩

-- The range from one operand to the other keeps the parenthesis that closes the first.
theorem range_unpaired : ∃ a i e s, Analysis.ofText inputName "(a)+b".toList = .ok a ∧ a.items = [i] ∧ i.body = some e ∧
    e.span = some s ∧ ∀ f, ¬ ReadAlone (s.tokens a.tokens) f := by
  have shown : ((Analysis.ofText inputName "(a)+b".toList).map fun a => a.items.map fun i => i.body.bind fun e =>
      e.span.map fun s => (unpaired (s.tokens a.tokens),(s.tokens a.tokens).any Token.isEnd)).toOption =
        some [some (⟨1,0⟩,false)] := by decide +kernel
  obtain ⟨a,analyzed,ranges⟩ := map_ok.mp (of_to_option shown)
  obtain ⟨i,items,named⟩ := List.map_eq_singleton_iff.mp ranges
  obtain ⟨e,body,named⟩ := Option.bind_eq_some_iff.mp named
  obtain ⟨s,span,counted⟩ := Option.map_eq_some_iff.mp named
  obtain ⟨unpaired,none⟩ := Prod.mk.inj counted
  refine ⟨a,i,e,s,analyzed,items,body,span,?_⟩
  intro f read
  have inner : ∀ t ∈ s.tokens a.tokens, t.isEnd = false :=
    fun t member => eq_false_of_ne_true (List.any_eq_false.mp none t member)
  have balanced := read.balanced inner
  exact absurd (unpaired.symm.trans balanced) (by decide)

end KaleidoscopeFrontEnd
