import KaleidoscopeFrontEnd.Proofs.Observers
import Mathlib.Data.List.Forall2

namespace KaleidoscopeFrontEnd

-- The same fault about an equal token. Where the message quotes the lexeme of the token it ends with it.
structure SyntaxFault.Alike (f g : SyntaxFault) : Prop where
  found : (f.found == g.found) = true
  isIncomplete : f.isIncomplete = g.isIncomplete
  code : f.code = g.code
  help : f.help = g.help
  suggestions : f.suggestions = g.suggestions
  message : f.message = g.message ∨ ∃ before, f.message = before ++ (" '" ++ f.found.lexeme ++ "'") ∧
    g.message = before ++ (" '" ++ g.found.lexeme ++ "'")

namespace TokenStream

def Value.same : Value → Value → Bool
  | .item i, .item j => i.toNode.same j.toNode
  | .items all, .items others => Node.sameAll (all.map Item.toNode) (others.map Item.toNode)
  | .header p, .header q => p.toNode.same q.toNode
  | .expr e, .expr f => e.toNode.same f.toNode
  | .exprs es, .exprs fs => Node.sameAll (Expr.toNodes es) (Expr.toNodes fs)
  | .node n, .node m => n.same m
  | .token t, .token u => t == u
  | .number n, .number m => n == m
  | .truth a, .truth b => a == b
  | _, _ => false

def Answer.Alike : Answer → Answer → Prop
  | .ok v, .ok w => v.same w = true
  | .error (.reading f), .error (.reading g) => f.Alike g
  | .error (.node f), .error (.node g) => f = g
  | _, _ => False

def Call.Alike : Call → Call → Prop
  | .operands least left, .operands bound other => least = bound ∧ left.same other = true
  | call, other => call = other

end TokenStream

theorem Token.describe_alike {t u : Token} (kind : t.kind = u.kind) : t.describe = u.describe ∨
    ∃ before, t.describe = before ++ (" '" ++ t.lexeme ++ "'") ∧ u.describe = before ++ (" '" ++ u.lexeme ++ "'") := by
  unfold describe
  rw [kind]
  split
  · exact .inr ⟨u.kind.description,by simp only [String.append_assoc],by simp only [String.append_assoc]⟩
  · exact .inl rfl

namespace SyntaxFault

theorem map_found (f : SyntaxFault) (see : Token → Token) : (f.map see).found = see f.found := by
  cases f <;> rfl

theorem alike_found (f : SyntaxFault) {u : Token} (same : (f.found == u) = true) : f.Alike (f.map fun _ => u) := by
  have seen : (default : Observer).view.token f.found = (default : Observer).view.token u := token_same.mp same _ _
  have kind : f.found.kind = u.kind := (Token.mk.inj seen).1
  have word : f.found.word = u.word := by
    rw [← View.word,seen,View.word]
  have quotes (start : String) : start ++ f.found.describe = start ++ u.describe ∨ ∃ before,
      start ++ f.found.describe = before ++ (" '" ++ f.found.lexeme ++ "'") ∧
        start ++ u.describe = before ++ (" '" ++ u.lexeme ++ "'") := by
    rcases Token.describe_alike kind with equal | ⟨before,here,there⟩
    · exact .inl (congrArg (start ++ ·) equal)
    · refine .inr ⟨start ++ before,?_,?_⟩
      · exact (congrArg (start ++ ·) here).trans String.append_assoc.symm
      · exact (congrArg (start ++ ·) there).trans String.append_assoc.symm
  cases f with
  | unexpected expected t =>
      have suggests : suggestsOperators t = suggestsOperators u := by
        rw [suggestsOperators,suggestsOperators,← kind,← word]
        rfl
      refine ⟨same,rfl,rfl,rfl,?_,quotes ("Expected " ++ expected.text ++ ", found ")⟩
      rw [map,suggestions,suggests]
      rfl
  | notExpression t => exact ⟨same,rfl,rfl,rfl,rfl,quotes "Expected expression, found "⟩
  | commaInParameters | incomplete => exact ⟨same,rfl,rfl,rfl,rfl,.inl rfl⟩

theorem alike_seen {f g : SyntaxFault} (seen : ∀ o p : Observer, f.map o.view.token = g.map p.view.token) : f.Alike g := by
  have same : (f.found == g.found) = true := token_same.mpr fun o p => by
    rw [← map_found f o.view.token,seen o p,map_found]
  have only : f.map (fun _ => g.found) = g := by
    have one := seen default default
    cases f <;> cases g <;> simp_all [map,found]
  have alike := f.alike_found same
  rwa [only] at alike

end SyntaxFault

-- Only an absent node is equal to one that has no place for a span.
theorem same_placeless {n m : Node} (same : n.same m = true) :
    (n.hasSpan = false → n = .absent) ∧ (m.hasSpan = false → m = .absent) := by
  cases n <;> cases m <;> simp_all [Node.same,Node.hasSpan]

namespace TokenStream

theorem Value.same_seen {v w : Value} (seen : ∀ o p : Observer, o.guise.value v = p.guise.value w) : v.same w = true := by
  cases v <;> cases w
  case item.item i j =>
    refine node_same.mpr fun o p => ?_
    rw [o.node_item,p.node_item]
    exact congrArg Item.toNode (Value.item.inj (seen o p))
  case items.items all others =>
    refine (trees_same.2 _ _).mpr fun o p => ?_
    have look : (all.map o.view.item).map Item.toNode = (others.map p.view.item).map Item.toNode :=
      congrArg _ (Value.items.inj (seen o p))
    simpa only [Observer.nodes_map,List.map_map,Function.comp_def,Observer.node_item] using look
  case header.header =>
    refine node_same.mpr fun o p => ?_
    exact congrArg Prototype.toNode (Value.header.inj (seen o p))
  case expr.expr =>
    refine node_same.mpr fun o p => ?_
    rw [o.node_expr,p.node_expr]
    exact congrArg Expr.toNode (Value.expr.inj (seen o p))
  case exprs.exprs =>
    refine (trees_same.2 _ _).mpr fun o p => ?_
    rw [o.nodes_exprs,p.nodes_exprs,o.view.exprs_map,p.view.exprs_map]
    exact congrArg Expr.toNodes (Value.exprs.inj (seen o p))
  case node.node => exact node_same.mpr fun o p => Value.node.inj (seen o p)
  case token.token => exact token_same.mpr fun o p => Value.token.inj (seen o p)
  case number.number => exact beq_iff_eq.mpr (Value.number.inj (seen default default))
  case truth.truth => exact beq_iff_eq.mpr (Value.truth.inj (seen default default))
  all_goals cases seen default default

theorem Answer.alike_seen {a b : Answer} (seen : ∀ o p : Observer, o.guise.answer a = p.guise.answer b) : a.Alike b := by
  rcases a with (f | f) | v <;> rcases b with (g | g) | w
  case error.reading.error.reading =>
    exact SyntaxFault.alike_seen fun o p => OperandFault.reading.inj (Except.error.inj (seen o p))
  case error.node.error.node => exact OperandFault.node.inj (Except.error.inj (seen default default))
  case ok.ok => exact Value.same_seen fun o p => Except.ok.inj (seen o p)
  all_goals cases seen default default

theorem Call.alike_seen {c d : Call} (alike : c.Alike d) (o p : Observer) : o.guise.call c = p.guise.call d := by
  cases c with
  | operands least left =>
      cases d with
      | operands bound other =>
          obtain ⟨rfl,same⟩ := alike
          exact congrArg (Call.operands least) (node_same.mp same o p)
      | _ => cases alike
  | _ => cases alike; rfl

theorem Call.alike_named {c d : Call} (alike : c.Alike d) (o : Observer) : o.guise.Names c ∧ o.guise.Names d := by
  cases c with
  | operands least left =>
      cases d with
      | operands bound other =>
          obtain ⟨here,there⟩ := same_placeless alike.2
          exact ⟨fun bare => by rw [here bare]; rfl,fun bare => by rw [there bare]; rfl⟩
      | _ => cases alike
  | _ => cases alike; exact ⟨trivial,trivial⟩

variable {s t : TokenStream}

def Alike (s t : TokenStream) : Prop := ∀ o p : Observer, s.map o.view.token = t.map p.view.token

theorem Alike.place (alike : Alike s t) : s.place = t.place := (TokenStream.mk.inj (alike default default)).2

theorem call_equal (alike : Alike s t) (ended : s.beyond ≠ []) (finished : t.beyond ≠ []) {c d : Call}
    (asked : c.Alike d) : (s.call c).1.Alike (t.call d).1 ∧ Alike (s.call c).2 (t.call d).2 := by
  have seen (o p : Observer) : (o.guise.answer (s.call c).1,(s.call c).2.map o.view.token) =
      (p.guise.answer (t.call d).1,(t.call d).2.map p.view.token) := by
    have here := o.guise.call_seen ended (Call.alike_named asked o).1
    have there := p.guise.call_seen finished (Call.alike_named asked p).2
    have same : (s.map o.view.token).call (o.guise.call c) = (t.map p.view.token).call (p.guise.call d) := by
      rw [alike o p,Call.alike_seen asked o p]
    exact here.symm.trans (same.trans there)
  exact ⟨Answer.alike_seen fun o p => congrArg Prod.fst (seen o p),fun o p => congrArg Prod.snd (seen o p)⟩

theorem calls_beyond (s : TokenStream) (calls : List Call) : (s.calls calls).2.beyond = s.beyond := by
  induction calls generalizing s with
  | nil => rfl
  | cons call later ih => exact (ih (s.call call).2).trans (s.call_beyond call)

theorem calls_equal (alike : Alike s t) (ended : s.beyond ≠ []) (finished : t.beyond ≠ []) {calls again : List Call}
    (asked : List.Forall₂ Call.Alike calls again) : Alike (s.calls calls).2 (t.calls again).2 := by
  induction asked generalizing s t with
  | nil => exact alike
  | cons first later ih =>
      obtain ⟨_,after⟩ := call_equal alike ended finished first
      refine ih after ?_ ?_
      · rwa [call_beyond]
      · rwa [call_beyond]

theorem of_tokens_equal {tokens others : List Token} (equal : List.Forall₂ (fun t u => (t == u) = true) tokens others) :
    Alike (ofTokens tokens) (ofTokens others) := by
  intro o p
  have seen : tokens.map o.view.token = others.map p.view.token := by
    induction equal with
    | nil => rfl
    | cons first later ih => rw [List.map_cons,List.map_cons,token_same.mp first o p,ih]
  rw [← o.of_tokens_seen,← p.of_tokens_seen,seen]

theorem fault_there (tokens : List Token) (earlier : List Call) {call : Call}
    (failed : (((ofTokens tokens).calls earlier).2.call call).1 = .error (.reading f)) :
    (ofTokens tokens).tokens[(((ofTokens tokens).calls earlier).2.call call).2.place]? = some f.found := by
  have before := calls_advance (of_tokens_placed tokens) earlier
  have moved := before.trans (call_advances before.placed call)
  have within : (((ofTokens tokens).calls earlier).2.call call).2.body.length <
      (((ofTokens tokens).calls earlier).2.call call).2.tokens.length := by
    rw [moved.body,moved.tokens]
    exact of_tokens_within tokens
  have peek := peek_found within
  rwa [moved.tokens,← (call_fault failed).1] at peek

-- Equal lists answer equally and go forward alike. Where one refuses a token the other refuses the equal one, in a
-- fault that may differ in what it quotes of that token and in where it stands.
theorem equal_tokens_alike {tokens others : List Token} {earlier again : List Call} {call other : Call}
    (equal : List.Forall₂ (fun t u => (t == u) = true) tokens others)
    (before : List.Forall₂ Call.Alike earlier again) (asked : call.Alike other) :
    let here := ((ofTokens tokens).calls earlier).2
    let there := ((ofTokens others).calls again).2
    here.place = there.place ∧ (here.call call).2.place = (there.call other).2.place ∧
      (here.call call).1.Alike (there.call other).1 ∧
    (∀ f, (here.call call).1 = .error (.reading f) →
      (ofTokens tokens).tokens[(here.call call).2.place]? = some f.found ∧ f.diagnostic.location = f.found.location) ∧
    ∀ f, (there.call other).1 = .error (.reading f) →
      (ofTokens others).tokens[(there.call other).2.place]? = some f.found ∧ f.diagnostic.location = f.found.location := by
  intro here there
  have reached : Alike here there :=
    calls_equal (of_tokens_equal equal) (of_tokens_beyond tokens) (of_tokens_beyond others) before
  have ended : here.beyond ≠ [] := by
    rw [calls_beyond]
    exact of_tokens_beyond tokens
  have finished : there.beyond ≠ [] := by
    rw [calls_beyond]
    exact of_tokens_beyond others
  obtain ⟨answered,after⟩ := call_equal reached ended finished asked
  exact ⟨reached.place,after.place,answered,fun f failed => ⟨fault_there tokens earlier failed,rfl⟩,
    fun f failed => ⟨fault_there others again failed,rfl⟩⟩

theorem equal_tokens_alike_group :
    let zero (lexeme : String) (negative : Bool) (place : Option Location) : Token :=
      ⟨.number,lexeme,some (.number (.signed negative .zero)),place⟩
    let tokens := [Token.opening,zero "0." false (some ⟨"m",1,2,1⟩),zero "00" false (some ⟨"m",1,5,4⟩)]
    let others := [Token.opening,zero "-0" true none,zero "0" false none]
    let here := SyntaxFault.unexpected .groupClosing (zero "00" false (some ⟨"m",1,5,4⟩))
    let there := SyntaxFault.unexpected .groupClosing (zero "0" false none)
    List.Forall₂ (fun t u => (t == u) = true) tokens others ∧ List.Forall₂ Call.Alike [.peek] [.peek] ∧
      Call.Alike .expression .expression ∧
      (((ofTokens tokens).calls [.peek]).2.call .expression).1 = .error (.reading here) ∧
      (((ofTokens others).calls [.peek]).2.call .expression).1 = .error (.reading there) ∧ here.Alike there := by
  intro zero tokens others here there
  have equal : List.Forall₂ (fun t u => (t == u) = true) tokens others := .cons rfl (.cons rfl (.cons rfl .nil))
  have before : List.Forall₂ Call.Alike [.peek] [.peek] := .cons rfl .nil
  have asked : Call.Alike .expression .expression := rfl
  obtain ⟨_,_,answered,_⟩ := equal_tokens_alike equal before asked
  exact ⟨equal,before,asked,rfl,rfl,answered⟩

end TokenStream

end KaleidoscopeFrontEnd
