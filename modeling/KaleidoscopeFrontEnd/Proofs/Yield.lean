import KaleidoscopeFrontEnd.Node.Walk
import KaleidoscopeFrontEnd.Proofs.Acceptance
import KaleidoscopeFrontEnd.Proofs.Composition
import KaleidoscopeFrontEnd.Proofs.Readings

namespace KaleidoscopeFrontEnd

def spoken (w : List Token) : List Token :=
  w.filter fun t => decide (t.kind ∈ [TokenKind.identifier,.number,.operator])

-- What is taken from a value: the text of a name, the amount of a number, an operator as it is.
def Token.substance (t : Token) : Option TokenValue :=
  match t.kind with
  | .identifier => some (.text t.word)
  | .number => some (.number t.amount)
  | _ => t.value

structure Token.Carries (t : Token) : Prop where
  word : t.kind = .identifier → ∃ s, t.value = some (.text s)
  amount : t.kind = .number → ∃ x, t.value = some (.number x)

theorem Token.Carries.substance {t : Token} (carries : t.Carries) : t.substance = t.value := by
  unfold Token.substance
  split
  · rename_i kind
    obtain ⟨s,value⟩ := carries.word kind
    rw [Token.word,value]
  · rename_i kind
    obtain ⟨x,value⟩ := carries.amount kind
    rw [Token.amount,value]
  · rfl

def Taken (w : List Token) (values : List TokenValue) : Prop :=
  (spoken w).map Token.substance = values.map some

namespace Taken

theorem nil : Taken [] [] := rfl

theorem append (first : Taken w values) (second : Taken v others) : Taken (w ++ v) (values ++ others) := by
  unfold Taken spoken at first second ⊢
  rw [List.filter_append,List.map_append,List.map_append,first,second]

theorem silent (kind : t.kind = k) (other : k ∉ [TokenKind.identifier,.number,.operator]) : Taken [t] [] := by
  have passed : spoken [t] = [] := by
    subst kind
    exact List.filter_cons_of_neg (by simpa using other)
  rw [Taken,passed]
  rfl

theorem name (named : t.kind = .identifier) : Taken [t] [.text t.word] := by
  simp [Taken,spoken,Token.substance,named]

theorem number (kind : t.kind = .number) : Taken [t] [.number t.amount] := by
  simp [Taken,spoken,Token.substance,kind]

theorem operator (binary : t.binaryOperator? = some o) : Taken [t] [.text o.symbol] := by
  obtain ⟨kind,value⟩ := Token.binary_operator_exact.mp binary
  simp [Taken,spoken,Token.substance,kind,value]

theorem names (named : ∀ t ∈ w, t.kind = .identifier) : Taken w ((w.map Token.word).map .text) := by
  induction w with
  | nil => exact nil
  | cons t w ih =>
      obtain ⟨first,later⟩ := List.forall_mem_cons.mp named
      exact (name first).append (ih later)

end Taken

mutual

def Expr.yield : Expr → List TokenValue
  | .number x _ => [.number x]
  | .reference name _ => [.text name]
  | .binary left operator right _ => left.yield ++ .text operator.symbol :: right.yield
  | .call callee arguments _ => .text callee :: Expr.yields arguments

def Expr.yields : List Expr → List TokenValue
  | [] => []
  | e :: later => e.yield ++ Expr.yields later

end

def Prototype.yield (p : Prototype) : List TokenValue := .text p.name :: p.parameters.map .text

theorem Expr.yields_append (first second : List Expr) :
    yields (first ++ second) = yields first ++ yields second := by
  induction first with
  | nil => rfl
  | cons e first ih => rw [List.cons_append,yields,yields,ih,List.append_assoc]

-- A tree over a chain keeps the order of the chain, so every production adds its values where its tokens are.
theorem taken_compositional :
    Derivation.Compositional (fun w e => Taken w e.yield) (fun w es => Taken w (Expr.yields es)) where
  number t kind := .number kind
  reference t kind := .name kind
  binary left operator right _ := left.append ((Taken.operator operator).append right)
  group o c opening closing inside := by
    have front := (Taken.silent opening (by decide)).append inside
    have whole := front.append (.silent closing (by decide))
    rwa [List.append_nil] at whole
  call n o c named opening closing _ inside := by
    have front := (Taken.name named).append (.silent opening (by decide))
    have whole := (front.append inside).append (.silent closing (by decide))
    rwa [List.append_nil] at whole
  none := .nil
  single argument := by rwa [Expr.yields,Expr.yields,List.append_nil]
  add before t comma argument := by
    rw [Expr.yields_append,Expr.yields,Expr.yields,List.append_nil]
    exact before.append ((Taken.silent comma (by decide)).append argument)

theorem Taken.heading (heading : Derivation.Heading w p) : Taken w p.yield := by
  obtain ⟨n,o,c,named,opening,parameters,closing⟩ := heading
  have front := (Taken.name named).append (.silent opening (by decide))
  have whole := (front.append (.names parameters)).append (.silent closing (by decide))
  rwa [List.append_nil] at whole

-- Where a token has a value of a foreign sort it is what the token is read for that counts.
structure Conveys (w : List Token) (values : List TokenValue) : Prop where
  taken : Taken w values
  carried : (∀ t ∈ w, t.Carries) → (spoken w).map Token.value = values.map some

theorem Taken.conveys (taken : Taken w values) : Conveys w values := by
  refine ⟨taken,fun carries => Eq.trans ?_ taken⟩
  refine List.map_congr_left fun t member => ?_
  exact (carries t (List.mem_of_mem_filter member)).substance.symm

inductive Retold : List Token → Item → Prop where
  | definition (keyword : k.kind = .definition) (body : i.body = some e)
      (conveys : Conveys (k :: v) (i.prototype.yield ++ e.yield)) : Retold (k :: v) i
  | external (keyword : k.kind = .external) (none : i.body = none)
      (conveys : Conveys (k :: v) i.prototype.yield) : Retold (k :: v) i
  | bare (definition : k.kind ≠ .definition) (external : k.kind ≠ .external) (body : i.body = some e)
      (conveys : Conveys (k :: v) e.yield) : Retold (k :: v) i

theorem item_retold (derived : Derivation.TopItem v i) : Retold v i := by
  cases derived with
  | definition k keyword heading body =>
      have front := (Taken.silent keyword (by decide)).append (.heading heading)
      exact .definition keyword rfl (front.append (taken_compositional.expr body)).conveys
  | external k keyword heading =>
      exact .external keyword rfl ((Taken.silent keyword (by decide)).append (.heading heading)).conveys
  | expression t body =>
      have conveys := (taken_compositional.expr body).conveys
      rcases body.begins with kind | kind | kind <;> exact .bare (by simp [kind]) (by simp [kind]) rfl conveys

-- A program cut into the tokens of its items, each as long as the reading of the item, and
-- terminators.
inductive Cut : List Token → List Item → Prop where
  | nil : Cut [] []
  | terminator (t : Token) (terminator : Language.Terminator t) (later : Cut w is) : Cut (t :: w) is
  | item (read : TopLevel.read (v ++ w) = .accepted i w) (retold : Retold v i) (later : Cut w is) :
      Cut (v ++ w) (i :: is)

theorem Program.Readings.cut (readings : Readings w is) : Cut w is := by
  induction readings with
  | nil => exact .nil
  | terminator t terminator later ih => exact .terminator t (Language.terminator_exact.mpr terminator) ih
  | item read derived later ih => exact .item read (item_retold derived) ih

mutual

theorem Expr.walk_operators : ∀ e : Expr, .binary l symbol r s ∈ e.toNode.walk → symbol ∈ ["<","+","-","*"]
  | .number _ _,member | .reference _ _,member => by simp [toNode,Node.walk] at member
  | .binary left operator right _,member => by
      simp only [toNode,Node.walk,List.mem_cons,List.mem_append] at member
      rcases member with here | inLeft | inRight
      · cases here
        cases operator <;> decide
      · exact left.walk_operators inLeft
      · exact right.walk_operators inRight
  | .call callee arguments _,member => by
      simp only [toNode,Node.walk,List.mem_cons,reduceCtorEq,false_or] at member
      exact walk_all_operators arguments member

theorem Expr.walk_all_operators : ∀ es : List Expr, .binary l symbol r s ∈ Node.walkAll (toNodes es) →
    symbol ∈ ["<","+","-","*"]
  | [],member => absurd member List.not_mem_nil
  | e :: later,member => by
      rw [toNodes,Node.walkAll,List.mem_append] at member
      rcases member with first | rest
      · exact e.walk_operators first
      · exact walk_all_operators later rest

end

theorem Item.walk_operators (i : Item) (member : .binary l symbol r s ∈ i.toNode.walk) :
    symbol ∈ ["<","+","-","*"] := by
  obtain ⟨p,body,span⟩ := i
  simp only [toNode,Prototype.toNode,Node.walk,List.mem_cons,List.mem_append,reduceCtorEq,false_or,
    List.not_mem_nil] at member
  cases body with
  | none => simp [Node.isAbsent] at member
  | some e =>
      split at member
      · cases member
      · exact e.walk_operators member

-- Nothing that was written is lost, read twice or put elsewhere.
theorem program_retold (accepted : ((TokenStream.ofTokens tokens).apply Program.read).1 = .ok items) :
    Cut (content tokens) items ∧
      ∀ i ∈ items, ∀ l symbol r s, .binary l symbol r s ∈ i.toNode.walk → symbol ∈ ["<","+","-","*"] := by
  rw [TokenStream.apply_exact,TokenStream.of_tokens_unread] at accepted
  obtain ⟨rest,read⟩ := Reply.result_ok.mp accepted
  obtain ⟨rfl,_⟩ := Program.read_derives read
  exact ⟨(Program.read_readings read).cut,fun i _ l symbol r s member => i.walk_operators member⟩

theorem program_retold_product :
    let tokens := [.ofKind .external "extern",.ofName "g",.opening,.ofName "a",.ofName "b",.closing,.ofSymbol ";",
      .ofKind .definition "def",.ofName "f",.opening,.ofName "x",.closing,.opening,.ofName "x",.ofSymbol "-",.zero,
      .closing,.ofSymbol "*",.ofName "g",.opening,.zero,.ofKind .comma ",",.ofName "x",.closing,.ofName "f",.opening,
      .zero,.closing]
    let zero := Expr.number .zero none
    let x := Expr.reference "x" none
    let product := Expr.binary (.binary x .minus zero none) .times (.call "g" [zero,x] none) none
    let items : List Item := [⟨⟨"g",["a","b"],none⟩,none,none⟩,⟨⟨"f",["x"],none⟩,some product,none⟩,
      .ofExpr (.call "f" [zero] none) none]
    ((TokenStream.ofTokens tokens).apply Program.read).1 = .ok items ∧ Cut (content tokens) items ∧
      ∀ i ∈ items, ∀ l symbol r s, .binary l symbol r s ∈ i.toNode.walk → symbol ∈ ["<","+","-","*"] := by
  intro tokens zero x product items
  have accepted : ((TokenStream.ofTokens tokens).apply Program.read).1 = .ok items := rfl
  exact ⟨accepted,program_retold accepted⟩

end KaleidoscopeFrontEnd
