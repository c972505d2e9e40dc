import KaleidoscopeFrontEnd.Node.Sexpr
import KaleidoscopeFrontEnd.Proofs.Analyzed
import KaleidoscopeFrontEnd.Proofs.Composition
import KaleidoscopeFrontEnd.Proofs.Meaning
import KaleidoscopeFrontEnd.Proofs.Numerals
import KaleidoscopeFrontEnd.Proofs.Readings
import KaleidoscopeFrontEnd.Proofs.Spelling
import KaleidoscopeFrontEnd.Proofs.Symbolic

namespace KaleidoscopeFrontEnd

theorem Symbolic.spaced_flat (ss : List Symbolic) : spaced ss = (ss.map chars).flatMap (' ' :: ·) := by
  induction ss with
  | nil => rfl
  | cons s ss ih => rw [spaced,ih,List.map_cons,List.flatMap_cons,List.cons_append]

theorem intercalate_blank (parts : List (List Char)) : [' '].intercalate parts = (parts.flatMap (' ' :: ·)).drop 1 := by
  induction parts with
  | nil => rfl
  | cons first later ih =>
      cases later with
      | nil => simp
      | cons next later =>
          rw [List.intercalate_cons_cons,ih]
          simp

theorem Symbolic.spaced_form (same : ss.map Symbolic.chars = parts.map String.toList) :
    (spaced ss).drop 1 = (Form.spaced parts).toList := by
  rw [spaced_flat,same,Form.spaced,String.toList_intercalate]
  exact (intercalate_blank _).symm

mutual

def Expr.symbolic : Expr → Symbolic
  | .number x _ => .word (Form.number x).toList
  | .reference name _ => .word name.toList
  | .binary left operator right _ => .list [.word operator.symbol.toList,left.symbolic,right.symbolic]
  | .call callee arguments _ => .list (.word "call".toList :: .word callee.toList :: Expr.symbolics arguments)

def Expr.symbolics : List Expr → List Symbolic
  | [] => []
  | e :: later => e.symbolic :: Expr.symbolics later

end

mutual

theorem Expr.symbolic_chars : ∀ e : Expr, e.symbolic.chars = e.sexpr.toList
  | .number _ _ | .reference _ _ => rfl
  | .binary left operator right _ => by
      simp [symbolic,Symbolic.chars,Symbolic.spaced,symbolic_chars left,symbolic_chars right,sexpr,Form.binary]
  | .call callee arguments _ => by
      have parts : (.word callee.toList :: symbolics arguments).map Symbolic.chars =
          (callee :: sexprs arguments).map String.toList := by
        rw [List.map_cons,symbolics_chars arguments]
        rfl
      simp [symbolic,Symbolic.chars,Symbolic.spaced,sexpr,Form.call,← Symbolic.spaced_form parts]

theorem Expr.symbolics_chars : ∀ es : List Expr, (symbolics es).map Symbolic.chars = (sexprs es).map String.toList
  | [] => rfl
  | e :: later => by rw [symbolics,sexprs,List.map_cons,List.map_cons,symbolic_chars e,symbolics_chars later]

end

def Named (name : String) : Prop := name.toList ≠ [] ∧ ∀ c ∈ name.toList, isLetter c = true

instance (name : String) : Decidable (Named name) :=
  decidable_of_iff (name.toList ≠ [] ∧ name.toList.all isLetter = true) (and_congr_right fun _ => List.all_eq_true)

-- Trees whose printed form can be told apart: their names are names, and their numbers are finite
-- and not negative.
inductive Printable : Expr → Prop where
  | number (m : Magnitude) (finite : m ≠ .infinite) : Printable (.number (.signed false m) s)
  | reference (named : Named name) : Printable (.reference name s)
  | binary (left : Printable l) (right : Printable r) : Printable (.binary l o r s)
  | call (named : Named callee) (arguments : ∀ e ∈ es, Printable e) : Printable (.call callee es s)

theorem letter_not_mark (letter : isLetter c = true) : Symbolic.isMark c = false := by
  cases mark : Symbolic.isMark c with
  | false => rfl
  | true =>
      have beyond := letter_beyond letter
      simp only [Symbolic.isMark,Bool.or_eq_true,beq_iff_eq] at mark
      rcases mark with (rfl | rfl) | rfl <;> exact absurd beyond (by decide)

theorem digit_not_mark (digit : isDecimalDigit c = true) : Symbolic.isMark c = false := by
  cases mark : Symbolic.isMark c with
  | false => rfl
  | true =>
      simp only [Symbolic.isMark,Bool.or_eq_true,beq_iff_eq] at mark
      rcases mark with (rfl | rfl) | rfl <;> exact absurd digit (by decide)

theorem Named.plain (named : Named name) : Symbolic.Plain (.word name.toList) :=
  .word named.1 fun c member => letter_not_mark (named.2 c member)

theorem number_numeral_of (finite : m ≠ .infinite) :
    ∃ r, Numeral (Form.number (.signed false m)).toList r ∧ Magnitude.rounded r = m := by
  cases m with
  | finite significand exponent canonical => exact number_numeral canonical
  | infinite => exact absurd rfl finite

theorem Numeral.plain_word (numeral : Numeral w r) : Symbolic.Plain (.word w) := by
  obtain ⟨⟨c,first,_⟩,inside⟩ := numeral.shape
  refine .word (fun nothing => by rw [nothing] at first; cases first) fun d member => ?_
  rcases inside d member with digit | other
  · exact digit_not_mark digit
  · simp only [List.mem_cons,List.not_mem_nil,or_false] at other
    rcases other with rfl | rfl | rfl | rfl <;> decide

theorem Expr.symbolics_map (es : List Expr) : symbolics es = es.map symbolic := by
  induction es with
  | nil => rfl
  | cons e es ih => rw [symbolics,ih,List.map_cons]

theorem Printable.plain (printable : Printable e) : e.symbolic.Plain := by
  induction printable with
  | number m finite =>
      obtain ⟨r,numeral,_⟩ := number_numeral_of finite
      exact numeral.plain_word
  | reference named => exact named.plain
  | @binary l r o s left right leftIh rightIh =>
      have symbol : Symbolic.Plain (.word o.symbol.toList) := by cases o <;> exact .word (by decide) (List.forall_mem_singleton.mpr rfl)
      refine .list fun s member => ?_
      simp only [List.mem_cons,List.not_mem_nil,or_false] at member
      rcases member with rfl | rfl | rfl
      · exact symbol
      · exact leftIh
      · exact rightIh
  | call named arguments ih =>
      refine .list fun s member => ?_
      rw [Expr.symbolics_map] at member
      have keyword : Named "call" := by decide +kernel
      rcases List.mem_cons.mp member with rfl | member
      · exact keyword.plain
      · rcases List.mem_cons.mp member with rfl | member
        · exact named.plain
        · obtain ⟨e,argument,rfl⟩ := List.mem_map.mp member
          exact ih e argument

namespace Symbolic

def ofWord (w : List Char) : Expr :=
  if w.head?.any isDecimalDigit then .number (.signed false ((Magnitude.ofText? w).getD .zero)) none
  else .reference (String.ofList w) none

def combined : List Expr → Expr
  | .reference keyword _ :: parts =>
      match BinaryOperator.ofSymbol? keyword, parts with
      | some operator, [left,right] => .binary left operator right none
      | none, .reference callee _ :: arguments => .call callee arguments none
      | _, parts => .call keyword parts none
  | parts => .call "" parts none

mutual

def expr : Symbolic → Expr
  | .word w => ofWord w
  | .list parts => combined (exprs parts)

def exprs : List Symbolic → List Expr
  | [] => []
  | s :: later => expr s :: exprs later

end

theorem of_word_named (named : Named name) : ofWord name.toList = .reference name none := by
  obtain ⟨nonempty,letters⟩ := named
  obtain ⟨c,later,whole⟩ := List.exists_cons_of_ne_nil nonempty
  have other : isDecimalDigit c = false := by
    cases digit : isDecimalDigit c with
    | false => rfl
    | true =>
        have letter := letters c (whole ▸ List.mem_cons_self)
        rw [digit_not_letter digit] at letter
        cases letter
  rw [ofWord,whole,List.head?_cons,Option.any_some,other,← whole,String.ofList_toList]
  rfl

theorem of_word_number (finite : m ≠ .infinite) :
    ofWord (Form.number (.signed false m)).toList = .number (.signed false m) none := by
  obtain ⟨r,numeral,back⟩ := number_numeral_of finite
  obtain ⟨⟨c,first,digit⟩,_⟩ := numeral.shape
  rw [ofWord,numeral.read,back,Option.mem_def.mp first,Option.any_some,if_pos digit]
  rfl

theorem exprs_map (ss : List Symbolic) : exprs ss = ss.map expr := by
  induction ss with
  | nil => rfl
  | cons s ss ih => rw [exprs,ih,List.map_cons]

end Symbolic

theorem Printable.reads_back (printable : Printable e) : e.symbolic.expr = View.unplaced.expr e := by
  induction printable with
  | number m finite => exact Symbolic.of_word_number finite
  | reference named => exact Symbolic.of_word_named named
  | @binary l r o s left right leftIh rightIh =>
      have keyword : Symbolic.ofWord o.symbol.toList = .reference o.symbol none := by cases o <;> rfl
      have known : BinaryOperator.ofSymbol? o.symbol = some o := Token.of_symbol_exact.mpr rfl
      simp only [Expr.symbolic,Symbolic.expr,Symbolic.exprs,keyword,leftIh,rightIh,Symbolic.combined,known,View.expr]
  | @call callee es s named arguments ih =>
      have keyword : Symbolic.ofWord "call".toList = .reference "call" none := rfl
      have other : BinaryOperator.ofSymbol? "call" = none := by decide
      have parts : Symbolic.exprs (Expr.symbolics es) = View.unplaced.exprs es := by
        rw [Symbolic.exprs_map,Expr.symbolics_map,View.exprs_map,List.map_map]
        exact List.map_congr_left ih
      simp only [Expr.symbolic,Symbolic.expr,Symbolic.exprs,keyword,Symbolic.of_word_named named,parts,Symbolic.combined,
        other,View.expr]

theorem symbol_injective : BinaryOperator.symbol o = BinaryOperator.symbol p ↔ o = p := by
  refine ⟨fun same => ?_,congrArg _⟩
  have known := Token.of_symbol_exact.mpr same
  rw [Token.of_symbol_exact.mpr rfl] at known
  exact Option.some.inj known

mutual

theorem same_unplaced : ∀ {e f : Expr}, Printable e → Printable f →
    (e.toNode.same f.toNode = true ↔ View.unplaced.expr e = View.unplaced.expr f)
  | .number _ _, .number _ _, .number m _, .number n _ => by
      simp [Expr.toNode,Node.same,View.expr,View.unplaced,BEq.beq,Binary64.same]
  | .reference _ _, .reference _ _, _, _ => by simp [Expr.toNode,Node.same,View.expr]
  | .binary l o r _, .binary l' o' r' _, .binary left right, .binary left' right' => by
      simp only [Expr.toNode,Node.same,View.expr,Bool.and_eq_true,beq_iff_eq,symbol_injective,
        same_unplaced left left',same_unplaced right right',Expr.binary.injEq,and_true,and_assoc]
  | .call c es _, .call c' es' _, .call _ arguments, .call _ arguments' => by
      simp only [Expr.toNode,Node.same,View.expr,Bool.and_eq_true,beq_iff_eq,same_all_unplaced arguments arguments',
        Expr.call.injEq,and_true]
  | .number _ _, .reference _ _, _, _ | .number _ _, .binary _ _ _ _, _, _ | .number _ _, .call _ _ _, _, _
  | .reference _ _, .number _ _, _, _ | .reference _ _, .binary _ _ _ _, _, _ | .reference _ _, .call _ _ _, _, _
  | .binary _ _ _ _, .number _ _, _, _ | .binary _ _ _ _, .reference _ _, _, _ | .binary _ _ _ _, .call _ _ _, _, _
  | .call _ _ _, .number _ _, _, _ | .call _ _ _, .reference _ _, _, _ | .call _ _ _, .binary _ _ _ _, _, _ => by
      simp [Expr.toNode,Node.same,View.expr]

theorem same_all_unplaced : ∀ {es fs : List Expr}, (∀ e ∈ es, Printable e) → (∀ f ∈ fs, Printable f) →
    (Node.sameAll (Expr.toNodes es) (Expr.toNodes fs) = true ↔ View.unplaced.exprs es = View.unplaced.exprs fs)
  | [], [], _, _ => by simp [Expr.toNodes,Node.sameAll,View.exprs]
  | [], _ :: _, _, _ | _ :: _, [], _, _ => by simp [Expr.toNodes,Node.sameAll,View.exprs]
  | e :: es, f :: fs, printable, others => by
      have first := same_unplaced (printable e List.mem_cons_self) (others f List.mem_cons_self)
      have rest := same_all_unplaced (fun e member => printable e (List.mem_cons_of_mem _ member))
        (fun f member => others f (List.mem_cons_of_mem _ member))
      simp only [Expr.toNodes,Node.sameAll,View.exprs,Bool.and_eq_true,first,rest,List.cons.injEq]

end

theorem Printable.same_of_symbolic (printable : Printable e) (other : Printable f) (same : e.symbolic = f.symbolic) :
    e.toNode.same f.toNode = true := by
  rw [same_unplaced printable other,← printable.reads_back,same,other.reads_back]

theorem Printable.sexpr_of_same (printable : Printable e) (other : Printable f) (same : e.toNode.same f.toNode = true) :
    e.sexpr = f.sexpr := by
  rw [← expr_unplaced e,(same_unplaced printable other).mp same,expr_unplaced]

mutual

-- An infinite number is printed as a name is, so here it is one.
def Expr.named : Expr → Expr
  | .number (.signed _ .infinite) s => .reference "inf" s
  | .number x s => .number x s
  | .reference name s => .reference name s
  | .binary left operator right s => .binary left.named operator right.named s
  | .call callee arguments s => .call callee (Expr.allNamed arguments) s

def Expr.allNamed : List Expr → List Expr
  | [] => []
  | e :: later => e.named :: Expr.allNamed later

end

theorem Expr.all_named_map (es : List Expr) : allNamed es = es.map named := by
  induction es with
  | nil => rfl
  | cons e es ih => rw [allNamed,ih,List.map_cons]

theorem Expr.sexprs_map (es : List Expr) : sexprs es = es.map sexpr := by
  induction es with
  | nil => rfl
  | cons e es ih => rw [sexprs,ih,List.map_cons]

def Token.Lexical (t : Token) : Prop := ∃ w rest, Lexeme w rest t.kind t.value

theorem Token.Lexical.named {t : Token} (lexical : t.Lexical) (kind : t.kind = .identifier) : Named t.word := by
  obtain ⟨w,rest,lexeme⟩ := lexical
  rw [kind] at lexeme
  generalize value : t.value = v at lexeme
  cases lexeme with
  | identifier nonempty word =>
      rw [Token.word,value]
      exact ⟨by rwa [String.toList_ofList],by rw [String.toList_ofList]; exact word.inside⟩

theorem Token.Lexical.amount {t : Token} (lexical : t.Lexical) (kind : t.kind = .number) :
    ∃ m, t.amount = .signed false m := by
  obtain ⟨w,rest,lexeme⟩ := lexical
  rw [kind] at lexeme
  generalize value : t.value = v at lexeme
  cases lexeme with
  | number run form =>
      rw [Token.amount,value]
      exact ⟨_,rfl⟩

theorem Cursor.Drains.lexical {c : Cursor} (drains : c.Drains all stop) : ∀ t, .ok t ∈ all → Token.Lexical t := by
  intro t member
  obtain ⟨rest,lexeme⟩ := drains.spelled t member
  exact ⟨_,rest,lexeme⟩

def Told (v : List Token) (e : Expr) : Prop :=
  (∀ t ∈ v, t.Lexical) → Printable e.named ∧ e.named.sexpr = e.sexpr

def AllTold (v : List Token) (es : List Expr) : Prop := (∀ t ∈ v, t.Lexical) → ∀ e ∈ es, Printable e.named ∧ e.named.sexpr = e.sexpr

theorem told_compositional : Derivation.Compositional Told AllTold where
  number t kind lexical := by
    obtain ⟨m,amount⟩ := (lexical t (List.mem_singleton_self t)).amount kind
    rw [Primary.numberOf,amount]
    cases m with
    | finite significand exponent canonical => exact ⟨.number _ (by simp),rfl⟩
    | infinite => exact ⟨.reference (by decide +kernel),rfl⟩
  reference t kind lexical := ⟨.reference ((lexical t (List.mem_singleton_self t)).named kind),rfl⟩
  binary left _ right _ lexical := by
    obtain ⟨first,same⟩ := left fun t member => lexical t (List.mem_append_left _ member)
    obtain ⟨second,alike⟩ := right fun t member => lexical t (List.mem_append_right _ (List.mem_cons_of_mem _ member))
    exact ⟨.binary first second,by rw [Expr.named,Expr.sexpr,Expr.sexpr,same,alike]⟩
  group o c _ _ inside lexical :=
    inside fun t member => lexical t (List.mem_append_left _ (List.mem_cons_of_mem _ member))
  call n o c named _ _ _ inside lexical := by
    have told := inside fun t member =>
      lexical t (List.mem_append_left _ (List.mem_cons_of_mem _ (List.mem_cons_of_mem _ member)))
    refine ⟨.call ((lexical n List.mem_cons_self).named named) fun e member => ?_,?_⟩
    · rw [Expr.all_named_map] at member
      obtain ⟨f,argument,rfl⟩ := List.mem_map.mp member
      exact (told f argument).1
    · rw [Primary.callOf,Expr.named,Expr.sexpr,Expr.sexpr,Expr.sexprs_map,Expr.sexprs_map,Expr.all_named_map,List.map_map]
      exact congrArg (Form.call _) (List.map_congr_left fun e member => (told e member).2)
  none _ := fun e nothing => absurd nothing List.not_mem_nil
  single argument lexical := fun e member => List.mem_singleton.mp member ▸ argument lexical
  add before t _ argument lexical e member := by
    rcases List.mem_append.mp member with member | member
    · exact before (fun t inside => lexical t (List.mem_append_left _ inside)) e member
    · cases List.mem_singleton.mp member
      exact argument fun t inside => lexical t (List.mem_append_right _ (List.mem_cons_of_mem _ inside))

def Item.named (i : Item) : Item := { i with body := i.body.map Expr.named }

def Item.symbolic (i : Item) : Symbolic :=
  .list (.word (if i.isExternal then "extern" else "def").toList :: .word i.name.toList ::
    .list (i.prototype.parameters.map fun p => .word p.toList) :: i.body.toList.map Expr.symbolic)

theorem Item.symbolic_chars (i : Item) : i.symbolic.chars = i.sexpr.toList := by
  obtain ⟨⟨name,parameters,_⟩,body,_⟩ := i
  have parts : (parameters.map fun p => Symbolic.word p.toList).map Symbolic.chars = parameters.map String.toList := by
    rw [List.map_map]
    rfl
  cases body with
  | none =>
      simp [symbolic,isExternal,Item.name,Symbolic.chars,Symbolic.spaced,sexpr,Form.external,Prototype.sexpr,Form.header,
        ← Symbolic.spaced_form parts]
  | some e =>
      simp [symbolic,isExternal,Item.name,Symbolic.chars,Symbolic.spaced,sexpr,Form.definition,Prototype.sexpr,Form.header,
        ← Symbolic.spaced_form parts,Expr.symbolic_chars]

mutual

theorem Expr.node_sexpr : ∀ e : Expr, e.toNode.sexpr = .ok e.sexpr
  | .number _ _ | .reference _ _ => rfl
  | .binary left operator right _ => by
      rw [toNode,Node.sexpr,node_sexpr left,node_sexpr right]
      rfl
  | .call callee arguments _ => by
      rw [toNode,Node.sexpr,nodes_sexprs arguments]
      rfl

theorem Expr.nodes_sexprs : ∀ es : List Expr, Node.sexprs (toNodes es) = .ok (sexprs es)
  | [] => rfl
  | e :: later => by
      rw [toNodes,Node.sexprs,node_sexpr e,nodes_sexprs later]
      rfl

end

theorem Item.node_sexpr (i : Item) : i.toNode.sexpr = .ok i.sexpr := by
  obtain ⟨p,body,span⟩ := i
  cases body with
  | none => rfl
  | some e =>
      have present : e.toNode.isAbsent = false := by cases e <;> rfl
      simp only [toNode,Option.map_some,Option.getD_some,Node.sexpr,e.node_sexpr,present]
      rfl

structure PrintableItem (i : Item) : Prop where
  name : Named i.prototype.name
  parameters : ∀ p ∈ i.prototype.parameters, Named p
  body : ∀ e ∈ i.body, Printable e

namespace PrintableItem

theorem plain (printable : PrintableItem i) : i.symbolic.Plain := by
  have keyword : Named (if i.isExternal then "extern" else "def") := by split <;> decide +kernel
  refine .list fun s member => ?_
  simp only [List.mem_cons,List.mem_map,Option.mem_toList] at member
  rcases member with rfl | rfl | rfl | ⟨e,body,rfl⟩
  · exact keyword.plain
  · exact printable.name.plain
  · refine .list fun s member => ?_
    obtain ⟨p,parameter,rfl⟩ := List.mem_map.mp member
    exact (printable.parameters p parameter).plain
  · exact (printable.body e body).plain

theorem same_of_symbolic (printable : PrintableItem i) (other : PrintableItem j) (same : i.symbolic = j.symbolic) :
    i.toNode.same j.toNode = true := by
  obtain ⟨⟨name,parameters,_⟩,body,_⟩ := i
  obtain ⟨⟨name',parameters',_⟩,body',_⟩ := j
  simp only [Item.symbolic,Item.name,Symbolic.list.injEq,List.cons.injEq,Symbolic.word.injEq,String.toList_inj] at same
  obtain ⟨_,rfl,parts,bodies⟩ := same
  have words : Function.Injective fun p : String => Symbolic.word p.toList :=
    fun p q same => String.toList_inj.mp (Symbolic.word.inj same)
  obtain rfl := List.map_injective_iff.mpr words parts
  cases body with
  | none =>
      cases body' with
      | none => simp [Item.toNode,Prototype.toNode,Node.same]
      | some f => cases bodies
  | some e =>
      cases body' with
      | none => cases bodies
      | some f =>
          have alike := (printable.body e rfl).same_of_symbolic (other.body f rfl) (List.cons.inj bodies).1
          simp [Item.toNode,Prototype.toNode,Node.same,alike]

theorem sexpr_of_same (printable : PrintableItem i) (other : PrintableItem j) (same : i.toNode.same j.toNode = true) :
    i.sexpr = j.sexpr := by
  obtain ⟨⟨name,parameters,_⟩,body,_⟩ := i
  obtain ⟨⟨name',parameters',_⟩,body',_⟩ := j
  simp only [Item.toNode,Prototype.toNode,Node.same,Bool.and_eq_true,beq_iff_eq] at same
  obtain ⟨⟨rfl,rfl⟩,bodies⟩ := same
  cases body with
  | none =>
      cases body' with
      | none => rfl
      | some f => cases f <;> cases bodies
  | some e =>
      cases body' with
      | none => cases e <;> cases bodies
      | some f =>
          have alike := (printable.body e rfl).sexpr_of_same (other.body f rfl) bodies
          simp only [Item.sexpr,Prototype.sexpr,alike]

end PrintableItem

theorem anonymous_named : Named Item.anonymousName := by decide +kernel

theorem heading_printable (heading : Derivation.Heading v p) (lexical : ∀ t ∈ v, t.Lexical) :
    Named p.name ∧ ∀ q ∈ p.parameters, Named q := by
  cases heading with
  | mk n o c named opening parameters closing =>
      refine ⟨(lexical n List.mem_cons_self).named named,fun q member => ?_⟩
      obtain ⟨t,inside,rfl⟩ := List.mem_map.mp member
      refine (lexical t ?_).named (parameters t inside)
      exact List.mem_append_left _ (List.mem_cons_of_mem _ (List.mem_cons_of_mem _ inside))

theorem item_told (derived : Derivation.TopItem v i) (lexical : ∀ t ∈ v, t.Lexical) :
    PrintableItem i.named ∧ i.named.sexpr = i.sexpr := by
  cases derived with
  | @definition w p u r k keyword heading body =>
      obtain ⟨name,parameters⟩ := heading_printable heading fun t member =>
        lexical t (List.mem_append_left _ (List.mem_cons_of_mem k member))
      obtain ⟨printable,same⟩ := told_compositional.expr body fun t member => lexical t (List.mem_append_right _ member)
      refine ⟨⟨name,parameters,by rintro e ⟨⟩; exact printable⟩,?_⟩
      simp only [Item.named,TopLevel.definition,Item.sexpr,Option.map_some,same]
  | @external w p k keyword heading =>
      obtain ⟨name,parameters⟩ := heading_printable heading fun t member => lexical t (List.mem_cons_of_mem k member)
      exact ⟨⟨name,parameters,by rintro e ⟨⟩⟩,rfl⟩
  | @expression w r t body =>
      obtain ⟨printable,same⟩ := told_compositional.expr body lexical
      refine ⟨⟨anonymous_named,by rintro q ⟨⟩,by rintro e ⟨⟩; exact printable⟩,?_⟩
      simp only [Item.named,Item.ofExpr,Item.sexpr,Option.map_some,same]

theorem analysis_told (analyzed : Analysis.ofText file source = .ok a) (member : i ∈ a.items) :
    PrintableItem i.named ∧ i.named.sexpr = i.sexpr := by
  obtain ⟨w,stop,drains,_,read⟩ := analysis_exact.mp analyzed
  obtain ⟨v,part,derived⟩ := (Program.read_readings read).items i member
  exact item_told derived fun t inside => drains.lexical t (List.mem_map_of_mem (part inside))

-- Two texts are printed alike exactly if their items are equal, but for one coincidence: an infinite number is printed
-- as the name is that spells it.
theorem sexpr_identifies (first : Analysis.ofText file source = .ok x) (second : Analysis.ofText file' source' = .ok y)
    (member : i ∈ x.items) (other : j ∈ y.items) :
    i.toNode.sexpr = j.toNode.sexpr ↔ i.named.toNode.same j.named.toNode = true := by
  obtain ⟨printable,shown⟩ := analysis_told first member
  obtain ⟨readable,printed⟩ := analysis_told second other
  rw [Item.node_sexpr,Item.node_sexpr,← shown,← printed]
  constructor
  · intro same
    have text := Except.ok.inj same
    have chars : i.named.symbolic.chars = j.named.symbolic.chars := by
      rw [Item.symbolic_chars,Item.symbolic_chars,text]
    exact printable.same_of_symbolic readable (Symbolic.chars_injective printable.plain readable.plain chars)
  · exact fun same => congrArg Except.ok (printable.sexpr_of_same readable same)

theorem sexpr_identifies_infinite :
    let literal := "def f(x) ".toList ++ List.replicate 310 '9'
    let name := "def f(x) inf".toList
    ∃ x y i j, Analysis.ofText inputName literal = .ok x ∧ Analysis.ofText inputName name = .ok y ∧ i ∈ x.items ∧ j ∈ y.items ∧
      i.toNode.same j.toNode = false ∧ i.named.toNode.same j.named.toNode = true := by
  intro literal name
  have printed : ((Analysis.ofText inputName literal).toOption.bind fun x => (Analysis.ofText inputName name).toOption.bind fun y =>
      x.items.head?.bind fun i => y.items.head?.map fun j => (i.sexpr,j.sexpr,i.toNode.same j.toNode)) =
        some ("(def f (x) inf)","(def f (x) inf)",false) := by decide +kernel
  obtain ⟨x,first,printed⟩ := Option.bind_eq_some_iff.mp printed
  obtain ⟨y,second,printed⟩ := Option.bind_eq_some_iff.mp printed
  obtain ⟨i,member,printed⟩ := Option.bind_eq_some_iff.mp printed
  obtain ⟨j,other,printed⟩ := Option.map_eq_some_iff.mp printed
  obtain ⟨here,there,apart⟩ : i.sexpr = "(def f (x) inf)" ∧ j.sexpr = "(def f (x) inf)" ∧ i.toNode.same j.toNode = false := by
    simpa only [Prod.mk.injEq] using printed
  have analyzed := of_to_option first
  have read := of_to_option second
  have inside : i ∈ x.items := List.mem_of_mem_head? member
  have within : j ∈ y.items := List.mem_of_mem_head? other
  have same := (sexpr_identifies analyzed read inside within).mp (by rw [Item.node_sexpr,Item.node_sexpr,here,there])
  exact ⟨x,y,i,j,analyzed,read,inside,within,apart,same⟩

end KaleidoscopeFrontEnd
