import KaleidoscopeFrontEnd.Node.Basic
import KaleidoscopeFrontEnd.Proofs.Completeness
import KaleidoscopeFrontEnd.Proofs.Grouping
import KaleidoscopeFrontEnd.Proofs.Language
import KaleidoscopeFrontEnd.Proofs.Streams
import Mathlib.Data.List.Forall2

namespace KaleidoscopeFrontEnd

def Expr.operator? : Expr → Option BinaryOperator
  | .binary _ o _ _ => some o
  | _ => none

theorem Expr.to_nodes_map (es : List Expr) : Expr.toNodes es = es.map Expr.toNode := by
  induction es with
  | nil => rfl
  | cons e es ih => rw [Expr.toNodes,ih,List.map_cons]

theorem Binary64.same_self {x : Binary64} (genuine : x ≠ .nan) : (x == x) = true := by
  cases x with
  | nan => exact absurd rfl genuine
  | signed negative magnitude => simp [BEq.beq,Binary64.same]

theorem Node.same_all_append {xs ys us vs : List Node} (first : Node.sameAll xs ys = true)
    (second : Node.sameAll us vs = true) : Node.sameAll (xs ++ us) (ys ++ vs) = true := by
  induction xs generalizing ys with
  | nil =>
      cases ys with
      | nil => exact second
      | cons y ys => cases first
  | cons x xs ih =>
      cases ys with
      | nil => cases first
      | cons y ys =>
          simp only [Node.sameAll,Bool.and_eq_true] at first
          simp only [List.cons_append,Node.sameAll,first.1,ih first.2,Bool.and_self]

theorem Node.same_all_single {x y : Node} (same : x.same y = true) : Node.sameAll [x] [y] = true := by
  simp only [Node.sameAll,same,Bool.and_self]

theorem flatten_expr {t : OperatorTree Expr} (grouped : t.Grouped) : t.flatten.expr = Expr.ofTree t :=
  congrArg Expr.ofTree (OperandRun.flatten_tree grouped)

-- Only kinds and values are fixed: lexemes, places and the number of redundant parentheses and terminators are free.
namespace Spelling

def Names (name : String) (t : Token) : Prop := t.kind = .identifier ∧ t.value = some (.text name)

mutual

-- The number counts the parentheses around the whole. An operand has them where grouping alone would put it elsewhere.
inductive Written : Expr → Nat → List Token → Prop where
  | number (t : Token) (kind : t.kind = .number) (value : t.value = some (.number x)) (genuine : x ≠ .nan) :
      Written (.number x s) 0 [t]
  | reference (t : Token) (named : Names name t) : Written (.reference name s) 0 [t]
  | binary (left : Written l j w) (t : Token) (kind : t.kind = .operator) (value : t.value = some (.text o.symbol))
      (right : Written r k v) (leftBinds : ∀ p ∈ l.operator?, p.precedence < o.precedence → 1 ≤ j)
      (rightBinds : ∀ p ∈ r.operator?, p.precedence ≤ o.precedence → 1 ≤ k) :
      Written (.binary l o r s) 0 (w ++ t :: v)
  | bareCall (n p c : Token) (named : Names name n) (opening : p.kind = .openParen) (closing : c.kind = .closeParen) :
      Written (.call name [] s) 0 [n,p,c]
  | call (n p c : Token) (named : Names name n) (opening : p.kind = .openParen) (inside : Listed es w)
      (closing : c.kind = .closeParen) : Written (.call name es s) 0 (n :: p :: w ++ [c])
  | group (p c : Token) (opening : p.kind = .openParen) (inside : Written e k w) (closing : c.kind = .closeParen) :
      Written e (k + 1) (p :: w ++ [c])

inductive Listed : List Expr → List Token → Prop where
  | single (argument : Written e k w) : Listed [e] w
  | add (before : Listed es w) (t : Token) (comma : t.kind = .comma) (argument : Written e k v) :
      Listed (es ++ [e]) (w ++ t :: v)

end

inductive Heading : Prototype → List Token → Prop where
  | mk (n o c : Token) (named : Names name n) (opening : o.kind = .openParen)
      (parameters : List.Forall₂ Names names w) (closing : c.kind = .closeParen) :
      Heading ⟨name,names,s⟩ (n :: o :: w ++ [c])

inductive TopItem : Item → List Token → Prop where
  | definition (k : Token) (keyword : k.kind = .definition) (heading : Heading p w) (body : Written e j v) :
      TopItem ⟨p,some e,s⟩ (k :: w ++ v)
  | external (k : Token) (keyword : k.kind = .external) (heading : Heading p w) : TopItem ⟨p,none,s⟩ (k :: w)
  | bare (body : Written e j w) : TopItem ⟨⟨Item.anonymousName,[],p⟩,some e,s⟩ w

inductive Program : List Item → List Token → Prop where
  | nil : Program [] []
  | terminator (t : Token) (terminator : Language.Terminator t) (later : Program is w) : Program is (t :: w)
  | last (item : TopItem i w) : Program [i] w
  | item (item : TopItem i v) (t : Token) (terminator : Language.Terminator t) (later : Program is w) :
      Program (i :: is) (v ++ t :: w)

mutual

-- Trees that equal themselves: none of their numbers is a NaN.
def Genuine : Expr → Prop
  | .number x _ => x ≠ .nan
  | .reference _ _ => True
  | .binary left _ right _ => Genuine left ∧ Genuine right
  | .call _ arguments _ => AllGenuine arguments

def AllGenuine : List Expr → Prop
  | [] => True
  | e :: later => Genuine e ∧ AllGenuine later

end

theorem Written.enclose (written : Written e 0 w) (k : Nat) : ∃ v, Written e k v := by
  induction k with
  | zero => exact ⟨w,written⟩
  | succ k ih =>
      obtain ⟨v,inside⟩ := ih
      exact ⟨_,.group .opening .closing rfl inside rfl⟩

mutual

theorem genuine_written : ∀ e, Genuine e → ∀ k, ∃ w, Written e k w
  | .number x _,genuine => (Written.number ⟨.number,x.text,some (.number x),none⟩ rfl rfl genuine).enclose
  | .reference name _,_ => (Written.reference (.ofName name) ⟨rfl,rfl⟩).enclose
  | .binary left o right _,genuine => by
      obtain ⟨w,left⟩ := genuine_written left genuine.1 1
      obtain ⟨v,right⟩ := genuine_written right genuine.2 1
      exact (Written.binary left (.ofSymbol o.symbol) rfl rfl right (fun _ _ _ => Nat.le_refl 1)
        fun _ _ _ => Nat.le_refl 1).enclose
  | .call name [] _,_ => (Written.bareCall (.ofName name) .opening .closing ⟨rfl,rfl⟩ rfl rfl).enclose
  | .call name (e :: es) _,genuine => by
      obtain ⟨w,first⟩ := genuine_written e genuine.1 0
      obtain ⟨v,arguments⟩ := genuine_listed es genuine.2 [e] w (.single first)
      exact (Written.call (.ofName name) .opening .closing ⟨rfl,rfl⟩ rfl arguments rfl).enclose

theorem genuine_listed : ∀ es, AllGenuine es → ∀ earlier w, Listed earlier w → ∃ v, Listed (earlier ++ es) v
  | [],_,earlier,w,listed => ⟨w,by rwa [List.append_nil]⟩
  | e :: es,genuine,earlier,w,listed => by
      obtain ⟨v,next⟩ := genuine_written e genuine.1 0
      have grown := genuine_listed es genuine.2 (earlier ++ [e]) _ (.add listed (.ofKind .comma ",") rfl next)
      rwa [List.append_assoc] at grown

end

theorem item_written (i : Item) (genuine : ∀ e ∈ i.body, Genuine e) : ∃ w, TopItem i w := by
  obtain ⟨⟨name,names,s⟩,body,s'⟩ := i
  have parameters : List.Forall₂ Names names (names.map Token.ofName) := by
    rw [List.forall₂_map_right_iff]
    exact List.forall₂_same.mpr fun _ _ => ⟨rfl,rfl⟩
  have heading : Heading ⟨name,names,s⟩ _ := .mk (.ofName name) .opening .closing ⟨rfl,rfl⟩ rfl parameters rfl
  cases body with
  | none => exact ⟨_,.external (.ofKind .external "extern") rfl heading⟩
  | some e =>
      obtain ⟨v,body⟩ := genuine_written e (genuine e rfl) 0
      exact ⟨_,.definition (.ofKind .definition "def") rfl heading body⟩

theorem items_written (items : List Item) (genuine : ∀ i ∈ items, ∀ e ∈ i.body, Genuine e) :
    ∃ w, Program items w := by
  induction items with
  | nil => exact ⟨[],.nil⟩
  | cons i items ih =>
      obtain ⟨v,item⟩ := item_written i (genuine i List.mem_cons_self)
      obtain ⟨w,later⟩ := ih fun j member => genuine j (List.mem_cons_of_mem i member)
      exact ⟨_,.item item (.ofSymbol ";") ⟨rfl,rfl⟩ later⟩

theorem Names.word (named : Names name t) : t.word = name := by
  simp only [Token.word,named.2]

mutual

-- Parentheses leave no operator outside, so a bracketed operand is a leaf of the tree around it.
theorem written_derives : Written e k w → ∃ t : OperatorTree Expr, t.Grouped ∧ Derivation.Run w t.flatten ∧
    Node.same (Expr.ofTree t).toNode e.toNode = true ∧ ∀ p ∈ t.root?, p ∈ e.operator? ∧ k = 0
  | .number t kind value genuine => by
      refine ⟨.leaf (Primary.numberOf t),.leaf _,.single (.number t kind),?_,nofun⟩
      simp only [Expr.ofTree,Primary.numberOf,Token.amount,value]
      exact Binary64.same_self genuine
  | .reference t named => by
      refine ⟨.leaf (Primary.referenceTo t),.leaf _,.single (.reference t named.1),?_,nofun⟩
      simp only [Expr.ofTree,Primary.referenceTo,named.word]
      exact beq_self_eq_true _
  | .binary left t kind value right leftBinds rightBinds => by
      obtain ⟨l,leftGrouped,leftRun,leftSame,leftRoot⟩ := written_derives left
      obtain ⟨r,rightGrouped,rightRun,rightSame,rightRoot⟩ := written_derives right
      have binary := Token.binary_operator_exact.mpr ⟨kind,value⟩
      refine ⟨.node l _ r,.node leftGrouped rightGrouped ?_ ?_,leftRun.append t binary rightRun,?_,?_⟩
      · intro p root
        obtain ⟨operator,none⟩ := leftRoot p root
        exact Nat.not_lt.mp fun looser => absurd (leftBinds p operator looser) (by omega)
      · intro p root
        obtain ⟨operator,none⟩ := rightRoot p root
        exact Nat.not_le.mp fun looser => absurd (rightBinds p operator looser) (by omega)
      · simp only [Expr.ofTree,Expr.toNode,Node.same,leftSame,rightSame,beq_self_eq_true,Bool.and_self]
      · intro p root
        exact ⟨root,rfl⟩
  | .bareCall n p c named opening closing => by
      refine ⟨.leaf (Primary.callOf n c []),.leaf _,.single (.bareCall n p c named.1 opening closing),?_,nofun⟩
      simp only [Expr.ofTree,Primary.callOf,named.word,Expr.toNode,Expr.toNodes,Node.same,Node.sameAll,
        beq_self_eq_true,Bool.and_self]
  | .call n p c named opening inside closing => by
      obtain ⟨es,arguments,same⟩ := listed_derives inside
      refine ⟨.leaf (Primary.callOf n c es),.leaf _,.single (.call n p c named.1 opening arguments closing),?_,nofun⟩
      simp only [Expr.ofTree,Primary.callOf,named.word,Expr.toNode,Node.same,same,beq_self_eq_true,Bool.and_self]
  | .group p c opening inside closing => by
      obtain ⟨t,grouped,run,same,_⟩ := written_derives inside
      refine ⟨.leaf t.flatten.expr,.leaf _,.single (.group p c opening run closing),?_,nofun⟩
      rwa [Expr.ofTree,flatten_expr grouped]

theorem listed_derives : Listed es w → ∃ read, Derivation.Arguments w read ∧
    Node.sameAll (Expr.toNodes read) (Expr.toNodes es) = true
  | .single argument => by
      obtain ⟨t,grouped,run,same,_⟩ := written_derives argument
      rw [← flatten_expr grouped] at same
      exact ⟨_,.single run,Node.same_all_single same⟩
  | .add before t comma argument => by
      obtain ⟨read,arguments,same⟩ := listed_derives before
      obtain ⟨t,grouped,run,last,_⟩ := written_derives argument
      refine ⟨_,.add arguments _ comma run,?_⟩
      rw [← flatten_expr grouped] at last
      rw [Expr.to_nodes_map,Expr.to_nodes_map] at same ⊢
      rw [List.map_append,List.map_append]
      exact Node.same_all_append same (Node.same_all_single last)

end

theorem parameters_words (parameters : List.Forall₂ Names names w) :
    (∀ t ∈ w, t.kind = .identifier) ∧ w.map Token.word = names := by
  induction parameters with
  | nil => simp
  | cons named later ih =>
      obtain ⟨identifiers,words⟩ := ih
      exact ⟨List.forall_mem_cons.mpr ⟨named.1,identifiers⟩,by rw [List.map_cons,named.word,words]⟩

theorem heading_derives (heading : Heading p w) : ∃ q, Derivation.Heading w q ∧ q.toNode.same p.toNode = true := by
  obtain ⟨n,o,c,named,opening,parameters,closing⟩ := heading
  obtain ⟨identifiers,words⟩ := parameters_words parameters
  refine ⟨_,.mk n o c named.1 opening identifiers closing,?_⟩
  simp only [Header.close,Prototype.toNode,Node.same,named.word,words,beq_self_eq_true,Bool.and_self]

theorem written_run (written : Written e k w) : ∃ r, Derivation.Run w r ∧ r.expr.toNode.same e.toNode = true := by
  obtain ⟨t,grouped,run,same,_⟩ := written_derives written
  rw [← flatten_expr grouped] at same
  exact ⟨_,run,same⟩

theorem item_derives (item : TopItem i w) :
    ∃ read, Derivation.TopItem w read ∧ read.toNode.same i.toNode = true := by
  cases item with
  | definition k keyword heading body =>
      obtain ⟨p,heading,sameHeading⟩ := heading_derives heading
      obtain ⟨r,run,sameBody⟩ := written_run body
      refine ⟨_,.definition k keyword heading run,?_⟩
      simp only [TopLevel.definition,Item.toNode,Option.map_some,Option.getD_some,Node.same,sameHeading,sameBody,Bool.and_self]
  | external k keyword heading =>
      obtain ⟨p,heading,sameHeading⟩ := heading_derives heading
      refine ⟨_,.external k keyword heading,?_⟩
      simp only [TopLevel.external,Item.toNode,Option.map_none,Option.getD_none,Node.same,sameHeading,Bool.and_self]
  | bare body =>
      obtain ⟨r,run,same⟩ := written_run body
      cases w with
      | nil => exact absurd rfl run.nonempty
      | cons t w =>
          refine ⟨_,.expression t run,?_⟩
          simp only [Item.ofExpr,Item.toNode,Prototype.toNode,Option.map_some,Option.getD_some,Node.same,same,
            beq_self_eq_true,Bool.and_self]

theorem program_run (spelled : Program is w) (items : List Item) :
    ∃ read, KaleidoscopeFrontEnd.Program.machine.run (.between items) w = .accepted (items ++ read) [] ∧
      Node.sameAll (read.map Item.toNode) (is.map Item.toNode) = true := by
  induction spelled generalizing items with
  | nil => exact ⟨[],by rw [List.append_nil]; rfl,rfl⟩
  | terminator t terminator later ih =>
      obtain ⟨read,run,same⟩ := ih items
      refine ⟨read,?_,same⟩
      rw [Program.terminator_run (Language.terminator_exact.mp terminator)]
      exact run
  | last item =>
      obtain ⟨read,derived,same⟩ := item_derives item
      have run := Program.item_run derived items [] (by simp)
      rw [List.append_nil] at run
      exact ⟨[read],run,Node.same_all_single same⟩
  | item item t terminator later ih =>
      obtain ⟨read,derived,same⟩ := item_derives item
      obtain ⟨more,run,later⟩ := ih (items ++ [read])
      have ends := Language.terminator_exact.mp terminator
      refine ⟨read :: more,?_,?_⟩
      · rw [Program.item_run derived,Program.terminator_run ends,run,List.append_assoc]
        · rfl
        · intro u first
          cases first
          exact terminator_apart ends _
      · exact Node.same_all_append (Node.same_all_single same) later

-- Reading undoes writing, whatever redundant parentheses and terminators were put in.
theorem read_written (tokens : List Token) (written : Program items (content tokens)) :
    ∃ read, ((TokenStream.ofTokens tokens).apply Program.read).1 = .ok read ∧
      Node.sameAll (read.map Item.toNode) (items.map Item.toNode) = true := by
  obtain ⟨read,run,same⟩ := program_run written []
  refine ⟨read,?_,same⟩
  rw [TokenStream.apply_exact,TokenStream.of_tokens_unread]
  exact congrArg (Reply.result _) run

theorem read_written_definition :
    let a : Expr := .reference "a" none
    let b : Expr := .reference "b" none
    let product : Expr := .binary a .times (.binary b .minus (.number .zero none) none) none
    let items : List Item := [⟨⟨"f",["a","b"],none⟩,some product,none⟩,
      .ofExpr (.call "f" [.binary a .less b none,.call "g" [] none] none) none]
    let ends := Token.ofSymbol ";"
    let tokens := [ends,.ofKind .definition "def",.ofName "f",.opening,.ofName "a",.ofName "b",.closing,
      .opening,.opening,.ofName "a",.closing,.closing,.ofSymbol "*",.opening,.ofName "b",.ofSymbol "-",.zero,.closing,
      ends,ends,.ofName "f",.opening,.ofName "a",.ofSymbol "<",.ofName "b",.ofKind .comma ",",
      .ofName "g",.opening,.closing,.closing,ends]
    Program items (content tokens) ∧ ∃ read, ((TokenStream.ofTokens tokens).apply Program.read).1 = .ok read ∧
      Node.sameAll (read.map Item.toNode) (items.map Item.toNode) = true := by
  intro a b product items ends tokens
  have name (text : String) : Written (.reference text none) 0 [.ofName text] := .reference _ ⟨rfl,rfl⟩
  have body : Written product 0 _ :=
    .binary (.group .opening .closing rfl (.group .opening .closing rfl (name "a") rfl) rfl) (.ofSymbol "*") rfl rfl
      (.group .opening .closing rfl (.binary (name "b") (.ofSymbol "-") rfl rfl (.number .zero rfl rfl (by decide))
        (by decide) (by decide)) rfl) (by decide) (by decide)
  have call : Written (.call "f" [.binary a .less b none,.call "g" [] none] none) 0 _ :=
    .call (.ofName "f") .opening .closing ⟨rfl,rfl⟩ rfl
      (.add (.single (.binary (name "a") (.ofSymbol "<") rfl rfl (name "b") (by decide) (by decide))) (.ofKind .comma ",") rfl
        (.bareCall (.ofName "g") .opening .closing ⟨rfl,rfl⟩ rfl rfl)) rfl
  have parameters : List.Forall₂ Names ["a","b"] [.ofName "a",.ofName "b"] := .cons ⟨rfl,rfl⟩ (.cons ⟨rfl,rfl⟩ .nil)
  have heading : Heading ⟨"f",["a","b"],none⟩ _ := .mk (.ofName "f") .opening .closing ⟨rfl,rfl⟩ rfl parameters rfl
  have written : Program items (content tokens) :=
    .terminator ends ⟨rfl,rfl⟩ (.item (.definition (.ofKind .definition "def") rfl heading body) ends ⟨rfl,rfl⟩
      (.terminator ends ⟨rfl,rfl⟩ (.item (.bare call) ends ⟨rfl,rfl⟩ .nil)))
  exact ⟨written,read_written tokens written⟩

end Spelling

end KaleidoscopeFrontEnd
