import KaleidoscopeFrontEnd.Node.Walk
import KaleidoscopeFrontEnd.Proofs.Analyzed
import KaleidoscopeFrontEnd.Proofs.Composition
import KaleidoscopeFrontEnd.Proofs.Readings
import KaleidoscopeFrontEnd.Proofs.Spelling

namespace KaleidoscopeFrontEnd

structure InOrder (w : List Token) : Prop where
  located : ∀ t ∈ w, ∃ l, t.location = some l
  ordered : w.Pairwise fun t u => ∀ l ∈ t.location, ∀ m ∈ u.location, l.offset < m.offset

theorem InOrder.part (order : InOrder w) (part : v.Sublist w) : InOrder v :=
  ⟨fun t member => order.located t (part.subset member),order.ordered.sublist part⟩

theorem Tiled.beyond (tiled : Tiled file source behind events stop) :
    ∀ e ∈ events, ∃ l, LexicalEvent.location e = some l ∧ (behind : Int) ≤ l.offset := by
  induction tiled with
  | last final => exact fun e member => absurd member List.not_mem_nil
  | event ordered gap nonempty found located later ih =>
      intro e member
      rcases List.mem_cons.mp member with rfl | member
      · exact ⟨_,located,Int.ofNat_le.mpr ordered⟩
      · obtain ⟨l,at_,bound⟩ := ih e member
        exact ⟨l,at_,by omega⟩

theorem Tiled.ordered (tiled : Tiled file source behind events stop) : events.Pairwise fun e f =>
    ∀ l ∈ LexicalEvent.location e, ∀ m ∈ LexicalEvent.location f, l.offset < m.offset := by
  induction tiled with
  | last final => exact .nil
  | @event behind offset events stop event ordered gap nonempty found located later ih =>
      refine List.pairwise_cons.mpr ⟨?_,ih⟩
      intro f member l here m there
      obtain ⟨_,same,bound⟩ := later.beyond f member
      have positive : 0 < event.lexeme.length := by
        rw [← String.length_toList]
        exact List.length_pos_iff.mpr fun empty => nonempty (String.toList_eq_nil_iff.mp empty)
      rw [located] at here
      rw [same] at there
      cases here
      cases there
      simp only [place]
      omega

theorem Lexes.order (lexes : Lexes file text w) : InOrder w := by
  obtain ⟨stop,drains⟩ := lexes
  obtain ⟨all,last,others,tiled⟩ := (Cursor.start_stands file text).tiled
  obtain ⟨rfl,_⟩ := others.unique drains
  refine ⟨fun t member => ?_,List.pairwise_map.mp tiled.ordered⟩
  obtain ⟨l,located,_⟩ := tiled.beyond (.ok t) (List.mem_map_of_mem member)
  exact ⟨l,located⟩

namespace Span

def Inside (inner outer : Span) : Prop :=
  outer.first.offset ≤ inner.first.offset ∧ inner.last.offset ≤ outer.last.offset

def Before (earlier later : Span) : Prop := earlier.last.offset < later.first.offset

def Names (s : Span) (first last : Token) : Prop := first.location = some s.first ∧ last.location = some s.last

end Span

def Node.Before (earlier later : Node) : Prop := ∃ a ∈ earlier.span, ∃ b ∈ later.span, a.Before b

inductive Headed : List Token → Item → Prop where
  | definition (k n o c : Token) (keyword : k.kind = .definition) (opening : o.kind = .openParen)
      (closing : c.kind = .closeParen) (read : Header.read (n :: o :: u ++ [c]) = .accepted i.prototype [])
      (heading : i.prototype.span = some a) (names : a.Names n c) (body : i.body = some e) (span : e.span = some b)
      (apart : a.Before b) : Headed (k :: (n :: o :: u ++ [c]) ++ v) i
  | external (k n o c : Token) (keyword : k.kind = .external) (opening : o.kind = .openParen)
      (closing : c.kind = .closeParen) (read : Header.read (n :: o :: u ++ [c]) = .accepted i.prototype [])
      (heading : i.prototype.span = some a) (names : a.Names n c) (none : i.body = none) :
      Headed (k :: (n :: o :: u ++ [c])) i
  | bare (definition : k.kind ≠ .definition) (external : k.kind ≠ .external) (body : i.body = some e)
      (shared : i.prototype.span = e.span) : Headed (k :: v) i

-- Which tokens of a list a node reaches from and to. A header is placed together with its item.
inductive Ends (w : List Token) : Node → Span → Prop where
  | single (t : Token) (member : t ∈ w) (read : Primary.read [t] = .accepted e []) (names : s.Names t t) :
      Ends w e.toNode s
  | call (n o c : Token) (within : n :: o :: v ++ [c] <:+: w) (opening : o.kind = .openParen)
      (closing : c.kind = .closeParen) (read : Primary.read (n :: o :: v ++ [c]) = .accepted (.call callee es sp) [])
      (names : s.Names n c) (apart : (Expr.toNodes es).Pairwise Node.Before) : Ends w (Expr.call callee es sp).toNode s
  | binary (left : l.span = some a) (right : r.span = some b) (apart : a.Before b) :
      Ends w (.binary l o r sp) ⟨a.first,b.last⟩
  | header : Ends w (.header name parameters sp) s
  | item (split : w = before ++ v ++ after) (read : TopLevel.read (v ++ after) = .accepted i after)
      (first : k ∈ v.head?) (last : z ∈ v.getLast?) (names : s.Names k z) (headed : Headed v i) : Ends w i.toNode s

-- A node has a span between tokens of the list, in their order, and its children are inside it.
structure Covers (w : List Token) (n : Node) (s : Span) : Prop where
  span : n.span = some s
  first : ∃ t ∈ w, t.location = some s.first
  last : ∃ t ∈ w, t.location = some s.last
  ordered : s.first.offset ≤ s.last.offset
  children : ∀ child ∈ n.children, ∃ inner, child.span = some inner ∧ inner.Inside s
  ends : Ends w n s

def Reaches (v : List Token) (span : Option Span) : Prop :=
  ∃ s, span = some s ∧ s.first.offset ≤ s.last.offset ∧ ∃ first ∈ v, ∃ last ∈ v, s.Names first last

theorem Reaches.grow (reaches : Reaches v span) (part : v ⊆ w) : Reaches w span := by
  obtain ⟨s,same,ordered,first,start,last,stop,names⟩ := reaches
  exact ⟨s,same,ordered,first,part start,last,part stop,names⟩

theorem Reaches.before (front : Reaches u earlier) (back : Reaches v later) (order : InOrder (u ++ v)) :
    ∃ a b, earlier = some a ∧ later = some b ∧ a.Before b := by
  obtain ⟨a,rfl,_,_,_,x,inFront,_,stop⟩ := front
  obtain ⟨b,rfl,_,y,inBack,_,_,start,_⟩ := back
  have apart := (List.pairwise_append.mp order.ordered).2.2 x inFront y inBack
  exact ⟨a,b,rfl,rfl,apart _ stop _ start⟩

theorem Reaches.join (front : Reaches u earlier) (back : Reaches v later) (order : InOrder (u ++ v)) :
    Reaches (u ++ v) (Span.join earlier later) := by
  obtain ⟨a,b,rfl,rfl,apart⟩ := front.before back order
  obtain ⟨_,same,left,x,inFront,_,_,start,_⟩ := front
  cases same
  obtain ⟨_,same,right,_,_,y,inBack,_,stop⟩ := back
  cases same
  have ordered : a.first.offset ≤ b.last.offset := by
    unfold Span.Before at apart
    omega
  exact ⟨⟨a.first,b.last⟩,rfl,ordered,x,List.mem_append_left v inFront,y,List.mem_append_right u inBack,start,stop⟩

theorem Expr.node_span (e : Expr) : e.toNode.span = e.span := by cases e <;> rfl

theorem Expr.node_present (e : Expr) : e.toNode.isAbsent = false := by cases e <;> rfl

theorem Node.walk_all (ns : List Node) : walkAll ns = ns.flatMap walk := by
  induction ns with
  | nil => rfl
  | cons n later ih => rw [walkAll,ih,List.flatMap_cons]

theorem Primary.operand_read (derived : Derivation.Operand w e) : Primary.read w = .accepted e [] := by
  obtain ⟨s,consumed,offers⟩ := operand_consumed derived []
  exact Machine.run_exact.mpr ⟨w,s,[],(List.append_nil w).symm,consumed,.finished offers.finish⟩

theorem Header.heading_read (derived : Derivation.Heading w p) : Header.read w = .accepted p [] :=
  Machine.run_exact.mpr ⟨w,.closed p,[],(List.append_nil w).symm,heading_consumed derived,.finished rfl⟩

namespace InOrder

theorem lower (order : InOrder w) (first : k ∈ w.head?) (member : t ∈ w) (here : l ∈ k.location) (there : m ∈ t.location) :
    l.offset ≤ m.offset := by
  obtain ⟨later,rfl⟩ := List.head?_eq_some_iff.mp first
  rcases List.mem_cons.mp member with rfl | member
  · exact Int.le_of_eq (congrArg Location.offset (Option.mem_unique here there))
  · exact Int.le_of_lt ((List.pairwise_cons.mp order.ordered).1 t member l here m there)

theorem upper (order : InOrder w) (last : z ∈ w.getLast?) (member : t ∈ w) (here : l ∈ t.location) (there : m ∈ z.location) :
    l.offset ≤ m.offset := by
  obtain ⟨before,rfl⟩ := List.getLast?_eq_some_iff.mp last
  rcases List.mem_append.mp member with member | member
  · exact Int.le_of_lt ((List.pairwise_append.mp order.ordered).2.2 t member z (List.mem_singleton_self z) l here m there)
  · cases List.mem_singleton.mp member
    exact Int.le_of_eq (congrArg Location.offset (Option.mem_unique here there))

theorem spanned (order : InOrder w) (first : k ∈ w.head?) (last : z ∈ w.getLast?) : ∃ s, k.spanTo z = some s ∧
    s.Names k z ∧ s.first.offset ≤ s.last.offset ∧
      ∀ span, Reaches w span → ∃ inner, span = some inner ∧ inner.Inside s := by
  have begins := List.mem_of_mem_head? first
  have ends := List.mem_of_getLast? last
  obtain ⟨l,here⟩ := order.located k begins
  obtain ⟨m,there⟩ := order.located z ends
  refine ⟨⟨l,m⟩,by rw [Token.spanTo,here,there]; rfl,⟨here,there⟩,order.lower first ends here there,?_⟩
  rintro span ⟨inner,rfl,_,x,start,y,stop,names⟩
  exact ⟨inner,rfl,order.lower first start here names.1,order.upper last stop names.2 there⟩

end InOrder

def Placed (w v : List Token) (e : Expr) : Prop :=
  v <:+: w → Reaches v e.span ∧ ∀ n ∈ e.toNode.walk, ∃ s, Covers w n s

def AllPlaced (w v : List Token) (es : List Expr) : Prop :=
  v <:+: w → (∀ e ∈ es, Reaches v e.span) ∧ (Expr.toNodes es).Pairwise Node.Before ∧
    ∀ e ∈ es, ∀ n ∈ e.toNode.walk, ∃ s, Covers w n s

namespace Placed

variable {w u v : List Token}

theorem leaf (order : InOrder w) (t : Token) (derived : Derivation.Operand [t] e) (span : e.span = t.spanTo t)
    (alone : e.toNode.walk = [e.toNode]) (childless : e.toNode.children = []) : Placed w [t] e := by
  intro part
  obtain ⟨s,spanned,names,ordered,_⟩ := (order.part part.sublist).spanned (k := t) (z := t) rfl rfl
  have here := List.mem_singleton_self t
  have member : t ∈ w := part.subset here
  refine ⟨⟨s,span.trans spanned,ordered,t,here,t,here,names⟩,fun n inside => ?_⟩
  rw [alone] at inside
  cases List.mem_singleton.mp inside
  refine ⟨s,(e.node_span.trans span).trans spanned,⟨t,member,names.1⟩,⟨t,member,names.2⟩,ordered,?_,?_⟩
  · rw [childless]
    exact fun child nothing => absurd nothing List.not_mem_nil
  · exact .single t member (Primary.operand_read derived) names

theorem binary (order : InOrder w) (left : Placed w u l) (t : Token) (right : Placed w v r) :
    Placed w (u ++ t :: v) (.binary l o r (Span.join l.span r.span)) := by
  intro part
  have tight : (u ++ v).Sublist (u ++ t :: v) := (List.Sublist.refl u).append (List.sublist_cons_self t v)
  obtain ⟨inLeft,left⟩ := left ((List.prefix_append u (t :: v)).isInfix.trans part)
  obtain ⟨inRight,right⟩ := right (((List.suffix_cons t v).trans (List.suffix_append u _)).isInfix.trans part)
  have between := order.part (tight.trans part.sublist)
  obtain ⟨a,b,here,there,apart⟩ := inLeft.before inRight between
  have reaches := (inLeft.join inRight between).grow tight.subset
  refine ⟨reaches,fun n inside => ?_⟩
  rw [Expr.toNode,Node.walk,List.mem_cons,List.mem_append] at inside
  rcases inside with rfl | inside | inside
  · obtain ⟨s,same,ordered,x,start,y,stop,names⟩ := reaches
    rw [here,there] at same
    cases same
    refine ⟨⟨a.first,b.last⟩,?_,⟨x,part.subset start,names.1⟩,⟨y,part.subset stop,names.2⟩,ordered,?_,?_⟩
    · change Span.join l.span r.span = _
      rw [here,there]
      rfl
    · obtain ⟨_,same,first,_⟩ := inLeft
      cases here.symm.trans same
      obtain ⟨_,same,last,_⟩ := inRight
      cases there.symm.trans same
      unfold Span.Before at apart
      intro child member
      rcases List.mem_pair.mp member with rfl | rfl
      · exact ⟨a,l.node_span.trans here,Int.le_refl _,by simp only; omega⟩
      · exact ⟨b,r.node_span.trans there,by simp only; omega,Int.le_refl _⟩
    · exact .binary (l.node_span.trans here) (r.node_span.trans there) apart
  · exact left n inside
  · exact right n inside

theorem call (order : InOrder w) (opening : o.kind = .openParen) (closing : c.kind = .closeParen)
    (derived : Derivation.Operand (n :: o :: v ++ [c]) (Primary.callOf n c es)) (inside : AllPlaced w v es) :
    Placed w (n :: o :: v ++ [c]) (Primary.callOf n c es) := by
  intro part
  have last : c ∈ (n :: o :: v ++ [c]).getLast? := List.getLast?_concat
  have inner : v <:+: n :: o :: v ++ [c] := ⟨[n,o],[c],rfl⟩
  obtain ⟨reach,apart,covered⟩ := inside (inner.trans part)
  obtain ⟨s,spanned,names,ordered,holds⟩ := (order.part part.sublist).spanned (k := n) rfl last
  have begins : n ∈ n :: o :: v ++ [c] := List.mem_cons_self
  have ends := List.mem_of_getLast? last
  refine ⟨⟨s,spanned,ordered,n,begins,c,ends,names⟩,fun m member => ?_⟩
  rw [Primary.callOf,Expr.toNode,Node.walk,Node.walk_all,Expr.to_nodes_map,List.mem_cons,List.mem_flatMap] at member
  rcases member with rfl | ⟨_,argument,inArgument⟩
  · refine ⟨s,spanned,⟨n,part.subset begins,names.1⟩,⟨c,part.subset ends,names.2⟩,ordered,?_,?_⟩
    · intro child member
      obtain ⟨e,argument,rfl⟩ := List.mem_map.mp member
      exact e.node_span ▸ holds e.span ((reach e argument).grow inner.subset)
    · rw [← Expr.to_nodes_map]
      exact .call n o c part opening closing (Primary.operand_read derived) names apart
  · obtain ⟨e,given,rfl⟩ := List.mem_map.mp argument
    exact covered e given m inArgument

theorem add (order : InOrder w) (before : AllPlaced w u es) (t : Token) (argument : Placed w v e) :
    AllPlaced w (u ++ t :: v) (es ++ [e]) := by
  intro part
  have tight : (u ++ v).Sublist (u ++ t :: v) := (List.Sublist.refl u).append (List.sublist_cons_self t v)
  have front : u ⊆ u ++ t :: v := List.subset_append_left u _
  have back : v <:+: u ++ t :: v := ((List.suffix_cons t v).trans (List.suffix_append u _)).isInfix
  obtain ⟨reach,apart,covered⟩ := before ((List.prefix_append u (t :: v)).isInfix.trans part)
  obtain ⟨reaches,inLast⟩ := argument (back.trans part)
  refine ⟨fun f member => ?_,?_,fun f member => ?_⟩
  · rcases List.mem_append.mp member with member | member
    · exact (reach f member).grow front
    · cases List.mem_singleton.mp member
      exact reaches.grow back.subset
  · rw [Expr.to_nodes_map,List.map_append,← Expr.to_nodes_map]
    refine List.pairwise_append.mpr ⟨apart,List.pairwise_singleton _ _,fun m member last lastMember => ?_⟩
    rw [Expr.to_nodes_map] at member
    obtain ⟨f,given,rfl⟩ := List.mem_map.mp member
    cases List.mem_singleton.mp lastMember
    obtain ⟨a,b,here,there,ordered⟩ := (reach f given).before reaches (order.part (tight.trans part.sublist))
    exact ⟨a,f.node_span.trans here,b,e.node_span.trans there,ordered⟩
  · rcases List.mem_append.mp member with member | member
    · exact covered f member
    · cases List.mem_singleton.mp member
      exact inLast

theorem compositional (order : InOrder w) : Derivation.Compositional (Placed w) (AllPlaced w) where
  number t kind := leaf order t (.number t kind) rfl rfl rfl
  reference t kind := leaf order t (.reference t kind) rfl rfl rfl
  binary left _ right _ := binary order left _ right
  group {v e} o c _ _ inside part := by
    have inner : v <:+: o :: v ++ [c] := ⟨[o],[c],rfl⟩
    obtain ⟨reaches,covered⟩ := inside (inner.trans part)
    exact ⟨reaches.grow inner.subset,covered⟩
  call n o c _ opening closing derived inside := call order opening closing derived inside
  none _ := ⟨fun e nothing => absurd nothing List.not_mem_nil,.nil,fun e nothing => absurd nothing List.not_mem_nil⟩
  single argument part := by
    obtain ⟨reaches,covered⟩ := argument part
    refine ⟨fun e member => ?_,List.pairwise_singleton _ _,fun e member => ?_⟩
    · exact List.mem_singleton.mp member ▸ reaches
    · exact List.mem_singleton.mp member ▸ covered
  add before t _ argument := add order before t argument

end Placed

theorem heading_names (order : InOrder v) (heading : Derivation.Heading v p) : ∃ n o u c s, v = n :: o :: u ++ [c] ∧
    o.kind = .openParen ∧ c.kind = .closeParen ∧ p.span = some s ∧ s.Names n c ∧ Reaches v (some s) := by
  obtain ⟨n,o,c,named,opening,parameters,closing⟩ := heading
  rename_i u
  have last : c ∈ (n :: o :: u ++ [c]).getLast? := List.getLast?_concat
  obtain ⟨s,spanned,names,ordered,_⟩ := order.spanned (k := n) rfl last
  exact ⟨n,o,u,c,s,rfl,opening,closing,spanned,names,s,rfl,ordered,n,List.mem_cons_self,c,List.mem_of_getLast? last,names⟩

theorem last_cons (k : Token) (w : List Token) : w.getLastD k ∈ (k :: w).getLast? := by
  rw [List.getLast?_cons,List.getLastD_eq_getLast?]
  exact Option.mem_some_self _

section

variable {w before v after : List Token} {i : Item}

-- An item reaches over everything that was read for it, so all that is inside it counts.
theorem item_covered (order : InOrder w) (split : w = before ++ v ++ after)
    (read : TopLevel.read (v ++ after) = .accepted i after) (first : k ∈ v.head?) (last : z ∈ v.getLast?)
    (span : i.span = k.spanTo z) (heading : Reaches v i.prototype.span)
    (body : ∀ e ∈ i.body, Reaches v e.span ∧ ∀ n ∈ e.toNode.walk, ∃ s, Covers w n s) (headed : Headed v i) :
    Reaches v i.span ∧ ∀ n ∈ i.toNode.walk, ∃ s, Covers w n s := by
  have part : v ⊆ w := by
    rw [split]
    exact fun t member => List.mem_append_left after (List.mem_append_right before member)
  have inside : v.Sublist w := by
    rw [split]
    exact (List.sublist_append_right before v).trans (List.sublist_append_left _ after)
  have begins := List.mem_of_mem_head? first
  have ends := List.mem_of_getLast? last
  obtain ⟨s,spanned,names,ordered,holds⟩ := (order.part inside).spanned first last
  have whole : Covers w i.toNode s := by
    refine ⟨span.trans spanned,⟨k,part begins,names.1⟩,⟨z,part ends,names.2⟩,ordered,?_,.item split read first last names headed⟩
    intro child member
    cases given : i.body with
    | none =>
        simp only [Item.toNode,given,Node.children] at member
        cases List.mem_singleton.mp member
        exact holds _ heading
    | some e =>
        simp only [Item.toNode,given,Node.children,Option.map_some,Option.getD_some,e.node_present] at member
        rcases List.mem_pair.mp member with rfl | rfl
        · exact holds _ heading
        · exact e.node_span ▸ holds _ (body e given).1
  have header : ∃ s, Covers w i.prototype.toNode s := by
    obtain ⟨s,same,ordered,x,start,y,stop,names⟩ := heading
    exact ⟨s,same,⟨x,part start,names.1⟩,⟨y,part stop,names.2⟩,ordered,fun child nothing => absurd nothing List.not_mem_nil,
      .header⟩
  refine ⟨⟨s,span.trans spanned,ordered,k,begins,z,ends,names⟩,fun n member => ?_⟩
  rw [Item.toNode,Node.walk,List.mem_cons,List.mem_append] at member
  rcases member with rfl | member | member
  · exact ⟨s,whole⟩
  · cases List.mem_singleton.mp member
    exact header
  · cases given : i.body with
    | none =>
        rw [given] at member
        exact absurd member List.not_mem_nil
    | some e =>
        simp only [given,Option.map_some,Option.getD_some,e.node_present] at member
        exact (body e given).2 n member

theorem item_placed (order : InOrder w) (split : w = before ++ v ++ after)
    (read : TopLevel.read (v ++ after) = .accepted i after) (derived : Derivation.TopItem v i) :
    Reaches v i.span ∧ ∀ n ∈ i.toNode.walk, ∃ s, Covers w n s := by
  have part : v <:+: w := ⟨before,after,split.symm⟩
  have ordered := order.part part.sublist
  cases derived with
  | @definition h p b r k keyword heading body =>
      have header : h <:+: k :: h ++ b := ⟨[k],b,rfl⟩
      have behind : b <:+: k :: h ++ b := (List.suffix_append _ b).isInfix
      obtain ⟨reaches,covered⟩ := (Placed.compositional order).expr body (behind.trans part)
      obtain ⟨n,o,u,c,a,rfl,opening,closing,same,names,named⟩ := heading_names (ordered.part header.sublist) heading
      obtain ⟨_,later,here,there,apart⟩ := named.before reaches (ordered.part (List.sublist_cons_self k _))
      cases here
      refine item_covered order split read rfl (last_cons k _) rfl (same ▸ named.grow header.subset) ?_ ?_
      · rintro e ⟨⟩
        exact ⟨reaches.grow behind.subset,covered⟩
      · exact .definition k n o c keyword opening closing (Header.heading_read heading) same names rfl there apart
  | @external h p k keyword heading =>
      have header : h <:+: k :: h := (List.suffix_cons k h).isInfix
      obtain ⟨n,o,u,c,a,rfl,opening,closing,same,names,named⟩ := heading_names (ordered.part header.sublist) heading
      refine item_covered order split read rfl (last_cons k _) rfl (same ▸ named.grow header.subset) ?_ ?_
      · rintro e ⟨⟩
      · exact .external k n o c keyword opening closing (Header.heading_read heading) same names rfl
  | @expression b r t body =>
      obtain ⟨reaches,covered⟩ := (Placed.compositional order).expr body part
      refine item_covered order split read rfl (last_cons t b) rfl reaches ?_ ?_
      · rintro e ⟨⟩
        exact ⟨reaches,covered⟩
      · rcases body.begins with kind | kind | kind <;> exact .bare (by simp [kind]) (by simp [kind]) rfl rfl

end

theorem readings_placed (order : InOrder w) (readings : Program.Readings v items) (split : w = before ++ v) :
    (∀ i ∈ items, Reaches v i.span ∧ ∀ n ∈ i.toNode.walk, ∃ s, Covers w n s) ∧
      (items.map Item.toNode).Pairwise Node.Before := by
  induction readings generalizing before with
  | nil => exact ⟨fun i nothing => absurd nothing List.not_mem_nil,.nil⟩
  | terminator t terminator later ih =>
      obtain ⟨placed,apart⟩ := ih (split.trans (List.append_cons before t _))
      exact ⟨fun i member => ⟨(placed i member).1.grow (List.subset_cons_self t _),(placed i member).2⟩,apart⟩
  | @item v u i is read derived later ih =>
      have whole : w = before ++ v ++ u := by rw [split,List.append_assoc]
      obtain ⟨reaches,covered⟩ := item_placed order whole read derived
      obtain ⟨placed,apart⟩ := ih whole
      have ordered : InOrder (v ++ u) := order.part (split ▸ List.sublist_append_right before (v ++ u))
      refine ⟨fun j member => ?_,List.pairwise_cons.mpr ⟨fun m member => ?_,apart⟩⟩
      · rcases List.mem_cons.mp member with rfl | member
        · exact ⟨reaches.grow (List.subset_append_left v u),covered⟩
        · exact ⟨(placed j member).1.grow (List.subset_append_right v u),(placed j member).2⟩
      · obtain ⟨j,given,rfl⟩ := List.mem_map.mp member
        obtain ⟨a,b,here,there,before⟩ := reaches.before (placed j given).1 ordered
        exact ⟨a,here,b,there,before⟩

-- Spans nest as the nodes do, siblings that are read one after the other do not overlap, and the items follow each
-- other as they stand in the text.
theorem spans_nest (analyzed : Analysis.ofText file source = .ok a) :
    (∀ i ∈ a.items, ∀ n ∈ i.toNode.walk, ∃ s, Covers (content a.tokens) n s) ∧
      (a.items.map Item.toNode).Pairwise Node.Before := by
  obtain ⟨w,stop,drains,tokens,read⟩ := analysis_exact.mp analyzed
  have lexes : Lexes file source w := ⟨stop,drains⟩
  have order : InOrder w := lexes.order
  have inner : content a.tokens = w := by rw [tokens,content_append_end w drains.ended,content_self lexes.inner]
  obtain ⟨placed,apart⟩ := readings_placed order (Program.read_readings read) (List.nil_append w).symm
  rw [inner]
  exact ⟨fun i member => (placed i member).2,apart⟩

-- Parentheses leave no node, so the operation starts behind the first of them and its item does not.
theorem spans_nest_parentheses : ∃ a,
    Analysis.ofText inputName "(x)*g(1, y); extern g(a b) z".toList = .ok a ∧
      a.items.map Item.sexpr = ["(def anonymous () (* x (call g 1 y)))","(extern g (a b))","(def anonymous () z)"] ∧
      (∀ i ∈ a.items, ∀ n ∈ i.toNode.walk, ∃ s, Covers (content a.tokens) n s) ∧
      (a.items.map Item.toNode).Pairwise Node.Before := by
  have printed : ((Analysis.ofText inputName "(x)*g(1, y); extern g(a b) z".toList).map fun a => a.items.map Item.sexpr).toOption =
    some ["(def anonymous () (* x (call g 1 y)))","(extern g (a b))","(def anonymous () z)"] := by decide +kernel
  obtain ⟨a,analyzed,shown⟩ := map_ok.mp (of_to_option printed)
  exact ⟨a,analyzed,shown,spans_nest analyzed⟩

end KaleidoscopeFrontEnd
