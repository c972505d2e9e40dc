import KaleidoscopeFrontEnd.Tree.OperandRun

namespace KaleidoscopeFrontEnd

variable {α : Type}

namespace OperatorTree

def leaves : OperatorTree α → List α
  | .leaf operand => [operand]
  | .node left _ right => left.leaves ++ right.leaves

def operators : OperatorTree α → List BinaryOperator
  | .leaf _ => []
  | .node left operator right => left.operators ++ operator :: right.operators

def root? : OperatorTree α → Option BinaryOperator
  | .leaf _ => none
  | .node _ operator _ => some operator

-- A law about neighbours: it mentions no reading order and no least precedence, so it cannot repeat the mistakes of an
-- algorithm.
inductive Grouped : OperatorTree α → Prop where
  | leaf (operand : α) : Grouped (.leaf operand)
  | node (left : Grouped l) (right : Grouped r)
      (leftBinds : ∀ o ∈ l.root?, operator.precedence ≤ o.precedence)
      (rightBinds : ∀ o ∈ r.root?, operator.precedence < o.precedence) : Grouped (.node l operator r)

def flatten : OperatorTree α → OperandRun α
  | .leaf operand => .single operand
  | .node left operator right =>
      ⟨left.flatten.first,left.flatten.others ++ (operator,right.flatten.first) :: right.flatten.others⟩

theorem leaves_flatten (t : OperatorTree α) :
    t.leaves = t.flatten.first :: t.flatten.others.map Prod.snd := by
  induction t with
  | leaf operand => rfl
  | node left operator right leftIh rightIh => simp [leaves,flatten,leftIh,rightIh]

theorem operators_flatten (t : OperatorTree α) : t.operators = t.flatten.others.map Prod.fst := by
  induction t with
  | leaf operand => rfl
  | node left operator right leftIh rightIh => simp [operators,flatten,leftIh,rightIh]

theorem flatten_exact {t u : OperatorTree α} :
    t.flatten = u.flatten ↔ t.leaves = u.leaves ∧ t.operators = u.operators := by
  constructor
  · intro same
    rw [leaves_flatten,leaves_flatten,operators_flatten,operators_flatten,same]
    exact ⟨rfl,rfl⟩
  · rintro ⟨leaves,operators⟩
    rw [leaves_flatten,leaves_flatten,List.cons.injEq] at leaves
    rw [operators_flatten,operators_flatten] at operators
    have others : t.flatten.others = u.flatten.others := by
      rw [← List.zip_unzip t.flatten.others,← List.zip_unzip u.flatten.others]
      simp only [List.unzip_eq_map,leaves.2,operators]
    calc t.flatten = ⟨t.flatten.first,t.flatten.others⟩ := rfl
      _ = ⟨u.flatten.first,u.flatten.others⟩ := by rw [leaves.1,others]

theorem operators_above {t : OperatorTree α} (grouped : t.Grouped) (bound : ∀ o ∈ t.root?, least ≤ o.precedence) :
    ∀ p ∈ t.operators, least ≤ p.precedence := by
  induction grouped generalizing least with
  | leaf operand => simp [operators]
  | @node l r operator left right leftBinds rightBinds leftIh rightIh =>
      have top : least ≤ operator.precedence := bound operator rfl
      intro p member
      rcases List.mem_append.mp member with before | after
      · exact leftIh (fun o root => Nat.le_trans top (leftBinds o root)) p before
      · rcases List.mem_cons.mp after with rfl | behind
        · exact top
        · exact rightIh (fun o root => Nat.le_trans top (Nat.le_of_lt (rightBinds o root))) p behind

theorem graft_above {t : OperatorTree α} (binds : ∀ o ∈ t.root?, operator.precedence ≤ o.precedence)
    (operand : α) : t.graft operator operand = .node t operator (.leaf operand) := by
  cases t with
  | leaf only => rfl
  | node left root right => simp only [graft,if_neg (Nat.not_lt.mpr (binds root rfl))]

theorem graft_root {t : OperatorTree α} :
    ∀ o ∈ (t.graft operator operand).root?, o = operator ∨ o ∈ t.root? := by
  intro o root
  cases t with
  | leaf only => exact .inl (Option.some.inj root).symm
  | node left top right =>
      simp only [graft] at root
      split at root
      · exact .inr root
      · exact .inl (Option.some.inj root).symm

theorem graft_grouped {t : OperatorTree α} (grouped : t.Grouped) (operator : BinaryOperator)
    (operand : α) : (t.graft operator operand).Grouped := by
  induction grouped with
  | leaf only => exact .node (.leaf only) (.leaf operand) (by simp [root?]) (by simp [root?])
  | @node l r top left right leftBinds rightBinds _ rightIh =>
      simp only [graft]
      split
      · rename_i tighter
        refine .node left rightIh leftBinds ?_
        intro o root
        rcases graft_root o root with rfl | old
        · exact tighter
        · exact rightBinds o old
      · rename_i looser
        refine .node (.node left right leftBinds rightBinds) (.leaf operand) ?_ (by simp [root?])
        intro o root
        cases Option.some.inj root
        exact Nat.not_lt.mp looser

theorem graft_flatten (t : OperatorTree α) :
    (t.graft operator operand).flatten = t.flatten.add operator operand := by
  induction t with
  | leaf only => rfl
  | node left root right _ rightIh =>
      simp only [graft]
      split
      · simp [flatten,rightIh,OperandRun.add]
      · rfl

end OperatorTree

namespace OperandRun

def graftAll (others : List (BinaryOperator × α)) (t : OperatorTree α) : OperatorTree α :=
  others.foldl (fun grouped next => grouped.graft next.1 next.2) t

theorem tree_graft_all (run : OperandRun α) : run.tree = graftAll run.others (.leaf run.first) := rfl

theorem graft_all_append (others more : List (BinaryOperator × α)) (t : OperatorTree α) :
    graftAll (others ++ more) t = graftAll more (graftAll others t) := List.foldl_append

theorem graft_all_grouped {t : OperatorTree α} (grouped : t.Grouped) (others : List (BinaryOperator × α)) :
    (graftAll others t).Grouped := by
  induction others generalizing t with
  | nil => exact grouped
  | cons next others ih => exact ih (t.graft_grouped grouped next.1 next.2)

theorem graft_all_flatten (t : OperatorTree α) (others : List (BinaryOperator × α)) :
    (graftAll others t).flatten = ⟨t.flatten.first,t.flatten.others ++ others⟩ := by
  induction others generalizing t with
  | nil => simp [graftAll]
  | cons next others ih =>
      have grafted := ih (t.graft next.1 next.2)
      rw [OperatorTree.graft_flatten] at grafted
      simpa [graftAll,add] using grafted

theorem graft_all_right {others : List (BinaryOperator × α)}
    (tighter : ∀ next ∈ others, root.precedence < next.1.precedence) (left right : OperatorTree α) :
    graftAll others (.node left root right) = .node left root (graftAll others right) := by
  induction others generalizing right with
  | nil => rfl
  | cons next others ih =>
      have grafted : OperatorTree.graft next.1 next.2 (.node left root right) =
          .node left root (right.graft next.1 next.2) := by
        simp only [OperatorTree.graft,if_pos (tighter next List.mem_cons_self)]
      calc graftAll (next :: others) (.node left root right)
          = graftAll others (.node left root (right.graft next.1 next.2)) := by
            rw [← grafted]; rfl
        _ = .node left root (graftAll (next :: others) right) :=
            ih (fun other member => tighter other (List.mem_cons_of_mem _ member)) _

theorem tree_grouped (run : OperandRun α) : run.tree.Grouped := graft_all_grouped (.leaf run.first) run.others

theorem tree_flatten (run : OperandRun α) : run.tree.flatten = run := by
  rw [tree_graft_all,graft_all_flatten]
  rfl

theorem tree_leaves (run : OperandRun α) : run.tree.leaves = run.first :: run.others.map Prod.snd := by
  rw [OperatorTree.leaves_flatten,tree_flatten]

theorem tree_operators (run : OperandRun α) : run.tree.operators = run.others.map Prod.fst := by
  rw [OperatorTree.operators_flatten,tree_flatten]

theorem flatten_tree {t : OperatorTree α} (grouped : t.Grouped) : t.flatten.tree = t := by
  induction grouped with
  | leaf operand => rfl
  | @node l r operator left right leftBinds rightBinds leftIh rightIh =>
      have tighter : ∀ next ∈ r.flatten.others, operator.precedence < next.1.precedence := by
        intro next member
        have present : next.1 ∈ r.operators := by
          rw [OperatorTree.operators_flatten]
          exact List.mem_map_of_mem member
        exact OperatorTree.operators_above right rightBinds next.1 present
      calc (OperatorTree.node l operator r).flatten.tree
          = graftAll r.flatten.others (l.flatten.tree.graft operator r.flatten.first) := by
            rw [tree_graft_all,OperatorTree.flatten,graft_all_append]; rfl
        _ = graftAll r.flatten.others (.node l operator (.leaf r.flatten.first)) := by
            rw [leftIh,OperatorTree.graft_above leftBinds]
        _ = .node l operator r.flatten.tree := graft_all_right tighter _ _
        _ = .node l operator r := by rw [rightIh]

-- There is one grouping: any grouped tree with these leaves and operators is this one.
theorem tree_unique (run : OperandRun α) {t : OperatorTree α} (grouped : t.Grouped)
    (leaves : t.leaves = run.first :: run.others.map Prod.snd)
    (operators : t.operators = run.others.map Prod.fst) : t = run.tree := by
  have same : t.flatten = run.tree.flatten := OperatorTree.flatten_exact.mpr
    ⟨leaves.trans run.tree_leaves.symm,operators.trans run.tree_operators.symm⟩
  rw [← flatten_tree grouped,same,tree_flatten]

end OperandRun

end KaleidoscopeFrontEnd
