import KaleidoscopeFrontEnd.Proofs.Analyzed
import KaleidoscopeFrontEnd.Proofs.Meaning
import KaleidoscopeFrontEnd.Proofs.Readings

namespace KaleidoscopeFrontEnd

def Token.Heads (t : Token) : Prop := t.kind = .definition ∨ t.kind = .external

-- Only its name marks a wrapped expression, and a header may give that name too.
structure Item.Told (k : Token) (later : List Token) (i : Item) : Prop where
  begins : ∃ z, i.span = k.spanTo z
  external : i.isExternal = true ↔ k.kind = .external
  named : k.Heads → ∃ n ∈ later.head?, n.kind = .identifier ∧ i.name = n.word
  anonymous : i.isAnonymous = true ↔ ¬ k.Heads ∨ ∃ n ∈ later.head?, n.word = anonymousName

theorem Derivation.Run.bare (run : Run (t :: w) r) : ¬ t.Heads := by
  intro heads
  rcases run.begins with begins | begins | begins <;> simp [Token.Heads,begins] at heads

section

variable {k n : Token} {v w : List Token} {i : Item}

theorem Item.Told.of_header (heads : k.Heads) (begins : ∃ z, i.span = k.spanTo z)
    (external : i.isExternal = true ↔ k.kind = .external) (named : n.kind = .identifier) (name : i.name = n.word) :
    i.Told k (n :: w) where
  begins := begins
  external := external
  named _ := ⟨n,rfl,named,name⟩
  anonymous := by simp [Item.isAnonymous,name,heads]

theorem item_kind (derived : Derivation.TopItem v i) : ∃ k later, v = k :: later ∧ i.Told k later := by
  cases derived with
  | definition k keyword heading body =>
      obtain ⟨n,o,c,named,opening,parameters,closing⟩ := heading
      have internal : k.kind ≠ .external := by simp [keyword]
      exact ⟨k,_,rfl,.of_header (.inl keyword) ⟨_,rfl⟩ (iff_of_false Bool.false_ne_true internal) named rfl⟩
  | external k keyword heading =>
      obtain ⟨n,o,c,named,opening,parameters,closing⟩ := heading
      exact ⟨k,_,rfl,.of_header (.inr keyword) ⟨_,rfl⟩ (iff_of_true rfl keyword) named rfl⟩
  | expression t body =>
      have bare : ¬ t.Heads := body.bare
      have internal : t.kind ≠ .external := fun kind => bare (.inr kind)
      refine ⟨t,_,rfl,⟨_,rfl⟩,iff_of_false Bool.false_ne_true internal,fun heads => absurd heads bare,?_⟩
      exact iff_of_true rfl (.inl bare)

end

-- An item is external exactly if that is its first keyword. It is anonymous exactly if it starts with
-- no keyword, or if the header behind the keyword gives that name.
theorem kinds_told (analyzed : Analysis.ofText file source = .ok a) : ∀ i ∈ a.items, ∃ before k later after,
    content a.tokens = before ++ k :: later ++ after ∧ TopLevel.read (k :: later ++ after) = .accepted i after ∧
      i.Told k later := by
  intro i member
  obtain ⟨_,read⟩ := analysis_read analyzed
  obtain ⟨before,v,after,split,alone,derived⟩ := (Program.read_readings read).parts i member
  obtain ⟨k,later,rfl,told⟩ := item_kind derived
  exact ⟨before,k,later,after,split,alone,told⟩

theorem kinds_told_each : ∃ a, Analysis.ofText inputName "extern f(x) def g() anonymous; (y)".toList = .ok a ∧
    a.items.map (fun i => (i.isExternal,i.isAnonymous)) = [(true,false),(false,false),(false,true)] ∧
      ∀ i ∈ a.items, ∃ before k later after, content a.tokens = before ++ k :: later ++ after ∧
        TopLevel.read (k :: later ++ after) = .accepted i after ∧ i.Told k later := by
  have kinds : ((Analysis.ofText inputName "extern f(x) def g() anonymous; (y)".toList).map fun a =>
      a.items.map fun i => (i.isExternal,i.isAnonymous)).toOption = some [(true,false),(false,false),(false,true)] := by
    decide +kernel
  obtain ⟨a,analyzed,shown⟩ := map_ok.mp (of_to_option kinds)
  exact ⟨a,analyzed,shown,kinds_told analyzed⟩

theorem kind_mistaken : ∃ a i k later, Analysis.ofText inputName "def anonymous(x) x".toList = .ok a ∧ a.items = [i] ∧
    content a.tokens = k :: later ∧ k.kind = .definition ∧ i.isAnonymous = true := by
  have shown : ((Analysis.ofText inputName "def anonymous(x) x".toList).map fun a =>
      (a.items.map Item.isAnonymous,(content a.tokens).map Token.kind)).toOption =
        some ([true],[.definition,.identifier,.openParen,.identifier,.closeParen,.identifier]) := by
    decide +kernel
  obtain ⟨a,analyzed,shown⟩ := map_ok.mp (of_to_option shown)
  obtain ⟨kinds,tokens⟩ := Prod.mk.inj shown
  obtain ⟨i,items,anonymous⟩ := List.map_eq_singleton_iff.mp kinds
  obtain ⟨k,later,split,keyword,_⟩ := List.map_eq_cons_iff.mp tokens
  exact ⟨a,i,k,later,analyzed,items,split,keyword,anonymous⟩

theorem definition_mistaken (body : Derivation.Run v r) (keyword : k.kind = .definition) (named : n.kind = .identifier)
    (opening : o.kind = .openParen) (closing : c.kind = .closeParen) (name : n.word = Item.anonymousName) :
    ∃ i j, Derivation.TopItem (k :: [n,o,c] ++ v) i ∧ Derivation.TopItem v j ∧
      View.unplaced.item i = View.unplaced.item j := by
  have heading : Derivation.Heading [n,o,c] (Header.close n c []) :=
    .mk (w := []) n o c named opening (fun p nothing => absurd nothing List.not_mem_nil) closing
  cases v with
  | nil => exact absurd rfl body.nonempty
  | cons t w =>
      refine ⟨_,_,.definition k keyword heading body,.expression t body,?_⟩
      simp [View.item,TopLevel.definition,Item.ofExpr,Header.close,Prototype.unspanned,name]

end KaleidoscopeFrontEnd
