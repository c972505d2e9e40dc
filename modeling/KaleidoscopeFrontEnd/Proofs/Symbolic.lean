import KaleidoscopeFrontEnd.Proofs.LexicalGrammar

namespace KaleidoscopeFrontEnd

-- Words in nested lists, which is the shape of everything that is printed.
inductive Symbolic where
  | word (chars : List Char)
  | list (parts : List Symbolic)

namespace Symbolic

mutual

def chars : Symbolic → List Char
  | .word chars => chars
  | .list parts => '(' :: ((spaced parts).drop 1 ++ [')'])

def spaced : List Symbolic → List Char
  | [] => []
  | s :: later => ' ' :: (chars s ++ spaced later)

end

def isMark (c : Char) : Bool := c == ' ' || c == '(' || c == ')'

inductive Plain : Symbolic → Prop where
  | word (nonempty : w ≠ []) (inside : ∀ c ∈ w, isMark c = false) : Plain (.word w)
  | list (parts : ∀ s ∈ ss, Plain s) : Plain (.list ss)

theorem Plain.first (plain : Plain s) (rest : List Char) : ∃ c later, s.chars ++ rest = c :: later ∧ c ≠ ')' := by
  cases plain with
  | @word w nonempty inside =>
      obtain ⟨c,later,rfl⟩ := List.exists_cons_of_ne_nil nonempty
      refine ⟨c,later ++ rest,rfl,?_⟩
      rintro rfl
      exact absurd (inside ')' List.mem_cons_self) (by decide)
  | list parts => exact ⟨'(',_,rfl,by decide⟩

def Ended (rest : List Char) : Prop := ∀ c ∈ rest.head?, isMark c = true

theorem spaced_ended (ss : List Symbolic) (rest : List Char) : Ended (spaced ss ++ ')' :: rest) := by
  cases ss <;> rintro c ⟨⟩ <;> decide

theorem word_unique (inside : ∀ c ∈ w, isMark c = false) (other : ∀ c ∈ v, isMark c = false) (ended : Ended r)
    (stopped : Ended q) (same : w ++ r = v ++ q) : w = v ∧ r = q := by
  have runs : ∀ {w r : List Char}, (∀ c ∈ w, isMark c = false) → Ended r → Longest (fun c => !isMark c) w r := by
    intro w r inside ended
    exact ⟨fun c member => by simp [inside c member],fun c first => by simp [ended c first]⟩
  obtain ⟨one,rest⟩ := (runs inside ended).taken
  obtain ⟨two,tail⟩ := (runs other stopped).taken
  rw [same] at one rest
  exact ⟨one.symm.trans two,rest.symm.trans tail⟩

theorem word_not_list (nonempty : w ≠ []) (inside : ∀ c ∈ w, isMark c = false) : w ++ r ≠ '(' :: rest := by
  obtain ⟨c,later,rfl⟩ := List.exists_cons_of_ne_nil nonempty
  intro same
  obtain ⟨rfl,_⟩ := List.cons.inj same
  exact absurd (inside '(' List.mem_cons_self) (by decide)

theorem spaced_of_drop (parts : ∀ s ∈ ss, Plain s) (others : ∀ t ∈ ts, Plain t)
    (same : (spaced ss).drop 1 ++ ')' :: r = (spaced ts).drop 1 ++ ')' :: q) : spaced ss ++ ')' :: r = spaced ts ++ ')' :: q := by
  have apart : ∀ {s ss r q}, Plain s → ')' :: r ≠ (spaced (s :: ss)).drop 1 ++ ')' :: q := by
    intro s ss r q plain same
    obtain ⟨c,later,begun,other⟩ := plain.first (spaced ss ++ ')' :: q)
    rw [spaced,List.drop_one,List.tail_cons,List.append_assoc,begun] at same
    exact other (List.cons.inj same).1.symm
  cases ss with
  | nil =>
      cases ts with
      | nil => exact same
      | cons t ts => exact absurd same (apart (others t List.mem_cons_self))
  | cons s ss =>
      cases ts with
      | nil => exact absurd same.symm (apart (parts s List.mem_cons_self))
      | cons t ts => exact congrArg (' ' :: ·) same

mutual

-- Where one plain expression ends in a text, no other one does.
theorem chars_unique : ∀ {s t : Symbolic} {r q : List Char}, Plain s → Plain t → Ended r → Ended q →
    s.chars ++ r = t.chars ++ q → s = t ∧ r = q
  | .word w, .word v, r, q, .word _ inside, .word _ other, ended, stopped, same => by
      obtain ⟨rfl,rest⟩ := word_unique inside other ended stopped same
      exact ⟨rfl,rest⟩
  | .word w, .list ts, r, q, .word nonempty inside, _, _, _, same => absurd same (word_not_list nonempty inside)
  | .list ss, .word v, r, q, _, .word nonempty inside, _, _, same => absurd same.symm (word_not_list nonempty inside)
  | .list ss, .list ts, r, q, .list parts, .list others, _, _, same => by
      have inner : (spaced ss).drop 1 ++ ')' :: r = (spaced ts).drop 1 ++ ')' :: q := by
        simpa only [chars,List.cons_append,List.append_assoc,List.nil_append,List.cons.injEq,true_and] using same
      obtain ⟨rfl,rest⟩ := spaced_unique parts others (spaced_of_drop parts others inner)
      exact ⟨rfl,rest⟩

theorem spaced_unique : ∀ {ss ts : List Symbolic} {r q : List Char}, (∀ s ∈ ss, Plain s) → (∀ t ∈ ts, Plain t) →
    spaced ss ++ ')' :: r = spaced ts ++ ')' :: q → ss = ts ∧ r = q
  | [], [], r, q, _, _, same => ⟨rfl,(List.cons.inj same).2⟩
  | [], t :: ts, r, q, _, _, same => absurd (List.cons.inj same).1 (by decide)
  | s :: ss, [], r, q, _, _, same => absurd (List.cons.inj same).1 (by decide)
  | s :: ss, t :: ts, r, q, parts, others, same => by
      have inner : s.chars ++ (spaced ss ++ ')' :: r) = t.chars ++ (spaced ts ++ ')' :: q) := by
        simpa only [spaced,List.cons_append,List.append_assoc,List.cons.injEq,true_and] using same
      obtain ⟨rfl,rest⟩ := chars_unique (parts s List.mem_cons_self) (others t List.mem_cons_self)
        (spaced_ended ss r) (spaced_ended ts q) inner
      obtain ⟨rfl,last⟩ := spaced_unique (fun s member => parts s (List.mem_cons_of_mem _ member))
        (fun t member => others t (List.mem_cons_of_mem _ member)) rest
      exact ⟨rfl,last⟩

end

theorem chars_injective (plain : Plain s) (other : Plain t) (same : s.chars = t.chars) : s = t := by
  have ended : Ended [] := by rintro c ⟨⟩
  exact (chars_unique plain other ended ended (congrArg (· ++ []) same)).1

end Symbolic

end KaleidoscopeFrontEnd
