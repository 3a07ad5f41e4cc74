import SceneScript.Proofs.Grammar.Certificate

/-!
What a certified automaton has on its stack are derivations of the lexemes read so far.
-/

namespace SceneScript.Grammar

/-- The states on the stack are those that its derivations lead to. -/
inductive Stack.Linked (m : Automaton) : Stack → Prop
  | nil : Linked m []
  | cons {below : Stack} {q : Nat} {d : Derivation} (linked : Linked m below)
      (edge : (m.row below.state).edges.lookup d.symbol = some q) : Linked m ((q, d) :: below)

/-- The lexemes read so far. -/
def Stack.lexemes (stack : Stack) : List Lexeme :=
  Derivation.allLexemes (stack.reverse.map (·.2))

structure Stack.Holds (m : Automaton) (ls : List Lexeme) (stack : Stack) : Prop where
  linked : stack.Linked m
  valid : ∀ entry ∈ stack, entry.2.Valid m.rules.toList
  lexemes : stack.lexemes = ls

theorem Stack.Holds.nil (m : Automaton) : Stack.Holds m [] [] := by
  refine ⟨.nil, ?_, rfl⟩
  intro entry member
  cases member

namespace Certificate

variable {m : Automaton} {vanishing : SymbolSet} {first : SetTable} {items : Nat → List Outlook}

theorem state_eq_zero (certificate : Certificate m vanishing first items) {stack : Stack}
    (linked : stack.Linked m) (initial : stack.state = 0) : stack = [] := by
  cases linked with
  | nil => rfl
  | cons _ edge => exact absurd initial (certificate.edge_target _ _ _ edge)

/-- On top of the stack lies what the items of its state have read. -/
theorem read_of_item (certificate : Certificate m vanishing first items) {stack : Stack}
    (linked : stack.Linked m) {o : Outlook} (known : o ∈ items stack.state) {r : Rule}
    (isOf : o.1.Of m r) :
    ∃ entries below, stack = entries ++ below ∧ below.Linked m ∧
      entries.reverse.map (·.2.symbol) = r.body.take o.1.dot ∧
      ∃ p ∈ items below.state, p.1.Of m r ∧ p.1.dot = 0 := by
  induction linked generalizing o with
  | nil =>
    have dot := certificate.initial o known
    exact ⟨[], [], rfl, .nil, by simp [dot], o, known, isOf, dot⟩
  | @cons below q d linked edge ih =>
    rcases certificate.back _ _ _ edge o known with dot | ⟨p, known', front, moved⟩
    · exact ⟨[], _, rfl, .cons linked edge, by simp [dot], o, known, isOf, dot⟩
    · obtain ⟨r', isOf'⟩ := certificate.item_rule _ p known'
      obtain rfl : r' = r := by
        have same := isOf.1
        rw [moved, Item.next, isOf'.1] at same
        exact Option.some.inj same
      obtain ⟨entries, base, rfl, linkedBase, symbols, start⟩ := ih known' isOf'
      refine ⟨(q, d) :: entries, base, rfl, linkedBase, ?_, start⟩
      have here : r'.body[p.1.dot]? = some d.symbol := by
        rw [isOf'.2.1, List.head?_drop] at front
        exact front
      rw [moved, Item.next, List.take_add_one, here]
      simpa using symbols

/-- A reduction keeps the stack right. -/
theorem holds_reduce (certificate : Certificate m vanishing first items) {ls : List Lexeme}
    {stack reduced : Stack} (holds : stack.Holds m ls) {t : Terminal} {r : Rule}
    (action : m.action? stack.state t = some (.reduce r))
    (reduces : stack.reduce? m r = some reduced) : reduced.Holds m ls := by
  -- The finished item tells what lies on top of the stack, and that it is all of the rule's body.
  obtain ⟨o, known, isOf, finished⟩ := certificate.reduced _ _ _ action
  obtain ⟨entries, below, rfl, linked, symbols, -⟩ :=
    certificate.read_of_item holds.linked known isOf
  rw [isOf.dot_eq_length finished, List.take_length] at symbols
  have length : r.body.length = entries.length := by
    rw [← symbols, List.length_map, List.length_reverse]
  simp only [Stack.reduce?, length, List.drop_left, List.take_left, Option.map_eq_some_iff]
    at reduces
  obtain ⟨q, goto, rfl⟩ := reduces
  obtain ⟨validEntries, validBelow⟩ := List.forall_mem_append.mp holds.valid
  refine ⟨.cons linked goto, List.forall_mem_cons.mpr ⟨.branch ?_ ?_ ?_, validBelow⟩, ?_⟩
  · exact Array.mem_toList_iff.mpr (Array.mem_of_getElem? isOf.1)
  · rw [List.map_map]
    exact symbols
  · intro d member
    obtain ⟨entry, found, rfl⟩ := List.mem_map.mp member
    exact validEntries entry (List.mem_reverse.mp found)
  · rw [← holds.lexemes]
    simp [Stack.lexemes, Derivation.allLexemes, Derivation.lexemes]

theorem edge_of_shift {q q' : Nat} {t : Terminal} (action : m.action? q t = some (.shift q')) :
    (m.row q).edges.lookup (.terminal t) = some q' := by
  simp only [Automaton.action?] at action
  split at action
  · rename_i target edge
    cases action
    exact edge
  · obtain ⟨_, _, reduces⟩ := Option.bind_eq_some_iff.mp action
    obtain ⟨_, _, differs⟩ := Option.map_eq_some_iff.mp reduces
    cases differs

theorem holds_settle (certificate : Certificate m vanishing first items) {ls : List Lexeme}
    {t : Terminal} {fuel : Nat} {stack settled : Stack} {target : Nat}
    (holds : stack.Holds m ls) (settles : stack.settle m t fuel = .ok (settled, target)) :
    settled.Holds m ls ∧ (m.row settled.state).edges.lookup (.terminal t) = some target := by
  induction fuel generalizing stack with
  | zero => cases settles
  | succ fuel ih =>
    unfold Stack.settle at settles
    split at settles
    · rename_i q action
      cases settles
      exact ⟨holds, edge_of_shift action⟩
    · rename_i r action
      split at settles
      · rename_i reduced reduces
        exact ih (certificate.holds_reduce holds action reduces) settles
      · cases settles
    · cases settles

theorem holds_step (certificate : Certificate m vanishing first items) {ls : List Lexeme}
    {lines : LineIndex} {l : Lexeme} {stack next : Stack} (holds : stack.Holds m ls)
    (stepped : step m lines stack l = .ok next) : next.Holds m (ls ++ [l]) := by
  unfold step at stepped
  split at stepped
  · rename_i settled target settles
    cases stepped
    obtain ⟨⟨linked, valid, lexemes⟩, edge⟩ := certificate.holds_settle holds settles
    refine ⟨.cons linked edge, List.forall_mem_cons.mpr ⟨.leaf l, valid⟩, ?_⟩
    rw [← lexemes]
    simp [Stack.lexemes, Derivation.allLexemes, Derivation.lexemes]
  · cases stepped

theorem holds_run (certificate : Certificate m vanishing first items) {lines : LineIndex}
    {ks ls : List Lexeme} {stack last : Stack} (holds : stack.Holds m ks)
    (ran : ls.foldlM (step m lines) stack = .ok last) : last.Holds m (ks ++ ls) := by
  induction ls generalizing stack ks with
  | nil =>
    cases ran
    rwa [List.append_nil]
  | cons l ls ih =>
    rw [List.foldlM_cons] at ran
    cases stepped : step m lines stack l with
    | error fault =>
      rw [stepped] at ran
      cases ran
    | ok next =>
      rw [stepped] at ran
      have whole := ih (certificate.holds_step holds stepped) ran
      rwa [List.append_assoc] at whole

/-- Where the end of the text is shifted, the stack is a derivation of all lexemes. -/
theorem derivation_of_ending (certificate : Certificate m vanishing first items)
    {ls : List Lexeme} {stack : Stack} {target : Nat} (holds : stack.Holds m ls)
    (edge : (m.row stack.state).edges.lookup (.terminal .endOfText) = some target) :
    ∃ q d, stack = [(q, d)] ∧ d.Valid m.rules.toList ∧ d.symbol = .nonterminal .start ∧
      d.lexemes = ls := by
  obtain ⟨o, known, dot, r, isOf, body⟩ := certificate.ending _ _ edge
  obtain ⟨entries, below, rfl, linked, symbols, p, known', isOf', dot'⟩ :=
    certificate.read_of_item holds.linked known isOf
  obtain rfl := certificate.state_eq_zero linked
    (certificate.bottom _ p known' r isOf' dot' (.inl body))
  rw [List.append_nil] at holds ⊢
  rw [dot, body] at symbols
  obtain ⟨⟨q, d⟩, isTop, isStart⟩ := List.map_eq_singleton_iff.mp symbols
  obtain rfl : entries = [(q, d)] := List.reverse_eq_iff.mp isTop
  refine ⟨q, d, rfl, holds.valid _ List.mem_cons_self, isStart, ?_⟩
  have lexemes := holds.lexemes
  simpa [Stack.lexemes, Derivation.allLexemes] using lexemes

end Certificate

end SceneScript.Grammar
