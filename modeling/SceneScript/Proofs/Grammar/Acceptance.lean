import SceneScript.Proofs.Grammar.Certificate

/-!
A certified automaton accepts every derivation: along a derivation of a symbol that a state can
read, it reads the lexemes and has the derivation on its stack.
-/

namespace SceneScript.Grammar

namespace Stack

/-- Falls with every reduction. -/
def measure : Stack → Nat
  | [] => 23
  | (_, d) :: below => 16 * (below.length + 1) + 15 - d.symbol.height

theorem measure_lt_patience (stack : Stack) : stack.measure < stack.patience := by
  have many : Nonterminal.all.length = 24 := rfl
  cases stack with
  | nil => simp [measure, patience, many]
  | cons entry below =>
    simp only [measure, patience, many, List.length_cons]
    omega

def Grounded (stack : Stack) : Prop := ∀ entry ∈ stack, entry.1 ≠ 0

theorem Grounded.eq_nil {stack : Stack} (grounded : stack.Grounded) (initial : stack.state = 0) :
    stack = [] := by
  cases stack with
  | nil => rfl
  | cons entry below => exact absurd initial (grounded entry List.mem_cons_self)

/-- However much patience is left, the stack comes to the one where the terminal is shifted. -/
def Settles (m : Automaton) (t : Terminal) (stack settled : Stack) (target : Nat) : Prop :=
  ∀ fuel, stack.measure < fuel → stack.settle m t fuel = .ok (settled, target)

variable {m : Automaton} {t : Terminal} {stack reduced settled : Stack} {target : Nat}

theorem Settles.shift (action : m.action? stack.state t = some (.shift target)) :
    Settles m t stack stack target := by
  intro fuel enough
  obtain ⟨fuel, rfl⟩ := Nat.exists_eq_add_of_lt enough
  rw [settle, action]

theorem Settles.reduce {r : Rule} (action : m.action? stack.state t = some (.reduce r))
    (reduces : stack.reduce? m r = some reduced) (falls : reduced.measure < stack.measure)
    (settles : Settles m t reduced settled target) : Settles m t stack settled target := by
  intro fuel enough
  obtain ⟨fuel, rfl⟩ : ∃ n, fuel = n + 1 := ⟨fuel - 1, by omega⟩
  rw [settle, action]
  simp only [reduces]
  exact settles fuel (by omega)

end Stack

/-- From the stack, all lexemes are read and the end of the text is reached with a stack that
    satisfies `final`. -/
def Accepts (m : Automaton) (final : Stack → Prop) : List Lexeme → Stack → Prop
  | [], stack => ∃ settled target, Stack.Settles m .endOfText stack settled target ∧ final settled
  | l :: ls, stack => ∃ settled target, Stack.Settles m l.terminal stack settled target ∧
    Accepts m final ls ((target, .leaf l) :: settled)

namespace Accepts

variable {m : Automaton} {final : Stack → Prop} {ls : List Lexeme} {stack reduced : Stack}

theorem shift {l : Lexeme} {target : Nat}
    (action : m.action? stack.state l.terminal = some (.shift target))
    (accepts : Accepts m final ls ((target, .leaf l) :: stack)) :
    Accepts m final (l :: ls) stack :=
  ⟨stack, target, .shift action, accepts⟩

theorem reduce {r : Rule} (action : m.action? stack.state (ahead ls) = some (.reduce r))
    (reduces : stack.reduce? m r = some reduced) (falls : reduced.measure < stack.measure)
    (accepts : Accepts m final ls reduced) : Accepts m final ls stack := by
  cases ls with
  | nil =>
    obtain ⟨settled, target, settles, done⟩ := accepts
    exact ⟨settled, target, .reduce action reduces falls settles, done⟩
  | cons l ls =>
    obtain ⟨settled, target, settles, later⟩ := accepts
    exact ⟨settled, target, .reduce action reduces falls settles, later⟩

end Accepts

namespace Certificate

variable {m : Automaton} {vanishing : SymbolSet} {first : SetTable} {items : Nat → List Outlook}
  {final : Stack → Prop}

theorem action_shift {q q' : Nat} {t : Terminal}
    (edge : (m.row q).edges.lookup (.terminal t) = some q') :
    m.action? q t = some (.shift q') := by
  simp only [Automaton.action?, edge]

theorem measure_reduce (certificate : Certificate m vanishing first items) {r : Rule}
    (member : r ∈ m.rules.toList) {entries below : Stack} {q : Nat} {parts : List Derivation}
    (symbols : entries.reverse.map (·.2.symbol) = r.body) (ground : r.body = [] → below = []) :
    Stack.measure ((q, .branch r parts) :: below) < Stack.measure (entries ++ below) := by
  have length : entries.length = r.body.length := by simp [← symbols]
  match entries with
  | [] =>
    have isEmpty : r.body = [] := by simpa using symbols.symm
    obtain rfl := ground isEmpty
    have high := certificate.empty_high r member isEmpty
    simp only [Stack.measure, Derivation.symbol_branch, List.nil_append, List.length_nil]
    omega
  | [(q', d)] =>
    have single : r.body = [d.symbol] := by simpa using symbols.symm
    have higher := certificate.higher r member _ single
    have low := (Symbol.nonterminal r.head).height_le
    simp only [Stack.measure, Derivation.symbol_branch, List.singleton_append]
    omega
  | (q', d) :: entry :: others =>
    have low := d.symbol.height_le
    simp only [Stack.measure, List.cons_append, List.length_cons, List.length_append]
    omega

/-- The claim about a derivation: where a state can read its symbol in front of what follows, it
    reads the lexemes of the derivation. -/
def Runs (m : Automaton) (vanishing : SymbolSet) (first : SetTable) (items : Nat → List Outlook)
    (final : Stack → Prop) (d : Derivation) : Prop :=
  ∀ (stack : Stack) (o : Outlook) (rest : List Symbol) (ls : List Lexeme), stack.Grounded →
    o ∈ items stack.state → o.1.rest = d.symbol :: rest →
    (ahead ls).mem (firstOf vanishing first o.2 rest) = true →
    (∀ q, (m.row stack.state).edges.lookup d.symbol = some q →
      Accepts m final ls ((q, d) :: stack)) →
    Accepts m final (d.lexemes ++ ls) stack

theorem runs_all (certificate : Certificate m vanishing first items) {r : Rule}
    {ds : List Derivation} (valid : ∀ d ∈ ds, d.Valid m.rules.toList)
    (runs : ∀ d ∈ ds, Runs m vanishing first items final d) {stack : Stack} {o : Outlook}
    {ls : List Lexeme} (grounded : stack.Grounded) (known : o ∈ items stack.state)
    (isOf : o.1.Of m r) (front : o.1.rest = ds.map Derivation.symbol)
    (follows : (ahead ls).mem o.2 = true)
    (later : ∀ (entries : Stack) (p : Outlook), entries.map (·.2) = ds.reverse →
      p ∈ items (Stack.state (entries ++ stack)) → p.1.Of m r → p.1.rest = [] →
      (ahead ls).mem p.2 = true → Accepts m final ls (entries ++ stack)) :
    Accepts m final (Derivation.allLexemes ds ++ ls) stack := by
  induction ds generalizing stack o with
  | nil => exact later [] o rfl known isOf front follows
  | cons d ds ih =>
    obtain ⟨_, validTail⟩ := List.forall_mem_cons.mp valid
    obtain ⟨here, runsTail⟩ := List.forall_mem_cons.mp runs
    rw [Derivation.allLexemes, List.append_assoc]
    -- Behind the first part stands a beginning of the other parts, or what follows the rule.
    refine here stack o _ _ grounded known front
      (certificate.beginnings.ahead_mem validTail follows) fun q edge => ?_
    obtain ⟨q', edge', p, known', moved, within⟩ := certificate.cross _ o known _ _ front
    obtain rfl : q' = q := Option.some.inj (edge'.symm.trans edge)
    have grounded' : Stack.Grounded ((q', d) :: stack) :=
      List.forall_mem_cons.mpr ⟨certificate.edge_target _ _ _ edge, grounded⟩
    refine ih validTail runsTail grounded' known' ?_ ?_ (Terminal.mem_of_included within follows) ?_
    · rw [moved]
      exact isOf.next front
    · rw [moved, Item.next, front]
      rfl
    · intro entries p' pushed known'' isOf' finished follows'
      have whole := later (entries ++ [(q', d)]) p' (by simp [pushed])
      simp only [List.append_assoc, List.singleton_append] at whole
      exact whole known'' isOf' finished follows'

theorem runs (certificate : Certificate m vanishing first items) {d : Derivation}
    (valid : d.Valid m.rules.toList) : Runs m vanishing first items final d := by
  induction valid with
  | leaf l =>
    intro stack o rest ls grounded known front _ later
    obtain ⟨q, edge, _⟩ := certificate.cross _ o known _ _ front
    exact .shift (action_shift edge) (later q edge)
  | @branch r parts member fits valid ih =>
    intro stack o rest ls grounded known front follows later
    -- The parts are read from the same state; their reduction then goes over the edge of the head.
    obtain ⟨q, edge, _⟩ := certificate.cross _ o known _ _ front
    obtain ⟨p, known', dot, isOf, within⟩ := certificate.close _ o known _ _ front r member rfl
    refine certificate.runs_all valid ih grounded known' isOf ?_
      (Terminal.mem_of_included within follows) ?_
    · rw [isOf.2.1, dot, fits]
      rfl
    · intro entries p' pushed known'' isOf' finished follows'
      have mapped : entries.map (·.2.symbol) = (entries.map (·.2)).map Derivation.symbol := by
        rw [List.map_map]
        rfl
      have symbols : entries.reverse.map (·.2.symbol) = r.body := by
        rw [← fits, List.map_reverse, mapped, pushed, List.map_reverse, List.reverse_reverse]
      have length : r.body.length = entries.length := by
        rw [← symbols, List.length_map, List.length_reverse]
      have reduces :
          Stack.reduce? m r (entries ++ stack) = some ((q, .branch r parts) :: stack) := by
        have goto : m.goto? stack.state r.head = some q := edge
        have taken : entries.reverse.map (·.2) = parts := by
          rw [List.map_reverse, pushed, List.reverse_reverse]
        simp only [Stack.reduce?, length, List.drop_left, List.take_left, goto, Option.map_some,
          taken]
      refine .reduce (certificate.reduce _ p' known'' r isOf' finished _ follows') reduces ?_
        (later q edge)
      refine certificate.measure_reduce member symbols fun isEmpty => ?_
      exact grounded.eq_nil (certificate.bottom _ p known' r isOf dot (.inr isEmpty))

theorem accepts (certificate : Certificate m vanishing first items) {d : Derivation}
    (valid : d.Valid m.rules.toList) (isStart : d.symbol = .nonterminal .start) :
    Accepts m (fun stack => ∃ q, stack = [(q, d)]) d.lexemes [] := by
  obtain ⟨o, known, front⟩ := certificate.start
  have grounded : Stack.Grounded [] := by
    intro entry member
    cases member
  have readable : o.1.rest = d.symbol :: [.terminal .endOfText] := by
    rw [isStart, front]
    rfl
  rw [← List.append_nil d.lexemes]
  refine certificate.runs valid [] o _ [] grounded known readable Terminal.mem_bit
    fun q edge => ?_
  rw [isStart] at edge
  obtain ⟨q', edge', p, known', moved, -⟩ := certificate.cross _ o known _ _ front
  obtain rfl : q' = q := Option.some.inj (edge'.symm.trans edge)
  have ends : p.1.rest = [.terminal .endOfText] := by
    rw [moved, Item.next, front]
    rfl
  obtain ⟨target, last, -⟩ := certificate.cross _ p known' _ _ ends
  exact ⟨[(q', d)], target, .shift (action_shift last), q', rfl⟩

end Certificate

end SceneScript.Grammar
