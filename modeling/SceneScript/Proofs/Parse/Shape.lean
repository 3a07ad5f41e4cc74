import SceneScript.Proofs.FrontEnds
import SceneScript.Proofs.Node.Order

/-!
The statements of a parsed program are expressions.
-/

namespace SceneScript

/-- Where its kind leaves the value open, the token has a text for a value. -/
def Token.Textual (t : Token) : Prop :=
  t.kind = .number ∨ t.kind = .string ∨ t.kind = .identifier → ∃ s, t.value = .string s

theorem Grammar.Lexeme.textual (lines : LineIndex) (l : Lexeme) : (l.toToken lines).Textual := by
  obtain ⟨terminal, text, start, stop⟩ := l
  cases terminal <;> simp [Token.Textual, toToken, value, Terminal.kind]

section Parts

variable {R : List Token → Node → Prop} {ts : List Token} {ns : List Node} {n : Node}

theorem Leading.exists_of_mem (leading : Leading R ts ns) (member : n ∈ ns) :
    ∃ us, us <:+: ts ∧ R us n := by
  induction leading with
  | nil => cases member
  | @snoc ts us _ _ comma _ item _ ih =>
    rcases List.mem_append.mp member with earlier | last
    · obtain ⟨vs, within, reads⟩ := ih earlier
      exact ⟨vs, within.trans ⟨[], us ++ [comma], by simp⟩, reads⟩
    · rw [List.mem_singleton.mp last]
      exact ⟨us, ⟨ts, [comma], rfl⟩, item⟩

theorem Items.exists_of_mem (items : Items R ts ns) (member : n ∈ ns) :
    ∃ us, us <:+: ts ∧ R us n := by
  cases items with
  | nil => cases member
  | @snoc ts us _ _ leading item =>
    rcases List.mem_append.mp member with earlier | last
    · obtain ⟨vs, within, reads⟩ := leading.exists_of_mem earlier
      exact ⟨vs, within.trans ⟨[], us, rfl⟩, reads⟩
    · rw [List.mem_singleton.mp last]
      exact ⟨us, ⟨ts, [], by simp⟩, item⟩

theorem Statements.exists_of_mem (statements : Statements R ts ns) (member : n ∈ ns) :
    ∃ us, us <:+: ts ∧ R us n := by
  induction statements with
  | nil => cases member
  | @skip ts _ semicolon _ _ ih =>
    obtain ⟨us, within, reads⟩ := ih member
    exact ⟨us, within.trans ⟨[], [semicolon], rfl⟩, reads⟩
  | @snoc ts us _ _ semicolon _ statement _ ih =>
    rcases List.mem_append.mp member with earlier | last
    · obtain ⟨vs, within, reads⟩ := ih earlier
      exact ⟨vs, within.trans ⟨[], us ++ [semicolon], by simp⟩, reads⟩
    · rw [List.mem_singleton.mp last]
      exact ⟨us, ⟨ts, [semicolon], rfl⟩, statement⟩

end Parts

/-- What is made of tokens of a kind has a property of nodes. -/
structure Token.Yields (Q : Token → Prop) (P : Node → Prop) : Prop where
  number : ∀ t, Q t → t.kind = .number → P (.ofNumber t)
  string : ∀ t, Q t → t.kind = .string → P (.ofString t)
  identifier : ∀ t, Q t → t.kind = .identifier → P (.ofIdentifier t)
  binding : ∀ t n, Q t → t.kind = .identifier → P (.bind t n)
  combination : ∀ left op right level, Level.ofToken? op = some level → P (.combine left op right)
  application : ∀ op n, P (.apply op n)
  enumeration : ∀ l ns r, P (.enumerate l ns r)
  invocation : ∀ callee args r, P (.invoke callee args r)

open Node in
theorem Reads.forall_order {Q : Token → Prop} {P : Node → Prop} (yields : Token.Yields Q P)
    {k : Nat} {ts : List Token} {n : Node} (reads : Reads k ts n) (tokens : ∀ t ∈ ts, Q t) :
    ∀ part ∈ n.order, P part := by
  have items {ts : List Token} {ns : List Node}
      (items : Items (fun us n => ∃ _ : Reads 0 us n, (∀ t ∈ us, Q t) → ∀ part ∈ n.order, P part)
        ts ns) (tokens : ∀ t ∈ ts, Q t) : ∀ part ∈ orderAll ns, P part := by
    intro part inside
    obtain ⟨n, member, inner⟩ := exists_of_mem_orderAll inside
    obtain ⟨us, within, _, holds⟩ := items.exists_of_mem member
    exact holds (fun t inside => tokens t (within.subset inside)) part inner
  induction reads with
  | number kind =>
    exact List.forall_mem_singleton.mpr (yields.number _ (tokens _ List.mem_cons_self) kind)
  | string kind =>
    exact List.forall_mem_singleton.mpr (yields.string _ (tokens _ List.mem_cons_self) kind)
  | identifier kind =>
    exact List.forall_mem_singleton.mpr (yields.identifier _ (tokens _ List.mem_cons_self) kind)
  | group _ _ _ ih => exact ih fun t inside => tokens t (by simp [inside])
  | list _ parts _ =>
    refine List.forall_mem_append.mpr ⟨items parts fun t inside => tokens t (by simp [inside]), ?_⟩
    exact List.forall_mem_singleton.mpr (yields.enumeration _ _ _)
  | call _ _ parts _ ih =>
    refine List.forall_mem_append.mpr ⟨List.forall_mem_append.mpr ⟨ih fun t inside => ?_,
      items parts fun t inside => ?_⟩, List.forall_mem_singleton.mpr (yields.invocation _ _ _)⟩
    · exact tokens t (by simp [inside])
    · exact tokens t (by simp [inside])
  | sign _ _ ih | negation _ _ ih =>
    refine List.forall_mem_append.mpr ⟨ih fun t inside => tokens t (by simp [inside]), ?_⟩
    exact List.forall_mem_singleton.mpr (yields.application _ _)
  | binary operator _ _ first second =>
    refine List.forall_mem_append.mpr ⟨List.forall_mem_append.mpr ⟨first fun t inside => ?_,
      second fun t inside => ?_⟩,
      List.forall_mem_singleton.mpr (yields.combination _ _ _ _ operator)⟩
    · exact tokens t (by simp [inside])
    · exact tokens t (by simp [inside])
  | assignment _ isName _ _ ih =>
    refine List.forall_mem_append.mpr ⟨ih fun t inside => tokens t (by simp [inside]), ?_⟩
    exact List.forall_mem_singleton.mpr (yields.binding _ _ (tokens _ (by simp)) isName)
  | weaken _ _ ih => exact ih tokens

theorem Reads.isExpression {k : Nat} {ts : List Token} {n : Node} (reads : Reads k ts n)
    (textual : ∀ t ∈ ts, t.Textual) : n.IsExpression := by
  refine reads.forall_order ?_ textual
  exact {
    number := fun _ textual kind => textual (by simp [kind])
    string := fun _ textual kind => textual (by simp [kind])
    identifier := fun _ textual kind => textual (by simp [kind])
    binding := fun _ _ textual kind => textual (by simp [kind])
    combination := fun _ _ _ _ _ => trivial
    application := fun _ _ => trivial
    enumeration := fun _ _ _ => trivial
    invocation := fun _ _ _ => trivial }

/-- What either parser accepts, as tokens and statements. -/
theorem FrontEnd.parse_eq_ok {f : FrontEnd} {origin : Origin} {p : Program}
    (parsed : f.parse origin = .ok p) : ∃ ls body,
      Grammar.LexemeStream.ofOrigin origin = ⟨ls, none⟩ ∧
      Statements (Reads 0) (ls.map (·.toToken (.ofOrigin origin))) body ∧
      p = .ofBody origin body := by
  have accepted : SceneScript.parse origin = .ok p := by
    cases f with
    | precedence => exact parsed
    | grammar => exact grammar_parse_eq_ok_iff.mp parsed
  obtain ⟨ts, stop, body, scanned, statements, rfl⟩ := parse_eq_ok_iff.mp accepted
  obtain ⟨ls, stream, rfl⟩ := tokens_finished_iff.mp ⟨stop, scanned⟩
  exact ⟨ls, body, stream, statements, rfl⟩

theorem FrontEnd.exists_of_toBool {f : FrontEnd} {origin : Origin}
    (accepted : (f.parse origin).toBool = true) : ∃ p, f.parse origin = .ok p := by
  cases result : f.parse origin with
  | ok p => exact ⟨p, rfl⟩
  | error fault =>
    rw [result] at accepted
    cases accepted

@[simp] theorem Program.body_ofBody (origin : Origin) (body : List Node) :
    (Program.ofBody origin body).body = body := by
  cases body <;> rfl

theorem FrontEnd.areExpressions_of_parse {f : FrontEnd} {origin : Origin} {p : Program}
    (parsed : f.parse origin = .ok p) : Node.AreExpressions p.body := by
  obtain ⟨ls, body, -, statements, rfl⟩ := f.parse_eq_ok parsed
  rw [Program.body_ofBody]
  refine Node.areExpressions_iff.mpr fun n member => ?_
  obtain ⟨us, within, reads⟩ := statements.exists_of_mem member
  refine reads.isExpression fun t inside => ?_
  obtain ⟨l, -, rfl⟩ := List.mem_map.mp (within.subset inside)
  exact l.textual _

end SceneScript
