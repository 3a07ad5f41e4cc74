import SceneScript.Proofs.Eval.Activation
import SceneScript.Proofs.Eval.Steps

/-!
The stamp of a value in hand. An operation passes on the context of an operand, a list that of the
list in front, a builtin whatever it likes; but operands have been stamped with the running context
when they were evaluated, and nobody else takes them out of it before they are used. So the value of
an expression has the place of the expression and belongs to the context it was evaluated in.
-/

namespace SceneScript

open EvalM (BelongsTo)

/-- No function of the host takes a value away from another activation than its own. -/
def Host.KeepsOwners (host : Host) : Prop :=
  ∀ number (site : EvalM.Site) (m : Machine) (context : Context) (r : Ref),
    context ≠ site.context → BelongsTo context r m →
      BelongsTo context r ((host.call number site).after m)

theorem Host.KeepsValues.keepsOwners {host : Host} (honest : host.KeepsValues) :
    host.KeepsOwners :=
  fun number site m _ _ _ belongs => belongs.later (honest number site m)

theorem Context.call_ne (c : Context) (name : String) (site : Place) : c.call name site ≠ c := by
  intro same
  have lengths := congrArg (fun c : Context => c.callers.length) same
  simp [call, enter] at lengths

namespace EvalM

variable {α β : Type} {host : Host} {context : Context} {m m' : Machine}

/-- What belongs to the context still does. -/
def Retains (context : Context) (m m' : Machine) : Prop :=
  ∀ r, BelongsTo context r m → BelongsTo context r m'

theorem Retains.trans {m'' : Machine} (first : Retains context m m')
    (second : Retains context m' m'') : Retains context m m'' :=
  fun r belongs => second r (first r belongs)

theorem retains_of_extends (more : m.Extends m') : Retains context m m' :=
  fun _ belongs => belongs.later more

theorem retains_place (context : Context) (m : Machine) (r : Ref) (span : Span) :
    Retains context m (m.place r span) := by
  rintro s ⟨c, there, owner⟩
  rw [BelongsTo, Machine.place, Array.getElem?_modify, there]
  split
  · exact ⟨_, rfl, owner⟩
  · exact ⟨c, rfl, owner⟩

/-- The evaluation may fail; else it ends as described, and what belongs to the context is kept. -/
def Leaves (context : Context) (x : EvalM α) (m : Machine) (P : α → Machine → Prop) : Prop :=
  Yields x m fun a m' => Retains context m m' ∧ P a m'

/-- The value is there with the stamp. -/
def Stamped (stamp : Stamp) (r : Ref) (m : Machine) : Prop :=
  ∃ content, m.cells[r]? = some ⟨content, stamp⟩

theorem Stamped.belongsTo {span : Span} {r : Ref} (stamped : Stamped ⟨span, context⟩ r m) :
    BelongsTo context r m := by
  obtain ⟨content, there⟩ := stamped
  exact ⟨_, there, rfl⟩

namespace Leaves

variable {x : EvalM α} {P : α → Machine → Prop}

theorem bind {f : α → EvalM β} {Q : β → Machine → Prop} (first : Leaves context x m P)
    (next : ∀ a m', Retains context m m' → P a m' → Leaves context (f a) m' Q) :
    Leaves context (x >>= f) m Q := by
  refine Ends.bind first ?_
  rintro a m₁ ⟨kept, holds⟩
  refine Ends.yields (next a m₁ kept holds) ?_
  rintro b m₂ ⟨kept', result⟩
  exact ⟨kept.trans kept', result⟩

theorem pure {a : α} (holds : P a m) : Leaves context (Pure.pure a) m P :=
  ⟨fun _ belongs => belongs, holds⟩

theorem of_frames {R : α → Prop} (frames : Frames m x R) : Leaves context x m fun _ _ => True :=
  Ends.yields (frames m (.refl m)) fun _ _ ends => ⟨retains_of_extends ends.1, trivial⟩

theorem record {e : Event} {f : Unit → EvalM α} (next : ∀ m', Leaves context (f ()) m' P) :
    Leaves context (EvalM.record e >>= f) m P := next _

theorem of_makes {x : EvalM Ref} {R : Except Failure Cell → Prop} {stamp : Stamp}
    (makes : x.Makes m R) (stamped : ∀ c, R (.ok c) → c.stamp = stamp) :
    Leaves context x m (Stamped stamp) := by
  refine makes.ends.yields ?_
  rintro r m' ⟨rfl, c, made, rfl⟩
  refine ⟨retains_of_extends ((Machine.Extends.refl m).alloc c), c.content, ?_⟩
  rw [Machine.getElem?_alloc_self, ← stamped c made]

end Leaves

section Parts

variable {span : Span}

theorem stamps_readName (token : Token) (m : Machine) :
    Leaves context (readName context token span) m (Stamped ⟨span, context⟩) :=
  .of_makes (.of_run (run_readName context token span m)) fun _ made =>
    (content_of_readOutcome made.symm).1

theorem stamps_alloc (content : Content) (m : Machine) :
    Leaves context (alloc content ⟨span, context⟩) m (Stamped ⟨span, context⟩) := by
  refine .of_makes (.alloc (P := (· = _)) rfl) fun c made => ?_
  cases made
  rfl

/-- Both operands belong to the context, so it does not matter which of them passes it on. -/
theorem stamps_combine {op : Token} {a b : Ref} (first : BelongsTo context a m)
    (second : BelongsTo context b m) :
    Leaves context (combine context op a b span) m (Stamped ⟨span, context⟩) := by
  refine .of_makes (makes_combine context op a b span m) fun c combined => ?_
  obtain ⟨_, d, ⟨owner, -, -, -⟩, rfl⟩ := combined.of_ok
  rw [first.context_cell, second.context_cell, or_self] at owner
  exact congrArg (Stamp.mk span) owner

theorem stamps_apply {op : Token} {a : Ref} (belongs : BelongsTo context a m) :
    Leaves context (apply context op a span) m (Stamped ⟨span, context⟩) := by
  obtain ⟨⟨content, ⟨place, _⟩⟩, there, rfl⟩ := belongs
  unfold Leaves Yields Ends
  refine run_apply_cases _ op span there ?minus ?bang ?plus ?other
  case minus =>
    intro x _ _
    refine ⟨retains_of_extends (((Machine.Extends.refl m).alloc _).alloc _), .number (x * -1), ?_⟩
    exact Machine.getElem?_alloc_self _ _
  case bang =>
    intro x _ _
    refine ⟨retains_of_extends ((Machine.Extends.refl m).alloc _),
      .number (Operator.truth (x == 0)), ?_⟩
    exact Machine.getElem?_alloc_self _ _
  case plus =>
    -- A plus sign places its operand anew, in the same context.
    intro x _ _ _
    exact ⟨retains_place _ m a span, content, Machine.getElem?_place_self there span⟩
  case other => exact fun _ => trivial

theorem stamps_prepareCallee {f : Ref} (belongs : BelongsTo context f m) :
    Leaves context (prepareCallee f span) m (Stamped ⟨span, context⟩) := by
  refine .of_makes (.of_run (run_prepareCallee f span m)) fun c made => ?_
  rw [(Cell.map_copied_eq_ok made.symm).1]
  exact congrArg (Stamp.mk span) belongs.context_cell

theorem stamps_takeResult (result : Ref) (m : Machine) :
    Leaves context (takeResult context result span) m (Stamped ⟨span, context⟩) := by
  refine .of_makes (.of_run (run_takeResult context result span m)) fun c made => ?_
  rw [(Cell.map_copied_eq_ok made.symm).1]

theorem perform_eq_of_own {b : Builtin} (own : b.isForeign = false) (site : Site) :
    perform host site b = perform host.toSceneHost site b := by
  cases b with
  | foreign => cases own
  | _ => rfl

/-- Only a function of the host could take values from another activation. -/
theorem leaves_perform (keeps : host.KeepsOwners) {site : Site} (other : context ≠ site.context)
    (b : Builtin) (m : Machine) : Leaves context (perform host site b) m fun _ _ => True := by
  cases b with
  | foreign name params number =>
    refine Ends.yields (ends_after (host.call number site) m) ?_
    rintro _ m' rfl
    exact ⟨fun r belongs => keeps number site m context r other belongs, trivial⟩
  | print | get | append | setBackgroundColor | block | pyramid | host =>
    rw [perform_eq_of_own rfl]
    exact .of_frames (.perform host.toSceneHost.keepsValues site _)

theorem leaves_execute (keeps : host.KeepsOwners) {f : Ref} (belongs : BelongsTo context f m)
    (refs : List Ref) : Leaves context (execute host f refs) m fun _ _ => True := by
  have read : Leaves context (cell f) m fun c _ => c.stamp.context = context :=
    ⟨fun _ belongs => belongs, belongs.context_cell⟩
  refine read.bind fun c m _ owner => ?_
  split
  · rename_i b _
    split
    · trivial
    · split
      · trivial
      · -- The builtin runs in an activation of its own.
        refine (Leaves.of_frames (.bindArguments _ _ _)).bind fun _ m₁ _ _ => .record fun m₂ => ?_
        refine leaves_perform keeps ?_ b m₂
        rw [← owner]
        exact (Context.call_ne _ _ _).symm
  · trivial

end Parts

mutual

theorem stamps_eval (keeps : host.KeepsOwners) {m : Machine} (context : Context) (node : Node)
    (expression : node.IsExpression) :
    Leaves context (eval host context node) m (Stamped ⟨node.core.span, context⟩) := by
  cases node with
  | program | blank => exact (expression _ (Node.mem_order_self _)).elim
  | identifier token span =>
    rw [eval]
    exact .record fun m => stamps_readName token m
  | number token span =>
    rw [eval]
    exact .record fun m => (Leaves.of_frames (.readNumber _)).bind fun x m₁ _ _ => stamps_alloc _ m₁
  | string token span =>
    rw [eval]
    exact .record fun m => stamps_alloc _ m
  | binary left op right span =>
    obtain ⟨first, second⟩ := Node.isExpression_binary.mp expression
    rw [eval]
    refine .record fun m => (stamps_eval keeps context left first).bind fun a m₁ _ here => ?_
    -- The left operand is still in the context when the right one has been evaluated.
    refine (stamps_eval keeps context right second).bind fun b m₂ kept there => ?_
    exact stamps_combine (kept a here.belongsTo) there.belongsTo
  | unary op operand span =>
    rw [eval]
    refine .record fun m =>
      (stamps_eval keeps context operand (Node.isExpression_unary.mp expression)).bind ?_
    exact fun a m₁ _ here => stamps_apply here.belongsTo
  | list elements span =>
    rw [eval]
    refine .record fun m =>
      (leaves_evalAll keeps context elements (Node.isExpression_list.mp expression)).bind ?_
    exact fun refs m₁ _ _ => stamps_alloc _ m₁
  | call callee args span =>
    obtain ⟨first, others⟩ := Node.isExpression_call.mp expression
    rw [eval]
    refine .record fun m => (stamps_eval keeps context callee first).bind fun f m₁ _ here => ?_
    refine (stamps_prepareCallee here.belongsTo).bind fun f m₂ _ ready => ?_
    refine (leaves_evalAll keeps context args others).bind fun refs m₃ kept _ => ?_
    refine (leaves_execute keeps (kept f ready.belongsTo) refs).bind fun result m₄ _ _ => ?_
    exact stamps_takeResult result m₄
  | assign name value span =>
    obtain ⟨expression, -⟩ := Node.isExpression_assign.mp expression
    rw [eval]
    refine .record fun m => (stamps_eval keeps context value expression).bind fun r m₁ _ here => ?_
    have named : Leaves context (nameOf name) m₁ fun _ m' => m' = m₁ := by
      refine Ends.yields (idle_nameOf span name) ?_
      rintro _ _ rfl
      exact ⟨fun _ belongs => belongs, rfl⟩
    refine named.bind ?_
    rintro bound _ - rfl
    -- Binding a name changes the tables alone.
    exact ⟨fun _ belongs => belongs, here⟩

theorem leaves_evalAll (keeps : host.KeepsOwners) {m : Machine} (context : Context)
    (nodes : List Node) (expressions : Node.AreExpressions nodes) :
    Leaves context (evalAll host context nodes) m fun _ _ => True := by
  cases nodes with
  | nil =>
    rw [evalAll]
    exact .pure trivial
  | cons node nodes =>
    obtain ⟨first, others⟩ := Node.areExpressions_cons.mp expressions
    rw [evalAll]
    refine (stamps_eval keeps context node first).bind fun r m₁ _ _ => ?_
    exact (leaves_evalAll keeps context nodes others).bind fun rs m₂ _ _ => .pure trivial

end

end EvalM

/-- Where an expression of a parsed text has a value in some context, the value belongs to that very
    context and stands where the expression does, an assignment where the assigned expression does;
    it does not matter which stamps the machine held before. -/
theorem values_are_stamped_where_evaluated {f : FrontEnd} {origin : Origin} {p : Program}
    (parsed : f.parse origin = .ok p) {e : Node} (inside : e ∈ Node.orderAll p.body) {host : Host}
    (keeps : host.KeepsOwners) (context : Context) {m m' : Machine} {r : Ref}
    (ran : (EvalM.eval host context e).run m = .ok r m') :
    r < m'.cells.size ∧ (m'.cell r).stamp = ⟨e.core.span, context⟩ := by
  have expression := (f.areExpressions_of_parse parsed).part inside
  obtain ⟨-, content, there⟩ := EvalM.Ends.of_ok (EvalM.stamps_eval keeps context e expression) ran
  refine ⟨(Array.getElem?_eq_some_iff.mp there).1, ?_⟩
  rw [Machine.cell_of_getElem? there]

/-- A list that a host's function makes in its own activation, behind another list. -/
theorem joined_pair_is_stamped : ∃ p, ∃ e ∈ p.body, ∃ r m',
    FrontEnd.precedence.parse ⟨"pair", "let b = [let a = 'x'] + pair(a);"⟩ = .ok p ∧
      (EvalM.eval pairingHost (.top "<program>" 1) e).run pairingMachine = .ok r m' ∧
      (m'.cell r).stamp = ⟨e.core.span, .top "<program>" 1⟩ ∧ e.core.span ≠ e.span := by
  obtain ⟨p, parsed⟩ : ∃ p, FrontEnd.precedence.parse
      ⟨"pair", "let b = [let a = 'x'] + pair(a);"⟩ = .ok p :=
    FrontEnd.exists_of_toBool (by decide +kernel)
  have checked : (FrontEnd.precedence.parse
      ⟨"pair", "let b = [let a = 'x'] + pair(a);"⟩).toOption.any (fun p => p.body.any fun e =>
        decide (e.core.span ≠ e.span) &&
          ((EvalM.eval pairingHost (.top "<program>" 1) e).run' pairingMachine).isSome) = true := by
    decide +kernel
  rw [parsed] at checked
  obtain ⟨e, member, checked⟩ := List.any_eq_true.mp checked
  obtain ⟨moved, succeeds⟩ := Bool.and_eq_true_iff.mp checked
  cases ran : (EvalM.eval pairingHost (.top "<program>" 1) e).run pairingMachine with
  | error failure m' =>
    delta EStateM.run' at succeeds
    rw [ran] at succeeds
    cases succeeds
  | ok r m' =>
    refine ⟨p, e, member, r, m', parsed, ran, ?_, of_decide_eq_true moved⟩
    have inside := Node.order_subset_orderAll member (Node.mem_order_self e)
    exact (values_are_stamped_where_evaluated parsed inside pairingHost_keepsValues.keepsOwners _
      ran).2

end SceneScript
