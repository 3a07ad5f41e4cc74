import SceneScript.Proofs.Diagnostics
import SceneScript.Proofs.Eval.Trace

/-!
The activation in which a fault is reported. Values go through calls and are kept in variables and
lists in the contexts of those calls, but whatever an operator or a call is applied to has been put
into the running context before. So a fault belongs to the running context itself or to the builtin
that runs in it, and its traceback shows no call that is over.
-/

namespace SceneScript

/-- The failure is a fault in the context, or no fault of the program at all. -/
def Failure.In (context : Context) : Failure → Prop
  | .runtime fault => fault.context = some context
  | _ => True

/-- A function of the host fails, if it does, in the activation in which it runs. -/
def Host.FailsInside (host : Host) : Prop :=
  ∀ number site m e m', (host.call number site).run m = .error e m' → e.In site.context

theorem SceneHost.failsInside (scene : SceneHost) : (scene : Host).FailsInside := by
  intro number site m e m' failed
  cases failed
  trivial

namespace EvalM

variable {α β : Type} {context : Context} {m : Machine}

/-- From every machine, the evaluation fails in the context if it fails. -/
def FailsIn (context : Context) (x : EvalM α) : Prop :=
  ∀ m e m', x.run m = .error e m' → e.In context

namespace FailsIn

theorem pure (a : α) : FailsIn context (Pure.pure a) := by
  intro m e m' failed
  cases failed

theorem throw {e : Failure} (inside : e.In context) :
    FailsIn context (MonadExcept.throw e : EvalM α) := by
  intro m e' m' failed
  cases failed
  exact inside

theorem throw_bind {e : Failure} {f : α → EvalM β} (inside : e.In context) :
    FailsIn context ((MonadExcept.throw e : EvalM α) >>= f) := by
  intro m e' m' failed
  cases failed
  exact inside

theorem fail (cause : RuntimeCause) (span : Span) :
    FailsIn context (EvalM.fail cause span context : EvalM α) := throw rfl

theorem bind {x : EvalM α} {f : α → EvalM β} (first : FailsIn context x)
    (second : ∀ a, FailsIn context (f a)) : FailsIn context (x >>= f) := by
  intro m e m' failed
  rcases run_bind_eq_error failed with here | ⟨a, m₁, -, later⟩
  · exact first _ _ _ here
  · exact second a _ _ _ later

theorem get_bind {f : Machine → EvalM α} (next : ∀ m, FailsIn context (f m)) :
    FailsIn context ((get : EvalM Machine) >>= f) :=
  fun m e m' failed => next m m e m' failed

theorem set_bind {m : Machine} {f : PUnit → EvalM α} (next : FailsIn context (f ())) :
    FailsIn context (set m >>= f) :=
  fun _ e m' failed => next m e m' failed

theorem make (b : Blueprint) : FailsIn context (make b) := by
  intro m e m' failed
  rw [(Ends.of_error (builds_make b m) failed).2]
  trivial

end FailsIn

section Builtins

variable (site : Site)

theorem failsIn_argument (param : String) : FailsIn site.context (site.argument param) := by
  refine .get_bind fun m => ?_
  split
  · exact .pure _
  · exact .throw trivial

theorem failsIn_listArgument (param : String) (cause : RuntimeCause) :
    FailsIn site.context (site.listArgument param cause) := by
  refine (failsIn_argument site param).bind fun c => ?_
  split
  · exact .pure _
  · exact .fail _ _

theorem failsIn_component (elements : List Ref) (number index : Nat) :
    FailsIn site.context (site.component elements number index) := by
  refine .get_bind fun m => ?_
  split
  · exact .pure _
  · exact .fail _ _

theorem failsIn_tripleArgument (param : String) (number : Nat) :
    FailsIn site.context (site.tripleArgument param number) :=
  (failsIn_listArgument site param _).bind fun _ => (failsIn_component site _ _ _).bind fun _ =>
    (failsIn_component site _ _ _).bind fun _ => (failsIn_component site _ _ _).bind fun _ =>
      .pure _

theorem failsIn_colorArgument (host : SceneHost) (kind : SceneKind) (number : Nat) :
    FailsIn site.context (site.colorArgument host kind number) := by
  refine (failsIn_argument site "color").bind fun c => ?_
  split
  · exact .pure _
  · exact .fail _ _
  · exact .fail _ _

theorem failsIn_request (host : SceneHost) (r : SceneRequest) :
    FailsIn site.context (request host site r) := by
  refine .get_bind fun m => ?_
  split
  · exact .fail _ _
  · exact .set_bind (.pure _)

theorem failsIn_place (host : SceneHost) (shape : Shape) (dimensions : String) :
    FailsIn site.context (place host site shape dimensions) :=
  (failsIn_tripleArgument site _ _).bind fun _ => (failsIn_tripleArgument site _ _).bind fun _ =>
    (failsIn_colorArgument site _ _ _).bind fun _ => failsIn_request site _ _

/-- A builtin fails in its own activation. -/
theorem failsIn_perform {host : Host} (inside : host.FailsInside) (b : Builtin) :
    FailsIn site.context (perform host site b) := by
  cases b with
  | print =>
    refine .get_bind fun m => ?_
    split
    · split
      · exact .set_bind (.pure _)
      · exact .throw trivial
    · exact .throw trivial
  | get =>
    refine (failsIn_listArgument site _ _).bind fun elements =>
      (failsIn_argument site _).bind fun index => ?_
    split
    · split
      · exact .pure _
      · exact .fail _ _
    · exact .fail _ _
  | append =>
    refine (failsIn_argument site _).bind fun list => ?_
    split
    · refine .get_bind fun m => ?_
      split
      · intro m e m' failed
        cases failed
      · exact .throw trivial
    · exact .fail _ _
  | setBackgroundColor =>
    exact (failsIn_colorArgument site _ _ _).bind fun _ => failsIn_request site _ _
  | block => exact failsIn_place site _ _ _
  | pyramid => exact failsIn_place site _ _ _
  | host name params reply =>
    refine .get_bind fun m => ?_
    simp only
    split
    · exact .throw_bind trivial
    · refine .set_bind ?_
      split
      · exact .pure _
      · split
        · exact .pure _
        · exact .throw trivial
      · exact .fail _ _
      · exact .make _
  | foreign name params number => exact fun m e m' failed => inside number site m e m' failed

end Builtins

/-- Where a failure of an evaluation in a context is reported: in the context itself, or in the
    activation of a builtin, which one of the nodes calls and which runs when it fails. -/
inductive ReportedIn (host : Host) (context : Context) (nodes : List Node) : Failure → Prop
  | here {e : Failure} (inside : e.In context) : ReportedIn host context nodes e
  | within {callee : Node} {args : List Node} {span : Span} {b : Builtin} {site : Site}
      {m₀ m₁ m₂ : Machine} {e : Failure} (member : .call callee args span ∈ nodes)
      (entered : Entered context span b site m₀ m₁)
      (failed : (perform host site b).run m₁ = .error e m₂) (inside : e.In site.context) :
      ReportedIn host context nodes e

/-- The evaluation ends as described, or with a failure that is reported in the context. -/
def Reports (host : Host) (context : Context) (nodes : List Node) (x : EvalM α) (m : Machine)
    (P : α → Machine → Prop) : Prop :=
  x.Ends m P fun e _ => ReportedIn host context nodes e

/-- The value is there and belongs to the context. -/
def BelongsTo (context : Context) (r : Ref) (m : Machine) : Prop :=
  ∃ c : Cell, m.cells[r]? = some c ∧ c.stamp.context = context

theorem BelongsTo.later {r : Ref} {m' : Machine} (belongs : BelongsTo context r m)
    (more : m.Extends m') : BelongsTo context r m' := by
  obtain ⟨c, there, same⟩ := belongs
  exact ⟨c, more r c there, same⟩

theorem BelongsTo.context_cell {r : Ref} (belongs : BelongsTo context r m) :
    (m.cell r).stamp.context = context := by
  obtain ⟨c, there, same⟩ := belongs
  rw [Machine.cell_of_getElem? there, same]

namespace Reports

variable {host : Host} {nodes others : List Node} {x : EvalM α} {P : α → Machine → Prop}

theorem mono (reports : Reports host context nodes x m P) (more : nodes ⊆ others) :
    Reports host context others x m P := by
  refine Ends.mono reports (fun _ _ ends => ends) fun e _ reported => ?_
  cases reported with
  | here inside => exact .here inside
  | within member entered failed inside => exact .within (more member) entered failed inside

theorem bind {f : α → EvalM β} {Q : β → Machine → Prop}
    (first : Reports host context nodes x m P)
    (second : ∀ a m', P a m' → Reports host context nodes (f a) m' Q) :
    Reports host context nodes (x >>= f) m Q :=
  Ends.bind first second

theorem record {e : Event} {f : Unit → EvalM α}
    (next : ∀ m', Reports host context nodes (f ()) m' P) :
    Reports host context nodes (EvalM.record e >>= f) m P := next _

/-- What existed before stays as it is. -/
theorem framed (reports : Reports host context nodes x m P) {R : α → Prop}
    (frames : Frames m x R) :
    Reports host context nodes x m fun a m' => m.Extends m' ∧ P a m' := by
  refine Ends.of_run (fun a m' ran => ?_) fun e m' ran => Ends.of_error reports ran
  exact ⟨(Ends.of_ok (frames m (.refl m)) ran).1, Ends.of_ok reports ran⟩

theorem of_makes {x : EvalM Ref} {R : Except Failure Cell → Prop} (makes : x.Makes m R)
    (owned : ∀ c, R (.ok c) → c.stamp.context = context)
    (inside : ∀ e, R (.error e) → e.In context) :
    Reports host context nodes x m (BelongsTo context) := by
  refine makes.ends.mono ?_ ?_
  · rintro r m' ⟨rfl, c, made, rfl⟩
    exact ⟨c, Machine.getElem?_alloc_self m c, owned c made⟩
  · rintro e m' ⟨rfl, failed⟩
    exact .here (inside e failed)

theorem of_idle {span : Span} (idle : Idle span x m) (fails : FailsIn context x) :
    Reports host context nodes x m fun _ m' => m' = m :=
  Ends.of_run (fun _ _ ran => Ends.of_ok idle ran) fun e m' ran => .here (fails m e m' ran)

end Reports

section Parts

variable {host : Host} {nodes : List Node}

theorem failsIn_nameOf (token : Token) : FailsIn context (nameOf token) := by
  unfold nameOf
  split
  · exact .pure _
  · exact .throw trivial

theorem failsIn_readNumber (value : Json) : FailsIn context (readNumber value) := by
  unfold readNumber
  split
  · split
    · exact .pure _
    · exact .throw trivial
  · unfold fitting
    split
    · exact .pure _
    · exact .throw_bind trivial

theorem reports_readName (token : Token) (span : Span) (m : Machine) :
    Reports host context nodes (readName context token span) m (BelongsTo context) := by
  refine .of_makes (.of_run (run_readName context token span m)) ?_ ?_
  · intro c made
    rw [(content_of_readOutcome made.symm).1]
  · intro e failed
    rcases readOutcome_eq_error failed.symm with rfl | rfl | rfl
    · trivial
    · trivial
    · rfl

theorem reports_alloc (content : Content) (span : Span) (m : Machine) :
    Reports host context nodes (alloc content ⟨span, context⟩) m (BelongsTo context) := by
  refine .of_makes (.alloc (P := (· = _)) rfl) (fun c made => ?_) fun e failed => ?_
  · cases made
    rfl
  · cases failed

/-- Both operands belong to the context, so it does not matter which of them an operation reports
    itself to. -/
theorem reports_combine {op : Token} {span : Span} {a b : Ref} (first : BelongsTo context a m)
    (second : BelongsTo context b m) :
    Reports host context nodes (combine context op a b span) m (BelongsTo context) := by
  refine .of_makes (makes_combine context op a b span m) ?_ ?_
  · intro c combined
    obtain ⟨_, d, ⟨owner, -, -, -⟩, rfl⟩ := combined.of_ok
    rw [first.context_cell, second.context_cell, or_self] at owner
    exact owner
  · intro e combined
    rcases combined.of_error with rfl | ⟨cause, rfl⟩ | ⟨operator, known, operated⟩
    · rfl
    · trivial
    · cases operated with
      | across cause | behind cause => exact congrArg some first.context_cell
      | reversed product times limit => exact congrArg some second.context_cell
      | misfit cause => trivial

theorem reports_apply {op : Token} {span : Span} {a : Ref} (belongs : BelongsTo context a m) :
    Reports host context nodes (apply context op a span) m (BelongsTo context) := by
  obtain ⟨⟨content, ⟨place, _⟩⟩, there, rfl⟩ := belongs
  unfold Reports Ends
  refine run_apply_cases _ op span there ?minus ?bang ?plus ?other
  case minus | bang =>
    intro x _ _
    exact ⟨_, Machine.getElem?_alloc_self _ _, rfl⟩
  case plus =>
    -- A plus sign places its operand anew, in the same context.
    intro x _ _ _
    exact ⟨_, Machine.getElem?_place_self there span, rfl⟩
  case other => exact fun _ => .here rfl

theorem reports_takeResult (result : Ref) (span : Span) (m : Machine) :
    Reports host context nodes (takeResult context result span) m (BelongsTo context) := by
  refine .of_makes (.of_run (run_takeResult context result span m)) ?_ ?_
  · intro c made
    rw [(Cell.map_copied_eq_ok made.symm).1]
  · intro e failed
    rw [Cell.map_copied_eq_error failed.symm]
    trivial

/-- A value that is about to be called is stamped with the place of the call and the context. -/
theorem reports_prepareCallee {f : Ref} (span : Span) (belongs : BelongsTo context f m) :
    Reports host context nodes (prepareCallee f span) m fun r m' =>
      ∃ content, m'.cells[r]? = some ⟨content, ⟨span, context⟩⟩ := by
  refine (Makes.of_run (run_prepareCallee f span m)).ends.mono ?_ ?_
  · rintro r m' ⟨rfl, c, made, rfl⟩
    refine ⟨c.content, ?_⟩
    rw [Machine.getElem?_alloc_self, (Cell.map_copied_eq_ok made.symm).1,
      ← belongs.context_cell]
    rfl
  · rintro e m' ⟨rfl, failed⟩
    rw [Cell.map_copied_eq_error failed.symm]
    exact .here trivial

theorem reports_execute (inside : host.FailsInside) {callee : Node} {args : List Node}
    {span : Span} (member : .call callee args span ∈ nodes) {f : Ref} {content : Content}
    (there : m.cells[f]? = some ⟨content, ⟨span, context⟩⟩) (refs : List Ref) :
    Reports host context nodes (execute host f refs) m fun _ _ => True := by
  refine Ends.of_run (fun _ _ _ => trivial) fun e m' failed => ?_
  rw [execute, run_cell_bind, Machine.cell_of_getElem? there] at failed
  split at failed
  · rename_i b _
    split at failed
    · cases failed
      exact .here rfl
    · split at failed
      · cases failed
        exact .here rfl
      · have count : refs.length = b.params.length := by omega
        rcases run_bind_eq_error failed with unbound | ⟨_, m₁, bound, later⟩
        · rw [bindArguments_eq_error unbound]
          exact .here trivial
        · rcases run_bind_eq_error later with never | ⟨_, m₂, noted, performed⟩
          · cases never
          · cases noted
            exact .within member ⟨rfl, rfl, refs, m₁, count, bound, rfl⟩ performed
              (failsIn_perform _ inside b _ _ _ performed)
  · cases failed
    exact .here rfl

end Parts

section Eval

variable {host : Host}

mutual

/-- The value of an expression belongs to the context in which the expression is evaluated, and so
    does what is reported about the expression. -/
theorem reports_eval (honest : host.KeepsValues) (inside : host.FailsInside) {m : Machine}
    (context : Context) (node : Node) (expression : node.IsExpression) :
    Reports host context node.order (eval host context node) m (BelongsTo context) := by
  cases node with
  | program | blank => exact (expression _ (Node.mem_order_self _)).elim
  | identifier token span =>
    rw [eval]
    exact .record fun m => reports_readName token span m
  | number token span =>
    rw [eval]
    refine .record fun m => (Reports.of_idle (idle_readNumber span _)
      (failsIn_readNumber _)).bind fun x m₁ _ => ?_
    exact reports_alloc _ span m₁
  | string token span =>
    rw [eval]
    exact .record fun m => reports_alloc _ span m
  | binary left op right span =>
    obtain ⟨first, second⟩ := Node.isExpression_binary.mp expression
    rw [eval]
    refine .record fun m =>
      ((reports_eval honest inside context left first).mono Node.order_left_subset).bind ?_
    intro a m₁ before
    have later := (reports_eval honest inside (m := m₁) context right second).framed
      (.eval honest _ _)
    refine (later.mono Node.order_right_subset).bind ?_
    rintro b m₂ ⟨more, after⟩
    exact reports_combine (before.later more) after
  | unary op operand span =>
    rw [eval]
    refine .record fun m => ((reports_eval honest inside context operand
      (Node.isExpression_unary.mp expression)).mono Node.order_operand_subset).bind ?_
    exact fun a m₁ belongs => reports_apply belongs
  | list elements span =>
    rw [eval]
    refine .record fun m => ((reports_evalAll honest inside context elements
      (Node.isExpression_list.mp expression)).mono Node.orderAll_elements_subset).bind ?_
    exact fun refs m₁ _ => reports_alloc _ span m₁
  | call callee args span =>
    obtain ⟨first, others⟩ := Node.isExpression_call.mp expression
    rw [eval]
    refine .record fun m =>
      ((reports_eval honest inside context callee first).mono Node.order_callee_subset).bind ?_
    intro f m₁ belongs
    refine (reports_prepareCallee span belongs).bind fun f m₂ ⟨content, stamped⟩ => ?_
    have later := (reports_evalAll honest inside (m := m₂) context args others).framed
      (.evalAll honest _ _)
    refine (later.mono Node.orderAll_args_subset).bind ?_
    rintro refs m₃ ⟨more, -⟩
    refine (reports_execute inside (Node.mem_order_self _) (more _ _ stamped) refs).bind ?_
    exact fun result m₄ _ => reports_takeResult result span m₄
  | assign name value span =>
    obtain ⟨expression, -⟩ := Node.isExpression_assign.mp expression
    rw [eval]
    refine .record fun m =>
      ((reports_eval honest inside context value expression).mono Node.order_value_subset).bind ?_
    intro r m₁ belongs
    refine (Reports.of_idle (idle_nameOf span name) (failsIn_nameOf name)).bind ?_
    rintro bound _ rfl
    exact belongs

theorem reports_evalAll (honest : host.KeepsValues) (inside : host.FailsInside) {m : Machine}
    (context : Context) (nodes : List Node) (expressions : Node.AreExpressions nodes) :
    Reports host context (Node.orderAll nodes) (evalAll host context nodes) m
      fun _ _ => True := by
  cases nodes with
  | nil =>
    rw [evalAll]
    trivial
  | cons node nodes =>
    obtain ⟨first, others⟩ := Node.areExpressions_cons.mp expressions
    rw [evalAll, Node.orderAll]
    have here := List.subset_append_left node.order (Node.orderAll nodes)
    have there := List.subset_append_right node.order (Node.orderAll nodes)
    refine ((reports_eval honest inside context node first).mono here).bind fun r m₁ _ => ?_
    exact ((reports_evalAll honest inside context nodes others).mono there).bind
      fun rs m₂ _ => trivial

end

theorem reports_program (honest : host.KeepsValues) (inside : host.FailsInside) {m : Machine}
    (context : Context) {p : Program} (expressions : Node.AreExpressions p.body) :
    Reports host context p.toNode.order (eval host context p.toNode) m fun _ _ => True := by
  rw [Program.toNode, eval]
  refine .record fun m => ((reports_evalAll honest inside context p.body expressions).mono
    Node.orderAll_body_subset).bind fun refs m₁ _ => ?_
  refine Ends.of_run (fun _ _ _ => trivial) fun e m' copying => .here ?_
  obtain ⟨-, failed⟩ := Ends.of_error (Makes.of_run (run_clone _ m₁)).ends copying
  rw [Cell.copied_eq_error failed.symm]
  trivial

end Eval

end EvalM

theorem Context.traceback_some (c : Context) (place : Place) :
    traceback (some c) place = (traceLines (c.placed place)).map ("traceback on:\n" ++ ·) := by
  simp only [traceback, Option.map_some, Option.getD_some]
  cases traceLines (c.placed place) <;> rfl

/-- A fault of a program is reported in the context in which the program is evaluated, or in the
    activation of a builtin that a call of the program has entered and that fails. The traceback
    shows the activations of the context from the inside out, and at most that one in front. -/
theorem faults_are_reported_in_the_running_frame {f : FrontEnd} {origin : Origin} {p : Program}
    (parsed : f.parse origin = .ok p) {host : Host} (honest : host.KeepsValues)
    (inside : host.FailsInside) (c : Context) (m : Machine) {fault : RuntimeFault}
    (failed : (EvalM.eval host c p.toNode).fault? m = some fault) :
    fault.context = some c ∧
      fault.report.traceback =
        (Context.traceLines (c.placed fault.span.start)).map ("traceback on:\n" ++ ·) ∨
    ∃ callee args span b site m₀ m₁, .call callee args span ∈ p.toNode.order ∧
      EvalM.Entered c span b site m₀ m₁ ∧
      (EvalM.perform host site b).fault? m₁ = some fault ∧
      fault.context = some (c.call b.name span.start) ∧
      fault.report.traceback =
        (Context.traceLines ((fault.span.start, ⟨b.name, c.table, some span.start⟩) ::
          c.placed span.start)).map ("traceback on:\n" ++ ·) := by
  obtain ⟨m', ended⟩ := EvalM.fault?_eq_some_iff.mp failed
  have reports := EvalM.reports_program honest inside (m := m) c (f.areExpressions_of_parse parsed)
  cases EvalM.Ends.of_error reports ended with
  | here own =>
    left
    have own : fault.context = some c := own
    refine ⟨own, ?_⟩
    rw [RuntimeFault.report, own]
    exact c.traceback_some _
  | @within callee args span b site m₀ m₁ m₂ _ member entered stopped own =>
    right
    have own : fault.context = some (c.call b.name span.start) := entered.inside ▸ own
    refine ⟨callee, args, span, b, site, m₀, m₁, member, entered,
      EvalM.fault?_eq_some_iff.mpr ⟨m₂, stopped⟩, own, ?_⟩
    rw [RuntimeFault.report, own]
    exact Context.traceback_some _ _

/-- An element of a text: the innermost activation is that of the builtin that refuses it, called
    in the context of the program. -/
theorem refused_element_is_reported_in_its_call :
    ∃ p fault span, FrontEnd.precedence.parse ⟨"lists", "get('a', 'b');"⟩ = .ok p ∧
      (EvalM.eval (SceneHost.recording .none) ((Context.top "<program>" 1).enter "part" 1 none)
        p.toNode).fault? (Machine.initial.programContext []).2 = some fault ∧
      fault.context = some (((Context.top "<program>" 1).enter "part" 1 none).call "get" span) := by
  obtain ⟨p, parsed⟩ : ∃ p, FrontEnd.precedence.parse ⟨"lists", "get('a', 'b');"⟩ = .ok p :=
    FrontEnd.exists_of_toBool (by decide +kernel)
  have fails : (((FrontEnd.precedence.parse ⟨"lists", "get('a', 'b');"⟩).toOption.bind fun p =>
      (EvalM.eval (SceneHost.recording .none) ((Context.top "<program>" 1).enter "part" 1 none)
        p.toNode).fault? (Machine.initial.programContext []).2).bind (·.context)).map (·.names) =
      some ["get", "part", "<program>"] := by decide +kernel
  rw [parsed] at fails
  obtain ⟨_, located, names⟩ := Option.map_eq_some_iff.mp fails
  obtain ⟨fault, failed, context⟩ := Option.bind_eq_some_iff.mp located
  refine ⟨p, fault, ?_⟩
  rcases faults_are_reported_in_the_running_frame parsed (SceneHost.keepsValues _)
    (SceneHost.failsInside _) _ _ failed with ⟨own, -⟩ | ⟨_, _, span, b, _, _, _, -, -, -, own, -⟩
  · rw [own] at context
    cases context
    exact absurd names (by decide)
  · rw [own] at context
    cases context
    obtain ⟨called, -⟩ := List.cons.inj names
    have called : b.name = "get" := called
    exact ⟨span.start, parsed, failed, called ▸ own⟩

end SceneScript
