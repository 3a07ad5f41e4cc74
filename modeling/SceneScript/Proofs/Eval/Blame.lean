import SceneScript.Proofs.Eval.Frame
import SceneScript.Proofs.Eval.Performance
import SceneScript.Proofs.Node.Order

/-!
What a fault at run time is blamed on: a part of the tree under evaluation, or the two operands of
an operator in it. The value of an expression has the place of the expression, and keeps it while
others are evaluated.
-/

namespace SceneScript

namespace Node

/-- The part that a node has its value from: an assignment passes its value on as it is. -/
def core : Node → Node
  | .assign _ value _ => value.core
  | node => node

theorem core_mem_order (node : Node) : node.core ∈ node.order := by
  match node with
  | .assign name value span =>
    rw [core, order]
    exact List.mem_append_left _ value.core_mem_order
  | .program .. | .identifier .. | .number .. | .string .. | .binary .. | .unary .. | .list ..
  | .call .. | .blank .. => exact mem_order_self _

end Node

/-- The fault is at one of the nodes or at the operands of one. Only the fault of a product may
    begin at the right operand and end at the left one. -/
inductive RuntimeFault.BlamedOn (nodes : List Node) : RuntimeFault → Prop
  | part {node : Node} (inside : node ∈ nodes) (cause : RuntimeCause) (context : Option Context) :
      BlamedOn nodes ⟨cause, node.span, context⟩
  | operands {left right : Node} {op : Token} {span : Span}
      (inside : .binary left op right span ∈ nodes) (cause : RuntimeCause)
      (context : Option Context) :
      BlamedOn nodes ⟨cause, left.core.span.join right.core.span, context⟩
  | reversed {left right : Node} {op : Token} {span : Span}
      (inside : .binary left op right span ∈ nodes) (product : Operator.ofToken? op = some .mul)
      (times : Float) (limit : RepeatLimit) (context : Option Context) :
      BlamedOn nodes ⟨.cannotRepeat times limit, right.core.span.join left.core.span, context⟩

namespace Failure

def BlamedOn (nodes : List Node) : Failure → Prop
  | .runtime fault => fault.BlamedOn nodes
  | _ => True

theorem BlamedOn.mono {nodes others : List Node} {e : Failure} (blamed : e.BlamedOn nodes)
    (more : nodes ⊆ others) : e.BlamedOn others := by
  cases e with
  | runtime fault =>
    cases blamed with
    | part inside cause context => exact .part (more inside) cause context
    | operands inside cause context => exact .operands (more inside) cause context
    | reversed inside product times limit context =>
      exact .reversed (more inside) product times limit context
  | _ => trivial

theorem BlamedOn.of_at {nodes : List Node} {node : Node} (inside : node ∈ nodes) {e : Failure}
    (placed : e.At node.span) : e.BlamedOn nodes := by
  cases e with
  | runtime fault =>
    obtain ⟨cause, span, context⟩ := fault
    cases placed
    exact .part inside cause context
  | _ => trivial

end Failure

namespace EvalM

variable {α β : Type} {m : Machine}

theorem bindArguments_eq_error {context : Context} {params : List String} {args : List Ref}
    {e : Failure} {m' : Machine}
    (failed : (bindArguments context params args).run m = .error e m') : e = .uncopyable := by
  induction params generalizing m args with
  | nil => cases failed
  | cons param params ih =>
    cases args with
    | nil => cases failed
    | cons arg args =>
      rw [run_bindArguments_cons] at failed
      split at failed
      · rename_i e' copy
        cases failed
        exact Cell.copied_eq_error copy
      · exact ih failed

/-- A builtin fails at the place from which it is called. -/
theorem at_of_perform {scene : SceneHost} {site : Site} {b : Builtin} {e : Failure} {m' : Machine}
    (failed : (perform scene site b).run m = .error e m') : e.At site.span := by
  by_cases own : b.isForeign = false
  · exact ((Ends.of_error (performs scene site b m) failed).2 own).2.2
  · -- A host of scenes has no functions of its own.
    cases b with
    | foreign name params number =>
      cases failed
      trivial
    | _ => exact absurd rfl own

/-- A call fails at the place that the callee is stamped with. -/
theorem at_of_execute {scene : SceneHost} {callee : Ref} {args : List Ref} {e : Failure}
    {m' : Machine} (failed : (execute scene callee args).run m = .error e m') :
    e.At (m.cell callee).stamp.span := by
  rw [execute, run_cell_bind] at failed
  split at failed
  · split at failed
    · cases failed
      rfl
    · split at failed
      · cases failed
        rfl
      · rcases run_bind_eq_error failed with unbound | ⟨_, m₁, -, later⟩
        · rw [bindArguments_eq_error unbound]
          trivial
        · rcases run_bind_eq_error later with never | ⟨_, m₂, -, performed⟩
          · cases never
          · exact at_of_perform performed
  · cases failed
    rfl

/-- The evaluation ends as described, or with a fault that is blamed on the nodes. -/
def Blames (nodes : List Node) (x : EvalM α) (m : Machine) (P : α → Machine → Prop) : Prop :=
  x.Ends m P fun e _ => e.BlamedOn nodes

/-- The value is there and stands at the place. -/
def StandsAt (span : Span) (r : Ref) (m : Machine) : Prop :=
  ∃ c : Cell, m.cells[r]? = some c ∧ c.stamp.span = span

theorem StandsAt.later {span : Span} {r : Ref} {m' : Machine} (stands : StandsAt span r m)
    (more : m.Extends m') : StandsAt span r m' := by
  obtain ⟨c, there, placed⟩ := stands
  exact ⟨c, more r c there, placed⟩

theorem StandsAt.span_cell {span : Span} {r : Ref} (stands : StandsAt span r m) :
    (m.cell r).stamp.span = span := by
  obtain ⟨c, there, placed⟩ := stands
  rw [Machine.cell_of_getElem? there, placed]

namespace Blames

variable {nodes others : List Node} {x : EvalM α} {P Q : α → Machine → Prop}

theorem mono (blames : Blames nodes x m P) (more : nodes ⊆ others) : Blames others x m P :=
  Ends.mono blames (fun _ _ ends => ends) fun _ _ blamed => blamed.mono more

theorem bind {f : α → EvalM β} {Q : β → Machine → Prop} (first : Blames nodes x m P)
    (second : ∀ a m', P a m' → Blames nodes (f a) m' Q) : Blames nodes (x >>= f) m Q :=
  Ends.bind first second

theorem record {e : Event} {f : Unit → EvalM α}
    (next : ∀ m', Blames nodes (f ()) m' P) : Blames nodes (EvalM.record e >>= f) m P := next _

/-- What existed before stays as it is. -/
theorem framed (blames : Blames nodes x m P) {R : α → Prop} (frames : Frames m x R) :
    Blames nodes x m fun a m' => m.Extends m' ∧ P a m' := by
  refine Ends.of_run (fun a m' ran => ?_) fun e m' ran => Ends.of_error blames ran
  exact ⟨(Ends.of_ok (frames m (.refl m)) ran).1, Ends.of_ok blames ran⟩

theorem of_makes {x : EvalM Ref} {span : Span} {R : Except Failure Cell → Prop}
    (makes : x.Makes m R) (placed : ∀ c, R (.ok c) → c.stamp.span = span)
    (blamed : ∀ e, R (.error e) → e.BlamedOn nodes) : Blames nodes x m (StandsAt span) := by
  refine makes.ends.mono ?_ ?_
  · rintro r m' ⟨rfl, c, made, rfl⟩
    exact ⟨c, Machine.getElem?_alloc_self m c, placed c made⟩
  · rintro e m' ⟨rfl, failed⟩
    exact blamed e failed

theorem of_idle {node : Node} (inside : node ∈ nodes) (idle : Idle node.span x m) :
    Blames nodes x m fun _ m' => m' = m :=
  Ends.mono idle (fun _ _ same => same) fun _ _ ends => .of_at inside ends.2

end Blames

section Parts

variable {nodes : List Node} {context : Context}

theorem blames_readName (token : Token) {span : Span}
    (inside : .identifier token span ∈ nodes) (m : Machine) :
    Blames nodes (readName context token span) m (StandsAt span) := by
  refine .of_makes (.of_run (run_readName context token span m)) ?_ ?_
  · intro c made
    rw [(content_of_readOutcome made.symm).1]
  · intro e failed
    rcases readOutcome_eq_error failed.symm with rfl | rfl | rfl
    · trivial
    · trivial
    · exact .part inside _ _

theorem blames_combine {left right : Node} {op : Token} {span : Span} {a b : Ref}
    (inside : .binary left op right span ∈ nodes) (within : right.core ∈ nodes)
    (first : StandsAt left.core.span a m) (second : StandsAt right.core.span b m) :
    Blames nodes (combine context op a b span) m (StandsAt span) := by
  refine .of_makes (makes_combine context op a b span m) ?_ ?_
  · intro c combined
    obtain ⟨_, d, -, rfl⟩ := combined.of_ok
    rfl
  · intro e combined
    rcases combined.of_error with rfl | ⟨cause, rfl⟩ | ⟨operator, known, operated⟩
    · exact .part inside _ _
    · trivial
    · cases operated with
      | across cause =>
        rw [first.span_cell, second.span_cell]
        exact .operands inside _ _
      | behind cause =>
        rw [second.span_cell]
        exact .part within _ _
      | reversed product times limit =>
        rw [first.span_cell, second.span_cell]
        exact .reversed inside (product ▸ known) _ _ _
      | misfit cause => trivial

theorem blames_apply {operand : Node} {op : Token} {span : Span} {a : Ref}
    (inside : .unary op operand span ∈ nodes) (existed : a < m.cells.size) :
    Blames nodes (apply context op a span) m (StandsAt span) := by
  refine (ends_apply context op span existed).mono ?_ ?_
  · rintro r m' ⟨-, x, owner, there⟩
    exact ⟨_, there, rfl⟩
  · rintro e m' ⟨-, rfl⟩
    exact .part inside _ _

theorem blames_prepareCallee (callee : Ref) (span : Span) (m : Machine) :
    Blames nodes (prepareCallee callee span) m (StandsAt span) := by
  refine .of_makes (.of_run (run_prepareCallee callee span m)) ?_ ?_
  · intro c made
    rw [(Cell.map_copied_eq_ok made.symm).1]
    rfl
  · intro e failed
    rw [Cell.map_copied_eq_error failed.symm]
    trivial

theorem blames_takeResult (result : Ref) (span : Span) (m : Machine) :
    Blames nodes (takeResult context result span) m (StandsAt span) := by
  refine .of_makes (.of_run (run_takeResult context result span m)) ?_ ?_
  · intro c made
    rw [(Cell.map_copied_eq_ok made.symm).1]
  · intro e failed
    rw [Cell.map_copied_eq_error failed.symm]
    trivial

theorem blames_alloc (content : Content) (span : Span) (m : Machine) :
    Blames nodes (alloc content ⟨span, context⟩) m (StandsAt span) := by
  refine .of_makes (.alloc (P := (· = _)) rfl) (fun c made => ?_) fun e failed => ?_
  · cases made
    rfl
  · cases failed

theorem blames_execute {scene : SceneHost} {callee : Node} {args : List Node} {span : Span}
    {f : Ref} (inside : .call callee args span ∈ nodes) (stands : StandsAt span f m)
    (refs : List Ref) : Blames nodes (execute scene f refs) m fun _ _ => True := by
  refine Ends.of_run (fun _ _ _ => trivial) fun e m' failed => ?_
  have placed := at_of_execute failed
  rw [stands.span_cell] at placed
  exact .of_at inside placed

end Parts

section Eval

variable {scene : SceneHost}

mutual

/-- A fault is blamed on the node that is evaluated; without one, the value stands where the node
    does. -/
theorem blames_eval {m : Machine} (context : Context) (node : Node)
    (expression : node.IsExpression) :
    Blames node.order (eval scene context node) m (StandsAt node.core.span) := by
  have honest := scene.keepsValues
  cases node with
  | program | blank => exact (expression _ (Node.mem_order_self _)).elim
  | identifier token span =>
    rw [eval]
    exact .record fun m => blames_readName token (Node.mem_order_self _) m
  | number token span =>
    rw [eval]
    have inside := Node.mem_order_self (.number token span)
    refine .record fun m => (Blames.of_idle inside (idle_readNumber span _)).bind ?_
    exact fun x m₁ _ => blames_alloc _ span m₁
  | string token span =>
    rw [eval]
    exact .record fun m => blames_alloc _ span m
  | binary left op right span =>
    obtain ⟨first, second⟩ := Node.isExpression_binary.mp expression
    rw [eval]
    have inside := Node.mem_order_self (.binary left op right span)
    refine .record fun m => ((blames_eval context left first).mono Node.order_left_subset).bind ?_
    intro a m₁ before
    have later := (blames_eval (m := m₁) context right second).framed (.eval honest _ _)
    refine (later.mono Node.order_right_subset).bind ?_
    rintro b m₂ ⟨more, after⟩
    exact blames_combine inside (Node.order_right_subset right.core_mem_order)
      (before.later more) after
  | unary op operand span =>
    rw [eval]
    refine .record fun m => ((blames_eval context operand
      (Node.isExpression_unary.mp expression)).mono Node.order_operand_subset).bind ?_
    rintro a m₁ ⟨c, there, -⟩
    exact blames_apply (Node.mem_order_self _) (Array.getElem?_eq_some_iff.mp there).1
  | list elements span =>
    rw [eval]
    exact .record fun m => ((blames_evalAll context elements
      (Node.isExpression_list.mp expression)).mono Node.orderAll_elements_subset).bind
        fun refs m₁ _ => blames_alloc _ span m₁
  | call callee args span =>
    obtain ⟨first, others⟩ := Node.isExpression_call.mp expression
    rw [eval]
    refine .record fun m =>
      ((blames_eval context callee first).mono Node.order_callee_subset).bind fun f m₁ _ => ?_
    refine (blames_prepareCallee f span m₁).bind fun f m₂ stands => ?_
    have later := (blames_evalAll (m := m₂) context args others).framed (.evalAll honest _ _)
    refine (later.mono Node.orderAll_args_subset).bind ?_
    rintro refs m₃ ⟨more, -⟩
    refine (blames_execute (Node.mem_order_self _) (stands.later more) refs).bind ?_
    exact fun result m₄ _ => blames_takeResult result span m₄
  | assign name value span =>
    obtain ⟨expression, -⟩ := Node.isExpression_assign.mp expression
    rw [eval]
    refine .record fun m =>
      ((blames_eval context value expression).mono Node.order_value_subset).bind ?_
    intro r m₁ stands
    have inside := Node.mem_order_self (.assign name value span)
    refine (Blames.of_idle inside (idle_nameOf span name)).bind ?_
    rintro bound _ rfl
    exact stands

theorem blames_evalAll {m : Machine} (context : Context) (nodes : List Node)
    (expressions : Node.AreExpressions nodes) :
    Blames (Node.orderAll nodes) (evalAll scene context nodes) m fun _ _ => True := by
  cases nodes with
  | nil =>
    rw [evalAll]
    trivial
  | cons node nodes =>
    obtain ⟨first, others⟩ := Node.areExpressions_cons.mp expressions
    rw [evalAll, Node.orderAll]
    have here := List.subset_append_left node.order (Node.orderAll nodes)
    have there := List.subset_append_right node.order (Node.orderAll nodes)
    refine ((blames_eval context node first).mono here).bind fun r m₁ _ => ?_
    exact ((blames_evalAll context nodes others).mono there).bind fun rs m₂ _ => trivial

end

end Eval

end EvalM

end SceneScript
