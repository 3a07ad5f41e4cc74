import SceneScript.Proofs.Eval.Steps
import SceneScript.Proofs.Value.Foundation

/-!
Evaluation keeps values founded. Every step makes its values from values that exist, and a builtin
is called in the running context itself, since what is called has just been evaluated there. So
whatever programs run one after the other, at every point nothing contains itself, every value can
be printed, and every traceback comes to an end.
-/

namespace SceneScript

theorem Machine.store_injective {m : Machine} {made made' : Except Failure Cell}
    (same : m.store made = m.store made') : made = made' := by
  cases made with
  | error e =>
    cases made' with
    | error e' =>
      cases same
      rfl
    | ok c => cases same
  | ok c =>
    cases made' with
    | error e => cases same
    | ok d =>
      injection same with _ same
      rw [← m.cell_alloc_self c, same, m.cell_alloc_self]

namespace EvalM

variable {α β : Type} {context : Context} {m : Machine}

/-- However the evaluation ends, values are founded. -/
def Founds (context : Context) (x : EvalM α) (m : Machine) : Prop :=
  x.Ends m (fun _ => Machine.Founded context) fun _ => Machine.Founded context

namespace Founds

variable {x : EvalM α}

theorem bind {f : α → EvalM β} (first : Founds context x m)
    (next : ∀ a m', m'.Founded context → Founds context (f a) m') : Founds context (x >>= f) m :=
  Ends.bind first next

theorem pure {a : α} (founded : m.Founded context) : Founds context (Pure.pure a) m := founded

theorem throw {e : Failure} (founded : m.Founded context) :
    Founds context (MonadExcept.throw e : EvalM α) m := founded

theorem aside {f : Machine → Machine} {g : Unit → EvalM α} (founded : m.Founded context)
    (cells : (f m).cells = m.cells) (tables : (f m).tables = m.tables)
    (next : (f m).Founded context → Founds context (g ()) (f m)) :
    Founds context (modify f >>= g) m :=
  next (founded.aside cells tables)

theorem get_bind {f : Machine → EvalM α} (next : Founds context (f m) m) :
    Founds context ((get : EvalM Machine) >>= f) m := next

theorem of_makes {x : EvalM Ref} {P : Except Failure Cell → Prop} (makes : x.Makes m P)
    (founded : m.Founded context) (known : ∀ c, P (.ok c) → c.Founded context m.cells.size) :
    Founds context x m := by
  refine makes.ends.mono ?_ ?_
  · rintro _ _ ⟨-, c, made, rfl⟩
    exact founded.alloc (known c made)
  · rintro _ _ ⟨rfl, -⟩
    exact founded

theorem alloc (founded : m.Founded context) {content : Content} {stamp : Stamp}
    (new : Cell.Founded context m.cells.size ⟨content, stamp⟩) :
    Founds context (EvalM.alloc content stamp) m :=
  founded.alloc new

theorem bind_of_idle {f : α → EvalM β} {span : Span} (founded : m.Founded context)
    (idle : Idle span x m) (next : ∀ a, Founds context (f a) m) : Founds context (x >>= f) m := by
  refine Ends.bind (Ends.mono idle (fun _ _ same => same) ?_) ?_
  · rintro _ _ ⟨rfl, -⟩
    exact founded
  · rintro a _ rfl
    exact next a

end Founds

section Operations

/-- What is made, if anything, is regular. -/
def MadeRegular : Except Failure Cell → Prop
  | .ok c => c.content.Regular
  | .error _ => True

theorem makes_repeatText_regular (s : String) (text : Stamp) (x : Float) (count : Stamp) :
    (repeatText s text x count).Makes m MadeRegular := by
  unfold repeatText
  split
  · exact .alloc trivial
  · exact .fail trivial

/-- An operation on regular values makes a regular value. -/
theorem makes_operate_regular (op : Operator) {left right : Ref}
    (first : (m.cell left).content.Regular) (second : (m.cell right).content.Regular) :
    (operate op left right).Makes m MadeRegular := by
  show ∃ made, _ ∧ (operate op left right).run m = _
  have regular := And.intro first second
  unfold operate
  simp only [run_cell_bind]
  split
  · split
    · exact Makes.fail trivial
    · exact Makes.alloc trivial
  · exact makes_repeatText_regular _ _ _ _
  · exact makes_repeatText_regular _ _ _ _
  · exact Makes.alloc trivial
  -- A literal is not regular, on whichever side it stands.
  iterate 5 simp [*, Content.Regular] at regular
  · exact Makes.alloc trivial
  · exact Makes.fail trivial
  · exact Makes.fail trivial

theorem makes_combine_regular (context : Context) (op : Token) (span : Span) {left right : Ref}
    (first : (m.cell left).content.Regular) (second : (m.cell right).content.Regular) :
    (combine context op left right span).Makes m MadeRegular := by
  unfold combine
  split
  · simp only
    split
    · unfold nameOf
      split
      · exact .fail trivial
      · exact ⟨.error (.misfit .kind), trivial, rfl⟩
    · exact .fail trivial
  · rename_i operator _
    obtain ⟨made, regular, ran⟩ := makes_operate_regular operator first second
    refine ⟨made.map (·.atSpan span), ?_, run_bind_store ran fun c => run_update_new m c _ _⟩
    cases made with
    | ok c => exact regular
    | error e => trivial

theorem founds_combine (founded : m.Founded context) (op : Token) (left right : Ref)
    (span : Span) : Founds context (combine context op left right span) m := by
  obtain ⟨made, combined, ran⟩ := makes_combine context op left right span m
  obtain ⟨made', regular, ran'⟩ := makes_combine_regular context op span
    (founded.cell left).regular (founded.cell right).regular
  obtain rfl : made = made' := Machine.store_injective (ran.symm.trans ran')
  refine .of_makes (.of_run ran) founded ?_
  rintro c rfl
  obtain ⟨_, d, ⟨owner, -, -, elements⟩, rfl⟩ := combined.of_ok
  refine ⟨regular, fun s member => ?_, ?_⟩
  · exact (elements s member).elim (founded.elements_lt left s) (founded.elements_lt right s)
  · show context.Owns d.stamp.context
    rcases owner with same | same
    · rw [same]
      exact (founded.cell left).owned
    · rw [same]
      exact (founded.cell right).owned

theorem founds_apply (founded : m.Founded context) (op : Token) {operand : Ref}
    (existed : operand < m.cells.size) (span : Span) :
    Founds context (apply context op operand span) m := by
  have owned := (founded.cell operand).owned
  have one : (m.alloc ⟨.number (-1), .none⟩).2.Founded context :=
    founded.alloc (.bare trivial rfl .anonymous)
  unfold Founds Ends
  refine run_apply_cases context op span (Machine.getElem?_of_lt existed) ?minus ?bang ?plus ?other
  case minus => exact fun x _ _ => one.alloc (.bare trivial rfl owned)
  case bang => exact fun x _ _ => founded.alloc (.bare trivial rfl owned)
  case plus => exact fun x _ _ _ => founded.place operand span
  case other => exact fun _ => founded

end Operations

section Calls

theorem founds_bindArguments {inner : Context} (owned : context.Owns inner)
    (founded : m.Founded context) (params : List String) (args : List Ref) :
    Founds context (bindArguments inner params args) m := by
  induction params generalizing m args with
  | nil => exact .pure founded
  | cons param params ih =>
    cases args with
    | nil => exact .pure founded
    | cons arg args =>
      unfold Founds Ends
      rw [run_bindArguments_cons]
      cases copy : (m.cell arg).copied with
      | error e => exact founded
      | ok c =>
        obtain ⟨rfl, -⟩ := Cell.copied_eq_ok copy
        exact ih (founded.alloc_bind (founded.copy arg owned) inner.table param) args

variable {host : Host} {site : Site}

/-- The longer list takes the stamp of the list that it continues. -/
theorem founds_append (founded : m.Founded context) :
    Founds context (perform host site .append) m := by
  refine Ends.bind ((ends_argument site "list").mono (fun _ _ ends => ends) ?_) ?_
  · rintro _ _ ⟨rfl, -⟩
    exact founded
  rintro list _ ⟨rfl, r, -, rfl⟩
  split
  · rename_i elements content
    refine Founds.get_bind ?_
    have older := founded.elements_lt r
    rw [content] at older
    split
    · rename_i value found
      have last := (founded.closed.held value (Machine.held_of_lookup found)).1
      refine founded.alloc ⟨trivial, fun s member => ?_, (founded.cell r).owned⟩
      rcases List.mem_append.mp member with element | new
      · exact older s element
      · rw [List.mem_singleton.mp new]
        exact last
    · exact founded
  · exact founded

theorem founds_perform (founded : m.Founded context) {b : Builtin}
    (known : b ∈ Builtin.core ++ Builtin.scene) : Founds context (perform host site b) m := by
  by_cases append : b = .append
  · subst append
    exact founds_append founded
  · have kept {m' : Machine} (performed : Performed host site m b m') : m'.Founded context := by
      cases performed with
      | idle => exact founded
      | printed text => exact founded.aside rfl rfl
      | appended => exact absurd rfl append
      | accepted => exact founded.aside rfl rfl
      | answered | foreign => simp [Builtin.core, Builtin.scene] at known
    exact Ends.mono (performs host site b m) (fun _ _ performed => kept performed)
      fun _ _ ends => kept ends.1

/-- A builtin that belongs to the context runs directly inside it. -/
theorem founds_execute (founded : m.Founded context) {callee : Ref}
    (faithful : Faithful context callee m) (args : List Ref) :
    Founds context (execute host callee args) m := by
  show Founds context (cell callee >>= fun c => _) m
  unfold Founds Ends
  rw [run_cell_bind]
  show Founds context _ m
  split
  · rename_i b content
    have known := (founded.cell callee).regular
    rw [content] at known
    split
    · exact .throw founded
    split
    · exact .throw founded
    · rw [faithful b content]
      refine (founds_bindArguments (.call known _) founded _ args).bind fun _ m founded => ?_
      exact .aside founded rfl rfl fun founded => founds_perform founded known
  · exact .throw founded

end Calls

section Steps

variable {host : Host}

/-- What is known of the values and tokens that a deed is done with. -/
def Deed.Grounded (context : Context) (m : Machine) : Deed → Prop
  | .readString token _ => ∃ s, token.value = .string s
  | .apply _ operand _ => operand < m.cells.size
  | .collect elements _ => ∀ r ∈ elements, r < m.cells.size
  | .call callee _ => Faithful context callee m
  | .assign _ value => value < m.cells.size
  | _ => True

/-- The step is done in a machine with founded values, on such as exist. -/
structure Step.Grounded (context : Context) (s : Step) : Prop where
  founded : s.before.Founded context
  grounded : s.deed.Grounded context s.before

theorem Deed.Grounded.founds {deed : Deed} (grounded : deed.Grounded context m)
    (founded : m.Founded context) : Founds context (deed.run host context) m := by
  cases deed with
  | note e => exact founded.aside rfl rfl
  | readName token span =>
    refine .of_makes (.of_run (run_readName context token span m)) founded fun c made => ?_
    obtain ⟨_, _⟩ := c
    obtain ⟨rfl, -, r, rfl⟩ := content_of_readOutcome made.symm
    exact founded.copy r .running
  | readNumber token span =>
    exact .bind_of_idle founded (idle_readNumber span _) fun x =>
      .alloc founded (.bare trivial rfl .running)
  | readString token span =>
    obtain ⟨s, text⟩ := grounded
    rw [Deed.run, text]
    exact .alloc founded (.bare trivial rfl .running)
  | combine op left right span => exact founds_combine founded op left right span
  | apply op operand span => exact founds_apply founded op grounded span
  | collect elements span => exact .alloc founded ⟨trivial, grounded, .running⟩
  | prepare callee span =>
    refine .of_makes (.of_run (run_prepareCallee callee span m)) founded fun c made => ?_
    obtain ⟨rfl, -⟩ := Cell.map_copied_eq_ok made.symm
    exact founded.copy callee (founded.cell callee).owned
  | call callee args => exact founds_execute founded grounded args
  | take result span =>
    refine .of_makes (.of_run (run_takeResult context result span m)) founded fun c made => ?_
    obtain ⟨rfl, -⟩ := Cell.map_copied_eq_ok made.symm
    exact founded.copy result .running
  | assign name value =>
    exact .bind_of_idle founded (idle_nameOf .nowhere name) fun name =>
      founded.bind grounded context.table name
  | conclude =>
    refine .of_makes (.of_run (run_clone _ m)) founded fun c made => ?_
    obtain ⟨rfl, -⟩ := Cell.copied_eq_ok made.symm
    exact founded.copy _ (founded.cell _).owned
  | stray => exact founded

theorem Step.Grounded.after {s : Step} (grounded : s.Grounded context) :
    (s.after host context).Founded context :=
  (grounded.grounded.founds grounded.founded).of_after

theorem keeps_step (node : Node) (deed : Deed) (grounded : deed.Grounded context m)
    (founded : m.Founded context) :
    (step host context node deed).Keeps m (Step.Grounded context)
      fun _ m' => m'.Founded context :=
  .step ⟨founded, grounded⟩ (Ends.yields (grounded.founds founded) fun _ _ ends => ends)

theorem keeps_visit {node : Node} {f : Watched α} {P : α → Machine → Prop}
    (founded : m.Founded context)
    (next : ∀ m', m'.Founded context → f.Keeps m' (Step.Grounded context) P) :
    Watched.Keeps (do let _ ← visit host context node; f) m (Step.Grounded context) P :=
  (keeps_step node (.note _) trivial founded).bind fun _ => next

end Steps

section Runs

variable {scene : SceneHost}

theorem Faithful.later {r : Ref} {m' : Machine} (faithful : Faithful context r m)
    (existed : r < m.cells.size) (more : m.Extends m') : Faithful context r m' := by
  rw [Faithful, more.cell_eq existed]
  exact faithful

/-- The copy of a value that is about to be called belongs to the same context. -/
theorem keeps_prepare (node : Node) {callee : Ref} (span : Span) (founded : m.Founded context)
    (faithful : Faithful context callee m) :
    (step scene context node (.prepare callee span)).Keeps m (Step.Grounded context)
      fun f m' => m'.Founded context ∧ f < m'.cells.size ∧ Faithful context f m' := by
  refine (keeps_step node (.prepare callee span) trivial founded).told (.step node _)
    ((Makes.of_run (run_prepareCallee callee span m)).ends.mono ?_ fun _ _ ends => ends)
  rintro _ _ ⟨rfl, c, made, rfl⟩
  obtain ⟨rfl, -⟩ := Cell.map_copied_eq_ok made.symm
  refine ⟨by rw [Machine.size_alloc]; exact Nat.lt_succ_self _, fun b is => ?_⟩
  rw [Machine.cell_alloc_self] at is ⊢
  exact faithful b is

mutual

/-- Every step of the evaluation of an expression is grounded. -/
theorem grounded_watch {m : Machine} (founded : m.Founded context) (node : Node)
    (evaluable : ∀ part ∈ node.order, part.Evaluable) (expression : node.IsExpression) :
    (watch scene context node).Keeps m (Step.Grounded context)
      fun _ m' => m'.Founded context := by
  have ordinary := scene.ordinary
  have self := evaluable node node.mem_order_self
  cases node with
  | program | blank => exact self.elim
  | identifier token span =>
    rw [watch]
    exact keeps_visit founded fun m founded => keeps_step _ _ trivial founded
  | number token span =>
    rw [watch]
    exact keeps_visit founded fun m founded => keeps_step _ _ trivial founded
  | string token span =>
    rw [watch]
    exact keeps_visit founded fun m founded => keeps_step _ _ self founded
  | binary left op right span =>
    simp only [Node.order, List.forall_mem_append] at evaluable
    obtain ⟨first, second⟩ := Node.isExpression_binary.mp expression
    rw [watch]
    refine keeps_visit founded fun m founded => ?_
    refine (grounded_watch founded left evaluable.1.1 first).bind fun a m₁ founded => ?_
    refine (grounded_watch founded right evaluable.1.2 second).bind fun b m₂ founded => ?_
    exact keeps_step _ _ trivial founded
  | unary op operand span =>
    simp only [Node.order, List.forall_mem_append] at evaluable
    rw [watch]
    refine keeps_visit founded fun m founded => ?_
    refine ((grounded_watch founded operand evaluable.1
      (Node.isExpression_unary.mp expression)).guarded ordinary founded.closed).bind ?_
    exact fun a m₁ ⟨founded, _, new⟩ => keeps_step _ _ new.high founded
  | list elements span =>
    simp only [Node.order, List.forall_mem_append] at evaluable
    rw [watch]
    refine keeps_visit founded fun m founded => ?_
    refine ((grounded_watchAll founded elements evaluable.1
      (Node.isExpression_list.mp expression)).guardedAll ordinary founded.closed).bind ?_
    exact fun refs m₁ ⟨founded, _, news⟩ =>
      keeps_step _ _ (fun r member => (news r member).high) founded
  | call callee args span =>
    simp only [Node.order, List.forall_mem_append] at evaluable
    obtain ⟨first, others⟩ := Node.isExpression_call.mp expression
    rw [watch]
    refine keeps_visit founded fun m founded => ?_
    refine ((grounded_watch founded callee evaluable.1.1 first).told
      (tells_watch scene context callee)
      (traces_eval ordinary founded.closed context callee first)).bind ?_
    rintro r m₁ ⟨founded, -, faithful⟩
    refine (keeps_prepare _ span founded faithful).bind fun f m₂ ⟨founded, existed, faithful⟩ => ?_
    -- What has been prepared for the call stays so while the arguments are evaluated.
    refine ((grounded_watchAll founded args evaluable.1.2 others).told
      (tells_watchAll scene context args)
      (Frames.evalAll scene.keepsValues context args m₂ (.refl m₂))).bind ?_
    rintro refs m₃ ⟨founded, more, -⟩
    have callable : (Deed.call f refs).Grounded context m₃ := faithful.later existed more
    refine (keeps_step _ (.call f refs) callable founded).bind fun result m₄ founded => ?_
    exact keeps_step _ _ trivial founded
  | assign name value span =>
    simp only [Node.order, List.forall_mem_append] at evaluable
    rw [watch]
    refine keeps_visit founded fun m founded => ?_
    refine ((grounded_watch founded value evaluable.1
      (Node.isExpression_assign.mp expression).1).guarded ordinary founded.closed).bind ?_
    exact fun r m₁ ⟨founded, _, new⟩ => keeps_step _ _ new.high founded

theorem grounded_watchAll {m : Machine} (founded : m.Founded context) (nodes : List Node)
    (evaluable : ∀ part ∈ Node.orderAll nodes, part.Evaluable)
    (expressions : Node.AreExpressions nodes) :
    (watchAll scene context nodes).Keeps m (Step.Grounded context)
      fun _ m' => m'.Founded context := by
  cases nodes with
  | nil =>
    rw [watchAll]
    exact .pure founded
  | cons node nodes =>
    simp only [Node.orderAll, List.forall_mem_append] at evaluable
    obtain ⟨first, others⟩ := Node.areExpressions_cons.mp expressions
    rw [watchAll]
    refine (grounded_watch founded node evaluable.1 first).bind fun r m₁ founded => ?_
    refine (grounded_watchAll founded nodes evaluable.2 others).bind fun rs m₂ founded => ?_
    exact .pure founded

end

/-- Every step of a run of a parsed program is grounded. -/
theorem grounded_course {f : FrontEnd} {origin : Origin} {p : Program}
    (parsed : f.parse origin = .ok p) (founded : m.Founded context) :
    ∀ s ∈ course scene context p m, s.Grounded context := by
  have keeps : (watchProgram scene context p).Keeps m (Step.Grounded context)
      fun _ _ => True := by
    refine (keeps_step p.toNode (.note _) trivial founded).bind fun _ m founded => ?_
    refine Watched.Keeps.bind (P := fun _ _ => True) ?_ fun _ _ _ => .pure trivial
    rw [Program.toNode, watch]
    refine keeps_visit founded fun m founded => ?_
    refine (grounded_watchAll founded p.body (f.evaluable_of_parse parsed)
      (f.areExpressions_of_parse parsed)).bind fun _ m founded => ?_
    exact .step ⟨founded, trivial⟩ ((ends_after _ m).yields fun _ _ _ => trivial)
  exact keeps.steps

end Runs

end EvalM

end SceneScript
