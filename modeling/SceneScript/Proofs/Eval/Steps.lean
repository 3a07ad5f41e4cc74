import SceneScript.Proofs.Eval.Course
import SceneScript.Proofs.Eval.Trace

/-!
What holds at every step of an evaluation. The values that a step works on exist; arguments can be
copied, and a value that is about to be called is at the place of the call. Nothing holds the
value of a node yet, unless the node hands over what an assignment in it has just stored.
-/

namespace SceneScript

/-- The value of the node is the very value that an assignment in it stores: a plus sign passes on
    what it gets. -/
def Node.HandsOver : Node → Prop
  | .assign .. => True
  | .unary op operand _ => op.kind ≠ .minus ∧ op.kind ≠ .bang ∧ operand.HandsOver
  | _ => False

instance Node.decideHandsOver : (node : Node) → Decidable node.HandsOver
  | .assign .. => isTrue trivial
  | .unary op operand _ =>
    have := decideHandsOver operand
    inferInstanceAs (Decidable (op.kind ≠ .minus ∧ op.kind ≠ .bang ∧ operand.HandsOver))
  | .program .. | .identifier .. | .number .. | .string .. | .binary .. | .list .. | .call ..
  | .blank .. => isFalse id

namespace EvalM

variable {α β : Type} {host : Host} {context : Context} {m m' : Machine}

/-- The evaluation may fail; else it ends as described. -/
def Yields (x : EvalM α) (m : Machine) (result : α → Machine → Prop) : Prop :=
  x.Ends m result fun _ _ => True

theorem Ends.yields {x : EvalM α} {P Q : α → Machine → Prop} {F : Failure → Machine → Prop}
    (ends : x.Ends m P F) (more : ∀ a m', P a m' → Q a m') : Yields x m Q :=
  ends.mono more fun _ _ _ => trivial

theorem Ends.bind_yields {x : EvalM α} {f : α → EvalM β} {P : α → Machine → Prop}
    {F : Failure → Machine → Prop} {Q : β → Machine → Prop} (first : x.Ends m P F)
    (second : ∀ a m', P a m' → Yields (f a) m' Q) : Yields (x >>= f) m Q :=
  Ends.bind (first.yields fun _ _ ends => ends) second

theorem Makes.unheld {x : EvalM Ref} {P : Except Failure Cell → Prop} (makes : x.Makes m P)
    (closed : m.Closed) {holds : Prop}
    (known : ∀ c, P (.ok c) → ∀ s ∈ c.content.elements, s < m.cells.size) :
    Yields x m fun r m' => m'.Held r → holds := by
  refine makes.ends.yields ?_
  rintro _ _ ⟨rfl, c, made, rfl⟩ held
  rcases Machine.held_alloc held with before | element
  · exact absurd (closed.held _ before).1 (Nat.lt_irrefl _)
  · exact absurd (known c made _ element) (Nat.lt_irrefl _)

theorem unheld_alloc (closed : m.Closed) {content : Content} {stamp : Stamp} {holds : Prop}
    (known : ∀ s ∈ content.elements, s < m.cells.size) :
    Yields (alloc content stamp) m fun r m' => m'.Held r → holds :=
  (Makes.alloc (P := (· = _)) rfl).unheld closed fun c made => by
    cases made
    exact known

theorem unheld_clone (closed : m.Closed) (r : Ref) {holds : Prop} :
    Yields (clone r) m fun r m' => m'.Held r → holds := by
  refine (Makes.of_run (run_clone r m)).unheld closed fun c made s member => ?_
  rw [(Cell.copied_eq_ok made.symm).1] at member
  exact (closed.elements r s member).1

theorem unheld_readName (closed : m.Closed) (context : Context) (token : Token) (span : Span)
    {holds : Prop} : Yields (readName context token span) m fun r m' => m'.Held r → holds := by
  refine (Makes.of_run (run_readName context token span m)).unheld closed fun c made s member => ?_
  obtain ⟨-, -, r, content⟩ := content_of_readOutcome made.symm
  rw [content] at member
  exact (closed.elements r s member).1

theorem unheld_combine (closed : m.Closed) (context : Context) (op : Token) (left right : Ref)
    (span : Span) {holds : Prop} :
    Yields (combine context op left right span) m fun r m' => m'.Held r → holds := by
  refine (makes_combine context op left right span m).unheld closed fun c combined s member => ?_
  obtain ⟨_, d, ⟨_, _, _, elements⟩, rfl⟩ := combined.of_ok
  rcases elements s member with ofLeft | ofRight
  · exact (closed.elements left s ofLeft).1
  · exact (closed.elements right s ofRight).1

theorem unheld_takeResult (closed : m.Closed) (context : Context) (result : Ref) (span : Span)
    {holds : Prop} :
    Yields (takeResult context result span) m fun r m' => m'.Held r → holds := by
  refine (Makes.of_run (run_takeResult context result span m)).unheld closed
    fun c made s member => ?_
  obtain ⟨rfl, -⟩ := Cell.map_copied_eq_ok made.symm
  exact (closed.elements result s member).1

theorem unheld_apply (closed : m.Closed) (op : Token) {operand : Ref}
    (existed : operand < m.cells.size) {node : Node} (span : Span)
    (owned : m.Held operand → node.HandsOver) :
    Yields (apply context op operand span) m
      fun r m' => m'.Held r → (Node.unary op node span).HandsOver := by
  have made {m : Machine} (closed : m.Closed) (y : Float) (stamp : Stamp) :
      Yields (alloc (.number y) stamp) m
        fun r m' => m'.Held r → (Node.unary op node span).HandsOver :=
    unheld_alloc closed (by simp [Content.elements])
  unfold Yields Ends
  refine run_apply_cases context op span (Machine.getElem?_of_lt existed) ?minus ?bang ?plus ?other
  case minus =>
    have one : (m.alloc ⟨.number (-1), .none⟩).2.Closed :=
      closed.alloc (by simp [Content.elements])
    exact fun x _ _ => made one _ _
  case bang => exact fun x _ _ => made closed _ _
  case plus =>
    intro x minus bang _ held
    exact ⟨minus, bang, owned (Machine.held_modify (f := (·.atSpan span)) (fun _ => rfl) held)⟩
  case other => exact fun _ => trivial

/-- What is known of the values that a deed is done with. -/
def Deed.Fits (context : Context) (node : Node) (m : Machine) : Deed → Prop
  | .apply op operand span => operand < m.cells.size ∧
      ∃ part, node = .unary op part span ∧ (m.Held operand → part.HandsOver)
  | .call callee args => node.callSite? = some node.span ∧
      (∃ content owner, m.cells[callee]? = some ⟨content, ⟨node.span, owner⟩⟩ ∧
        (node.IsExpression → ∀ b, content = .builtin b → owner = context)) ∧
      ∀ r ∈ args, ∃ c : Cell, m.cells[r]? = some c ∧ c.content ≠ .plain
  | _ => True

/-- A step for one of the nodes, in a machine in which everything that is held exists. -/
structure Step.Sound (context : Context) (nodes : List Node) (s : Step) : Prop where
  inside : s.node ∈ nodes
  closed : s.before.Closed
  fits : s.deed.Fits context s.node s.before

namespace Watched

/-- Every step is as described, and so is the result if there is one. -/
structure Keeps (x : Watched α) (m : Machine) (each : Step → Prop) (result : α → Machine → Prop) :
    Prop where
  steps : ∀ s ∈ (x m).1, each s
  result : ∀ a m', (x m).2 = .ok a m' → result a m'

namespace Keeps

variable {x : Watched α} {f : α → Watched β} {each : Step → Prop} {P : α → Machine → Prop}
  {Q : β → Machine → Prop}

theorem pure {a : α} (holds : P a m) : Keeps (Pure.pure a) m each P where
  steps _ member := nomatch member
  result _ _ is := by
    cases is
    exact holds

theorem bind (first : Keeps x m each P) (next : ∀ a m', P a m' → Keeps (f a) m' each Q) :
    Keeps (x >>= f) m each Q := by
  cases ran : (x m).2 with
  | error e m₁ =>
    constructor
    · rw [Watched.bind_of_error ran]
      exact first.steps
    · rw [Watched.bind_of_error ran]
      intro _ _ is
      cases is
  | ok a m₁ =>
    have later := next a m₁ (first.result a m₁ ran)
    constructor
    · rw [Watched.bind_of_ok ran]
      exact List.forall_mem_append.mpr ⟨first.steps, later.steps⟩
    · rw [Watched.bind_of_ok ran]
      exact later.result

theorem step {node : Node} {deed : Deed} {P : Ref → Machine → Prop} (fits : each ⟨node, deed, m⟩)
    (yields : Yields (deed.run host context) m P) :
    Keeps (EvalM.step host context node deed) m each P where
  steps s member := by
    cases List.mem_singleton.mp member
    exact fits
  result _ _ ran := Ends.of_ok yields ran

theorem note {node : Node} {e : Event} {nodes : List Node} {f : Ref → Watched β}
    (inside : node ∈ nodes) (closed : m.Closed)
    (next : ∀ r m', m'.Closed → Keeps (f r) m' (Step.Sound context nodes) Q) :
    Keeps (EvalM.step host context node (.note e) >>= f) m (Step.Sound context nodes) Q := by
  refine (Keeps.step (P := fun _ m' => m'.Closed) ⟨inside, closed, trivial⟩ ?_).bind next
  exact closed.aside rfl rfl

theorem told {y : EvalM α} {R : α → Machine → Prop} {F : Failure → Machine → Prop}
    (keeps : Keeps x m each P) (tells : Tells host context x y) (ends : y.Ends m R F) :
    Keeps x m each fun a m' => P a m' ∧ R a m' where
  steps := keeps.steps
  result a m' ran := ⟨keeps.result a m' ran, ends.of_ok ((tells.result m).symm.trans ran)⟩

section Guarded

variable {secret : Ref → Option Cell}

theorem guarded (ordinary : host.Ordinary) (kept : m.Sealed secret) {node : Node}
    {P : Ref → Machine → Prop} (keeps : Keeps (watch host context node) m each P) :
    Keeps (watch host context node) m each fun r m' =>
      P r m' ∧ m'.Guards secret m.cells ∧ m'.Newer m.cells.size r :=
  keeps.told (tells_watch host context node) (guards_eval ordinary kept context node)

theorem guardedAll (ordinary : host.Ordinary) (kept : m.Sealed secret) {nodes : List Node}
    {P : List Ref → Machine → Prop} (keeps : Keeps (watchAll host context nodes) m each P) :
    Keeps (watchAll host context nodes) m each fun refs m' =>
      P refs m' ∧ m'.Guards secret m.cells ∧ ∀ r ∈ refs, m'.Newer m.cells.size r :=
  keeps.told (tells_watchAll host context nodes) (guards_evalAll ordinary kept context nodes)

end Guarded

end Keeps

end Watched

/-- The steps of a call once the callee has its value. -/
theorem sound_call (ordinary : host.Ordinary) {nodes : List Node} {callee : Node}
    {args : List Node} {span : Span} (self : .call callee args span ∈ nodes) (closed : m.Closed)
    {r : Ref} {c : Cell} (there : m.cells[r]? = some c) (firm : c.content ≠ .plain)
    (owner : (Node.call callee args span).IsExpression →
      ∀ b, c.content = .builtin b → c.stamp.context = context)
    (sound : ∀ m', m'.Closed →
      (watchAll host context args).Keeps m' (Step.Sound context nodes) fun _ _ => True) :
    Watched.Keeps (do
      let function ← step host context (.call callee args span) (.prepare r span)
      let refs ← watchAll host context args
      let result ← step host context (.call callee args span) (.call function refs)
      step host context (.call callee args span) (.take result span)) m (Step.Sound context nodes)
      fun r m' => m'.Held r → (Node.call callee args span).HandsOver := by
  -- The copy of the callee is a secret while the arguments are evaluated.
  have concealed := closed.conceal_copy there span
  refine Watched.Keeps.bind (P := fun f m₂ => f = m.cells.size ∧
    m₂ = (m.alloc (c.atSpan span)).2) (.step ⟨self, closed, trivial⟩ ?_) ?_
  · unfold Yields Ends
    rw [Deed.run, run_prepareCallee_firm there firm span]
    exact ⟨rfl, rfl⟩
  rintro _ _ ⟨rfl, rfl⟩
  refine ((sound _ concealed.closed).guardedAll ordinary concealed).bind
    fun refs m₂ ⟨_, kept, news⟩ => ?_
  have prepared := kept.kept.there _ _ (if_pos rfl)
  refine Watched.Keeps.bind (P := fun _ m₃ => m₃.Closed) (.step ⟨self, kept.kept.closed, rfl,
    ⟨c.content, c.stamp.context, prepared, owner⟩, fun s member => (news s member).there⟩ ?_)
    fun result m₃ closed => ?_
  · exact Ends.yields (guards_execute ordinary kept.kept.closed rfl refs)
      fun _ _ ends => ends.1.kept
  exact .step ⟨self, closed, trivial⟩ (unheld_takeResult closed context result span)

mutual

theorem sound_watch (ordinary : host.Ordinary) {nodes : List Node} {m : Machine}
    (closed : m.Closed) (context : Context) (node : Node)
    (inside : ∀ part ∈ node.order, part ∈ nodes) :
    (watch host context node).Keeps m (Step.Sound context nodes)
      fun r m' => m'.Held r → node.HandsOver := by
  have self := inside node node.mem_order_self
  cases node with
  | program body span =>
    simp only [Node.order, List.forall_mem_append] at inside
    rw [watch]
    refine .note self closed fun _ m closed => ?_
    refine ((sound_watchAll ordinary closed context body inside.1).guardedAll ordinary
      closed).bind fun _ m₁ ⟨_, moved, _⟩ => ?_
    exact .step ⟨self, moved.kept, trivial⟩ (unheld_clone moved.kept _)
  | identifier token span =>
    rw [watch]
    refine .note self closed fun _ m closed => .step ⟨self, closed, trivial⟩ ?_
    exact unheld_readName closed context token span
  | number token span =>
    rw [watch]
    refine .note self closed fun _ m closed => .step ⟨self, closed, trivial⟩ ?_
    refine Ends.bind_yields (idle_readNumber span _) ?_
    rintro x _ rfl
    exact unheld_alloc closed (by simp [Content.elements])
  | string token span =>
    rw [watch]
    refine .note self closed fun _ m closed => .step ⟨self, closed, trivial⟩ ?_
    exact unheld_alloc closed (by simp [Content.elements_ofLiteral])
  | binary left op right span =>
    simp only [Node.order, List.forall_mem_append] at inside
    rw [watch]
    refine .note self closed fun _ m closed => ?_
    refine ((sound_watch ordinary closed context left inside.1.1).guarded ordinary
      closed).bind fun a m₁ ⟨_, first, _⟩ => ?_
    refine ((sound_watch ordinary first.kept context right inside.1.2).guarded ordinary
      first.kept).bind fun b m₂ ⟨_, second, _⟩ => ?_
    exact .step ⟨self, second.kept, trivial⟩ (unheld_combine second.kept context op a b span)
  | unary op operand span =>
    simp only [Node.order, List.forall_mem_append] at inside
    rw [watch]
    refine .note self closed fun _ m closed => ?_
    refine ((sound_watch ordinary closed context operand inside.1).guarded ordinary
      closed).bind fun a m₁ ⟨owned, moved, new⟩ => ?_
    exact .step ⟨self, moved.kept, new.high, operand, rfl, owned⟩
      (unheld_apply moved.kept op new.high span owned)
  | list elements span =>
    simp only [Node.order, List.forall_mem_append] at inside
    rw [watch]
    refine .note self closed fun _ m closed => ?_
    refine ((sound_watchAll ordinary closed context elements inside.1).guardedAll ordinary
      closed).bind fun refs m₁ ⟨_, moved, new⟩ => ?_
    refine .step ⟨self, moved.kept, trivial⟩ (unheld_alloc moved.kept fun s member => ?_)
    exact (new s member).high
  | call callee args span =>
    simp only [Node.order, List.forall_mem_append] at inside
    rw [watch]
    refine .note self closed fun _ m closed => ?_
    have faithful : Yields (eval host context callee) m
        fun r m' => callee.IsExpression → Faithful context r m' :=
      .of_run (fun r m' ran expression =>
        (Ends.of_ok (traces_eval ordinary closed context callee expression) ran).2)
        fun _ _ _ => trivial
    refine (((sound_watch ordinary closed context callee inside.1.1).guarded ordinary closed).told
      (tells_watch host context callee) faithful).bind fun r m₁ ⟨⟨_, moved, new⟩, faithful⟩ => ?_
    obtain ⟨c, there, firm⟩ := new.there
    refine sound_call ordinary self moved.kept there firm (fun expression b is => ?_)
      fun m₂ closed => sound_watchAll ordinary closed context args inside.1.2
    have belongs := faithful (Node.isExpression_call.mp expression).1 b
    rw [Machine.cell_of_getElem? there] at belongs
    exact belongs is
  | assign name value span =>
    simp only [Node.order, List.forall_mem_append] at inside
    rw [watch]
    refine .note self closed fun _ m closed => ?_
    refine ((sound_watch ordinary closed context value inside.1).guarded ordinary
      closed).bind fun r m₁ ⟨_, moved, _⟩ => ?_
    refine .step ⟨self, moved.kept, trivial⟩ ?_
    exact (ends_after _ m₁).yields fun _ _ _ _ => trivial
  | blank start stop =>
    rw [watch]
    exact .note self closed fun _ m closed => .step ⟨self, closed, trivial⟩ trivial

theorem sound_watchAll (ordinary : host.Ordinary) {nodes : List Node} {m : Machine}
    (closed : m.Closed) (context : Context) (parts : List Node)
    (inside : ∀ part ∈ Node.orderAll parts, part ∈ nodes) :
    (watchAll host context parts).Keeps m (Step.Sound context nodes) fun _ _ => True := by
  cases parts with
  | nil =>
    rw [watchAll]
    exact .pure trivial
  | cons node rest =>
    simp only [Node.orderAll, List.forall_mem_append] at inside
    rw [watchAll]
    refine ((sound_watch ordinary closed context node inside.1).guarded ordinary
      closed).bind fun r m₁ ⟨_, moved, _⟩ => ?_
    exact (sound_watchAll ordinary moved.kept context rest inside.2).bind fun _ _ _ => .pure trivial

end

/-- Every step of the run of a program is sound. -/
theorem sound_course (ordinary : host.Ordinary) (closed : m.Closed) (context : Context)
    (p : Program) : ∀ s ∈ course host context p m, s.Sound context p.toNode.order := by
  have keeps : (watchProgram host context p).Keeps m (Step.Sound context p.toNode.order)
      fun _ _ => True :=
    .note p.toNode.mem_order_self closed fun _ _ closed =>
      (sound_watch ordinary closed context p.toNode fun _ => id).bind fun _ _ _ => .pure trivial
  exact keeps.steps

end EvalM

end SceneScript
