import SceneScript.Proofs.Eval.Secrecy
import SceneScript.Proofs.Node.Order

/-!
The course of an evaluation. It is done with the nodes of a tree one after the other, in the order
of the tree: an assignment binds its name, a call runs a builtin at its place, and nothing else
does anything that shows. A failure stops it at one node, with all nodes before it done.
-/

namespace SceneScript

def Event.invocation? : Event → Option (Builtin × Span)
  | .called b span => some (b, span)
  | _ => none

/-- The builtins that the log says were invoked, each with the place of the call. -/
def Machine.invocations (m : Machine) : List (Builtin × Span) :=
  (m.events.filterMap Event.invocation?).reverse

/-- Nothing has happened that shows: at most, cells have been made or changed, and the log has
    further notes other than of calls. -/
structure Machine.Silent (m m' : Machine) : Prop where
  tables : m'.tables = m.tables
  output : m'.output = m.output
  scene : m'.scene = m.scene
  invocations : m'.invocations = m.invocations

namespace Machine.Silent

variable {m m' m'' : Machine}

theorem refl (m : Machine) : m.Silent m := ⟨rfl, rfl, rfl, rfl⟩

theorem trans (first : m.Silent m') (second : m'.Silent m'') : m.Silent m'' :=
  ⟨second.tables.trans first.tables, second.output.trans first.output,
    second.scene.trans first.scene, second.invocations.trans first.invocations⟩

theorem cells (m : Machine) (cells : Array Cell) : m.Silent { m with cells := cells } :=
  ⟨rfl, rfl, rfl, rfl⟩

theorem noted (m : Machine) {e : Event} (note : e.invocation? = none) :
    m.Silent { m with events := e :: m.events } := by
  refine ⟨rfl, rfl, rfl, ?_⟩
  unfold Machine.invocations
  rw [List.filterMap_cons_none note]

end Machine.Silent

namespace EvalM

variable {α β : Type} {host : Host} {context : Context} {m m' m'' : Machine}

/-- The arguments of a call are bound, as many as the builtin has parameters, and the call is in
    the log: the builtin is about to run. -/
structure Entered (context : Context) (span : Span) (b : Builtin) (site : Site)
    (m m' : Machine) : Prop where
  placed : site.span = span
  inside : site.context = context.call b.name span.start
  bound : ∃ args m₁, args.length = b.params.length ∧
    (bindArguments site.context b.params args).run m = .ok () m₁ ∧
    m' = { m₁ with events := .called b span :: m₁.events }

/-- What is done about a node once its parts are done. -/
inductive Acts (host : Host) (context : Context) (m : Machine) (node : Node) : Machine → Prop
  | rests (nameless : node.assigned? = none) (callless : node.callSite? = none) :
      Acts host context m node m
  | assigns {name : Name} (named : node.assigned? = some name) (r : Ref) :
      Acts host context m node (m.bind context.table name r)
  | calls {span : Span} {b : Builtin} {site : Site} {r : Ref} {m₁ m₂ : Machine}
      (placed : node.callSite? = some span) (entered : Entered context span b site m m₁)
      (ran : (perform host site b).run m₁ = .ok r m₂) : Acts host context m node m₂

/-- The nodes are done one after the other. -/
inductive Does (host : Host) (context : Context) : List Node → Machine → Machine → Prop
  | nil {m m' : Machine} (silent : m.Silent m') : Does host context [] m m'
  | cons {m m₁ m₂ m' : Machine} {node : Node} {nodes : List Node} (silent : m.Silent m₁)
      (acts : Acts host context m₁ node m₂) (does : Does host context nodes m₂ m') :
      Does host context (node :: nodes) m m'

/-- How evaluation stops at a node whose parts are done: before anything is done about it, or
    within the builtin that it calls, or when that has answered with a value that cannot be
    copied. -/
inductive Stops (host : Host) (context : Context) (e : Failure) (m : Machine) (node : Node) :
    Machine → Prop
  | before {m' : Machine} (silent : m.Silent m') : Stops host context e m node m'
  | within {span : Span} {b : Builtin} {site : Site} {m₁ m' : Machine}
      (placed : node.callSite? = some span) (entered : Entered context span b site m m₁)
      (failed : (perform host site b).run m₁ = .error e m') : Stops host context e m node m'
  | behind {span : Span} {m' : Machine} (placed : node.callSite? = some span)
      (done : Does host context [node] m m') (reason : e = .uncopyable) :
      Stops host context e m node m'

/-- Of the nodes, one fails, and those before it are done. -/
def Halts (host : Host) (context : Context) (nodes : List Node) (e : Failure)
    (m m' : Machine) : Prop :=
  ∃ done failing rest m₁, nodes = done ++ failing :: rest ∧ Does host context done m m₁ ∧
    Stops host context e m₁ failing m' ∧ ∃ m₀, (eval host context failing).run m₀ = .error e m'

namespace Does

variable {nodes others : List Node}

theorem after (silent : m.Silent m') (does : Does host context nodes m' m'') :
    Does host context nodes m m'' := by
  cases does with
  | nil later => exact .nil (silent.trans later)
  | cons later acts does => exact .cons (silent.trans later) acts does

theorem append (first : Does host context nodes m m') (second : Does host context others m' m'') :
    Does host context (nodes ++ others) m m'' := by
  induction first with
  | nil silent => exact second.after silent
  | cons silent acts _ ih => exact .cons silent acts (ih second)

end Does

namespace Halts

variable {nodes others : List Node} {e : Failure}

theorem after (silent : m.Silent m') (halts : Halts host context nodes e m' m'') :
    Halts host context nodes e m m'' := by
  obtain ⟨done, failing, rest, m₁, split, does, stops⟩ := halts
  exact ⟨done, failing, rest, m₁, split, does.after silent, stops⟩

theorem append_left (done : Does host context nodes m m')
    (halts : Halts host context others e m' m'') :
    Halts host context (nodes ++ others) e m m'' := by
  obtain ⟨before, failing, rest, m₁, rfl, does, stops, failed⟩ := halts
  exact ⟨nodes ++ before, failing, rest, m₁, by rw [List.append_assoc], done.append does, stops,
    failed⟩

theorem append_right (halts : Halts host context nodes e m m') (others : List Node) :
    Halts host context (nodes ++ others) e m m' := by
  obtain ⟨done, failing, rest, m₁, rfl, does, stops, failed⟩ := halts
  exact ⟨done, failing, rest ++ others, m₁, by rw [List.append_assoc, List.cons_append], does,
    stops, failed⟩

end Halts

/-- The evaluation does the nodes, with a result as described, or halts at one of them. -/
def Traces (host : Host) (context : Context) (nodes : List Node) (x : EvalM α) (m : Machine)
    (result : α → Machine → Prop) : Prop :=
  x.Ends m (fun a m' => Does host context nodes m m' ∧ result a m')
    fun e m' => Halts host context nodes e m m'

/-- The evaluation does the parts and then the node, or halts at one of the parts, or stops at
    the node with all parts done. -/
def Finishes (host : Host) (context : Context) (parts : List Node) (node : Node) (x : EvalM α)
    (m : Machine) (result : α → Machine → Prop) : Prop :=
  x.Ends m (fun a m' => Does host context (parts ++ [node]) m m' ∧ result a m') fun e m' =>
    Halts host context parts e m m' ∨
      ∃ m₁, Does host context parts m m₁ ∧ Stops host context e m₁ node m'

section Rules

variable {nodes first rest parts : List Node} {node : Node} {x : EvalM α} {f : α → EvalM β}
  {P : α → Machine → Prop} {Q : β → Machine → Prop}

theorem Traces.bind (runs : Traces host context first x m P)
    (next : ∀ a m', P a m' → Traces host context rest (f a) m' Q) :
    Traces host context (first ++ rest) (x >>= f) m Q := by
  refine Ends.bind (runs.mono (fun _ _ ends => ends) fun _ _ halts => halts.append_right rest) ?_
  rintro a m' ⟨does, holds⟩
  exact (next a m' holds).mono (fun _ _ ends => ⟨does.append ends.1, ends.2⟩)
    fun _ _ halts => halts.append_left does

theorem Traces.step {a : α} (ran : x.run m = .ok a m') (silent : m.Silent m')
    (next : Traces host context nodes (f a) m' Q) :
    Traces host context nodes (x >>= f) m Q := by
  refine Ends.of_run (fun b m'' ended => ?_) fun e m'' ended => ?_
  · rw [run_bind, ran] at ended
    obtain ⟨does, holds⟩ := Ends.of_ok next ended
    exact ⟨does.after silent, holds⟩
  · rw [run_bind, ran] at ended
    exact (Ends.of_error next ended).after silent

theorem Traces.bind_pure {γ : Type} {g : α → γ} {R : γ → Machine → Prop}
    (runs : Traces host context nodes x m P) (more : ∀ a m', P a m' → R (g a) m') :
    Traces host context nodes (do return g (← x)) m R :=
  Ends.bind runs fun a m' ends => ⟨ends.1, more a m' ends.2⟩

theorem Finishes.bind (runs : Traces host context first x m P)
    (next : ∀ a m', P a m' → Finishes host context rest node (f a) m' Q) :
    Finishes host context (first ++ rest) node (x >>= f) m Q := by
  refine Ends.bind (runs.mono (fun _ _ ends => ends) fun _ _ halts =>
    .inl (halts.append_right rest)) ?_
  rintro a m' ⟨does, holds⟩
  refine (next a m' holds).mono ?_ ?_
  · rintro b m'' ⟨later, result⟩
    rw [List.append_assoc]
    exact ⟨does.append later, result⟩
  · rintro e m'' (halts | ⟨m₁, later, stops⟩)
    · exact .inl (halts.append_left does)
    · exact .inr ⟨m₁, does.append later, stops⟩

theorem Finishes.last (runs : Traces host context parts x m P)
    (next : ∀ a m', P a m' → Finishes host context [] node (f a) m' Q) :
    Finishes host context parts node (x >>= f) m Q := by
  have finishes := Finishes.bind runs next
  rwa [List.append_nil] at finishes

theorem Finishes.step {a : α} (ran : x.run m = .ok a m') (silent : m.Silent m')
    (next : Finishes host context parts node (f a) m' Q) :
    Finishes host context parts node (x >>= f) m Q := by
  refine Ends.of_run (fun b m'' ended => ?_) fun e m'' ended => ?_
  · rw [run_bind, ran] at ended
    obtain ⟨does, holds⟩ := Ends.of_ok next ended
    exact ⟨does.after silent, holds⟩
  · rw [run_bind, ran] at ended
    rcases Ends.of_error next ended with halts | ⟨m₁, does, stops⟩
    · exact .inl (halts.after silent)
    · exact .inr ⟨m₁, does.after silent, stops⟩

theorem Finishes.note {e : Event} {f : Unit → EvalM β} (note : e.invocation? = none)
    (closed : m.Closed) (next : ∀ m', m'.Closed → Finishes host context parts node (f ()) m' Q) :
    Finishes host context parts node (record e >>= f) m Q :=
  .step rfl (.noted m note) (next _ (closed.aside rfl rfl))

/-- A node about which nothing is done. -/
theorem Finishes.silent {y : EvalM β} (nameless : node.assigned? = none)
    (callless : node.callSite? = none)
    (silent : y.Ends m (fun b m' => m.Silent m' ∧ Q b m') fun _ m' => m.Silent m') :
    Finishes host context [] node y m Q := by
  refine silent.mono ?_ ?_
  · rintro b m' ⟨silent, holds⟩
    exact ⟨.cons (.refl m) (.rests nameless callless) (.nil silent), holds⟩
  · exact fun e m' silent => .inr ⟨m, .nil (.refl m), .before silent⟩

theorem Finishes.traces (parts : List Node) {Q : Ref → Machine → Prop}
    (whole : node.order = parts ++ [node])
    (finishes : Finishes host context parts node (eval host context node) m Q) :
    Traces host context node.order (eval host context node) m Q := by
  rw [whole]
  refine Ends.of_run (fun r m' ran => Ends.of_ok finishes ran) fun e m' ran => ?_
  rcases Ends.of_error finishes ran with halts | ⟨m₁, does, stops⟩
  · exact halts.append_right [node]
  · exact ⟨parts, node, [], m₁, rfl, does, stops, m, ran⟩

end Rules

/-- A builtin that is a value in hand belongs to the context. -/
def Faithful (context : Context) (r : Ref) (m : Machine) : Prop :=
  ∀ b, (m.cell r).content = .builtin b → (m.cell r).stamp.context = context

theorem faithful_of_inert {r : Ref} (inert : ∀ b, (m.cell r).content ≠ .builtin b) :
    Faithful context r m := fun b is => absurd is (inert b)

theorem Makes.silent {x : EvalM Ref} {P : Except Failure Cell → Prop} (makes : x.Makes m P)
    (faithful : ∀ c, P (.ok c) → ∀ b, c.content = .builtin b → c.stamp.context = context) :
    x.Ends m (fun r m' => m.Silent m' ∧ Faithful context r m') fun _ m' => m.Silent m' := by
  refine makes.ends.mono ?_ ?_
  · rintro r m' ⟨rfl, c, holds, rfl⟩
    refine ⟨.cells m _, fun b is => ?_⟩
    rw [Machine.cell_alloc_self] at is ⊢
    exact faithful c holds b is
  · rintro e m' ⟨rfl, -⟩
    exact .refl _

theorem silent_alloc {content : Content} {stamp : Stamp}
    (inert : ∀ b, content ≠ .builtin b) : (alloc content stamp).Ends m
      (fun r m' => m.Silent m' ∧ Faithful context r m') fun _ m' => m.Silent m' := by
  refine (Makes.alloc (P := (· = _)) rfl).silent fun c made b is => ?_
  cases made
  exact absurd is (inert b)

theorem silent_combine (op : Token) (left right : Ref) (span : Span) :
    (combine context op left right span).Ends m
      (fun r m' => m.Silent m' ∧ Faithful context r m') fun _ m' => m.Silent m' := by
  refine (makes_combine context op left right span m).silent fun c combined b is => ?_
  obtain ⟨_, d, ⟨context, inert, firm, elements⟩, rfl⟩ := combined.of_ok
  exact absurd is (inert b)

theorem silent_apply (op : Token) {operand : Ref} (existed : operand < m.cells.size)
    (span : Span) : (apply context op operand span).Ends m
      (fun r m' => m.Silent m' ∧ Faithful context r m') fun _ m' => m.Silent m' := by
  refine (ends_apply context op span existed).mono ?_ ?_
  · rintro r m' ⟨⟨cells, rfl⟩, x, owner, there⟩
    refine ⟨.cells m cells, faithful_of_inert fun b => ?_⟩
    rw [Machine.cell_of_getElem? there]
    simp
  · rintro e m' ⟨rfl, -⟩
    exact .refl m'

theorem run_prepareCallee_firm {callee : Ref} {c : Cell} (there : m.cells[callee]? = some c)
    (firm : c.content ≠ .plain) (span : Span) :
    (prepareCallee callee span).run m = .ok m.cells.size (m.alloc (c.atSpan span)).2 := by
  rw [run_prepareCallee, Machine.cell_of_getElem? there, Cell.copied_of_firm firm]
  rfl

/-- Arguments that can be copied are all bound. -/
theorem bindArguments_eq_ok (context : Context) (params : List String) {args : List Ref}
    (firm : ∀ r ∈ args, ∃ c : Cell, m.cells[r]? = some c ∧ c.content ≠ .plain) :
    ∃ m', (bindArguments context params args).run m = .ok () m' := by
  induction params generalizing m args with
  | nil => exact ⟨m, rfl⟩
  | cons param params ih =>
    cases args with
    | nil => exact ⟨m, rfl⟩
    | cons arg args =>
      obtain ⟨⟨c, there, solid⟩, later⟩ := List.forall_mem_cons.mp firm
      rw [run_bindArguments_cons, Machine.cell_of_getElem? there, Cell.copied_of_firm solid]
      refine ih fun r member => ?_
      obtain ⟨d, before, solid⟩ := later r member
      exact ⟨d, Machine.getElem?_alloc_of_there before _, solid⟩

section Execute

variable (host : Host) {f : Ref} {refs : List Ref}

/-- A value that is no builtin, or one with another number of parameters, is not called. -/
theorem run_execute_refused {c : Cell} (there : m.cells[f]? = some c)
    (other : ∀ b, c.content = .builtin b → refs.length ≠ b.params.length) :
    ∃ fault, (execute host f refs).run m = .error (.runtime fault) m := by
  rw [execute, run_cell_bind, Machine.cell_of_getElem? there]
  split
  · rename_i b content
    split
    · exact ⟨_, rfl⟩
    · split
      · exact ⟨_, rfl⟩
      · have differ := other b content
        omega
  · exact ⟨_, rfl⟩

theorem run_execute_builtin {b : Builtin} {stamp : Stamp}
    (there : m.cells[f]? = some ⟨.builtin b, stamp⟩) (count : refs.length = b.params.length)
    (bound : (bindArguments (stamp.context.call b.name stamp.span.start) b.params refs).run m =
      .ok () m') :
    (execute host f refs).run m =
      (perform host ⟨stamp.span, stamp.context.call b.name stamp.span.start, f⟩ b).run
        { m' with events := .called b stamp.span :: m'.events } := by
  rw [execute, run_cell_bind, Machine.cell_of_getElem? there]
  simp only [count, Nat.lt_irrefl, if_false]
  rw [run_bind, bound]
  rfl

/-- Calling a value at the place that it is stamped with. -/
theorem finishes_call {callee : Node} {args : List Node} {span : Span} {content : Content}
    {owner : Context} (there : m.cells[f]? = some ⟨content, ⟨span, owner⟩⟩)
    (faithful : ∀ b, content = .builtin b → owner = context)
    (firm : ∀ r ∈ refs, ∃ c : Cell, m.cells[r]? = some c ∧ c.content ≠ .plain) :
    Finishes host context [] (.call callee args span)
      (execute host f refs >>= fun result => takeResult context result span) m
      (Faithful context) := by
  unfold Finishes Ends
  rw [run_bind]
  by_cases called : ∃ b, content = .builtin b ∧ refs.length = b.params.length
  · obtain ⟨b, rfl, count⟩ := called
    obtain rfl : owner = context := faithful b rfl
    obtain ⟨m₁, bound⟩ := bindArguments_eq_ok (owner.call b.name span.start) b.params firm
    have entered : Entered owner span b ⟨span, owner.call b.name span.start, f⟩ m
        { m₁ with events := .called b span :: m₁.events } := ⟨rfl, rfl, refs, m₁, count, bound, rfl⟩
    rw [run_execute_builtin host there count bound]
    cases ran : (perform host ⟨span, owner.call b.name span.start, f⟩ b).run
        { m₁ with events := .called b span :: m₁.events } with
    | error e m₂ => exact .inr ⟨m, .nil (.refl m), .within rfl entered ran⟩
    | ok r m₂ =>
      have acts : Acts host owner m (.call callee args span) m₂ := .calls rfl entered ran
      simp only [run_takeResult]
      cases copy : (m₂.cell r).copied with
      | ok c =>
        refine ⟨.cons (.refl m) acts (.nil (.cells m₂ _)), fun b is => ?_⟩
        rw [Machine.cell_alloc_self]
      | error e =>
        exact .inr ⟨m, .nil (.refl m), .behind rfl (.cons (.refl m) acts (.nil (.refl m₂)))
          (Cell.copied_eq_error copy)⟩
  · obtain ⟨fault, refused⟩ := run_execute_refused host there
      fun b is count => called ⟨b, is, count⟩
    rw [refused]
    exact .inr ⟨m, .nil (.refl m), .before (.refl m)⟩

end Execute

theorem Traces.guarded {nodes : List Node} {x : EvalM α} {P Q : α → Machine → Prop}
    {secret : Ref → Option Cell} (traces : Traces host context nodes x m P)
    (guards : x.Guards secret m Q) :
    Traces host context nodes x m fun a m' => m'.Guards secret m.cells ∧ P a m' ∧ Q a m' := by
  refine Ends.of_run (fun a m' ran => ?_) fun e m' ran => Ends.of_error traces ran
  obtain ⟨does, holds⟩ := Ends.of_ok traces ran
  obtain ⟨moved, holds'⟩ := Ends.of_ok guards ran
  exact ⟨does, moved, holds, holds'⟩

mutual

theorem traces_eval (ordinary : host.Ordinary) {m : Machine} (closed : m.Closed)
    (context : Context) (node : Node) (expression : node.IsExpression) :
    Traces host context node.order (eval host context node) m (Faithful context) := by
  cases node with
  | program | blank => exact (expression _ (Node.mem_order_self _)).elim
  | identifier token span =>
    refine Finishes.traces [] rfl ?_
    rw [eval]
    refine .note rfl closed fun m _ => .silent rfl rfl ?_
    exact (Makes.of_run (run_readName context token span m)).silent fun c made b _ => by
      rw [(content_of_readOutcome made.symm).1]
  | number token span =>
    refine Finishes.traces [] rfl ?_
    rw [eval]
    refine .note rfl closed fun m _ => .silent rfl rfl ?_
    refine Ends.bind ((idle_readNumber span _).mono (fun _ _ same => same) ?_) ?_
    · rintro _ _ ⟨rfl, -⟩
      exact .refl _
    · rintro x _ rfl
      exact silent_alloc (by simp)
  | string token span =>
    refine Finishes.traces [] rfl ?_
    rw [eval]
    exact .note rfl closed fun m _ => .silent rfl rfl (silent_alloc (Content.inert_ofLiteral _))
  | binary left op right span =>
    obtain ⟨first, second⟩ := Node.isExpression_binary.mp expression
    refine Finishes.traces _ (by rw [Node.order]) ?_
    rw [eval]
    refine .note rfl closed fun m closed => ?_
    refine .bind ((traces_eval ordinary closed context left first).guarded
      (guards_eval ordinary closed context left)) fun a m₁ ⟨moved, _⟩ => ?_
    refine .last (traces_eval ordinary moved.kept context right second) fun b m₂ _ => ?_
    exact .silent rfl rfl (silent_combine op a b span)
  | unary op operand span =>
    refine Finishes.traces _ (by rw [Node.order]) ?_
    rw [eval]
    refine .note rfl closed fun m closed => ?_
    refine .last ((traces_eval ordinary closed context operand
      (Node.isExpression_unary.mp expression)).guarded
      (guards_eval ordinary closed context operand)) fun a m₁ ⟨_, _, new⟩ => ?_
    exact .silent rfl rfl (silent_apply op new.high span)
  | list elements span =>
    refine Finishes.traces _ (by rw [Node.order]) ?_
    rw [eval]
    refine .note rfl closed fun m closed => ?_
    refine .last (traces_evalAll ordinary closed context elements
      (Node.isExpression_list.mp expression)) fun refs m₁ _ => ?_
    exact .silent rfl rfl (silent_alloc (by simp))
  | call callee args span =>
    obtain ⟨first, others⟩ := Node.isExpression_call.mp expression
    refine Finishes.traces _ (by rw [Node.order]) ?_
    rw [eval]
    refine .note rfl closed fun m closed => ?_
    refine .bind ((traces_eval ordinary closed context callee first).guarded
      (guards_eval ordinary closed context callee)) fun r m₁ ⟨moved, faithful, new⟩ => ?_
    -- The callee is copied, and nobody else knows of the copy until it is called.
    obtain ⟨c, there, firm⟩ := new.there
    rw [Faithful, Machine.cell_of_getElem? there] at faithful
    have concealed := moved.kept.conceal_copy there span
    refine .step (run_prepareCallee_firm there firm span) (.cells m₁ _) ?_
    refine .last ((traces_evalAll ordinary concealed.closed context args others).guarded
      (guards_evalAll ordinary concealed context args)) fun refs m₂ ⟨kept, _, news⟩ => ?_
    refine finishes_call host (kept.kept.there _ _ (if_pos rfl)) faithful fun s member => ?_
    exact (news s member).there
  | assign name value span =>
    obtain ⟨inner, s, named⟩ := Node.isExpression_assign.mp expression
    have name_eq : Name.ofJson? name.value = some (.text s) := by
      rw [named]
      rfl
    have assigned : (Node.assign name value span).assigned? = some (.text s) := name_eq
    refine Finishes.traces _ (by rw [Node.order]) ?_
    rw [eval]
    refine .note rfl closed fun m closed => ?_
    refine .last (traces_eval ordinary closed context value inner) fun r m₁ faithful => ?_
    simp only [nameOf, name_eq, pure_bind]
    exact ⟨.cons (.refl m₁) (.assigns assigned r) (.nil (.refl _)), faithful⟩

theorem traces_evalAll (ordinary : host.Ordinary) {m : Machine} (closed : m.Closed)
    (context : Context) (nodes : List Node) (expressions : Node.AreExpressions nodes) :
    Traces host context (Node.orderAll nodes) (evalAll host context nodes) m fun _ _ => True := by
  cases nodes with
  | nil =>
    rw [evalAll, Node.orderAll]
    exact ⟨.nil (.refl m), trivial⟩
  | cons node nodes =>
    obtain ⟨first, others⟩ := Node.areExpressions_cons.mp expressions
    rw [evalAll, Node.orderAll]
    refine ((traces_eval ordinary closed context node first).guarded
      (guards_eval ordinary closed context node)).bind fun r m₁ ⟨moved, _⟩ => ?_
    exact (traces_evalAll ordinary moved.kept context nodes others).bind_pure fun _ _ _ => trivial

end

theorem traces_program (ordinary : host.Ordinary) (closed : m.Closed) (context : Context)
    {body : List Node} (expressions : Node.AreExpressions body) (span : Span) :
    Traces host context (Node.program body span).order (eval host context (.program body span)) m
      fun _ _ => True := by
  refine Finishes.traces _ (by rw [Node.order]) ?_
  rw [eval]
  refine .note rfl closed fun m closed => ?_
  refine .last (traces_evalAll ordinary closed context body expressions) fun _ m₁ _ => ?_
  refine .silent rfl rfl ((Makes.of_run (run_clone _ m₁)).ends.mono ?_ ?_)
  · rintro _ _ ⟨-, c, -, rfl⟩
    exact ⟨.cells m₁ _, trivial⟩
  · rintro _ _ ⟨rfl, -⟩
    exact .refl _

/-- Any part of a program is evaluated like that, and the program as a whole. -/
theorem traces_part (ordinary : host.Ordinary) (closed : m.Closed) (context : Context)
    {p : Program} (expressions : Node.AreExpressions p.body) {node : Node}
    (inside : node ∈ p.toNode.order) :
    Traces host context node.order (eval host context node) m fun _ _ => True := by
  rw [Program.toNode, Node.order, List.mem_append, List.mem_singleton] at inside
  rcases inside with part | rfl
  · exact (traces_eval ordinary closed context node (expressions.part part)).mono
      (fun _ _ ends => ⟨ends.1, trivial⟩) fun _ _ halts => halts
  · exact traces_program ordinary closed context expressions p.span

theorem traces_runProgram (ordinary : host.Ordinary) (closed : m.Closed) (context : Context)
    {p : Program} (expressions : Node.AreExpressions p.body) :
    Traces host context p.toNode.order (runProgram host context p) m fun _ _ => True := by
  refine .step rfl (.noted m rfl) (.bind_pure ?_ fun _ _ holds => holds)
  refine traces_program ordinary ?_ context expressions p.span
  exact closed.aside rfl rfl

end EvalM

end SceneScript
