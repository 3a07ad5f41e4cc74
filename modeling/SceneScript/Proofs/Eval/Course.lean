import SceneScript.Proofs.Eval.Secrecy
import SceneScript.Proofs.Node.Order

/-!
The course of an evaluation. Evaluation proceeds by steps: for one node after the other it does
something with the values that it has in hand. Every point of a run lies between two steps.
-/

namespace SceneScript

namespace EvalM

/-- What evaluation does for a node at one go. -/
inductive Deed where
  | note (e : Event)
  | readName (token : Token) (span : Span)
  | readNumber (token : Token) (span : Span)
  | readString (token : Token) (span : Span)
  | combine (op : Token) (left right : Ref) (span : Span)
  | apply (op : Token) (operand : Ref) (span : Span)
  | collect (elements : List Ref) (span : Span)
  | prepare (callee : Ref) (span : Span)
  | call (callee : Ref) (args : List Ref)
  | take (result : Ref) (span : Span)
  | assign (name : Token) (value : Ref)
  | conclude
  | stray

/-- Does it. A note has no value of its own and counts as null. -/
def Deed.run (host : Host) (context : Context) : Deed → EvalM Ref
  | .note e => do
    record e
    return Machine.constant .null
  | .readName token span => EvalM.readName context token span
  | .readNumber token span => do
    let x ← EvalM.readNumber token.value
    alloc (.number x) ⟨span, context⟩
  | .readString token span => alloc (.ofLiteral token.value) ⟨span, context⟩
  | .combine op left right span => EvalM.combine context op left right span
  | .apply op operand span => EvalM.apply context op operand span
  | .collect elements span => alloc (.list elements) ⟨span, context⟩
  | .prepare callee span => prepareCallee callee span
  | .call callee args => execute host callee args
  | .take result span => takeResult context result span
  | .assign name value => do
    let name ← nameOf name
    modify (·.bind context.table name value)
    return value
  | .conclude => clone (Machine.constant .null)
  | .stray => throw (.unexpectedNode "Node")

/-- Something that is done for a node, and the machine in which it is done. -/
structure Step where
  node : Node
  deed : Deed
  before : Machine

def Step.after (host : Host) (context : Context) (s : Step) : Machine :=
  (s.deed.run host context).after s.before

/-- An evaluation that tells its steps. -/
def Watched (α : Type) : Type := Machine → List Step × EStateM.Result Failure Machine α

instance : Monad Watched where
  pure a m := ([], .ok a m)
  bind x f m :=
    match (x m).2 with
    | .ok a m' => ((x m).1 ++ (f a m').1, (f a m').2)
    | .error e m' => ((x m).1, .error e m')

section Watch

variable (host : Host) (context : Context)

def step (node : Node) (deed : Deed) : Watched Ref :=
  fun m => ([⟨node, deed, m⟩], (deed.run host context).run m)

def visit (node : Node) : Watched Ref :=
  step host context node (.note (.visited node.kindName node.span.start))

mutual

def watch : Node → Watched Ref
  | node@(.program body _) => do
    let _ ← visit host context node
    let _ ← watchAll body
    step host context node .conclude
  | node@(.identifier token span) => do
    let _ ← visit host context node
    step host context node (.readName token span)
  | node@(.number token span) => do
    let _ ← visit host context node
    step host context node (.readNumber token span)
  | node@(.string token span) => do
    let _ ← visit host context node
    step host context node (.readString token span)
  | node@(.binary left op right span) => do
    let _ ← visit host context node
    let a ← watch left
    let b ← watch right
    step host context node (.combine op a b span)
  | node@(.unary op operand span) => do
    let _ ← visit host context node
    let a ← watch operand
    step host context node (.apply op a span)
  | node@(.list elements span) => do
    let _ ← visit host context node
    let refs ← watchAll elements
    step host context node (.collect refs span)
  | node@(.call callee args span) => do
    let _ ← visit host context node
    let function ← watch callee
    let function ← step host context node (.prepare function span)
    let refs ← watchAll args
    let result ← step host context node (.call function refs)
    step host context node (.take result span)
  | node@(.assign name value _) => do
    let _ ← visit host context node
    let r ← watch value
    step host context node (.assign name r)
  | node@(.blank _ _) => do
    let _ ← visit host context node
    step host context node .stray

def watchAll : List Node → Watched (List Ref)
  | [] => return []
  | node :: nodes => do
    let r ← watch node
    let rs ← watchAll nodes
    return r :: rs

end

def watchProgram (p : Program) : Watched Unit := do
  let _ ← step host context p.toNode (.note (.running p.span.start.file p.body.length))
  let _ ← watch host context p.toNode
  return ()

/-- The steps of the run of a program. -/
def course (p : Program) (m : Machine) : List Step := (watchProgram host context p m).1

end Watch

variable {α β : Type} {host : Host} {context : Context} {m m' m'' : Machine}

namespace Watched

variable {x : Watched α} {f : α → Watched β}

theorem bind_of_ok {a : α} (ran : (x m).2 = .ok a m') :
    (x >>= f) m = ((x m).1 ++ (f a m').1, (f a m').2) := by
  show (match (x m).2 with | .ok a m' => _ | .error e m' => _) = _
  rw [ran]

theorem bind_of_error {e : Failure} (ran : (x m).2 = .error e m') :
    (x >>= f) m = ((x m).1, .error e m') := by
  show (match (x m).2 with | .ok a m' => _ | .error e m' => _) = _
  rw [ran]

end Watched

/-- The steps lead from one machine to another, each from where the one before it led. -/
inductive Leads (host : Host) (context : Context) (m : Machine) : List Step → Machine → Prop
  | nil : Leads host context m [] m
  | snoc {past : List Step} {s : Step} (before : Leads host context m past s.before) :
      Leads host context m (past ++ [s]) (s.after host context)

/-- The machine to which steps lead from the given one. -/
def arrival (host : Host) (context : Context) (m : Machine) (past : List Step) : Machine :=
  (past.getLast?.map (·.after host context)).getD m

namespace Leads

variable {past later : List Step}

theorem eq_arrival (leads : Leads host context m past m') : m' = arrival host context m past := by
  cases leads with
  | nil => rfl
  | snoc => simp [arrival]

theorem append (first : Leads host context m past m') (second : Leads host context m' later m'') :
    Leads host context m (past ++ later) m'' := by
  induction second with
  | nil => rwa [List.append_nil]
  | snoc _ ih =>
    rw [← List.append_assoc]
    exact .snoc ih

theorem at_step {s : Step} (leads : Leads host context m (past ++ s :: later) m') :
    Leads host context m past s.before := by
  generalize whole : past ++ s :: later = steps at leads
  induction leads generalizing later with
  | nil => simp at whole
  | @snoc earlier last before ih =>
    rcases List.eq_nil_or_concat later with rfl | ⟨rest, final, rfl⟩
    · obtain ⟨rfl, same⟩ := List.append_inj' whole rfl
      cases same
      exact before
    · rw [List.concat_eq_append, ← List.cons_append, ← List.append_assoc] at whole
      exact ih (List.append_inj' whole rfl).1

theorem front (leads : Leads host context m later m') (starts : past <+: later) :
    Leads host context m past (arrival host context m past) := by
  obtain ⟨rest, rfl⟩ := starts
  cases rest with
  | nil =>
    rw [List.append_nil] at leads
    rwa [← leads.eq_arrival]
  | cons s rest =>
    have here := leads.at_step
    rwa [← here.eq_arrival]

theorem induct {P : Machine → Prop} (leads : Leads host context m past m') (start : P m)
    (keeps : ∀ s ∈ past, P s.before → P (s.after host context)) : P m' := by
  induction leads with
  | nil => exact start
  | @snoc past s _ ih =>
    refine keeps s (by simp) (ih fun t member holds => keeps t ?_ holds)
    exact List.mem_append_left _ member

end Leads

/-- The watched evaluation is the evaluation, and its steps are those that lead from the machine at
    the start to the one at the end. When a step fails, the evaluation ends with that failure. -/
structure Tells (host : Host) (context : Context) (x : Watched α) (y : EvalM α) : Prop where
  result : ∀ m, (x m).2 = y.run m
  leads : ∀ m, Leads host context m (x m).1 (y.after m)
  stops : ∀ m, ∀ s ∈ (x m).1, ∀ e m', (s.deed.run host context).run s.before = .error e m' →
    y.run m = .error e m'

namespace Tells

theorem pure (a : α) : Tells host context (Pure.pure a) (Pure.pure a) where
  result _ := rfl
  leads _ := .nil
  stops _ _ member := nomatch member

theorem step (node : Node) (deed : Deed) :
    Tells host context (EvalM.step host context node deed) (deed.run host context) where
  result _ := rfl
  leads m := @Leads.snoc host context m [] ⟨node, deed, m⟩ .nil
  stops m s member e m' failed := by
    cases List.mem_singleton.mp member
    exact failed

theorem bind {x : Watched α} {y : EvalM α} {f : α → Watched β} {g : α → EvalM β}
    (first : Tells host context x y) (next : ∀ a, Tells host context (f a) (g a)) :
    Tells host context (x >>= f) (y >>= g) := by
  have told (m : Machine) : ((x >>= f) m).2 = (y >>= g).run m ∧
      Leads host context m ((x >>= f) m).1 ((y >>= g).after m) ∧
      ∀ s ∈ ((x >>= f) m).1, ∀ e m', (s.deed.run host context).run s.before = .error e m' →
        (y >>= g).run m = .error e m' := by
    have leads := first.leads m
    have stops := first.stops m
    have result := first.result m
    unfold after at leads ⊢
    rw [run_bind]
    cases ran : y.run m with
    | error e m₁ =>
      rw [ran] at leads stops result
      rw [Watched.bind_of_error result]
      refine ⟨rfl, leads, fun s member e' m' failed => ?_⟩
      cases stops s member e' m' failed
      rfl
    | ok a m₁ =>
      rw [ran] at leads stops result
      rw [Watched.bind_of_ok result]
      refine ⟨(next a).result m₁, leads.append ((next a).leads m₁), fun s member e m' failed => ?_⟩
      rcases List.mem_append.mp member with earlier | later
      · cases stops s earlier e m' failed
      · exact (next a).stops m₁ s later e m' failed
  exact ⟨fun m => (told m).1, fun m => (told m).2.1, fun m => (told m).2.2⟩

theorem visit {node : Node} {e : Event} {f : Watched α} {g : EvalM α}
    (same : e = .visited node.kindName node.span.start) (next : Tells host context f g) :
    Tells host context (EvalM.visit host context node >>= fun _ => f)
      (record e >>= fun _ => g) := by
  subst same
  exact (Tells.step node _).bind fun _ => next

end Tells

mutual

theorem tells_watch (host : Host) (context : Context) (node : Node) :
    Tells host context (watch host context node) (eval host context node) := by
  cases node with
  | program body span =>
    rw [watch, eval]
    exact .visit rfl ((tells_watchAll host context body).bind fun _ => .step _ _)
  | identifier token span =>
    rw [watch, eval]
    exact .visit rfl (.step _ (.readName token span))
  | number token span =>
    rw [watch, eval]
    exact .visit rfl (.step _ (.readNumber token span))
  | string token span =>
    rw [watch, eval]
    exact .visit rfl (.step _ (.readString token span))
  | binary left op right span =>
    rw [watch, eval]
    exact .visit rfl ((tells_watch host context left).bind fun _ =>
      (tells_watch host context right).bind fun _ => .step _ (.combine op _ _ span))
  | unary op operand span =>
    rw [watch, eval]
    exact .visit rfl ((tells_watch host context operand).bind fun _ => .step _ (.apply op _ span))
  | list elements span =>
    rw [watch, eval]
    exact .visit rfl ((tells_watchAll host context elements).bind fun _ =>
      .step _ (.collect _ span))
  | call callee args span =>
    rw [watch, eval]
    exact .visit rfl ((tells_watch host context callee).bind fun _ =>
      (Tells.step _ (.prepare _ span)).bind fun _ =>
        (tells_watchAll host context args).bind fun _ =>
          (Tells.step _ (.call _ _)).bind fun _ => .step _ (.take _ span))
  | assign name value span =>
    rw [watch, eval]
    exact .visit rfl ((tells_watch host context value).bind fun _ => .step _ (.assign name _))
  | blank start stop =>
    rw [watch, eval]
    exact .visit rfl (.step _ .stray)

theorem tells_watchAll (host : Host) (context : Context) (nodes : List Node) :
    Tells host context (watchAll host context nodes) (evalAll host context nodes) := by
  cases nodes with
  | nil =>
    rw [watchAll, evalAll]
    exact .pure []
  | cons node nodes =>
    rw [watchAll, evalAll]
    exact (tells_watch host context node).bind fun _ =>
      (tells_watchAll host context nodes).bind fun _ => .pure _

end

/-- Watching a program changes nothing about its run. -/
theorem tells_watchProgram (host : Host) (context : Context) (p : Program) :
    Tells host context (watchProgram host context p) (runProgram host context p) :=
  (Tells.step _ (.note _)).bind fun _ => (tells_watch host context p.toNode).bind fun _ => .pure ()

end EvalM

end SceneScript
