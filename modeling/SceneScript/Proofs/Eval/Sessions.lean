import SceneScript.Proofs.Eval.Foundation

/-!
Sessions: programs that run one after the other in one context, each to its end or to a fault. At
every point of a session lists are made after their elements and contexts are at most one call away
from the session's own, so printing a value and rendering a traceback come to an end.
-/

namespace SceneScript

namespace EvalM

variable {host : Host} {scene : SceneHost} {context : Context} {m : Machine}

/-- The machines between the programs of a session. The host has opened a context for whole programs
    and, if it runs them further inside, tables for that. -/
inductive Session (scene : SceneHost) (context : Context) : Machine → Prop
  | opened {builtins : List Builtin} (known : builtins ⊆ Builtin.scene) :
      Session scene context (Machine.initial.programContext builtins).2
  | table {m : Machine} (parent : Option TableId) (before : Session scene context m) :
      Session scene context (m.newTable parent).2
  | ran {m : Machine} {f : FrontEnd} {origin : Origin} {p : Program}
      (parsed : f.parse origin = .ok p) (before : Session scene context m) :
      Session scene context ((runProgram scene context p).after m)

/-- The machines at all points of a session: between its programs, between two steps of one of them,
    and in a call of which the first arguments are bound. -/
inductive Reached (scene : SceneHost) (context : Context) : Machine → Prop
  | between {m : Machine} (session : Session scene context m) : Reached scene context m
  | during {m : Machine} {f : FrontEnd} {origin : Origin} {p : Program} {past : List Step}
      (session : Session scene context m) (parsed : f.parse origin = .ok p)
      (starts : past <+: course scene context p m) :
      Reached scene context (arrival scene context m past)
  | calling {m m' : Machine} {f : FrontEnd} {origin : Origin} {p : Program} {s : Step}
      {callee : Ref} {args : List Ref} {b : Builtin}
      (session : Session scene context m) (parsed : f.parse origin = .ok p)
      (member : s ∈ course scene context p m) (deed : s.deed = .call callee args)
      (called : (s.before.cell callee).content = .builtin b) (n : Nat)
      (bound : (bindArguments ((s.before.cell callee).stamp.context.call b.name
        (s.before.cell callee).stamp.span.start) (b.params.take n) args).run s.before = .ok () m') :
      Reached scene context m'

theorem founded_arrival {f : FrontEnd} {origin : Origin} {p : Program} {past : List Step}
    (parsed : f.parse origin = .ok p) (founded : m.Founded context)
    (starts : past <+: course scene context p m) :
    (arrival scene context m past).Founded context :=
  (((tells_watchProgram scene context p).leads m).front starts).induct founded
    fun s member _ => (grounded_course parsed founded s (starts.subset member)).after

theorem Session.founded (session : Session scene context m) : m.Founded context := by
  induction session with
  | opened known => exact .programContext context known
  | table parent _ ih => exact ih.newTable parent
  | @ran m f origin p parsed _ ih =>
    rw [((tells_watchProgram scene context p).leads m).eq_arrival]
    exact founded_arrival parsed ih List.prefix_rfl

theorem Reached.founded (reached : Reached scene context m) : m.Founded context := by
  cases reached with
  | between session => exact session.founded
  | during session parsed starts => exact founded_arrival parsed session.founded starts
  | @calling m m' f origin p s callee args b session parsed member deed called n bound =>
    obtain ⟨founded, grounded⟩ := grounded_course parsed session.founded s member
    rw [deed] at grounded
    have known := (founded.cell callee).regular
    rw [called] at known
    rw [grounded b called] at bound
    exact (founds_bindArguments (.call known _) founded _ args).of_ok bound

/-- A fault is reported in a context with at most one more activation. -/
theorem ReportedIn.length_le {nodes : List Node} {fault : RuntimeFault}
    (reported : ReportedIn host context nodes (.runtime fault)) :
    ∃ c, fault.context = some c ∧ c.activations.length ≤ context.activations.length + 1 := by
  cases reported with
  | here inside => exact ⟨context, inside, Nat.le_succ _⟩
  | within member entered failed inside =>
    exact ⟨_, entered.inside ▸ inside, Nat.le_refl _⟩

theorem reports_runProgram (honest : host.KeepsValues) (inside : host.FailsInside)
    (context : Context) {p : Program} (expressions : Node.AreExpressions p.body) (m : Machine) :
    Reports host context p.toNode.order (runProgram host context p) m fun _ _ => True :=
  .record fun _ => (reports_program honest inside context expressions).bind fun _ _ _ => trivial

/-- At every point of every session, each list was made after its elements, so that none contains
    itself at any depth, and whatever is stored exists. Each value belongs to the context of the
    session, to a builtin of the language or of scenes called directly in it, or to none, so that
    its chain of callers has at most one activation more than that of the context. Hence each value
    amounts to a finite datum, whose text is what printing shows; and each traceback, of a value as
    of the fault that ends a program, comes to an end. -/
theorem reachable_values_are_well_founded (reached : Reached scene context m) :
    (∀ r s, m.IsElement s r → s < r) ∧ (∀ r, ¬ Relation.TransGen m.IsElement r r) ∧
    (∀ r, m.Held r → r < m.cells.size) ∧
    (∀ r < m.cells.size, context.Owns (m.cell r).stamp.context ∧
      (m.cell r).stamp.context.activations.length ≤ context.activations.length + 1) ∧
    (∀ r < m.cells.size, ∃ d, m.Stands r d ∧ (m.view r).display? = some d.display) ∧
    (∀ r < m.cells.size, ∀ place,
      (m.cell r).stamp.context.UnwindsWithin (context.activations.length + 1) place) ∧
    ∀ (f : FrontEnd) (origin : Origin) (p : Program) (fault : RuntimeFault),
      f.parse origin = .ok p → (runProgram scene context p).fault? m = some fault →
      ∃ c, fault.context = some c ∧
        c.UnwindsWithin (context.activations.length + 1) fault.span.start := by
  have founded := reached.founded
  have older (r s : Ref) (element : m.IsElement s r) : s < r := (founded.cell r).older s element
  have there (r : Ref) (held : m.Held r) : r < m.cells.size := (founded.closed.held r held).1
  have short (r : Ref) := (founded.cell r).owned.length_le
  refine ⟨older, founded.acyclic, there, fun r _ => ⟨(founded.cell r).owned, short r⟩,
    fun r existed => ?_, fun r _ place => Context.unwindsWithin (short r) place,
    fun f origin p fault parsed failed => ?_⟩
  · obtain ⟨d, stands⟩ := founded.stands existed
    exact ⟨d, stands, stands.display_view⟩
  · obtain ⟨m', ended⟩ := fault?_eq_some_iff.mp failed
    have reports := reports_runProgram scene.keepsValues scene.failsInside context
      (f.areExpressions_of_parse parsed) m
    have reported : ReportedIn _ _ _ _ := Ends.of_error reports ended
    obtain ⟨c, own, short⟩ := reported.length_le
    exact ⟨c, own, Context.unwindsWithin short _⟩

/-- Stops at an element that there is not, with the list bound. -/
def shortList : Origin := ⟨"short", "let a = append(['x'], print); get(a, 2);"⟩

/-- Continues the list that was left behind with itself. -/
def nestedList : Origin := ⟨"nested", "let a = append(a, a);"⟩

/-- The fault of the first text does not keep the second one from what the first one has bound. -/
theorem nested_list_is_well_founded : ∃ p q m r,
    FrontEnd.precedence.parse shortList = .ok p ∧ FrontEnd.precedence.parse nestedList = .ok q ∧
    Reached (.recording .none) (.top "<program>" 1) m ∧ m.lookup 1 "a" = some r ∧
    ¬ Relation.TransGen m.IsElement r r ∧
    (Context.top "<program>" 1).Owns (m.cell r).stamp.context ∧
    ∃ d, m.Stands r d ∧ d.display = "[x, [function print], [x, [function print]]]" := by
  obtain ⟨p, parsed⟩ : ∃ p, FrontEnd.precedence.parse shortList = .ok p :=
    FrontEnd.exists_of_toBool (by decide +kernel)
  obtain ⟨q, parsed'⟩ : ∃ q, FrontEnd.precedence.parse nestedList = .ok q :=
    FrontEnd.exists_of_toBool (by decide +kernel)
  have shown : ((FrontEnd.precedence.parse shortList).toOption.bind fun p =>
      (FrontEnd.precedence.parse nestedList).toOption.bind fun q =>
        let m := (runProgram (SceneHost.recording .none) (.top "<program>" 1) q).after
          ((runProgram (SceneHost.recording .none) (.top "<program>" 1) p).after
            (Machine.initial.programContext Builtin.scene).2)
        (m.lookup 1 "a").bind fun r => (m.view r).display?) =
      some "[x, [function print], [x, [function print]]]" := by
    decide +kernel
  simp only [parsed, parsed', Except.toOption, Option.bind_some] at shown
  obtain ⟨r, found, shown⟩ := Option.bind_eq_some_iff.mp shown
  have session : Session (.recording .none) (.top "<program>" 1) _ :=
    .ran parsed' (.ran parsed (.opened (List.Subset.refl Builtin.scene)))
  obtain ⟨-, acyclic, there, owned, printed, -⟩ :=
    reachable_values_are_well_founded (.between session)
  have existed := there r (Machine.held_of_lookup found)
  obtain ⟨d, stands, text⟩ := printed r existed
  refine ⟨p, q, _, r, parsed, parsed', .between session, found, acyclic r, (owned r existed).1, d,
    stands, ?_⟩
  exact Option.some.inj (text.symm.trans shown)

end EvalM

end SceneScript
