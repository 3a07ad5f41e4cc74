import SceneScript.Proofs.Eval.Trace
import SceneScript.Proofs.Parse.Shape

/-!
Effects happen in the order of the text, each exactly once. Only builtins print or change the
scene; they are invoked at the calls of a program one after the other, up to the failing node.
-/

namespace SceneScript

/-- The places of the calls that the log tells of. -/
def Machine.sites (m : Machine) : List Span := m.invocations.map (·.2)

/-- No function of the host invokes builtins on its own. -/
def Host.InvokesNothing (host : Host) : Prop :=
  ∀ number site (m : Machine), ((host.call number site).after m).sites = m.sites

theorem SceneHost.invokesNothing (scene : SceneHost) : (scene : Host).InvokesNothing :=
  fun _ _ _ => rfl

theorem Node.callSites_cons (node : Node) (nodes : List Node) :
    callSites (node :: nodes) = node.callSite?.toList ++ callSites nodes := by
  unfold callSites
  cases site : node.callSite? with
  | none => rw [List.filterMap_cons_none site]; rfl
  | some span => rw [List.filterMap_cons_some site]; rfl

theorem Node.callSite?_of_assigned? {node : Node} {name : Name}
    (named : node.assigned? = some name) : node.callSite? = none := by
  cases node <;> first | rfl | cases named

namespace EvalM

variable {host : Host} {context : Context} {m m' m'' : Machine}

/-- Builtins are invoked with success at these places, one after the other, and nothing else
    prints or changes the scene. -/
inductive Invokes (host : Host) : List Span → Machine → Machine → Prop
  | nil {m m' : Machine} (output : m'.output = m.output) (scene : m'.scene = m.scene) :
      Invokes host [] m m'
  | cons {m m₁ m₂ m' : Machine} {b : Builtin} {site : Site} {spans : List Span} {r : Ref}
      (output : m₁.output = m.output) (scene : m₁.scene = m.scene)
      (ran : (perform host site b).run m₁ = .ok r m₂) (others : Invokes host spans m₂ m') :
      Invokes host (site.span :: spans) m m'

/-- The end of a run that fails at a node, with the places of the calls made for the node itself. A
    builtin that fails has no effect of its own, unless it is the host's own code. -/
inductive Interrupts (host : Host) (e : Failure) (node : Node) (m : Machine) :
    List Span → Machine → Prop
  | before {m' : Machine} (output : m'.output = m.output) (scene : m'.scene = m.scene) :
      Interrupts host e node m [] m'
  | within {b : Builtin} {site : Site} {m₁ m' : Machine}
      (placed : node.callSite? = some site.span) (output : m₁.output = m.output)
      (scene : m₁.scene = m.scene) (failed : (perform host site b).run m₁ = .error e m')
      (clean : b.isForeign = false → m'.output = m.output ∧ m'.scene = m.scene) :
      Interrupts host e node m [site.span] m'
  | behind {span : Span} {m' : Machine} (placed : node.callSite? = some span)
      (invokes : Invokes host [span] m m') (reason : e = .uncopyable) :
      Interrupts host e node m [span] m'

theorem Invokes.after {spans : List Span} (output : m'.output = m.output)
    (scene : m'.scene = m.scene) (invokes : Invokes host spans m' m'') :
    Invokes host spans m m'' := by
  cases invokes with
  | nil output' scene' => exact .nil (output'.trans output) (scene'.trans scene)
  | cons output' scene' ran others =>
    exact .cons (output'.trans output) (scene'.trans scene) ran others

theorem Invokes.append {first second : List Span} (invokes : Invokes host first m m')
    (others : Invokes host second m' m'') : Invokes host (first ++ second) m m'' := by
  induction invokes with
  | nil output scene => exact others.after output scene
  | cons output scene ran _ ih => exact .cons output scene ran (ih others)

/-- Binding arguments neither prints nor changes the scene or the log. -/
theorem aside_of_bindArguments {context : Context} {params : List String} {args : List Ref}
    (bound : (bindArguments context params args).run m = .ok () m') :
    m'.output = m.output ∧ m'.scene = m.scene ∧ m'.events = m.events := by
  induction params generalizing m args with
  | nil =>
    cases bound
    exact ⟨rfl, rfl, rfl⟩
  | cons param params ih =>
    cases args with
    | nil =>
      cases bound
      exact ⟨rfl, rfl, rfl⟩
    | cons arg args =>
      rw [run_bindArguments_cons] at bound
      split at bound
      · cases bound
      · have later := ih bound
        exact later

namespace Entered

variable {span : Span} {b : Builtin} {site : Site}

theorem aside (entered : Entered context span b site m m') :
    m'.output = m.output ∧ m'.scene = m.scene ∧
      m'.invocations = m.invocations ++ [(b, span)] := by
  obtain ⟨args, m₁, -, bound, rfl⟩ := entered.bound
  obtain ⟨output, scene, events⟩ := aside_of_bindArguments bound
  refine ⟨output, scene, ?_⟩
  simp [Machine.invocations, events, Event.invocation?]

end Entered

theorem Performed.sites (quiet : host.InvokesNothing) {site : Site} {b : Builtin}
    (performed : Performed host site m b m') : m'.sites = m.sites := by
  cases performed with
  | idle | printed | appended | accepted => rfl
  | answered name params reply built =>
    rw [Machine.sites, Machine.sites, Machine.invocations, built.aside.2.2]
    rfl
  | foreign name params number => exact quiet number site m

theorem Acts.sites (quiet : host.InvokesNothing) {node : Node}
    (acts : Acts host context m node m') : m'.sites = m.sites ++ node.callSite?.toList := by
  cases acts with
  | rests _ callless => simp [callless]
  | assigns named r =>
    rw [Node.callSite?_of_assigned? named, Option.toList_none, List.append_nil]
    rfl
  | @calls span b site r m₁ _ placed entered ran =>
    have performed : Performed host site m₁ b m' := Ends.of_ok (performs host site b m₁) ran
    rw [performed.sites quiet, placed]
    simp [Machine.sites, entered.aside.2.2]

theorem Acts.invokes {node : Node} (acts : Acts host context m node m') :
    Invokes host node.callSite?.toList m m' := by
  cases acts with
  | rests _ callless =>
    rw [callless]
    exact .nil rfl rfl
  | assigns named r =>
    rw [Node.callSite?_of_assigned? named]
    exact .nil rfl rfl
  | calls placed entered ran =>
    obtain ⟨output, scene, -⟩ := entered.aside
    rw [placed, ← entered.placed]
    exact .cons output scene ran (.nil rfl rfl)

namespace Does

variable {nodes : List Node}

theorem sites (quiet : host.InvokesNothing) (does : Does host context nodes m m') :
    m'.sites = m.sites ++ Node.callSites nodes := by
  induction does with
  | nil silent => simp [Machine.sites, silent.invocations, Node.callSites]
  | cons silent acts _ ih =>
    rw [ih, acts.sites quiet, Machine.sites, silent.invocations, Node.callSites_cons,
      List.append_assoc]
    rfl

theorem invokes (does : Does host context nodes m m') :
    Invokes host (Node.callSites nodes) m m' := by
  induction does with
  | nil silent => exact .nil silent.output silent.scene
  | cons silent acts _ ih =>
    rw [Node.callSites_cons]
    exact (acts.invokes.append ih).after silent.output silent.scene

end Does

theorem Stops.interrupts (quiet : host.InvokesNothing) {e : Failure} {node : Node}
    (stops : Stops host context e m node m') :
    ∃ own, Interrupts host e node m own m' ∧ m'.sites = m.sites ++ own ∧
      own <+: node.callSite?.toList := by
  cases stops with
  | before silent =>
    refine ⟨[], .before silent.output silent.scene, ?_, List.nil_prefix⟩
    simp [Machine.sites, silent.invocations]
  | @within span b site m₁ _ placed entered failed =>
    obtain ⟨performed, clean⟩ := Ends.of_error (performs host site b m₁) failed
    obtain ⟨output, scene, invocations⟩ := entered.aside
    rw [output, scene] at clean
    rw [← entered.placed] at placed invocations
    refine ⟨[site.span], .within placed output scene failed fun ours => ?_, ?_, ?_⟩
    · exact ⟨(clean ours).1, (clean ours).2.1⟩
    · rw [performed.sites quiet]
      simp [Machine.sites, invocations]
    · rw [placed]
      exact List.prefix_rfl
  | behind placed done reason =>
    have invokes := done.invokes
    have sites := done.sites quiet
    rw [Node.callSites_cons, placed] at invokes sites
    exact ⟨_, .behind placed invokes reason, sites, by rw [placed]; exact List.prefix_rfl⟩

/-- Builtins are invoked at the calls of a program in the order of evaluation, each at most once:
    at all of them if the run succeeds; if it fails at a node, then at those before the node and
    perhaps at the node itself. What the program has printed and the scene are the work of these
    invocations, without the failing one. -/
theorem effects_in_source_order {f : FrontEnd} {origin : Origin} {p : Program}
    (parsed : f.parse origin = .ok p) {host : Host} (ordinary : host.Ordinary)
    (quiet : host.InvokesNothing) (context : Context) {m : Machine} (closed : m.Closed) :
    (∃ invoked, ((runProgram host context p).after m).sites = m.sites ++ invoked ∧
      invoked <+: Node.callSites p.toNode.order) ∧
    (runProgram host context p).Ends m
      (fun _ m' => m'.sites = m.sites ++ Node.callSites p.toNode.order ∧
        Invokes host (Node.callSites p.toNode.order) m m')
      fun e m' => ∃ done failing rest own m₁, p.toNode.order = done ++ failing :: rest ∧
        (∃ m₀, (eval host context failing).run m₀ = .error e m') ∧
        Invokes host (Node.callSites done) m m₁ ∧ Interrupts host e failing m₁ own m' ∧
        m'.sites = m.sites ++ Node.callSites done ++ own := by
  have traces := traces_runProgram ordinary closed context (f.areExpressions_of_parse parsed)
  constructor
  · refine Ends.of_after (P := fun m' => ∃ invoked, m'.sites = m.sites ++ invoked ∧
      invoked <+: Node.callSites p.toNode.order) (traces.mono ?_ ?_)
    · rintro _ m' ⟨does, -⟩
      exact ⟨_, does.sites quiet, List.prefix_rfl⟩
    · rintro e m' ⟨done, failing, rest, m₁, split, does, stops, -⟩
      obtain ⟨own, -, sites, starts⟩ := stops.interrupts quiet
      rw [does.sites quiet, List.append_assoc] at sites
      refine ⟨_, sites, ?_⟩
      rw [split, Node.callSites_append, Node.callSites_cons]
      exact List.prefix_append_right_inj _ |>.mpr (starts.trans (List.prefix_append _ _))
  · refine traces.mono (fun _ m' ⟨does, _⟩ => ⟨does.sites quiet, does.invokes⟩) ?_
    rintro e m' ⟨done, failing, rest, m₁, split, does, stops, failed⟩
    obtain ⟨own, interrupts, sites, -⟩ := stops.interrupts quiet
    rw [does.sites quiet] at sites
    exact ⟨done, failing, rest, own, m₁, split, failed, does.invokes, interrupts, sites⟩

/-- The second call fails, since nothing is called `x`. -/
theorem effects_up_to_undefined : ∃ p m',
    FrontEnd.precedence.parse ⟨"order", "print(\"a\"); print(x);"⟩ = .ok p ∧
    (runProgram (SceneHost.recording .none) (.top "<program>" 1) p).after
      (Machine.initial.programContext []).2 = m' ∧
    m'.sites <+: Node.callSites p.toNode.order := by
  obtain ⟨p, parsed⟩ : ∃ p,
      FrontEnd.precedence.parse ⟨"order", "print(\"a\"); print(x);"⟩ = .ok p :=
    FrontEnd.exists_of_toBool (by decide +kernel)
  have closed := Machine.closed_programContext [] Machine.closed_initial (by decide)
  obtain ⟨invoked, sites, starts⟩ := (effects_in_source_order parsed (SceneHost.ordinary _)
    (SceneHost.invokesNothing (.recording .none)) (.top "<program>" 1) closed).1
  refine ⟨p, _, parsed, rfl, ?_⟩
  rw [sites]
  exact starts

end EvalM

end SceneScript
