import SceneScript.Proofs.Eval.Effects

/-!
Which variables evaluation can write: those of its own context only, and of them only the ones that
an assignment of the tree names and the parameters of the builtins that are invoked.
-/

namespace SceneScript

/-- The tables that exist stay as they are. -/
def Machine.KeepsTables (m m' : Machine) : Prop :=
  ∀ (id : TableId) (t : Table), m.tables[id]? = some t → m'.tables[id]? = some t

/-- No function of the host writes tables itself. -/
def Host.KeepsTables (host : Host) : Prop :=
  ∀ number site (m : Machine), m.KeepsTables ((host.call number site).after m)

/-- No function of the host strikes calls off the log. -/
def Host.KeepsLog (host : Host) : Prop :=
  ∀ number site (m : Machine), m.invocations <+: ((host.call number site).after m).invocations

theorem SceneHost.keepsTables (scene : SceneHost) : (scene : Host).KeepsTables :=
  fun _ _ _ _ _ there => there

theorem SceneHost.keepsLog (scene : SceneHost) : (scene : Host).KeepsLog :=
  fun _ _ _ => List.prefix_rfl

namespace Machine

variable {m m' m'' : Machine} {id : TableId} {written further : Name → Prop}

/-- Of the tables that exist, at most the given one has changed, and there only what is bound to
    the names that may be written. -/
structure Confines (id : TableId) (written : Name → Prop) (m m' : Machine) : Prop where
  others : ∀ (i : TableId) (t : Table), i ≠ id → m.tables[i]? = some t → m'.tables[i]? = some t
  own : ∀ t : Table, m.tables[id]? = some t → ∃ t' : Table, m'.tables[id]? = some t' ∧
    t'.parent = t.parent ∧ ∀ name, ¬ written name → t'.own? name = t.own? name

namespace Confines

theorem of_kept (kept : m.KeepsTables m') : m.Confines id written m' :=
  ⟨fun i t _ => kept i t, fun t there => ⟨t, kept id t there, rfl, fun _ _ => rfl⟩⟩

theorem trans (first : m.Confines id written m') (second : m'.Confines id further m'') :
    m.Confines id (fun name => written name ∨ further name) m'' where
  others i t differ there := second.others i t differ (first.others i t differ there)
  own t there := by
    obtain ⟨t₁, there₁, parent₁, kept₁⟩ := first.own t there
    obtain ⟨t₂, there₂, parent₂, kept₂⟩ := second.own t₁ there₁
    refine ⟨t₂, there₂, parent₂.trans parent₁, fun name unwritten => ?_⟩
    rw [not_or] at unwritten
    rw [kept₂ name unwritten.2, kept₁ name unwritten.1]

theorem mono (confines : m.Confines id written m') (more : ∀ name, written name → further name) :
    m.Confines id further m' where
  others := confines.others
  own t there := by
    obtain ⟨t', there', parent, kept⟩ := confines.own t there
    exact ⟨t', there', parent, fun name unwritten => kept name fun is => unwritten (more name is)⟩

theorem bind (m : Machine) (id : TableId) (name : Name) (r : Ref) :
    m.Confines id (· = name) (m.bind id name r) where
  others i t differ there := by
    rw [Machine.bind, Array.getElem?_modify, if_neg (Ne.symm differ)]
    exact there
  own t there := by
    refine ⟨t.bind name r, ?_, rfl, fun other differ => ?_⟩
    · rw [Machine.bind, Array.getElem?_modify, if_pos rfl, there]
      rfl
    · rw [Table.own?_bind, if_neg differ]

end Confines

end Machine

namespace EvalM

variable {host : Host} {context : Context} {m m' m'' : Machine}

/-- Evaluating the nodes may write the name, given the builtins that are invoked. -/
def Writable (nodes : List Node) (invoked : List (Builtin × Span)) (name : Name) : Prop :=
  (∃ node ∈ nodes, node.assigned? = some name) ∨
    ∃ b span, (b, span) ∈ invoked ∧ ∃ param ∈ b.params, name = .text param

/-- All that is written is writable. -/
def Writes (context : Context) (nodes : List Node) (m m' : Machine) : Prop :=
  ∃ invoked, m'.invocations = m.invocations ++ invoked ∧
    m.Confines context.table (Writable nodes invoked) m'

namespace Writes

variable {nodes others : List Node}

theorem of_kept (kept : m.KeepsTables m') (log : m.invocations <+: m'.invocations) :
    Writes context nodes m m' := by
  obtain ⟨invoked, log⟩ := log
  exact ⟨invoked, log.symm, .of_kept kept⟩

theorem append (first : Writes context nodes m m') (second : Writes context others m' m'') :
    Writes context (nodes ++ others) m m'' := by
  obtain ⟨invoked, log, confines⟩ := first
  obtain ⟨invoked', log', confines'⟩ := second
  refine ⟨invoked ++ invoked', ?_, (confines.trans confines').mono ?_⟩
  · rw [log', log, List.append_assoc]
  · rintro name ((⟨node, member, named⟩ | ⟨b, span, member, is⟩) |
      (⟨node, member, named⟩ | ⟨b, span, member, is⟩))
    · exact .inl ⟨node, List.mem_append_left _ member, named⟩
    · exact .inr ⟨b, span, List.mem_append_left _ member, is⟩
    · exact .inl ⟨node, List.mem_append_right _ member, named⟩
    · exact .inr ⟨b, span, List.mem_append_right _ member, is⟩

theorem of_silent (silent : m.Silent m') : Writes context nodes m m' := by
  refine of_kept (fun id t there => ?_) ⟨[], ?_⟩
  · rw [silent.tables]
    exact there
  · rw [silent.invocations, List.append_nil]

end Writes

theorem Performed.keeps (tables : host.KeepsTables) (log : host.KeepsLog) {site : Site}
    {b : Builtin} (performed : Performed host site m b m') :
    m.KeepsTables m' ∧ m.invocations <+: m'.invocations := by
  cases performed with
  | idle | printed | appended | accepted => exact ⟨fun _ _ there => there, List.prefix_rfl⟩
  | answered name params reply built =>
    refine ⟨fun id t there => ?_, ?_⟩
    · rw [(built.tables (Array.getElem?_eq_some_iff.mp there).1).2]
      exact there
    · have same : m'.invocations = m.invocations := by
        rw [Machine.invocations, Machine.invocations, built.aside.2.2]
      exact ⟨[], by rw [same, List.append_nil]⟩
  | foreign name params number => exact ⟨tables number site m, log number site m⟩

theorem confines_of_bindArguments {params : List String} {args : List Ref}
    (bound : (bindArguments context params args).run m = .ok () m') :
    m.Confines context.table (fun name => ∃ param ∈ params, name = .text param) m' := by
  induction params generalizing m args with
  | nil =>
    cases bound
    exact .of_kept fun _ _ there => there
  | cons param params ih =>
    cases args with
    | nil =>
      cases bound
      exact .of_kept fun _ _ there => there
    | cons arg args =>
      rw [run_bindArguments_cons] at bound
      split at bound
      · cases bound
      · have later := (Machine.Confines.bind _ context.table param _).trans (ih bound)
        refine Machine.Confines.mono ⟨later.others, later.own⟩ ?_
        rintro name (rfl | ⟨other, member, is⟩)
        · exact ⟨param, List.mem_cons_self, rfl⟩
        · exact ⟨other, List.mem_cons_of_mem _ member, is⟩

theorem Entered.writes {span : Span} {b : Builtin} {site : Site}
    (entered : Entered context span b site m m') : Writes context [] m m' := by
  refine ⟨[(b, span)], entered.aside.2.2, ?_⟩
  obtain ⟨args, m₁, -, bound, rfl⟩ := entered.bound
  rw [entered.inside] at bound
  have confines := confines_of_bindArguments bound
  refine Machine.Confines.mono ⟨confines.others, confines.own⟩ ?_
  rintro name is
  exact .inr ⟨b, span, List.mem_cons_self, is⟩

theorem Acts.writes (tables : host.KeepsTables) (log : host.KeepsLog) {node : Node}
    (acts : Acts host context m node m') : Writes context [node] m m' := by
  cases acts with
  | rests => exact .of_kept (fun _ _ there => there) List.prefix_rfl
  | assigns named r =>
    refine ⟨[], by rw [List.append_nil]; rfl, (Machine.Confines.bind m _ _ r).mono ?_⟩
    rintro name rfl
    exact .inl ⟨node, List.mem_singleton_self node, named⟩
  | @calls span b site r m₁ _ placed entered ran =>
    have performed : Performed host site m₁ b m' := Ends.of_ok (performs host site b m₁) ran
    obtain ⟨kept, grown⟩ := performed.keeps tables log
    exact entered.writes.append (.of_kept kept grown)

theorem Does.writes (tables : host.KeepsTables) (log : host.KeepsLog) {nodes : List Node}
    (does : Does host context nodes m m') : Writes context nodes m m' := by
  induction does with
  | nil silent => exact .of_silent silent
  | cons silent acts _ ih =>
    have first : Writes context [] _ _ := .of_silent silent
    exact first.append ((acts.writes tables log).append ih)

theorem Stops.writes (tables : host.KeepsTables) (log : host.KeepsLog) {e : Failure} {node : Node}
    (stops : Stops host context e m node m') : Writes context [node] m m' := by
  cases stops with
  | before silent => exact .of_silent silent
  | @within span b site m₁ _ placed entered failed =>
    obtain ⟨performed, -⟩ := Ends.of_error (performs host site b m₁) failed
    obtain ⟨kept, grown⟩ := performed.keeps tables log
    exact entered.writes.append (.of_kept kept grown)
  | behind _ done _ => exact done.writes tables log

theorem Traces.writes {α : Type} (tables : host.KeepsTables) (log : host.KeepsLog)
    {nodes : List Node} {x : EvalM α} {P : α → Machine → Prop}
    (traces : Traces host context nodes x m P) : Writes context nodes m (x.after m) := by
  refine Ends.of_after (traces.mono (fun _ _ ends => ends.1.writes tables log) ?_)
  rintro e m' ⟨done, failing, rest, m₁, rfl, does, stops, -⟩
  obtain ⟨invoked, log, confines⟩ := (does.writes tables log).append (stops.writes tables log)
  refine ⟨invoked, log, confines.mono fun name => .imp_left ?_⟩
  rintro ⟨node, member, named⟩
  refine ⟨node, ?_, named⟩
  rw [List.append_cons]
  exact List.mem_append_left _ member

/-- Evaluating a program or a part of one writes no table but that of its context, however it ends.
    There, a name is bound to the same value as before or still unbound, unless an assignment in
    the tree or a parameter of a builtin that was invoked has the name. A call with a wrong number
    of arguments changes nothing at all. -/
theorem evaluation_confines_writes {f : FrontEnd} {origin : Origin} {p : Program}
    (parsed : f.parse origin = .ok p) {node : Node} (inside : node ∈ p.toNode.order) {host : Host}
    (ordinary : host.Ordinary) (tables : host.KeepsTables) (log : host.KeepsLog)
    (context : Context) {m m' : Machine} (closed : m.Closed)
    (evaluated : m' = (eval host context node).after m) :
    (∀ id t, id ≠ context.table → m.tables[id]? = some t → m'.tables[id]? = some t) ∧
    (∃ invoked, m'.invocations = m.invocations ++ invoked ∧
      ∀ t, m.tables[context.table]? = some t →
        ∃ t', m'.tables[context.table]? = some t' ∧ t'.parent = t.parent ∧
          ∀ name, (∀ part ∈ node.order, part.assigned? ≠ some name) →
            (∀ b span, (b, span) ∈ invoked → ∀ param ∈ b.params, name ≠ .text param) →
            t'.own? name = t.own? name) ∧
    ∀ (m : Machine) callee args b stamp, m.cells[callee]? = some ⟨.builtin b, stamp⟩ →
      args.length ≠ b.params.length →
      ∃ fault, (execute host callee args).run m = .error (.runtime fault) m := by
  have traces := traces_part ordinary closed context (f.areExpressions_of_parse parsed) inside
  obtain ⟨invoked, invocations, confines⟩ := traces.writes tables log
  rw [← evaluated] at invocations confines
  refine ⟨confines.others, ⟨invoked, invocations, fun t there => ?_⟩, ?_⟩
  · obtain ⟨t', there', parent, kept⟩ := confines.own t there
    refine ⟨t', there', parent, fun name unassigned unbound => kept name ?_⟩
    rintro (⟨part, member, named⟩ | ⟨b, span, member, param, listed, is⟩)
    · exact unassigned part member named
    · exact unbound b span member param listed is
  · intro m callee args b stamp there count
    refine run_execute_refused host there fun other is => ?_
    cases is
    exact count

theorem printing_keeps_other_tables : ∃ p, FrontEnd.precedence.parse
    ⟨"names", "let a = \"x\"; print(a);"⟩ = .ok p ∧
    ∀ id t, id ≠ 1 → (Machine.initial.programContext []).2.tables[id]? = some t →
      ((eval (SceneHost.recording .none) (.top "<program>" 1) p.toNode).after
        (Machine.initial.programContext []).2).tables[id]? = some t := by
  obtain ⟨p, parsed⟩ : ∃ p,
      FrontEnd.precedence.parse ⟨"names", "let a = \"x\"; print(a);"⟩ = .ok p :=
    FrontEnd.exists_of_toBool (by decide +kernel)
  have closed := Machine.closed_programContext [] Machine.closed_initial (by decide)
  exact ⟨p, parsed, (evaluation_confines_writes parsed (Node.mem_order_self _)
    (SceneHost.ordinary (.recording .none)) (SceneHost.keepsTables _) (SceneHost.keepsLog _)
    (.top "<program>" 1) closed rfl).1⟩

end EvalM

end SceneScript
