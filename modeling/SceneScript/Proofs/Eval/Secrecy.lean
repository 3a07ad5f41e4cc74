import SceneScript.Proofs.Eval.Performance

/-!
Evaluation lets no secret out: a value that nothing holds stays as it is and unheld.
-/

namespace SceneScript

/-- What a function of the host can do to values: it gets at one only through what holds it or as
    the one that is called, and it makes none vanish or impossible to copy. -/
structure Host.Ordinary (host : Host) : Prop where
  kept : ∀ number site (m : Machine) (secret : Ref → Option Cell), m.Sealed secret →
    secret site.callee = none → ((host.call number site).after m).Sealed secret
  firm : ∀ number site (m : Machine) (r : Ref), r < m.cells.size →
    r < ((host.call number site).after m).cells.size ∧ ((m.cell r).content ≠ .plain →
      (((host.call number site).after m).cell r).content ≠ .plain)

theorem SceneHost.ordinary (scene : SceneHost) : (scene : Host).Ordinary where
  kept _ _ _ _ kept _ := kept
  firm _ _ _ _ existed := ⟨existed, id⟩

namespace Machine

variable {m m' m'' : Machine} {secret : Ref → Option Cell} {old : Array Cell} {r : Ref}

/-- The secrets are kept, and the values in the old cells can still be copied if they could. -/
structure Guards (secret : Ref → Option Cell) (old : Array Cell) (m : Machine) : Prop where
  kept : m.Sealed secret
  firm : ∀ (r : Ref) (c : Cell), old[r]? = some c →
    ∃ d : Cell, m.cells[r]? = some d ∧ (c.content ≠ .plain → d.content ≠ .plain)

/-- The value was made since there were `n` cells and can be copied. -/
structure Newer (n : Nat) (m : Machine) (r : Ref) : Prop where
  low : n ≤ r
  there : ∃ c : Cell, m.cells[r]? = some c ∧ c.content ≠ .plain

namespace Guards

theorem size_le (guards : m.Guards secret old) : old.size ≤ m.cells.size := by
  by_cases empty : old.size = 0
  · omega
  · have last : old.size - 1 < old.size := by omega
    obtain ⟨d, there, -⟩ := guards.firm _ _ (Array.getElem?_eq_getElem last)
    have within := (Array.getElem?_eq_some_iff.mp there).1
    omega

theorem of_cells (kept : m'.Sealed secret)
    (same : ∀ (r : Ref) (c : Cell), m.cells[r]? = some c → m'.cells[r]? = some c) :
    m'.Guards secret m.cells :=
  ⟨kept, fun r c there => ⟨c, same r c there, id⟩⟩

theorem refl (kept : m.Sealed secret) : m.Guards secret m.cells := .of_cells kept fun _ _ => id

theorem trans (first : m.Guards secret old) (second : m'.Guards secret m.cells) :
    m'.Guards secret old := by
  refine ⟨second.kept, fun r c there => ?_⟩
  obtain ⟨d, later, firm⟩ := first.firm r c there
  obtain ⟨e, last, firmer⟩ := second.firm r d later
  exact ⟨e, last, firmer ∘ firm⟩

theorem alloc (kept : m.Sealed secret) {c : Cell}
    (known : ∀ s ∈ c.content.elements, s < m.cells.size ∧ secret s = none) :
    (m.alloc c).2.Guards secret m.cells := by
  exact .of_cells (kept.alloc known) fun r d there => getElem?_alloc_of_there there c

theorem place (kept : m.Sealed secret) (known : secret r = none) (span : Span) :
    (m.place r span).Guards secret m.cells := by
  refine ⟨kept.modify known fun _ => rfl, fun s c there => ?_⟩
  rw [Machine.place, Array.getElem?_modify, there]
  split
  · exact ⟨_, rfl, id⟩
  · exact ⟨_, rfl, id⟩

end Guards

namespace Newer

theorem high {n : Nat} (newer : m.Newer n r) : r < m.cells.size := by
  obtain ⟨c, there, -⟩ := newer.there
  exact (Array.getElem?_eq_some_iff.mp there).1

theorem alloc (m : Machine) {c : Cell} (firm : c.content ≠ .plain) :
    (m.alloc c).2.Newer m.cells.size m.cells.size :=
  ⟨Nat.le_refl _, c, getElem?_alloc_self m c, firm⟩

theorem later {n : Nat} (newer : m.Newer n r) (second : m'.Guards secret m.cells) :
    m'.Newer n r := by
  obtain ⟨c, there, firm⟩ := newer.there
  obtain ⟨d, still, firmer⟩ := second.firm r c there
  exact ⟨newer.low, d, still, firmer firm⟩

theorem earlier (first : m.Guards secret old) (newer : m'.Newer m.cells.size r) :
    m'.Newer old.size r := ⟨Nat.le_trans first.size_le newer.low, newer.there⟩

theorem known (newer : m'.Newer m.cells.size r) (kept : m.Sealed secret) :
    r < m'.cells.size ∧ secret r = none := ⟨newer.high, kept.secret_eq_none newer.low⟩

end Newer

end Machine

namespace EvalM

variable {α β : Type} {m : Machine} {secret : Ref → Option Cell} {host : Host}

/-- Whatever happens, the secrets are kept, and the result is as described. -/
def Guards (secret : Ref → Option Cell) (x : EvalM α) (m : Machine)
    (result : α → Machine → Prop) : Prop :=
  x.Ends m (fun a m' => m'.Guards secret m.cells ∧ result a m')
    fun _ m' => m'.Guards secret m.cells

namespace Guards

variable {x : EvalM α} {P : α → Machine → Prop}

theorem bind {f : α → EvalM β} {Q : β → Machine → Prop} (first : x.Guards secret m P)
    (second : ∀ a m', m'.Guards secret m.cells → P a m' → (f a).Guards secret m' Q) :
    (x >>= f).Guards secret m Q := by
  refine Ends.bind first fun a m' ends => ?_
  exact (second a m' ends.1 ends.2).mono (fun _ _ later => ⟨ends.1.trans later.1, later.2⟩)
    fun _ _ later => ends.1.trans later

theorem pure {a : α} (kept : m.Sealed secret) (holds : P a m) :
    (Pure.pure a : EvalM α).Guards secret m P := ⟨.refl kept, holds⟩

theorem throw {e : Failure} (kept : m.Sealed secret) :
    (MonadExcept.throw e : EvalM α).Guards secret m P := .refl kept

theorem mono {Q : α → Machine → Prop} (guards : x.Guards secret m P)
    (more : ∀ a m', m'.Guards secret m.cells → P a m' → Q a m') : x.Guards secret m Q :=
  Ends.mono guards (fun a m' ends => ⟨ends.1, more a m' ends.1 ends.2⟩) fun _ _ ends => ends

theorem cell_bind {r : Ref} {f : Cell → EvalM α} (next : (f (m.cell r)).Guards secret m P) :
    (cell r >>= f).Guards secret m P := next

/-- What does not touch cells and tables keeps the secrets. -/
theorem aside (kept : m.Sealed secret) {f : Machine → Machine} {g : Unit → EvalM α}
    (cells : (f m).cells = m.cells) (tables : (f m).tables = m.tables)
    (next : (f m).Sealed secret → (g ()).Guards secret (f m) P) :
    (modify f >>= g).Guards secret m P := by
  have moved : (f m).Guards secret m.cells :=
    .of_cells (kept.aside cells tables) fun r c there => by rw [cells]; exact there
  exact Ends.mono (next moved.kept) (fun _ _ later => ⟨moved.trans later.1, later.2⟩)
    fun _ _ later => moved.trans later

theorem of_makes {x : EvalM Ref} {P : Except Failure Cell → Prop} (makes : x.Makes m P)
    (kept : m.Sealed secret)
    (known : ∀ c, P (.ok c) → c.content ≠ .plain ∧
      ∀ s ∈ c.content.elements, s < m.cells.size ∧ secret s = none) :
    x.Guards secret m fun r m' => m'.Newer m.cells.size r := by
  refine makes.ends.mono ?_ ?_
  · rintro _ _ ⟨rfl, c, holds, rfl⟩
    exact ⟨.alloc kept (known c holds).2, .alloc m (known c holds).1⟩
  · rintro _ _ ⟨rfl, -⟩
    exact .refl kept

theorem from_moved {old : Array Cell} (moved : m.Guards secret old) (later : x.Guards secret m P) :
    x.Ends m (fun a m' => m'.Guards secret old ∧ P a m') fun _ m' => m'.Guards secret old :=
  Ends.mono later (fun _ _ ends => ⟨moved.trans ends.1, ends.2⟩) fun _ _ ends => moved.trans ends

end Guards

theorem Performed.guards (ordinary : host.Ordinary) {site : Site} {b : Builtin}
    {m' : Machine} (kept : m.Sealed secret) (unsealed : secret site.callee = none)
    (performed : Performed host site m b m') : m'.Guards secret m.cells := by
  cases performed with
  | idle => exact .refl kept
  | printed text => exact .of_cells (kept.aside rfl rfl) fun _ _ => id
  | appended known => exact .alloc kept fun s member => kept.held s (known s member)
  | accepted known r => exact .of_cells (kept.aside rfl rfl) fun _ _ => id
  | @answered name params reply calls _ built =>
    have noted : Machine.Sealed secret { m with calls := calls } := kept.aside rfl rfl
    exact .of_cells (built.sealed noted) fun _ _ there => built.getElem? there
  | foreign name params number =>
    refine ⟨ordinary.kept number site m secret kept unsealed, fun r c there => ?_⟩
    obtain ⟨still, firm⟩ := ordinary.firm number site m r (Array.getElem?_eq_some_iff.mp there).1
    rw [Machine.cell_of_getElem? there] at firm
    exact ⟨_, Machine.getElem?_of_lt still, firm⟩

theorem guards_perform (ordinary : host.Ordinary) (kept : m.Sealed secret) (site : Site)
    (unsealed : secret site.callee = none) (b : Builtin) :
    (perform host site b).Guards secret m fun _ _ => True :=
  Ends.mono (performs host site b m)
    (fun _ _ performed => ⟨performed.guards ordinary kept unsealed, trivial⟩)
    fun _ _ ends => ends.1.guards ordinary kept unsealed

theorem guards_bindArguments (kept : m.Sealed secret) (context : Context) (params : List String)
    (args : List Ref) : (bindArguments context params args).Guards secret m fun _ _ => True := by
  induction params generalizing m args with
  | nil => exact .pure kept trivial
  | cons param params ih =>
    cases args with
    | nil => exact .pure kept trivial
    | cons arg args =>
      unfold Guards Ends
      rw [run_bindArguments_cons]
      cases copy : (m.cell arg).copied with
      | error e => exact .refl kept
      | ok c =>
        obtain ⟨rfl, firm⟩ := Cell.copied_eq_ok copy
        let copy : Cell := ⟨(m.cell arg).content, ⟨(m.cell arg).stamp.span, context⟩⟩
        have new := Machine.Newer.alloc m (c := copy) firm
        have made := Machine.Guards.alloc kept (c := copy) (kept.elements arg)
        have bound := made.kept.bind (new.known kept) context.table param
        exact Guards.from_moved ⟨bound, made.firm⟩ (ih bound args)

theorem guards_execute (ordinary : host.Ordinary) (kept : m.Sealed secret) {callee : Ref}
    (unsealed : secret callee = none) (args : List Ref) :
    (execute host callee args).Guards secret m fun _ _ => True := by
  apply Guards.cell_bind
  split
  · split
    · exact .throw kept
    · split
      · exact .throw kept
      · refine (guards_bindArguments kept _ _ args).bind fun _ m₁ moved _ => ?_
        refine .aside moved.kept rfl rfl fun kept => ?_
        exact guards_perform ordinary kept ⟨_, _, callee⟩ unsealed _
  · exact .throw kept

theorem guards_alloc (kept : m.Sealed secret) {content : Content}
    (firm : content ≠ .plain)
    (known : ∀ s ∈ content.elements, s < m.cells.size ∧ secret s = none) (stamp : Stamp) :
    (alloc content stamp).Guards secret m fun r m' => m'.Newer m.cells.size r :=
  ⟨.alloc kept known, .alloc m firm⟩

theorem guards_clone (kept : m.Sealed secret) (r : Ref) :
    (clone r).Guards secret m fun s m' => m'.Newer m.cells.size s := by
  refine .of_makes (.of_run (run_clone r m)) kept fun c made => ?_
  obtain ⟨rfl, firm⟩ := Cell.copied_eq_ok made.symm
  exact ⟨firm, kept.elements r⟩

theorem guards_readName (kept : m.Sealed secret) (context : Context) (token : Token)
    (span : Span) : (readName context token span).Guards secret m
      fun r m' => m'.Newer m.cells.size r := by
  refine .of_makes (.of_run (run_readName context token span m)) kept fun c made => ?_
  obtain ⟨-, firm, r, content⟩ := content_of_readOutcome made.symm
  refine ⟨firm, ?_⟩
  rw [content]
  exact kept.elements r

theorem guards_prepareCallee (kept : m.Sealed secret) (callee : Ref) (span : Span) :
    (prepareCallee callee span).Guards secret m fun r m' => m'.Newer m.cells.size r := by
  refine .of_makes (.of_run (run_prepareCallee callee span m)) kept fun c made => ?_
  obtain ⟨rfl, firm⟩ := Cell.map_copied_eq_ok made.symm
  exact ⟨firm, kept.elements callee⟩

theorem guards_takeResult (kept : m.Sealed secret) (context : Context) (result : Ref)
    (span : Span) :
    (takeResult context result span).Guards secret m fun r m' => m'.Newer m.cells.size r := by
  refine .of_makes (.of_run (run_takeResult context result span m)) kept fun c made => ?_
  obtain ⟨rfl, firm⟩ := Cell.map_copied_eq_ok made.symm
  exact ⟨firm, kept.elements result⟩

theorem guards_combine (kept : m.Sealed secret) (context : Context) (op : Token)
    (left right : Ref) (span : Span) :
    (combine context op left right span).Guards secret m fun r m' => m'.Newer m.cells.size r := by
  refine .of_makes (makes_combine context op left right span m) kept fun c combined => ?_
  obtain ⟨_, d, ⟨context, inert, firm, elements⟩, rfl⟩ := combined.of_ok
  refine ⟨firm, fun s member => ?_⟩
  exact (elements s member).elim (kept.elements left s) (kept.elements right s)

theorem guards_apply (kept : m.Sealed secret) (context : Context) (op : Token) {operand : Ref}
    (known : operand < m.cells.size ∧ secret operand = none) (span : Span) :
    (apply context op operand span).Guards secret m
      fun r m' => r = operand ∨ m'.Newer m.cells.size r := by
  have made {m : Machine} (kept : m.Sealed secret) (y : Float) (stamp : Stamp) :
      (m.alloc ⟨.number y, stamp⟩).2.Guards secret m.cells :=
    .alloc kept (by simp [Content.elements])
  unfold Guards Ends
  refine run_apply_cases context op span (Machine.getElem?_of_lt known.1) ?minus ?bang ?plus ?other
  case minus =>
    intro x _ _
    have one := made kept (-1) .none
    exact ⟨one.trans (made one.kept _ _), .inr ((Machine.Newer.alloc _ (by simp)).earlier one)⟩
  case bang => exact fun x _ _ => ⟨made kept _ _, .inr (.alloc m (by simp))⟩
  case plus => exact fun x _ _ _ => ⟨.place kept known.2 span, .inl rfl⟩
  case other => exact fun _ => .refl kept

theorem Idle.bind_guards {x : EvalM α} {f : α → EvalM β} {P : β → Machine → Prop} {span : Span}
    (idle : Idle span x m) (kept : m.Sealed secret) (next : ∀ a, (f a).Guards secret m P) :
    (x >>= f).Guards secret m P := by
  refine Ends.bind (Ends.mono idle (fun _ _ same => same) ?_) fun a m' same => ?_
  · rintro _ _ ⟨rfl, -⟩
    exact .refl kept
  · subst same
    exact next a

mutual

theorem guards_eval (ordinary : host.Ordinary) {secret : Ref → Option Cell}
    {m : Machine} (kept : m.Sealed secret) (context : Context) (node : Node) :
    (eval host context node).Guards secret m fun r m' => m'.Newer m.cells.size r := by
  cases node with
  | program body span =>
    rw [eval]
    refine .aside kept rfl rfl fun kept => ?_
    refine (guards_evalAll ordinary kept context body).bind fun _ m₁ moved _ => ?_
    exact (guards_clone moved.kept _).mono fun _ _ _ new => new.earlier moved
  | identifier token span =>
    rw [eval]
    exact .aside kept rfl rfl fun kept => guards_readName kept context token span
  | number token span =>
    rw [eval]
    refine .aside kept rfl rfl fun kept => (idle_readNumber span _).bind_guards kept fun x => ?_
    exact guards_alloc kept (by simp) (by simp [Content.elements]) _
  | string token span =>
    rw [eval]
    refine .aside kept rfl rfl fun kept => ?_
    exact guards_alloc kept (Content.firm_ofLiteral _) (by simp [Content.elements_ofLiteral]) _
  | binary left op right span =>
    rw [eval]
    refine .aside kept rfl rfl fun kept => ?_
    refine (guards_eval ordinary kept context left).bind fun a m₁ first _ => ?_
    refine (guards_eval ordinary first.kept context right).bind fun b m₂ second _ => ?_
    exact (guards_combine second.kept context op a b span).mono fun _ _ _ new =>
      (new.earlier second).earlier first
  | unary op operand span =>
    rw [eval]
    refine .aside kept rfl rfl fun kept => ?_
    refine (guards_eval ordinary kept context operand).bind fun a m₁ first new => ?_
    refine (guards_apply first.kept context op (new.known kept) span).mono fun r m₂ second => ?_
    rintro (rfl | newer)
    · exact new.later second
    · exact newer.earlier first
  | list elements span =>
    rw [eval]
    refine .aside kept rfl rfl fun kept => ?_
    refine (guards_evalAll ordinary kept context elements).bind fun refs m₁ first new => ?_
    have known : ∀ s ∈ (Content.list refs).elements, s < m₁.cells.size ∧ secret s = none :=
      fun s member => (new s member).known kept
    exact (guards_alloc first.kept (by simp) known _).mono fun _ _ _ new => new.earlier first
  | call callee args span =>
    rw [eval]
    refine .aside kept rfl rfl fun kept => ?_
    refine (guards_eval ordinary kept context callee).bind fun _ m₁ first _ => ?_
    refine (guards_prepareCallee first.kept _ span).bind fun f m₂ second new => ?_
    refine (guards_evalAll ordinary second.kept context args).bind fun refs m₃ third _ => ?_
    have unsealed := first.kept.secret_eq_none new.low
    refine (guards_execute ordinary third.kept unsealed refs).bind fun _ m₄ fourth _ => ?_
    exact (guards_takeResult fourth.kept context _ span).mono fun _ _ _ new =>
      (((new.earlier fourth).earlier third).earlier second).earlier first
  | assign name value span =>
    rw [eval]
    refine .aside kept rfl rfl fun kept => ?_
    refine (guards_eval ordinary kept context value).bind fun r m₁ first new => ?_
    refine (idle_nameOf span name).bind_guards first.kept fun name => ?_
    have bound := first.kept.bind (new.known kept) context.table name
    exact ⟨.of_cells bound fun _ _ => id, ⟨new.low, new.there⟩⟩
  | blank start stop =>
    rw [eval]
    exact .aside kept rfl rfl fun kept => .throw kept

theorem guards_evalAll (ordinary : host.Ordinary) {secret : Ref → Option Cell}
    {m : Machine} (kept : m.Sealed secret) (context : Context) (nodes : List Node) :
    (evalAll host context nodes).Guards secret m
      fun refs m' => ∀ r ∈ refs, m'.Newer m.cells.size r := by
  cases nodes with
  | nil =>
    rw [evalAll]
    exact .pure kept (by simp)
  | cons node nodes =>
    rw [evalAll]
    refine (guards_eval ordinary kept context node).bind fun r m₁ moved new => ?_
    refine (guards_evalAll ordinary moved.kept context nodes).bind fun rs m₂ later further => ?_
    refine .pure later.kept (List.forall_mem_cons.mpr ⟨new.later later, fun s member => ?_⟩)
    exact (further s member).earlier moved

end

end EvalM

end SceneScript
