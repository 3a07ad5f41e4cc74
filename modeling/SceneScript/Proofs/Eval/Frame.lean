import SceneScript.Eval.Run
import SceneScript.Proofs.Eval.Outcome

/-!
Evaluation changes no value that exists: it works on copies and on what it has made itself.
-/

namespace SceneScript

namespace Machine

/-- Every cell of the first machine is there in the second one, unchanged in every respect. -/
def Extends (m m' : Machine) : Prop :=
  ∀ (r : Ref) (c : Cell), m.cells[r]? = some c → m'.cells[r]? = some c

namespace Extends

variable {m m' m'' : Machine}

theorem refl (m : Machine) : m.Extends m := fun _ _ there => there

theorem trans (first : m.Extends m') (second : m'.Extends m'') : m.Extends m'' :=
  fun r c there => second r c (first r c there)

theorem size_le (more : m.Extends m') : m.cells.size ≤ m'.cells.size := by
  by_cases empty : m.cells.size = 0
  · omega
  · have last : m.cells.size - 1 < m.cells.size := by omega
    have there := more _ _ (Array.getElem?_eq_getElem last)
    have within := (Array.getElem?_eq_some_iff.mp there).1
    omega

theorem cell_eq (more : m.Extends m') {r : Ref} (existed : r < m.cells.size) :
    m'.cell r = m.cell r := by
  have there := Array.getElem?_eq_getElem existed
  rw [cell, cell, more _ _ there, there]

theorem of_cells (cells : m'.cells = m.cells) : m.Extends m' :=
  fun _ _ there => by rwa [cells]

theorem alloc (more : m.Extends m') (c : Cell) : m.Extends (m'.alloc c).2 := by
  intro r d there
  have existed := (Array.getElem?_eq_some_iff.mp there).1
  have size := more.size_le
  rw [Machine.alloc, Array.getElem?_push, if_neg (by omega)]
  exact more r d there

theorem modify (more : m.Extends m') {r : Ref} (fresh : m.cells.size ≤ r) (f : Cell → Cell) :
    m.Extends { m' with cells := m'.cells.modify r f } := by
  intro s d there
  have existed := (Array.getElem?_eq_some_iff.mp there).1
  rw [Array.getElem?_modify, if_neg (by omega)]
  exact more s d there

end Extends

end Machine

namespace EvalM

variable {α β : Type} {base : Machine}

/-- Whatever else the evaluation does and however it ends, the cells of `base` stay, and the result
    is as described. -/
def Frames (base : Machine) (x : EvalM α) (result : α → Prop) : Prop :=
  ∀ m, base.Extends m →
    x.Ends m (fun a m' => base.Extends m' ∧ result a) fun _ m' => base.Extends m'

def Fresh (base : Machine) (r : Ref) : Prop := base.cells.size ≤ r

def Any (_ : α) : Prop := True

namespace Frames

variable {x : EvalM α} {P Q : α → Prop}

theorem weaken (frames : Frames base x P) (less : ∀ a, P a → Q a) : Frames base x Q :=
  fun m more => (frames m more).mono (fun a _ ends => ⟨ends.1, less a ends.2⟩) fun _ _ ends => ends

theorem any (frames : Frames base x P) : Frames base x Any := frames.weaken fun _ _ => trivial

theorem pure {a : α} (holds : P a) : Frames base (Pure.pure a) P := fun _ more => ⟨more, holds⟩

theorem throw (e : Failure) : Frames base (MonadExcept.throw e : EvalM α) P := fun _ more => more

theorem bind {f : α → EvalM β} {Q : β → Prop} (first : Frames base x P)
    (second : ∀ a, P a → Frames base (f a) Q) : Frames base (x >>= f) Q :=
  fun m more => (first m more).bind fun a m' ends => second a ends.2 m' ends.1

theorem get : Frames base (MonadState.get : EvalM Machine) base.Extends :=
  fun _ more => ⟨more, more⟩

theorem set {m : Machine} (more : base.Extends m) : Frames base (MonadStateOf.set m) Any :=
  fun _ _ => ⟨more, trivial⟩

theorem aside {f : Machine → Machine} (cells : ∀ m, (f m).cells = m.cells) :
    Frames base (modify f) Any :=
  fun m more => ⟨more.trans (.of_cells (cells m)), trivial⟩

theorem cell (r : Ref) : Frames base (EvalM.cell r) Any := get.bind fun _ _ => pure trivial

theorem alloc (content : Content) (stamp : Stamp) :
    Frames base (EvalM.alloc content stamp) (Fresh base) :=
  fun _ more => ⟨more.alloc _, more.size_le⟩

theorem update {r : Ref} (fresh : Fresh base r) (f : Cell → Cell) :
    Frames base (EvalM.update r f) Any :=
  fun _ more => ⟨more.modify fresh f, trivial⟩

theorem fail (cause : RuntimeCause) (span : Span) (context : Context) :
    Frames base (EvalM.fail cause span context : EvalM α) P := throw _

theorem illegal (left right : Cell) : Frames base (EvalM.illegal left right : EvalM α) P :=
  fail _ _ _

theorem fitting (result : Except Misfit α) : Frames base (EvalM.fitting result) Any := by
  cases result with
  | ok value => exact pure trivial
  | error cause => exact throw _

theorem record (e : Event) : Frames base (EvalM.record e) Any := aside fun _ => rfl

theorem clone (r : Ref) : Frames base (EvalM.clone r) (Fresh base) := by
  refine (cell r).bind fun c _ => ?_
  split
  · exact throw _
  · exact alloc _ _

theorem repeatText (s : String) (text : Stamp) (x : Float) (count : Stamp) :
    Frames base (EvalM.repeatText s text x count) (Fresh base) := by
  unfold EvalM.repeatText
  split
  · exact alloc _ _
  · exact fail _ _ _

theorem repeatLiteral (value : Json) (literal : Stamp) (x : Float) (count : Stamp) :
    Frames base (EvalM.repeatLiteral value literal x count) (Fresh base) := by
  unfold EvalM.repeatLiteral
  split
  · split
    · exact alloc _ _
    · exact fail _ _ _
  · split
    · exact fail _ _ _
    · exact (fitting _).bind fun _ _ => alloc _ _

theorem joinLiterals (left right : Json) (context : Context) :
    Frames base (EvalM.joinLiterals left right context) (Fresh base) :=
  (fitting _).bind fun _ _ => alloc _ _

/-- The result of an operation is always made anew. -/
theorem operate (op : Operator) (left right : Ref) :
    Frames base (EvalM.operate op left right) (Fresh base) := by
  refine (cell left).bind fun a _ => (cell right).bind fun b _ => ?_
  split
  · split
    · exact fail _ _ _
    · exact alloc _ _
  · exact repeatText _ _ _ _
  · exact repeatText _ _ _ _
  · exact alloc _ _
  · exact repeatLiteral _ _ _ _
  · exact repeatLiteral _ _ _ _
  · exact joinLiterals _ _ _
  · exact joinLiterals _ _ _
  · exact joinLiterals _ _ _
  · exact alloc _ _
  · exact fail _ _ _
  · exact illegal _ _

theorem negate (operand : Ref) : Frames base (EvalM.negate operand) (Fresh base) := by
  refine (cell operand).bind fun a _ => ?_
  split
  · exact alloc _ _
  · exact illegal _ _

theorem freshStamp (span : Span) (name : String) :
    Frames base (EvalM.freshStamp span name) Any := by
  refine bind (P := Any) (bind (P := Any) ?_ fun _ _ => pure trivial) fun _ _ => pure trivial
  exact fun m more => ⟨more.trans (.of_cells rfl), trivial⟩

mutual

theorem make (b : Blueprint) : Frames base (EvalM.make b) (Fresh base) := by
  cases b with
  | number x span name | text s span name | builtin b span name | plain span name =>
    rw [EvalM.make]
    exact (freshStamp _ _).bind fun _ _ => alloc _ _
  | list elements span name =>
    rw [EvalM.make]
    exact (makeAll elements).bind fun _ _ => (freshStamp _ _).bind fun _ _ => alloc _ _
  | constant c =>
    rw [EvalM.make]
    exact clone _

theorem makeAll (bs : List Blueprint) : Frames base (EvalM.makeAll bs) Any := by
  cases bs with
  | nil =>
    rw [EvalM.makeAll]
    exact pure trivial
  | cons b bs =>
    rw [EvalM.makeAll]
    exact (make b).bind fun _ _ => (makeAll bs).bind fun _ _ => pure trivial

end

section Builtins

variable (site : Site) (param : String)

theorem argument : Frames base (site.argument param) Any := by
  refine get.bind fun m _ => ?_
  split
  · exact pure trivial
  · exact throw _

theorem listArgument (cause : RuntimeCause) :
    Frames base (site.listArgument param cause) Any := by
  refine (argument site param).bind fun c _ => ?_
  split
  · exact pure trivial
  · exact fail _ _ _

theorem component (elements : List Ref) (number index : Nat) :
    Frames base (site.component elements number index) Any := by
  refine get.bind fun m _ => ?_
  split
  · exact pure trivial
  · exact fail _ _ _

theorem tripleArgument (number : Nat) : Frames base (site.tripleArgument param number) Any :=
  (listArgument site param _).bind fun _ _ => (component site _ _ _).bind fun _ _ =>
    (component site _ _ _).bind fun _ _ => (component site _ _ _).bind fun _ _ => pure trivial

theorem colorArgument (host : SceneHost) (kind : SceneKind) (number : Nat) :
    Frames base (site.colorArgument host kind number) Any := by
  refine (argument site "color").bind fun c _ => ?_
  split
  · exact pure trivial
  · exact fail _ _ _
  · exact fail _ _ _

theorem request (host : SceneHost) (r : SceneRequest) :
    Frames base (EvalM.request host site r) Any := by
  refine get.bind fun m more => ?_
  split
  · exact fail _ _ _
  · exact (set more).bind fun _ _ => pure trivial

theorem place (host : SceneHost) (shape : Shape) (dimensions : String) :
    Frames base (EvalM.place host site shape dimensions) Any :=
  (tripleArgument site _ _).bind fun _ _ => (tripleArgument site _ _).bind fun _ _ =>
    (colorArgument site host _ _).bind fun _ _ => request site host _

end Builtins

end Frames

end EvalM

/-- No function of the host changes values itself. -/
def Host.KeepsValues (host : Host) : Prop :=
  ∀ number site (m : Machine), m.Extends ((host.call number site).after m)

theorem SceneHost.keepsValues (scene : SceneHost) : (scene : Host).KeepsValues :=
  fun _ _ m => .refl m

namespace EvalM.Frames

variable {base : Machine} {host : Host}

theorem call (honest : host.KeepsValues) (number : Nat) (site : Site) :
    Frames base (host.call number site) Any :=
  fun m more => (ends_after _ m).mono
    (fun _ _ same => ⟨same ▸ more.trans (honest number site m), trivial⟩)
    fun _ _ same => same ▸ more.trans (honest number site m)

theorem perform (honest : host.KeepsValues) (site : Site) (b : Builtin) :
    Frames base (EvalM.perform host site b) Any := by
  cases b with
  | print =>
    refine get.bind fun m more => ?_
    split
    · split
      · exact (set more).bind fun _ _ => pure trivial
      · exact throw _
    · exact throw _
  | get =>
    refine (listArgument site _ _).bind fun elements _ => (argument site _).bind fun index _ => ?_
    split
    · split
      · exact pure trivial
      · exact fail _ _ _
    · exact fail _ _ _
  | append =>
    refine (argument site _).bind fun list _ => ?_
    split
    · refine get.bind fun m _ => ?_
      split
      · exact (alloc _ _).any
      · exact throw _
    · exact fail _ _ _
  | setBackgroundColor => exact (colorArgument site _ _ _).bind fun _ _ => request site _ _
  | block => exact place site _ _ _
  | pyramid => exact place site _ _ _
  | host name params reply =>
    refine get.bind fun m more => ?_
    simp only
    split
    · exact bind (P := fun _ => False) (throw _) fun _ impossible => impossible.elim
    · refine bind (P := Any) (set more) fun _ _ => ?_
      split
      · exact pure trivial
      · split
        · exact pure trivial
        · exact throw _
      · exact fail _ _ _
      · exact (make _).any
  | foreign name params number => exact call honest number site

theorem bindArguments (context : Context) (params : List String) (args : List Ref) :
    Frames base (EvalM.bindArguments context params args) Any := by
  induction params generalizing args with
  | nil => exact pure trivial
  | cons param params ih =>
    cases args with
    | nil => exact pure trivial
    | cons arg args =>
      refine (clone arg).bind fun copy fresh => (update fresh _).bind fun _ _ => ?_
      have bound (m : Machine) : (m.bind context.table param copy).cells = m.cells := rfl
      exact (aside bound).bind fun _ _ => ih args

theorem execute (honest : host.KeepsValues) (callee : Ref) (args : List Ref) :
    Frames base (EvalM.execute host callee args) Any := by
  refine (cell callee).bind fun c _ => ?_
  split
  · split
    · exact fail _ _ _
    · split
      · exact fail _ _ _
      · exact (bindArguments _ _ _).bind fun _ _ => (record _).bind fun _ _ =>
          perform honest _ _
  · exact illegal _ _

theorem nameOf (token : Token) : Frames base (EvalM.nameOf token) Any := by
  unfold EvalM.nameOf
  split
  · exact pure trivial
  · exact throw _

theorem readName (context : Context) (token : Token) (span : Span) :
    Frames base (EvalM.readName context token span) (Fresh base) := by
  refine (nameOf token).bind fun name _ => get.bind fun m _ => ?_
  split
  · exact fail _ _ _
  · exact (clone _).bind fun copy fresh => (update fresh _).bind fun _ _ =>
      (update fresh _).bind fun _ _ => pure fresh

theorem readNumber (value : Json) : Frames base (EvalM.readNumber value) Any := by
  unfold EvalM.readNumber
  split
  · split
    · exact pure trivial
    · exact throw _
  · exact (fitting _).bind fun _ _ => pure trivial

theorem placed {r : Ref} (fresh : Fresh base r) (span : Span) :
    Frames base (do setSpan r span; return r) (Fresh base) :=
  (update fresh _).bind fun _ _ => pure fresh

theorem combine (context : Context) (op : Token) (left right : Ref) (span : Span) :
    Frames base (EvalM.combine context op left right span) (Fresh base) := by
  unfold EvalM.combine
  split
  · simp only
    split
    · exact (nameOf op).bind fun _ _ => fail _ _ _
    · exact fail _ _ _
  · exact (operate _ left right).bind fun _ fresh => placed fresh span

theorem apply (context : Context) (op : Token) {operand : Ref} (fresh : Fresh base operand)
    (span : Span) : Frames base (EvalM.apply context op operand span) (Fresh base) := by
  refine (cell operand).bind fun c _ => ?_
  split
  · simp only
    split
    · exact (alloc _ _).bind fun _ _ => (operate _ _ _).bind fun _ fresh => placed fresh span
    · exact (negate operand).bind fun _ fresh => placed fresh span
    -- A plus sign gives its operand another place, which only a fresh operand may get.
    · exact placed fresh span
  · exact fail _ _ _

theorem prepareCallee (callee : Ref) (span : Span) :
    Frames base (EvalM.prepareCallee callee span) (Fresh base) :=
  (clone callee).bind fun _ fresh => placed fresh span

theorem takeResult (context : Context) (result : Ref) (span : Span) :
    Frames base (EvalM.takeResult context result span) (Fresh base) :=
  (clone result).bind fun _ fresh => (update fresh _).bind fun _ _ =>
    (update fresh _).bind fun _ _ => pure fresh

mutual

/-- The value of a node is none of the values that existed. -/
theorem eval (honest : host.KeepsValues) (context : Context) (node : Node) :
    Frames base (EvalM.eval host context node) (Fresh base) := by
  cases node with
  | program body span =>
    rw [EvalM.eval]
    exact (record _).bind fun _ _ => (evalAll honest context body).bind fun _ _ => clone _
  | identifier token span =>
    rw [EvalM.eval]
    exact (record _).bind fun _ _ => readName context token span
  | number token span =>
    rw [EvalM.eval]
    exact (record _).bind fun _ _ => (readNumber _).bind fun _ _ => alloc _ _
  | string token span =>
    rw [EvalM.eval]
    exact (record _).bind fun _ _ => alloc _ _
  | binary left op right span =>
    rw [EvalM.eval]
    exact (record _).bind fun _ _ => (eval honest context left).bind fun _ _ =>
      (eval honest context right).bind fun _ _ => combine context op _ _ span
  | unary op operand span =>
    rw [EvalM.eval]
    exact (record _).bind fun _ _ => (eval honest context operand).bind fun _ fresh =>
      apply context op fresh span
  | list elements span =>
    rw [EvalM.eval]
    exact (record _).bind fun _ _ => (evalAll honest context elements).bind fun _ _ => alloc _ _
  | call callee args span =>
    rw [EvalM.eval]
    exact (record _).bind fun _ _ => (eval honest context callee).bind fun _ _ =>
      (prepareCallee _ span).bind fun _ _ => (evalAll honest context args).bind fun _ _ =>
        (execute honest _ _).bind fun _ _ => takeResult context _ span
  | assign name value span =>
    rw [EvalM.eval]
    -- Binding a name changes the tables alone.
    refine (record _).bind fun _ _ => (eval honest context value).bind fun r fresh =>
      (nameOf name).bind fun name _ => ?_
    have bound (m : Machine) : (m.bind context.table name r).cells = m.cells := rfl
    exact (aside bound).bind fun _ _ => pure fresh
  | blank start stop =>
    rw [EvalM.eval]
    exact (record _).bind fun _ _ => throw _

theorem evalAll (honest : host.KeepsValues) (context : Context) (nodes : List Node) :
    Frames base (EvalM.evalAll host context nodes) Any := by
  cases nodes with
  | nil =>
    rw [EvalM.evalAll]
    exact pure trivial
  | cons node nodes =>
    rw [EvalM.evalAll]
    exact (eval honest context node).bind fun _ _ => (evalAll honest context nodes).bind fun _ _ =>
      pure trivial

end

theorem extends_after {x : EvalM α} {P : α → Prop} (frames : Frames base x P) :
    base.Extends (x.after base) :=
  ((frames base (.refl base)).mono (fun _ _ ends => ends.1) fun _ _ ends => ends).of_after

end EvalM.Frames

namespace Machine

/-- No existing value has changed in any respect. -/
def Untouched (m m' : Machine) : Prop := ∀ r < m.cells.size, m'.cell r = m.cell r

/-- No existing value has changed its content or its context. -/
def SameValues (m m' : Machine) : Prop := ∀ r < m.cells.size,
  (m'.cell r).content = (m.cell r).content ∧
    (m'.cell r).stamp.context = (m.cell r).stamp.context

theorem Extends.sameValues {m m' : Machine} (more : m.Extends m') : m.SameValues m' := by
  intro r existed
  rw [more.cell_eq existed]
  exact ⟨rfl, rfl⟩

theorem sameValues_modify (m : Machine) (r : Ref) {f : Cell → Cell}
    (same : ∀ c, (f c).content = c.content ∧ (f c).stamp.context = c.stamp.context) :
    m.SameValues { m with cells := m.cells.modify r f } := by
  intro s existed
  have there := Array.getElem?_eq_getElem existed
  simp only [cell, Array.getElem?_modify, there]
  split
  · exact same _
  · exact ⟨rfl, rfl⟩

theorem Extends.untouched {m m' : Machine} (more : m.Extends m') : m.Untouched m' :=
  fun _ existed => more.cell_eq existed

theorem extends_bindBuiltin (m : Machine) (id : TableId) (b : Builtin) :
    m.Extends (m.bindBuiltin id b) :=
  ((Extends.refl m).alloc _).trans (.of_cells rfl)

theorem extends_programContext (m : Machine) (builtins : List Builtin) :
    m.Extends (m.programContext builtins).2 := by
  have bound (m : Machine) (id : TableId) (bs : List Builtin) :
      m.Extends (bs.foldl (·.bindBuiltin id) m) := by
    induction bs generalizing m with
    | nil => exact .refl m
    | cons b bs ih => exact (m.extends_bindBuiltin id b).trans (ih _)
  have opened : m.Extends ((((m.newTable none).2.bind m.tables.size "null" (constant .null)).bind
      m.tables.size "true" (constant .yes)).bind m.tables.size "false" (constant .no)) :=
    .of_cells rfl
  exact opened.trans (bound _ _ _)

end Machine

namespace EvalM

theorem sameValues_apply (context : Context) (op : Token) (operand : Ref) (span : Span)
    (m : Machine) : m.SameValues ((apply context op operand span).after m) := by
  have framed {x : EvalM Ref} {P : Ref → Prop} (frames : Frames m x P) :
      x.Ends m (fun _ => m.SameValues) fun _ => m.SameValues :=
    (frames m (.refl m)).mono (fun _ _ ends => ends.1.sameValues) fun _ _ ends => ends.sameValues
  have read : (cell operand).Ends m (fun _ m' => m' = m) fun _ => m.SameValues := rfl
  refine Ends.of_after (read.bind fun c m' same => ?_)
  subst same
  split
  · simp only
    split
    · exact framed <| (Frames.alloc _ _).bind fun _ _ => (Frames.operate _ _ _).bind fun _ fresh =>
        Frames.placed fresh span
    · exact framed <| (Frames.negate operand).bind fun _ fresh => Frames.placed fresh span
    · -- A plus sign: the operand itself is placed.
      exact m'.sameValues_modify operand fun _ => ⟨rfl, rfl⟩
  · exact framed (P := Any) (Frames.fail _ _ _)

end EvalM

/-- The machines in which a host, or a visit under way, starts to visit a node. -/
inductive Reachable (host : Host) : Machine → Prop where
  | initial : Reachable host .initial
  | context {m : Machine} (builtins : List Builtin) (before : Reachable host m) :
    Reachable host (m.programContext builtins).2
  | table {m : Machine} (parent : Option TableId) (before : Reachable host m) :
    Reachable host (m.newTable parent).2
  | bind {m : Machine} (id : TableId) (name : Name) (r : Ref) (before : Reachable host m) :
    Reachable host (m.bind id name r)
  | record {m : Machine} (e : Event) (before : Reachable host m) :
    Reachable host ((EvalM.record e).after m)
  | callee {m : Machine} (r : Ref) (span : Span) (before : Reachable host m) :
    Reachable host ((EvalM.prepareCallee r span).after m)
  | visit {m : Machine} (context : Context) (node : Node) (before : Reachable host m) :
    Reachable host ((EvalM.eval host context node).after m)

theorem Reachable.extends_initial {host : Host} (honest : host.KeepsValues) {m : Machine}
    (reachable : Reachable host m) : Machine.initial.Extends m := by
  induction reachable with
  | initial => exact .refl _
  | context builtins _ ih => exact ih.trans (Machine.extends_programContext _ _)
  | table parent _ ih => exact ih.trans (.of_cells rfl)
  | bind id name r _ ih => exact ih.trans (.of_cells rfl)
  | record e _ ih => exact ih.trans (EvalM.Frames.record e).extends_after
  | callee r span _ ih => exact ih.trans (EvalM.Frames.prepareCallee r span).extends_after
  | visit context node _ ih =>
    exact ih.trans (EvalM.Frames.eval honest context node).extends_after

/-- Visiting a node, operating on values and calling them changes no existing value. A sign in
    front of a value may give it another place, but no other content and no other context. The
    constants stay as they are for ever. -/
theorem evaluation_keeps_values {host : Host} (honest : host.KeepsValues) :
    (∀ context node (m : Machine), m.Untouched ((EvalM.eval host context node).after m)) ∧
    (∀ context op left right span (m : Machine),
      m.Untouched ((EvalM.combine context op left right span).after m)) ∧
    (∀ callee args (m : Machine), m.Untouched ((EvalM.execute host callee args).after m)) ∧
    (∀ context op operand span (m : Machine),
      m.SameValues ((EvalM.apply context op operand span).after m)) ∧
    ∀ m, Reachable host m →
      ∀ c, m.cell (Machine.constant c) = Machine.initial.cell (Machine.constant c) := by
  refine ⟨fun context node m => (EvalM.Frames.eval honest context node).extends_after.untouched,
    fun context op left right span m =>
      (EvalM.Frames.combine context op left right span).extends_after.untouched,
    fun callee args m => (EvalM.Frames.execute honest callee args).extends_after.untouched,
    EvalM.sameValues_apply, fun m reachable c => ?_⟩
  refine (reachable.extends_initial honest).cell_eq ?_
  cases c <;> decide

/-- A host whose functions answer with a list that holds the value bound to `x` twice. -/
def pairingHost : Host where
  toSceneHost := .recording .none
  call _ site := do
    match (← get).lookup site.context.table "x" with
    | some r => EvalM.alloc (.list [r, r]) ⟨site.span, site.context⟩
    | none => throw .missingValue

theorem pairingHost_keepsValues : pairingHost.KeepsValues := by
  intro number site m
  refine EvalM.Frames.extends_after (P := EvalM.Any) (EvalM.Frames.get.bind fun m _ => ?_)
  split
  · exact (EvalM.Frames.alloc _ _).any
  · exact EvalM.Frames.throw _

def pairingMachine : Machine := (Machine.initial.programContext [.foreign "pair" ["x"] 0]).2

def pairingCall : Node :=
  .call (.identifier ⟨.identifier, .string "pair", .nowhere⟩ .nowhere)
    [.number ⟨.number, .string "1", .nowhere⟩ .nowhere] .nowhere

theorem pairing_keeps_values :
    pairingMachine.cells.size = 7 ∧ Reachable pairingHost pairingMachine ∧
    pairingMachine.Untouched
      ((EvalM.eval pairingHost (.top "<program>" 1) pairingCall).after pairingMachine) :=
  ⟨rfl, .context _ .initial,
    (evaluation_keeps_values pairingHost_keepsValues).1 _ pairingCall pairingMachine⟩

end SceneScript
