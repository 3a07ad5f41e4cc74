import SceneScript.Proofs.Eval.Agreement
import SceneScript.Proofs.Eval.Effects
import SceneScript.Proofs.Eval.Frame

/-!
What the calls of scene builtins ask of the host. The arguments of a call amount to a request or
they do not; the host objects to a request or it does not; and the scene changes only by a
request to which there is no objection.
-/

namespace SceneScript

def Builtin.sceneKind? : Builtin → Option SceneKind
  | .setBackgroundColor => some .background
  | .block => some (.object .block)
  | .pyramid => some (.object .pyramid)
  | _ => none

/-- The message with which the host turns a request down. -/
def SceneHost.objection? (host : SceneHost) (scene : Scene) (r : SceneRequest) : Option String :=
  (host.closed r.kind).or (host.refuse scene r)

def Content.text? : Content → Option String
  | .text s => some s
  | _ => none

namespace Machine

variable {m m' : Machine}

def number? (m : Machine) (r : Ref) : Option Float :=
  match (m.cell r).content with
  | .number x => some x
  | _ => none

/-- The first three numbers of a list. -/
def triple? (m : Machine) : Content → Option Triple
  | .list (a :: b :: c :: _) => do
    let x ← m.number? a
    let y ← m.number? b
    let z ← m.number? c
    return ⟨x, y, z⟩
  | _ => none

theorem triple?_list (elements : List Ref) : m.triple? (.list elements) = do
    let x ← elements[0]?.bind m.number?
    let y ← elements[1]?.bind m.number?
    let z ← elements[2]?.bind m.number?
    return ⟨x, y, z⟩ := by
  match elements with
  | [] => rfl
  | [a] => cases first : m.number? a <;> simp [triple?, first]
  | [a, b] =>
    cases first : m.number? a <;> cases second : m.number? b <;> simp [triple?, first, second]
  | a :: b :: c :: rest => rfl

def object? (m : Machine) (shape : Shape) : List Content → Option SceneObject
  | [size, position, color] => do
    let dimensions ← m.triple? size
    let position ← m.triple? position
    let color ← color.text?
    return ⟨shape, dimensions, position, color⟩
  | _ => none

/-- The request that a builtin makes with arguments of these contents. -/
def request? (m : Machine) : Builtin → List Content → Option SceneRequest
  | .setBackgroundColor, [color] => color.text?.map .background
  | .block, given => (m.object? .block given).map .place
  | .pyramid, given => (m.object? .pyramid given).map .place
  | _, _ => none

def contents (m : Machine) (refs : List Ref) : List Content := refs.map fun r => (m.cell r).content

theorem Extends.contents_eq (more : m.Extends m') {refs : List Ref}
    (known : ∀ r ∈ refs, r < m.cells.size) : m'.contents refs = m.contents refs :=
  List.map_congr_left fun r member => by rw [more.cell_eq (known r member)]

theorem Extends.triple?_eq (more : m.Extends m') {content : Content}
    (known : ∀ r ∈ content.elements, r < m.cells.size) :
    m'.triple? content = m.triple? content := by
  unfold triple?
  split
  · rename_i a b c rest
    have same (r : Ref) (member : r ∈ (Content.list (a :: b :: c :: rest)).elements) :
        m'.cell r = m.cell r := more.cell_eq (known r member)
    simp only [number?, same a (by simp [Content.elements]), same b (by simp [Content.elements]),
      same c (by simp [Content.elements])]
  · rfl

theorem Extends.request?_eq (more : m.Extends m') (b : Builtin) {given : List Content}
    (known : ∀ content ∈ given, ∀ r ∈ content.elements, r < m.cells.size) :
    m'.request? b given = m.request? b given := by
  have object (shape : Shape) : m'.object? shape given = m.object? shape given := by
    unfold object?
    split
    · rename_i size position color
      rw [more.triple?_eq (known size (by simp)), more.triple?_eq (known position (by simp))]
    · rfl
  unfold request?
  split
  · rfl
  · rw [object]
  · rw [object]
  · rfl

theorem kind_of_request? {b : Builtin} {given : List Content} {r : SceneRequest}
    (asks : m.request? b given = some r) : b.sceneKind? = some r.kind := by
  have object {shape : Shape} {given : List Content} {o : SceneObject}
      (is : m.object? shape given = some o) : o.shape = shape := by
    unfold object? at is
    split at is
    · obtain ⟨_, -, is⟩ := Option.bind_eq_some_iff.mp is
      obtain ⟨_, -, is⟩ := Option.bind_eq_some_iff.mp is
      obtain ⟨_, -, is⟩ := Option.bind_eq_some_iff.mp is
      cases is
      rfl
    · cases is
  unfold request? at asks
  split at asks
  · obtain ⟨_, -, rfl⟩ := Option.map_eq_some_iff.mp asks
    rfl
  · obtain ⟨o, is, rfl⟩ := Option.map_eq_some_iff.mp asks
    rw [SceneRequest.kind, object is]
    rfl
  · obtain ⟨o, is, rfl⟩ := Option.map_eq_some_iff.mp asks
    rw [SceneRequest.kind, object is]
    rfl
  · cases asks

def argument? (m : Machine) (id : TableId) (name : Name) : Option Content :=
  (m.lookup id name).map fun r => (m.cell r).content

theorem argument?_congr (cells : m'.cells = m.cells) (tables : m'.tables = m.tables)
    (id : TableId) (name : Name) : m'.argument? id name = m.argument? id name := by
  have same (r : Ref) : m'.cell r = m.cell r := by rw [cell, cell, cells]
  simp only [argument?, lookup_congr tables, same]

theorem argument?_eq_none_of_le {id : TableId} (beyond : m.tables.size ≤ id) (name : Name) :
    m.argument? id name = none := by
  have absent : m.table id = default := by
    rw [table, Array.getElem?_eq_none beyond]
    rfl
  rw [argument?, lookup, absent]
  rfl

/-- A copy of a value is bound to a parameter. -/
def pass (m : Machine) (context : Context) (param : String) (arg : Ref) : Machine :=
  (m.alloc ⟨(m.cell arg).content, ⟨(m.cell arg).stamp.span, context⟩⟩).2.bind context.table param
    m.cells.size

section Pass

variable (context : Context) (param : String) (arg : Ref)

theorem extends_pass : m.Extends (m.pass context param arg) :=
  ((Extends.refl m).alloc _).trans (.of_cells rfl)

theorem tables_size_pass : (m.pass context param arg).tables.size = m.tables.size :=
  Array.size_modify

theorem lookup_pass (existed : context.table < m.tables.size) (name : String) :
    (m.pass context param arg).lookup context.table name =
      if name = param then some m.cells.size else m.lookup context.table name := by
  refine (lookup_bind (m := (m.alloc _).2) existed param name).trans ?_
  exact if_congr ⟨Name.text.inj, congrArg Name.text⟩ rfl (lookup_congr (by rfl) _ _)

theorem cell_pass_self :
    ((m.pass context param arg).cell m.cells.size).content = (m.cell arg).content := by
  show ((m.alloc _).2.cell m.cells.size).content = _
  rw [cell_alloc_self]

end Pass

end Machine

namespace EvalM

variable {α β : Type} {host : SceneHost} {m m₁ : Machine} {site : Site}

section Reading

/-- The evaluation finds out what a parameter amounts to. If it amounts to nothing, that is a fault
    of the builtin; and a parameter may be missing. -/
inductive Finds (site : Site) (m : Machine) (argument : Option Content)
    (amounts : Content → Option α) : EStateM.Result Failure Machine α → Prop
  | found {content : Content} {a : α} (bound : argument = some content)
      (is : amounts content = some a) : Finds site m argument amounts (.ok a m)
  | wrong {content : Content} (bound : argument = some content) (nothing : amounts content = none)
      (cause : RuntimeCause) : Finds site m argument amounts
        (.error (.runtime ⟨cause, site.span, some site.context⟩) m)
  | missing (unbound : argument = none) : Finds site m argument amounts (.error .missingValue m)

theorem run_argument_bind (param : String) (f : Cell → EvalM α) :
    (site.argument param >>= f).run m =
      match m.lookup site.context.table param with
      | some r => (f (m.cell r)).run m
      | none => .error .missingValue m := by
  rw [run_bind, Site.argument, run_get_bind]
  cases m.lookup site.context.table param <;> rfl

theorem finds_colorArgument (kind : SceneKind) (number : Nat) :
    Finds site m (m.argument? site.context.table "color") Content.text?
      ((site.colorArgument host kind number).run m) := by
  rw [Site.colorArgument, run_argument_bind, Machine.argument?]
  cases m.lookup site.context.table "color" with
  | none => exact .missing rfl
  | some r =>
    dsimp only [Option.map_some]
    cases content : (m.cell r).content with
    | text s => exact .found rfl rfl
    | _ => exact .wrong rfl rfl _

theorem run_component_bind (elements : List Ref) (number index : Nat) (f : Float → EvalM α) :
    (site.component elements number index >>= f).run m =
      match elements[index]?.bind m.number? with
      | some x => (f x).run m
      | none =>
        .error (.runtime ⟨.argumentComponent number index, site.span, some site.context⟩) m := by
  rw [run_bind, Site.component, run_get_bind]
  cases elements[index]? with
  | none => rfl
  | some r =>
    dsimp only [Option.map_some, Option.bind_some, Machine.number?]
    cases (m.cell r).content <;> rfl

theorem finds_tripleArgument (param : String) (number : Nat) :
    Finds site m (m.argument? site.context.table param) m.triple?
      ((site.tripleArgument param number).run m) := by
  rw [Site.tripleArgument, Site.listArgument, bind_assoc, run_argument_bind, Machine.argument?]
  cases m.lookup site.context.table param with
  | none => exact .missing rfl
  | some r =>
    dsimp only [Option.map_some]
    cases content : (m.cell r).content with
    | list elements =>
      have triple := m.triple?_list elements
      rw [pure_bind, run_component_bind]
      cases first : elements[0]?.bind m.number? with
      | none =>
        rw [first] at triple
        exact .wrong rfl triple _
      | some x =>
        rw [first] at triple
        dsimp only
        rw [run_component_bind]
        cases second : elements[1]?.bind m.number? with
        | none =>
          rw [second] at triple
          exact .wrong rfl triple _
        | some y =>
          rw [second] at triple
          dsimp only
          rw [run_component_bind]
          cases third : elements[2]?.bind m.number? with
          | none =>
            rw [third] at triple
            exact .wrong rfl triple _
          | some z =>
            rw [third] at triple
            exact .found rfl triple
    | _ => exact .wrong rfl rfl _

end Reading

section Perform

/-- What the parameters of a builtin stand for where it runs. -/
def Site.given? (site : Site) (m : Machine) (b : Builtin) : Option (List Content) :=
  b.params.mapM fun param : String => m.argument? site.context.table param

/-- How a builtin of scenes ends: the host has accepted a request, or it has turned it down, or the
    arguments amount to no request, or there is an argument missing. -/
inductive Answers (host : SceneHost) (site : Site) (m : Machine) (b : Builtin) :
    EStateM.Result Failure Machine Ref → Prop
  | accepted {given : List Content} {r : SceneRequest} (bound : site.given? m b = some given)
      (asks : m.request? b given = some r) (free : host.objection? m.scene r = none) :
      Answers host site m b (.ok (Machine.constant .null)
        { m with scene := m.scene.accept r, events := .accepted r :: m.events })
  | refused {given : List Content} {r : SceneRequest} {message : String}
      (bound : site.given? m b = some given) (asks : m.request? b given = some r)
      (objects : host.objection? m.scene r = some message) :
      Answers host site m b
        (.error (.runtime ⟨.refused r.kind message, site.span, some site.context⟩) m)
  | senseless {given : List Content} (bound : site.given? m b = some given)
      (nothing : m.request? b given = none) (cause : RuntimeCause) :
      Answers host site m b (.error (.runtime ⟨cause, site.span, some site.context⟩) m)
  | unbound (missing : site.given? m b = none) (e : Failure) :
      Answers host site m b (.error e m)

variable {b : Builtin}

theorem answers_request (given : List Content) {r : SceneRequest}
    (bound : site.given? m b = some given) (asks : m.request? b given = some r) :
    Answers host site m b ((request host site r).run m) := by
  rw [request, run_get_bind]
  cases objection : host.objection? m.scene r with
  | none =>
    rw [SceneHost.objection?] at objection
    rw [objection]
    exact .accepted bound asks objection
  | some message =>
    rw [SceneHost.objection?] at objection
    rw [objection]
    exact .refused bound asks objection

theorem Answers.of_fault (cause : RuntimeCause)
    (nothing : ∀ given, site.given? m b = some given → m.request? b given = none) :
    Answers host site m b (.error (.runtime ⟨cause, site.span, some site.context⟩) m) := by
  cases bound : site.given? m b with
  | none => exact .unbound bound _
  | some given => exact .senseless bound (nothing given bound) cause

theorem Finds.answers {x : EvalM α} {f : α → EvalM Ref} {argument : Option Content}
    {amounts : Content → Option α} (finds : Finds site m argument amounts (x.run m))
    (needed : ∀ given, site.given? m b = some given → ∃ content, argument = some content ∧
      (amounts content = none → m.request? b given = none))
    (next : ∀ content a, argument = some content → amounts content = some a →
      Answers host site m b ((f a).run m)) : Answers host site m b ((x >>= f).run m) := by
  rw [run_bind]
  generalize x.run m = result at finds
  cases finds with
  | found bound is => exact next _ _ bound is
  | wrong bound nothing cause =>
    refine .of_fault cause fun given among => ?_
    obtain ⟨content, is, senseless⟩ := needed given among
    cases bound.symm.trans is
    exact senseless nothing
  | missing unbound =>
    cases bound : site.given? m b with
    | none => exact .unbound bound _
    | some given =>
      obtain ⟨content, is, -⟩ := needed given bound
      cases unbound.symm.trans is

theorem answers_setBackgroundColor : Answers host site m .setBackgroundColor
    ((site.colorArgument host .background 1 >>= fun color =>
      request host site (.background color)).run m) := by
  have given_eq : site.given? m .setBackgroundColor = do
      let color ← m.argument? site.context.table "color"
      return [color] := by
    simp only [Site.given?, Builtin.params, List.mapM_cons, List.mapM_nil, pure_bind]
  refine (finds_colorArgument .background 1).answers (fun given bound => ?_)
    fun color s bound is => answers_request [color] ?_ ?_
  · rw [given_eq] at bound
    obtain ⟨color, is, same⟩ := Option.bind_eq_some_iff.mp bound
    cases same
    exact ⟨color, is, fun nothing => by rw [Machine.request?, nothing]; rfl⟩
  · rw [given_eq, bound]
    rfl
  · rw [Machine.request?, is]
    rfl

theorem answers_place {shape : Shape} {dimensions : String}
    (params : b.params = [dimensions, "listXYZ", "color"])
    (asks : ∀ given, m.request? b given = (m.object? shape given).map .place) :
    Answers host site m b ((place host site shape dimensions).run m) := by
  have given_eq : site.given? m b = do
      let size ← m.argument? site.context.table dimensions
      let position ← m.argument? site.context.table "listXYZ"
      let color ← m.argument? site.context.table "color"
      return [size, position, color] := by
    simp only [Site.given?, params, List.mapM_cons, List.mapM_nil, bind_assoc, pure_bind]
  have parts {given : List Content} (bound : site.given? m b = some given) :
      ∃ size position color, m.argument? site.context.table dimensions = some size ∧
        m.argument? site.context.table "listXYZ" = some position ∧
        m.argument? site.context.table "color" = some color ∧ given = [size, position, color] := by
    rw [given_eq] at bound
    obtain ⟨size, first, bound⟩ := Option.bind_eq_some_iff.mp bound
    obtain ⟨position, second, bound⟩ := Option.bind_eq_some_iff.mp bound
    obtain ⟨color, third, bound⟩ := Option.bind_eq_some_iff.mp bound
    cases bound
    exact ⟨size, position, color, first, second, third, rfl⟩
  refine (finds_tripleArgument dimensions 1).answers (fun given bound => ?_)
    fun size _ first isSize => ?_
  · obtain ⟨size, _, _, is, -, -, rfl⟩ := parts bound
    exact ⟨size, is, fun nothing => by rw [asks, Machine.object?, nothing]; rfl⟩
  refine (finds_tripleArgument "listXYZ" 2).answers (fun given bound => ?_)
    fun position _ second isPosition => ?_
  · obtain ⟨size, position, _, -, is, -, rfl⟩ := parts bound
    refine ⟨position, is, fun nothing => ?_⟩
    rw [asks, Machine.object?, nothing]
    cases m.triple? size <;> rfl
  refine (finds_colorArgument (.object shape) 3).answers (fun given bound => ?_)
    fun color _ third isColor => answers_request [size, position, color] ?_ ?_
  · obtain ⟨size, position, color, -, -, is, rfl⟩ := parts bound
    refine ⟨color, is, fun nothing => ?_⟩
    rw [asks, Machine.object?, nothing]
    cases m.triple? size <;> cases m.triple? position <;> rfl
  · rw [given_eq, first, second, third]
    rfl
  · rw [asks, Machine.object?, isSize, isPosition, isColor]
    rfl

theorem answers_perform (host : Host) (site : Site) (m : Machine) (known : b.sceneKind?.isSome) :
    Answers host.toSceneHost site m b ((perform host site b).run m) := by
  cases b with
  | setBackgroundColor => exact answers_setBackgroundColor
  | block => exact answers_place rfl fun _ => rfl
  | pyramid => exact answers_place rfl fun _ => rfl
  | _ => cases known

end Perform

section Execute

variable {context : Context} {params : List String} {args : List Ref}

theorem bindArguments_cons_eq_ok {param : String} {arg : Ref}
    (bound : (bindArguments context (param :: params) (arg :: args)).run m = .ok () m₁) :
    (bindArguments context params args).run (m.pass context param arg) = .ok () m₁ := by
  rw [run_bindArguments_cons] at bound
  split at bound
  · cases bound
  · rename_i copy
    rw [(Cell.copied_eq_ok copy).1] at bound
    exact bound

theorem tables_of_bindArguments (bound : (bindArguments context params args).run m = .ok () m₁) :
    m₁.tables.size = m.tables.size ∧ (context.table < m.tables.size →
      ∀ name : String, name ∉ params →
        m₁.lookup context.table name = m.lookup context.table name) := by
  induction params generalizing m args with
  | nil =>
    cases bound
    exact ⟨rfl, fun _ _ _ => rfl⟩
  | cons param params ih =>
    cases args with
    | nil =>
      cases bound
      exact ⟨rfl, fun _ _ _ => rfl⟩
    | cons arg args =>
      obtain ⟨size, kept⟩ := ih (bindArguments_cons_eq_ok bound)
      rw [Machine.tables_size_pass] at size kept
      refine ⟨size, fun existed name other => ?_⟩
      rw [List.mem_cons, not_or] at other
      rw [kept existed name other.2, Machine.lookup_pass _ _ _ existed, if_neg other.1]

/-- Once they are bound, the parameters stand for what the arguments were. -/
theorem given_of_bindArguments (bound : (bindArguments context params args).run m = .ok () m₁)
    (existed : context.table < m.tables.size) (distinct : params.Nodup)
    (count : args.length = params.length) (known : ∀ r ∈ args, r < m.cells.size) :
    params.mapM (fun param : String => m₁.argument? context.table param) =
      some (m.contents args) := by
  induction params generalizing m args with
  | nil =>
    obtain rfl := List.eq_nil_of_length_eq_zero count
    rfl
  | cons param params ih =>
    obtain ⟨arg, args, rfl⟩ := List.exists_cons_of_length_eq_add_one count
    obtain ⟨-, others⟩ := List.forall_mem_cons.mp known
    obtain ⟨fresh, distinct⟩ := List.nodup_cons.mp distinct
    have rest := bindArguments_cons_eq_ok bound
    have passed := m.extends_pass context param arg
    have there : context.table < (m.pass context param arg).tables.size := by
      rwa [Machine.tables_size_pass]
    -- The first parameter stands for the copy that was made first; no other binding hides it.
    have first : m₁.argument? context.table param = some (m.cell arg).content := by
      have behind : m.cells.size < (m.pass context param arg).cells.size := by
        show m.cells.size < (m.cells.push _).size
        simp
      have same := (Frames.bindArguments context params args).extends_after.cell_eq behind
      rw [after, rest] at same
      rw [Machine.argument?, (tables_of_bindArguments rest).2 there param fresh,
        Machine.lookup_pass _ _ _ existed, if_pos rfl, Option.map_some, same,
        Machine.cell_pass_self]
    have later := ih rest there distinct (Nat.succ.inj count)
      fun r member => Nat.lt_of_lt_of_le (others r member) passed.size_le
    rw [List.mapM_cons, first, later, passed.contents_eq others]
    rfl

section Scene

variable {b : Builtin}

theorem distinct_params (known : b.sceneKind?.isSome) : b.params.Nodup := by
  cases b with
  | setBackgroundColor | block | pyramid => decide
  | _ => cases known

theorem given?_eq_none_of_le (site : Site) (known : b.sceneKind?.isSome)
    (beyond : m.tables.size ≤ site.context.table) : site.given? m b = none := by
  have missing (name : Name) := Machine.argument?_eq_none_of_le beyond name
  cases b with
  | setBackgroundColor | block | pyramid =>
    rw [Site.given?, Builtin.params, List.mapM_cons, missing]
    rfl
  | _ => cases known

/-- The machine in which a builtin runs: the arguments of the call are bound to its parameters. -/
structure Ready (context : Context) (b : Builtin) (args : List Ref) (m m₁ : Machine) : Prop where
  scene : m₁.scene = m.scene
  more : m.Extends m₁
  given : context.table < m.tables.size →
    b.params.mapM (fun param : String => m₁.argument? context.table param) =
      some (m.contents args)
  tables : m₁.tables.size = m.tables.size

theorem ready_of_bindArguments (known : b.sceneKind?.isSome)
    (bound : (bindArguments context b.params args).run m = .ok () m₁)
    (count : args.length = b.params.length) (existing : ∀ r ∈ args, r < m.cells.size)
    (events : List Event) : Ready context b args m { m₁ with events := events } where
  scene := (aside_of_bindArguments bound).2.1
  more := by
    have more : m.Extends ((bindArguments context b.params args).after m) :=
      (Frames.bindArguments context b.params args).extends_after
    rw [after, bound] at more
    exact more
  given existed := by
    rw [← given_of_bindArguments bound existed (distinct_params known) count existing]
    congr 1
    funext param
    exact Machine.argument?_congr (by rfl) (by rfl) _ _
  tables := (tables_of_bindArguments bound).1

/-- A call of a scene builtin makes the request that its arguments amount to, if the host does not
    object; else it fails and leaves the scene alone. With the right number of arguments and a
    table to bind them in, that is a fault of the builtin, and the host's refusal if there was a
    request. -/
theorem ends_execute_scene (host : Host) (known : b.sceneKind?.isSome) {callee : Ref}
    {stamp : Stamp} (there : m.cells[callee]? = some ⟨.builtin b, stamp⟩) (closed : m.Closed)
    (firm : ∀ r ∈ args, ∃ c : Cell, m.cells[r]? = some c ∧ c.content ≠ .plain) :
    (execute host callee args).Ends m
      (fun _ m' => ∃ r, m.request? b (m.contents args) = some r ∧
        host.objection? m.scene r = none ∧ m'.scene = m.scene.accept r)
      fun e m' => m'.scene = m.scene ∧ (args.length = b.params.length →
        stamp.context.table < m.tables.size → ∃ cause,
          e = .runtime ⟨cause, stamp.span, some (stamp.context.call b.name stamp.span.start)⟩ ∧
          ∀ r, m.request? b (m.contents args) = some r → ∃ message,
            host.objection? m.scene r = some message ∧ cause = .refused r.kind message) := by
  unfold Ends
  by_cases count : args.length = b.params.length
  · obtain ⟨m₁, bound⟩ :=
      bindArguments_eq_ok (stamp.context.call b.name stamp.span.start) b.params firm
    have existing : ∀ r ∈ args, r < m.cells.size := fun r member =>
      (Array.getElem?_eq_some_iff.mp (firm r member).choose_spec.1).1
    rw [run_execute_builtin host there count bound]
    have ready := ready_of_bindArguments known bound count existing
      (.called b stamp.span :: m₁.events)
    generalize { m₁ with events := Event.called b stamp.span :: m₁.events } = m₂ at ready
    have same : m₂.request? b (m.contents args) = m.request? b (m.contents args) := by
      refine ready.more.request?_eq b fun content member => ?_
      obtain ⟨r, -, rfl⟩ := List.mem_map.mp member
      exact fun s inside => (closed.elements r s inside).1
    have answers := answers_perform host
      ⟨stamp.span, stamp.context.call b.name stamp.span.start, callee⟩ m₂ known
    generalize (perform host _ b).run m₂ = result at answers
    by_cases existed : stamp.context.table < m.tables.size
    · have given := ready.given existed
      cases answers with
      | accepted among asks free =>
        cases given.symm.trans among
        rw [ready.scene] at free
        exact ⟨_, same.symm.trans asks, free, congrArg (Scene.accept · _) ready.scene⟩
      | refused among asks objects =>
        cases given.symm.trans among
        rw [ready.scene] at objects
        refine ⟨ready.scene, fun _ _ => ⟨_, rfl, fun r is => ?_⟩⟩
        cases is.symm.trans (same.symm.trans asks)
        exact ⟨_, objects, rfl⟩
      | senseless among nothing cause =>
        cases given.symm.trans among
        refine ⟨ready.scene, fun _ _ => ⟨_, rfl, fun r is => ?_⟩⟩
        cases is.symm.trans (same.symm.trans nothing)
      | unbound missing => cases given.symm.trans missing
    · have beyond : m₂.tables.size ≤ stamp.context.table := by
        rw [ready.tables]
        exact Nat.le_of_not_lt existed
      have missing := given?_eq_none_of_le
        ⟨stamp.span, stamp.context.call b.name stamp.span.start, callee⟩ known beyond
      cases answers with
      | accepted among | refused among | senseless among => cases missing.symm.trans among
      | unbound => exact ⟨ready.scene, fun _ inside => absurd inside existed⟩
  · obtain ⟨fault, refused⟩ := run_execute_refused host there fun other is => by
      cases is
      exact count
    rw [refused]
    exact ⟨rfl, fun right => absurd right count⟩

end Scene

end Execute

end EvalM

end SceneScript
