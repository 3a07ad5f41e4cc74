import SceneScript.Eval.Operation

/-!
Calls of builtins. The arguments are copied into the caller's variables under the names of the
parameters, from where the builtin reads them. A builtin runs in an activation of its own inside the
caller's context and fails there, at the place of the call.
-/

namespace SceneScript

namespace EvalM

/-- A context of one activation, with a table that nothing else has. -/
def freshContext (name : String) : EvalM Context := do
  let id ← modifyGet (·.newTable none)
  return .top name id

/-- The stamp of a new value: its context is one of its own. -/
def freshStamp (span : Span) (name : String) : EvalM Stamp := do
  let context ← freshContext name
  return ⟨span, context⟩

mutual

/-- Makes the value that a blueprint describes. -/
def make : Blueprint → EvalM Ref
  | .number x span name => do alloc (.number x) (← freshStamp span name)
  | .text s span name => do alloc (.text s) (← freshStamp span name)
  | .list elements span name => do
    let refs ← makeAll elements
    alloc (.list refs) (← freshStamp span name)
  | .builtin b span name => do alloc (.builtin b) (← freshStamp span name)
  | .constant c => clone (Machine.constant c)
  | .plain span name => do alloc .plain (← freshStamp span name)

def makeAll : List Blueprint → EvalM (List Ref)
  | [] => return []
  | b :: bs => do
    let r ← make b
    let rs ← makeAll bs
    return r :: rs

end

/-- Where and in what activation a builtin runs, and the value that was called. -/
structure Site where
  span : Span
  context : Context
  callee : Ref

namespace Site

def fail {α : Type} (site : Site) (cause : RuntimeCause) : EvalM α :=
  EvalM.fail cause site.span site.context

/-- The cell bound to a parameter. -/
def argument (site : Site) (param : String) : EvalM Cell := do
  let m ← get
  match m.lookup site.context.table param with
  | some r => return m.cell r
  | none => throw .missingValue

/-- The elements of a parameter that has to be a list. -/
def listArgument (site : Site) (param : String) (cause : RuntimeCause) : EvalM (List Ref) := do
  match (← site.argument param).content with
  | .list elements => return elements
  | _ => site.fail cause

/-- A component of a parameter that has to be a list of numbers. -/
def component (site : Site) (elements : List Ref) (number index : Nat) : EvalM Float := do
  let m ← get
  match elements[index]?.map fun r => (m.cell r).content with
  | some (.number x) => return x
  | _ => site.fail (.argumentComponent number index)

/-- The first three numbers of a parameter that has to be a list. -/
def tripleArgument (site : Site) (param : String) (number : Nat) : EvalM Triple := do
  let elements ← site.listArgument param (.argumentNotTriple number)
  let x ← site.component elements number 0
  let y ← site.component elements number 1
  let z ← site.component elements number 2
  return ⟨x, y, z⟩

/-- The parameter with a color, which has to be a text. A literal that is none is refused like a
    request with an invalid color. -/
def colorArgument (site : Site) (host : SceneHost) (kind : SceneKind) (number : Nat) :
    EvalM String := do
  match (← site.argument "color").content with
  | .text s => return s
  | .literal value =>
    let message := "expected string or bytes-like object, got '" ++ value.kindName ++ "'"
    site.fail (.refused kind ((host.closed kind).getD message))
  | _ => site.fail (.argumentNotString number)

end Site

/-- Puts a request to the host, which changes the scene unless it refuses. -/
def request (host : SceneHost) (site : Site) (r : SceneRequest) : EvalM Ref := do
  let m ← get
  match (host.closed r.kind).or (host.refuse m.scene r) with
  | some message => site.fail (.refused r.kind message)
  | none =>
    set { m with scene := m.scene.accept r, events := .accepted r :: m.events }
    return Machine.constant .null

def place (host : SceneHost) (site : Site) (shape : Shape) (dimensions : String) : EvalM Ref := do
  let size ← site.tripleArgument dimensions 1
  let position ← site.tripleArgument "listXYZ" 2
  let color ← site.colorArgument host (.object shape) 3
  request host site (.place ⟨shape, size, position, color⟩)

/-- The element of a list at a number, which has to be an index of it. -/
def elementAt? (elements : List Ref) (x : Float) : Option Ref :=
  match Binary64.ofFloat x with
  | .finite negative mantissa exponent =>
    if negative && mantissa != 0 then none
    else (Binary64.integer? mantissa exponent).bind (elements[·]?)
  | _ => none

end EvalM

/-- A host with functions of its own. -/
structure Host extends SceneHost where
  /-- What the function of a number does with its arguments, which are bound in the site's context. -/
  call : Nat → EvalM.Site → EvalM Ref

/-- A host of scenes has no functions of its own. -/
instance : Coe SceneHost Host := ⟨fun scene => ⟨scene, fun _ _ => throw .missingValue⟩⟩

namespace EvalM

/-- What a builtin does once its arguments are bound. -/
def perform (host : Host) (site : Site) (b : Builtin) : EvalM Ref :=
  match b with
  | .print => do
    let m ← get
    match m.lookup site.context.table "value" with
    | some r =>
      match (m.view r).display? with
      | some text =>
        set { m with output := m.output ++ text ++ "\n" }
        return Machine.constant .null
      | none => throw (.misfit .kind)
    | none => throw .missingValue
  | .get => do
    let elements ← site.listArgument "list" (.argumentNotList 1)
    match (← site.argument "index").content with
    | .number x =>
      match elementAt? elements x with
      | some r => return r
      | none => site.fail (.indexOutOfRange x)
    | _ => site.fail (.argumentNotNumber 2)
  | .append => do
    let list ← site.argument "list"
    match list.content with
    | .list elements =>
      let m ← get
      match m.lookup site.context.table "value" with
      | some r => alloc (.list (elements ++ [r])) list.stamp
      | none => throw .missingValue
    | _ => site.fail (.argumentNotList 1)
  | .setBackgroundColor => do
    let color ← site.colorArgument host.toSceneHost .background 1
    request host.toSceneHost site (.background color)
  | .block => place host.toSceneHost site .block "listWidthHeightDepth"
  | .pyramid => place host.toSceneHost site .pyramid "listRadiusHeightRadialSegments"
  | .host name params reply => do
    let m ← get
    let args := params.filterMap fun (p : String) => (m.lookup site.context.table p).map m.view
    if (View.displayAll? args).isNone then throw (.misfit .kind)
    set { m with calls := ⟨name, args, site.context, site.span⟩ :: m.calls }
    match reply with
    | .null => return Machine.constant .null
    | .variable name =>
      match m.lookup site.context.table name with
      | some r => return r
      | none => throw .missingValue
    | .failure message => site.fail (.hostFailure message)
    | .fresh value => make value
  | .foreign _ _ number => host.call number site

/-- Binds copies of the arguments to the parameters. -/
def bindArguments (context : Context) : List String → List Ref → EvalM Unit
  | param :: params, arg :: args => do
    let copy ← clone arg
    setContext copy context
    modify (·.bind context.table param copy)
    bindArguments context params args
  | _, _ => return ()

/-- Calls a value. -/
def execute (host : Host) (callee : Ref) (args : List Ref) : EvalM Ref := do
  let c ← cell callee
  match c.content with
  | .builtin b =>
    if args.length < b.params.length then
      fail (.tooFewArguments b.display) c.stamp.span c.stamp.context
    else if b.params.length < args.length then
      fail (.tooManyArguments b.display) c.stamp.span c.stamp.context
    else do
      let context := c.stamp.context.call b.name c.stamp.span.start
      bindArguments context b.params args
      record (.called b c.stamp.span)
      perform host ⟨c.stamp.span, context, callee⟩ b
  | _ => illegal c c

end EvalM

end SceneScript
