import SceneScript.Proofs.Eval.Agreement
import SceneScript.Proofs.Parse.Evaluable

/-!
Accepted programs never fail but for faults of their own. Every value that a program over the
builtins of the language and of scenes gets hold of is a number, a text, a list or one of these
builtins, and belongs to a context whose table is there; so no copy fails, no argument is missing,
and everything can be printed.
-/

namespace SceneScript

/-- What a program over these builtins can make. -/
def Content.Regular : Content → Prop
  | .number _ | .text _ | .list _ => True
  | .builtin b => b ∈ Builtin.core ++ Builtin.scene
  | .literal _ | .plain => False

/-- The value is regular, and its context has one of so many tables. -/
structure Cell.Sound (n : Nat) (c : Cell) : Prop where
  regular : c.content.Regular
  rooted : c.stamp.context.table < n

/-- There are so many tables, and all values are sound. -/
structure Machine.Sound (n : Nat) (m : Machine) : Prop where
  cells : ∀ (r : Ref) (c : Cell), m.cells[r]? = some c → c.Sound n
  tables : m.tables.size = n
  some_table : 0 < n

/-- A fault of the program, other than an operator without an operation. -/
def Failure.Ordinary : Failure → Prop
  | .runtime fault => fault.cause ≠ .unknownOperator
  | _ => False

namespace Machine.Sound

variable {n : Nat} {m : Machine}

theorem cell (sound : m.Sound n) (r : Ref) : (m.cell r).Sound n := by
  rw [Machine.cell]
  cases there : m.cells[r]? with
  | none => exact ⟨trivial, sound.some_table⟩
  | some c => exact sound.cells r c there

theorem alloc (sound : m.Sound n) {c : Cell} (new : c.Sound n) : (m.alloc c).2.Sound n where
  cells r d there := by
    rw [getElem?_alloc] at there
    split at there
    · cases there
      exact new
    · exact sound.cells r d there
  tables := sound.tables
  some_table := sound.some_table

theorem modify (sound : m.Sound n) (r : Ref) {f : Cell → Cell}
    (keeps : ∀ c : Cell, c.Sound n → (f c).Sound n) :
    { m with cells := m.cells.modify r f }.Sound n where
  cells s d there := by
    simp only [Array.getElem?_modify] at there
    split at there
    · obtain ⟨c, existed, rfl⟩ := Option.map_eq_some_iff.mp there
      exact keeps c (sound.cells s c existed)
    · exact sound.cells s d there
  tables := sound.tables
  some_table := sound.some_table

theorem bind (sound : m.Sound n) (id : TableId) (name : Name) (r : Ref) :
    (m.bind id name r).Sound n where
  cells := sound.cells
  tables := by
    rw [Machine.bind, Array.size_modify]
    exact sound.tables
  some_table := sound.some_table

theorem aside {m' : Machine} (sound : m.Sound n) (cells : m'.cells = m.cells)
    (tables : m'.tables = m.tables) : m'.Sound n where
  cells := by
    rw [cells]
    exact sound.cells
  tables := by
    rw [tables]
    exact sound.tables
  some_table := sound.some_table

theorem bindBuiltin (sound : m.Sound n) (id : TableId) {b : Builtin}
    (known : b ∈ Builtin.core ++ Builtin.scene) : (m.bindBuiltin id b).Sound n :=
  bind (sound.alloc (c := ⟨.builtin b, .none⟩) ⟨known, sound.some_table⟩) id b.name _

theorem bindBuiltins (sound : m.Sound n) (id : TableId) {bs : List Builtin}
    (known : ∀ b ∈ bs, b ∈ Builtin.core ++ Builtin.scene) :
    (bs.foldl (·.bindBuiltin id) m).Sound n := by
  induction bs generalizing m with
  | nil => exact sound
  | cons b bs ih =>
    obtain ⟨first, others⟩ := List.forall_mem_cons.mp known
    exact ih (sound.bindBuiltin id first) others

/-- Nothing that can be seen is without a text. -/
theorem display (sound : m.Sound n) (depth : Nat) (r : Ref) :
    ∃ text, (m.viewUpTo depth r).display? = some text := by
  induction depth generalizing r with
  | zero => exact ⟨_, rfl⟩
  | succ depth ih =>
    have all (refs : List Ref) :
        ∃ texts, View.displayAll? (refs.map (m.viewUpTo depth)) = some texts := by
      induction refs with
      | nil => exact ⟨[], rfl⟩
      | cons s refs others =>
        obtain ⟨text, first⟩ := ih s
        obtain ⟨texts, rest⟩ := others
        exact ⟨text :: texts, by simp [View.displayAll?, first, rest]⟩
    have regular := (sound.cell r).regular
    rw [viewUpTo]
    cases content : (m.cell r).content with
    | number | text | builtin => exact ⟨_, rfl⟩
    | list elements =>
      obtain ⟨texts, shown⟩ := all elements
      exact ⟨_, by simp only [View.display?, shown]; rfl⟩
    | literal | plain => simp [content, Content.Regular] at regular

/-- In a fresh context for programs with a scene, all values are sound. -/
theorem programContext : (Machine.initial.programContext Builtin.scene).2.Sound 2 := by
  have initial : (Machine.initial.newTable none).2.Sound 2 := by
    refine ⟨fun r c there => ?_, rfl, by decide⟩
    obtain ⟨within, rfl⟩ := Array.getElem?_eq_some_iff.mp there
    match r, within with
    | 0, _ | 1, _ | 2, _ => exact ⟨trivial, Nat.zero_lt_two⟩
  exact bindBuiltins (((initial.bind _ _ _).bind _ _ _).bind _ _ _) _ fun _ member => member

end Machine.Sound

namespace EvalM

variable {α β : Type} {n : Nat} {m : Machine}

/-- The evaluation leaves all values sound; it fails with ordinary faults only. -/
def Safe (n : Nat) (x : EvalM α) (m : Machine) : Prop :=
  x.Ends m (fun _ m' => m'.Sound n) fun e _ => e.Ordinary

namespace Safe

variable {x : EvalM α} {f : α → EvalM β}

theorem bind (first : Safe n x m) (second : ∀ a m', m'.Sound n → Safe n (f a) m') :
    Safe n (x >>= f) m :=
  Ends.bind first second

theorem pure (a : α) (sound : m.Sound n) : Safe n (Pure.pure a) m := sound

theorem fail {cause : RuntimeCause} (known : cause ≠ .unknownOperator) {span : Span}
    {context : Context} : Safe n (EvalM.fail cause span context : EvalM α) m := known

theorem cell_bind {r : Ref} {f : Cell → EvalM α} (sound : m.Sound n)
    (next : (m.cell r).Sound n → Safe n (f (m.cell r)) m) : Safe n (cell r >>= f) m :=
  next (sound.cell r)

theorem get_bind {f : Machine → EvalM α} (next : Safe n (f m) m) :
    Safe n ((get : EvalM Machine) >>= f) m := next

theorem record {e : Event} {f : Unit → EvalM α} (sound : m.Sound n)
    (next : ∀ m', m'.Sound n → Safe n (f ()) m') : Safe n (EvalM.record e >>= f) m :=
  next _ (sound.aside rfl rfl)

end Safe

section Values

variable {context : Context}

theorem safe_alloc {content : Content} {stamp : Stamp} (sound : m.Sound n)
    (regular : content.Regular) (rooted : stamp.context.table < n) :
    Safe n (alloc content stamp) m :=
  sound.alloc ⟨regular, rooted⟩

theorem safe_setSpan (sound : m.Sound n) (r : Ref) (span : Span) : Safe n (setSpan r span) m :=
  sound.modify r fun _ whole => ⟨whole.regular, whole.rooted⟩

theorem safe_setContext (sound : m.Sound n) (r : Ref) (rooted : context.table < n) :
    Safe n (setContext r context) m :=
  sound.modify r fun _ whole => ⟨whole.regular, rooted⟩

theorem safe_clone (sound : m.Sound n) (r : Ref) : Safe n (clone r) m := by
  refine Safe.cell_bind sound fun whole => ?_
  cases content : (m.cell r).content with
  | plain => exact absurd whole.regular (by simp [content, Content.Regular])
  | _ => exact safe_alloc sound (content ▸ whole.regular) whole.rooted

theorem nameOf_eq {token : Token} {s : String} (text : token.value = .string s) :
    nameOf token = return .text s := by
  rw [nameOf, text]
  rfl

theorem safe_readName {token : Token} {s : String} (sound : m.Sound n)
    (rooted : context.table < n) (text : token.value = .string s) (span : Span) :
    Safe n (readName context token span) m := by
  rw [readName, nameOf_eq text, pure_bind]
  refine Safe.get_bind ?_
  split
  · exact .fail (by simp)
  · refine (safe_clone sound _).bind fun copy _ sound => ?_
    refine (safe_setContext sound copy rooted).bind fun _ _ sound => ?_
    exact (safe_setSpan sound copy span).bind fun _ _ sound => .pure copy sound

theorem safe_prepareCallee (sound : m.Sound n) (callee : Ref) (span : Span) :
    Safe n (prepareCallee callee span) m :=
  (safe_clone sound callee).bind fun copy _ sound =>
    (safe_setSpan sound copy span).bind fun _ _ sound => .pure copy sound

theorem safe_takeResult (sound : m.Sound n) (rooted : context.table < n) (result : Ref)
    (span : Span) : Safe n (takeResult context result span) m :=
  (safe_clone sound result).bind fun copy _ sound =>
    (safe_setSpan sound copy span).bind fun _ _ sound =>
      (safe_setContext sound copy rooted).bind fun _ _ sound => .pure copy sound

theorem safe_repeatText (s : String) {text : Stamp} (x : Float) (count : Stamp) (sound : m.Sound n)
    (rooted : text.context.table < n) : Safe n (repeatText s text x count) m := by
  unfold repeatText
  split
  · exact safe_alloc sound trivial rooted
  · exact .fail (by simp)

theorem safe_operate (sound : m.Sound n) (op : Operator) (left right : Ref) :
    Safe n (operate op left right) m := by
  refine Safe.cell_bind sound fun first => Safe.cell_bind sound fun second => ?_
  have regular := And.intro first.regular second.regular
  split
  · split
    · exact .fail (by simp)
    · exact safe_alloc sound trivial first.rooted
  · exact safe_repeatText _ _ _ sound second.rooted
  · exact safe_repeatText _ _ _ sound first.rooted
  · exact safe_alloc sound trivial first.rooted
  -- A literal is not regular, on whichever side it stands.
  iterate 5 simp [*, Content.Regular] at regular
  · exact safe_alloc sound trivial first.rooted
  · exact .fail (by simp)
  · exact .fail (by simp)

theorem safe_negate (sound : m.Sound n) (operand : Ref) : Safe n (negate operand) m := by
  refine Safe.cell_bind sound fun whole => ?_
  split
  · exact safe_alloc sound trivial whole.rooted
  · exact .fail (by simp)

theorem safe_combine {op : Token} (sound : m.Sound n)
    (known : (Operator.ofToken? op).isSome = true) (left right : Ref) (span : Span) :
    Safe n (combine context op left right span) m := by
  obtain ⟨operator, isOperator⟩ := Option.isSome_iff_exists.mp known
  rw [combine, isOperator]
  refine (safe_operate sound operator left right).bind fun result _ sound => ?_
  exact (safe_setSpan sound result span).bind fun _ _ sound => .pure result sound

theorem safe_apply (op : Token) (operand : Ref) (span : Span) (sound : m.Sound n) :
    Safe n (apply context op operand span) m := by
  have placed (result : Ref) (m : Machine) (sound : m.Sound n) :
      Safe n (do setSpan result span; return result) m :=
    (safe_setSpan sound result span).bind fun _ _ sound => .pure result sound
  refine Safe.cell_bind sound fun _ => ?_
  split
  · dsimp only
    split
    · refine Safe.bind (safe_alloc sound trivial sound.some_table) fun minusOne _ sound => ?_
      exact (safe_operate sound .mul operand minusOne).bind placed
    · exact (safe_negate sound operand).bind placed
    · exact placed operand m sound
  · exact .fail (by simp)

end Values

section Calls

/-- The evaluation reads the machine and changes nothing; it fails with ordinary faults only. -/
def Calm (x : EvalM α) (m : Machine) (P : α → Prop) : Prop :=
  x.Ends m (fun a m' => m' = m ∧ P a) fun e _ => e.Ordinary

theorem Calm.bind {x : EvalM α} {f : α → EvalM β} {P : α → Prop} {Q : β → Prop}
    (first : Calm x m P) (second : ∀ a, P a → Calm (f a) m Q) : Calm (x >>= f) m Q := by
  refine Ends.bind first ?_
  rintro a _ ⟨rfl, holds⟩
  exact second a holds

theorem Calm.bind_safe {x : EvalM α} {f : α → EvalM β} {P : α → Prop} (first : Calm x m P)
    (second : ∀ a, P a → Safe n (f a) m) : Safe n (x >>= f) m := by
  refine Ends.bind first ?_
  rintro a _ ⟨rfl, holds⟩
  exact second a holds

/-- The names are bound in a table or behind it. -/
def Bound (m : Machine) (id : TableId) (names : List String) : Prop :=
  ∀ name ∈ names, ∃ r, m.lookup id name = some r

theorem Bound.aside {m' : Machine} {id : TableId} {names : List String} (bound : Bound m id names)
    (tables : m'.tables = m.tables) : Bound m' id names := by
  intro name member
  rw [Machine.lookup_congr tables]
  exact bound name member

theorem Bound.bind {id : TableId} {names : List String} (bound : Bound m id names)
    (existed : id < m.tables.size) (param : String) (r : Ref) :
    Bound (m.bind id param r) id (param :: names) := by
  intro name member
  rw [Machine.lookup_bind existed]
  by_cases same : name = param
  · exact ⟨r, if_pos (congrArg Name.text same)⟩
  · rw [if_neg fun names => same (Name.text.inj names)]
    exact bound name ((List.mem_cons.mp member).resolve_left same)

theorem ends_bindArguments {context : Context} {params : List String} {args : List Ref}
    (sound : m.Sound n) (rooted : context.table < n) (enough : params.length ≤ args.length)
    {names : List String} (bound : Bound m context.table names) :
    (bindArguments context params args).Ends m
      (fun _ m' => m'.Sound n ∧ Bound m' context.table (params ++ names))
      fun e _ => e.Ordinary := by
  induction params generalizing m args names with
  | nil => exact ⟨sound, bound⟩
  | cons param params ih =>
    cases args with
    | nil => exact absurd enough (Nat.not_succ_le_zero _)
    | cons arg args =>
      have whole := sound.cell arg
      unfold Ends
      rw [run_bindArguments_cons]
      generalize m.cell arg = c at whole
      have firm : c.content ≠ .plain := by
        intro plain
        exact absurd whole.regular (by simp [plain, Content.Regular])
      rw [Cell.copied_of_firm firm]
      have kept := sound.alloc (c := ⟨c.content, ⟨c.stamp.span, context⟩⟩) ⟨whole.regular, rooted⟩
      have same : (m.alloc ⟨c.content, ⟨c.stamp.span, context⟩⟩).2.tables = m.tables := rfl
      have also := (bound.aside same).bind (kept.tables.symm ▸ rooted) param m.cells.size
      refine Ends.mono (ih (kept.bind context.table param m.cells.size)
        (Nat.le_of_succ_le_succ enough) also) ?_ fun _ _ ends => ends
      rintro _ m' ⟨sound, bound⟩
      refine ⟨sound, fun name member => bound name ?_⟩
      grind

variable {site : Site}

theorem calm_argument {param : String} {names : List String} (sound : m.Sound n)
    (bound : Bound m site.context.table names) (among : param ∈ names) :
    Calm (site.argument param) m (Cell.Sound n) := by
  obtain ⟨r, found⟩ := bound param among
  have ran : (site.argument param).run m = .ok (m.cell r) m := by
    rw [Site.argument, run_get_bind, found]
    rfl
  unfold Calm Ends
  rw [ran]
  exact ⟨rfl, sound.cell r⟩

theorem calm_fail {P : α → Prop} {cause : RuntimeCause} (known : cause ≠ .unknownOperator) :
    Calm (site.fail cause : EvalM α) m P := known

theorem calm_listArgument {param : String} {names : List String} (sound : m.Sound n)
    (bound : Bound m site.context.table names) (among : param ∈ names) {cause : RuntimeCause}
    (known : cause ≠ .unknownOperator) :
    Calm (site.listArgument param cause) m fun _ => True := by
  refine (calm_argument sound bound among).bind fun c _ => ?_
  split
  · exact ⟨rfl, trivial⟩
  · exact calm_fail known

theorem calm_component (elements : List Ref) (number index : Nat) :
    Calm (site.component elements number index) m fun _ => True := by
  show Calm (get >>= fun m => _) m _
  unfold Calm Ends
  rw [run_get_bind]
  split
  · rename_i ran
    split at ran
    · cases ran
      exact ⟨rfl, trivial⟩
    · cases ran
  · rename_i ran
    split at ran
    · cases ran
    · cases ran
      exact RuntimeCause.noConfusion

theorem calm_tripleArgument {param : String} {names : List String} (sound : m.Sound n)
    (bound : Bound m site.context.table names) (among : param ∈ names) (number : Nat) :
    Calm (site.tripleArgument param number) m fun _ => True :=
  (calm_listArgument sound bound among (by simp)).bind fun _ _ =>
    (calm_component _ _ _).bind fun _ _ => (calm_component _ _ _).bind fun _ _ =>
      (calm_component _ _ _).bind fun _ _ => ⟨rfl, trivial⟩

theorem calm_colorArgument {names : List String} (sound : m.Sound n)
    (bound : Bound m site.context.table names) (among : "color" ∈ names) (host : SceneHost)
    (kind : SceneKind) (number : Nat) :
    Calm (site.colorArgument host kind number) m fun _ => True := by
  refine (calm_argument sound bound among).bind fun c _ => ?_
  split
  · exact ⟨rfl, trivial⟩
  · exact calm_fail (by simp)
  · exact calm_fail (by simp)

theorem safe_request (host : SceneHost) (r : SceneRequest) (sound : m.Sound n) :
    Safe n (request host site r) m := by
  refine Safe.get_bind ?_
  split
  · exact .fail (by simp)
  · exact sound.aside rfl rfl

theorem safe_place (host : SceneHost) (shape : Shape) {dimensions : String} (sound : m.Sound n)
    (bound : Bound m site.context.table [dimensions, "listXYZ", "color"]) :
    Safe n (place host site shape dimensions) m :=
  (calm_tripleArgument sound bound (by simp) 1).bind_safe fun _ _ =>
    (calm_tripleArgument sound bound (by simp) 2).bind_safe fun _ _ =>
      (calm_colorArgument sound bound (by simp) host _ 3).bind_safe fun _ _ =>
        safe_request host _ sound

theorem safe_perform (host : Host) {b : Builtin} (known : b ∈ Builtin.core ++ Builtin.scene)
    (sound : m.Sound n) (bound : Bound m site.context.table b.params) :
    Safe n (perform host site b) m := by
  cases b with
  | print =>
    obtain ⟨r, found⟩ := bound "value" (by simp [Builtin.params])
    obtain ⟨text, shown⟩ := sound.display m.cells.size r
    refine Safe.get_bind ?_
    rw [found]
    dsimp only
    rw [Machine.view, shown]
    exact sound.aside rfl rfl
  | get =>
    refine (calm_listArgument sound bound (by simp [Builtin.params]) (by simp)).bind_safe ?_
    intro elements _
    refine (calm_argument sound bound (by simp [Builtin.params])).bind_safe fun c _ => ?_
    split
    · split
      · exact .pure _ sound
      · exact .fail (by simp)
    · exact .fail (by simp)
  | append =>
    refine (calm_argument sound bound (by simp [Builtin.params])).bind_safe fun list whole => ?_
    split
    · obtain ⟨r, found⟩ := bound "value" (by simp [Builtin.params])
      refine Safe.get_bind ?_
      rw [found]
      exact safe_alloc sound trivial whole.rooted
    · exact .fail (by simp)
  | setBackgroundColor =>
    exact (calm_colorArgument sound bound (by simp [Builtin.params]) _ _ _).bind_safe fun _ _ =>
      safe_request _ _ sound
  | block => exact safe_place _ _ sound bound
  | pyramid => exact safe_place _ _ sound bound
  | host | foreign => simp [Builtin.core, Builtin.scene] at known

theorem safe_execute (host : Host) (callee : Ref) (args : List Ref) (sound : m.Sound n) :
    Safe n (execute host callee args) m := by
  refine Safe.cell_bind sound fun whole => ?_
  split
  · rename_i b content
    have known := whole.regular
    rw [content] at known
    split
    · exact .fail (by simp)
    split
    · exact .fail (by simp)
    · rename_i enough _
      have rooted : ((m.cell callee).stamp.context.call b.name
          (m.cell callee).stamp.span.start).table < n := whole.rooted
      have none_yet : Bound m (m.cell callee).stamp.context.table [] := by simp [Bound]
      refine Ends.bind (ends_bindArguments sound rooted (Nat.le_of_not_lt enough) none_yet) ?_
      rintro _ m₁ ⟨sound, bound⟩
      rw [List.append_nil] at bound
      exact safe_perform host known (sound.aside rfl rfl) (bound.aside rfl)
  · exact .fail (by simp)

end Calls

section Eval

variable {host : Host}

mutual

theorem safe_eval {m : Machine} {context : Context} (rooted : context.table < n) (node : Node)
    (evaluable : ∀ part ∈ node.order, part.Evaluable) (sound : m.Sound n) :
    Safe n (eval host context node) m := by
  have self := evaluable node (Node.mem_order_self node)
  cases node with
  | program | blank => exact self.elim
  | identifier token span =>
    obtain ⟨s, text⟩ := self
    rw [eval]
    exact .record sound fun _ sound => safe_readName sound rooted text span
  | number token span =>
    obtain ⟨s, text, isNumeral⟩ := self
    obtain ⟨numeral, read⟩ := Option.isSome_iff_exists.mp isNumeral
    have number : readNumber token.value = return numeral.value.toFloat := by
      simp [readNumber, text, read]
    rw [eval, number]
    exact .record sound fun _ sound => safe_alloc sound trivial rooted
  | string token span =>
    obtain ⟨s, text⟩ := self
    rw [eval, text]
    exact .record sound fun _ sound => safe_alloc sound trivial rooted
  | binary left op right span =>
    rw [eval]
    refine .record sound fun _ sound => ?_
    refine (safe_eval rooted left (fun part inner => evaluable part
      (Node.order_left_subset inner)) sound).bind fun a _ sound => ?_
    refine (safe_eval rooted right (fun part inner => evaluable part
      (Node.order_right_subset inner)) sound).bind fun b _ sound => ?_
    exact safe_combine sound self a b span
  | unary op operand span =>
    rw [eval]
    refine .record sound fun _ sound => ?_
    refine (safe_eval rooted operand (fun part inner => evaluable part
      (Node.order_operand_subset inner)) sound).bind fun a _ sound => ?_
    exact safe_apply op a span sound
  | list elements span =>
    rw [eval]
    refine .record sound fun _ sound => ?_
    refine (safe_evalAll rooted elements (fun part inner => evaluable part
      (Node.orderAll_elements_subset inner)) sound).bind fun refs _ sound => ?_
    exact safe_alloc sound trivial rooted
  | call callee args span =>
    rw [eval]
    refine .record sound fun _ sound => ?_
    refine (safe_eval rooted callee (fun part inner => evaluable part
      (Node.order_callee_subset inner)) sound).bind fun function _ sound => ?_
    refine (safe_prepareCallee sound function span).bind fun function _ sound => ?_
    refine (safe_evalAll rooted args (fun part inner => evaluable part
      (Node.orderAll_args_subset inner)) sound).bind fun refs _ sound => ?_
    refine (safe_execute host function refs sound).bind fun result _ sound => ?_
    exact safe_takeResult sound rooted result span
  | assign name value span =>
    obtain ⟨s, text⟩ := self
    rw [eval, nameOf_eq text]
    refine .record sound fun _ sound => ?_
    refine (safe_eval rooted value (fun part inner => evaluable part
      (Node.order_value_subset inner)) sound).bind fun r _ sound => ?_
    exact sound.bind context.table (.text s) r

theorem safe_evalAll {m : Machine} {context : Context} (rooted : context.table < n)
    (nodes : List Node) (evaluable : ∀ part ∈ Node.orderAll nodes, part.Evaluable)
    (sound : m.Sound n) : Safe n (evalAll host context nodes) m := by
  cases nodes with
  | nil =>
    rw [evalAll]
    exact .pure [] sound
  | cons node nodes =>
    rw [evalAll]
    refine (safe_eval rooted node (fun part inner => evaluable part
      (by simp [Node.orderAll, inner])) sound).bind fun r _ sound => ?_
    refine (safe_evalAll rooted nodes (fun part inner => evaluable part
      (by simp [Node.orderAll, inner])) sound).bind fun rs _ sound => ?_
    exact .pure (r :: rs) sound

end

theorem safe_runProgram {context : Context} (rooted : context.table < n) {p : Program}
    (evaluable : ∀ part ∈ Node.orderAll p.body, part.Evaluable) (sound : m.Sound n) :
    Safe n (runProgram host context p) m := by
  refine .record sound fun _ sound => ?_
  rw [Program.toNode, eval]
  refine Safe.bind (Safe.record sound fun _ sound => ?_) fun _ _ sound => .pure () sound
  refine (safe_evalAll rooted p.body evaluable sound).bind fun _ _ sound => ?_
  exact safe_clone sound _

end Eval

section Elements

theorem integer?_zero (exponent : Int) : Binary64.integer? 0 exponent = some 0 := by
  cases exponent <;> simp [Binary64.integer?, Binary64.fraction]

theorem eq_zero_of_integer? {mantissa : Nat} {exponent : Int}
    (zero : Binary64.integer? mantissa exponent = some 0) : mantissa = 0 := by
  obtain ⟨whole, quotient⟩ := Option.ite_none_right_eq_some.mp zero
  have none_left : (Binary64.fraction mantissa exponent).1 = 0 :=
    Nat.eq_zero_of_dvd_of_div_eq_zero (Nat.dvd_of_mod_eq_zero whole) (Option.some.inj quotient)
  cases exponent with
  | ofNat up => simpa [Binary64.fraction, Nat.shiftLeft_eq] using none_left
  | negSucc down => exact none_left

theorem toInt?_finite (negative : Bool) (mantissa : Nat) (exponent : Int) :
    Binary64.toInt? (.finite negative mantissa exponent) =
      (Binary64.integer? mantissa exponent).map
        fun k : Nat => if negative then -(k : Int) else (k : Int) := by
  rw [Binary64.toInt?]
  cases Binary64.integer? mantissa exponent <;> rfl

/-- A list has an element at every number that is an index of it, and at no other. -/
theorem elementAt?_eq_some_iff {elements : List Ref} {x : Float} {r : Ref} :
    elementAt? elements x = some r ↔
      ∃ i : Nat, (Binary64.ofFloat x).toInt? = some (i : Int) ∧ elements[i]? = some r := by
  unfold elementAt?
  cases Binary64.ofFloat x with
  | finite negative mantissa exponent =>
    rw [toInt?_finite]
    by_cases below : negative = true ∧ mantissa ≠ 0
    · refine iff_of_false (by simp [below]) ?_
      rintro ⟨i, isInteger, -⟩
      obtain ⟨k, isWhole, same⟩ := Option.map_eq_some_iff.mp isInteger
      have vanishes : k = 0 := by
        rw [if_pos below.1] at same
        omega
      exact below.2 (eq_zero_of_integer? (vanishes ▸ isWhole))
    · -- Minus zero is the index zero.
      have same (k : Nat) (isWhole : Binary64.integer? mantissa exponent = some k) :
          (if negative then -(k : Int) else (k : Int)) = k := by
        grind [integer?_zero]
      have guarded : (negative && mantissa != 0) = false := by simpa using below
      simp only [guarded, Bool.false_eq_true, if_false]
      cases isWhole : Binary64.integer? mantissa exponent with
      | none => simp
      | some k =>
        rw [Option.map_some, same k isWhole, Option.bind_some]
        refine ⟨fun found => ⟨k, rfl, found⟩, ?_⟩
        rintro ⟨i, isIndex, found⟩
        rwa [Int.ofNat.inj (Option.some.inj isIndex)]
  | _ => simp [Binary64.toInt?]

end Elements

/-- In a fresh context, an accepted text runs to its end or to a fault of its own, whatever the
    host does with its requests: it never meets a node, an operator, a numeral, a value or an
    argument that evaluation does not know. In particular every index of a list has an element. -/
theorem accepted_program_completes_or_faults {f : FrontEnd} {origin : Origin} {p : Program}
    {context : Context} {m : Machine} (parsed : f.parse origin = .ok p)
    (fresh : Machine.initial.programContext Builtin.scene = (context, m)) (host : Host) :
    ((∃ m', (runProgram host context p).run m = .ok () m') ∨
      ∃ fault m', (runProgram host context p).run m = .error (.runtime fault) m' ∧
        fault.cause ≠ .unknownOperator ∧
        (fault.report.name = .runtimeError ∨ fault.report.name = .divisionByZero)) ∧
    ∀ (elements : List Ref) (x : Float) (r : Ref), elementAt? elements x = some r ↔
      ∃ i : Nat, (Binary64.ofFloat x).toInt? = some (i : Int) ∧ elements[i]? = some r := by
  refine ⟨?_, fun _ _ _ => elementAt?_eq_some_iff⟩
  obtain rfl : (Machine.initial.programContext Builtin.scene).1 = context :=
    congrArg Prod.fst fresh
  obtain rfl : (Machine.initial.programContext Builtin.scene).2 = m := congrArg Prod.snd fresh
  have rooted : (Machine.initial.programContext Builtin.scene).1.table < 2 := by decide
  have safe := @safe_runProgram 2 _ host _ rooted p (f.evaluable_of_parse parsed)
    Machine.Sound.programContext
  cases ran : (runProgram host (Machine.initial.programContext Builtin.scene).1 p).run
      (Machine.initial.programContext Builtin.scene).2 with
  | ok _ m' => exact .inl ⟨m', rfl⟩
  | error e m' =>
    have ordinary := Ends.of_error safe ran
    cases e with
    | runtime fault =>
      refine .inr ⟨fault, m', rfl, ordinary, ?_⟩
      unfold RuntimeFault.report
      dsimp only
      split
      · exact .inr rfl
      · exact .inl rfl
    | _ => exact ordinary.elim

/-- A program that calls what it finds in a list, with too short a list of numbers. -/
theorem stored_builtin_completes_or_faults : ∃ p,
    FrontEnd.precedence.parse ⟨"", "let f = get([append, block], 1); f([1, .5], [0, 0, 0], 'red');"⟩ =
      .ok p ∧
    ((∃ m', (runProgram (SceneHost.recording .none)
        (Machine.initial.programContext Builtin.scene).1 p).run
        (Machine.initial.programContext Builtin.scene).2 = .ok () m') ∨
      ∃ fault m', (runProgram (SceneHost.recording .none)
          (Machine.initial.programContext Builtin.scene).1 p).run
          (Machine.initial.programContext Builtin.scene).2 = .error (.runtime fault) m' ∧
        fault.cause ≠ .unknownOperator) := by
  obtain ⟨p, parsed⟩ := @FrontEnd.exists_of_toBool .precedence
    ⟨"", "let f = get([append, block], 1); f([1, .5], [0, 0, 0], 'red');"⟩ (by decide +kernel)
  refine ⟨p, parsed, ?_⟩
  rcases (accepted_program_completes_or_faults parsed rfl (SceneHost.recording .none)).1 with
    completes | ⟨fault, m', failed, known, -⟩
  · exact .inl completes
  · exact .inr ⟨fault, m', failed, known⟩

end EvalM

end SceneScript
