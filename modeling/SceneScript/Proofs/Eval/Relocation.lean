import SceneScript.Eval.Run
import SceneScript.Proofs.Eval.Tracking
import SceneScript.Proofs.Node.Shift

/-!
A tree whose places are shifted is evaluated like the tree itself: on machines that mirror each
other, builtins, calls and nodes of all kinds go the same way.
-/

namespace SceneScript

namespace EvalM

variable {α β : Type} {ρ : Renaming} {m m' : Machine} {scene : SceneHost}

theorem tracks_stamped (mirrors : m.Mirrors ρ m') (content : Content)
    (known : ∀ r ∈ content.elements, r < m.cells.size) (span : Span) (name : String) :
    Tracks ρ (freshStamp span name >>= EvalM.alloc content)
      (freshStamp span name >>= EvalM.alloc (content.rename ρ)) m m' (Named ρ) := by
  have tables : m'.tables.size = m.tables.size := by
    rw [mirrors.tables, Array.size_map]
  have same : (Context.top name m.tables.size).plain = (Context.top name m'.tables.size).plain := by
    rw [tables]
  have forge : Forge ρ (EvalM.alloc content ⟨span, .top name m.tables.size⟩)
      (EvalM.alloc (content.rename ρ) ⟨span, .top name m'.tables.size⟩) (m.newTable none).2
      (m'.newTable none).2 := by
    refine .alloc content ?_ same
    exact known
  exact .of_runs (n := (m.newTable none).2) (k := (m'.newTable none).2) rfl rfl (Nat.le_refl _)
    (forge.tracks (mirrors.newTable none))

mutual

theorem tracks_make {m m' : Machine} (mirrors : m.Mirrors ρ m') (value : Blueprint) :
    Tracks ρ (make value) (make value) m m' (Named ρ) := by
  cases value with
  | number x span name =>
    rw [make]
    exact tracks_stamped mirrors (.number x) (by simp [Content.elements]) span name
  | text s span name =>
    rw [make]
    exact tracks_stamped mirrors (.text s) (by simp [Content.elements]) span name
  | list elements span name =>
    rw [make]
    refine (tracks_makeAll mirrors elements).bind fun rs rs' n n' mirrors _ named => ?_
    rw [named.1]
    exact tracks_stamped mirrors (.list rs) named.2 span name
  | builtin b span name =>
    rw [make]
    exact tracks_stamped mirrors (.builtin b) (by simp [Content.elements]) span name
  | constant c =>
    rw [make]
    exact tracks_clone_constant mirrors c
  | plain span name =>
    rw [make]
    exact tracks_stamped mirrors .plain (by simp [Content.elements]) span name

theorem tracks_makeAll {m m' : Machine} (mirrors : m.Mirrors ρ m') (values : List Blueprint) :
    Tracks ρ (makeAll values) (makeAll values) m m' (AllNamed ρ) := by
  cases values with
  | nil =>
    rw [makeAll]
    exact .pure mirrors ⟨rfl, by simp⟩
  | cons value values =>
    rw [makeAll]
    refine (tracks_make mirrors value).bind fun r r' n n' mirrors _ first => ?_
    refine (tracks_makeAll mirrors values).bind fun rs rs' _ _ mirrors grown others => ?_
    exact .pure mirrors (.cons first others grown)

end

section Builtins

variable {site site' : Site}

theorem tracks_fail {done : α → β → Machine → Machine → Prop} (mirrors : m.Mirrors ρ m')
    (cause : RuntimeCause) :
    Tracks ρ (site.fail cause : EvalM α) (site'.fail cause : EvalM β) m m' done :=
  .fail mirrors cause _ _ _ _

theorem tracks_component (mirrors : m.Mirrors ρ m') {rs rs' : List Ref}
    (named : AllNamed ρ rs rs' m m') (number index : Nat) :
    Tracks ρ (site.component rs number index) (site'.component rs' number index) m m'
      fun x x' n n' => n = m ∧ n' = m' ∧ x = x' := by
  refine .get_bind ?_
  rw [named.1, List.getElem?_map]
  cases rs[index]? with
  | none => exact tracks_fail mirrors _
  | some r =>
    have like := mirrors.cells r
    simp only [Option.map_some, like.content]
    cases (m.cell r).content with
    | number x => exact .pure mirrors ⟨rfl, rfl, rfl⟩
    | _ => exact tracks_fail mirrors _

theorem tracks_request (mirrors : m.Mirrors ρ m') (r : SceneRequest) :
    Tracks ρ (request scene site r) (request scene site' r) m m' (Named ρ) := by
  refine .get_bind ?_
  rw [mirrors.scene]
  cases (scene.closed r.kind).or (scene.refuse m'.scene r) with
  | some message => exact tracks_fail mirrors _
  | none =>
    have accepted := mirrors.aside
      { m with scene := m'.scene.accept r, events := .accepted r :: m.events }
      { m' with scene := m'.scene.accept r, events := .accepted r :: m'.events }
      rfl rfl rfl rfl mirrors.output rfl mirrors.calls
    exact .ok rfl rfl accepted (Nat.le_refl _) (.constant accepted .null)

theorem elementAt?_map (rs : List Ref) (x : Float) :
    elementAt? (rs.map ρ.number) x = (elementAt? rs x).map ρ.number := by
  unfold elementAt?
  split
  · split
    · rfl
    · cases Binary64.integer? _ _ with
      | none => rfl
      | some i => exact List.getElem?_map
  · rfl

theorem mem_of_elementAt? {rs : List Ref} {x : Float} {r : Ref}
    (found : elementAt? rs x = some r) : r ∈ rs := by
  unfold elementAt? at found
  split at found
  · split at found
    · cases found
    · obtain ⟨i, -, there⟩ := Option.bind_eq_some_iff.mp found
      exact List.mem_of_getElem? there
  · cases found

variable (calls : site.context.plain = site'.context.plain)
include calls

theorem tracks_argument (mirrors : m.Mirrors ρ m') (param : String) :
    Tracks ρ (site.argument param) (site'.argument param) m m' fun c c' n n' =>
      n = m ∧ n' = m' ∧ c.Mirrors ρ c' ∧ ∀ r ∈ c.content.elements, r < m.cells.size := by
  refine .get_bind ?_
  rw [← Context.table_eq_of_plain calls, mirrors.lookup]
  cases m.lookup site.context.table param with
  | none => exact .throw mirrors rfl
  | some r => exact .pure mirrors ⟨rfl, rfl, mirrors.cells r, mirrors.elements_lt r⟩

theorem tracks_listArgument (mirrors : m.Mirrors ρ m') (param : String) (cause : RuntimeCause) :
    Tracks ρ (site.listArgument param cause) (site'.listArgument param cause) m m'
      fun rs rs' n n' => n = m ∧ n' = m' ∧ AllNamed ρ rs rs' m m' := by
  refine (tracks_argument calls mirrors param).look ?_
  rintro ⟨content, _⟩ ⟨_, _⟩ ⟨⟨rfl, -⟩, known⟩
  cases content with
  | list elements => exact .pure mirrors ⟨rfl, rfl, rfl, known⟩
  | _ => exact tracks_fail mirrors cause

theorem tracks_tripleArgument (mirrors : m.Mirrors ρ m') (param : String) (number : Nat) :
    Tracks ρ (site.tripleArgument param number) (site'.tripleArgument param number) m m'
      fun t t' n n' => n = m ∧ n' = m' ∧ t = t' := by
  refine (tracks_listArgument calls mirrors param _).look fun rs rs' named => ?_
  refine (tracks_component mirrors named number 0).look fun x _ same => ?_
  refine (tracks_component mirrors named number 1).look fun y _ same' => ?_
  refine (tracks_component mirrors named number 2).look fun z _ same'' => ?_
  rw [same, same', same'']
  exact .pure mirrors ⟨rfl, rfl, rfl⟩

theorem tracks_colorArgument (mirrors : m.Mirrors ρ m') (kind : SceneKind) (number : Nat) :
    Tracks ρ (site.colorArgument scene kind number) (site'.colorArgument scene kind number) m m'
      fun s s' n n' => n = m ∧ n' = m' ∧ s = s' := by
  refine (tracks_argument calls mirrors "color").look ?_
  rintro ⟨content, _⟩ ⟨_, _⟩ ⟨⟨rfl, -⟩, -⟩
  cases content with
  | text s => exact .pure mirrors ⟨rfl, rfl, rfl⟩
  | _ => exact tracks_fail mirrors _

theorem tracks_place (mirrors : m.Mirrors ρ m') (shape : Shape) (dimensions : String) :
    Tracks ρ (place scene site shape dimensions) (place scene site' shape dimensions) m m'
      (Named ρ) := by
  refine (tracks_tripleArgument calls mirrors dimensions 1).look fun size _ same => ?_
  refine (tracks_tripleArgument calls mirrors "listXYZ" 2).look fun position _ same' => ?_
  refine (tracks_colorArgument calls mirrors (.object shape) 3).look fun color _ same'' => ?_
  rw [same, same', same'']
  exact tracks_request mirrors _

/-- A host's function sees the same arguments. -/
theorem bareAll_arguments (mirrors : m.Mirrors ρ m') (params : List String) :
    View.bareAll (params.filterMap fun (p : String) =>
        (m.lookup site.context.table p).map m.view) =
      View.bareAll (params.filterMap fun (p : String) =>
        (m'.lookup site'.context.table p).map m'.view) := by
  rw [← Context.table_eq_of_plain calls]
  induction params with
  | nil => rfl
  | cons param params ih =>
    rw [List.filterMap_cons, List.filterMap_cons, mirrors.lookup]
    cases found : m.lookup site.context.table param with
    | none => exact ih
    | some r =>
      simp only [Option.map_some, View.bareAll, ih, mirrors.view (mirrors.lt_of_lookup found)]

theorem tracks_print (mirrors : m.Mirrors ρ m') :
    Tracks ρ (perform scene site .print) (perform scene site' .print) m m' (Named ρ) := by
  refine .get_bind ?_
  rw [← Context.table_eq_of_plain calls, mirrors.lookup]
  cases found : m.lookup site.context.table "value" with
  | none => exact .throw mirrors rfl
  | some r =>
    have same : (m.view r).display? = (m'.view (ρ.number r)).display? := by
      rw [← View.display?_bare, mirrors.view (mirrors.lt_of_lookup found), View.display?_bare]
    simp only [Option.map_some, same]
    cases (m'.view (ρ.number r)).display? with
    | none => exact .throw mirrors rfl
    | some text =>
      have printed := mirrors.aside { m with output := m.output ++ text ++ "\n" }
        { m' with output := m'.output ++ text ++ "\n" } rfl rfl rfl rfl
        (by simp only [mirrors.output]) mirrors.scene mirrors.calls
      exact .ok rfl rfl printed (Nat.le_refl _) (.constant printed .null)

theorem tracks_get (mirrors : m.Mirrors ρ m') :
    Tracks ρ (perform scene site .get) (perform scene site' .get) m m' (Named ρ) := by
  refine (tracks_listArgument calls mirrors "list" _).look fun rs rs' named => ?_
  refine (tracks_argument calls mirrors "index").look ?_
  rintro ⟨content, _⟩ ⟨_, _⟩ ⟨⟨rfl, -⟩, -⟩
  cases content with
  | number x =>
    simp only [Content.rename, named.1, elementAt?_map]
    cases found : elementAt? rs x with
    | none => exact tracks_fail mirrors _
    | some r => exact .pure mirrors ⟨rfl, named.2 r (mem_of_elementAt? found)⟩
  | _ => exact tracks_fail mirrors _

theorem tracks_append (mirrors : m.Mirrors ρ m') :
    Tracks ρ (perform scene site .append) (perform scene site' .append) m m' (Named ρ) := by
  refine (tracks_argument calls mirrors "list").look ?_
  rintro ⟨content, stamp⟩ ⟨_, stamp'⟩ ⟨⟨rfl, same⟩, known⟩
  cases content with
  | list elements =>
    refine .get_bind ?_
    rw [← Context.table_eq_of_plain calls, mirrors.lookup]
    cases found : m.lookup site.context.table "value" with
    | none => exact .throw mirrors rfl
    | some r =>
      have longer : ∀ s ∈ elements ++ [r], s < m.cells.size := by
        intro s member
        rcases List.mem_append.mp member with before | last
        · exact known s before
        · rw [List.mem_singleton.mp last]
          exact mirrors.lt_of_lookup found
      have forge : Forge ρ (alloc (.list (elements ++ [r])) stamp)
          (alloc (.list ((elements ++ [r]).map ρ.number)) stamp') m m' :=
        .alloc (.list (elements ++ [r])) longer same
      rw [List.map_append] at forge
      exact forge.tracks mirrors
  | _ => exact tracks_fail mirrors _

theorem tracks_host (mirrors : m.Mirrors ρ m') (name : String) (params : List String)
    (reply : Reply) : Tracks ρ (perform scene site (.host name params reply))
      (perform scene site' (.host name params reply)) m m' (Named ρ) := by
  have args := bareAll_arguments calls mirrors params
  refine .get_bind ?_
  simp only
  generalize params.filterMap (fun (p : String) =>
      (m.lookup site.context.table p).map m.view) = seen,
    params.filterMap (fun (p : String) =>
      (m'.lookup site'.context.table p).map m'.view) = seen' at args ⊢
  have shown : View.displayAll? seen = View.displayAll? seen' := by
    rw [← View.displayAll?_bareAll, args, View.displayAll?_bareAll]
  rw [shown]
  by_cases unseen : (View.displayAll? seen').isNone = true
  · simp only [if_pos unseen]
    exact .error rfl rfl mirrors rfl
  · simp only [if_neg unseen]
    let told : HostCall := ⟨name, seen, site.context, site.span⟩
    let told' : HostCall := ⟨name, seen', site'.context, site'.span⟩
    have bare : told.bare = told'.bare := by
      simp only [HostCall.bare, told, told', args, calls]
    have called := mirrors.aside { m with calls := told :: m.calls }
      { m' with calls := told' :: m'.calls } rfl rfl rfl rfl mirrors.output mirrors.scene
      (by rw [List.map_cons, List.map_cons, bare, mirrors.calls])
    have noted : Tracks ρ (set { m with calls := told :: m.calls } : EvalM Unit)
        (set { m' with calls := told' :: m'.calls } : EvalM Unit) m m' fun _ _ n n' =>
          n = { m with calls := told :: m.calls } ∧ n' = { m' with calls := told' :: m'.calls } :=
      .ok rfl rfl called (Nat.le_refl _) ⟨rfl, rfl⟩
    refine noted.bind ?_
    rintro _ _ _ _ - - ⟨rfl, rfl⟩
    cases reply with
    | null => exact .pure called (.constant called .null)
    | «variable» name =>
      simp only [← Context.table_eq_of_plain calls, mirrors.lookup]
      cases found : m.lookup site.context.table name with
      | none => exact .throw called rfl
      | some r => exact .pure called ⟨rfl, mirrors.lt_of_lookup found⟩
    | failure message => exact tracks_fail called _
    | fresh value => exact tracks_make called value

theorem tracks_perform (mirrors : m.Mirrors ρ m') (b : Builtin) :
    Tracks ρ (perform scene site b) (perform scene site' b) m m' (Named ρ) := by
  cases b with
  | print => exact tracks_print calls mirrors
  | get => exact tracks_get calls mirrors
  | append => exact tracks_append calls mirrors
  | setBackgroundColor =>
    refine (tracks_colorArgument calls mirrors .background 1).look fun color _ same => ?_
    rw [same]
    exact tracks_request mirrors _
  | block => exact tracks_place calls mirrors .block _
  | pyramid => exact tracks_place calls mirrors .pyramid _
  | host name params reply => exact tracks_host calls mirrors name params reply
  | foreign => exact .throw mirrors rfl

end Builtins

theorem tracks_bindArguments {context context' : Context} (calls : context.plain = context'.plain)
    (params : List String) {rs rs' : List Ref} (mirrors : m.Mirrors ρ m')
    (named : AllNamed ρ rs rs' m m') :
    Tracks ρ (bindArguments context params rs) (bindArguments context' params rs') m m'
      fun _ _ _ _ => True := by
  induction params generalizing m m' rs rs' with
  | nil => exact .ok rfl rfl mirrors (Nat.le_refl _) trivial
  | cons param params ih =>
    obtain ⟨rfl, known⟩ := named
    cases rs with
    | nil => exact .ok rfl rfl mirrors (Nat.le_refl _) trivial
    | cons r rs =>
      have ran := run_bindArguments_cons context param params r rs m
      have ran' := run_bindArguments_cons context' param params (ρ.number r) (rs.map ρ.number) m'
      have forged := Forge.copied mirrors r
      generalize (m.cell r).copied = made, (m'.cell (ρ.number r)).copied = made' at ran ran' forged
      cases forged with
      | error alike => exact .error ran ran' mirrors alike
      | @ok c c' like firm =>
        have restamped : Cell.Mirrors ρ ⟨c.content, ⟨c.stamp.span, context⟩⟩
            ⟨c'.content, ⟨c'.stamp.span, context'⟩⟩ := ⟨like.content, calls⟩
        have copied := mirrors.alloc restamped firm
        have size := m.size_alloc ⟨c.content, ⟨c.stamp.span, context⟩⟩
        have bound := copied.bind (r := m.cells.size) (by omega) context.table param
        rw [mirrors.number_size, Context.table_eq_of_plain calls] at bound
        rw [Context.table_eq_of_plain calls] at ran
        refine .of_runs ran ran' ?_ (ih bound ⟨rfl, fun s member => ?_⟩)
        · exact Nat.le_of_lt (size.symm ▸ Nat.lt_succ_self _)
        · exact size.symm ▸ Nat.lt_succ_of_lt (known s (List.mem_cons_of_mem _ member))

theorem tracks_execute (mirrors : m.Mirrors ρ m') (callee : Ref) {rs rs' : List Ref}
    (named : AllNamed ρ rs rs' m m') :
    Tracks ρ (execute scene callee rs) (execute scene (ρ.number callee) rs') m m' (Named ρ) := by
  have like := mirrors.cells callee
  refine .of_runs (run_cell_bind callee _ m) (run_cell_bind _ _ m') (Nat.le_refl _) ?_
  generalize m.cell callee = c, m'.cell (ρ.number callee) = c' at like ⊢
  obtain ⟨content, stamp⟩ := c
  obtain ⟨_, stamp'⟩ := c'
  obtain ⟨rfl, same⟩ := like
  cases content with
  | builtin b =>
    have count : rs'.length = rs.length := by rw [named.1, List.length_map]
    simp only [Content.rename, count]
    by_cases few : rs.length < b.params.length
    · simp only [if_pos few]
      exact .fail mirrors _ _ _ _ _
    · by_cases many : b.params.length < rs.length
      · simp only [if_neg few, if_pos many]
        exact .fail mirrors _ _ _ _ _
      · simp only [if_neg few, if_neg many]
        have calls : (stamp.context.call b.name stamp.span.start).plain =
            (stamp'.context.call b.name stamp'.span.start).plain := by
          rw [Context.plain_call, Context.plain_call, same, Context.table_eq_of_plain same]
        refine (tracks_bindArguments calls b.params mirrors named).bind
          fun _ _ n n' mirrors _ _ => .note _ _ mirrors fun n n' mirrors => ?_
        exact tracks_perform calls mirrors b
  | _ => exact .fail mirrors _ _ _ _ _

theorem tracks_readNumber (mirrors : m.Mirrors ρ m') (value : Json) :
    Tracks ρ (readNumber value) (readNumber value) m m'
      fun x x' n n' => n = m ∧ n' = m' ∧ x = x' := by
  cases value with
  | string text =>
    rw [readNumber]
    cases Numeral.ofText? text with
    | some numeral => exact .pure mirrors ⟨rfl, rfl, rfl⟩
    | none => exact .throw mirrors rfl
  | _ =>
    simp only [readNumber, fitting]
    cases Json.toNumber _ with
    | ok x => exact .pure mirrors ⟨rfl, rfl, rfl⟩
    | error cause => exact .error rfl rfl mirrors rfl

mutual

theorem tracks_eval (scene : SceneHost) (context : Context) (s : Shift) {m m' : Machine}
    (mirrors : m.Mirrors ρ m') (node : Node) :
    Tracks ρ (eval scene context (s.node node)) (eval scene context node) m m' (Named ρ) := by
  cases node with
  | program body span =>
    rw [Shift.node, eval, eval]
    refine .note _ _ mirrors fun n n' mirrors => ?_
    refine (tracks_evalAll scene context s mirrors body).bind fun _ _ n n' mirrors _ _ => ?_
    exact tracks_clone_constant mirrors .null
  | identifier token span =>
    rw [Shift.node, eval, eval]
    refine .note _ _ mirrors fun n n' mirrors => ?_
    exact (Forge.readName mirrors context rfl _ _).tracks mirrors
  | number token span =>
    rw [Shift.node, eval, eval]
    refine .note _ _ mirrors fun n n' mirrors => ?_
    refine (tracks_readNumber mirrors token.value).look fun x _ same => ?_
    rw [← same]
    exact Forge.tracks mirrors (.alloc_bare rfl rfl)
  | string token span =>
    rw [Shift.node, eval, eval]
    refine .note _ _ mirrors fun n n' mirrors => ?_
    exact Forge.tracks mirrors (.alloc_bare (Content.elements_ofLiteral token.value) rfl)
  | binary left op right span =>
    rw [Shift.node, eval, eval]
    refine .note _ _ mirrors fun n n' mirrors => ?_
    refine (tracks_eval scene context s mirrors left).bind fun a a' n n' mirrors _ first => ?_
    refine (tracks_eval scene context s mirrors right).bind fun b b' n n' mirrors _ second => ?_
    rw [first.1, second.1]
    exact (Forge.combine mirrors context context rfl rfl a b _ _).tracks mirrors
  | unary op operand span =>
    rw [Shift.node, eval, eval]
    refine .note _ _ mirrors fun n n' mirrors => ?_
    refine (tracks_eval scene context s mirrors operand).bind fun a a' n n' mirrors _ named => ?_
    rw [named.1]
    exact tracks_apply mirrors context context rfl named.2 _ _
  | list elements span =>
    rw [Shift.node, eval, eval]
    refine .note _ _ mirrors fun n n' mirrors => ?_
    refine (tracks_evalAll scene context s mirrors elements).bind
      fun rs rs' n n' mirrors _ named => ?_
    rw [named.1]
    exact Forge.tracks mirrors (.alloc (.list rs) named.2 rfl)
  | call callee args span =>
    rw [Shift.node, eval, eval]
    refine .note _ _ mirrors fun n n' mirrors => ?_
    refine (tracks_eval scene context s mirrors callee).bind fun f f' n n' mirrors _ named => ?_
    rw [named.1]
    refine ((Forge.prepareCallee mirrors f _ _).tracks mirrors).bind
      fun f f' n n' mirrors _ prepared => ?_
    refine (tracks_evalAll scene context s mirrors args).bind
      fun rs rs' n n' mirrors _ named => ?_
    rw [prepared.1]
    refine (tracks_execute mirrors f named).bind fun r r' n n' mirrors _ named => ?_
    rw [named.1]
    exact (Forge.takeResult mirrors context r _ _).tracks mirrors
  | assign name value span =>
    rw [Shift.node, eval, eval]
    refine .note _ _ mirrors fun n n' mirrors => ?_
    refine (tracks_eval scene context s mirrors value).bind fun r r' n n' mirrors _ named => ?_
    rw [nameOf, nameOf, Shift.value_token]
    cases Name.ofJson? name.value with
    | none => exact .error rfl rfl mirrors rfl
    | some name =>
      obtain ⟨rfl, existed⟩ := named
      exact .ok rfl rfl (mirrors.bind existed context.table name) (Nat.le_refl _) ⟨rfl, existed⟩
  | blank start stop =>
    rw [Shift.node, eval, eval]
    exact .note _ _ mirrors fun n n' mirrors => .throw mirrors rfl

theorem tracks_evalAll (scene : SceneHost) (context : Context) (s : Shift) {m m' : Machine}
    (mirrors : m.Mirrors ρ m') (nodes : List Node) :
    Tracks ρ (evalAll scene context (s.nodes nodes)) (evalAll scene context nodes) m m'
      (AllNamed ρ) := by
  cases nodes with
  | nil =>
    rw [Shift.nodes, evalAll]
    exact .pure mirrors ⟨rfl, by simp⟩
  | cons node nodes =>
    rw [Shift.nodes, evalAll, evalAll]
    refine (tracks_eval scene context s mirrors node).bind fun r r' n n' mirrors _ first => ?_
    refine (tracks_evalAll scene context s mirrors nodes).bind
      fun rs rs' _ _ mirrors grown others => ?_
    exact .pure mirrors (.cons first others grown)

end

end EvalM

end SceneScript
