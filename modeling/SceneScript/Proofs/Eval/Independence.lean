import SceneScript.Proofs.Eval.Agreement
import SceneScript.Proofs.Parse.Shape

/-!
A program depends on nothing but what the variables that it names amount to.
-/

namespace SceneScript

namespace Runs

open EvalM

variable {α β α' β' : Type} {p : Runs} {names : Name → Prop} {m₁ m₂ m₁' m₂' : Machine}

/-- The calls of one builtin in both runs. -/
structure Sites (p : Runs) (site₁ site₂ : Site) : Prop where
  span : site₁.span = site₂.span
  frames : site₁.context.frames = site₂.context.frames
  table₁ : site₁.context.table = p.context₁.table
  table₂ : site₂.context.table = p.context₂.table

section Builtins

variable {site₁ site₂ : Site} {param : String} {scene : SceneHost}

theorem Sites.fail {done : α → β → Machine → Machine → Prop} (sites : p.Sites site₁ site₂)
    (agree : p.Agree names m₁ m₂) (cause : RuntimeCause) :
    p.Couple names (site₁.fail cause : EvalM α) (site₂.fail cause : EvalM β) m₁ m₂ done := by
  unfold Site.fail
  rw [sites.span]
  exact .fail agree cause _ sites.frames

/-- What the runs find under a parameter. -/
theorem Sites.equivalent (sites : p.Sites site₁ site₂) (agree : p.Agree names m₁ m₂)
    (known : names param) : m₁.Equivalent (m₁.lookup site₁.context.table param) m₂
      (m₂.lookup site₂.context.table param) := by
  rw [sites.table₁, sites.table₂]
  exact agree.named param known

/-- The machines are as they were, and what was found in them is as described. -/
def Found (m₁ m₂ : Machine) (like : α → β → Prop) (a₁ : α) (a₂ : β) (m₁' m₂' : Machine) : Prop :=
  m₁' = m₁ ∧ m₂' = m₂ ∧ like a₁ a₂

theorem Couple.look {x₁ : EvalM α} {x₂ : EvalM β} {f₁ : α → EvalM α'} {f₂ : β → EvalM β'}
    {like : α → β → Prop} {next : α' → β' → Machine → Machine → Prop}
    (first : p.Couple names x₁ x₂ m₁ m₂ (Found m₁ m₂ like))
    (second : ∀ a₁ a₂, like a₁ a₂ → p.Couple names (f₁ a₁) (f₂ a₂) m₁ m₂ next) :
    p.Couple names (x₁ >>= f₁) (x₂ >>= f₂) m₁ m₂ next := by
  refine first.bind ?_
  rintro a₁ a₂ _ _ - ⟨rfl, rfl, holds⟩
  exact second a₁ a₂ holds

theorem couple_argument (sites : p.Sites site₁ site₂) (agree : p.Agree names m₁ m₂)
    (known : names param) : p.Couple names (site₁.argument param) (site₂.argument param) m₁ m₂
      (Found m₁ m₂ fun c₁ c₂ => ∃ d, m₁.Amounts c₁.content d ∧ m₂.Amounts c₂.content d) := by
  refine .get_bind ?_
  rcases sites.equivalent agree known with ⟨none₁, none₂⟩ |
    ⟨r₁, r₂, d, found₁, found₂, ⟨c₁, there₁, amounts₁⟩, ⟨c₂, there₂, amounts₂⟩⟩
  · simp only [none₁, none₂]
    exact .throw agree rfl
  · simp only [found₁, found₂, Machine.cell_of_getElem? there₁, Machine.cell_of_getElem? there₂]
    exact .pure agree ⟨rfl, rfl, d, amounts₁, amounts₂⟩

theorem couple_listArgument (sites : p.Sites site₁ site₂) (agree : p.Agree names m₁ m₂)
    (known : names param) (cause : RuntimeCause) :
    p.Couple names (site₁.listArgument param cause) (site₂.listArgument param cause) m₁ m₂
      (Found m₁ m₂ fun rs₁ rs₂ => ∃ ds, m₁.AmountAll rs₁ ds ∧ m₂.AmountAll rs₂ ds) := by
  refine (couple_argument sites agree known).look ?_
  rintro ⟨content₁, _⟩ ⟨content₂, _⟩ ⟨d, amounts₁, amounts₂⟩
  cases amounts₁.paired amounts₂ with
  | list all₁ all₂ => exact .pure agree ⟨rfl, rfl, _, all₁, all₂⟩
  | number | text | builtin => exact sites.fail agree cause

/-- At one index, both lists have nothing or values that amount to the same. -/
theorem equivalent_getElem? {rs₁ rs₂ : List Ref} {ds : List Datum} (all₁ : m₁.AmountAll rs₁ ds)
    (all₂ : m₂.AmountAll rs₂ ds) (i : Nat) : m₁.Equivalent rs₁[i]? m₂ rs₂[i]? := by
  rcases all₁.getElem? i with ⟨none₁, none⟩ | ⟨r₁, d, found₁, there, stands₁⟩
  · rcases all₂.getElem? i with ⟨none₂, -⟩ | ⟨_, _, _, there, -⟩
    · exact .inl ⟨none₁, none₂⟩
    · rw [none] at there
      cases there
  · rcases all₂.getElem? i with ⟨-, none⟩ | ⟨r₂, e, found₂, there', stands₂⟩
    · rw [none] at there
      cases there
    · rw [there] at there'
      cases there'
      exact .inr ⟨r₁, r₂, d, found₁, found₂, stands₁, stands₂⟩

theorem equivalent_elementAt? {rs₁ rs₂ : List Ref} {ds : List Datum} (all₁ : m₁.AmountAll rs₁ ds)
    (all₂ : m₂.AmountAll rs₂ ds) (x : Float) :
    m₁.Equivalent (elementAt? rs₁ x) m₂ (elementAt? rs₂ x) := by
  unfold elementAt?
  split
  · split
    · exact .inl ⟨rfl, rfl⟩
    · cases Binary64.integer? _ _ with
      | none => exact .inl ⟨rfl, rfl⟩
      | some i => exact equivalent_getElem? all₁ all₂ i
  · exact .inl ⟨rfl, rfl⟩

theorem couple_component (sites : p.Sites site₁ site₂) (agree : p.Agree names m₁ m₂)
    {rs₁ rs₂ : List Ref} {ds : List Datum} (all₁ : m₁.AmountAll rs₁ ds)
    (all₂ : m₂.AmountAll rs₂ ds) (number index : Nat) :
    p.Couple names (site₁.component rs₁ number index) (site₂.component rs₂ number index) m₁ m₂
      (Found m₁ m₂ Eq) := by
  refine .get_bind ?_
  rcases equivalent_getElem? all₁ all₂ index with ⟨none₁, none₂⟩ |
    ⟨r₁, r₂, d, found₁, found₂, ⟨⟨content₁, _⟩, there₁, amounts₁⟩,
      ⟨⟨content₂, _⟩, there₂, amounts₂⟩⟩
  · rw [none₁, none₂]
    exact sites.fail agree _
  · rw [found₁, found₂, Option.map_some, Option.map_some, Machine.cell_of_getElem? there₁,
      Machine.cell_of_getElem? there₂]
    cases amounts₁.paired amounts₂ with
    | number x => exact .pure agree ⟨rfl, rfl, rfl⟩
    | text | list | builtin => exact sites.fail agree _

theorem couple_tripleArgument (sites : p.Sites site₁ site₂) (agree : p.Agree names m₁ m₂)
    (known : names param) (number : Nat) :
    p.Couple names (site₁.tripleArgument param number) (site₂.tripleArgument param number) m₁ m₂
      (Found m₁ m₂ Eq) := by
  refine (couple_listArgument sites agree known _).look fun rs₁ rs₂ ⟨ds, all₁, all₂⟩ => ?_
  refine (couple_component sites agree all₁ all₂ number 0).look fun x _ same => ?_
  refine (couple_component sites agree all₁ all₂ number 1).look fun y _ same' => ?_
  refine (couple_component sites agree all₁ all₂ number 2).look fun z _ same'' => ?_
  rw [same, same', same'']
  exact .pure agree ⟨rfl, rfl, rfl⟩

theorem couple_colorArgument (sites : p.Sites site₁ site₂) (agree : p.Agree names m₁ m₂)
    (known : names "color") (kind : SceneKind) (number : Nat) :
    p.Couple names (site₁.colorArgument scene kind number) (site₂.colorArgument scene kind number)
      m₁ m₂ (Found m₁ m₂ Eq) := by
  refine (couple_argument sites agree known).look ?_
  rintro ⟨content₁, _⟩ ⟨content₂, _⟩ ⟨d, amounts₁, amounts₂⟩
  cases amounts₁.paired amounts₂ with
  | text s => exact .pure agree ⟨rfl, rfl, rfl⟩
  | number | list | builtin => exact sites.fail agree _

theorem Agree.equals_null (agree : p.Agree names m₁ m₂) :
    Equals (Machine.constant .null) (Machine.constant .null) m₁ m₂ :=
  ⟨.number 0, agree.null₁, agree.null₂⟩

theorem couple_request (sites : p.Sites site₁ site₂) (agree : p.Agree names m₁ m₂)
    (r : SceneRequest) :
    p.Couple names (request scene site₁ r) (request scene site₂ r) m₁ m₂ Equals := by
  refine .get_bind ?_
  rw [agree.scene]
  cases (scene.closed r.kind).or (scene.refuse m₂.scene r) with
  | some message => exact sites.fail agree _
  | none =>
    have accepted := agree.accept r
    rw [agree.scene] at accepted
    exact .ok rfl rfl accepted accepted.equals_null

theorem couple_place (sites : p.Sites site₁ site₂) (agree : p.Agree names m₁ m₂) (shape : Shape)
    {dimensions : String} (known : names dimensions ∧ names "listXYZ" ∧ names "color") :
    p.Couple names (place scene site₁ shape dimensions) (place scene site₂ shape dimensions) m₁ m₂
      Equals := by
  refine (couple_tripleArgument sites agree known.1 1).look fun size _ same => ?_
  refine (couple_tripleArgument sites agree known.2.1 2).look fun position _ same' => ?_
  refine (couple_colorArgument sites agree known.2.2 _ 3).look fun color _ same'' => ?_
  rw [same, same', same'']
  exact couple_request sites agree _

/-- A new list with one more element. -/
theorem stands_append {m : Machine} {rs : List Ref} {ds : List Datum} {r : Ref} {d : Datum}
    (all : m.AmountAll rs ds) (stands : m.Stands r d) (stamp : Stamp) :
    (m.alloc ⟨.list (rs ++ [r]), stamp⟩).2.Stands m.cells.size (.list (ds ++ [d])) := by
  refine ⟨_, Machine.getElem?_alloc_self m _, ?_⟩
  have amounts : m.Amounts (.list (rs ++ [r])) (.list (ds ++ [d])) :=
    ⟨_, rfl, all.append (Machine.amountAll_singleton stands)⟩
  exact amounts.later (Machine.Quiet.alloc m _).contents _

theorem couple_print (sites : p.Sites site₁ site₂) (agree : p.Agree names m₁ m₂)
    (known : names "value") :
    p.Couple names (perform scene site₁ .print) (perform scene site₂ .print) m₁ m₂ Equals := by
  refine .get_bind ?_
  rcases sites.equivalent agree known with ⟨none₁, none₂⟩ |
    ⟨r₁, r₂, d, found₁, found₂, stands₁, stands₂⟩
  · rw [none₁, none₂]
    exact .throw agree rfl
  · simp only [found₁, found₂, stands₁.display_view, stands₂.display_view]
    have printed := agree.print (d.display ++ "\n")
    simp only [← String.append_assoc] at printed
    exact .ok rfl rfl printed printed.equals_null

theorem couple_get (sites : p.Sites site₁ site₂) (agree : p.Agree names m₁ m₂)
    (known : names "list" ∧ names "index") :
    p.Couple names (perform scene site₁ .get) (perform scene site₂ .get) m₁ m₂ Equals := by
  refine (couple_listArgument sites agree known.1 _).look fun rs₁ rs₂ ⟨ds, all₁, all₂⟩ => ?_
  refine (couple_argument sites agree known.2).look ?_
  rintro ⟨content₁, _⟩ ⟨content₂, _⟩ ⟨d, amounts₁, amounts₂⟩
  cases amounts₁.paired amounts₂ with
  | number x =>
    rcases equivalent_elementAt? all₁ all₂ x with ⟨none₁, none₂⟩ |
      ⟨r₁, r₂, d, found₁, found₂, stands₁, stands₂⟩
    · simp only [none₁, none₂]
      exact sites.fail agree _
    · simp only [found₁, found₂]
      exact .pure agree ⟨d, stands₁, stands₂⟩
  | text | list | builtin => exact sites.fail agree _

theorem couple_append (sites : p.Sites site₁ site₂) (agree : p.Agree names m₁ m₂)
    (known : names "list" ∧ names "value") :
    p.Couple names (perform scene site₁ .append) (perform scene site₂ .append) m₁ m₂ Equals := by
  refine (couple_argument sites agree known.1).look ?_
  rintro ⟨content₁, stamp₁⟩ ⟨content₂, stamp₂⟩ ⟨d, amounts₁, amounts₂⟩
  cases amounts₁.paired amounts₂ with
  | @list _ _ ds all₁ all₂ =>
    refine .get_bind ?_
    rcases sites.equivalent agree known.2 with ⟨none₁, none₂⟩ |
      ⟨r₁, r₂, d, found₁, found₂, stands₁, stands₂⟩
    · simp only [none₁, none₂]
      exact .throw agree rfl
    · simp only [found₁, found₂]
      refine .ok rfl rfl (agree.quiet (.alloc m₁ _) (.alloc m₂ _)) ⟨.list (ds ++ [d]), ?_, ?_⟩
      · exact stands_append all₁ stands₁ stamp₁
      · exact stands_append all₂ stands₂ stamp₂
  | number | text | builtin => exact sites.fail agree _

theorem couple_perform (sites : p.Sites site₁ site₂) (agree : p.Agree names m₁ m₂) {b : Builtin}
    (standard : b ∈ Builtin.core ++ Builtin.scene)
    (known : ∀ param ∈ b.params, names (.text param)) :
    p.Couple names (perform scene site₁ b) (perform scene site₂ b) m₁ m₂ Equals := by
  cases b with
  | print => exact couple_print sites agree (known _ (by simp [Builtin.params]))
  | get =>
    exact couple_get sites agree
      ⟨known _ (by simp [Builtin.params]), known _ (by simp [Builtin.params])⟩
  | append =>
    exact couple_append sites agree
      ⟨known _ (by simp [Builtin.params]), known _ (by simp [Builtin.params])⟩
  | setBackgroundColor =>
    refine (couple_colorArgument sites agree (known "color" (by simp [Builtin.params])) _ _).look
      fun color _ same => ?_
    rw [same]
    exact couple_request sites agree _
  | block | pyramid =>
    exact couple_place sites agree _
      ⟨known _ (by simp [Builtin.params]), known _ (by simp [Builtin.params]),
        known _ (by simp [Builtin.params])⟩
  | host | foreign => simp [Builtin.core, Builtin.scene] at standard

end Builtins

theorem couple_bindArguments (c₁ c₂ : Context) (table₁ : c₁.table = p.context₁.table)
    (table₂ : c₂.table = p.context₂.table) (params : List String) {ds : List Datum}
    (count : ds.length = params.length) {rs₁ rs₂ : List Ref} (agree : p.Agree names m₁ m₂)
    (all₁ : m₁.AmountAll rs₁ ds) (all₂ : m₂.AmountAll rs₂ ds) :
    p.Couple (fun name => (∃ param ∈ params, name = .text param) ∨ names name)
      (bindArguments c₁ params rs₁) (bindArguments c₂ params rs₂) m₁ m₂ fun _ _ _ _ => True := by
  induction params generalizing names m₁ m₂ rs₁ rs₂ ds with
  | nil => exact .ok rfl rfl (agree.mono (by simp)) trivial
  | cons param params ih =>
    cases ds with
    | nil => cases count
    | cons d ds =>
      obtain ⟨r₁, rest₁, rfl, ⟨a₁, there₁, amounts₁⟩, others₁⟩ := Machine.amountAll_cons.mp all₁
      obtain ⟨r₂, rest₂, rfl, ⟨a₂, there₂, amounts₂⟩, others₂⟩ := Machine.amountAll_cons.mp all₂
      have quiet₁ := Machine.Quiet.alloc m₁ ⟨a₁.content, ⟨a₁.stamp.span, c₁⟩⟩
      have quiet₂ := Machine.Quiet.alloc m₂ ⟨a₂.content, ⟨a₂.stamp.span, c₂⟩⟩
      have copied := agree.quiet quiet₁ quiet₂
      have stands {m : Machine} (c : Cell) (amounts : m.Amounts c.content d) :
          (m.alloc c).2.Stands m.cells.size d :=
        ⟨c, Machine.getElem?_alloc_self m c,
          amounts.later (Machine.Quiet.alloc m c).contents d⟩
      have bound := copied.bind param (stands ⟨a₁.content, ⟨a₁.stamp.span, c₁⟩⟩ amounts₁)
        (stands ⟨a₂.content, ⟨a₂.stamp.span, c₂⟩⟩ amounts₂)
      have kept (m : Machine) (id : TableId) (r : Ref) : m.SameContents (m.bind id param r) :=
        (Machine.Extends.of_cells rfl).sameContents
      refine Couple.of_runs ?_ ?_ ((ih (Nat.succ.inj count) bound
        ((others₁.later quiet₁.contents ds).later (kept _ _ _) ds)
        ((others₂.later quiet₂.contents ds).later (kept _ _ _) ds)).mono ?_ fun _ _ _ _ => id)
      · rw [run_bindArguments_cons, Machine.cell_of_getElem? there₁,
          Cell.copied_of_firm amounts₁.firm, table₁]
      · rw [run_bindArguments_cons, Machine.cell_of_getElem? there₂,
          Cell.copied_of_firm amounts₂.firm, table₂]
      · rintro name (⟨other, member, rfl⟩ | known)
        · rcases List.mem_cons.mp member with rfl | later
          · exact .inr (.inl rfl)
          · exact .inl ⟨other, later, rfl⟩
        · exact .inr (.inr known)

theorem couple_execute {scene : SceneHost} (agree : p.Agree names m₁ m₂) {f₁ f₂ : Ref}
    (twins : p.Twins f₁ f₂ m₁ m₂) {rs₁ rs₂ : List Ref} {ds : List Datum}
    (all₁ : m₁.AmountAll rs₁ ds) (all₂ : m₂.AmountAll rs₂ ds) :
    p.Couple names (execute scene f₁ rs₁) (execute scene f₂ rs₂) m₁ m₂ Equals := by
  obtain ⟨⟨a₁, _⟩, ⟨a₂, _⟩, there₁, there₂, d, span, amounts₁, amounts₂, rfl, rfl⟩ := twins
  have illegal : p.Couple names
      (EvalM.illegal ⟨a₁, ⟨span, p.context₁⟩⟩ ⟨a₁, ⟨span, p.context₁⟩⟩ : EvalM Ref)
      (EvalM.illegal ⟨a₂, ⟨span, p.context₂⟩⟩ ⟨a₂, ⟨span, p.context₂⟩⟩ : EvalM Ref) m₁ m₂ Equals :=
    .fail agree _ _ p.frames
  refine Couple.of_runs (run_cell_bind f₁ _ m₁) (run_cell_bind f₂ _ m₂) ?_
  rw [Machine.cell_of_getElem? there₁, Machine.cell_of_getElem? there₂]
  cases d with
  | number | text =>
    cases amounts₁
    cases amounts₂
    exact illegal
  | list =>
    obtain ⟨_, rfl, -⟩ := amounts₁
    obtain ⟨_, rfl, -⟩ := amounts₂
    exact illegal
  | builtin b =>
    obtain ⟨rfl, standard⟩ := amounts₁
    obtain ⟨rfl, -⟩ := amounts₂
    simp only [all₁.length_eq, all₂.length_eq]
    by_cases few : ds.length < b.params.length
    · simp only [if_pos few]
      exact .fail agree _ _ p.frames
    · by_cases many : b.params.length < ds.length
      · simp only [if_neg few, if_pos many]
        exact .fail agree _ _ p.frames
      · simp only [if_neg few, if_neg many]
        have bound := couple_bindArguments (p.context₁.call b.name span.start)
          (p.context₂.call b.name span.start) rfl rfl b.params (by omega) agree all₁ all₂
        refine (bound.bind fun _ _ m₁' m₂' agree _ => .note rfl agree fun m₁' m₂' agree => ?_).mono
          (fun name known => .inr known) fun _ _ _ _ => id
        have sites : p.Sites ⟨span, p.context₁.call b.name span.start, f₁⟩
            ⟨span, p.context₂.call b.name span.start, f₂⟩ := by
          refine ⟨rfl, ?_, rfl, rfl⟩
          rw [Context.frames_call, Context.frames_call, p.frames]
        exact couple_perform sites agree standard fun param member => .inl ⟨param, member, rfl⟩

theorem Couple.framed {x₁ : EvalM α} {x₂ : EvalM β} {done : α → β → Machine → Machine → Prop}
    {P : α → Prop} {Q : β → Prop} (couple : p.Couple names x₁ x₂ m₁ m₂ done)
    (frames₁ : Frames m₁ x₁ P) (frames₂ : Frames m₂ x₂ Q) :
    p.Couple names x₁ x₂ m₁ m₂ fun a₁ a₂ m₁' m₂' =>
      (m₁.Extends m₁' ∧ m₂.Extends m₂') ∧ done a₁ a₂ m₁' m₂' := by
  cases couple with
  | error ran₁ ran₂ agree alike => exact .error ran₁ ran₂ agree alike
  | ok ran₁ ran₂ agree holds =>
    have more₁ := Ends.of_ok (frames₁ m₁ (.refl m₁)) ran₁
    have more₂ := Ends.of_ok (frames₂ m₂ (.refl m₂)) ran₂
    exact .ok ran₁ ran₂ agree ⟨⟨more₁.1, more₂.1⟩, holds⟩

/-- The names that are read in the nodes are among the given ones. -/
def Covers (names : Name → Prop) (nodes : List Node) : Prop :=
  ∀ node ∈ nodes, ∀ name, node.read? = some name → names name

theorem Covers.left {first second : List Node} (covers : Covers names (first ++ second)) :
    Covers names first := fun node member => covers node (List.mem_append_left _ member)

theorem Covers.right {first second : List Node} (covers : Covers names (first ++ second)) :
    Covers names second := fun node member => covers node (List.mem_append_right _ member)

mutual

theorem couple_eval (scene : SceneHost) {m₁ m₂ : Machine} (agree : p.Agree names m₁ m₂)
    (node : Node) (expression : node.IsExpression) (covers : Covers names node.order) :
    p.Couple names (eval scene p.context₁ node) (eval scene p.context₂ node) m₁ m₂ p.Twins := by
  cases node with
  | program | blank => exact (expression _ (Node.mem_order_self _)).elim
  | identifier token span =>
    rw [eval, eval]
    refine .note rfl agree fun m₁ m₂ agree => (MakeLike.readName agree ?_ span).couple agree
    exact covers _ (Node.mem_order_self _)
  | number token span =>
    obtain ⟨s, text⟩ := expression _ (Node.mem_order_self _)
    rw [eval, eval, text]
    refine .note rfl agree fun m₁ m₂ agree => ?_
    rw [readNumber]
    cases Numeral.ofText? s with
    | none => exact .error rfl rfl agree (Failure.Alike.refl .notANumeral)
    | some numeral =>
      exact (MakeLike.alloc (d := .number numeral.value.toFloat) rfl rfl span).couple agree
  | string token span =>
    obtain ⟨s, text⟩ := expression _ (Node.mem_order_self _)
    rw [eval, eval, text]
    refine .note rfl agree fun m₁ m₂ agree => ?_
    exact (MakeLike.alloc (d := .text s) rfl rfl span).couple agree
  | binary left op right span =>
    obtain ⟨first, second⟩ := Node.isExpression_binary.mp expression
    rw [eval, eval]
    refine .note rfl agree fun m₁ m₂ agree => ?_
    refine (couple_eval scene agree left first covers.left.left).bind ?_
    intro a₁ a₂ m₁ m₂ agree twins
    refine ((couple_eval scene agree right second covers.left.right).framed
      (.eval scene.keepsValues _ right) (.eval scene.keepsValues _ right)).bind
      fun b₁ b₂ m₁' m₂' agree ⟨more, twins'⟩ => ?_
    exact (MakeLike.combine op (twins.later more.1 more.2) twins' span).couple agree
  | unary op operand span =>
    rw [eval, eval]
    refine .note rfl agree fun m₁ m₂ agree => ?_
    refine (couple_eval scene agree operand (Node.isExpression_unary.mp expression)
      covers.left).bind fun a₁ a₂ m₁ m₂ agree twins => ?_
    exact couple_apply agree op twins span
  | list elements span =>
    rw [eval, eval]
    refine .note rfl agree fun m₁ m₂ agree => ?_
    refine (couple_evalAll scene agree elements (Node.isExpression_list.mp expression)
      covers.left).bind fun rs₁ rs₂ m₁ m₂ agree ⟨ds, all₁, all₂⟩ => ?_
    exact (MakeLike.alloc (d := .list ds) ⟨rs₁, rfl, all₁⟩ ⟨rs₂, rfl, all₂⟩ span).couple agree
  | call callee args span =>
    obtain ⟨first, others⟩ := Node.isExpression_call.mp expression
    have honest := scene.keepsValues
    rw [eval, eval]
    refine .note rfl agree fun m₁ m₂ agree => ?_
    refine (couple_eval scene agree callee first covers.left.left).bind
      fun _ _ m₁ m₂ agree twins => ?_
    refine ((MakeLike.prepareCallee twins span).couple agree).bind
      fun f₁ f₂ m₁ m₂ agree twins => ?_
    refine ((couple_evalAll scene agree args others covers.left.right).framed
      (.evalAll honest _ args) (.evalAll honest _ args)).bind
      fun rs₁ rs₂ m₁' m₂' agree ⟨more, ds, all₁, all₂⟩ => ?_
    refine (couple_execute agree (twins.later more.1 more.2) all₁ all₂).bind
      fun r₁ r₂ m₁ m₂ agree equals => ?_
    exact (MakeLike.takeResult equals span).couple agree
  | assign name value span =>
    obtain ⟨inner, s, named⟩ := Node.isExpression_assign.mp expression
    rw [eval, eval]
    refine .note rfl agree fun m₁ m₂ agree => ?_
    refine (couple_eval scene agree value inner covers.left).bind fun r₁ r₂ m₁ m₂ agree twins => ?_
    rw [nameOf, named]
    obtain ⟨d, stands₁, stands₂⟩ := twins.equals
    have bound := (agree.bind (.text s) stands₁ stands₂).mono fun name known => .inr known
    exact .ok rfl rfl bound (twins.later (.of_cells rfl) (.of_cells rfl))

theorem couple_evalAll (scene : SceneHost) {m₁ m₂ : Machine} (agree : p.Agree names m₁ m₂)
    (nodes : List Node) (expressions : Node.AreExpressions nodes)
    (covers : Covers names (Node.orderAll nodes)) :
    p.Couple names (evalAll scene p.context₁ nodes) (evalAll scene p.context₂ nodes) m₁ m₂
      fun rs₁ rs₂ m₁' m₂' => ∃ ds, m₁'.AmountAll rs₁ ds ∧ m₂'.AmountAll rs₂ ds := by
  cases nodes with
  | nil =>
    rw [evalAll, evalAll]
    exact .pure agree ⟨[], rfl, rfl⟩
  | cons node nodes =>
    obtain ⟨first, others⟩ := Node.areExpressions_cons.mp expressions
    have honest := scene.keepsValues
    rw [evalAll, evalAll]
    refine (couple_eval scene agree node first covers.left).bind fun r₁ r₂ m₁ m₂ agree twins => ?_
    refine ((couple_evalAll scene agree nodes others covers.right).framed
      (.evalAll honest _ nodes) (.evalAll honest _ nodes)).bind
      fun rs₁ rs₂ m₁' m₂' agree ⟨more, ds, all₁, all₂⟩ => ?_
    obtain ⟨d, stands₁, stands₂⟩ := (twins.later more.1 more.2).equals
    exact .pure agree ⟨d :: ds, Machine.amountAll_cons.mpr ⟨r₁, rs₁, rfl, stands₁, all₁⟩,
      Machine.amountAll_cons.mpr ⟨r₂, rs₂, rfl, stands₂, all₂⟩⟩

end

theorem couple_runProgram (p : Runs) (scene : SceneHost) (agree : p.Agree names m₁ m₂)
    {program : Program} (expressions : Node.AreExpressions program.body)
    (covers : Covers names program.toNode.order) :
    p.Couple names (runProgram scene p.context₁ program) (runProgram scene p.context₂ program)
      m₁ m₂ fun _ _ _ _ => True := by
  refine .note rfl agree fun m₁ m₂ agree => ?_
  rw [Program.toNode, eval, eval]
  refine Couple.bind ?_ fun _ _ _ _ agree (_ : True) => .pure agree trivial
  refine .note rfl agree fun m₁ m₂ agree => ?_
  refine (couple_evalAll scene agree program.body expressions covers.left).bind
    fun _ _ m₁ m₂ agree _ => ?_
  have copied {m : Machine} {r : Ref} {d : Datum} (stands : m.Stands r d) :
      ∃ c, (clone r).run m = .ok m.cells.size (m.alloc c).2 := by
    obtain ⟨c, there, amounts⟩ := stands
    refine ⟨c, ?_⟩
    rw [run_clone, Machine.cell_of_getElem? there, Cell.copied_of_firm amounts.firm]
    rfl
  obtain ⟨c₁, ran₁⟩ := copied agree.null₁
  obtain ⟨c₂, ran₂⟩ := copied agree.null₂
  exact .ok ran₁ ran₂ (agree.quiet (.alloc m₁ c₁) (.alloc m₂ c₂)) trivial

end Runs

/-- Two runs of a program in contexts with the same frames. The names that it reads, and any others
    that are of interest, are unbound in both or bound to values that amount to the same; everything
    else may differ. Then both runs print the same, make the same requests and succeed, or fail with
    the same report, and the names are as equivalent as before. -/
theorem behaviour_depends_on_named_values {f : FrontEnd} {origin : Origin} {program : Program}
    (parsed : f.parse origin = .ok program) (scene : SceneHost) {names : Name → Prop}
    (covers : Runs.Covers names program.toNode.order) {c₁ c₂ : Context}
    (frames : c₁.frames = c₂.frames) {m₁ m₂ : Machine} (table₁ : c₁.table < m₁.tables.size)
    (table₂ : c₂.table < m₂.tables.size) (null₁ : m₁.Stands (Machine.constant .null) (.number 0))
    (null₂ : m₂.Stands (Machine.constant .null) (.number 0)) (scenes : m₁.scene = m₂.scene)
    (named : ∀ name, names name →
      m₁.Equivalent (m₁.lookup c₁.table name) m₂ (m₂.lookup c₂.table name)) :
    ∃ m₁' m₂',
      (((EvalM.runProgram scene c₁ program).run m₁ = .ok () m₁' ∧
          (EvalM.runProgram scene c₂ program).run m₂ = .ok () m₂') ∨
        ∃ e₁ e₂, (EvalM.runProgram scene c₁ program).run m₁ = .error e₁ m₁' ∧
          (EvalM.runProgram scene c₂ program).run m₂ = .error e₂ m₂' ∧ e₁.Alike e₂) ∧
      (∃ text, m₁'.output = m₁.output ++ text ∧ m₂'.output = m₂.output ++ text) ∧
      (∃ made, m₁'.requests = m₁.requests ++ made ∧ m₂'.requests = m₂.requests ++ made) ∧
      m₁'.scene = m₂'.scene ∧
      ∀ name, names name →
        m₁'.Equivalent (m₁'.lookup c₁.table name) m₂' (m₂'.lookup c₂.table name) := by
  let p : Runs := ⟨m₁, m₂, c₁, c₂, frames⟩
  have agree : p.Agree names m₁ m₂ :=
    ⟨table₁, table₂, null₁, null₂, named, scenes, ⟨"", by simp [p]⟩, ⟨[], by simp [p]⟩⟩
  have couple := p.couple_runProgram scene agree (f.areExpressions_of_parse parsed) covers
  cases couple with
  | ok ran₁ ran₂ agree =>
    exact ⟨_, _, .inl ⟨ran₁, ran₂⟩, agree.output, agree.requests, agree.scene, agree.named⟩
  | error ran₁ ran₂ agree alike =>
    exact ⟨_, _, .inr ⟨_, _, ran₁, ran₂, alike⟩, agree.output, agree.requests, agree.scene,
      agree.named⟩

/-- In the second run there is one more variable, of which the program does not speak. -/
theorem printing_ignores_other_variables : ∃ program m₁' m₂',
    FrontEnd.precedence.parse ⟨"greeting", "print(\"a\");"⟩ = .ok program ∧
    (EvalM.runProgram (SceneHost.recording .none) (.top "<program>" 1) program).after
      (Machine.initial.programContext []).2 = m₁' ∧
    (EvalM.runProgram (SceneHost.recording .none) (.top "<program>" 1) program).after
      ((Machine.initial.programContext []).2.bind 1 "x" 0) = m₂' ∧ m₁'.output = m₂'.output := by
  obtain ⟨program, parsed⟩ : ∃ program,
      FrontEnd.precedence.parse ⟨"greeting", "print(\"a\");"⟩ = .ok program :=
    FrontEnd.exists_of_toBool (by decide +kernel)
  have reads : (FrontEnd.precedence.parse ⟨"greeting", "print(\"a\");"⟩).toOption.map
      (fun program => program.toNode.order.filterMap Node.read?) = some [.text "print"] := by
    decide +kernel
  have covers : Runs.Covers (· = .text "print") program.toNode.order := by
    intro node member name read
    have listed := List.mem_filterMap.mpr ⟨node, member, read⟩
    rw [parsed] at reads
    have all : program.toNode.order.filterMap Node.read? = [.text "print"] := Option.some.inj reads
    rw [all, List.mem_singleton] at listed
    exact listed
  have own : ((Machine.initial.programContext []).2.table 1).own? (.text "print") = some 3 := by
    decide +kernel
  have printer : (Machine.initial.programContext []).2.Stands 3 (.builtin .print) :=
    ⟨_, rfl, rfl, by simp [Builtin.core]⟩
  have null : (Machine.initial.programContext []).2.Stands (Machine.constant .null) (.number 0) :=
    ⟨_, rfl, rfl⟩
  have table : 1 < (Machine.initial.programContext []).2.tables.size := by decide
  generalize (Machine.initial.programContext []).2 = m at own printer null table ⊢
  have bound : m.SameContents (m.bind 1 "x" 0) := (Machine.Extends.of_cells rfl).sameContents
  have named (name : Name) (is : name = .text "print") :
      m.Equivalent (m.lookup 1 name) (m.bind 1 "x" 0) ((m.bind 1 "x" 0).lookup 1 name) := by
    rw [is, Machine.lookup_bind table, if_neg (by decide), Machine.lookup, own]
    exact .inr ⟨3, 3, .builtin .print, rfl, rfl, printer, printer.later bound⟩
  have table' : 1 < (m.bind 1 "x" 0).tables.size := by
    rw [Machine.bind, Array.size_modify]
    exact table
  have frames : (Context.top "<program>" 1).frames = (Context.top "<program>" 1).frames := rfl
  obtain ⟨m₁', m₂', ends, ⟨text, output₁, output₂⟩, -⟩ := behaviour_depends_on_named_values parsed
    (.recording .none) covers frames table table' null (null.later bound) rfl named
  refine ⟨program, m₁', m₂', parsed, ?_, ?_, output₁.trans output₂.symm⟩
  · rcases ends with ⟨ran, -⟩ | ⟨_, _, ran, -⟩
    · rw [EvalM.after, ran]
    · rw [EvalM.after, ran]
  · rcases ends with ⟨-, ran⟩ | ⟨_, _, -, ran, -⟩
    · rw [EvalM.after, ran]
    · rw [EvalM.after, ran]

end SceneScript
