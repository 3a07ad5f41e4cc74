import SceneScript.Proofs.Value.Mirror

/-!
Evaluations that go the same way on machines that mirror each other: they end alike, on machines
that still do.
-/

namespace SceneScript

/-- Why an evaluation stopped, without the place. -/
def Failure.bare : Failure → Failure
  | .runtime fault => .runtime ⟨fault.cause, .nowhere, none⟩
  | failure => failure

namespace EvalM

/-- From machines that mirror each other, both evaluations succeed or both fail for the same reason.
    No value is lost. -/
inductive Tracks {α β : Type} (ρ : Renaming) (x : EvalM α) (y : EvalM β) (m m' : Machine)
    (done : α → β → Machine → Machine → Prop) : Prop
  | ok {a : α} {b : β} {n n' : Machine} (ran : x.run m = .ok a n) (ran' : y.run m' = .ok b n')
      (mirrors : n.Mirrors ρ n') (grown : m.cells.size ≤ n.cells.size) (holds : done a b n n')
  | error {e e' : Failure} {n n' : Machine} (ran : x.run m = .error e n)
      (ran' : y.run m' = .error e' n') (mirrors : n.Mirrors ρ n') (alike : e.bare = e'.bare)

variable {α β α' β' : Type} {ρ : Renaming} {m m' : Machine}

/-- A value that exists, and its other number. -/
def Named (ρ : Renaming) (r r' : Ref) (m _m' : Machine) : Prop :=
  r' = ρ.number r ∧ r < m.cells.size

def AllNamed (ρ : Renaming) (rs rs' : List Ref) (m _m' : Machine) : Prop :=
  rs' = rs.map ρ.number ∧ ∀ r ∈ rs, r < m.cells.size

theorem Named.constant (mirrors : m.Mirrors ρ m') (c : Constant) :
    Named ρ (Machine.constant c) (Machine.constant c) m m' :=
  ⟨(ρ.constant c).symm, mirrors.constant_lt c⟩

theorem AllNamed.cons {n n' : Machine} {r r' : Ref} {rs rs' : List Ref} (first : Named ρ r r' m m')
    (others : AllNamed ρ rs rs' n n') (grown : m.cells.size ≤ n.cells.size) :
    AllNamed ρ (r :: rs) (r' :: rs') n n' := by
  refine ⟨by rw [first.1, others.1, List.map_cons], fun s member => ?_⟩
  rcases List.mem_cons.mp member with rfl | later
  · exact Nat.lt_of_lt_of_le first.2 grown
  · exact others.2 s later

namespace Tracks

variable {x : EvalM α} {y : EvalM β} {done : α → β → Machine → Machine → Prop}

theorem of_runs {n k : Machine} {u : EvalM α} {v : EvalM β} (same : x.run m = u.run n)
    (same' : y.run m' = v.run k) (grown : m.cells.size ≤ n.cells.size)
    (tracks : Tracks ρ u v n k done) : Tracks ρ x y m m' done := by
  cases tracks with
  | ok ran ran' mirrors more holds =>
    exact .ok (same.trans ran) (same'.trans ran') mirrors (Nat.le_trans grown more) holds
  | error ran ran' mirrors alike =>
    exact .error (same.trans ran) (same'.trans ran') mirrors alike

theorem bind {f : α → EvalM α'} {g : β → EvalM β'} {next : α' → β' → Machine → Machine → Prop}
    (first : Tracks ρ x y m m' done)
    (second : ∀ a b n n', n.Mirrors ρ n' → m.cells.size ≤ n.cells.size → done a b n n' →
      Tracks ρ (f a) (g b) n n' next) : Tracks ρ (x >>= f) (y >>= g) m m' next := by
  cases first with
  | error ran ran' mirrors alike =>
    refine .error ?_ ?_ mirrors alike
    · rw [run_bind, ran]
    · rw [run_bind, ran']
  | ok ran ran' mirrors grown holds =>
    refine of_runs ?_ ?_ grown (second _ _ _ _ mirrors grown holds)
    · rw [run_bind, ran]
    · rw [run_bind, ran']

theorem pure {a : α} {b : β} (mirrors : m.Mirrors ρ m') (holds : done a b m m') :
    Tracks ρ (Pure.pure a) (Pure.pure b) m m' done := .ok rfl rfl mirrors (Nat.le_refl _) holds

theorem throw {e e' : Failure} (mirrors : m.Mirrors ρ m') (alike : e.bare = e'.bare) :
    Tracks ρ (MonadExcept.throw e : EvalM α) (MonadExcept.throw e' : EvalM β) m m' done :=
  .error rfl rfl mirrors alike

theorem fail (mirrors : m.Mirrors ρ m') (cause : RuntimeCause) (span span' : Span)
    (c c' : Context) :
    Tracks ρ (EvalM.fail cause span c : EvalM α) (EvalM.fail cause span' c' : EvalM β) m m' done :=
  throw mirrors rfl

theorem get_bind {f : Machine → EvalM α} {g : Machine → EvalM β}
    (next : Tracks ρ (f m) (g m') m m' done) : Tracks ρ (get >>= f) (get >>= g) m m' done :=
  of_runs (run_get_bind f m) (run_get_bind g m') (Nat.le_refl _) next

theorem note {f : Unit → EvalM α} {g : Unit → EvalM β} (e e' : Event) (mirrors : m.Mirrors ρ m')
    (next : ∀ n n', n.Mirrors ρ n' → Tracks ρ (f ()) (g ()) n n' done) :
    Tracks ρ (record e >>= f) (record e' >>= g) m m' done := by
  have noted := mirrors.aside { m with events := e :: m.events }
    { m' with events := e' :: m'.events } rfl rfl rfl rfl mirrors.output mirrors.scene mirrors.calls
  exact of_runs (u := f ()) (v := g ()) rfl rfl (Nat.le_refl _) (next _ _ noted)

/-- A look at the machines that leaves them as they are. -/
theorem look {f : α → EvalM α'} {g : β → EvalM β'} {like : α → β → Prop}
    {next : α' → β' → Machine → Machine → Prop}
    (first : Tracks ρ x y m m' fun a b n n' => n = m ∧ n' = m' ∧ like a b)
    (second : ∀ a b, like a b → Tracks ρ (f a) (g b) m m' next) :
    Tracks ρ (x >>= f) (y >>= g) m m' next := by
  refine first.bind ?_
  rintro a b _ _ - - ⟨rfl, rfl, holds⟩
  exact second a b holds

end Tracks

/-- Cells with the same content under other numbers, or the same failure. -/
inductive Forged (ρ : Renaming) (m : Machine) : Except Failure Cell → Except Failure Cell → Prop
  | ok {c c' : Cell} (like : c.Mirrors ρ c') (known : ∀ r ∈ c.content.elements, r < m.cells.size) :
      Forged ρ m (.ok c) (.ok c')
  | error {e e' : Failure} (alike : e.bare = e'.bare) : Forged ρ m (.error e) (.error e')

theorem Forged.map {made made' : Except Failure Cell} {f f' : Cell → Cell}
    (forged : Forged ρ m made made') (content : ∀ c, (f c).content = c.content)
    (content' : ∀ c, (f' c).content = c.content)
    (context : ∀ c c' : Cell, c.Mirrors ρ c' →
      (f c).stamp.context.plain = (f' c').stamp.context.plain) :
    Forged ρ m (made.map f) (made'.map f') := by
  cases forged with
  | error alike => exact .error alike
  | ok like known =>
    refine .ok ⟨?_, context _ _ like⟩ fun r member => known r ?_
    · rw [content, content', like.content]
    · rwa [content] at member

theorem Tracks.store {x y : EvalM Ref} {n n' : Machine} {made made' : Except Failure Cell}
    (mirrors : n.Mirrors ρ n') (grown : m.cells.size ≤ n.cells.size) (ran : x.run m = n.store made)
    (ran' : y.run m' = n'.store made') (forged : Forged ρ n made made') :
    Tracks ρ x y m m' (Named ρ) := by
  cases forged with
  | error alike => exact .error ran ran' mirrors alike
  | @ok c c' like known =>
    have size := n.size_alloc c
    refine .ok ran ran' (mirrors.alloc like known) ?_ ⟨mirrors.number_size.symm, ?_⟩
    · omega
    · rw [size]
      exact Nat.lt_succ_self _

/-- Both evaluations make cells and do nothing else. -/
def Forge (ρ : Renaming) (x y : EvalM Ref) (m m' : Machine) : Prop :=
  ∃ made made', x.run m = m.store made ∧ y.run m' = m'.store made' ∧ Forged ρ m made made'

namespace Forge

variable {x y : EvalM Ref}

theorem tracks (mirrors : m.Mirrors ρ m') (forge : Forge ρ x y m m') :
    Tracks ρ x y m m' (Named ρ) := by
  obtain ⟨made, made', ran, ran', forged⟩ := forge
  exact .store mirrors (Nat.le_refl _) ran ran' forged

theorem throw {e e' : Failure} (alike : e.bare = e'.bare) :
    Forge ρ (MonadExcept.throw e) (MonadExcept.throw e') m m' := ⟨_, _, rfl, rfl, .error alike⟩

theorem fail (cause : RuntimeCause) (span span' : Span) (c c' : Context) :
    Forge ρ (EvalM.fail cause span c) (EvalM.fail cause span' c') m m' := throw rfl

theorem alloc (content : Content) (known : ∀ r ∈ content.elements, r < m.cells.size)
    {stamp stamp' : Stamp} (same : stamp.context.plain = stamp'.context.plain) :
    Forge ρ (EvalM.alloc content stamp) (EvalM.alloc (content.rename ρ) stamp') m m' :=
  ⟨_, _, rfl, rfl, .ok ⟨rfl, same⟩ known⟩

/-- Content that holds no values has no numbers in it. -/
theorem alloc_bare {content : Content} (bare : content.elements = [])
    {stamp stamp' : Stamp} (same : stamp.context.plain = stamp'.context.plain) :
    Forge ρ (EvalM.alloc content stamp) (EvalM.alloc content stamp') m m' := by
  have forge : Forge ρ (EvalM.alloc content stamp) (EvalM.alloc (content.rename ρ) stamp') m m' :=
    alloc content (by simp [bare]) same
  rwa [Content.rename_of_bare ρ bare] at forge

theorem fitting_bind {result : Except Misfit α} {f g : α → EvalM Ref}
    (next : ∀ value, Forge ρ (f value) (g value) m m') :
    Forge ρ (fitting result >>= f) (fitting result >>= g) m m' := by
  cases result with
  | ok value => exact next value
  | error cause => exact throw rfl

section Operations

variable {stamp stamp' other other' : Stamp} (same : stamp.context.plain = stamp'.context.plain)
include same

theorem repeatText (s : String) (times : Float) :
    Forge ρ (EvalM.repeatText s stamp times other) (EvalM.repeatText s stamp' times other')
      m m' := by
  unfold EvalM.repeatText
  cases Repetition.text s times with
  | ok result => exact alloc_bare rfl same
  | error limit => exact fail _ _ _ _ _

theorem repeatLiteral (value : Json) (times : Float) :
    Forge ρ (EvalM.repeatLiteral value stamp times other)
      (EvalM.repeatLiteral value stamp' times other') m m' := by
  cases value with
  | array items =>
    simp only [EvalM.repeatLiteral]
    cases Repetition.array items times with
    | ok result => exact alloc_bare rfl same
    | error limit => exact fail _ _ _ _ _
  | _ =>
    simp only [EvalM.repeatLiteral]
    cases Repetition.count? times with
    | none => exact fail _ _ _ _ _
    | some n => exact fitting_bind fun _ => alloc_bare rfl same

theorem joinLiterals (i j : Json) :
    Forge ρ (EvalM.joinLiterals i j stamp.context) (EvalM.joinLiterals i j stamp'.context) m m' :=
  fitting_bind fun result => alloc_bare (Content.elements_ofLiteral result) same

end Operations

theorem operate (mirrors : m.Mirrors ρ m') (op : Operator) (left right : Ref) :
    Forge ρ (EvalM.operate op left right)
      (EvalM.operate op (ρ.number left) (ρ.number right)) m m' := by
  have like := mirrors.cells left
  have like' := mirrors.cells right
  have known := mirrors.elements_lt left
  have known' := mirrors.elements_lt right
  unfold Forge EvalM.operate
  simp only [run_cell_bind]
  generalize m.cell left = a, m'.cell (ρ.number left) = a' at like known ⊢
  generalize m.cell right = b, m'.cell (ρ.number right) = b' at like' known' ⊢
  obtain ⟨content, stamp⟩ := a
  obtain ⟨_, stamp'⟩ := a'
  obtain ⟨rfl, same⟩ := like
  obtain ⟨other, place⟩ := b
  obtain ⟨_, place'⟩ := b'
  obtain ⟨rfl, same'⟩ := like'
  have illegal (c c' d d' : Cell) : Forge ρ (EvalM.illegal c d) (EvalM.illegal c' d') m m' :=
    fail _ _ _ _ _
  cases content with
  | number x =>
    cases other with
    | number y =>
      by_cases zero : op = .div ∧ (y == 0) = true
      · simp only [Content.rename, if_pos zero]
        exact fail _ _ _ _ _
      · simp only [Content.rename, if_neg zero]
        exact alloc_bare rfl same
    | text s =>
      cases op with
      | mul => exact repeatText same' s x
      | _ => exact illegal _ _ _ _
    | literal j =>
      cases op with
      | mul => exact repeatLiteral same' j x
      | _ => exact illegal _ _ _ _
    | _ => exact illegal _ _ _ _
  | text s =>
    cases other with
    | number x =>
      cases op with
      | mul => exact repeatText same s x
      | _ => exact illegal _ _ _ _
    | text t =>
      cases op with
      | add => exact alloc_bare rfl same
      | _ => exact illegal _ _ _ _
    | literal j =>
      cases op with
      | add => exact joinLiterals same (.string s) j
      | _ => exact illegal _ _ _ _
    | _ => exact illegal _ _ _ _
  | literal i =>
    cases other with
    | number x =>
      cases op with
      | mul => exact repeatLiteral same i x
      | _ => exact illegal _ _ _ _
    | text t =>
      cases op with
      | add => exact joinLiterals same i (.string t)
      | _ => exact illegal _ _ _ _
    | literal j =>
      cases op with
      | add => exact joinLiterals same i j
      | _ => exact illegal _ _ _ _
    | _ => exact illegal _ _ _ _
  | list xs =>
    cases other with
    | list ys =>
      cases op with
      | add =>
        have forge : Forge ρ (EvalM.alloc (.list (xs ++ ys)) stamp)
            (EvalM.alloc (.list ((xs ++ ys).map ρ.number)) stamp') m m' :=
          alloc (.list (xs ++ ys))
            (fun r member => (List.mem_append.mp member).elim (known r) (known' r)) same
        rwa [List.map_append] at forge
      | _ => exact illegal _ _ _ _
    | _ =>
      cases op with
      | add => exact fail _ _ _ _ _
      | _ => exact illegal _ _ _ _
  | _ => exact illegal _ _ _ _

theorem copied (mirrors : m.Mirrors ρ m') (r : Ref) :
    Forged ρ m (m.cell r).copied (m'.cell (ρ.number r)).copied := by
  have like := mirrors.cells r
  have known := mirrors.elements_lt r
  unfold Cell.copied
  rw [like.content]
  cases content : (m.cell r).content with
  | plain => exact .error rfl
  | _ => exact .ok like known

theorem clone (mirrors : m.Mirrors ρ m') (r : Ref) :
    Forge ρ (EvalM.clone r) (EvalM.clone (ρ.number r)) m m' :=
  ⟨_, _, run_clone r m, run_clone _ m', copied mirrors r⟩

theorem combine (mirrors : m.Mirrors ρ m') (context context' : Context) {op op' : Token}
    (kind : op.kind = op'.kind) (value : op.value = op'.value) (left right : Ref)
    (span span' : Span) :
    Forge ρ (EvalM.combine context op left right span)
      (EvalM.combine context' op' (ρ.number left) (ρ.number right) span') m m' := by
  have known : Operator.ofToken? op = Operator.ofToken? op' := by
    simp only [Operator.ofToken?, kind, value]
  unfold EvalM.combine nameOf
  rw [known, kind, value]
  cases Operator.ofToken? op' with
  | none =>
    by_cases word : op'.kind = .keyword
    · simp only [if_pos word]
      cases Name.ofJson? op'.value with
      | some name => exact fail _ _ _ _ _
      | none => exact throw rfl
    · simp only [if_neg word]
      exact fail _ _ _ _ _
  | some operator =>
    obtain ⟨made, made', ran, ran', forged⟩ := operate mirrors operator left right
    exact ⟨_, _, run_bind_store ran fun c => run_update_new m c _ _,
      run_bind_store ran' fun c => run_update_new m' c _ _,
      forged.map (fun _ => rfl) (fun _ => rfl) fun _ _ like => like.context⟩

theorem prepareCallee (mirrors : m.Mirrors ρ m') (callee : Ref) (span span' : Span) :
    Forge ρ (EvalM.prepareCallee callee span) (EvalM.prepareCallee (ρ.number callee) span') m m' :=
  ⟨_, _, run_prepareCallee callee span m, run_prepareCallee _ span' m',
    (copied mirrors callee).map (fun _ => rfl) (fun _ => rfl) fun _ _ like => like.context⟩

theorem takeResult (mirrors : m.Mirrors ρ m') (context : Context) (result : Ref)
    (span span' : Span) : Forge ρ (EvalM.takeResult context result span)
      (EvalM.takeResult context (ρ.number result) span') m m' :=
  ⟨_, _, run_takeResult context result span m, run_takeResult context _ span' m',
    (copied mirrors result).map (fun _ => rfl) (fun _ => rfl) fun _ _ _ => rfl⟩

theorem readName (mirrors : m.Mirrors ρ m') (context : Context) {token token' : Token}
    (value : token.value = token'.value) (span span' : Span) :
    Forge ρ (EvalM.readName context token span) (EvalM.readName context token' span') m m' := by
  refine ⟨_, _, run_readName context token span m, run_readName context token' span' m', ?_⟩
  unfold readOutcome
  rw [value]
  cases Name.ofJson? token'.value with
  | none => exact .error rfl
  | some name =>
    simp only [mirrors.lookup]
    cases m.lookup context.table name with
    | none => exact .error rfl
    | some stored =>
      exact (copied mirrors stored).map (fun _ => rfl) (fun _ => rfl) fun _ _ _ => rfl

end Forge

theorem tracks_clone_constant (mirrors : m.Mirrors ρ m') (c : Constant) :
    Tracks ρ (clone (Machine.constant c)) (clone (Machine.constant c)) m m' (Named ρ) := by
  have cloned := (Forge.clone mirrors (Machine.constant c)).tracks mirrors
  rwa [ρ.constant] at cloned

theorem tracks_apply (mirrors : m.Mirrors ρ m') (context context' : Context) {op op' : Token}
    (kind : op.kind = op'.kind) {operand : Ref} (existed : operand < m.cells.size)
    (span span' : Span) :
    Tracks ρ (apply context op operand span) (apply context' op' (ρ.number operand) span') m m'
      (Named ρ) := by
  have like := mirrors.cells operand
  have there := Machine.getElem?_of_lt existed
  have there' := Machine.getElem?_of_lt (mirrors.lt_iff.mpr existed)
  by_cases number : ∃ x, (m.cell operand).content = .number x
  · obtain ⟨x, number⟩ := number
    generalize m.cell operand = a, m'.cell (ρ.number operand) = a' at like there there' number
    obtain ⟨_, stamp⟩ := a
    obtain ⟨_, stamp'⟩ := a'
    obtain ⟨rfl, same⟩ := like
    cases number
    have ran := run_apply_number context op span there
    have ran' := run_apply_number context' op' span' there'
    rw [kind] at ran
    have forged (n : Machine) (y : Float) : Forged ρ n (.ok ⟨.number y, ⟨span, stamp.context⟩⟩)
        (.ok ⟨.number y, ⟨span', stamp'.context⟩⟩) := .ok ⟨rfl, same⟩ (by simp [Content.elements])
    cases is : op'.kind with
    | minus =>
      rw [is] at ran ran'
      have sign := mirrors.alloc_bare (.number (-1)) rfl .none
      have grown : m.cells.size ≤ (m.alloc ⟨.number (-1), .none⟩).2.cells.size := by
        rw [Machine.size_alloc]
        exact Nat.le_succ _
      exact .store sign grown ran ran' (forged _ _)
    | bang =>
      rw [is] at ran ran'
      exact .store mirrors (Nat.le_refl _) ran ran' (forged _ _)
    | _ =>
      rw [is] at ran ran'
      have placed := mirrors.modify operand (·.atSpan span) (·.atSpan span') (fun _ => rfl)
        (fun _ => rfl) fun _ _ like => like.context
      have size : (m.place operand span).cells.size = m.cells.size := Array.size_modify
      exact .ok ran ran' placed (Nat.le_of_eq size.symm) ⟨rfl, size.symm ▸ existed⟩
  · have other (x : Float) : (m'.cell (ρ.number operand)).content ≠ .number x := by
      intro is
      rw [like.content] at is
      cases content : (m.cell operand).content with
      | number y => exact number ⟨y, content⟩
      | _ =>
        rw [content] at is
        cases is
    exact .error (run_apply_other context op span fun x is => number ⟨x, is⟩)
      (run_apply_other context' op' span' other) mirrors rfl

end EvalM

end SceneScript
