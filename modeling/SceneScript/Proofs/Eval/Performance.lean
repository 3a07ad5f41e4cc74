import SceneScript.Proofs.Value.References

/-!
What a builtin can do to a machine once its arguments are bound.
-/

namespace SceneScript

namespace Machine

/-- The second machine has further cells and tables. The new cells hold what is new or was held. -/
inductive Built (m : Machine) : Machine → Prop
  | refl : Built m m
  | alloc {m' : Machine} (built : Built m m') {c : Cell}
      (known : ∀ r ∈ c.content.elements, m'.Held r ∨ m.cells.size ≤ r ∧ r < m'.cells.size) :
      Built m (m'.alloc c).2
  | table {m' : Machine} (built : Built m m') (parent : Option TableId) :
      Built m (m'.newTable parent).2

namespace Built

variable {m m' m'' : Machine}

theorem size_le (built : Built m m') : m.cells.size ≤ m'.cells.size := by
  induction built with
  | refl => exact Nat.le_refl _
  | alloc _ _ ih =>
    rw [size_alloc]
    exact Nat.le_succ_of_le ih
  | table _ _ ih => exact ih

theorem trans (first : Built m m') (second : Built m' m'') : Built m m'' := by
  induction second with
  | refl => exact first
  | alloc _ known ih =>
    refine .alloc ih fun r member => (known r member).imp_right fun new => ⟨?_, new.2⟩
    exact Nat.le_trans first.size_le new.1
  | table _ parent ih => exact .table ih parent

theorem sealed {secret : Ref → Option Cell} (kept : m.Sealed secret) (built : Built m m') :
    m'.Sealed secret := by
  induction built with
  | refl => exact kept
  | alloc _ known ih =>
    refine ih.alloc fun r member => ?_
    rcases known r member with before | new
    · exact ih.held r before
    · exact ⟨new.2, kept.secret_eq_none new.1⟩
  | table _ parent ih => exact ih.newTable parent

theorem aside (built : Built m m') : m'.output = m.output ∧ m'.scene = m.scene ∧
    m'.events = m.events := by
  induction built with
  | refl => exact ⟨rfl, rfl, rfl⟩
  | alloc _ _ ih => exact ih
  | table _ _ ih => exact ih

theorem getElem? (built : Built m m') {r : Ref} {c : Cell} (there : m.cells[r]? = some c) :
    m'.cells[r]? = some c := by
  induction built with
  | refl => exact there
  | alloc _ _ ih =>
    exact getElem?_alloc_of_there ih _
  | table _ _ ih => exact ih

theorem tables (built : Built m m') {id : TableId} (existed : id < m.tables.size) :
    id < m'.tables.size ∧ m'.tables[id]? = m.tables[id]? := by
  induction built with
  | refl => exact ⟨existed, rfl⟩
  | alloc _ _ ih => exact ih
  | table _ parent ih =>
    rw [newTable]
    refine ⟨by rw [Array.size_push]; exact Nat.lt_succ_of_lt ih.1, ?_⟩
    rw [Array.getElem?_push, if_neg (Nat.ne_of_lt ih.1)]
    exact ih.2

end Built

end Machine

/-- Whether the host's own code does the work. -/
def Builtin.isForeign : Builtin → Bool
  | .foreign .. => true
  | _ => false

/-- The failure is a fault at the place, or no fault of the program at all. -/
def Failure.At (span : Span) : Failure → Prop
  | .runtime fault => fault.span = span
  | _ => True

namespace EvalM

variable {α β : Type} {m : Machine} {span : Span}

/-- The evaluation reads the machine and changes nothing; its faults are at the given place. -/
def Idle (span : Span) (x : EvalM α) (m : Machine) : Prop :=
  x.Ends m (fun _ m' => m' = m) fun e m' => m' = m ∧ e.At span

namespace Idle

theorem pure (a : α) : Idle span (Pure.pure a) m := rfl

theorem throw {e : Failure} (placed : e.At span) : Idle span (MonadExcept.throw e : EvalM α) m :=
  ⟨rfl, placed⟩

theorem fail (cause : RuntimeCause) (context : Context) :
    Idle span (EvalM.fail cause span context : EvalM α) m := ⟨rfl, rfl⟩

theorem get_bind {f : Machine → EvalM α} (next : Idle span (f m) m) :
    Idle span ((get : EvalM Machine) >>= f) m := next

theorem bind {x : EvalM α} {f : α → EvalM β} (first : Idle span x m)
    (second : ∀ a, Idle span (f a) m) : Idle span (x >>= f) m := by
  refine Ends.bind first fun a m' same => ?_
  subst same
  exact second a

end Idle

section Arguments

variable (site : Site) (param : String)

theorem ends_argument : (site.argument param).Ends m
    (fun c m' => m' = m ∧ ∃ r, m.lookup site.context.table param = some r ∧ c = m.cell r)
    fun e m' => m' = m ∧ e = .missingValue := by
  have read : (get : EvalM Machine).Ends m (fun m₁ m' => m₁ = m ∧ m' = m)
      fun e m' => m' = m ∧ e = .missingValue := ⟨rfl, rfl⟩
  refine read.bind ?_
  rintro _ _ ⟨rfl, rfl⟩
  split
  · rename_i r found
    exact ⟨rfl, r, found, rfl⟩
  · exact ⟨rfl, rfl⟩

theorem idle_argument : Idle span (site.argument param) m := by
  refine (ends_argument site param).mono (fun _ _ ends => ends.1) ?_
  rintro _ _ ⟨rfl, rfl⟩
  exact ⟨rfl, trivial⟩

theorem idle_listArgument (cause : RuntimeCause) :
    Idle site.span (site.listArgument param cause) m := by
  refine (idle_argument site param).bind fun c => ?_
  split
  · exact .pure _
  · exact .fail _ _

theorem idle_component (elements : List Ref) (number index : Nat) :
    Idle site.span (site.component elements number index) m := by
  apply Idle.get_bind
  split
  · exact .pure _
  · exact .fail _ _

theorem idle_tripleArgument (number : Nat) :
    Idle site.span (site.tripleArgument param number) m :=
  (idle_listArgument site param _).bind fun _ => (idle_component site _ _ _).bind fun _ =>
    (idle_component site _ _ _).bind fun _ => (idle_component site _ _ _).bind fun _ => .pure _

theorem idle_colorArgument (host : SceneHost) (kind : SceneKind) (number : Nat) :
    Idle site.span (site.colorArgument host kind number) m := by
  refine (idle_argument site "color").bind fun c => ?_
  split
  · exact .pure _
  · exact .fail _ _
  · exact .fail _ _

end Arguments

section Reading

theorem idle_nameOf (span : Span) (token : Token) : Idle span (nameOf token) m := by
  unfold nameOf
  split
  · exact .pure _
  · exact .throw trivial

theorem idle_readNumber (span : Span) (value : Json) : Idle span (readNumber value) m := by
  unfold readNumber
  split
  · split
    · exact .pure _
    · exact .throw trivial
  · unfold fitting
    split
    · exact .pure _
    · exact .throw trivial

end Reading

/-- What a builtin can have done, however it ended. -/
inductive Performed (host : Host) (site : Site) (m : Machine) : Builtin → Machine → Prop
  | idle (b : Builtin) : Performed host site m b m
  | printed (text : String) :
      Performed host site m .print { m with output := m.output ++ text ++ "\n" }
  | appended {elements : List Ref} {r : Ref} {stamp : Stamp}
      (known : ∀ s ∈ elements ++ [r], m.Held s) :
      Performed host site m .append (m.alloc ⟨.list (elements ++ [r]), stamp⟩).2
  | accepted {b : Builtin} (known : b ∈ Builtin.scene) (r : SceneRequest) :
      Performed host site m b
        { m with scene := m.scene.accept r, events := .accepted r :: m.events }
  | answered (name : String) (params : List String) (reply : Reply) {calls : List HostCall}
      {m' : Machine} (built : Machine.Built { m with calls := calls } m') :
      Performed host site m (.host name params reply) m'
  | foreign (name : String) (params : List String) (number : Nat) :
      Performed host site m (.foreign name params number) ((host.call number site).after m)

section Make

/-- The evaluation makes a value, and perhaps others on the way, and is never at fault. -/
def Builds (x : EvalM Ref) (m : Machine) : Prop :=
  x.Ends m (fun r m' => m.Built m' ∧ m.cells.size ≤ r ∧ r < m'.cells.size)
    fun e m' => m.Built m' ∧ e = .uncopyable

theorem Makes.builds {x : EvalM Ref} {P : Except Failure Cell → Prop} (makes : x.Makes m P)
    (known : ∀ c, P (.ok c) → ∀ r ∈ c.content.elements, m.Held r)
    (innocent : ∀ e, P (.error e) → e = .uncopyable) : Builds x m := by
  refine makes.ends.mono ?_ ?_
  · rintro r m' ⟨rfl, c, holds, rfl⟩
    refine ⟨.alloc .refl fun s member => .inl (known c holds s member), Nat.le_refl _, ?_⟩
    rw [Machine.size_alloc]
    exact Nat.lt_succ_self _
  · rintro e m' ⟨rfl, failed⟩
    exact ⟨.refl, innocent e failed⟩

theorem builds_fresh (content : Content) (bare : content.elements = []) (span : Span)
    (name : String) : Builds (do alloc content (← freshStamp span name)) m := by
  refine ⟨.alloc (.table .refl none) (by simp [bare]), Nat.le_refl _, ?_⟩
  show m.cells.size < (m.cells.push _).size
  rw [Array.size_push]
  exact Nat.lt_succ_self _

mutual

theorem builds_make (b : Blueprint) (m : Machine) : Builds (make b) m := by
  cases b with
  | number x span name | text s span name | builtin b span name | plain span name =>
    rw [make]
    exact builds_fresh _ rfl span name
  | list elements span name =>
    rw [make]
    refine (builds_makeAll elements m).bind fun refs m' ⟨built, new⟩ => ?_
    refine ⟨.alloc (.table built none) fun r member => .inr (new r member), built.size_le, ?_⟩
    show m'.cells.size < (m'.cells.push _).size
    rw [Array.size_push]
    exact Nat.lt_succ_self _
  | constant c =>
    rw [make]
    refine (Makes.of_run (run_clone _ m)).builds (fun d made r member => ?_) fun e failed => ?_
    · rw [(Cell.copied_eq_ok made.symm).1] at member
      exact Machine.held_of_elements member
    · exact Cell.copied_eq_error failed.symm

theorem builds_makeAll (bs : List Blueprint) (m : Machine) : (makeAll bs).Ends m
    (fun refs m' => m.Built m' ∧ ∀ r ∈ refs, m.cells.size ≤ r ∧ r < m'.cells.size)
    fun e m' => m.Built m' ∧ e = .uncopyable := by
  cases bs with
  | nil =>
    rw [makeAll]
    exact ⟨.refl, by simp⟩
  | cons b bs =>
    rw [makeAll]
    refine (builds_make b m).bind fun r m₁ ⟨first, low, high⟩ => ?_
    have rest := (builds_makeAll bs m₁).mono (fun _ _ ends => ends)
      fun _ _ => And.imp_left first.trans
    refine rest.bind fun rs m₂ ⟨second, new⟩ => ?_
    refine ⟨first.trans second, List.forall_mem_cons.mpr ⟨⟨low, ?_⟩, fun s member => ?_⟩⟩
    · exact Nat.lt_of_lt_of_le high second.size_le
    · exact ⟨Nat.le_trans first.size_le (new s member).1, (new s member).2⟩

end

end Make

/-- What a builtin can have done. Unless it is the host's own code, it has neither printed nor
    changed the scene when it fails, and its faults are at the place of the call. -/
def Performs (host : Host) (site : Site) (b : Builtin) (x : EvalM Ref) (m : Machine) : Prop :=
  x.Ends m (fun _ m' => Performed host site m b m') fun e m' => Performed host site m b m' ∧
    (b.isForeign = false → m'.output = m.output ∧ m'.scene = m.scene ∧ e.At site.span)

section Performs

variable {host : Host} {site : Site} {b : Builtin}

theorem Idle.performs {x : EvalM Ref} (idle : Idle site.span x m) :
    Performs host site b x m := by
  refine Ends.mono idle ?_ ?_
  · rintro _ _ rfl
    exact .idle b
  · rintro _ _ ⟨rfl, placed⟩
    exact ⟨.idle b, fun _ => ⟨rfl, rfl, placed⟩⟩

theorem Idle.bind_performs {x : EvalM α} {f : α → EvalM Ref} (idle : Idle site.span x m)
    (next : ∀ a, Performs host site b (f a) m) : Performs host site b (x >>= f) m := by
  refine Ends.bind (Ends.mono idle (fun _ _ same => same) ?_) fun a m' same => ?_
  · rintro _ _ ⟨rfl, placed⟩
    exact ⟨.idle b, fun _ => ⟨rfl, rfl, placed⟩⟩
  · subst same
    exact next a

theorem performs_get_bind {f : Machine → EvalM Ref} (next : Performs host site b (f m) m) :
    Performs host site b ((get : EvalM Machine) >>= f) m := next

theorem performs_request (known : b ∈ Builtin.scene) (r : SceneRequest) :
    Performs host site b (request host.toSceneHost site r) m := by
  apply performs_get_bind
  split
  · exact Idle.performs (.fail _ _)
  · exact Performed.accepted known r

theorem performs_place (known : b ∈ Builtin.scene) (shape : Shape) (dimensions : String) :
    Performs host site b (place host.toSceneHost site shape dimensions) m :=
  (idle_tripleArgument site _ _).bind_performs fun _ =>
    (idle_tripleArgument site _ _).bind_performs fun _ =>
      (idle_colorArgument site _ _ _).bind_performs fun _ => performs_request known _

theorem performs_append : Performs host site .append (perform host site .append) m := by
  refine Ends.bind ((ends_argument site "list").mono (fun _ _ ends => ends) ?_) ?_
  · rintro _ _ ⟨rfl, rfl⟩
    exact ⟨.idle _, fun _ => ⟨rfl, rfl, trivial⟩⟩
  · rintro list _ ⟨rfl, r, -, rfl⟩
    split
    · rename_i elements content
      apply performs_get_bind
      split
      · rename_i value found
        refine Performed.appended fun s member => ?_
        rcases List.mem_append.mp member with element | last
        · apply Machine.held_of_elements (s := r)
          rw [content]
          exact element
        · rw [List.mem_singleton.mp last]
          exact Machine.held_of_lookup found
      · exact Idle.performs (.throw trivial)
    · exact Idle.performs (.fail _ _)

/-- With the call on record, the rest is at most the making of a value. -/
theorem performs_set_calls {name : String} {params : List String} {reply : Reply}
    {calls : List HostCall} {f : PUnit → EvalM Ref}
    (builds : (f ()).Ends { m with calls := calls }
      (fun _ m' => Machine.Built { m with calls := calls } m')
      fun e m' => Machine.Built { m with calls := calls } m' ∧ e.At site.span) :
    Performs host site (.host name params reply) (set { m with calls := calls } >>= f) m := by
  refine Ends.mono builds (fun _ _ built => .answered name params reply built) ?_
  rintro e m' ⟨built, placed⟩
  exact ⟨.answered name params reply built, fun _ => ⟨built.aside.1, built.aside.2.1, placed⟩⟩

theorem performs_host (name : String) (params : List String) (reply : Reply) :
    Performs host site (.host name params reply)
      (perform host site (.host name params reply)) m := by
  apply performs_get_bind
  simp only
  split
  · exact Idle.performs (.throw trivial)
  · split
    · exact performs_set_calls .refl
    · split
      · exact performs_set_calls .refl
      · exact performs_set_calls ⟨.refl, trivial⟩
    · exact performs_set_calls ⟨.refl, rfl⟩
    · refine performs_set_calls ((builds_make _ _).mono (fun _ _ ends => ends.1) ?_)
      rintro _ _ ⟨built, rfl⟩
      exact ⟨built, trivial⟩

theorem performs (host : Host) (site : Site) (b : Builtin) (m : Machine) :
    Performs host site b (perform host site b) m := by
  cases b with
  | print =>
    apply performs_get_bind
    split
    · split
      · exact Performed.printed _
      · exact Idle.performs (.throw trivial)
    · exact Idle.performs (.throw trivial)
  | get =>
    refine (idle_listArgument site _ _).bind_performs fun elements =>
      (idle_argument site _).bind_performs fun index => Idle.performs ?_
    split
    · split
      · exact .pure _
      · exact .fail _ _
    · exact .fail _ _
  | append => exact performs_append
  | setBackgroundColor =>
    exact (idle_colorArgument site _ _ _).bind_performs fun _ =>
      performs_request (by simp [Builtin.scene]) _
  | block => exact performs_place (by simp [Builtin.scene]) _ _
  | pyramid => exact performs_place (by simp [Builtin.scene]) _ _
  | host name params reply => exact performs_host name params reply
  | foreign name params number =>
    refine (ends_after (host.call number site) m).mono ?_ ?_
    · rintro _ _ rfl
      exact .foreign name params number
    · rintro _ _ rfl
      exact ⟨.foreign name params number, fun ours => by cases ours⟩

end Performs

end EvalM

end SceneScript
