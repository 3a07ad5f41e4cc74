import SceneScript.Parse.Precedence

/-!
What a sequence of tokens stands for, said without a parser. Parts are ranked by how tightly they
bind: 0 for expressions with an assignment, 1 for chains of `and` and `or`, 2 for comparisons, 3
for chains of relations, 4 for sums, 5 for products, 6 for factors with signs and powers, 7 for
calls, 8 for atoms. What binds tighter may always stand where something looser may.
-/

namespace SceneScript

/-- Parts with a comma behind each. -/
inductive Leading (R : List Token → Node → Prop) : List Token → List Node → Prop
  | nil : Leading R [] []
  | snoc {ts us : List Token} {n : Node} {ns : List Node} {comma : Token}
      (leading : Leading R ts ns) (item : R us n) (separator : comma.kind = .comma) :
      Leading R (ts ++ us ++ [comma]) (ns ++ [n])

/-- Parts with commas between them. -/
inductive Items (R : List Token → Node → Prop) : List Token → List Node → Prop
  | nil : Items R [] []
  | snoc {ts us : List Token} {n : Node} {ns : List Node}
      (leading : Leading R ts ns) (item : R us n) : Items R (ts ++ us) (ns ++ [n])

/-- Statements, each with its semicolon; semicolons may also stand alone. -/
inductive Statements (R : List Token → Node → Prop) : List Token → List Node → Prop
  | nil : Statements R [] []
  | skip {ts : List Token} {ns : List Node} {semicolon : Token}
      (before : Statements R ts ns) (separator : semicolon.kind = .semicolon) :
      Statements R (ts ++ [semicolon]) ns
  | snoc {ts us : List Token} {n : Node} {ns : List Node} {semicolon : Token}
      (before : Statements R ts ns) (statement : R us n)
      (separator : semicolon.kind = .semicolon) :
      Statements R (ts ++ us ++ [semicolon]) (ns ++ [n])

namespace Token

def isLet (t : Token) : Prop := t.kind = .keyword ∧ t.value = .string "let"

def isSign (t : Token) : Prop := t.kind = .plus ∨ t.kind = .minus

end Token

namespace Level

/-- The rank of an operation of the level. -/
def result : Level → Nat
  | .logic => 1
  | .relation => 3
  | .sum => 4
  | .product => 5
  | .power => 6

def before : Level → Nat
  | .power => 7
  | level => level.result

def behind : Level → Nat
  | .logic => 2
  | .relation => 4
  | .sum => 5
  | .product | .power => 6

end Level

/-- The tokens stand for the node, which has at least the given rank. -/
inductive Reads : Nat → List Token → Node → Prop
  | number {t : Token} (kind : t.kind = .number) : Reads 8 [t] (.ofNumber t)
  | string {t : Token} (kind : t.kind = .string) : Reads 8 [t] (.ofString t)
  | identifier {t : Token} (kind : t.kind = .identifier) : Reads 8 [t] (.ofIdentifier t)
  | group {l r : Token} {ts : List Token} {n : Node} (opener : l.kind = .leftParen)
      (inner : Reads 0 ts n) (closer : r.kind = .rightParen) : Reads 8 (l :: ts ++ [r]) n
  | list {l r : Token} {ts : List Token} {ns : List Node} (opener : l.kind = .leftSquare)
      (items : Items (Reads 0) ts ns) (closer : r.kind = .rightSquare) :
      Reads 8 (l :: ts ++ [r]) (.enumerate l ns r)
  | call {l r : Token} {us ts : List Token} {callee : Node} {args : List Node}
      (atom : Reads 8 us callee) (opener : l.kind = .leftParen) (items : Items (Reads 0) ts args)
      (closer : r.kind = .rightParen) : Reads 7 (us ++ (l :: ts ++ [r])) (.invoke callee args r)
  | sign {op : Token} {ts : List Token} {n : Node} (kind : op.isSign) (operand : Reads 6 ts n) :
      Reads 6 (op :: ts) (.apply op n)
  | binary {op : Token} {level : Level} {us ts : List Token} {left right : Node}
      (operator : Level.ofToken? op = some level) (first : Reads level.before us left)
      (second : Reads level.behind ts right) :
      Reads level.result (us ++ op :: ts) (.combine left op right)
  | negation {op : Token} {ts : List Token} {n : Node} (kind : op.kind = .bang)
      (operand : Reads 2 ts n) : Reads 2 (op :: ts) (.apply op n)
  | assignment {word name equals : Token} {ts : List Token} {n : Node} (isLet : word.isLet)
      (isName : name.kind = .identifier) (sign : equals.kind = .equal) (value : Reads 0 ts n) :
      Reads 0 (word :: name :: equals :: ts) (.bind name n)
  | weaken {i k : Nat} {ts : List Token} {n : Node} (looser : i ≤ k) (part : Reads k ts n) :
      Reads i ts n

section Items

variable {R S : List Token → Node → Prop} {ts : List Token} {ns : List Node}

theorem Leading.mono (imp : ∀ us n, R us n → S us n) (leading : Leading R ts ns) :
    Leading S ts ns := by
  induction leading with
  | nil => exact .nil
  | snoc _ item separator ih => exact .snoc ih (imp _ _ item) separator

theorem Leading.tokens_eq_nil (leading : Leading R ts []) : ts = [] := by
  generalize same : ([] : List Node) = ns at leading
  cases leading with
  | nil => rfl
  | snoc => simp at same

theorem Items.mono (imp : ∀ us n, R us n → S us n) (items : Items R ts ns) : Items S ts ns := by
  cases items with
  | nil => exact .nil
  | snoc leading item => exact .snoc (leading.mono imp) (imp _ _ item)

theorem Items.further {us vs : List Token} {ms : List Node} {n : Node} {comma : Token}
    (items : Items R us ms) (some_before : ms ≠ [])
    (separator : comma.kind = .comma) (item : R vs n) :
    Items R (us ++ comma :: vs) (ms ++ [n]) := by
  cases items with
  | nil => contradiction
  | snoc leading last =>
    have whole := Items.snoc (.snoc leading last separator) item
    simpa using whole

end Items

/-- Induction in which the items of a list or a call satisfy the motive as well. -/
@[elab_as_elim, induction_eliminator]
theorem Reads.induct {motive : (k : Nat) → (ts : List Token) → (n : Node) → Reads k ts n → Prop}
    (number : ∀ {t : Token} (kind : t.kind = .number), motive 8 [t] (.ofNumber t) (.number kind))
    (string : ∀ {t : Token} (kind : t.kind = .string), motive 8 [t] (.ofString t) (.string kind))
    (identifier : ∀ {t : Token} (kind : t.kind = .identifier),
      motive 8 [t] (.ofIdentifier t) (.identifier kind))
    (group : ∀ {l r : Token} {ts : List Token} {n : Node} (opener : l.kind = .leftParen)
      (inner : Reads 0 ts n) (closer : r.kind = .rightParen), motive 0 ts n inner →
      motive 8 (l :: ts ++ [r]) n (.group opener inner closer))
    (list : ∀ {l r : Token} {ts : List Token} {ns : List Node} (opener : l.kind = .leftSquare)
      (items : Items (fun us n => ∃ item : Reads 0 us n, motive 0 us n item) ts ns)
      (closer : r.kind = .rightSquare), motive 8 (l :: ts ++ [r]) (.enumerate l ns r)
        (.list opener (items.mono fun _ _ h => h.1) closer))
    (call : ∀ {l r : Token} {us ts : List Token} {callee : Node} {args : List Node}
      (atom : Reads 8 us callee) (opener : l.kind = .leftParen)
      (items : Items (fun us n => ∃ item : Reads 0 us n, motive 0 us n item) ts args)
      (closer : r.kind = .rightParen), motive 8 us callee atom →
      motive 7 (us ++ (l :: ts ++ [r])) (.invoke callee args r)
        (.call atom opener (items.mono fun _ _ h => h.1) closer))
    (sign : ∀ {op : Token} {ts : List Token} {n : Node} (kind : op.isSign)
      (operand : Reads 6 ts n), motive 6 ts n operand →
      motive 6 (op :: ts) (.apply op n) (.sign kind operand))
    (binary : ∀ {op : Token} {level : Level} {us ts : List Token} {left right : Node}
      (operator : Level.ofToken? op = some level) (first : Reads level.before us left)
      (second : Reads level.behind ts right), motive level.before us left first →
      motive level.behind ts right second →
      motive level.result (us ++ op :: ts) (.combine left op right)
        (.binary operator first second))
    (negation : ∀ {op : Token} {ts : List Token} {n : Node} (kind : op.kind = .bang)
      (operand : Reads 2 ts n), motive 2 ts n operand →
      motive 2 (op :: ts) (.apply op n) (.negation kind operand))
    (assignment : ∀ {word name equals : Token} {ts : List Token} {n : Node} (isLet : word.isLet)
      (isName : name.kind = .identifier) (sign : equals.kind = .equal) (value : Reads 0 ts n),
      motive 0 ts n value → motive 0 (word :: name :: equals :: ts) (.bind name n)
        (.assignment isLet isName sign value))
    (weaken : ∀ {i k : Nat} {ts : List Token} {n : Node} (looser : i ≤ k) (part : Reads k ts n),
      motive k ts n part → motive i ts n (.weaken looser part))
    {k : Nat} {ts : List Token} {n : Node} (reads : Reads k ts n) : motive k ts n reads :=
  @Reads.rec motive
    (fun ts ns _ => Items (fun us n => ∃ item : Reads 0 us n, motive 0 us n item) ts ns)
    (fun ts ns _ => Leading (fun us n => ∃ item : Reads 0 us n, motive 0 us n item) ts ns)
    number string identifier group
    (fun opener _ closer items => list opener items closer)
    (fun atom opener _ closer ih items => call atom opener items closer ih)
    sign binary negation assignment weaken .nil
    (fun _ item leading ih => .snoc leading ⟨item, ih⟩) .nil
    (fun _ item separator leading ih => .snoc leading ⟨item, ih⟩ separator) k ts n reads

/-- A further exponent goes to the last operand of a factor, which stays a factor. -/
theorem Reads.raise {k : Nat} {us ts : List Token} {n exponent : Node} {op : Token}
    (reads : Reads k us n) (operator : Level.ofToken? op = some .power)
    (second : Reads 6 ts exponent) (factor : 6 ≤ k) : ∃ m, Reads 6 (us ++ op :: ts) m := by
  have tight {k : Nat} {us : List Token} {n : Node} (tighter : 7 ≤ k) (reads : Reads k us n) :
      ∃ m, Reads 6 (us ++ op :: ts) m :=
    ⟨_, .binary operator (.weaken tighter reads) second⟩
  induction reads with
  | number kind => exact tight (by decide) (.number kind)
  | string kind => exact tight (by decide) (.string kind)
  | identifier kind => exact tight (by decide) (.identifier kind)
  | group opener inner closer => exact tight (by decide) (.group opener inner closer)
  | list opener items closer =>
    exact tight (by decide) (.list opener (items.mono fun _ _ h => h.1) closer)
  | call atom opener items closer =>
    exact tight (by decide) (.call atom opener (items.mono fun _ _ h => h.1) closer)
  | sign kind operand ih =>
    obtain ⟨m, raised⟩ := ih factor
    exact ⟨_, .sign kind raised⟩
  | @binary own level us vs left right operator' first _ _ ih =>
    cases level with
    | power =>
      obtain ⟨m, raised⟩ := ih (Nat.le_refl 6)
      rw [List.append_assoc, List.cons_append]
      exact ⟨_, .binary operator' first raised⟩
    | logic | relation | sum | product => simp [Level.result] at factor
  | negation => omega
  | assignment => omega
  | weaken looser _ ih => exact ih (Nat.le_trans factor looser)

end SceneScript
