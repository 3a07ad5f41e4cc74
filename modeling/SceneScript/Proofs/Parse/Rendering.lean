import SceneScript.Proofs.Parse.Soundness
import SceneScript.Proofs.Token.Writing

/-!
Trees as texts, with brackets around everything that has parts, and how parsing undoes that.
-/

namespace SceneScript

namespace TokenKind

def symbol : TokenKind → List Char
  | .plus => ['+']
  | .minus => ['-']
  | .star => ['*']
  | .slash => ['/']
  | .power => ['^']
  | .bang => ['!']
  | .equalEqual => ['=', '=']
  | .notEqual => ['!', '=']
  | .lessThan => ['<']
  | .lessThanEqual => ['<', '=']
  | .greaterThan => ['>']
  | .greaterThanEqual => ['>', '=']
  | _ => []

def unary : List TokenKind := [.plus, .minus, .bang]

/-- The operators between two operands, apart from words. -/
def binary : List TokenKind :=
  [.plus, .minus, .star, .slash, .power, .equalEqual, .notEqual, .lessThan, .lessThanEqual,
    .greaterThan, .greaterThanEqual]

end TokenKind

namespace Text

/-- A name, which may be a keyword. -/
def isName : List Char → Bool
  | [] => false
  | c :: cs => startsName c && cs.all continuesName

/-- Digits, or digits on both sides of a point. -/
def isNumeral (cs : List Char) : Bool :=
  !(cs.takeWhile isDigit).isEmpty &&
    match cs.dropWhile isDigit with
    | [] => true
    | c :: part => c == '.' && !part.isEmpty && part.all isDigit

end Text

namespace Token

def written (t : Token) : List Char :=
  match t.value with
  | .string s => if t.kind = .string then Literal.quote s.toList else s.toList
  | _ => t.kind.symbol

def isName (t : Token) : Bool :=
  t.kind == .identifier &&
    match t.value with
    | .string s => Text.isName s.toList && !keywords.contains s
    | _ => false

def isNumber (t : Token) : Bool :=
  t.kind == .number &&
    match t.value with
    | .string s => Text.isNumeral s.toList
    | _ => false

def isText (t : Token) : Bool :=
  t.kind == .string &&
    match t.value with
    | .string _ => true
    | _ => false

def isUnary (t : Token) : Bool := TokenKind.unary.contains t.kind && t.value == .null

def isBinary (t : Token) : Bool :=
  TokenKind.binary.contains t.kind && t.value == .null ||
    t.kind == .keyword && (t.value == .string "and" || t.value == .string "or")

end Token

namespace Node

mutual

/-- The text of a tree. Behind commas, `gap` is left. -/
def render (gap : List Char) : Node → List Char
  | .identifier t _ | .number t _ | .string t _ => t.written
  | .unary op operand _ => '(' :: (op.written ++ ' ' :: render gap operand) ++ [')']
  | .binary left op right _ =>
    '(' :: (render gap left ++ ' ' :: (op.written ++ ' ' :: render gap right)) ++ [')']
  | .list elements _ => '[' :: renderItems gap elements ++ [']']
  | .call callee args _ =>
    '(' :: (render gap callee ++ '(' :: (renderItems gap args ++ [')'])) ++ [')']
  | .assign name value _ =>
    '(' :: (['l', 'e', 't'] ++ ' ' ::
      (name.written ++ ' ' :: (['='] ++ ' ' :: render gap value))) ++ [')']
  | .program .. | .blank .. => []

def renderItems (gap : List Char) : List Node → List Char
  | [] => []
  | n :: ns => render gap n ++ renderFurther gap ns

def renderFurther (gap : List Char) : List Node → List Char
  | [] => []
  | n :: ns => ',' :: (gap ++ render gap n) ++ renderFurther gap ns

end

/-- The texts of trees with a semicolon behind each. -/
def renderBody (gap : List Char) (body : List Node) : List Char :=
  body.flatMap fun n => render gap n ++ [';']

mutual

/-- The tree is an expression of tokens that a text can have. -/
def renderable : Node → Bool
  | .identifier t _ => t.isName
  | .number t _ => t.isNumber
  | .string t _ => t.isText
  | .unary op operand _ => op.isUnary && renderable operand
  | .binary left op right _ => renderable left && op.isBinary && renderable right
  | .list elements _ => allRenderable elements
  | .call callee args _ => renderable callee && allRenderable args
  | .assign name value _ => name.isName && renderable value
  | .program .. | .blank .. => false

def allRenderable : List Node → Bool
  | [] => true
  | n :: ns => renderable n && allRenderable ns

end

end Node

def Written (t : Token) (ts : List Token) : Prop :=
  ∃ u : Token, ts = [u] ∧ u.kind = t.kind ∧ u.value = t.value ∧ u.alike t = true

namespace Written

variable {kind : TokenKind} {span : Span} {ts : List Token}

theorem of_string {s : String} (single : Single kind (.string s) ts) :
    Written ⟨kind, .string s, span⟩ ts := by
  obtain ⟨place, rfl⟩ := single
  exact ⟨_, rfl, rfl, rfl, by simp [Token.alike, Json.same]⟩

theorem of_null (single : Single kind .null ts) : Written ⟨kind, .null, span⟩ ts := by
  obtain ⟨place, rfl⟩ := single
  exact ⟨_, rfl, rfl, rfl, by simp [Token.alike, Json.same]⟩

end Written

namespace Spells

variable {t : Token}

theorem name (isName : t.isName = true) : Spells t.written (Written t) := by
  obtain ⟨kind, value, span⟩ := t
  simp only [Token.isName, Bool.and_eq_true, beq_iff_eq] at isName
  obtain ⟨rfl, named⟩ := isName
  cases value <;> simp only [Bool.false_eq_true] at named
  rename_i s
  obtain ⟨isName, notKeyword⟩ := Bool.and_eq_true_iff.mp named
  obtain ⟨c, cs, text⟩ : ∃ c cs, s.toList = c :: cs := by
    cases text : s.toList with
    | nil => rw [text] at isName; cases isName
    | cons c cs => exact ⟨c, cs, rfl⟩
  rw [text] at isName
  obtain ⟨starts, others⟩ := Bool.and_eq_true_iff.mp isName
  have goesOn : ∀ d ∈ c :: cs, Text.continuesName d = true :=
    List.forall_mem_cons.mpr
      ⟨Text.continuesName_of_startsName starts, List.all_eq_true.mp others⟩
  have same : String.ofList (c :: cs) = s := by rw [← text, String.ofList_toList]
  have spells := word starts goesOn
  rw [same, if_neg (by simpa using notKeyword), ← text] at spells
  exact spells.mono fun _ => .of_string

theorem numeral {s : String} (isNumeral : Text.isNumeral s.toList = true) :
    Spells s.toList (Single .number (.string s)) := by
  obtain ⟨some_digit, part⟩ := Bool.and_eq_true_iff.mp isNumeral
  have text : s.toList.takeWhile Text.isDigit ++ s.toList.dropWhile Text.isDigit = s.toList :=
    List.takeWhile_append_dropWhile
  have digits : ∀ d ∈ s.toList.takeWhile Text.isDigit, Text.isDigit d = true :=
    List.all_eq_true.mp List.all_takeWhile
  have same : String.ofList s.toList = s := String.ofList_toList
  rw [← text] at same ⊢
  cases front : s.toList.takeWhile Text.isDigit with
  | nil =>
    rw [front] at some_digit
    cases some_digit
  | cons c ds =>
    rw [front] at digits same
    cases back : s.toList.dropWhile Text.isDigit with
    | nil =>
      rw [back, List.append_nil] at same
      rw [List.append_nil, ← same]
      simpa using whole digits
    | cons d es =>
      simp only [back, Bool.and_eq_true, beq_iff_eq, Bool.not_eq_true'] at part
      obtain ⟨⟨rfl, some_behind⟩, behind⟩ := part
      rw [back] at same
      rw [← same]
      simpa using fraction digits (List.isEmpty_eq_false_iff.mp some_behind)
        (List.all_eq_true.mp behind)

theorem number (isNumber : t.isNumber = true) : Spells t.written (Written t) := by
  obtain ⟨kind, value, span⟩ := t
  simp only [Token.isNumber, Bool.and_eq_true, beq_iff_eq] at isNumber
  obtain ⟨rfl, isNumeral⟩ := isNumber
  cases value <;> simp only [Bool.false_eq_true] at isNumeral
  exact (numeral isNumeral).mono fun _ => .of_string

theorem text (isText : t.isText = true) : Spells t.written (Written t) := by
  obtain ⟨kind, value, span⟩ := t
  simp only [Token.isText, Bool.and_eq_true, beq_iff_eq] at isText
  obtain ⟨rfl, isString⟩ := isText
  cases value <;> simp only [Bool.false_eq_true] at isString
  exact (quoted _).mono fun _ => .of_string

theorem symbol {kind : TokenKind} (isOperator : kind ∈ TokenKind.unary ++ TokenKind.binary) :
    Spells kind.symbol (Single kind .null) := by
  simp only [TokenKind.unary, TokenKind.binary, List.cons_append, List.nil_append, List.mem_cons,
    List.not_mem_nil, or_false] at isOperator
  rcases isOperator with rfl | rfl | rfl | rfl | rfl | rfl | rfl | rfl | rfl | rfl | rfl | rfl |
    rfl | rfl <;> first | exact single rfl | exact pair rfl rfl

theorem unaryOperator (isUnary : t.isUnary = true) : Spells t.written (Written t) := by
  obtain ⟨kind, value, span⟩ := t
  simp only [Token.isUnary, Bool.and_eq_true, List.contains_iff_mem, beq_iff_eq] at isUnary
  obtain ⟨known, rfl⟩ := isUnary
  exact (symbol (List.mem_append_left _ known)).mono fun _ => .of_null

theorem binaryOperator (isBinary : t.isBinary = true) :
    Spells t.written (Written t) := by
  obtain ⟨kind, value, span⟩ := t
  simp only [Token.isBinary, Bool.or_eq_true, Bool.and_eq_true, List.contains_iff_mem,
    beq_iff_eq] at isBinary
  rcases isBinary with ⟨known, rfl⟩ | ⟨rfl, rfl | rfl⟩
  · exact (symbol (List.mem_append_right _ known)).mono fun _ => .of_null
  · exact (@word 'a' ['n', 'd'] rfl (List.all_eq_true.mp rfl)).mono fun _ => .of_string
  · exact (@word 'o' ['r'] rfl (List.all_eq_true.mp rfl)).mono fun _ => .of_string

end Spells

/-- Every operator between operands belongs to a level. -/
theorem Level.exists_of_isBinary {t u : Token} (isBinary : t.isBinary = true)
    (kind : u.kind = t.kind) (value : u.value = t.value) : ∃ level, ofToken? u = some level := by
  obtain ⟨uKind, uValue, span⟩ := u
  obtain ⟨tKind, tValue, span'⟩ := t
  cases kind
  cases value
  simp only [Token.isBinary, TokenKind.binary, Bool.or_eq_true, Bool.and_eq_true,
    List.contains_iff_mem, List.mem_cons, List.not_mem_nil, or_false, beq_iff_eq] at isBinary
  rcases isBinary with ⟨rfl | rfl | rfl | rfl | rfl | rfl | rfl | rfl | rfl | rfl | rfl, -⟩ |
    ⟨rfl, rfl | rfl⟩ <;> exact ⟨_, rfl⟩

/-- The tokens stand for a tree like the given one. -/
def Stands (k : Nat) (n : Node) (ts : List Token) : Prop :=
  ∃ m : Node, Reads k ts m ∧ m.alike n = true

namespace Spells

variable {n : Node} {text : List Char}

theorem grouped (inner : Spells text (Stands 0 n)) :
    Spells ('(' :: text ++ [')']) (Stands 8 n) := by
  have closed := inner.append (@single ')' .rightParen rfl) (.cons (by decide) _)
  refine (cons rfl (fun _ => rfl) closed).mono ?_
  rintro ts ⟨opener, us, isOpener, ⟨vs, ws, ⟨m, reads, alike⟩, ⟨span, rfl⟩, rfl⟩, rfl⟩
  exact ⟨m, .group isOpener reads rfl, alike⟩

theorem unary {op : Token} (isUnary : op.isUnary = true) (operand : Spells text (Stands 8 n))
    (span : Span) : Spells (op.written ++ ' ' :: text) (Stands 0 (.unary op n span)) := by
  refine ((unaryOperator isUnary).append operand.space (.cons (by decide) _)).mono ?_
  rintro ts ⟨us, vs, ⟨u, rfl, kind, -, same⟩, ⟨m, reads, alike⟩, rfl⟩
  refine ⟨.apply u m, ?_, by simp [Node.apply, Node.alike, same, alike]⟩
  simp only [Token.isUnary, TokenKind.unary, Bool.and_eq_true, List.contains_iff_mem,
    List.mem_cons, List.not_mem_nil, or_false] at isUnary
  rcases isUnary.1 with plus | minus | bang
  · exact .weaken (Nat.zero_le 6) (.sign (.inl (kind.trans plus)) (.weaken (by decide) reads))
  · exact .weaken (Nat.zero_le 6) (.sign (.inr (kind.trans minus)) (.weaken (by decide) reads))
  · exact .weaken (Nat.zero_le 2) (.negation (kind.trans bang) (.weaken (by decide) reads))

theorem binary {op : Token} (isBinary : op.isBinary = true) {left right : Node}
    {first second : List Char} (before : Spells first (Stands 8 left))
    (behind : Spells second (Stands 8 right)) (span : Span) :
    Spells (first ++ ' ' :: (op.written ++ ' ' :: second))
      (Stands 0 (.binary left op right span)) := by
  have tail := (binaryOperator isBinary).append behind.space (.cons (by decide) _)
  refine (before.append tail.space (.cons (by decide) _)).mono ?_
  rintro ts ⟨us, vs, ⟨a, reads, alike⟩, ⟨ws, xs, ⟨u, rfl, kind, value, same⟩, ⟨b, reads', alike'⟩,
    rfl⟩, rfl⟩
  obtain ⟨level, operator⟩ := Level.exists_of_isBinary isBinary kind value
  have looser : level.before ≤ 8 ∧ level.behind ≤ 8 := by cases level <;> decide
  refine ⟨.combine a u b, ?_, by simp [Node.combine, Node.alike, same, alike, alike']⟩
  exact .weaken (Nat.zero_le _)
    (.binary operator (.weaken looser.1 reads) (.weaken looser.2 reads'))

theorem assign {name : Token} (isName : name.isName = true) (value : Spells text (Stands 8 n))
    (span : Span) :
    Spells (['l', 'e', 't'] ++ ' ' :: (name.written ++ ' ' :: (['='] ++ ' ' :: text)))
      (Stands 0 (.assign name n span)) := by
  have equals := (@single '=' .equal rfl).append value.space (.cons (by decide) _)
  have named := (Spells.name isName).append equals.space (.cons (by decide) _)
  have whole := (@word 'l' ['e', 't'] rfl (List.all_eq_true.mp rfl)).append named.space
    (.cons (by decide) _)
  refine whole.mono ?_
  rintro ts ⟨us, vs, ⟨place, rfl⟩, ⟨ws, xs, ⟨u, rfl, kind, -, same⟩, ⟨ys, zs, ⟨place', rfl⟩,
    ⟨m, reads, alike⟩, rfl⟩, rfl⟩, rfl⟩
  have isIdentifier : name.kind = .identifier := by
    simp only [Token.isName, Bool.and_eq_true, beq_iff_eq] at isName
    exact isName.1
  refine ⟨.bind u m, ?_, by simp [Node.bind, Node.alike, same, alike]⟩
  exact .assignment ⟨rfl, rfl⟩ (kind.trans isIdentifier) rfl (.weaken (Nat.zero_le 8) reads)

def Listed (ns : List Node) (ts : List Token) : Prop :=
  ∃ ms, Items (Reads 0) ts ms ∧ Node.allAlike ms ns = true

theorem list {ns : List Node} (items : Spells text (Listed ns)) (span : Span) :
    Spells ('[' :: text ++ [']']) (Stands 8 (.list ns span)) := by
  have closed := items.append (@single ']' .rightSquare rfl) (.cons (by decide) _)
  refine (cons rfl (fun _ => rfl) closed).mono ?_
  rintro ts ⟨opener, us, isOpener, ⟨vs, ws, ⟨ms, reads, alike⟩, ⟨place, rfl⟩, rfl⟩, rfl⟩
  exact ⟨_, .list isOpener reads rfl, by simp [Node.enumerate, Node.alike, alike]⟩

theorem call {ns : List Node} {arguments : List Char} (callee : Spells text (Stands 8 n))
    (items : Spells arguments (Listed ns)) (span : Span) :
    Spells (text ++ '(' :: (arguments ++ [')'])) (Stands 0 (.call n ns span)) := by
  have closed := items.append (@single ')' .rightParen rfl) (.cons (by decide) _)
  have bracketed := cons (c := '(') rfl (fun _ => rfl) closed
  refine (callee.append bracketed (.cons (by decide) _)).mono ?_
  rintro ts ⟨us, vs, ⟨m, reads, alike⟩, ⟨opener, ws, isOpener, ⟨xs, ys, ⟨ms, reads', alike'⟩,
    ⟨place, rfl⟩, rfl⟩, rfl⟩, rfl⟩
  exact ⟨_, .weaken (Nat.zero_le 7) (.call reads isOpener reads' rfl),
    by simp [Node.invoke, Node.alike, alike, alike']⟩

end Spells

section Trees

variable {gap : List Char}

theorem stops_renderFurther (ns : List Node) : Stops (Node.renderFurther gap ns) := by
  cases ns with
  | nil =>
    rw [Node.renderFurther]
    rintro c ⟨⟩
  | cons n ns =>
    rw [Node.renderFurther]
    exact .cons (by decide) _

def Continued (ns : List Node) (us : List Token) : Prop :=
  ∀ ts ms, ms ≠ [] → Items (Reads 0) ts ms →
    ∃ ks, Items (Reads 0) (ts ++ us) (ms ++ ks) ∧ Node.allAlike ks ns = true

mutual

theorem spells_render (blank : ∀ c ∈ gap, Text.isBlank c = true) (n : Node)
    (renderable : n.renderable = true) : Spells (n.render gap) (Stands 8 n) := by
  cases n with
  | identifier t span =>
    rw [Node.renderable] at renderable
    rw [Node.render]
    refine (Spells.name renderable).mono ?_
    rintro ts ⟨u, rfl, kind, -, same⟩
    have isIdentifier : t.kind = .identifier := by
      simp only [Token.isName, Bool.and_eq_true, beq_iff_eq] at renderable
      exact renderable.1
    exact ⟨_, .identifier (kind.trans isIdentifier), by simp [Node.ofIdentifier, Node.alike, same]⟩
  | number t span =>
    rw [Node.renderable] at renderable
    rw [Node.render]
    refine (Spells.number renderable).mono ?_
    rintro ts ⟨u, rfl, kind, -, same⟩
    have isNumber : t.kind = .number := by
      simp only [Token.isNumber, Bool.and_eq_true, beq_iff_eq] at renderable
      exact renderable.1
    exact ⟨_, .number (kind.trans isNumber), by simp [Node.ofNumber, Node.alike, same]⟩
  | string t span =>
    rw [Node.renderable] at renderable
    rw [Node.render]
    refine (Spells.text renderable).mono ?_
    rintro ts ⟨u, rfl, kind, -, same⟩
    have isString : t.kind = .string := by
      simp only [Token.isText, Bool.and_eq_true, beq_iff_eq] at renderable
      exact renderable.1
    exact ⟨_, .string (kind.trans isString), by simp [Node.ofString, Node.alike, same]⟩
  | unary op operand span =>
    rw [Node.renderable, Bool.and_eq_true] at renderable
    rw [Node.render]
    exact .grouped (.unary renderable.1 (spells_render blank operand renderable.2) span)
  | binary left op right span =>
    rw [Node.renderable, Bool.and_eq_true, Bool.and_eq_true] at renderable
    rw [Node.render]
    exact .grouped (.binary renderable.1.2 (spells_render blank left renderable.1.1)
      (spells_render blank right renderable.2) span)
  | list elements span =>
    rw [Node.renderable] at renderable
    rw [Node.render]
    exact .list (spells_renderItems blank elements renderable) span
  | call callee args span =>
    rw [Node.renderable, Bool.and_eq_true] at renderable
    rw [Node.render]
    exact .grouped (.call (spells_render blank callee renderable.1)
      (spells_renderItems blank args renderable.2) span)
  | assign name value span =>
    rw [Node.renderable, Bool.and_eq_true] at renderable
    rw [Node.render]
    exact .grouped (.assign renderable.1 (spells_render blank value renderable.2) span)
  | program body span => cases renderable
  | blank start stop => cases renderable

theorem spells_renderItems (blank : ∀ c ∈ gap, Text.isBlank c = true) (ns : List Node)
    (renderable : Node.allRenderable ns = true) :
    Spells (Node.renderItems gap ns) (Spells.Listed ns) := by
  cases ns with
  | nil =>
    rw [Node.renderItems]
    refine Spells.nil.mono ?_
    rintro ts rfl
    exact ⟨[], .nil, by simp [Node.allAlike]⟩
  | cons n ns =>
    rw [Node.allRenderable, Bool.and_eq_true] at renderable
    rw [Node.renderItems]
    have first := spells_render blank n renderable.1
    have others := spells_renderFurther blank ns renderable.2
    refine (first.append others (stops_renderFurther ns)).mono ?_
    rintro ts ⟨us, vs, ⟨m, reads, alike⟩, continued, rfl⟩
    obtain ⟨ks, items, alikes⟩ := continued us [m] (by simp)
      (.snoc .nil (.weaken (Nat.zero_le 8) reads))
    exact ⟨m :: ks, items, by simp [Node.allAlike, alike, alikes]⟩

theorem spells_renderFurther (blank : ∀ c ∈ gap, Text.isBlank c = true) (ns : List Node)
    (renderable : Node.allRenderable ns = true) :
    Spells (Node.renderFurther gap ns) (Continued ns) := by
  cases ns with
  | nil =>
    rw [Node.renderFurther]
    refine Spells.nil.mono ?_
    rintro us rfl ts ms - items
    exact ⟨[], by simpa using items, by simp [Node.allAlike]⟩
  | cons n ns =>
    rw [Node.allRenderable, Bool.and_eq_true] at renderable
    rw [Node.renderFurther]
    have next := Spells.blanks blank (spells_render blank n renderable.1)
    have others := spells_renderFurther blank ns renderable.2
    refine (Spells.cons rfl (fun _ => rfl)
      (next.append others (stops_renderFurther ns))).mono ?_
    rintro us ⟨comma, vs, isComma, ⟨ws, xs, ⟨m, reads, alike⟩, continued, rfl⟩, rfl⟩ ts ms some
      items
    have further := items.further some isComma (.weaken (Nat.zero_le 8) reads)
    obtain ⟨ks, items', alikes⟩ := continued _ _ (by simp) further
    exact ⟨m :: ks, by simpa using items', by simp [Node.allAlike, alike, alikes]⟩

end

def Followed (body : List Node) (us : List Token) : Prop :=
  ∀ ts ms, Statements (Reads 0) ts ms →
    ∃ ks, Statements (Reads 0) (ts ++ us) (ms ++ ks) ∧ Node.allAlike ks body = true

theorem spells_renderBody (blank : ∀ c ∈ gap, Text.isBlank c = true) (body : List Node)
    (renderable : Node.allRenderable body = true) :
    Spells (Node.renderBody gap body) (Followed body) := by
  induction body with
  | nil =>
    refine Spells.nil.mono ?_
    rintro us rfl ts ms before
    exact ⟨[], by simpa using before, by simp [Node.allAlike]⟩
  | cons n body ih =>
    rw [Node.allRenderable, Bool.and_eq_true] at renderable
    have text : Node.renderBody gap (n :: body) =
        n.render gap ++ ';' :: Node.renderBody gap body := by
      simp [Node.renderBody]
    rw [text]
    have others := Spells.cons (c := ';') rfl (fun _ => rfl) (ih renderable.2)
    refine ((spells_render blank n renderable.1).append others (.cons (by decide) _)).mono ?_
    rintro us ⟨vs, ws, ⟨m, reads, alike⟩, ⟨semicolon, xs, isSemicolon, followed, rfl⟩, rfl⟩ ts ms
      before
    have statement := before.snoc (.weaken (Nat.zero_le 8) reads) isSemicolon
    obtain ⟨ks, statements, alikes⟩ := followed _ _ statement
    exact ⟨m :: ks, by simpa using statements, by simp [Node.allAlike, alike, alikes]⟩

end Trees

/-- Parsing the text of trees gives trees that differ in places only. -/
theorem parse_renderBody {gap : List Char} (blank : ∀ c ∈ gap, Text.isBlank c = true)
    {body : List Node} (renderable : Node.allRenderable body = true) (file : String) :
    ∃ p, parse ⟨file, String.ofList (Node.renderBody gap body)⟩ = .ok p ∧
      Node.allAlike p.body body = true := by
  have nothing : Stops [] := by rintro c ⟨⟩
  obtain ⟨ts, q, scans, followed⟩ := spells_renderBody blank body renderable
    (.start ⟨file, String.ofList (Node.renderBody gap body)⟩) [] nothing
  obtain ⟨ks, statements, alikes⟩ := followed [] [] .nil
  refine ⟨.ofBody _ ks, parse_eq_ok_iff.mpr ⟨ts, q, ks, ?_, statements, rfl⟩, ?_⟩
  · have finished : TokenStream.ofCursor ⟨q, []⟩ = ⟨[], .finished q⟩ := by
      rw [TokenStream.ofCursor_eq]
      rfl
    rw [Cursor.Scans, finished, List.append_nil, List.append_nil] at scans
    rw [TokenStream.ofOrigin, Cursor.ofOrigin, String.toList_ofList]
    exact scans
  · have sameBody : (Program.ofBody ⟨file, String.ofList (Node.renderBody gap body)⟩ ks).body =
        ks := by
      unfold Program.ofBody
      cases ks <;> rfl
    rw [sameBody]
    exact alikes

/-- The tree of `let n = (! (f(1.5, "\\")))`. -/
def negatedCall : Node :=
  .assign ⟨.identifier, .string "n", .nowhere⟩
    (.unary ⟨.bang, .null, .nowhere⟩
      (.call (.identifier ⟨.identifier, .string "f", .nowhere⟩ .nowhere)
        [.number ⟨.number, .string "1.5", .nowhere⟩ .nowhere,
          .string ⟨.string, .string "\\", .nowhere⟩ .nowhere] .nowhere) .nowhere) .nowhere

theorem parse_render_negatedCall : Node.allRenderable [negatedCall] = true ∧
    ∃ p, parse ⟨"", String.ofList (Node.renderBody [' '] [negatedCall])⟩ = .ok p ∧
      Node.allAlike p.body [negatedCall] = true :=
  ⟨by decide, parse_renderBody (List.all_eq_true.mp rfl) (by decide) ""⟩

end SceneScript
