import SceneScript.Node.Basic
import SceneScript.Value.Store

/-!
The nodes of a tree in the order in which evaluation is done with them: parts before the whole,
from left to right, and both operands of every operator.
-/

namespace SceneScript

namespace Node

mutual

def order : Node → List Node
  | .program body span => orderAll body ++ [.program body span]
  | .identifier token span => [.identifier token span]
  | .number token span => [.number token span]
  | .string token span => [.string token span]
  | .binary left op right span => order left ++ order right ++ [.binary left op right span]
  | .unary op operand span => order operand ++ [.unary op operand span]
  | .list elements span => orderAll elements ++ [.list elements span]
  | .call callee args span => order callee ++ orderAll args ++ [.call callee args span]
  | .assign name value span => order value ++ [.assign name value span]
  | .blank start stop => [.blank start stop]

def orderAll : List Node → List Node
  | [] => []
  | node :: nodes => order node ++ orderAll nodes

end

/-- The place of a call. -/
def callSite? : Node → Option Span
  | .call _ _ span => some span
  | _ => none

/-- The name that an assignment gives a value. -/
def assigned? : Node → Option Name
  | .assign name _ _ => Name.ofJson? name.value
  | _ => none

/-- The name that is read. -/
def read? : Node → Option Name
  | .identifier token _ => Name.ofJson? token.value
  | _ => none

def callSites (nodes : List Node) : List Span := nodes.filterMap callSite?

theorem callSites_append (first second : List Node) :
    callSites (first ++ second) = callSites first ++ callSites second := List.filterMap_append

/-- The node itself is one that a text can have: a part of an expression, with a text where it has
    a token of varying value. -/
def Genuine : Node → Prop
  | .identifier token _ | .number token _ | .string token _ | .assign token _ _ =>
    ∃ s, token.value = .string s
  | .binary .. | .unary .. | .list .. | .call .. => True
  | .program .. | .blank .. => False

/-- The node and all its parts are genuine. -/
def IsExpression (node : Node) : Prop := ∀ part ∈ node.order, part.Genuine

/-- All the nodes are expressions. -/
def AreExpressions (nodes : List Node) : Prop := ∀ part ∈ orderAll nodes, part.Genuine

section Expressions

variable {node callee left right operand value : Node} {nodes elements args : List Node}
  {op name token : Token} {span : Span}

@[simp] theorem areExpressions_nil : AreExpressions [] := by simp [AreExpressions, orderAll]

@[simp] theorem areExpressions_cons :
    AreExpressions (node :: nodes) ↔ node.IsExpression ∧ AreExpressions nodes := by
  simp only [AreExpressions, IsExpression, orderAll, List.forall_mem_append]

@[simp] theorem isExpression_binary :
    (binary left op right span).IsExpression ↔ left.IsExpression ∧ right.IsExpression := by
  simp only [IsExpression, order, List.forall_mem_append, List.forall_mem_singleton, Genuine,
    and_true]

@[simp] theorem isExpression_unary :
    (unary op operand span).IsExpression ↔ operand.IsExpression := by
  simp only [IsExpression, order, List.forall_mem_append, List.forall_mem_singleton, Genuine,
    and_true]

@[simp] theorem isExpression_list :
    (list elements span).IsExpression ↔ AreExpressions elements := by
  simp only [IsExpression, AreExpressions, order, List.forall_mem_append,
    List.forall_mem_singleton, Genuine, and_true]

@[simp] theorem isExpression_call :
    (call callee args span).IsExpression ↔ callee.IsExpression ∧ AreExpressions args := by
  simp only [IsExpression, AreExpressions, order, List.forall_mem_append,
    List.forall_mem_singleton, Genuine, and_true]

@[simp] theorem isExpression_assign :
    (assign name value span).IsExpression ↔
      value.IsExpression ∧ ∃ s, name.value = .string s := by
  simp only [IsExpression, order, List.forall_mem_append, List.forall_mem_singleton, Genuine]

theorem areExpressions_iff : AreExpressions nodes ↔ ∀ node ∈ nodes, node.IsExpression := by
  induction nodes with
  | nil => simp
  | cons node nodes ih => simp [ih]

end Expressions

section Parts

variable {callee left right operand value : Node} {body elements args : List Node}
  {op name : Token} {span : Span}

theorem order_left_subset : left.order ⊆ (binary left op right span).order :=
  fun _ inner => by simp [order, inner]

theorem order_right_subset : right.order ⊆ (binary left op right span).order :=
  fun _ inner => by simp [order, inner]

theorem order_operand_subset : operand.order ⊆ (unary op operand span).order :=
  List.subset_append_left _ _

theorem orderAll_elements_subset : orderAll elements ⊆ (list elements span).order :=
  List.subset_append_left _ _

theorem order_callee_subset : callee.order ⊆ (call callee args span).order :=
  fun _ inner => by simp [order, inner]

theorem orderAll_args_subset : orderAll args ⊆ (call callee args span).order :=
  fun _ inner => by simp [order, inner]

theorem order_value_subset : value.order ⊆ (assign name value span).order :=
  List.subset_append_left _ _

theorem orderAll_body_subset : orderAll body ⊆ (program body span).order :=
  List.subset_append_left _ _

end Parts

theorem order_subset_of_last {node part : Node} {parts : List Node}
    (whole : node.order = parts ++ [node]) (deeper : part ∈ parts → part.order ⊆ parts)
    (inside : part ∈ node.order) : part.order ⊆ node.order := by
  rw [whole, List.mem_append, List.mem_singleton] at inside
  rcases inside with inner | rfl
  · rw [whole]
    exact List.Subset.trans (deeper inner) (List.subset_append_left _ _)
  · exact fun _ => id

theorem order_subset_append {part : Node} {first second : List Node}
    (here : part ∈ first → part.order ⊆ first) (there : part ∈ second → part.order ⊆ second)
    (inside : part ∈ first ++ second) : part.order ⊆ first ++ second := by
  rcases List.mem_append.mp inside with inner | inner
  · exact List.Subset.trans (here inner) (List.subset_append_left _ _)
  · exact List.Subset.trans (there inner) (List.subset_append_right _ _)

mutual

/-- The parts of a part are parts. -/
theorem order_subset (node : Node) {part : Node} :
    part ∈ node.order → part.order ⊆ node.order := by
  cases node with
  | identifier | number | string | blank =>
    exact @order_subset_of_last _ _ [] rfl (by simp)
  | program body span | list body span =>
    exact order_subset_of_last (by rw [order]) (orderAll_subset body)
  | unary op value span | assign op value span =>
    exact order_subset_of_last (by rw [order]) (order_subset value)
  | binary left op right span =>
    exact order_subset_of_last (by rw [order])
      (order_subset_append (order_subset left) (order_subset right))
  | call callee args span =>
    exact order_subset_of_last (by rw [order])
      (order_subset_append (order_subset callee) (orderAll_subset args))

theorem orderAll_subset (nodes : List Node) {part : Node} :
    part ∈ orderAll nodes → part.order ⊆ orderAll nodes := by
  cases nodes with
  | nil => simp [orderAll]
  | cons node nodes =>
    rw [orderAll]
    exact order_subset_append (order_subset node) (orderAll_subset nodes)

end

theorem mem_order_self (node : Node) : node ∈ node.order := by
  cases node <;> simp [order]

theorem order_subset_orderAll {node : Node} {nodes : List Node} (member : node ∈ nodes) :
    node.order ⊆ orderAll nodes := by
  induction nodes with
  | nil => cases member
  | cons first nodes ih =>
    rw [orderAll]
    rcases List.mem_cons.mp member with rfl | later
    · exact List.subset_append_left _ _
    · exact List.subset_append_of_subset_right _ (ih later)

theorem exists_of_mem_orderAll {part : Node} {nodes : List Node} (inside : part ∈ orderAll nodes) :
    ∃ node ∈ nodes, part ∈ node.order := by
  induction nodes with
  | nil => cases inside
  | cons first nodes ih =>
    rw [orderAll, List.mem_append] at inside
    rcases inside with here | later
    · exact ⟨first, List.mem_cons_self, here⟩
    · obtain ⟨node, member, inner⟩ := ih later
      exact ⟨node, List.mem_cons_of_mem _ member, inner⟩

theorem AreExpressions.part {nodes : List Node} {part : Node} (expressions : AreExpressions nodes)
    (inside : part ∈ orderAll nodes) : part.IsExpression :=
  fun _ inner => expressions _ (orderAll_subset nodes inside inner)

end Node

end SceneScript
