import SceneScript.Proofs.Node.Json

/-!
Normal forms of tree files. Of the fields of an object some are read and the others ignored
(`Slot.layout`). The normal form of a tree file has those that are read and no others, at every
level, in the order in which they are written. A tree file is read like its normal form, and the
normal form is what the tree that is read is written as.
-/

namespace SceneScript

/-- What something in a tree file stands for. -/
inductive Slot where
  | file
  | node
  | nodes
  | token
  | place
  /-- Anything, which is kept as it is. -/
  | datum

namespace Slot

/-- The fields of a type of nodes, besides the type and the place. -/
def parts : String → List (String × Slot)
  | "Program" => [("body", nodes)]
  | "Identifier" | "NumberLiteral" | "StringLiteral" => [("token", token)]
  | "BinaryExpression" => [("left", node), ("op", token), ("right", node)]
  | "UnaryExpression" => [("op", token), ("operand", node)]
  | "ListExpression" => [("elements", nodes)]
  | "CallExpression" => [("callee", node), ("args", nodes)]
  | "AssignExpression" => [("name", token), ("value", node)]
  | _ => []

/-- All fields of a type of nodes. -/
def ofType (type : String) : List (String × Slot) :=
  [("type", datum), ("start", place), ("end", place)] ++ parts type

/-- The fields of an object that are read, in the order in which they are written. -/
def layout (fields : List (String × Json)) : Slot → List (String × Slot)
  | file => [("filename", datum), ("source", datum), ("program", node)]
  | node =>
    ofType (match Json.field? fields "type" with
      | some (.string type) => type
      | _ => "")
  | token => [("kind", datum), ("value", datum), ("start", place), ("end", place)]
  | nodes | place | datum => []

/-- What stands for fields that are missing. -/
def defaults : Slot → List (String × Json)
  | token => [("value", .null)]
  | _ => []

end Slot

namespace Json

/-- The fields of these names in this order. -/
def arrange (layout : List (String × Slot)) (fields : List (String × Json)) :
    List (String × Json) :=
  layout.filterMap fun (key, _) => (field? fields key).map (key, ·)

mutual

/-- The JSON without what is not read, and with a null for each value that a token lacks. -/
def normalForm : Slot → Json → Json
  | .place, j | .datum, j => j
  | .nodes, .array items => .array (normalItems items)
  | .nodes, j => j
  | slot, .object fields =>
    .object (arrange (slot.layout fields)
      (normalFields (slot.layout fields) fields ++ slot.defaults))
  | _, j => j

def normalItems : List Json → List Json
  | [] => []
  | item :: items => normalForm .node item :: normalItems items

def normalFields (layout : List (String × Slot)) : List (String × Json) → List (String × Json)
  | [] => []
  | (key, value) :: fields =>
    match layout.lookup key with
    | some slot => (key, normalForm slot value) :: normalFields layout fields
    | none => normalFields layout fields

end

mutual

/-- Whether all places that are read, and all bodies, elements and arguments, are arrays. -/
def regular : Slot → Json → Bool
  | .datum, _ => true
  | .place, .array _ => true
  | .place, _ => false
  | .nodes, .array items => regularItems items
  | .nodes, _ => false
  | slot, .object fields => regularFields (slot.layout fields) fields
  | _, _ => true

def regularItems : List Json → Bool
  | [] => true
  | item :: items => regular .node item && regularItems items

def regularFields (layout : List (String × Slot)) : List (String × Json) → Bool
  | [] => true
  | (key, value) :: fields =>
    (match layout.lookup key with
      | some slot => regular slot value
      | none => true) && regularFields layout fields

end

theorem normalForm_datum (j : Json) : j.normalForm .datum = j := by
  cases j <;> rfl

theorem normalForm_place (j : Json) : j.normalForm .place = j := by
  cases j <;> rfl

section Fields

variable {layout : List (String × Slot)} {fields : List (String × Json)} {key : String}
  {slot own : Slot} {value : Json}

theorem require_eq_ok_iff : require fields key = .ok value ↔ field? fields key = some value := by
  unfold require
  cases field? fields key with
  | none => simp
  | some found => simp

theorem field?_normalFields (known : layout.lookup key = some slot) :
    field? (normalFields layout fields) key = (field? fields key).map (normalForm slot) := by
  induction fields with
  | nil => rfl
  | cons entry fields ih =>
    obtain ⟨name, first⟩ := entry
    rw [normalFields]
    by_cases same : key = name
    · subst same
      rw [known]
      simp [field?]
    · have other : (key == name) = false := by simp [same]
      cases layout.lookup name with
      | none => simpa [field?, List.lookup_cons, other] using ih
      | some _ => simpa [field?, List.lookup_cons, other] using ih

theorem regular_of_field? (regular : regularFields layout fields = true)
    (known : layout.lookup key = some slot) (found : field? fields key = some value) :
    value.regular slot = true := by
  induction fields with
  | nil => cases found
  | cons entry fields ih =>
    obtain ⟨name, first⟩ := entry
    rw [regularFields, Bool.and_eq_true] at regular
    by_cases same : key = name
    · subst same
      simp only [field?, List.lookup_cons, beq_self_eq_true] at found
      cases found
      rw [known] at regular
      exact regular.1
    · have other : (key == name) = false := by simp [same]
      simp only [field?, List.lookup_cons, other] at found
      exact ih regular.2 found

/-- The fields of an object in their normal forms, and what stands for those that are missing. -/
def normal (slot : Slot) (fields : List (String × Json)) : List (String × Json) :=
  normalFields (slot.layout fields) fields ++ slot.defaults

theorem field?_normal (known : (slot.layout fields).lookup key = some own) :
    field? (normal slot fields) key =
      ((field? fields key).map (normalForm own)).or (field? slot.defaults key) := by
  have first : (normalFields (slot.layout fields) fields).lookup key = _ :=
    field?_normalFields known
  rw [normal, field?, List.lookup_append, first]
  rfl

theorem field?_normal_of_found (slot : Slot) (known : (slot.layout fields).lookup key = some own)
    (found : field? fields key = some value) :
    field? (normal slot fields) key = some (value.normalForm own) := by
  rw [field?_normal known, found]
  rfl

theorem arrange_cons (found : field? fields key = some value) :
    arrange ((key, slot) :: layout) fields = (key, value) :: arrange layout fields := by
  simp [arrange, found]

end Fields

end Json

theorem bind_eq_ok_iff {ε α β : Type} {x : Except ε α} {f : α → Except ε β} {b : β} :
    (x >>= f) = .ok b ↔ ∃ a, x = .ok a ∧ f a = .ok b := by
  cases x with
  | error e => simp [bind, Except.bind]
  | ok a => simp [bind, Except.bind]

section Reading

open Json

variable {heading : Heading} {j : Json} {fields : List (String × Json)}

theorem Place.of_ofJson {place : Place} (read : Place.ofJson heading j = .ok place)
    (isArray : j.regular .place = true) : heading.Covers place ∧ place.toJson = j := by
  cases j with
  | array items =>
    rw [Place.ofJson, bind_eq_ok_iff] at read
    obtain ⟨parts, listed, read⟩ := read
    cases listed
    split at read
    · cases read
      exact ⟨⟨_, _, _, rfl⟩, toJson_ofNote _⟩
    · cases read
  | _ => cases isArray

theorem Span.of_ofFields {span : Span} {layout : List (String × Slot)}
    (read : Span.ofFields heading fields = .ok span)
    (regular : regularFields layout fields = true)
    (start : layout.lookup "start" = some .place) (stop : layout.lookup "end" = some .place) :
    span.Located heading.Covers ∧ field? fields "start" = some span.start.toJson ∧
      field? fields "end" = some span.stop.toJson := by
  simp only [ofFields, bind_eq_ok_iff, require_eq_ok_iff] at read
  obtain ⟨a, foundStart, first, readStart, b, foundStop, last, readStop, is⟩ := read
  cases is
  obtain ⟨startCovered, startWritten⟩ :=
    Place.of_ofJson readStart (regular_of_field? regular start foundStart)
  obtain ⟨stopCovered, stopWritten⟩ :=
    Place.of_ofJson readStop (regular_of_field? regular stop foundStop)
  rw [startWritten, stopWritten]
  exact ⟨⟨startCovered, stopCovered⟩, foundStart, foundStop⟩

theorem Token.eq_label_of_kindOfJson {kind : TokenKind} (read : kindOfJson j = .ok kind) :
    j = .string kind.label := by
  cases j with
  | string s =>
    cases found : TokenKind.ofLabel? s with
    | none => simp [kindOfJson, found] at read
    | some other =>
      simp only [kindOfJson, found, Except.ok.injEq] at read
      have same := List.find?_some found
      rw [← read, eq_of_beq same]
  | _ => cases read

/-- A token that is read is written as the normal form of what it is read from. -/
theorem Token.of_ofJson {t : Token} (read : Token.ofJson heading j = .ok t)
    (regular : j.regular .token = true) :
    t.span.Located heading.Covers ∧ t.toJson = j.normalForm .token := by
  cases j with
  | object fields =>
    simp only [Token.ofJson, bind_eq_ok_iff, require_eq_ok_iff] at read
    obtain ⟨k, foundKind, kind, readKind, span, readSpan, is⟩ := read
    cases is
    rw [eq_label_of_kindOfJson readKind] at foundKind
    obtain ⟨located, start, stop⟩ := Span.of_ofFields readSpan regular rfl rfl
    refine ⟨located, ?_⟩
    have value : field? (normal .token fields) "value" =
        some ((field? fields "value").getD .null) := by
      have known : (Slot.token.layout fields).lookup "value" = some .datum := rfl
      rw [field?_normal known]
      cases field? fields "value" with
      | none => rfl
      | some value => exact congrArg some value.normalForm_datum
    change _ = Json.object (arrange [("kind", .datum), ("value", .datum), ("start", .place),
      ("end", .place)] (normal .token fields))
    rw [arrange_cons (field?_normal_of_found .token rfl foundKind), arrange_cons value,
      arrange_cons (field?_normal_of_found .token rfl start),
      arrange_cons (field?_normal_of_found .token rfl stop), normalForm_place, normalForm_place]
    rfl
  | _ => cases read

end Reading

namespace Node

open Json

/-- The node is written as the normal form of the JSON, and its places refer to the heading. -/
structure WrittenAs (heading : Heading) (node : Node) (j : Json) : Prop where
  located : node.Located heading.Covers
  written : node.toJson = .ok (j.normalForm .node)

structure AllWrittenAs (heading : Heading) (nodes : List Node) (items : List Json) : Prop where
  located : AllHold (Span.Located heading.Covers) (fun t => t.span.Located heading.Covers) nodes
  written : allToJson nodes = .ok (normalItems items)

/-- The fields are those of a node of a kind, at a place. -/
structure Shown (heading : Heading) (fields : List (String × Json)) (kind : String)
    (span : Span) : Prop where
  type : field? fields "type" = some (.string kind)
  start : field? fields "start" = some span.start.toJson
  stop : field? fields "end" = some span.stop.toJson
  located : span.Located heading.Covers
  regular : regularFields (Slot.node.layout fields) fields = true

namespace Shown

variable {heading : Heading} {fields : List (String × Json)} {kind key : String} {span : Span}
  {slot : Slot} {value : Json}

theorem layout (shown : Shown heading fields kind span) :
    Slot.node.layout fields = Slot.ofType kind := by
  rw [Slot.layout, shown.type]

theorem normalForm (shown : Shown heading fields kind span) (parts : List (String × Slot))
    (own : Slot.parts kind = parts) :
    (Json.object fields).normalForm .node =
      toObject kind span (arrange parts (normal .node fields)) := by
  change Json.object (arrange (Slot.node.layout fields) (normal .node fields)) = _
  rw [shown.layout, Slot.ofType, own]
  change Json.object (arrange (("type", .datum) :: ("start", .place) :: ("end", .place) ::
    parts) _) = _
  rw [arrange_cons (field?_normal_of_found .node rfl shown.type),
    arrange_cons (field?_normal_of_found .node rfl shown.start),
    arrange_cons (field?_normal_of_found .node rfl shown.stop), normalForm_datum,
    normalForm_place, normalForm_place]
  rfl

/-- The normal form and the regularity of a part that is read. -/
theorem part (shown : Shown heading fields kind span)
    (known : (Slot.ofType kind).lookup key = some slot) (found : field? fields key = some value) :
    field? (normal .node fields) key = some (value.normalForm slot) ∧
      value.regular slot = true := by
  rw [← shown.layout] at known
  exact ⟨field?_normal_of_found .node known found, regular_of_field? shown.regular known found⟩

theorem of_read (type : (field? fields "type").getD .null = .string kind)
    (read : Span.ofFields heading fields = .ok span)
    (regular : (Json.object fields).regular .node = true) : Shown heading fields kind span := by
  obtain ⟨located, start, stop⟩ := Span.of_ofFields read regular rfl rfl
  refine ⟨?_, start, stop, located, regular⟩
  cases found : field? fields "type" with
  | none =>
    rw [found] at type
    cases type
  | some own =>
    rw [found] at type
    exact congrArg some type

end Shown

section Kinds

variable {heading : Heading} {fields : List (String × Json)} {span : Span} {a b c : Json}
  {items : List Json} {left right value : Node} {nodes : List Node} {t : Token}
  {part : Json → Except TreeFault Node}

/-- Nodes that are read in such a way are written as the normal forms of what they are read from. -/
def Renders (heading : Heading) (part : Json → Except TreeFault Node) : Prop :=
  ∀ {j : Json} {node : Node}, part j = .ok node → j.regular .node = true →
    node.WrittenAs heading j

theorem Renders.all (renders : Renders heading part) (read : items.mapM part = .ok nodes)
    (regular : regularItems items = true) : AllWrittenAs heading nodes items := by
  induction items generalizing nodes with
  | nil =>
    cases read
    exact ⟨trivial, rfl⟩
  | cons item items ih =>
    rw [regularItems, Bool.and_eq_true] at regular
    simp only [List.mapM_cons, bind_eq_ok_iff] at read
    obtain ⟨node, readFirst, others, readOthers, is⟩ := read
    cases is
    have first := renders readFirst regular.1
    have rest := ih readOthers regular.2
    refine ⟨⟨first.located, rest.located⟩, ?_⟩
    rw [allToJson, first.written, rest.written]
    rfl

/-- The nodes of a field that is read as an array. -/
theorem Shown.nodes_of_read {kind key : String} (shown : Shown heading fields kind span)
    (renders : Renders heading part) (known : (Slot.ofType kind).lookup key = some .nodes)
    (found : field? fields key = some a) (listed : a.parts = .ok items)
    (read : items.mapM part = .ok nodes) :
    field? (normal .node fields) key = some (.array (normalItems items)) ∧
      AllWrittenAs heading nodes items := by
  obtain ⟨normal, regular⟩ := shown.part known found
  cases a with
  | array own =>
    cases listed
    exact ⟨normal, renders.all read regular⟩
  | _ => cases regular

theorem Shown.node_of_read {kind key : String} (shown : Shown heading fields kind span)
    (renders : Renders heading part) (known : (Slot.ofType kind).lookup key = some .node)
    (found : field? fields key = some a) (read : part a = .ok value) :
    field? (normal .node fields) key = some (a.normalForm .node) ∧ value.WrittenAs heading a := by
  obtain ⟨normal, regular⟩ := shown.part known found
  exact ⟨normal, renders read regular⟩

theorem Shown.token_of_read {kind key : String} (shown : Shown heading fields kind span)
    (known : (Slot.ofType kind).lookup key = some .token)
    (found : field? fields key = some a) (read : Token.ofJson heading a = .ok t) :
    field? (normal .node fields) key = some t.toJson ∧ t.span.Located heading.Covers := by
  obtain ⟨normal, regular⟩ := shown.part known found
  obtain ⟨located, written⟩ := Token.of_ofJson read regular
  rw [written]
  exact ⟨normal, located⟩

theorem writtenAs_program (shown : Shown heading fields "Program" span)
    (renders : Renders heading part) (found : field? fields "body" = some a)
    (listed : a.parts = .ok items) (read : items.mapM part = .ok nodes) :
    (program nodes span).WrittenAs heading (.object fields) := by
  obtain ⟨body, parts⟩ := shown.nodes_of_read renders rfl found listed read
  refine ⟨⟨shown.located, parts.located⟩, ?_⟩
  rw [toJson, parts.written, shown.normalForm [("body", .nodes)] rfl, arrange_cons body]
  rfl

theorem writtenAs_list (shown : Shown heading fields "ListExpression" span)
    (renders : Renders heading part) (found : field? fields "elements" = some a)
    (listed : a.parts = .ok items) (read : items.mapM part = .ok nodes) :
    (list nodes span).WrittenAs heading (.object fields) := by
  obtain ⟨elements, parts⟩ := shown.nodes_of_read renders rfl found listed read
  refine ⟨⟨shown.located, parts.located⟩, ?_⟩
  rw [toJson, parts.written, shown.normalForm [("elements", .nodes)] rfl, arrange_cons elements]
  rfl

theorem writtenAs_call (shown : Shown heading fields "CallExpression" span)
    (renders : Renders heading part) (foundCallee : field? fields "callee" = some a)
    (readCallee : part a = .ok value) (foundArgs : field? fields "args" = some b)
    (listed : b.parts = .ok items) (readArgs : items.mapM part = .ok nodes) :
    (call value nodes span).WrittenAs heading (.object fields) := by
  obtain ⟨callee, first⟩ := shown.node_of_read renders rfl foundCallee readCallee
  obtain ⟨args, parts⟩ := shown.nodes_of_read renders rfl foundArgs listed readArgs
  refine ⟨⟨shown.located, first.located, parts.located⟩, ?_⟩
  rw [toJson, first.written, parts.written,
    shown.normalForm [("callee", .node), ("args", .nodes)] rfl, arrange_cons callee,
    arrange_cons args]
  rfl

theorem writtenAs_binary (shown : Shown heading fields "BinaryExpression" span)
    (renders : Renders heading part) (foundLeft : field? fields "left" = some a)
    (readLeft : part a = .ok left) (foundOp : field? fields "op" = some b)
    (readOp : Token.ofJson heading b = .ok t) (foundRight : field? fields "right" = some c)
    (readRight : part c = .ok right) :
    (binary left t right span).WrittenAs heading (.object fields) := by
  obtain ⟨left, first⟩ := shown.node_of_read renders rfl foundLeft readLeft
  obtain ⟨op, sign⟩ := shown.token_of_read rfl foundOp readOp
  obtain ⟨right, second⟩ := shown.node_of_read renders rfl foundRight readRight
  refine ⟨⟨shown.located, first.located, sign, second.located⟩, ?_⟩
  rw [toJson, first.written, second.written,
    shown.normalForm [("left", .node), ("op", .token), ("right", .node)] rfl, arrange_cons left,
    arrange_cons op, arrange_cons right]
  rfl

theorem writtenAs_unary (shown : Shown heading fields "UnaryExpression" span)
    (renders : Renders heading part) (foundOp : field? fields "op" = some a)
    (readOp : Token.ofJson heading a = .ok t) (found : field? fields "operand" = some b)
    (read : part b = .ok value) : (unary t value span).WrittenAs heading (.object fields) := by
  obtain ⟨op, sign⟩ := shown.token_of_read rfl foundOp readOp
  obtain ⟨operand, only⟩ := shown.node_of_read renders rfl found read
  refine ⟨⟨shown.located, sign, only.located⟩, ?_⟩
  rw [toJson, only.written, shown.normalForm [("op", .token), ("operand", .node)] rfl,
    arrange_cons op, arrange_cons operand]
  rfl

theorem writtenAs_assign (shown : Shown heading fields "AssignExpression" span)
    (renders : Renders heading part) (foundName : field? fields "name" = some a)
    (readName : Token.ofJson heading a = .ok t) (found : field? fields "value" = some b)
    (read : part b = .ok value) : (assign t value span).WrittenAs heading (.object fields) := by
  obtain ⟨name, placed⟩ := shown.token_of_read rfl foundName readName
  obtain ⟨bound, only⟩ := shown.node_of_read renders rfl found read
  refine ⟨⟨shown.located, placed, only.located⟩, ?_⟩
  rw [toJson, only.written, shown.normalForm [("name", .token), ("value", .node)] rfl,
    arrange_cons name, arrange_cons bound]
  rfl

/-- The nodes with a single token. -/
theorem Shown.normalForm_leaf {kind : String} (shown : Shown heading fields kind span)
    (leaf : Slot.parts kind = [("token", .token)]) (found : field? fields "token" = some a)
    (read : Token.ofJson heading a = .ok t) :
    (Json.object fields).normalForm .node = toObject kind span [("token", t.toJson)] ∧
      t.span.Located heading.Covers := by
  have known : (Slot.ofType kind).lookup "token" = some .token := by
    rw [Slot.ofType, leaf]
    rfl
  obtain ⟨token, located⟩ := shown.token_of_read known found read
  refine ⟨?_, located⟩
  rw [shown.normalForm _ leaf, arrange_cons token]
  rfl

end Kinds

theorem renders_ofJsonUpTo (heading : Heading) (depth : Nat) :
    Renders heading (ofJsonUpTo heading depth) := by
  induction depth with
  | zero => exact fun read => nomatch read
  | succ depth renders =>
    intro j node read regular
    cases j with
    | object fields =>
      simp only [ofJsonUpTo, bind_eq_ok_iff] at read
      obtain ⟨span, readSpan, read⟩ := read
      -- One case for each type that a node can have, and one for all other types.
      split at read <;> rename_i type
      case h_10 => cases read
      all_goals
        have shown := Shown.of_read type readSpan regular
        simp only [bind_eq_ok_iff, require_eq_ok_iff] at read
      case h_1 =>
        obtain ⟨body, ⟨_, found, items, listed, readBody⟩, is⟩ := read
        cases is
        exact writtenAs_program shown renders found listed readBody
      case h_2 | h_3 | h_4 =>
        obtain ⟨t, ⟨_, found, readToken⟩, is⟩ := read
        cases is
        obtain ⟨normal, token⟩ := shown.normalForm_leaf rfl found readToken
        exact ⟨⟨shown.located, token⟩, by rw [toJson, normal]; rfl⟩
      case h_5 =>
        obtain ⟨_, ⟨_, foundLeft, readLeft⟩, _, ⟨_, foundOp, readOp⟩, _, ⟨_, foundRight, readRight⟩,
          is⟩ := read
        cases is
        exact writtenAs_binary shown renders foundLeft readLeft foundOp readOp foundRight readRight
      case h_6 =>
        obtain ⟨_, ⟨_, foundOp, readOp⟩, _, ⟨_, found, readOperand⟩, is⟩ := read
        cases is
        exact writtenAs_unary shown renders foundOp readOp found readOperand
      case h_7 =>
        obtain ⟨_, ⟨_, found, _, listed, readElements⟩, is⟩ := read
        cases is
        exact writtenAs_list shown renders found listed readElements
      case h_8 =>
        obtain ⟨_, ⟨_, foundCallee, readCallee⟩, _, ⟨_, foundArgs, _, listed, readArgs⟩, is⟩ := read
        cases is
        exact writtenAs_call shown renders foundCallee readCallee foundArgs listed readArgs
      case h_9 =>
        obtain ⟨_, ⟨_, foundName, readName⟩, _, ⟨_, found, readValue⟩, is⟩ := read
        cases is
        exact writtenAs_assign shown renders foundName readName found readValue
    | _ => cases read

end Node

open Json in
/-- A program that is read is written as the normal form of what it is read from. -/
theorem Program.of_ofJson {j : Json} {p : Program} (read : Program.ofJson j = .ok p)
    (regular : j.regular .file = true) :
    (∃ heading : Heading, p.toNode.Located heading.Covers) ∧
      p.toJson = .ok (j.normalForm .file) := by
  cases j with
  | object fields =>
    simp only [Program.ofJson, bind_eq_ok_iff, require_eq_ok_iff] at read
    obtain ⟨tree, foundTree, file, foundFile, text, foundText, node, readNode, is⟩ := read
    have known : (Slot.file.layout fields).lookup "program" = some .node := rfl
    have writtenAs := Node.renders_ofJsonUpTo ⟨file, text⟩ _ readNode
      (regular_of_field? regular known foundTree)
    split at is
    · rename_i body span
      cases is
      obtain ⟨located, written⟩ := writtenAs
      refine ⟨⟨_, located⟩, ?_⟩
      have start : Heading.Covers ⟨file, text⟩ span.start := located.span.1
      change _ = Except.ok (Json.object (arrange [("filename", .datum), ("source", .datum),
        ("program", .node)] (normal .file fields)))
      rw [arrange_cons (field?_normal_of_found .file rfl foundFile),
        arrange_cons (field?_normal_of_found .file rfl foundText),
        arrange_cons (field?_normal_of_found .file rfl foundTree), normalForm_datum,
        normalForm_datum]
      rw [toJson, toNode, written, start.file, start.text]
      rfl
    · cases is
  | _ => cases read

/-- The tree of a tree file with arrays for its places and its lists is written as the normal form
    of the file, from which it is read again. Other tree files have the same tree just if they have
    the same normal form. -/
theorem trees_are_written_in_normal_form {a : Json} {p : Program}
    (regular : a.regular .file = true) (read : Program.ofJson a = .ok p) :
    p.toJson = .ok (a.normalForm .file) ∧ Program.ofJson (a.normalForm .file) = .ok p ∧
      ∀ (b : Json) (q : Program), b.regular .file = true → Program.ofJson b = .ok q →
        (p = q ↔ a.normalForm .file = b.normalForm .file) := by
  have returns {j : Json} {p : Program} (regular : j.regular .file = true)
      (read : Program.ofJson j = .ok p) :
      p.toJson = .ok (j.normalForm .file) ∧ Program.ofJson (j.normalForm .file) = .ok p := by
    obtain ⟨⟨heading, located⟩, written⟩ := Program.of_ofJson read regular
    obtain ⟨own, ownWritten, again⟩ := Program.ofJson_toJson located
    rw [written] at ownWritten
    cases ownWritten
    exact ⟨written, again⟩
  obtain ⟨written, again⟩ := returns regular read
  refine ⟨written, again, fun b q regular' read' => ?_⟩
  obtain ⟨written', again'⟩ := returns regular' read'
  constructor
  · rintro rfl
    rw [written] at written'
    exact Except.ok.inj written'
  · intro same
    rw [same, again'] at again
    exact (Except.ok.inj again).symm

/-- A program as the operand of a sign without a value, with fields that nobody reads. -/
theorem noted_tree_is_written_bare :
    let place (n : Nat) : Json := .array [.nat n, .nat 0, .nat n]
    let noted : Json := .object [("version", .nat 2), ("source", .string "-x"),
      ("program", .object [("body", .array [
        .object [("note", .array []), ("type", .string "UnaryExpression"),
          ("operand", .object [("type", .string "Program"), ("start", place 7), ("end", place 3),
            ("body", .array []), ("token", .null)]),
          ("op", .object [("kind", .string "MINUS"), ("end", place 1), ("start", place 0)]),
          ("start", place 0), ("end", place 2)]]),
        ("type", .string "Program"), ("end", place 2), ("start", place 0)]),
      ("filename", .string "minus")]
    let bare : Json := .object [("filename", .string "minus"), ("source", .string "-x"),
      ("program", .object [("type", .string "Program"), ("start", place 0), ("end", place 2),
        ("body", .array [
          .object [("type", .string "UnaryExpression"), ("start", place 0), ("end", place 2),
            ("op", .object [("kind", .string "MINUS"), ("value", .null), ("start", place 0),
              ("end", place 1)]),
            ("operand", .object [("type", .string "Program"), ("start", place 7),
              ("end", place 3), ("body", .array [])])]])])]
    ∃ p, Program.ofJson noted = .ok p ∧ p.toJson = .ok bare ∧ Program.ofJson bare = .ok p := by
  intro place noted bare
  have accepted : (Program.ofJson noted).toBool = true := rfl
  have regular : noted.regular .file = true := rfl
  have normal : noted.normalForm .file = bare := rfl
  cases read : Program.ofJson noted with
  | error fault =>
    rw [read] at accepted
    cases accepted
  | ok p =>
    obtain ⟨written, again, -⟩ := trees_are_written_in_normal_form regular read
    rw [normal] at written again
    exact ⟨p, rfl, written, again⟩

end SceneScript
