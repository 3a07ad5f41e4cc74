import SceneScript.Proofs.Json.RoundTrip
import SceneScript.Proofs.Node.Json

/-!
Tree files as texts: the JSON of a parsed program has nothing in it that could not be read back.
-/

namespace SceneScript

open Json (Readable FieldsReadable ItemsReadable)

section Places

theorem Position.column_walk_le (p : Position) (cs : List Char) :
    (p.walk cs).column ≤ p.column + cs.length := by
  induction cs generalizing p with
  | nil => simp
  | cons c cs ih =>
    have one : (p.advance c).column ≤ p.column + 1 := by
      unfold advance past
      split <;> simp
    have rest := ih (p.advance c)
    simp only [walk_cons, List.length_cons]
    omega

/-- No count of a place is greater than the length of its text. -/
theorem Origin.Has.readable {origin : Origin} {place : Place} (has : origin.Has place)
    (short : origin.text.length < Json.integerLimit) : place.toJson.Readable := by
  obtain ⟨front, back, split, rfl⟩ := has
  have within : front.length ≤ origin.text.length := by
    rw [← String.length_toList, split, List.length_append]
    omega
  have index := Position.index_walk (.start origin) front
  have line := Position.line_walk (.start origin) front
  have lines : front.count '\n' ≤ front.length := List.count_le_length
  have column := Position.column_walk_le (.start origin) front
  have start : (Position.start origin).index = 0 ∧ (Position.start origin).line = 0 ∧
      (Position.start origin).column = 0 := ⟨rfl, rfl, rfl⟩
  have below {n : Nat} (small : n ≤ front.length) : (Json.nat n).Readable :=
    Nat.lt_of_le_of_lt (Nat.le_trans small within) short
  exact ⟨below (by omega), below (by omega), below (by omega), trivial⟩

end Places

section Objects

variable {span : Span}

theorem Token.readable_toJson {t : Token} (value : t.value.Readable)
    (located : t.span.Located (·.toJson.Readable)) : t.toJson.Readable := by
  have different : ["kind", "value", "start", "end"].Nodup := by decide
  exact ⟨different, trivial, value, located.1, located.2, trivial⟩

theorem Node.readable_toObject {kind : String} {fields : List (String × Json)} (names : List String)
    (named : fields.map Prod.fst = names) (different : (["type", "start", "end"] ++ names).Nodup)
    (own : span.Located (·.toJson.Readable)) (readable : FieldsReadable fields) :
    (toObject kind span fields).Readable := by
  subst named
  exact ⟨different, trivial, own.1, own.2, readable⟩

end Objects

namespace Node

/-- The counts and the values in the node can be written and read. -/
def Writable : Node → Prop := Holds (Span.Located (·.toJson.Readable)) (·.toJson.Readable)

def AllWritable : List Node → Prop := AllHold (Span.Located (·.toJson.Readable)) (·.toJson.Readable)

mutual

theorem readable_toJson {node : Node} (writable : node.Writable) :
    ∃ j, node.toJson = .ok j ∧ j.Readable := by
  cases node with
  | program body span =>
    obtain ⟨js, written, readable⟩ := readable_allToJson writable.2
    refine ⟨_, by rw [toJson, written]; rfl, ?_⟩
    exact readable_toObject ["body"] rfl (by decide) writable.1 ⟨readable, trivial⟩
  | identifier t span | number t span | string t span =>
    refine ⟨_, by rw [toJson]; rfl, ?_⟩
    exact readable_toObject ["token"] rfl (by decide) writable.1 ⟨writable.2, trivial⟩
  | binary left op right span =>
    obtain ⟨own, first, sign, second⟩ := writable
    obtain ⟨a, leftWritten, leftReadable⟩ := readable_toJson first
    obtain ⟨b, rightWritten, rightReadable⟩ := readable_toJson second
    refine ⟨_, by rw [toJson, leftWritten, rightWritten]; rfl, ?_⟩
    exact readable_toObject ["left", "op", "right"] rfl (by decide) own
      ⟨leftReadable, sign, rightReadable, trivial⟩
  | unary op operand span =>
    obtain ⟨own, sign, part⟩ := writable
    obtain ⟨j, written, readable⟩ := readable_toJson part
    refine ⟨_, by rw [toJson, written]; rfl, ?_⟩
    exact readable_toObject ["op", "operand"] rfl (by decide) own ⟨sign, readable, trivial⟩
  | list elements span =>
    obtain ⟨js, written, readable⟩ := readable_allToJson writable.2
    refine ⟨_, by rw [toJson, written]; rfl, ?_⟩
    exact readable_toObject ["elements"] rfl (by decide) writable.1 ⟨readable, trivial⟩
  | call callee args span =>
    obtain ⟨own, first, parts⟩ := writable
    obtain ⟨j, written, readable⟩ := readable_toJson first
    obtain ⟨js, allWritten, allReadable⟩ := readable_allToJson parts
    refine ⟨_, by rw [toJson, written, allWritten]; rfl, ?_⟩
    exact readable_toObject ["callee", "args"] rfl (by decide) own ⟨readable, allReadable, trivial⟩
  | assign name value span =>
    obtain ⟨own, bound, part⟩ := writable
    obtain ⟨j, written, readable⟩ := readable_toJson part
    refine ⟨_, by rw [toJson, written]; rfl, ?_⟩
    exact readable_toObject ["name", "value"] rfl (by decide) own ⟨bound, readable, trivial⟩
  | blank => exact writable.elim

theorem readable_allToJson {nodes : List Node} (writable : AllWritable nodes) :
    ∃ js, allToJson nodes = .ok js ∧ ItemsReadable js := by
  cases nodes with
  | nil => exact ⟨[], by rw [allToJson]; rfl, trivial⟩
  | cons node nodes =>
    obtain ⟨j, written, readable⟩ := readable_toJson writable.1
    obtain ⟨js, allWritten, allReadable⟩ := readable_allToJson writable.2
    exact ⟨j :: js, by rw [allToJson, written, allWritten]; rfl, readable, allReadable⟩

end

end Node

end SceneScript
