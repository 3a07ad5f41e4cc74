import SceneScript.Proofs.Json.Numbers
import SceneScript.Proofs.Json.Strings

/-!
JSON texts with a line for each part are read back as the values they were written from, as long as
those have no fractions and none of the integers is too long.
-/

namespace SceneScript.Json

mutual

/-- There are no fractions in the value, its integers have few enough digits, and the fields of its
    objects have different names. -/
def Readable : Json → Prop
  | .null | .bool _ | .string _ => True
  | .int n => n.natAbs < integerLimit
  | .float _ => False
  | .array items => ItemsReadable items
  | .object fields => (fields.map Prod.fst).Nodup ∧ FieldsReadable fields

def ItemsReadable : List Json → Prop
  | [] => True
  | item :: items => Readable item ∧ ItemsReadable items

def FieldsReadable : List (String × Json) → Prop
  | [] => True
  | (_, value) :: fields => Readable value ∧ FieldsReadable fields

end

section Fields

theorem setField_of_new {key : String} (value : Json) {fields : List (String × Json)}
    (new : key ∉ fields.map Prod.fst) : setField key value fields = fields ++ [(key, value)] := by
  induction fields with
  | nil => rfl
  | cons field fields ih =>
    obtain ⟨k, v⟩ := field
    rw [List.map_cons, List.mem_cons, not_or] at new
    rw [setField, if_neg (Ne.symm new.1), ih new.2]
    rfl

theorem ofFields_of_nodup {fields : List (String × Json)}
    (different : (fields.map Prod.fst).Nodup) :
    ofFields fields = .object fields := by
  have built (front : List (String × Json)) (all : ((front ++ fields).map Prod.fst).Nodup) :
      fields.foldl (fun object field => setField field.1 field.2 object) front =
        front ++ fields := by
    induction fields generalizing front with
    | nil => simp
    | cons field fields ih =>
      obtain ⟨key, value⟩ := field
      have new : key ∉ front.map Prod.fst := by
        rw [List.map_append, List.nodup_append] at all
        intro member
        exact all.2.2 key member key (by simp) rfl
      have rest := ih (List.nodup_cons.mp different).2 (front ++ [(key, value)])
        (by simpa using all)
      simp only [List.foldl_cons, setField_of_new value new, rest, List.append_assoc,
        List.cons_append, List.nil_append]
  exact congrArg Json.object (built [] different)

end Fields

section Space

theorem skipSpace_of_solid {c : Char} (solid : isSpace c = false) (cs : List Char) :
    skipSpace (c :: cs) = c :: cs := by
  rw [skipSpace, List.dropWhile_cons, solid]
  rfl

theorem toList_newline (level : Nat) :
    (newline level).toList = '\n' :: List.replicate (2 * level) ' ' := by
  simp [newline]

theorem skipSpace_newline (level : Nat) (cs : List Char) :
    skipSpace ((newline level).toList ++ cs) = skipSpace cs := by
  have blanks : ∀ c ∈ (newline level).toList, isSpace c = true := by
    intro c member
    rw [toList_newline] at member
    rcases List.mem_cons.mp member with rfl | later
    · rfl
    · rw [(List.mem_replicate.mp later).2]
      rfl
  exact List.dropWhile_append_of_pos blanks

theorem delimits_newline (level : Nat) (cs : List Char) :
    Delimits ((newline level).toList ++ cs) := by
  intro c first
  rw [toList_newline] at first
  cases first
  exact .inr rfl

theorem delimits_comma (cs : List Char) : Delimits (",".toList ++ cs) := by
  intro c first
  cases first
  exact .inl rfl

end Space

section Steps

variable {fuel : Nat} {cs rest back : List Char} {item : Json}

theorem readValue_string {s : String} (ascii : Bool) (enough : s.length < fuel) :
    readValue (fuel + 1) ((quote ascii s).toList ++ rest) = .ok (.string s, rest) := by
  have read := readString?_flatMap_escapeChar ascii s.toList rest
    (by rwa [String.length_toList] : s.toList.length < fuel)
  rw [toList_quote, List.cons_append, List.append_assoc, List.singleton_append, readValue]
  simp only [read, expect, Bind.bind, Except.bind, String.ofList_toList]
  rfl

theorem readValue_array {c : Char} {items : List Json} (opened : skipSpace cs = c :: back)
    (some : c ≠ ']') (read : readItems fuel (c :: back) = .ok (items, rest)) :
    readValue (fuel + 1) ('[' :: cs) = .ok (.array items, rest) := by
  rw [readValue, opened]
  split
  · rename_i same
    exact absurd (List.cons.inj same).1 some
  · simp only [read, Bind.bind, Except.bind]
    rfl

theorem readValue_object {c : Char} {fields : List (String × Json)}
    (opened : skipSpace cs = c :: back) (some : c ≠ '\x7d')
    (different : (fields.map Prod.fst).Nodup)
    (read : readFields fuel (c :: back) = .ok (fields, rest)) :
    readValue (fuel + 1) ('\x7b' :: cs) = .ok (.object fields, rest) := by
  rw [readValue, opened]
  split
  · rename_i same
    exact absurd (List.cons.inj same).1 some
  · simp only [read, Bind.bind, Except.bind, ofFields_of_nodup different]
    rfl

theorem readItems_further {items : List Json} {end' : List Char}
    (read : readValue fuel cs = .ok (item, rest)) (comma : skipSpace rest = ',' :: back)
    (others : readItems fuel (skipSpace back) = .ok (items, end')) :
    readItems (fuel + 1) cs = .ok (item :: items, end') := by
  rw [readItems, read]
  simp only [Except.bind, Bind.bind, comma, others]
  rfl

theorem readItems_last (read : readValue fuel cs = .ok (item, rest))
    (closed : skipSpace rest = ']' :: back) : readItems (fuel + 1) cs = .ok ([item], back) := by
  rw [readItems, read]
  simp only [Except.bind, Bind.bind, closed]
  rfl

theorem readFields_further {s : String} {fields : List (String × Json)} {behind end' : List Char}
    (ascii : Bool) (enough : s.length < fuel) (colon : skipSpace cs = ':' :: behind)
    (read : readValue fuel (skipSpace behind) = .ok (item, rest))
    (comma : skipSpace rest = ',' :: back)
    (others : readFields fuel (skipSpace back) = .ok (fields, end')) :
    readFields (fuel + 1) ((quote ascii s).toList ++ cs) = .ok ((s, item) :: fields, end') := by
  have key := readString?_flatMap_escapeChar ascii s.toList cs
    (by rwa [String.length_toList] : s.toList.length < fuel)
  rw [toList_quote, List.cons_append, List.append_assoc, List.singleton_append, readFields]
  simp only [key, expect, Bind.bind, Except.bind, colon, read, comma, others, String.ofList_toList]
  rfl

theorem readFields_last {s : String} {behind : List Char} (ascii : Bool) (enough : s.length < fuel)
    (colon : skipSpace cs = ':' :: behind)
    (read : readValue fuel (skipSpace behind) = .ok (item, rest))
    (closed : skipSpace rest = '\x7d' :: back) :
    readFields (fuel + 1) ((quote ascii s).toList ++ cs) = .ok ([(s, item)], back) := by
  have key := readString?_flatMap_escapeChar ascii s.toList cs
    (by rwa [String.length_toList] : s.toList.length < fuel)
  rw [toList_quote, List.cons_append, List.append_assoc, List.singleton_append, readFields]
  simp only [key, expect, Bind.bind, Except.bind, colon, read, closed, String.ofList_toList]
  rfl

end Steps

/-- Parts with a comma and a new line between them. -/
def lined (level : Nat) (parts : List String) : String := ("," ++ newline level).intercalate parts

theorem lined_cons {level : Nat} {part : String} {parts : List String} (some : parts ≠ []) :
    lined level (part :: parts) = part ++ ("," ++ newline level ++ lined level parts) := by
  rw [lined, String.intercalate_cons_of_ne_nil some, String.append_assoc]
  rfl

theorem block_eq {opener closer : String} {level : Nat} {parts : List String} (some : parts ≠ []) :
    block opener closer level parts =
      opener ++
        (newline (level + 1) ++ (lined (level + 1) parts ++ (newline level ++ closer))) := by
  have full : parts.isEmpty = false := by simp [some]
  rw [block, full, if_neg (by decide)]
  simp only [lined, String.append_assoc]

theorem block_nil (opener closer : String) (level : Nat) :
    block opener closer level [] = opener ++ closer := rfl

theorem length_lined_lt (opener closer : Char) (level : Nat) (parts : List String)
    (some : parts ≠ []) : (lined (level + 1) parts).length + 2 ≤
      (block (String.singleton opener) (String.singleton closer) level parts).length := by
  rw [block_eq some]
  simp only [String.length_append, String.length_singleton]
  omega

/-- The text starts with something that is neither a space nor a closing bracket. -/
def Solid (s : String) : Prop :=
  ∃ c cs, s.toList = c :: cs ∧ isSpace c = false ∧ c ≠ ']' ∧ c ≠ '\x7d'

theorem Solid.skipSpace {s : String} (solid : Solid s) (cs : List Char) :
    Json.skipSpace (s.toList ++ cs) = s.toList ++ cs := by
  obtain ⟨c, back, text, visible, -⟩ := solid
  rw [text]
  exact skipSpace_of_solid visible _

theorem Solid.length_pos {s : String} (solid : Solid s) : 0 < s.length := by
  obtain ⟨c, back, text, -⟩ := solid
  rw [← String.length_toList, text]
  exact Nat.succ_pos _

theorem Solid.append {s : String} (solid : Solid s) (t : String) : Solid (s ++ t) := by
  obtain ⟨c, back, text, visible, some⟩ := solid
  exact ⟨c, back ++ t.toList, by rw [String.toList_append, text]; rfl, visible, some⟩

theorem solid_quote (ascii : Bool) (s : String) : Solid (quote ascii s) :=
  ⟨'"', _, toList_quote ascii s, rfl, by decide⟩

theorem solid_block {opener : String} (solid : Solid opener) (closer : String) (level : Nat)
    (parts : List String) : Solid (block opener closer level parts) := by
  unfold block
  split
  · exact solid.append _
  · exact (((solid.append _).append _).append _).append _

theorem solid_int (n : Int) : Solid (toString n) := by
  cases n with
  | ofNat n =>
    obtain ⟨c, cs, digits, digit⟩ := exists_head_toDigits n
    refine ⟨c, cs, Nat.toList_repr.trans digits, ?_, ?_, ?_⟩
    · simp only [isSpace, Bool.or_eq_false_iff, beq_eq_false_iff_ne]
      refine ⟨⟨⟨?_, ?_⟩, ?_⟩, ?_⟩ <;> rintro rfl <;> exact absurd digit (by decide)
    · rintro rfl
      exact absurd digit (by decide)
    · rintro rfl
      exact absurd digit (by decide)
  | negSucc n => exact ⟨'-', _, String.toList_append, rfl, by decide⟩

theorem solid_prettyAt (ascii : Bool) (level : Nat) {j : Json} (readable : j.Readable) :
    Solid (prettyAt ascii level j) := by
  cases j with
  | null =>
    rw [prettyAt]
    exact ⟨'n', ['u', 'l', 'l'], rfl, rfl, by decide⟩
  | bool b =>
    rw [prettyAt]
    cases b with
    | false => exact ⟨'f', ['a', 'l', 's', 'e'], rfl, rfl, by decide⟩
    | true => exact ⟨'t', ['r', 'u', 'e'], rfl, rfl, by decide⟩
  | int n =>
    rw [prettyAt]
    exact solid_int n
  | float x => exact readable.elim
  | string s =>
    rw [prettyAt]
    exact solid_quote ascii s
  | array items =>
    rw [prettyAt]
    exact solid_block ⟨'[', [], rfl, rfl, by decide⟩ _ _ _
  | object fields =>
    rw [prettyAt]
    exact solid_block ⟨'\x7b', [], rfl, rfl, by decide⟩ _ _ _

theorem Solid.lined {part : String} (solid : Solid part) (level : Nat) (parts : List String) :
    Solid (Json.lined level (part :: parts)) := by
  cases parts with
  | nil => rwa [Json.lined, String.intercalate_singleton]
  | cons next parts =>
    rw [lined_cons (by simp)]
    exact solid.append _

section Blocks

variable {level fuel : Nat} {parts : List String} {rest : List Char}

theorem readValue_listBlock {items : List Json} (some : parts ≠ [])
    (solid : Solid (lined (level + 1) parts))
    (read : readItems fuel ((lined (level + 1) parts).toList ++
      ((newline level).toList ++ ']' :: rest)) = .ok (items, rest)) :
    readValue (fuel + 1) ((block "[" "]" level parts).toList ++ rest) =
      .ok (.array items, rest) := by
  obtain ⟨c, back, text, visible, other, -⟩ := solid
  rw [text] at read
  rw [block_eq some]
  simp only [String.toList_append, List.append_assoc, text]
  refine readValue_array (c := c) ?_ other read
  exact (skipSpace_newline _ _).trans (skipSpace_of_solid visible _)

theorem readValue_objectBlock {fields : List (String × Json)} (some : parts ≠ [])
    (solid : Solid (lined (level + 1) parts)) (different : (fields.map Prod.fst).Nodup)
    (read : readFields fuel ((lined (level + 1) parts).toList ++
      ((newline level).toList ++ '\x7d' :: rest)) = .ok (fields, rest)) :
    readValue (fuel + 1) ((block "\x7b" "\x7d" level parts).toList ++ rest) =
      .ok (.object fields, rest) := by
  obtain ⟨c, back, text, visible, -, other⟩ := solid
  rw [text] at read
  rw [block_eq some]
  simp only [String.toList_append, List.append_assoc, text]
  refine readValue_object (c := c) ?_ other different read
  exact (skipSpace_newline _ _).trans (skipSpace_of_solid visible _)

end Blocks

theorem readValue_scalar {c : Char} (fuel : Nat) (cs : List Char)
    (plain : c ≠ '"' ∧ c ≠ '[' ∧ c ≠ '\x7b') :
    readValue (fuel + 1) (c :: cs) = readScalar (c :: cs) := by
  rw [readValue]
  · exact fun _ same => plain.1 (List.cons.inj same).1
  · exact fun _ same => plain.2.1 (List.cons.inj same).1
  · exact fun _ same => plain.2.2 (List.cons.inj same).1

theorem readValue_int {n : Int} (short : n.natAbs < integerLimit) (fuel : Nat) {rest : List Char}
    (delimits : Delimits rest) :
    readValue (fuel + 1) ((toString n).toList ++ rest) = .ok (.int n, rest) := by
  rw [← readScalar_int short delimits]
  cases n with
  | ofNat n =>
    obtain ⟨c, cs, digits, digit⟩ := exists_head_toDigits n
    show readValue (fuel + 1) (n.repr.toList ++ rest) = readScalar (n.repr.toList ++ rest)
    rw [Nat.toList_repr, digits]
    refine readValue_scalar fuel _ ⟨?_, ?_, ?_⟩ <;> rintro rfl <;> exact absurd digit (by decide)
  | negSucc n =>
    show readValue (fuel + 1) (("-" ++ (n + 1).repr).toList ++ rest) =
      readScalar (("-" ++ (n + 1).repr).toList ++ rest)
    rw [String.toList_append]
    exact readValue_scalar fuel _ (by decide)

mutual

theorem readValue_prettyAt (ascii : Bool) (level : Nat) (j : Json) (readable : j.Readable)
    {fuel : Nat} {rest : List Char} (enough : 2 * (prettyAt ascii level j).length ≤ fuel)
    (delimits : Delimits rest) :
    readValue fuel ((prettyAt ascii level j).toList ++ rest) = .ok (j, rest) := by
  have some := (solid_prettyAt ascii level readable).length_pos
  obtain ⟨fuel, rfl⟩ : ∃ k, fuel = k + 1 := ⟨fuel - 1, by omega⟩
  cases j with
  | null =>
    rw [prettyAt]
    rfl
  | bool b =>
    rw [prettyAt]
    cases b <;> rfl
  | int n =>
    rw [prettyAt]
    exact readValue_int readable fuel delimits
  | float x => exact readable.elim
  | string s =>
    rw [prettyAt] at enough ⊢
    refine readValue_string ascii ?_
    have body := length_le_length_flatMap_escapeChar ascii s.toList
    have whole := congrArg List.length (toList_quote ascii s)
    simp only [String.length_toList, List.length_cons, List.length_append] at body whole
    omega
  | array items =>
    rw [prettyAt] at enough ⊢
    cases items with
    | nil =>
      rw [prettyItems, block_nil, String.toList_append]
      show readValue (fuel + 1) ('[' :: ']' :: rest) = _
      rw [readValue]
      rfl
    | cons item items =>
      have inner := length_lined_lt '[' ']' level (prettyItems ascii (level + 1)
        (item :: items)) (by simp [prettyItems])
      have inner : _ ≤ (block "[" "]" level _).length := inner
      have read := readItems_lined ascii (level + 1) (item :: items) readable (by simp)
        fuel level rest (by omega)
      rw [prettyItems] at read ⊢
      exact readValue_listBlock (by simp) ((solid_prettyAt ascii _ readable.1).lined _ _) read
  | object fields =>
    rw [prettyAt] at enough ⊢
    cases fields with
    | nil =>
      rw [prettyFields, block_nil, String.toList_append]
      show readValue (fuel + 1) ('\x7b' :: '\x7d' :: rest) = _
      rw [readValue]
      rfl
    | cons field fields =>
      obtain ⟨key, value⟩ := field
      have inner := length_lined_lt '\x7b' '\x7d' level (prettyFields ascii (level + 1)
        ((key, value) :: fields)) (by simp [prettyFields])
      have inner : _ ≤ (block "\x7b" "\x7d" level _).length := inner
      have read := readFields_lined ascii (level + 1) ((key, value) :: fields) readable.2 (by simp)
        fuel level rest (by omega)
      rw [prettyFields] at read ⊢
      exact readValue_objectBlock (by simp)
        ((((solid_quote ascii key).append _).append _).lined _ _) readable.1 read

theorem readItems_lined (ascii : Bool) (level : Nat) (items : List Json)
    (readable : ItemsReadable items) (some : items ≠ []) (fuel outer : Nat) (rest : List Char)
    (enough : 2 * (lined level (prettyItems ascii level items)).length + 1 ≤ fuel) :
    readItems fuel ((lined level (prettyItems ascii level items)).toList ++
      ((newline outer).toList ++ ']' :: rest)) = .ok (items, rest) := by
  cases items with
  | nil => exact absurd rfl some
  | cons item items =>
    obtain ⟨fuel, rfl⟩ : ∃ k, fuel = k + 1 := ⟨fuel - 1, by omega⟩
    cases items with
    | nil =>
      rw [prettyItems, prettyItems, lined, String.intercalate_singleton] at enough ⊢
      refine readItems_last (readValue_prettyAt ascii level item readable.1 (by omega)
        (delimits_newline outer _)) ?_
      rw [skipSpace_newline]
      exact skipSpace_of_solid rfl _
    | cons next items =>
      rw [prettyItems, lined_cons (by simp [prettyItems])] at enough ⊢
      simp only [String.length_append] at enough
      have comma : ",".length = 1 := rfl
      have solid := ((solid_prettyAt ascii level readable.2.1).lined level
        (prettyItems ascii level items)).skipSpace ((newline outer).toList ++ ']' :: rest)
      have others := readItems_lined ascii level (next :: items) readable.2 (by simp)
        fuel outer rest (by omega)
      rw [prettyItems] at others ⊢
      simp only [String.toList_append, List.append_assoc]
      refine readItems_further (readValue_prettyAt ascii level item readable.1 (by omega)
        (delimits_comma _)) (skipSpace_of_solid (c := ',') rfl _) ?_
      exact (congrArg (readItems fuel) ((skipSpace_newline level _).trans solid)).trans others

theorem readFields_lined (ascii : Bool) (level : Nat) (fields : List (String × Json))
    (readable : FieldsReadable fields) (some : fields ≠ []) (fuel outer : Nat) (rest : List Char)
    (enough : 2 * (lined level (prettyFields ascii level fields)).length + 1 ≤ fuel) :
    readFields fuel ((lined level (prettyFields ascii level fields)).toList ++
      ((newline outer).toList ++ '\x7d' :: rest)) = .ok (fields, rest) := by
  cases fields with
  | nil => exact absurd rfl some
  | cons field fields =>
    obtain ⟨key, value⟩ := field
    obtain ⟨fuel, rfl⟩ : ∃ k, fuel = k + 1 := ⟨fuel - 1, by omega⟩
    have long := length_lt_length_quote ascii key
    have read {back : List Char} (plenty : 2 * (prettyAt ascii level value).length ≤ fuel)
        (delimits : Delimits back) :
        readValue fuel (skipSpace ((prettyAt ascii level value).toList ++ back)) =
          .ok (value, back) := by
      rw [(solid_prettyAt ascii level readable.1).skipSpace]
      exact readValue_prettyAt ascii level value readable.1 plenty delimits
    cases fields with
    | nil =>
      rw [prettyFields, prettyFields, lined, String.intercalate_singleton] at enough ⊢
      simp only [String.length_append] at enough
      simp only [String.toList_append, List.append_assoc]
      refine readFields_last ascii (by omega) (skipSpace_of_solid (c := ':') rfl _)
        (read (by omega) (delimits_newline outer _)) ?_
      rw [skipSpace_newline]
      exact skipSpace_of_solid rfl _
    | cons next fields =>
      obtain ⟨further, item⟩ := next
      rw [prettyFields, lined_cons (by simp [prettyFields])] at enough ⊢
      simp only [String.length_append] at enough
      have comma : ",".length = 1 := rfl
      have start := (((solid_quote ascii further).append ": ").append
        (prettyAt ascii level item)).lined level (prettyFields ascii level fields)
      have others := readFields_lined ascii level ((further, item) :: fields) readable.2 (by simp)
        fuel outer rest (by omega)
      rw [prettyFields] at others ⊢
      simp only [String.toList_append, List.append_assoc]
      refine readFields_further ascii (by omega) (skipSpace_of_solid (c := ':') rfl _)
        (read (by omega) (delimits_comma _)) (skipSpace_of_solid (c := ',') rfl _) ?_
      exact (congrArg (readFields fuel)
        ((skipSpace_newline level _).trans (start.skipSpace _))).trans others

end

section Returns

theorem digitChar_ne_return (n : Nat) : Nat.digitChar (n % 16) ≠ '\r' := by
  have all : ∀ d : Fin 16, Nat.digitChar d ≠ '\r' := by decide
  exact all ⟨n % 16, Nat.mod_lt n (by decide)⟩

theorem return_notMem_unitEscape (n : Nat) : '\r' ∉ unitEscape n := by
  have digits (width n : Nat) : '\r' ∉ Text.hexDigits width n := by
    induction width generalizing n with
    | zero => exact List.not_mem_nil
    | succ width ih => simp [Text.hexDigits, ih, (digitChar_ne_return n).symm]
  simp [unitEscape, digits]

theorem return_notMem_escapeChar (ascii : Bool) (c : Char) : '\r' ∉ escapeChar ascii c := by
  unfold escapeChar escapeUnits
  simp only
  split_ifs with special newline returned tab feed back control wide small
  · rcases special with rfl | rfl <;> decide
  · decide
  · decide
  · decide
  · decide
  · decide
  · exact return_notMem_unitEscape _
  · exact return_notMem_unitEscape _
  · simp [return_notMem_unitEscape]
  · simpa using Ne.symm returned

theorem return_notMem_quote (ascii : Bool) (s : String) : '\r' ∉ (quote ascii s).toList := by
  rw [toList_quote]
  simp [return_notMem_escapeChar]

theorem return_notMem_int (n : Int) : '\r' ∉ (toString n).toList := by
  have digits (n : Nat) : '\r' ∉ n.repr.toList := by
    rw [Nat.toList_repr]
    intro member
    exact absurd (isDigit_of_mem_toDigits member) (by decide)
  cases n with
  | ofNat n => exact digits n
  | negSucc n =>
    show '\r' ∉ ("-" ++ (n + 1).repr).toList
    rw [String.toList_append, List.mem_append, not_or]
    exact ⟨by decide, digits (n + 1)⟩

theorem return_notMem_newline (level : Nat) : '\r' ∉ (newline level).toList := by
  rw [toList_newline]
  simp

theorem return_notMem_block {opener closer : String} (level : Nat) {parts : List String}
    (opening : '\r' ∉ opener.toList) (closing : '\r' ∉ closer.toList)
    (inside : ∀ part ∈ parts, '\r' ∉ part.toList) :
    '\r' ∉ (block opener closer level parts).toList := by
  have linedUp (level : Nat) : '\r' ∉ (lined level parts).toList := by
    induction parts with
    | nil => exact List.not_mem_nil
    | cons part parts ih =>
      have first := inside part List.mem_cons_self
      have others := ih fun part member => inside part (List.mem_cons_of_mem _ member)
      cases parts with
      | nil => rwa [lined, String.intercalate_singleton]
      | cons next parts =>
        rw [lined_cons (by simp)]
        simp [first, others, return_notMem_newline]
  cases parts with
  | nil => simp [block_nil, opening, closing]
  | cons part parts =>
    rw [block_eq (by simp)]
    simp [opening, closing, linedUp, return_notMem_newline]

mutual

theorem return_notMem_prettyAt (ascii : Bool) (level : Nat) (j : Json) (readable : j.Readable) :
    '\r' ∉ (prettyAt ascii level j).toList := by
  cases j with
  | null =>
    rw [prettyAt]
    decide
  | bool b =>
    rw [prettyAt]
    cases b <;> decide
  | int n =>
    rw [prettyAt]
    exact return_notMem_int n
  | float x => exact readable.elim
  | string s =>
    rw [prettyAt]
    exact return_notMem_quote ascii s
  | array items =>
    rw [prettyAt]
    exact return_notMem_block level (by decide) (by decide)
      (return_notMem_prettyItems ascii (level + 1) items readable)
  | object fields =>
    rw [prettyAt]
    exact return_notMem_block level (by decide) (by decide)
      (return_notMem_prettyFields ascii (level + 1) fields readable.2)

theorem return_notMem_prettyItems (ascii : Bool) (level : Nat) (items : List Json)
    (readable : ItemsReadable items) :
    ∀ part ∈ prettyItems ascii level items, '\r' ∉ part.toList := by
  cases items with
  | nil => simp [prettyItems]
  | cons item items =>
    rw [prettyItems]
    exact List.forall_mem_cons.mpr ⟨return_notMem_prettyAt ascii level item readable.1,
      return_notMem_prettyItems ascii level items readable.2⟩

theorem return_notMem_prettyFields (ascii : Bool) (level : Nat) (fields : List (String × Json))
    (readable : FieldsReadable fields) :
    ∀ part ∈ prettyFields ascii level fields, '\r' ∉ part.toList := by
  cases fields with
  | nil => simp [prettyFields]
  | cons field fields =>
    obtain ⟨key, value⟩ := field
    rw [prettyFields]
    refine List.forall_mem_cons.mpr ⟨?_, return_notMem_prettyFields ascii level fields readable.2⟩
    have own := return_notMem_prettyAt ascii level value readable.1
    simp [return_notMem_quote, own]

end

end Returns

end SceneScript.Json
