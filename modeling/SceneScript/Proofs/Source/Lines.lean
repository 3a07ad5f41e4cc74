import Mathlib.Data.List.Induction
import SceneScript.Source.Lines

/-!
Looking a position up by its index gives the position that walking through the text gives.
-/

namespace SceneScript

theorem Position.line_walk (p : Position) (cs : List Char) :
    (p.walk cs).line = p.line + cs.count '\n' := by
  induction cs generalizing p with
  | nil => rfl
  | cons c cs ih =>
    rw [walk_cons, ih, advance]
    by_cases newline : c = '\n'
    · rw [if_pos newline, newline, List.count_cons_self]
      simp only
      omega
    · rw [if_neg newline, List.count_cons_of_ne newline]
      rfl

section Bisection

variable {n : Nat} {small large : List Nat}

theorem getElem_le_iff (below : ∀ x ∈ small, x ≤ n) (above : ∀ x ∈ large, n < x) {i : Nat}
    (within : i < small.length + large.length) :
    (small ++ large).toArray[i]?.getD 0 ≤ n ↔ i < small.length := by
  rw [List.getElem?_toArray]
  by_cases inSmall : i < small.length
  · rw [List.getElem?_append_left inSmall, List.getElem?_eq_getElem inSmall]
    exact iff_of_true (below _ (List.getElem_mem inSmall)) inSmall
  · have inLarge : i - small.length < large.length := by omega
    rw [List.getElem?_append_right (by omega), List.getElem?_eq_getElem inLarge]
    have greater := above _ (List.getElem_mem inLarge)
    exact iff_of_false (Nat.not_le.mpr greater) inSmall

/-- Halving finds where the small entries end. -/
theorem countBetween_append (below : ∀ x ∈ small, x ≤ n) (above : ∀ x ∈ large, n < x)
    {low high : Nat} (least : low ≤ small.length) (most : small.length ≤ high)
    (within : high ≤ small.length + large.length) :
    countBetween (small ++ large).toArray n low high = small.length := by
  fun_induction countBetween (small ++ large).toArray n low high with
  | case1 low high wide middle isAbove ih =>
    have place := getElem_le_iff below above (i := middle) (by omega)
    exact ih least (by omega) (by omega)
  | case2 low high wide middle notAbove ih =>
    have place := getElem_le_iff below above (i := middle) (by omega)
    exact ih (by omega) most within
  | case3 low high narrow => omega

end Bisection

theorem lineStartsAfter_newline (index : Nat) (cs : List Char) :
    lineStartsAfter index ('\n' :: cs) = (index + 1) :: lineStartsAfter (index + 1) cs :=
  if_pos rfl

theorem lineStartsAfter_cons {c : Char} (inLine : c ≠ '\n') (index : Nat) (cs : List Char) :
    lineStartsAfter index (c :: cs) = lineStartsAfter (index + 1) cs := if_neg inLine

theorem lineStartsAfter_append (index : Nat) (front back : List Char) :
    lineStartsAfter index (front ++ back) =
      lineStartsAfter index front ++ lineStartsAfter (index + front.length) back := by
  induction front generalizing index with
  | nil => rfl
  | cons c cs ih =>
    have shifted : index + 1 + cs.length = index + (c :: cs).length := by
      rw [List.length_cons]
      omega
    simp only [List.cons_append, lineStartsAfter, ih, shifted]
    split <;> rfl

theorem bounds_of_mem_lineStartsAfter {index x : Nat} {cs : List Char}
    (member : x ∈ lineStartsAfter index cs) : index < x ∧ x ≤ index + cs.length := by
  induction cs generalizing index with
  | nil => cases member
  | cons c cs ih =>
    rw [List.length_cons]
    by_cases newline : c = '\n'
    · rw [newline, lineStartsAfter_newline] at member
      rcases List.mem_cons.mp member with rfl | later
      · omega
      · have bounds := ih later
        omega
    · rw [lineStartsAfter_cons newline] at member
      have bounds := ih member
      omega

namespace Position

theorem advance_newline (p : Position) : p.advance '\n' = ⟨p.origin, p.index + 1, p.line + 1, 0⟩ :=
  if_pos rfl

theorem advance_eq_past {c : Char} (inLine : c ≠ '\n') (p : Position) : p.advance c = p.past :=
  if_neg inLine

/-- Lines are counted by their starts, and columns from the last of these. -/
theorem walk_eq (p : Position) (cs : List Char) (within : p.column ≤ p.index) :
    p.walk cs = ⟨p.origin, p.index + cs.length, p.line + (lineStartsAfter p.index cs).length,
      p.index + cs.length - (lineStartsAfter p.index cs).getLastD (p.index - p.column)⟩ := by
  induction cs generalizing p with
  | nil =>
    have same : p.index - (p.index - p.column) = p.column := by omega
    simp [lineStartsAfter, same]
  | cons c cs ih =>
    have shifted : p.index + 1 + cs.length = p.index + (c :: cs).length := by
      rw [List.length_cons]
      omega
    rw [walk_cons]
    by_cases newline : c = '\n'
    · have counted (k : Nat) : p.line + 1 + k = p.line + (k + 1) := by omega
      rw [newline, advance_newline, ih _ (Nat.zero_le _), lineStartsAfter_newline,
        List.getLastD_cons, List.length_cons, counted, shifted]
      rfl
    · have behind : p.past.index - p.past.column = p.index - p.column := by
        simp only [past]
        omega
      rw [advance_eq_past newline, ih _ (Nat.succ_le_succ within), lineStartsAfter_cons newline,
        behind]
      simp only [past, shifted]

/-- Where an index of the text is: behind so many line breaks, and so many characters behind the
    last one. -/
def ofIndex (origin : Origin) (index : Nat) : Position :=
  let front := origin.text.toList.take index
  ⟨origin, index, front.count '\n', (front.reverse.takeWhile (· ≠ '\n')).length⟩

theorem walk_start (origin : Origin) (cs : List Char) : (start origin).walk cs =
    ⟨origin, cs.length, cs.count '\n', (cs.reverse.takeWhile (· ≠ '\n')).length⟩ := by
  induction cs using List.reverseRecOn with
  | nil => rfl
  | append_singleton cs c ih =>
    rw [walk_append, ih, walk_cons, walk_nil]
    by_cases newline : c = '\n'
    · rw [newline, advance_newline]
      simp
    · rw [advance_eq_past newline]
      simp [past, newline]

theorem walk_take (origin : Origin) {i : Nat} (within : i ≤ origin.text.length) :
    (start origin).walk (origin.text.toList.take i) = ofIndex origin i := by
  rw [walk_start, ofIndex, List.length_take, String.length_toList, Nat.min_eq_left within]

end Position

namespace LineIndex

variable {origin : Origin} {front back : List Char}

/-- Only the line starts up to an index matter for what is found there. -/
theorem position_of_split (text : origin.text.toList = front ++ back) {index : Nat}
    (behind : front.length ≤ index) (above : ∀ x ∈ lineStartsAfter front.length back, index < x) :
    (ofOrigin origin).position index = ⟨origin, index, (lineStartsAfter 0 front).length,
      index - (lineStartsAfter 0 front).getLastD 0⟩ := by
  have below : ∀ x ∈ 0 :: lineStartsAfter 0 front, x ≤ index := by
    intro x member
    rcases List.mem_cons.mp member with rfl | later
    · exact Nat.zero_le _
    · have bounds := bounds_of_mem_lineStartsAfter later
      omega
  have starts : (ofOrigin origin).starts =
      ((0 :: lineStartsAfter 0 front) ++ lineStartsAfter front.length back).toArray := by
    rw [ofOrigin, text, lineStartsAfter_append, Nat.zero_add]
    rfl
  have count : countUpTo (ofOrigin origin).starts index =
      (lineStartsAfter 0 front).length + 1 := by
    have size : ((0 :: lineStartsAfter 0 front) ++
        lineStartsAfter front.length back).toArray.size =
        (0 :: lineStartsAfter 0 front).length + (lineStartsAfter front.length back).length := by
      rw [List.size_toArray, List.length_append]
    rw [starts]
    exact countBetween_append below above (Nat.zero_le _) (by omega) (by omega)
  have last : (ofOrigin origin).starts[(lineStartsAfter 0 front).length]?.getD 0 =
      (lineStartsAfter 0 front).getLastD 0 := by
    have found : (0 :: lineStartsAfter 0 front)[(lineStartsAfter 0 front).length]? =
        some ((lineStartsAfter 0 front).getLastD 0) := by
      rw [List.getLastD_eq_getLast?, ← List.getLast?_cons, List.getLast?_eq_getElem?]
      rfl
    rw [starts, List.getElem?_toArray, List.getElem?_append_left (Nat.lt_succ_self _), found]
    rfl
  simp only [position, count, Nat.add_sub_cancel, last]
  rfl

/-- The position looked up at the end of a front of the text is that behind its characters. -/
theorem position_eq_walk (text : origin.text.toList = front ++ back) :
    (ofOrigin origin).position front.length = (Position.start origin).walk front := by
  have above : ∀ x ∈ lineStartsAfter front.length back, front.length < x :=
    fun x member => (bounds_of_mem_lineStartsAfter member).1
  rw [position_of_split text (Nat.le_refl _) above, Position.walk_eq _ _ (Nat.le_refl 0)]
  simp only [Position.start, Nat.zero_add, Nat.sub_zero]

/-- One past the end the last line goes on. -/
theorem position_past_end (origin : Origin) :
    (ofOrigin origin).position (origin.text.length + 1) =
      ((Position.start origin).walk origin.text.toList).past := by
  have whole : origin.text.toList = origin.text.toList ++ [] := (List.append_nil _).symm
  have lastStart : (lineStartsAfter 0 origin.text.toList).getLastD 0 ≤ origin.text.length := by
    rw [List.getLastD_eq_getLast?]
    cases last : (lineStartsAfter 0 origin.text.toList).getLast? with
    | none => exact Nat.zero_le _
    | some x =>
      have bounds := bounds_of_mem_lineStartsAfter (List.mem_of_getLast? last)
      rw [String.length_toList, Nat.zero_add] at bounds
      exact bounds.2
  have further : origin.text.length + 1 - (lineStartsAfter 0 origin.text.toList).getLastD 0 =
      origin.text.length - (lineStartsAfter 0 origin.text.toList).getLastD 0 + 1 :=
    Nat.succ_sub lastStart
  rw [position_of_split whole (by rw [String.length_toList]; omega) (fun _ none => nomatch none),
    Position.walk_eq _ _ (Nat.le_refl 0), further]
  simp only [Position.start, Position.past, Nat.zero_add, Nat.sub_zero, String.length_toList]

/-- For every index of a text, the end included, the position looked up is the one reached by
    walking there: its line counts the newlines in front of it and its column the characters behind
    the last of them. One step further, over no character, leads to the position one past the end. -/
theorem positions_found_are_positions_reached (origin : Origin) :
    (∀ i ≤ origin.text.length,
      (ofOrigin origin).position i = (Position.start origin).walk (origin.text.toList.take i) ∧
        (ofOrigin origin).position i = Position.ofIndex origin i) ∧
    (ofOrigin origin).position (origin.text.length + 1) =
      ((Position.start origin).walk origin.text.toList).past := by
  refine ⟨fun i within => ?_, position_past_end origin⟩
  have length : (origin.text.toList.take i).length = i := by
    rw [List.length_take, String.length_toList, Nat.min_eq_left within]
  have split : origin.text.toList = origin.text.toList.take i ++ origin.text.toList.drop i :=
    (List.take_append_drop i _).symm
  have found := position_eq_walk split
  rw [length] at found
  exact ⟨found, found.trans (Position.walk_take origin within)⟩

/-- The text ends in an empty line, in which both positions beyond its characters lie. -/
theorem end_of_two_lines_is_found :
    (ofOrigin ⟨"two", "ab\n\n"⟩).position 4 = ⟨⟨"two", "ab\n\n"⟩, 4, 2, 0⟩ ∧
      (ofOrigin ⟨"two", "ab\n\n"⟩).position 5 = ⟨⟨"two", "ab\n\n"⟩, 5, 2, 1⟩ := by
  obtain ⟨inside, beyond⟩ := positions_found_are_positions_reached ⟨"two", "ab\n\n"⟩
  exact ⟨(inside 4 (by decide)).2.trans (by decide), beyond.trans (by decide)⟩

end LineIndex

end SceneScript
