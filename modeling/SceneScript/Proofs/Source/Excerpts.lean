import Mathlib.Algebra.GroupWithZero.Nat
import Mathlib.Data.List.Basic
import Mathlib.Data.List.TakeWhile
import SceneScript.Proofs.Source.Lines
import SceneScript.Source.Excerpt

/-!
What an excerpt underlines. Excerpts are made from lines and columns; here their carets are
described by indices alone: under each line they mark the characters that lie in the span.
-/

namespace SceneScript

section Lines

variable {line : List Char}

theorem splitLines_eq_splitOn (cs : List Char) : splitLines cs = cs.splitOn '\n' := by
  induction cs with
  | nil => rfl
  | cons c cs ih =>
    rw [splitLines, ih, List.splitOn, List.splitOn, List.splitOnP_cons_eq_if_modifyHead]
    by_cases newline : c = '\n'
    · simp [newline]
    · cases lines : cs.splitOnP (· == '\n') with
      | nil => exact absurd lines (List.splitOnP_ne_nil _ _)
      | cons line lines => simp [newline]

/-- A text is a last line, or a line and its newline in front of a text. -/
theorem induct_lines {P : List Char → Prop} (last : ∀ line, '\n' ∉ line → P line)
    (more : ∀ line rest, '\n' ∉ line → P rest → P (line ++ '\n' :: rest)) (cs : List Char) :
    P cs := by
  have behind (front : List Char) (clear : '\n' ∉ front) : P (front ++ cs) := by
    induction cs generalizing front with
    | nil =>
      rw [List.append_nil]
      exact last front clear
    | cons c cs ih =>
      by_cases newline : c = '\n'
      · rw [newline]
        exact more front cs clear (ih [] List.not_mem_nil)
      · rw [List.append_cons]
        exact ih _ (by simp [clear, Ne.symm newline])
  exact behind [] List.not_mem_nil

theorem splitLines_last (clear : '\n' ∉ line) : splitLines line = [line] := by
  induction line with
  | nil => rfl
  | cons c cs ih =>
    rw [List.mem_cons, not_or] at clear
    rw [splitLines, if_neg (Ne.symm clear.1), ih clear.2]

theorem splitLines_more (clear : '\n' ∉ line) (rest : List Char) :
    splitLines (line ++ '\n' :: rest) = line :: splitLines rest := by
  induction line with
  | nil => rfl
  | cons c cs ih =>
    rw [List.mem_cons, not_or] at clear
    rw [List.cons_append, splitLines, if_neg (Ne.symm clear.1), ih clear.2]

end Lines

namespace Excerpt

/-- The index at which a line starts, behind the lines before it and their newlines. -/
def lineStart (lines : List (List Char)) (number : Nat) : Nat :=
  ((lines.take number).map (·.length + 1)).sum

section LineStarts

variable {cs line : List Char} {lines : List (List Char)}

theorem lineStart_zero (lines : List (List Char)) : lineStart lines 0 = 0 := rfl

theorem lineStart_succ (line : List Char) (lines : List (List Char)) (number : Nat) :
    lineStart (line :: lines) (number + 1) = line.length + 1 + lineStart lines number := by
  simp [lineStart]

theorem lineStart_lt {k l : Nat} (there : lines[k]? = some line) (later : k < l) :
    lineStart lines k + line.length < lineStart lines l := by
  induction lines generalizing k l with
  | nil => cases there
  | cons first lines ih =>
    obtain ⟨l, rfl⟩ : ∃ n, l = n + 1 := ⟨l - 1, by omega⟩
    rw [lineStart_succ]
    cases k with
    | zero =>
      cases there
      rw [lineStart_zero]
      omega
    | succ k =>
      rw [List.getElem?_cons_succ] at there
      have behind := ih there (l := l) (by omega)
      rw [lineStart_succ]
      omega

/-- The characters of a line stand in the text from the index on at which the line starts. -/
theorem getElem?_lineStart {row : List Char} {number column : Nat}
    (there : (splitLines cs)[number]? = some row) (within : column < row.length) :
    cs[lineStart (splitLines cs) number + column]? = row[column]? := by
  induction cs using induct_lines generalizing number with
  | last cs clear =>
    rw [splitLines_last clear] at there
    cases number with
    | zero =>
      cases there
      rw [lineStart_zero, Nat.zero_add]
    | succ number => cases there
  | more first rest clear ih =>
    rw [splitLines_more clear] at there ⊢
    cases number with
    | zero =>
      cases there
      rw [lineStart_zero, Nat.zero_add, List.getElem?_append_left within]
    | succ number =>
      rw [List.getElem?_cons_succ] at there
      rw [lineStart_succ, ← ih there, List.getElem?_append_right (by omega)]
      have behind : first.length + 1 + lineStart (splitLines rest) number + column - first.length =
          lineStart (splitLines rest) number + column + 1 := by omega
      rw [behind, List.getElem?_cons_succ]

/-- The line in which an index lies and its column there. -/
theorem exists_line {i : Nat} (within : i ≤ cs.length) :
    ∃ line, (splitLines cs)[(cs.take i).count '\n']? = some line ∧
      lineStart (splitLines cs) ((cs.take i).count '\n') +
        ((cs.take i).reverse.takeWhile (· ≠ '\n')).length = i ∧
      ((cs.take i).reverse.takeWhile (· ≠ '\n')).length ≤ line.length := by
  have inside {line : List Char} {i : Nat} (clear : '\n' ∉ line) (within : i ≤ line.length) :
      (line.take i).count '\n' = 0 ∧
        ((line.take i).reverse.takeWhile (· ≠ '\n')).length = i := by
    have front : '\n' ∉ line.take i := fun member => clear (List.mem_of_mem_take member)
    have all : (line.take i).reverse.takeWhile (· ≠ '\n') = (line.take i).reverse := by
      refine List.takeWhile_eq_self_iff.mpr fun c member => decide_eq_true ?_
      rintro rfl
      exact front (List.mem_reverse.mp member)
    rw [all, List.length_reverse, List.length_take, Nat.min_eq_left within]
    exact ⟨List.count_eq_zero.mpr front, rfl⟩
  induction cs using induct_lines generalizing i with
  | last line clear =>
    obtain ⟨count, column⟩ := inside clear within
    rw [splitLines_last clear, count, column, lineStart_zero]
    exact ⟨line, rfl, Nat.zero_add i, within⟩
  | more line rest clear ih =>
    rw [splitLines_more clear]
    by_cases before : i ≤ line.length
    · obtain ⟨count, column⟩ := inside clear before
      rw [List.take_append_of_le_length before, count, column, lineStart_zero]
      exact ⟨line, rfl, Nat.zero_add i, before⟩
    · obtain ⟨k, rfl⟩ : ∃ k, i = line.length + (k + 1) := ⟨i - line.length - 1, by omega⟩
      have front : (line ++ '\n' :: rest).take (line.length + (k + 1)) =
          line ++ '\n' :: rest.take k := by
        rw [List.take_append, List.take_of_length_le (by omega), Nat.add_sub_cancel_left,
          List.take_succ_cons]
      have count : (line ++ '\n' :: rest.take k).count '\n' = (rest.take k).count '\n' + 1 := by
        rw [List.count_append, List.count_eq_zero.mpr clear, List.count_cons_self, Nat.zero_add]
      have column : (line ++ '\n' :: rest.take k).reverse.takeWhile (· ≠ '\n') =
          (rest.take k).reverse.takeWhile (· ≠ '\n') := by
        have stops : (['\n'] ++ line.reverse).takeWhile (· ≠ '\n') = [] := rfl
        rw [List.reverse_append, List.reverse_cons, List.append_assoc, List.takeWhile_append, stops]
        split
        · rename_i all
          rw [List.append_nil, (List.takeWhile_prefix _).eq_of_length all]
        · rfl
      rw [List.length_append, List.length_cons] at within
      obtain ⟨found, there, sum, bound⟩ := ih (i := k) (by omega)
      rw [front, count, column, lineStart_succ, List.getElem?_cons_succ]
      exact ⟨found, there, by omega, bound⟩

end LineStarts

/-- The columns of a line whose characters lie in the stretch from the index `i` up to the index
    `j`, when the line starts at the index `start`. -/
def covered (start length i j : Nat) : List Nat :=
  (List.range length).filter fun column => i ≤ start + column ∧ start + column < j

/-- A line with carets in the given columns, which ends behind the last of them. -/
def carets (columns : List Nat) : List Char :=
  (List.range (columns.foldr (fun column width => max (column + 1) width) 0)).map fun column =>
    if column ∈ columns then '^' else ' '

/-- A line of the text and what underlines it: carets under the characters that lie in the stretch
    from `i` up to `j`; and if the line has none of them, one caret, under the character at `i` or
    at the front of a later line. -/
def underlined (cs : List Char) (i j number : Nat) : List (List Char) :=
  let text := (cs.splitOn '\n')[number]?.getD []
  let start := lineStart (cs.splitOn '\n') number
  let columns := covered start text.length i j
  [text, carets (
    if columns = [] then [if number = (cs.take i).count '\n' then i - start else 0]
    else columns)]

/-- The lines of the text from that of the index `i` to that of the index `j`, each underlined. -/
def linesUnderlined (cs : List Char) (i j : Nat) : List (List Char) :=
  let first := (cs.take i).count '\n'
  let last := (cs.take j).count '\n'
  (List.range' first (last + 1 - first)).flatMap (underlined cs i j)

section Underlines

theorem mem_covered {start length i j column : Nat} :
    column ∈ covered start length i j ↔ i - start ≤ column ∧ column < min length (j - start) := by
  simp only [covered, List.mem_filter, List.mem_range, decide_eq_true_eq]
  omega

theorem width_le {columns : List Nat} {width : Nat} (all : ∀ column ∈ columns, column < width) :
    columns.foldr (fun column width => max (column + 1) width) 0 ≤ width := by
  induction columns with
  | nil => exact Nat.zero_le _
  | cons column columns ih =>
    obtain ⟨here, others⟩ := List.forall_mem_cons.mp all
    exact Nat.max_le.mpr ⟨here, ih others⟩

theorem lt_width {columns : List Nat} {column : Nat} (member : column ∈ columns) :
    column < columns.foldr (fun column width => max (column + 1) width) 0 := by
  induction columns with
  | nil => cases member
  | cons first columns ih =>
    rw [List.foldr_cons]
    rcases List.mem_cons.mp member with rfl | later
    · omega
    · have behind := ih later
      omega

/-- Carets in neighbouring columns are an underline. -/
theorem carets_eq_underline {columns : List Nat} {first last : Nat} (some : first < last)
    (all : ∀ column, column ∈ columns ↔ first ≤ column ∧ column < last) :
    carets columns = underline first last := by
  have width : columns.foldr (fun column width => max (column + 1) width) 0 = last := by
    have most := width_le fun column member => ((all column).mp member).2
    have least := lt_width ((all (last - 1)).mpr ⟨by omega, by omega⟩)
    omega
  have count : max (last - first) 1 = last - first := by omega
  rw [carets, width, underline, count]
  refine List.ext_getElem (by simp; omega) fun column here there => ?_
  rw [List.getElem_map, List.getElem_range]
  rw [List.length_map, List.length_range] at here
  by_cases before : column < first
  · have none : column ∉ columns := fun member => absurd ((all column).mp member).1 (by omega)
    rw [if_neg none, List.getElem_append_left (by rwa [List.length_replicate]),
      List.getElem_replicate]
  · rw [if_pos ((all column).mpr ⟨by omega, here⟩),
      List.getElem_append_right (by rw [List.length_replicate]; omega), List.getElem_replicate]

/-- An underline of nothing is one caret. -/
theorem underline_of_le {first last : Nat} (none : last ≤ first) :
    underline first last = underline first (first + 1) := by
  have count : max (last - first) 1 = max (first + 1 - first) 1 := by omega
  rw [underline, underline, count]

end Underlines

section Spans

variable {origin : Origin} {i j : Nat}

theorem line_ofIndex_le (ordered : i ≤ j) :
    (Position.ofIndex origin i).line ≤ (Position.ofIndex origin j).line := by
  have front : origin.text.toList.take i <+: origin.text.toList.take j :=
    List.take_prefix_take_left ordered
  exact front.sublist.count_le '\n'

theorem exists_line_ofIndex (within : i ≤ origin.text.length) :
    ∃ line, (splitLines origin.text.toList)[(Position.ofIndex origin i).line]? = some line ∧
      lineStart (splitLines origin.text.toList) (Position.ofIndex origin i).line +
        (Position.ofIndex origin i).column = i ∧
      (Position.ofIndex origin i).column ≤ line.length :=
  exists_line (by rwa [String.length_toList])

/-- The column from which on a line is underlined. -/
theorem startColumn_eq {number : Nat} (within : i ≤ origin.text.length)
    (least : (Position.ofIndex origin i).line ≤ number) :
    (if number = (Position.ofIndex origin i).line then (Position.ofIndex origin i).column else 0) =
      i - lineStart (splitLines origin.text.toList) number := by
  obtain ⟨first, there, sum, bound⟩ := exists_line_ofIndex within
  by_cases here : number = (Position.ofIndex origin i).line
  · rw [if_pos here, here]
    omega
  · have before := lineStart_lt there (Nat.lt_of_le_of_ne least (Ne.symm here))
    rw [if_neg here]
    omega

/-- The column up to which a line is underlined. -/
theorem stopColumn_eq {number : Nat} {text : List Char}
    (line : (splitLines origin.text.toList)[number]? = some text)
    (within : j ≤ origin.text.length) (most : number ≤ (Position.ofIndex origin j).line) :
    (if number = (Position.ofIndex origin j).line then (Position.ofIndex origin j).column
      else text.length) =
      min text.length (j - lineStart (splitLines origin.text.toList) number) := by
  obtain ⟨last, there, sum, bound⟩ := exists_line_ofIndex within
  by_cases here : number = (Position.ofIndex origin j).line
  · rw [here] at line
    cases line.symm.trans there
    rw [if_pos here, here]
    omega
  · have behind := lineStart_lt line (Nat.lt_of_le_of_ne most here)
    rw [if_neg here]
    omega

/-- The lines of an excerpt are those that the indices ask for. -/
theorem lineAt_ofIndex (ordered : i ≤ j) (within : j ≤ origin.text.length) {number : Nat}
    (least : (Position.ofIndex origin i).line ≤ number)
    (most : number ≤ (Position.ofIndex origin j).line) :
    lineAt (splitLines origin.text.toList) (.ofIndex origin i) (.ofIndex origin j) number =
      underlined origin.text.toList i j number := by
  have ends : max (Position.ofIndex origin j).line (Position.ofIndex origin i).line =
      (Position.ofIndex origin j).line := Nat.max_eq_left (line_ofIndex_le ordered)
  obtain ⟨text, line⟩ : ∃ text, (splitLines origin.text.toList)[number]? = some text := by
    obtain ⟨last, there, -⟩ := exists_line_ofIndex within
    have inside := (List.getElem?_eq_some_iff.mp there).1
    exact ⟨_, List.getElem?_eq_getElem (Nat.lt_of_le_of_lt most inside)⟩
  have low := startColumn_eq (Nat.le_trans ordered within) least
  have high := stopColumn_eq line within most
  rw [lineAt, ends, underlined, ← splitLines_eq_splitOn, line]
  simp only [Option.getD_some]
  rw [low, high]
  generalize lineStart (splitLines origin.text.toList) number = start at low
  by_cases some : i - start < min text.length (j - start)
  · have full : covered start text.length i j ≠ [] :=
      List.ne_nil_of_mem (mem_covered.mpr ⟨Nat.le_refl _, some⟩)
    rw [if_neg full, carets_eq_underline some fun column => mem_covered]
  · have none : covered start text.length i j = [] := by
      refine List.eq_nil_iff_forall_not_mem.mpr fun column member => ?_
      have bounds := mem_covered.mp member
      omega
    have place : (if number = (origin.text.toList.take i).count '\n' then i - start else 0) =
        i - start := by
      split
      · rfl
      · rename_i later
        rwa [Position.ofIndex, if_neg later] at low
    rw [if_pos none, place, underline_of_le (Nat.not_lt.mp some),
      carets_eq_underline (Nat.lt_succ_self _)]
    intro column
    rw [List.mem_singleton]
    omega

theorem linesBetween_ofIndex (ordered : i ≤ j) (within : j ≤ origin.text.length) :
    linesBetween origin.text.toList (.ofIndex origin i) (.ofIndex origin j) =
      linesUnderlined origin.text.toList i j := by
  have ends : max (Position.ofIndex origin j).line (Position.ofIndex origin i).line =
      (Position.ofIndex origin j).line := Nat.max_eq_left (line_ofIndex_le ordered)
  rw [linesBetween, ends, linesUnderlined]
  refine List.flatMap_congr fun number member => ?_
  obtain ⟨least, most⟩ := List.mem_range'_1.mp member
  have ordered' : (Position.ofIndex origin i).line ≤ (Position.ofIndex origin j).line :=
    line_ofIndex_le ordered
  exact lineAt_ofIndex ordered within least (by omega)

/-- Columns for which there is room are not too wide. -/
theorem excerptBetween_eq (text : String) {start stop : Position}
    (startFits : start.column < roomLimit) (stopFits : stop.column < roomLimit) :
    Span.excerptBetween text start stop = .ok (excerpt text start stop) := by
  have fits {n : Nat} (small : n < roomLimit) : Span.checkWidth n = .ok () := by
    have limits : roomLimit ≤ sizeLimit := by decide
    rw [Span.checkWidth, if_neg (by omega), if_neg (by omega)]
  have width : (if stop.line ≤ start.line then stop.column - start.column else stop.column) <
      roomLimit := by
    split <;> omega
  rw [Span.excerptBetween, fits startFits, fits width]
  rfl

/-- The excerpt between two indices of a text shows the lines from the one to the other. Under each
    of them carets mark the characters of the stretch between the indices, and one caret a line
    without any; the character in a column of a line is as far behind the line's start. This is what
    the span between the positions shows, if there is room. -/
theorem excerpt_marks_stretch (origin : Origin) (ordered : i ≤ j)
    (within : j ≤ origin.text.length) :
    let cs := origin.text.toList
    let start := (Position.start origin).walk (cs.take i)
    let stop := (Position.start origin).walk (cs.take j)
    let shown := "\n".intercalate ((linesUnderlined cs i j).map String.ofList)
    excerpt origin.text start stop = shown ∧
      (start.column < roomLimit → stop.column < roomLimit →
        Span.excerpt ⟨start, stop⟩ = .ok shown) ∧
      ∀ number row column, (cs.splitOn '\n')[number]? = some row → column < row.length →
        cs[lineStart (cs.splitOn '\n') number + column]? = row[column]? := by
  intro cs start stop shown
  have drawn : excerpt origin.text start stop = shown := by
    have between := linesBetween_ofIndex ordered within
    rw [← Position.walk_take origin within,
      ← Position.walk_take origin (Nat.le_trans ordered within)] at between
    rw [excerpt, between]
  refine ⟨drawn, fun startFits stopFits => ?_, fun number row column there inside => ?_⟩
  · have named : start.origin = origin := Position.origin_walk _ _
    rw [← drawn, ← excerptBetween_eq origin.text startFits stopFits]
    show Span.excerptBetween start.origin.text start stop = _
    rw [named]
  · rw [← splitLines_eq_splitOn] at there ⊢
    exact getElem?_lineStart there inside

/-- A stretch from the end of a line over an empty one to the front of the last. -/
theorem excerpt_of_three_lines :
    excerpt "ab\n\ncd" ⟨⟨"three", "ab\n\ncd"⟩, 2, 0, 2⟩ ⟨⟨"three", "ab\n\ncd"⟩, 5, 2, 1⟩ =
      "ab\n  ^\n\n^\ncd\n^" := by
  have drawn := (excerpt_marks_stretch (i := 2) (j := 5) ⟨"three", "ab\n\ncd"⟩ (by decide)
    (by decide)).1
  exact drawn.trans (by decide)

end Spans

end Excerpt

end SceneScript
