/-
Places and bytes.

A reader counts rows and characters, a program counts bytes, and the two agree: the byte of the place after a text
is the length of that text in bytes, whatever follows it (`byteOffset_after`). A text is put together for this of
its full rows, each with its line feed, and the row that its end is in: the rows are counted through, and then the
characters of the row. The byte of a place that is not in the text is still one at which a character of the text
begins or the text ends (`exists_byteOffset`).
-/
import Mathlib.Data.List.DropRight
import StencilKit.Text.Place

namespace StencilKit.Place

/-! ## Bytes -/

theorem byteLength_append (cs ds : List Char) : byteLength (cs ++ ds) = byteLength cs + byteLength ds := by
  have hfrom : ∀ n, ds.foldl (fun n c => n + c.utf8Size) n = n + byteLength ds := by
    induction ds with
    | nil => exact fun n => rfl
    | cons d ds ih =>
      intro n
      rw [byteLength, List.foldl_cons, List.foldl_cons, ih, ih, Nat.zero_add, Nat.add_assoc]
  rw [byteLength, List.foldl_append, hfrom, ← byteLength]

theorem byteLength_cons (c : Char) (cs : List Char) : byteLength (c :: cs) = c.utf8Size + byteLength cs := by
  rw [← List.singleton_append, byteLength_append, byteLength, List.foldl_cons, List.foldl_nil, Nat.zero_add]

theorem byteLength_toList (s : String) : byteLength s.toList = s.utf8ByteSize := by
  have hofList : ∀ cs, byteLength cs = (String.ofList cs).utf8ByteSize := by
    intro cs
    induction cs with
    | nil => rfl
    | cons c cs ih =>
      rw [byteLength_cons, ih, String.ofList_cons, String.utf8ByteSize_append, String.utf8ByteSize_singleton]
  rw [hofList, String.ofList_toList]

/-! ## The place after a text -/

/-- The characters after the last line feed. -/
def lastRow (cs : List Char) : List Char := cs.rtakeWhile (· ≠ '\n')

/-- The characters up to the last line feed. -/
def fullRows (cs : List Char) : List Char := cs.rdropWhile (· ≠ '\n')

theorem fullRows_append_lastRow (cs : List Char) : fullRows cs ++ lastRow cs = cs :=
  List.rdropWhile_append_rtakeWhile

theorem not_mem_lastRow (cs : List Char) : '\n' ∉ lastRow cs := by
  intro h
  simpa using List.mem_rtakeWhile_imp h

/-- Full rows end with a line feed. -/
theorem eq_of_mem_getLast?_fullRows (cs : List Char) : ∀ c ∈ (fullRows cs).getLast?, c = '\n' := by
  intro c hc
  have hne : fullRows cs ≠ [] := by
    intro h
    rw [h] at hc
    cases hc
  have hlast := List.rdropWhile_last_not (· ≠ '\n') cs hne
  rw [List.getLast?_eq_some_getLast hne] at hc
  cases hc
  exact not_not.1 fun h => hlast (decide_eq_true h)

theorem count_fullRows (cs : List Char) : (fullRows cs).count '\n' = cs.count '\n' := by
  conv_rhs => rw [← fullRows_append_lastRow cs, List.count_append, List.count_eq_zero.2 (not_mem_lastRow cs)]
  rfl

theorem lastRow_concat (cs : List Char) (c : Char) :
    lastRow (cs ++ [c]) = if c = '\n' then [] else lastRow cs ++ [c] := by
  rw [lastRow, List.rtakeWhile_concat]
  by_cases hc : c = '\n'
  · rw [if_pos hc, if_neg (by simp [hc])]
  · rw [if_neg hc, if_pos (by simp [hc]), lastRow]

/-- **The place after a text**: as many rows down as there are line feeds, and as many columns on as there are
characters after the last one. -/
theorem after_eq (cs : List Char) : after cs = ⟨1 + cs.count '\n', 1 + (lastRow cs).length⟩ := by
  induction cs using List.reverseRecOn with
  | nil => rfl
  | append_singleton cs c ih =>
    rw [after, List.foldl_concat, ← after, ih, step, lastRow_concat, List.count_append]
    by_cases hc : c = '\n'
    · rw [if_pos hc, if_pos hc, hc]
      rfl
    · rw [if_neg hc, if_neg hc, List.count_singleton, if_neg (by simpa using hc), List.length_append]
      rfl

theorem bytesToRow_append {rows : List Char} (hrows : ∀ c ∈ rows.getLast?, c = '\n') (rest : List Char) :
    bytesToRow (rows ++ rest) (rows.count '\n') = (byteLength rows, rest) := by
  induction rows with
  | nil =>
    rw [List.count_nil, bytesToRow]
    rfl
  | cons c cs ih =>
    have hcs : ∀ d ∈ cs.getLast?, d = '\n' := by
      intro d hd
      rw [Option.mem_def] at hd
      exact hrows d (by rw [List.getLast?_cons, hd]; rfl)
    rw [List.cons_append, byteLength_cons]
    by_cases hc : c = '\n'
    · rw [hc, List.count_cons_self, bytesToRow, if_pos rfl, ih hcs]
    · -- The row goes on, so there is a line feed to come.
      have hmem : '\n' ∈ cs := by
        cases hlast : cs.getLast? with
        | none => exact absurd (hrows c (by rw [List.getLast?_cons, hlast]; rfl)) hc
        | some d =>
          rw [hcs d hlast] at hlast
          exact List.mem_of_getLast? hlast
      obtain ⟨n, hn⟩ := Nat.exists_eq_succ_of_ne_zero (List.count_pos_iff.2 hmem).ne'
      rw [List.count_cons_of_ne hc, hn, bytesToRow, if_neg hc, ← Nat.succ_eq_add_one, ← hn, ih hcs]

theorem bytesIntoRow_append {row : List Char} (hrow : '\n' ∉ row) (rest : List Char) :
    bytesIntoRow (row ++ rest) row.length = byteLength row := by
  induction row with
  | nil =>
    rw [List.length_nil, bytesIntoRow]
    rfl
  | cons c cs ih =>
    rw [List.mem_cons, not_or] at hrow
    rw [List.cons_append, List.length_cons, bytesIntoRow, if_neg (Ne.symm hrow.1), ih hrow.2, byteLength_cons]

/-- **The byte of the place after a text** is the length of the text, whatever follows. -/
theorem byteOffset_after (before rest : List Char) :
    byteOffset (before ++ rest) (after before) = byteLength before := by
  have hrow : byteOffset (before ++ rest) (after before) =
      (bytesToRow (before ++ rest) (before.count '\n')).1 +
        bytesIntoRow (bytesToRow (before ++ rest) (before.count '\n')).2 (lastRow before).length := by
    rw [after_eq, byteOffset, if_neg (Nat.ne_of_gt (Nat.lt_add_right _ Nat.one_pos)), Nat.add_sub_cancel_left,
      Nat.add_sub_cancel_left]
  have hrows := bytesToRow_append (eq_of_mem_getLast?_fullRows before) (lastRow before ++ rest)
  rw [← List.append_assoc, fullRows_append_lastRow, count_fullRows] at hrows
  rw [hrow, hrows, bytesIntoRow_append (not_mem_lastRow before), ← byteLength_append, fullRows_append_lastRow]

/-! ## Places that are not in a text -/

theorem exists_bytesToRow (cs : List Char) (rows : Nat) :
    ∃ before rest, cs = before ++ rest ∧ bytesToRow cs rows = (byteLength before, rest) := by
  induction cs generalizing rows with
  | nil =>
    cases rows with
    | zero => exact ⟨[], [], rfl, by rw [bytesToRow]; rfl⟩
    | succ rows => exact ⟨[], [], rfl, rfl⟩
  | cons c cs ih =>
    cases rows with
    | zero => exact ⟨[], c :: cs, rfl, by rw [bytesToRow]; rfl⟩
    | succ rows =>
      obtain ⟨before, rest, hcs, hbytes⟩ := ih (if c = '\n' then rows else rows + 1)
      refine ⟨c :: before, rest, by rw [hcs, List.cons_append], ?_⟩
      rw [bytesToRow, hbytes, byteLength_cons]

theorem exists_bytesIntoRow (cs : List Char) (n : Nat) :
    ∃ before rest, cs = before ++ rest ∧ bytesIntoRow cs n = byteLength before := by
  induction cs generalizing n with
  | nil =>
    cases n with
    | zero => exact ⟨[], [], rfl, rfl⟩
    | succ n => exact ⟨[], [], rfl, rfl⟩
  | cons c cs ih =>
    cases n with
    | zero => exact ⟨[], c :: cs, rfl, rfl⟩
    | succ n =>
      rw [bytesIntoRow]
      split
      · exact ⟨[c], cs, rfl, (byteLength_cons c []).symm⟩
      · obtain ⟨before, rest, hcs, hbytes⟩ := ih n
        exact ⟨c :: before, rest, by rw [hcs, List.cons_append], by rw [hbytes, byteLength_cons]⟩

/-- **The byte of a place**, wherever it lies, is the length of a beginning of the text. -/
theorem exists_byteOffset (text : List Char) (p : Place) :
    ∃ before rest, text = before ++ rest ∧ byteOffset text p = byteLength before := by
  unfold byteOffset
  split
  · exact ⟨text, [], (List.append_nil text).symm, rfl⟩
  · obtain ⟨rows, rest, rfl, hrows⟩ := exists_bytesToRow text (p.row - 1)
    obtain ⟨row, rest, rfl, hrow⟩ := exists_bytesIntoRow rest (p.col - 1)
    refine ⟨rows ++ row, rest, (List.append_assoc rows row rest).symm, ?_⟩
    rw [hrows]
    dsimp only
    rw [hrow, byteLength_append]

/-- **A place and its byte.** A place in a text is told by the line feeds before it and the characters after the last
of them, and its byte by the bytes before it. Any other place has a byte of the text too, at which the text can be
cut. -/
theorem byteOffset_boundary :
    (∀ before rest : String,
      byteOffset (before ++ rest).toList ⟨1 + before.toList.count '\n', 1 + (lastRow before.toList).length⟩ =
        before.utf8ByteSize) ∧
    ∀ (text : String) (p : Place), byteOffset text.toList p ≤ text.utf8ByteSize ∧
      String.Pos.Raw.IsValid text ⟨byteOffset text.toList p⟩ := by
  constructor
  · intro before rest
    rw [String.toList_append, ← after_eq, byteOffset_after, byteLength_toList]
  · intro text p
    obtain ⟨before, rest, htext, hbyte⟩ := exists_byteOffset text.toList p
    have hparts : text = String.ofList before ++ String.ofList rest := by
      rw [← String.ofList_append, ← htext, String.ofList_toList]
    rw [← String.toList_ofList (l := before), byteLength_toList] at hbyte
    rw [hbyte]
    constructor
    · rw [hparts, String.utf8ByteSize_append]
      exact Nat.le_add_right _ _
    · exact String.Pos.Raw.isValid_iff_exists_append.2 ⟨_, _, hparts, rfl⟩

example : byteOffset "ab\ncdé\nf".toList ⟨2, 4⟩ = 7 ∧ byteOffset "ab\ncdé\nf".toList ⟨2, 9⟩ = 8 := by decide

end StencilKit.Place
