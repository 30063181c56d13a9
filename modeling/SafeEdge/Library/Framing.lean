import SafeEdge.Library.Scanning

/-! Framed texts on a stream: what partial writes put on the wire, and lines that end with an empty
one, which a reader recognises exactly if nothing of them is missing. -/
namespace Library

variable {α : Type*}

/-- What went out of a text, whether that is all of it, and the writes that were not made. -/
structure Written (α : Type*) where
  bytes : List α
  complete : Bool
  rooms : List (Option ℕ)
  deriving DecidableEq

/-- Writes until everything is out. A write takes as much as there is room for; one without room,
one that fails and the end of the list give up. -/
def writeAll (data : List α) : List (Option ℕ) → Written α
  | [] => { bytes := [], complete := data.isEmpty, rooms := [] }
  | room :: rooms =>
    if data.isEmpty then { bytes := [], complete := true, rooms := room :: rooms }
    else
      match room with
      | none | some 0 => { bytes := [], complete := false, rooms }
      | some room =>
        let rest := writeAll (data.drop room) rooms
        { rest with bytes := data.take room ++ rest.bytes }

/-- A start of the text goes out, and the writer knows whether it is the whole text. -/
theorem writeAll_spec (data : List α) (rooms : List (Option ℕ)) :
    (writeAll data rooms).bytes <+: data ∧
      ((writeAll data rooms).complete = true ↔ (writeAll data rooms).bytes = data) := by
  induction rooms generalizing data with
  | nil => cases data <;> simp [writeAll]
  | cons room rooms ih =>
    cases data with
    | nil => simp [writeAll]
    | cons x data =>
      match room with
      | none | some 0 => simp [writeAll]
      | some (room + 1) =>
        obtain ⟨hstart, hwhole⟩ := ih (data.drop room)
        have hdata : x :: data = x :: data.take room ++ data.drop room := by simp
        simp only [writeAll, List.isEmpty_cons, Bool.false_eq_true, if_false, List.take_succ_cons,
          List.drop_succ_cons]
        refine ⟨?_, ?_⟩
        · rw [hdata]
          exact (List.prefix_append_right_inj _).mpr hstart
        · rw [hwhole, hdata]
          exact List.append_cancel_left_eq .. ▸ Iff.rfl

/-- As many writes as there are elements are enough if none fails. -/
theorem writeAll_complete {data : List α} {rooms : List (Option ℕ)}
    (hrooms : ∀ room ∈ rooms, ∃ space, room = some (space + 1))
    (hlength : data.length ≤ rooms.length) : (writeAll data rooms).complete = true := by
  induction rooms generalizing data with
  | nil =>
    obtain rfl : data = [] := List.eq_nil_of_length_eq_zero (Nat.le_zero.mp hlength)
    rfl
  | cons room rooms ih =>
    cases data with
    | nil => rfl
    | cons x data =>
      obtain ⟨space, rfl⟩ := hrooms room List.mem_cons_self
      refine ih (fun other hother => hrooms other (List.mem_cons_of_mem _ hother)) ?_
      simp only [List.drop_succ_cons, List.length_drop, List.length_cons] at hlength ⊢
      omega

/-- At most one write is made for each element. -/
theorem writeAll_rooms (data : List α) (rooms : List (Option ℕ)) :
    (writeAll data rooms).rooms <:+ rooms ∧
      rooms.length ≤ data.length + (writeAll data rooms).rooms.length := by
  induction rooms generalizing data with
  | nil => simp [writeAll]
  | cons room rooms ih =>
    cases data with
    | nil => simp [writeAll]
    | cons x data =>
      match room with
      | none | some 0 =>
        refine ⟨List.suffix_cons _ _, ?_⟩
        simp only [writeAll, List.isEmpty_cons, Bool.false_eq_true, if_false, List.length_cons]
        omega
      | some (room + 1) =>
        obtain ⟨hsuffix, hlength⟩ := ih (data.drop room)
        refine ⟨hsuffix.trans (List.suffix_cons _ _), ?_⟩
        simp only [writeAll, List.isEmpty_cons, Bool.false_eq_true, if_false, List.length_cons,
          List.drop_succ_cons, List.length_drop] at hlength ⊢
        omega

section Lines
variable [DecidableEq α] (cr lf : α)

/-- The lines up to the first empty one, and what follows it. The first argument is what has been
read of the current line. -/
def readLines : List α → List α → Option (List (List α) × List α)
  | line, x :: y :: rest =>
    if x = cr ∧ y = lf then
      if line = [] then some ([], rest)
      else (readLines [] rest).map fun found => (line :: found.1, found.2)
    else readLines (line ++ [x]) (y :: rest)
  | _, _ => none

/-- The lines with their ends, and an empty line. -/
def unlines (lines : List (List α)) : List α :=
  (lines.map (· ++ [cr, lf])).flatten ++ [cr, lf]

variable {cr lf}

theorem readLines_line {text : List α} (h : cr ∉ text) (line rest : List α) :
    readLines cr lf line (text ++ cr :: lf :: rest) =
      if line ++ text = [] then some ([], rest)
      else (readLines cr lf [] rest).map fun found => ((line ++ text) :: found.1, found.2) := by
  induction text generalizing line with
  | nil => simp [readLines]
  | cons x text ih =>
    obtain ⟨hx, htext⟩ := not_or.mp (mt List.mem_cons.mpr h)
    have hread : readLines cr lf line (x :: text ++ cr :: lf :: rest) =
        readLines cr lf (line ++ [x]) (text ++ cr :: lf :: rest) := by
      cases text <;> simp [readLines, Ne.symm hx]
    rw [hread, ih htext, List.append_assoc, List.singleton_append]

/-- Without the end of a line nothing is read. -/
theorem readLines_eq_none {text : List α} (h : ¬ [cr, lf] <:+: text) (line : List α) :
    readLines cr lf line text = none := by
  induction text generalizing line with
  | nil => rfl
  | cons x text ih =>
    cases text with
    | nil => rfl
    | cons y rest =>
      have hend : ¬ (x = cr ∧ y = lf) := by
        rintro ⟨rfl, rfl⟩
        exact h (List.prefix_append [x, y] rest).isInfix
      rw [readLines, if_neg hend]
      exact ih (fun hinside => h (hinside.trans (List.suffix_cons x _).isInfix)) _

omit [DecidableEq α] in
theorem not_infix_concat {line : List α} (hline : cr ∉ line) : ¬ [cr, lf] <:+: line ++ [cr] := by
  induction line with
  | nil => simp [List.infix_cons_iff]
  | cons x line ih =>
    obtain ⟨hx, hrest⟩ := not_or.mp (mt List.mem_cons.mpr hline)
    rw [List.cons_append, List.infix_cons_iff, List.cons_prefix_cons]
    exact not_or.mpr ⟨fun h => hx h.1, ih hrest⟩

omit [DecidableEq α] in
/-- Part of a line and its end does not hold the end. -/
theorem not_infix_of_isPrefix {line text : List α} (hline : cr ∉ line)
    (hstart : text <+: line ++ [cr, lf]) (hpart : text ≠ line ++ [cr, lf]) :
    ¬ [cr, lf] <:+: text := by
  have hshort : text.length < (line ++ [cr, lf]).length :=
    hstart.length_le.lt_of_ne fun heq => hpart (hstart.eq_of_length heq)
  have hfront : text <+: line ++ [cr] := by
    refine List.prefix_of_prefix_length_le hstart ⟨[lf], by simp⟩ ?_
    simp only [List.length_append, List.length_cons, List.length_nil] at hshort ⊢
    omega
  exact fun hinside => not_infix_concat hline (hinside.trans hfront.isInfix)

/-- Lines that are not empty are read back, with all that follows them. -/
theorem readLines_unlines {lines : List (List α)} (hlines : ∀ line ∈ lines, line ≠ [] ∧ cr ∉ line)
    (rest : List α) : readLines cr lf [] (unlines cr lf lines ++ rest) = some (lines, rest) := by
  induction lines with
  | nil => simp [unlines, readLines]
  | cons line lines ih =>
    obtain ⟨hne, hline⟩ := hlines line List.mem_cons_self
    have hrest := ih fun other hother => hlines other (List.mem_cons_of_mem line hother)
    have htext : unlines cr lf (line :: lines) ++ rest =
        line ++ cr :: lf :: (unlines cr lf lines ++ rest) := by simp [unlines]
    rw [htext, readLines_line hline, hrest]
    simp [hne]

/-- If part of the lines is missing nothing is read. -/
theorem readLines_truncated {lines : List (List α)}
    (hlines : ∀ line ∈ lines, line ≠ [] ∧ cr ∉ line) {text : List α}
    (hstart : text <+: unlines cr lf lines) (hpart : text ≠ unlines cr lf lines) :
    readLines cr lf [] text = none := by
  induction lines generalizing text with
  | nil =>
    have hnil : cr ∉ ([] : List α) := List.not_mem_nil
    exact readLines_eq_none (not_infix_of_isPrefix hnil hstart hpart) []
  | cons line lines ih =>
    obtain ⟨hne, hline⟩ := hlines line List.mem_cons_self
    have htext : unlines cr lf (line :: lines) = (line ++ [cr, lf]) ++ unlines cr lf lines := by
      simp [unlines]
    rw [htext] at hstart hpart
    by_cases hpartial : text <+: line ++ [cr, lf] ∧ text ≠ line ++ [cr, lf]
    · exact readLines_eq_none (not_infix_of_isPrefix hline hpartial.1 hpartial.2) []
    · have hfirst : line ++ [cr, lf] <+: text := by
        rcases List.prefix_or_prefix_of_prefix hstart (List.prefix_append _ _) with h | h
        · rw [not_and_not_right.mp hpartial h]
        · exact h
      obtain ⟨more, rfl⟩ := hfirst
      have hmore := ih (fun other hother => hlines other (List.mem_cons_of_mem line hother))
        ((List.prefix_append_right_inj _).mp hstart) fun heq => hpart (by rw [heq])
      have hline' : line ++ [cr, lf] ++ more = line ++ cr :: lf :: more := by simp
      rw [hline', readLines_line hline, hmore]
      simp [hne]

end Lines
end Library
