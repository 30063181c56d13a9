import Mathlib.Tactic

/-! Scanning of streams: reading until a buffer is complete, splitting at the first separator, and
the text before the first occurrence of a pattern. -/
namespace Library

variable {α : Type*}

/-- Reads are appended to the buffer until it is complete. An empty read, or none, gives up. -/
def readUntil (complete : List α → Bool) (buffer : List α) : List (List α) → Option (List α)
  | [] => if complete buffer then some buffer else none
  | read :: reads =>
    if complete buffer then some buffer
    else if read = [] then none
    else readUntil complete (buffer ++ read) reads

variable {complete : List α → Bool}

/-- Reads that leave the buffer incomplete at every moment are all taken. -/
theorem readUntil_append (buffer : List α) {reads : List (List α)}
    (hreads : ∀ read ∈ reads, read ≠ [])
    (hopen : ∀ k < reads.length, complete (buffer ++ (reads.take k).flatten) = false)
    (more : List (List α)) :
    readUntil complete buffer (reads ++ more) =
      readUntil complete (buffer ++ reads.flatten) more := by
  induction reads generalizing buffer with
  | nil => simp
  | cons read reads ih =>
    have hnow : complete buffer = false := by simpa using hopen 0 (by simp)
    have hread : read ≠ [] := hreads read List.mem_cons_self
    have hrest := ih (buffer ++ read)
      (fun other hother => hreads other (List.mem_cons_of_mem read hother))
      fun k hk => by simpa using hopen (k + 1) (by simpa using hk)
    simpa [readUntil, hnow, hread] using hrest

theorem readUntil_of_complete {buffer : List α} (h : complete buffer = true)
    (reads : List (List α)) : readUntil complete buffer reads = some buffer := by
  cases reads <;> simp [readUntil, h]

/-- Where the whole stream is complete, reading ends with a complete start of it. -/
theorem readUntil_spec (buffer : List α) {reads : List (List α)}
    (hreads : ∀ read ∈ reads, read ≠ []) (h : complete (buffer ++ reads.flatten) = true) :
    ∃ result, readUntil complete buffer reads = some result ∧ complete result = true ∧
      result <+: buffer ++ reads.flatten := by
  induction reads generalizing buffer with
  | nil =>
    have hnow : complete buffer = true := by simpa using h
    exact ⟨buffer, readUntil_of_complete hnow [], hnow, by simp⟩
  | cons read reads ih =>
    by_cases hnow : complete buffer = true
    · exact ⟨buffer, readUntil_of_complete hnow _, hnow, List.prefix_append _ _⟩
    · have hread : read ≠ [] := hreads read List.mem_cons_self
      obtain ⟨result, hresult, hcomplete, hstart⟩ :=
        ih (buffer ++ read) (fun other hother => hreads other (List.mem_cons_of_mem read hother))
          (by simpa using h)
      exact ⟨result, by simpa [readUntil, hnow, hread] using hresult, hcomplete,
        by simpa using hstart⟩

/-- Reading overshoots an incomplete start by at most one read. -/
theorem readUntil_overshoot {size : ℕ} {buffer result : List α} {reads : List (List α)}
    (hsize : ∀ read ∈ reads, read.length ≤ size)
    (h : readUntil complete buffer reads = some result) :
    result = buffer ∨ ∃ before, complete before = false ∧ before <+: result ∧
      result.length ≤ before.length + size := by
  induction reads generalizing buffer with
  | nil =>
    simp only [readUntil, Option.ite_none_right_eq_some, Option.some.injEq] at h
    exact .inl h.2.symm
  | cons read reads ih =>
    simp only [readUntil] at h
    split_ifs at h with hnow
    · exact .inl (Option.some.inj h).symm
    · rcases ih (fun other hother => hsize other (List.mem_cons_of_mem read hother)) h with
        rfl | hbefore
      · refine .inr ⟨buffer, by simpa using hnow, List.prefix_append _ _, ?_⟩
        rw [List.length_append]
        exact Nat.add_le_add_left (hsize read List.mem_cons_self) _
      · exact .inr hbefore

/-- A text with the pattern in it begins with a text in which the pattern stands only at the end. -/
theorem exists_front_of_infix {pattern text : List α} (hne : pattern ≠ []) (h : pattern <:+: text) :
    ∃ front rest, text = front ++ rest ∧ pattern <:+ front ∧ ¬ pattern <:+: front.dropLast := by
  induction text using List.reverseRecOn with
  | nil => exact absurd (List.infix_nil.mp h) hne
  | append_singleton init x ih =>
    by_cases hinit : pattern <:+: init
    · obtain ⟨front, rest, rfl, hends, hfirst⟩ := ih hinit
      exact ⟨front, rest ++ [x], List.append_assoc .., hends, hfirst⟩
    · have hends : pattern <:+ init ++ [x] := (List.infix_concat_iff.mp h).resolve_right hinit
      exact ⟨init ++ [x], [], (List.append_nil _).symm, hends, by simpa using hinit⟩

variable [DecidableEq α]

/-- What stands before and after the first `c`. -/
def splitFirst (c : α) : List α → Option (List α × List α)
  | [] => none
  | x :: rest =>
    if x = c then some ([], rest)
    else (splitFirst c rest).map fun split => (x :: split.1, split.2)

theorem splitFirst_append {c : α} {before : List α} (h : c ∉ before) (after : List α) :
    splitFirst c (before ++ c :: after) = some (before, after) := by
  induction before with
  | nil => simp [splitFirst]
  | cons x before ih =>
    obtain ⟨hne, hrest⟩ := not_or.mp (mt List.mem_cons.mpr h)
    simp [splitFirst, Ne.symm hne, ih hrest]

theorem splitFirst_eq_none {c : α} {text : List α} : splitFirst c text = none ↔ c ∉ text := by
  induction text with
  | nil => simp [splitFirst]
  | cons x rest ih =>
    by_cases hx : x = c
    · simp [splitFirst, hx]
    · simp [splitFirst, hx, ih, Ne.symm hx]

theorem eq_of_splitFirst {c : α} {text : List α} {split : List α × List α}
    (h : splitFirst c text = some split) : text = split.1 ++ c :: split.2 ∧ c ∉ split.1 := by
  by_cases hmem : c ∈ text
  · obtain ⟨before, after, rfl, hbefore⟩ := List.eq_append_cons_of_mem hmem
    obtain rfl := Option.some.inj ((splitFirst_append hbefore after).symm.trans h)
    exact ⟨rfl, hbefore⟩
  · exact nomatch (splitFirst_eq_none.mpr hmem).symm.trans h

/-- What stands before the first occurrence of a pattern. -/
def beforeFirst (pattern : List α) : List α → List α
  | [] => []
  | x :: rest => if pattern <+: x :: rest then [] else x :: beforeFirst pattern rest

theorem beforeFirst_isPrefix (pattern text : List α) : beforeFirst pattern text <+: text := by
  induction text with
  | nil => exact List.nil_prefix
  | cons x rest ih =>
    simp only [beforeFirst]
    split_ifs
    · exact List.nil_prefix
    · exact (List.prefix_cons_inj x).mpr ih

/-- A text in which the pattern stands only at the end. -/
theorem beforeFirst_append_pattern {pattern front : List α} (hends : pattern <:+ front)
    (hfirst : ¬ pattern <:+: front.dropLast) : beforeFirst pattern front ++ pattern = front := by
  induction front with
  | nil => rw [List.suffix_nil.mp hends, beforeFirst, List.nil_append]
  | cons x rest ih =>
    have hlength := hends.length_le
    simp only [beforeFirst]
    split_ifs with hstart
    · refine hstart.eq_of_length (le_antisymm hlength (not_lt.mp fun hshort => hfirst ?_))
      refine (List.prefix_of_prefix_length_le hstart (List.dropLast_prefix _) ?_).isInfix
      rw [List.length_dropLast]
      omega
    · have hrest : pattern <:+ rest :=
        (List.suffix_cons_iff.mp hends).resolve_left fun heq => hstart (heq ▸ List.prefix_refl _)
      rw [List.cons_append, ih hrest fun hinner => hfirst (hinner.trans ?_)]
      cases rest with
      | nil => exact List.nil_infix
      | cons y rest => exact (List.suffix_cons x _).isInfix

/-- What follows a text with the pattern in it does not matter. -/
theorem beforeFirst_append {pattern text : List α} (hne : pattern ≠ []) (h : pattern <:+: text)
    (more : List α) : beforeFirst pattern (text ++ more) = beforeFirst pattern text := by
  induction text with
  | nil => exact absurd (List.infix_nil.mp h) hne
  | cons x rest ih =>
    have hlength : pattern.length ≤ (x :: rest).length := h.length_le
    have hfront : pattern <+: x :: (rest ++ more) ↔ pattern <+: x :: rest := by
      constructor
      · intro hlong
        exact List.prefix_of_prefix_length_le hlong (List.prefix_append (x :: rest) more) hlength
      · exact fun hshort => hshort.trans (List.prefix_append (x :: rest) more)
    simp only [List.cons_append, beforeFirst, hfront]
    split_ifs with hstart
    · rfl
    · rw [ih ((List.infix_cons_iff.mp h).resolve_left hstart)]

end Library
