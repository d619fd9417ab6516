namespace TableVault

/-!
# Pieces of a text

* `pieces` — a text cut at every occurrence of a character; there is always one more
  piece than there are cuts;
* `join` — pieces put together with a character between them;
* `pieces_append_cons` — a text around one separator has the pieces of both sides;
* `join_pieces` and `pieces_join` — cutting and joining undo each other.
-/

/-- The pieces between the occurrences of `sep`. -/
def pieces (sep : Char) : List Char → List (List Char)
  | [] => [[]]
  | c :: rest =>
    if c = sep then [] :: pieces sep rest
    else
      match pieces sep rest with
      | [] => [[c]]
      | p :: ps => (c :: p) :: ps

/-- Pieces with `sep` between them. -/
def join (sep : Char) : List (List Char) → List Char
  | [] => []
  | [p] => p
  | p :: ps => p ++ sep :: join sep ps

/-- There is at least one piece. -/
theorem pieces_ne_nil (sep : Char) (cs : List Char) : pieces sep cs ≠ [] := by
  cases cs with
  | nil => simp [pieces]
  | cons c rest =>
    simp only [pieces]
    split
    · simp
    · split <;> simp

/-- A text without the separator is a single piece. -/
theorem pieces_of_not_mem {sep : Char} {cs : List Char} (h : sep ∉ cs) :
    pieces sep cs = [cs] := by
  induction cs with
  | nil => rfl
  | cons c rest ih =>
    rw [List.mem_cons, not_or] at h
    simp only [pieces, if_neg (Ne.symm h.1), ih h.2]

/-- A separator divides the pieces before it from those after it. -/
theorem pieces_append_cons (sep : Char) (a b : List Char) :
    pieces sep (a ++ sep :: b) = pieces sep a ++ pieces sep b := by
  induction a with
  | nil => simp only [List.nil_append, pieces, if_true, List.cons_append]
  | cons c rest ih =>
    simp only [List.cons_append, pieces, ih]
    split
    · rw [List.cons_append]
    · cases hp : pieces sep rest with
      | nil => exact absurd hp (pieces_ne_nil sep rest)
      | cons p ps => simp only [List.cons_append]

/-- Cutting loses nothing but the separators. -/
theorem join_pieces (sep : Char) (cs : List Char) : join sep (pieces sep cs) = cs := by
  induction cs with
  | nil => rfl
  | cons c rest ih =>
    simp only [pieces]
    split
    · next h =>
      cases hp : pieces sep rest with
      | nil => exact absurd hp (pieces_ne_nil sep rest)
      | cons p ps =>
        rw [hp] at ih
        show [] ++ sep :: join sep (p :: ps) = c :: rest
        rw [ih, h, List.nil_append]
    · split
      · next h => exact absurd h (pieces_ne_nil sep rest)
      · next p ps h =>
        rw [h] at ih
        cases ps with
        | nil => exact congrArg (c :: ·) ih
        | cons q qs => exact congrArg (c :: ·) ih

/-- Joining two sequences of pieces puts one separator between them. -/
theorem join_append (sep : Char) {ps qs : List (List Char)} (hp : ps ≠ []) (hq : qs ≠ []) :
    join sep (ps ++ qs) = join sep ps ++ sep :: join sep qs := by
  induction ps with
  | nil => exact absurd rfl hp
  | cons p ps ih =>
    cases ps with
    | nil =>
      obtain ⟨q, qs, rfl⟩ := List.exists_cons_of_ne_nil hq
      rfl
    | cons p' ps =>
      show p ++ sep :: join sep (p' :: ps ++ qs) = (p ++ sep :: join sep (p' :: ps)) ++ sep :: join sep qs
      rw [ih (by simp), List.append_assoc, List.cons_append]

/-- Pieces are got back from what they join to. -/
theorem pieces_join {sep : Char} {ps : List (List Char)} (hne : ps ≠ []) (h : ∀ p ∈ ps, sep ∉ p) :
    pieces sep (join sep ps) = ps := by
  induction ps with
  | nil => exact absurd rfl hne
  | cons p ps ih =>
    have hp : pieces sep p = [p] := pieces_of_not_mem (h p (by simp))
    cases ps with
    | nil => exact hp
    | cons p' ps =>
      show pieces sep (p ++ sep :: join sep (p' :: ps)) = p :: p' :: ps
      rw [pieces_append_cons, hp, ih (by simp) fun q hq => h q (by simp [hq])]
      rfl

/-- Another separator is put between the pieces where characters are replaced. -/
theorem map_join (sep : Char) (f : Char → Char) (ps : List (List Char)) :
    (join sep ps).map f = join (f sep) (ps.map (·.map f)) := by
  induction ps with
  | nil => rfl
  | cons p ps ih =>
    cases ps with
    | nil => rfl
    | cons p' ps =>
      show (p ++ sep :: join sep (p' :: ps)).map f = _
      rw [List.map_append, List.map_cons, ih]
      rfl

/-- No piece contains the separator. -/
theorem not_mem_of_mem_pieces {sep : Char} {cs p : List Char} (h : p ∈ pieces sep cs) :
    sep ∉ p := by
  induction cs generalizing p with
  | nil => simp [pieces] at h; simp [h]
  | cons c rest ih =>
    simp only [pieces] at h
    split at h
    · rcases List.mem_cons.mp h with rfl | h
      · simp
      · exact ih h
    · next hc =>
      split at h
      · next hp => exact absurd hp (pieces_ne_nil sep rest)
      · next q qs hp =>
        rcases List.mem_cons.mp h with rfl | h
        · have hq := ih (p := q) (by simp [hp])
          simp [Ne.symm hc, hq]
        · exact ih (by simp [hp, h])

end TableVault
