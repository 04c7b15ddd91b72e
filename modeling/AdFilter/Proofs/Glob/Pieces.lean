import AdFilter.Glob.Meaning

/-!
# The pieces of a pattern, place by place

The piece at a place depends on the place, the length of the pattern and its first character
(`getElem?_pieces`). There is one piece for each character.
-/

namespace AdFilter.Glob

/-- The piece that a character stands for at place `i`. -/
def pieceAt (pattern : List Char) (i : Nat) (c : Char) : Piece :=
  if c = '|' ∧ i = 1 ∧ pattern.head? = some '|' then .hostBar (i + 1 == pattern.length)
  else piece (i == 0) (i + 1 == pattern.length) c

theorem isEmpty_eq_beq_length (rest : List Char) (n : Nat) :
    rest.isEmpty = (n == rest.length + n) := by
  cases rest <;> simp

theorem getElem?_laterPieces (chars : List Char) (i : Nat) :
    (laterPieces chars)[i]? = chars[i]?.map (piece false (i + 1 == chars.length)) := by
  induction chars generalizing i with
  | nil => simp [laterPieces]
  | cons c rest ih =>
    cases i with
    | zero =>
      have hlast : rest.isEmpty = (0 + 1 == (c :: rest).length) := isEmpty_eq_beq_length rest 1
      simp [laterPieces, hlast]
    | succ i =>
      have hlast : (i + 1 == rest.length) = (i + 1 + 1 == (c :: rest).length) := by simp
      rw [laterPieces, List.getElem?_cons_succ, ih, List.getElem?_cons_succ, hlast]

/-- A bar at the second place is an ordinary one, unless there is one before it. -/
theorem pieceAt_cons_succ {c d : Char} {rest : List Char} {i : Nat}
    (hbars : ∀ tail, c = '|' → rest = '|' :: tail → False) (hd : rest[i]? = some d) :
    pieceAt (c :: rest) (i + 1) d = piece false (i + 1 + 1 == (c :: rest).length) d := by
  have hhost : ¬(d = '|' ∧ i + 1 = 1 ∧ (c :: rest).head? = some '|') := by
    rintro ⟨rfl, hi, hc⟩
    obtain rfl : i = 0 := by omega
    obtain ⟨tail, rfl⟩ : ∃ tail, rest = '|' :: tail := by
      cases rest with
      | nil => simp at hd
      | cons e tail => exact ⟨tail, by simpa using hd⟩
    exact hbars tail (Option.some.inj hc) rfl
  rw [pieceAt, if_neg hhost]
  rfl

theorem getElem?_pieces (chars : List Char) (i : Nat) :
    (pieces chars)[i]? = chars[i]?.map (pieceAt chars i) := by
  unfold pieces
  split
  · simp
  · rename_i rest
    -- both bars are read at once, and behind them the places are counted from two on
    match i with
    | 0 => simp [pieceAt, piece]
    | 1 =>
      have hlast : rest.isEmpty = (1 + 1 == ('|' :: '|' :: rest).length) :=
        isEmpty_eq_beq_length rest 2
      simp [pieceAt, hlast]
    | i + 2 =>
      rw [List.getElem?_cons_succ, List.getElem?_cons_succ, getElem?_laterPieces,
        List.getElem?_cons_succ, List.getElem?_cons_succ]
      cases rest[i]? with
      | none => rfl
      | some c => simp [pieceAt]
  · rename_i c rest hbars
    match i with
    | 0 =>
      have hlast : rest.isEmpty = (0 + 1 == (c :: rest).length) := isEmpty_eq_beq_length rest 1
      simp [pieceAt, hlast]
    | i + 1 =>
      rw [List.getElem?_cons_succ, getElem?_laterPieces, List.getElem?_cons_succ]
      cases hd : rest[i]? with
      | none => rfl
      | some d =>
        rw [Option.map_some, Option.map_some, pieceAt_cons_succ hbars hd]
        simp

theorem length_pieces (chars : List Char) : (pieces chars).length = chars.length := by
  apply Nat.le_antisymm
  · apply List.getElem?_eq_none_iff.1
    simp [getElem?_pieces]
  · apply List.getElem?_eq_none_iff.1
    have h := getElem?_pieces chars (pieces chars).length
    rw [List.getElem?_eq_none (Nat.le_refl _)] at h
    exact Option.map_eq_none_iff.1 h.symm

theorem pieces_eq_zipIdx (pattern : List Char) :
    pieces pattern = pattern.zipIdx.map fun place => pieceAt pattern place.2 place.1 := by
  apply List.ext_getElem?
  intro i
  rw [getElem?_pieces, List.getElem?_map, List.getElem?_zipIdx, Option.map_map, Nat.zero_add]
  rfl

end AdFilter.Glob
