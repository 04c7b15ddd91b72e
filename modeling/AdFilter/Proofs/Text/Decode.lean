import AdFilter.Text.Utf8

/-!
# Decoding line by line

The byte of a line feed stands for a line feed wherever it comes up, and nothing else does: a sequence
under way is neither continued by a byte of ASCII nor does it give a character of ASCII (`IsOpen`). So
bytes may be cut behind a line feed before they are decoded or after (`decodeLossy_append_newline`).
-/

namespace AdFilter.Text

namespace Utf8

/-- What holds of every sequence under way: its next byte is not in ASCII, and neither is the character
that it will give. -/
structure Pending.IsOpen (p : Pending) : Prop where
  low : 0x80 ≤ p.low.toNat
  high : p.high.toNat ≤ 0xBF
  bits : 2 ≤ p.bits ∨ 2 ≤ p.owed ∧ (1 ≤ p.bits ∨ 0x90 ≤ p.low.toNat)

theorem isOpen_of_lead {b : UInt8} {p : Pending} (h : lead b = some p) : p.IsOpen := by
  simp only [lead, Bool.and_eq_true, decide_eq_true_eq, beq_iff_eq] at h
  repeat' split at h
  all_goals cases h
  all_goals refine ⟨by simp, by simp, ?_⟩
  all_goals simp <;> omega

theorem isOpen_of_start {b : UInt8} {p : Pending} (h : (start b).2 = some p) : p.IsOpen := by
  unfold start at h
  split at h
  · cases h
  · cases hb : lead b with
    | none => simp [hb] at h
    | some q =>
      simp only [hb, Option.some.injEq] at h
      exact h ▸ isOpen_of_lead hb

theorem start_newline : start 10 = ([some '\n'], none) := by
  decide

theorem eq_of_ofNat_eq_newline {n : Nat} (h : Char.ofNat n = '\n') : n = 10 := by
  unfold Char.ofNat at h
  by_cases hn : n.isValidChar
  · rw [dif_pos hn] at h
    exact congrArg Char.toNat h
  · rw [dif_neg hn] at h
    cases h

theorem eq_of_newline_mem_start {b : UInt8} (h : some '\n' ∈ (start b).1) : b = 10 := by
  unfold start at h
  split at h
  · have hchar : Char.ofNat b.toNat = '\n' := by simpa [eq_comm] using h
    exact UInt8.toNat_inj.1 (eq_of_ofNat_eq_newline hchar)
  · split at h <;> simp at h

/-! ## One byte -/

section
variable {p : Pending} {b : UInt8}

def Pending.bitsWith (p : Pending) (b : UInt8) : Nat :=
  p.bits * 64 + b.toNat % 64

theorem step_of_continues (h : p.low ≤ b ∧ b ≤ p.high) :
    step (some p) b =
      if p.owed ≤ 1 then ([some (Char.ofNat (p.bitsWith b))], none)
      else ([], some { bits := p.bitsWith b, owed := p.owed - 1 }) := by
  rw [step, if_pos (by simpa using h)]
  rfl

theorem step_of_ends (h : ¬(p.low ≤ b ∧ b ≤ p.high)) :
    step (some p) b = (none :: (start b).1, (start b).2) := by
  rw [step, if_neg (by simpa using h)]

theorem Pending.IsOpen.two_le_bitsWith (hp : p.IsOpen) (h : p.low ≤ b ∧ b ≤ p.high) :
    2 ≤ p.bitsWith b := by
  have hlow := UInt8.le_iff_toNat_le.1 h.1
  have hhigh := UInt8.le_iff_toNat_le.1 h.2
  have := hp.high
  unfold bitsWith
  rcases hp.bits with hbits | ⟨-, hbits | hbits⟩ <;> omega

theorem Pending.IsOpen.not_newline (hp : p.IsOpen) : ¬(p.low ≤ 10 ∧ 10 ≤ p.high) := by
  intro h
  have hlow := UInt8.le_iff_toNat_le.1 h.1
  have : (10 : UInt8).toNat = 10 := rfl
  have := hp.low
  omega

end

section
variable {s : Option Pending} (hs : ∀ p ∈ s, p.IsOpen)
include hs

theorem isOpen_step (b : UInt8) : ∀ p ∈ (step s b).2, p.IsOpen := by
  intro q hq
  cases s with
  | none => exact isOpen_of_start hq
  | some p =>
    have hp := hs p rfl
    by_cases hb : p.low ≤ b ∧ b ≤ p.high
    · rw [step_of_continues hb] at hq
      split at hq
      · cases hq
      · cases hq
        exact ⟨by simp, by simp, .inl (hp.two_le_bitsWith hb)⟩
    · rw [step_of_ends hb] at hq
      exact isOpen_of_start hq

/-- A line feed ends what is under way. -/
theorem step_newline : step s 10 = (run s [] ++ [some '\n'], none) := by
  cases s with
  | none => exact start_newline
  | some p =>
    rw [step_of_ends (hs p rfl).not_newline, start_newline]
    rfl

theorem eq_of_newline_mem_step {b : UInt8} (h : some '\n' ∈ (step s b).1) : b = 10 := by
  cases s with
  | none => exact eq_of_newline_mem_start h
  | some p =>
    have hp := hs p rfl
    by_cases hb : p.low ≤ b ∧ b ≤ p.high
    · rw [step_of_continues hb] at h
      split at h
      · next howed =>
        have hchar : Char.ofNat (p.bitsWith b) = '\n' := by simpa [eq_comm] using h
        have hten := eq_of_ofNat_eq_newline hchar
        have hbits := hp.bits
        unfold Pending.bitsWith at hten
        omega
      · simp at h
    · rw [step_of_ends hb] at h
      exact eq_of_newline_mem_start (by simpa using h)

/-! ## Runs -/

theorem run_append_newline (a b : List UInt8) :
    run s (a ++ 10 :: b) = run s a ++ some '\n' :: run none b := by
  induction a generalizing s with
  | nil =>
    rw [List.nil_append, run, step_newline hs, List.append_assoc]
    rfl
  | cons c a ih =>
    rw [List.cons_append, run, run, ih (isOpen_step hs c), List.append_assoc]

theorem newline_mem_of_mem_run {bs : List UInt8} (h : some '\n' ∈ run s bs) : 10 ∈ bs := by
  induction bs generalizing s with
  | nil => cases s <;> simp [run] at h
  | cons b bs ih =>
    rw [run, List.mem_append] at h
    rcases h with h | h
    · exact eq_of_newline_mem_step hs h ▸ List.mem_cons_self
    · exact List.mem_cons_of_mem b (ih (isOpen_step hs b) h)

end

/-- A byte that gives nothing yet has a sequence under way. -/
theorem step_next_ne_none {s : Option Pending} {b : UInt8} (h : (step s b).1 = []) :
    (step s b).2 ≠ none := by
  cases s with
  | none =>
    rw [step, start] at h ⊢
    split
    · next hb => simp [hb] at h
    · next hb => cases hlead : lead b <;> simp [hb, hlead] at h ⊢
  | some p =>
    by_cases hb : p.low ≤ b ∧ b ≤ p.high
    · rw [step_of_continues hb] at h ⊢
      split <;> simp_all
    · rw [step_of_ends hb] at h
      cases h

theorem run_ne_nil {s : Option Pending} {bs : List UInt8} (h : s ≠ none ∨ bs ≠ []) :
    run s bs ≠ [] := by
  induction bs generalizing s with
  | nil => cases s <;> simp [run] at h ⊢
  | cons b bs ih =>
    rw [run]
    intro hnil
    obtain ⟨hread, hrest⟩ := List.append_eq_nil_iff.1 hnil
    exact ih (.inl (step_next_ne_none hread)) hrest

end Utf8

open Utf8

theorem decodeLossy_append_newline (a b : List UInt8) :
    decodeLossy (a ++ 10 :: b) = decodeLossy a ++ '\n' :: decodeLossy b := by
  have hrun := run_append_newline (s := none) (by simp) a b
  simp [decodeLossy, decode, hrun]

theorem newline_not_mem_decodeLossy {bs : List UInt8} (h : 10 ∉ bs) : '\n' ∉ decodeLossy bs := by
  intro hmem
  obtain ⟨piece, hpiece, hchar⟩ := List.mem_map.1 hmem
  cases piece with
  | none => simp at hchar
  | some c =>
    obtain rfl : c = '\n' := hchar
    exact h (newline_mem_of_mem_run (s := none) (by simp) hpiece)

theorem decodeLossy_eq_nil_iff {bs : List UInt8} : decodeLossy bs = [] ↔ bs = [] := by
  rw [decodeLossy, List.map_eq_nil_iff, decode]
  constructor
  · exact fun h => Classical.not_not.1 fun hne => run_ne_nil (.inr hne) h
  · rintro rfl
    rfl

end AdFilter.Text
