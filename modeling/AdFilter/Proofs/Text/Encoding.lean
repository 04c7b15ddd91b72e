import AdFilter.Proofs.Text.CaseFold
import AdFilter.Proofs.Text.Decode
import AdFilter.Proofs.Text.Utf8
import Mathlib.Algebra.Group.Nat.Defs

/-!
# Bytes that are a text

Decoding reads what encoding writes, and refuses all other bytes (`decode?_eq_some_iff`). A sequence
under way is told by the bytes that complete it (`Completes`): the machine reads a character exactly
where it is completed. These bytes are the digits of a number that starts with the bits so far
(`Pending.Awaits`), and with the first byte they are those of the character.
-/

namespace AdFilter.Text

namespace Utf8

/-- The bytes complete the sequence under way, and the character is what it gives then. -/
inductive Completes : Pending → List UInt8 → Char → Prop where
  | last {p : Pending} {b : UInt8} : p.low ≤ b ∧ b ≤ p.high → p.owed ≤ 1 →
      Completes p [b] (Char.ofNat (p.bitsWith b))
  | more {p : Pending} {b : UInt8} {bs : List UInt8} {c : Char} : p.low ≤ b ∧ b ≤ p.high →
      1 < p.owed → Completes { bits := p.bitsWith b, owed := p.owed - 1 } bs c →
      Completes p (b :: bs) c

/-! ## The machine -/

section
variable {p : Pending} {bs : List UInt8} {c : Char}

theorem run_of_completes (h : Completes p bs c) (rest : List UInt8) :
    run (some p) (bs ++ rest) = some c :: run none rest := by
  induction h with
  | last hbounds howed =>
    rw [List.singleton_append, run, step_of_continues hbounds, if_pos howed]
    rfl
  | more hbounds howed _ ih =>
    rw [List.cons_append, run, step_of_continues hbounds, if_neg (by omega)]
    exact ih

theorem exists_completes (h : none ∉ run (some p) bs) :
    ∃ front rest c, bs = front ++ rest ∧ Completes p front c := by
  induction bs generalizing p with
  | nil => simp [run] at h
  | cons b bs ih =>
    by_cases hbounds : p.low ≤ b ∧ b ≤ p.high
    · by_cases howed : p.owed ≤ 1
      · exact ⟨[b], bs, _, rfl, .last hbounds howed⟩
      · rw [run, step_of_continues hbounds, if_neg howed] at h
        obtain ⟨front, rest, c, rfl, hfront⟩ := ih h
        exact ⟨b :: front, rest, c, rfl, .more hbounds (by omega) hfront⟩
    · simp [run, step_of_ends hbounds] at h

end

/-! ## First bytes -/

/-- A sequence of which only the first byte was read, for each length. The bounds of the second byte are
narrower behind the least and the greatest first byte, and where the surrogates would be. -/
inductive IsLead (n : Nat) (p : Pending) : Prop where
  | two : n = p.bits + 0xC0 → 2 ≤ p.bits → p.bits < 0x20 → p.owed = 1 →
      p.low.toNat = 0x80 → p.high.toNat = 0xBF → IsLead n p
  | three : n = p.bits + 0xE0 → p.bits < 0x10 → p.owed = 2 →
      (p.bits = 0 ∧ p.low.toNat = 0xA0 ∨ p.bits ≠ 0 ∧ p.low.toNat = 0x80) →
      (p.bits = 0xD ∧ p.high.toNat = 0x9F ∨ p.bits ≠ 0xD ∧ p.high.toNat = 0xBF) → IsLead n p
  | four : n = p.bits + 0xF0 → p.bits < 5 → p.owed = 3 →
      (p.bits = 0 ∧ p.low.toNat = 0x90 ∨ p.bits ≠ 0 ∧ p.low.toNat = 0x80) →
      (p.bits = 4 ∧ p.high.toNat = 0x8F ∨ p.bits ≠ 4 ∧ p.high.toNat = 0xBF) → IsLead n p

theorem isLead_of_lead {b : UInt8} {p : Pending} (h : lead b = some p) : IsLead b.toNat p := by
  simp only [lead, Bool.and_eq_true, decide_eq_true_eq, beq_iff_eq] at h
  repeat' split at h
  all_goals cases h
  · exact .two (by simp; omega) (by simp; omega) (by simp; omega) rfl rfl rfl
  · exact .three (by simp; omega) (by simp) rfl (by simp) (by simp)
  · exact .three (by simp; omega) (by simp) rfl (by simp) (by simp)
  · exact .three (by simp; omega) (by simp; omega) rfl (by simp; omega) (by simp; omega)
  · exact .four (by simp; omega) (by simp) rfl (by simp) (by simp)
  · exact .four (by simp; omega) (by simp; omega) rfl (by simp; omega) (by simp; omega)
  · exact .four (by simp; omega) (by simp) rfl (by simp) (by simp)

theorem exists_isLead {b : UInt8} (h : 0xC2 ≤ b.toNat ∧ b.toNat ≤ 0xF4) :
    ∃ p, lead b = some p ∧ IsLead b.toNat p := by
  have hlead : lead b ≠ none := by grind [lead]
  obtain ⟨p, hp⟩ := Option.ne_none_iff_exists'.1 hlead
  exact ⟨p, hp, isLead_of_lead hp⟩

/-! ## The bytes of a character -/

/-- The last `k` digits of a number to the base 64, each in a byte that continues a sequence. -/
def continuation (n : Nat) : Nat → List UInt8
  | 0 => []
  | k + 1 => UInt8.ofNat (n / 64 ^ k % 64 + 0x80) :: continuation n k

/-- The bytes of a code point are a first byte, which starts at `lead`, and `k` more. -/
inductive IsForm (n : Nat) : (k lead : Nat) → Prop where
  | one : n ≤ 0x7F → IsForm n 0 0
  | two : 0x7F < n → n ≤ 0x7FF → IsForm n 1 0xC0
  | three : 0x7FF < n → n ≤ 0xFFFF → IsForm n 2 0xE0
  | four : 0xFFFF < n → n < 0x110000 → IsForm n 3 0xF0

theorem utf8EncodeChar_ofNat {n : Nat} (h : n.isValidChar) :
    String.utf8EncodeChar (Char.ofNat n) =
      if n ≤ 0x7F then [UInt8.ofNat n]
      else if n ≤ 0x7FF then [UInt8.ofNat (n / 64 % 32 + 0xC0), UInt8.ofNat (n % 64 + 0x80)]
      else if n ≤ 0xFFFF then
        [UInt8.ofNat (n / 4096 % 16 + 0xE0), UInt8.ofNat (n / 64 % 64 + 0x80),
          UInt8.ofNat (n % 64 + 0x80)]
      else
        [UInt8.ofNat (n / 262144 % 8 + 0xF0), UInt8.ofNat (n / 4096 % 64 + 0x80),
          UInt8.ofNat (n / 64 % 64 + 0x80), UInt8.ofNat (n % 64 + 0x80)] := by
  have hval : (Char.ofNat n).val.toNat = n := toNat_ofNat_of_isValidChar h
  unfold String.utf8EncodeChar
  rw [hval]

theorem exists_isForm {n : Nat} (h : n.isValidChar) : ∃ k lead, IsForm n k lead := by
  have hmax : n < 0x110000 := by
    unfold Nat.isValidChar at h
    omega
  rcases Nat.lt_or_ge 0x7F n with h1 | h1
  · rcases Nat.lt_or_ge 0x7FF n with h2 | h2
    · rcases Nat.lt_or_ge 0xFFFF n with h3 | h3
      · exact ⟨3, 0xF0, .four h3 hmax⟩
      · exact ⟨2, 0xE0, .three h2 h3⟩
    · exact ⟨1, 0xC0, .two h1 h2⟩
  · exact ⟨0, 0, .one h1⟩

theorem IsForm.utf8EncodeChar_eq {n k lead : Nat} (h : IsForm n k lead) (hvalid : n.isValidChar) :
    String.utf8EncodeChar (Char.ofNat n) = UInt8.ofNat (lead + n / 64 ^ k) :: continuation n k := by
  rw [utf8EncodeChar_ofNat hvalid]
  cases h with
  | one h => simp [continuation, h]
  | two hmin hmax =>
    have hlead : n / 64 % 32 + 0xC0 = 0xC0 + n / 64 := by omega
    rw [if_neg (by omega), if_pos hmax]
    simp [continuation, hlead]
  | three hmin hmax =>
    have hlead : n / 4096 % 16 + 0xE0 = 0xE0 + n / 4096 := by omega
    rw [if_neg (by omega), if_neg (by omega), if_pos hmax]
    simp [continuation, hlead]
  | four hmin hmax =>
    have hlead : n / 262144 % 8 + 0xF0 = 0xF0 + n / 262144 := by omega
    rw [if_neg (by omega), if_neg (by omega), if_neg (by omega)]
    simp [continuation, hlead]

/-- The sequence under way has the digits of a number before the last `k + 1` ones, and the next one
is within its bounds. -/
structure Pending.Awaits (p : Pending) (n k : Nat) : Prop where
  owed : p.owed = k + 1
  bits : p.bits = n / 64 ^ (k + 1)
  low : p.low.toNat ≤ n / 64 ^ k % 64 + 0x80
  high : n / 64 ^ k % 64 + 0x80 ≤ p.high.toNat

section
variable {p : Pending} {n k : Nat}

theorem Pending.Awaits.continues (h : p.Awaits n k) :
    p.low ≤ UInt8.ofNat (n / 64 ^ k % 64 + 0x80) ∧ UInt8.ofNat (n / 64 ^ k % 64 + 0x80) ≤ p.high := by
  have hlow := h.low
  have hhigh := h.high
  rw [UInt8.le_iff_toNat_le, UInt8.le_iff_toNat_le, UInt8.toNat_ofNat']
  omega

theorem Pending.Awaits.bitsWith_eq (h : p.Awaits n k) :
    p.bitsWith (UInt8.ofNat (n / 64 ^ k % 64 + 0x80)) = n / 64 ^ k := by
  unfold Pending.bitsWith
  rw [h.bits, UInt8.toNat_ofNat', Nat.pow_succ, ← Nat.div_div_eq_div_mul]
  omega

theorem Pending.Awaits.completes (h : p.Awaits n k) :
    Completes p (continuation n (k + 1)) (Char.ofNat n) := by
  induction k generalizing p with
  | zero =>
    have hlast := Completes.last h.continues (Nat.le_of_eq h.owed)
    rw [h.bitsWith_eq, Nat.pow_zero, Nat.div_one] at hlast
    simpa [continuation] using hlast
  | succ k ih =>
    refine .more h.continues (by rw [h.owed]; omega) (ih ?_)
    exact ⟨by rw [h.owed]; rfl, h.bitsWith_eq, by simp, by simp; omega⟩

/-- A byte within the bounds is a digit that the sequence awaits of any number starting like this. -/
theorem awaits_of_bitsWith {b : UInt8} (howed : p.owed = k + 1) (hlow : 0x80 ≤ p.low.toNat)
    (hhigh : p.high.toNat ≤ 0xBF) (hbounds : p.low ≤ b ∧ b ≤ p.high)
    (hbits : p.bitsWith b = n / 64 ^ k) :
    p.Awaits n k ∧ b = UInt8.ofNat (n / 64 ^ k % 64 + 0x80) := by
  rw [UInt8.le_iff_toNat_le, UInt8.le_iff_toNat_le] at hbounds
  unfold Pending.bitsWith at hbits
  have hdigit : n / 64 ^ k % 64 + 0x80 = b.toNat := by omega
  have hfront : p.bits = n / 64 ^ (k + 1) := by
    rw [Nat.pow_succ, ← Nat.div_div_eq_div_mul]
    omega
  rw [hdigit, UInt8.ofNat_toNat]
  exact ⟨⟨howed, hfront, hdigit ▸ hbounds.1, hdigit ▸ hbounds.2⟩, rfl⟩

theorem Completes.exists_awaits {bs : List UInt8} {c : Char} (h : Completes p bs c)
    (howed : p.owed = k + 1) (hlow : 0x80 ≤ p.low.toNat) (hhigh : p.high.toNat ≤ 0xBF) :
    ∃ n, p.Awaits n k ∧ bs = continuation n (k + 1) ∧ c = Char.ofNat n := by
  induction h generalizing k with
  | @last p b hbounds hlast =>
    obtain rfl : k = 0 := by omega
    obtain ⟨hawaits, hb⟩ := awaits_of_bitsWith (n := p.bitsWith b) howed hlow hhigh hbounds (by simp)
    exact ⟨_, hawaits, congrArg ([·]) hb, rfl⟩
  | @more p b _ _ hbounds hmore _ ih =>
    obtain ⟨k, rfl⟩ : ∃ j, k = j + 1 := ⟨k - 1, by omega⟩
    obtain ⟨n, hrest, rfl, rfl⟩ := ih (k := k) (by simp [howed]) (by simp) (by simp)
    obtain ⟨hawaits, hb⟩ := awaits_of_bitsWith howed hlow hhigh hbounds hrest.bits
    exact ⟨n, hawaits, congrArg (· :: continuation n (k + 1)) hb, rfl⟩

/-- The bounds behind a first byte leave the code points that need as many bytes. -/
theorem IsLead.isForm_of_awaits {b : Nat} (hlead : IsLead b p) (h : p.Awaits n k) :
    n.isValidChar ∧ ∃ lead, IsForm n (k + 1) lead ∧ b = lead + n / 64 ^ (k + 1) := by
  obtain ⟨howed, hbits, hlow, hhigh⟩ := h
  unfold Nat.isValidChar
  cases hlead with
  | two hb _ _ hone =>
    obtain rfl : k = 0 := by omega
    exact ⟨by omega, 0xC0, .two (by omega) (by omega), by omega⟩
  | three hb _ htwo =>
    obtain rfl : k = 1 := by omega
    exact ⟨by omega, 0xE0, .three (by omega) (by omega), by omega⟩
  | four hb _ hthree =>
    obtain rfl : k = 2 := by omega
    exact ⟨by omega, 0xF0, .four (by omega) (by omega), by omega⟩

/-- The first byte of a code point awaits the others. -/
theorem IsForm.exists_awaits {first : Nat} (h : IsForm n (k + 1) first) (hvalid : n.isValidChar) :
    ∃ p, lead (UInt8.ofNat (first + n / 64 ^ (k + 1))) = some p ∧ p.Awaits n k := by
  have hbyte : 0xC2 ≤ first + n / 64 ^ (k + 1) ∧ first + n / 64 ^ (k + 1) ≤ 0xF4 := by
    cases h <;> simp <;> omega
  have htoNat : (UInt8.ofNat (first + n / 64 ^ (k + 1))).toNat = first + n / 64 ^ (k + 1) := by
    rw [UInt8.toNat_ofNat']
    omega
  obtain ⟨p, hp, hlead⟩ := exists_isLead (b := UInt8.ofNat (first + n / 64 ^ (k + 1)))
    (by rwa [htoNat])
  rw [htoNat] at hlead
  unfold Nat.isValidChar at hvalid
  refine ⟨p, hp, ?_⟩
  -- another first byte than that of the form is out of the bounds of the code point
  cases h with
  | two hmin hmax =>
    cases hlead with
    | two => exact ⟨by omega, by omega, by omega, by omega⟩
    | three => omega
    | four => omega
  | three hmin hmax =>
    cases hlead with
    | two => omega
    | three => exact ⟨by omega, by omega, by omega, by omega⟩
    | four => omega
  | four hmin hmax =>
    cases hlead with
    | two => omega
    | three => omega
    | four => exact ⟨by omega, by omega, by omega, by omega⟩

end

theorem utf8EncodeChar_of_completes {b : UInt8} {p : Pending} {bs : List UInt8} {c : Char}
    (hlead : IsLead b.toNat p) (h : Completes p bs c) : String.utf8EncodeChar c = b :: bs := by
  have howed : ∃ k, p.owed = k + 1 := by
    cases hlead with
    | two _ _ _ howed => exact ⟨0, howed⟩
    | three _ _ howed => exact ⟨1, howed⟩
    | four _ _ howed => exact ⟨2, howed⟩
  obtain ⟨k, howed⟩ := howed
  obtain ⟨n, hawaits, rfl, rfl⟩ := h.exists_awaits howed (by cases hlead <;> omega)
    (by cases hlead <;> omega)
  obtain ⟨hvalid, first, hform, hb⟩ := hlead.isForm_of_awaits hawaits
  rw [hform.utf8EncodeChar_eq hvalid, ← hb, UInt8.ofNat_toNat]

/-- The bytes of a character outside ASCII are a first byte and what completes it. -/
theorem exists_lead_of_utf8EncodeChar {n : Nat} (hvalid : n.isValidChar) (h : 0x7F < n) :
    ∃ b p bs, String.utf8EncodeChar (Char.ofNat n) = b :: bs ∧ lead b = some p ∧
      Completes p bs (Char.ofNat n) := by
  obtain ⟨k, first, hform⟩ := exists_isForm hvalid
  cases k with
  | zero => cases hform; omega
  | succ k =>
    obtain ⟨p, hp, hawaits⟩ := hform.exists_awaits hvalid
    exact ⟨_, p, _, hform.utf8EncodeChar_eq hvalid, hp, hawaits.completes⟩

/-! ## Texts -/

theorem lt_iff {b : UInt8} : b < 0x80 ↔ b.toNat ≤ 0x7F := by
  rw [UInt8.lt_iff_toNat_lt]
  exact Nat.lt_succ_iff

theorem step_of_lt {b : UInt8} (h : b < 0x80) : step none b = ([some (Char.ofNat b.toNat)], none) := by
  rw [step, start, if_pos h]

theorem utf8EncodeChar_of_lt {b : UInt8} (h : b < 0x80) :
    String.utf8EncodeChar (Char.ofNat b.toNat) = [b] := by
  have hb := lt_iff.1 h
  rw [utf8EncodeChar_ofNat (.inl (by omega)), if_pos hb, UInt8.ofNat_toNat]

theorem step_of_lead {b : UInt8} {p : Pending} (h : lead b = some p) : step none b = ([], some p) := by
  have hb : ¬b < 0x80 := by
    rw [lt_iff]
    cases isLead_of_lead h <;> omega
  rw [step, start, if_neg hb, h]

theorem run_utf8EncodeChar (c : Char) (rest : List UInt8) :
    run none (String.utf8EncodeChar c ++ rest) = some c :: run none rest := by
  obtain ⟨n, hvalid, rfl⟩ : ∃ n : Nat, n.isValidChar ∧ Char.ofNat n = c :=
    ⟨c.toNat, c.valid, Char.ofNat_toNat c⟩
  by_cases hn : n ≤ 0x7F
  · obtain ⟨b, rfl⟩ : ∃ b : UInt8, b.toNat = n :=
      ⟨UInt8.ofNat n, by rw [UInt8.toNat_ofNat']; omega⟩
    rw [utf8EncodeChar_of_lt (lt_iff.2 hn), List.singleton_append, run, step_of_lt (lt_iff.2 hn)]
    rfl
  · obtain ⟨b, p, bs, hencode, hlead, hcompletes⟩ :=
      exists_lead_of_utf8EncodeChar hvalid (Nat.lt_of_not_le hn)
    rw [hencode, List.cons_append, run, step_of_lead hlead]
    exact run_of_completes hcompletes rest

/-- Where the bytes do not give a piece that is no character, they start with a character. -/
theorem exists_utf8EncodeChar_of_run {b : UInt8} {bs : List UInt8} (h : none ∉ run none (b :: bs)) :
    ∃ c rest, b :: bs = String.utf8EncodeChar c ++ rest := by
  by_cases hb : b < 0x80
  · exact ⟨Char.ofNat b.toNat, bs, by rw [utf8EncodeChar_of_lt hb, List.singleton_append]⟩
  · cases hlead : lead b with
    | none => simp [run, step, start, hb, hlead] at h
    | some p =>
      rw [run, step_of_lead hlead] at h
      obtain ⟨front, rest, c, rfl, hfront⟩ := exists_completes h
      refine ⟨c, rest, ?_⟩
      rw [utf8EncodeChar_of_completes (isLead_of_lead hlead) hfront, List.cons_append]

end Utf8

open Utf8

theorem decode_utf8 (s : List Char) : decode (utf8 s) = s.map some := by
  induction s with
  | nil => rfl
  | cons c s ih => rw [decode, utf8_cons, run_utf8EncodeChar, ← decode, ih, List.map_cons]

/-- Bytes that give nothing but characters are those of a text. -/
theorem exists_utf8_of_decode {bs : List UInt8} (h : none ∉ decode bs) : ∃ s, bs = utf8 s := by
  cases bs with
  | nil => exact ⟨[], rfl⟩
  | cons b bs =>
    obtain ⟨c, rest, hbytes⟩ := exists_utf8EncodeChar_of_run h
    have hlength : rest.length < (b :: bs).length := by
      have := String.length_utf8EncodeChar c
      have := c.utf8Size_pos
      rw [hbytes, List.length_append]
      omega
    rw [hbytes, decode, run_utf8EncodeChar] at h
    obtain ⟨s, rfl⟩ := exists_utf8_of_decode (List.not_mem_of_not_mem_cons h)
    exact ⟨c :: s, by rw [hbytes, utf8_cons]⟩
termination_by bs.length

theorem decode?_eq_some_iff_decode {bs : List UInt8} {s : List Char} :
    decode? bs = some s ↔ decode bs = s.map some := by
  rw [decode?]
  induction decode bs generalizing s with
  | nil => cases s <;> simp
  | cons piece pieces ih =>
    cases s with
    | nil => simp [Option.bind_eq_some_iff]
    | cons c s => simp [Option.bind_eq_some_iff, ih]

/-- The decoder accepts what the encoder writes, and nothing else. -/
theorem decode?_eq_some_iff {bs : List UInt8} {s : List Char} : decode? bs = some s ↔ bs = utf8 s := by
  rw [decode?_eq_some_iff_decode]
  constructor
  · intro h
    obtain ⟨t, rfl⟩ : ∃ t, bs = utf8 t := exists_utf8_of_decode (by simp [h])
    rw [decode_utf8] at h
    rw [(List.map_inj_right fun _ _ => Option.some.inj).1 h]
  · rintro rfl
    exact decode_utf8 s

theorem decode?_eq_none_iff {bs : List UInt8} : decode? bs = none ↔ ∀ s, bs ≠ utf8 s := by
  simp only [Option.eq_none_iff_forall_ne_some, ne_eq, decode?_eq_some_iff]

/-- The byte of a line feed stands for nothing else. -/
theorem newline_mem_utf8_iff {s : List Char} : 10 ∈ utf8 s ↔ '\n' ∈ s := by
  constructor
  · intro h
    obtain ⟨before, after, hbytes⟩ := List.append_of_mem h
    have hrun := run_append_newline (s := none) (by simp) before after
    rw [← hbytes, ← decode, decode_utf8] at hrun
    have hmem : some '\n' ∈ s.map some := by simp [hrun]
    simpa using hmem
  · exact fun h => List.mem_flatMap.2 ⟨'\n', h, by decide⟩

end AdFilter.Text
