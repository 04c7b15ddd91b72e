import AdFilter.Proofs.Glob.Keyword
import AdFilter.Proofs.Text.CaseFold
import AdFilter.Proofs.Text.Encoding
import Mathlib.Data.List.Induction
import Mathlib.Data.List.TakeWhile

/-!
# The first longest run

The runs of a pattern are the parts of it that hold keyword characters only and cannot be made longer
(`IsRun`). The keyword is the first of the longest ones. The search over bytes knows the best of the
runs that it has passed and where the run under way starts (`Sees`), so it ends with the range of the
keyword (`exists_keywordRange_eq`).
-/

namespace AdFilter.Glob

open Text (utf8)

/-! ## Runs -/

/-- No run reaches the end of the text. -/
def IsClosed (text : List Char) : Prop :=
  ∀ c ∈ text.getLast?, isKeywordChar c = false

/-- The run stands in the text, and no keyword character stands next to it. -/
structure IsRun (text before run after : List Char) : Prop where
  text_eq : text = before ++ run ++ after
  ne_nil : run ≠ []
  keyword : ∀ c ∈ run, isKeywordChar c = true
  left : IsClosed before
  right : ∀ c ∈ after.head?, isKeywordChar c = false

/-- The run is the first of the longest ones in a text, or it is empty because all runs are short. -/
structure IsBest (text before best : List Char) : Prop where
  isRun : best = [] ∧ before = [] ∨
    minKeywordLength ≤ best.length ∧ ∃ after, IsRun text before best after
  longest : ∀ {before' run after}, IsRun text before' run after → minKeywordLength ≤ run.length →
    run.length ≤ best.length ∧ (run.length = best.length → before.length ≤ before'.length)

theorem isBest_nil : IsBest [] [] [] where
  isRun := .inl ⟨rfl, rfl⟩
  longest h := absurd h.text_eq.symm (by simp [h.ne_nil])

section
variable {front run rest before best after : List Char}

theorem IsClosed.ne_append (h : IsClosed front) (hne : run ≠ [])
    (hrun : ∀ c ∈ run, isKeywordChar c = true) (s : List Char) : front ≠ s ++ run := by
  rintro rfl
  have hlast := h (run.getLast hne)
    (by rw [List.getLast?_append_of_ne_nil _ hne, List.getLast?_eq_some_getLast hne]; rfl)
  rw [hrun _ (List.getLast_mem hne)] at hlast
  cases hlast

/-- Nothing makes a run of a text longer if no run reaches the end. -/
theorem IsRun.append (h : IsRun front before best after) (hfront : IsClosed front)
    (t : List Char) : IsRun (front ++ t) before best (after ++ t) where
  text_eq := by rw [h.text_eq, List.append_assoc]
  ne_nil := h.ne_nil
  keyword := h.keyword
  left := h.left
  right := by
    cases after with
    | nil =>
      have htext := h.text_eq
      rw [List.append_nil] at htext
      exact absurd htext (hfront.ne_append h.ne_nil h.keyword before)
    | cons c after => exact h.right

theorem exists_isClosed_append (s : List Char) : ∃ front run, s = front ++ run ∧
    IsClosed front ∧ ∀ c ∈ run, isKeywordChar c = true := by
  induction s using List.reverseRecOn with
  | nil => exact ⟨[], [], rfl, nofun, nofun⟩
  | append_singleton s c ih =>
    cases hc : isKeywordChar c with
    | true =>
      obtain ⟨front, run, rfl, hfront, hrun⟩ := ih
      refine ⟨front, run ++ [c], List.append_assoc _ _ _, hfront, ?_⟩
      simpa [or_imp, forall_and, hc] using hrun
    | false => exact ⟨s ++ [c], [], by simp, by simpa [IsClosed] using hc, nofun⟩

theorem exists_isRun_of_infix {text part : List Char} (h : part <:+: text) (hne : part ≠ [])
    (hpart : ∀ c ∈ part, isKeywordChar c = true) :
    ∃ before run after, IsRun text before run after ∧ part.length ≤ run.length := by
  obtain ⟨left, right, rfl⟩ := h
  obtain ⟨before, lead, rfl, hbefore, hlead⟩ := exists_isClosed_append left
  refine ⟨before, lead ++ part ++ right.takeWhile isKeywordChar, right.dropWhile isKeywordChar,
    ⟨by simp, by simp [hne], ?_, hbefore, Text.head?_dropWhile_eq_false right⟩, ?_⟩
  · intro c hc
    rcases List.mem_append.1 hc with hc | hc
    · rcases List.mem_append.1 hc with hc | hc
      · exact hlead c hc
      · exact hpart c hc
    · exact List.mem_takeWhile_imp hc
  · simp
    omega

theorem foldl_betterKeyword_of_nil {runs : List (List Char)} (h : ∀ run ∈ runs, run = []) :
    runs.foldl betterKeyword best = best := by
  induction runs with
  | nil => rfl
  | cons run runs ih =>
    obtain ⟨rfl, hrest⟩ := List.forall_mem_cons.1 h
    exact ih hrest

theorem keywordChars_append_of_not (hrest : ∀ c ∈ rest, isKeywordChar c = false) (s : List Char) :
    keywordChars (s ++ rest) = keywordChars s := by
  cases rest with
  | nil => rw [List.append_nil]
  | cons c rest =>
    have hruns : keywordRuns (s ++ c :: rest) = keywordRuns s ++ keywordRuns rest :=
      Text.split_append_cons (by simp [hrest c]) s rest
    rw [keywordChars, hruns, List.foldl_append]
    refine foldl_betterKeyword_of_nil fun run hrun => List.eq_nil_iff_forall_not_mem.2 fun d hd => ?_
    have hnot := hrest d (List.mem_cons_of_mem _ ((Text.infix_of_mem_split hrun).subset hd))
    simpa [hnot] using Text.not_of_mem_split hrun hd

/-! ## One more run -/

section
variable (hfront : IsClosed front) (hrun : ∀ c ∈ run, isKeywordChar c = true)
  (hrest : ∀ c ∈ rest, isKeywordChar c = false)

include hfront hrun hrest

/-- The runs of a text are those of a first part that no run reaches the end of, and the one behind
this part. -/
theorem IsRun.of_append (h : IsRun (front ++ run ++ rest) before best after) :
    (∃ after', IsRun front before best after') ∨ before = front ∧ best = run := by
  have hbehind : best ++ after = run ++ rest → best = run := fun hsame =>
    (Text.run_unique (p := (isKeywordChar · = true)) h.keyword hrun
      (fun c hc => by simp [h.right c hc])
      (fun c hc => by simp [hrest c (List.mem_of_head? hc)]) hsame).1
  have htext := h.text_eq
  rw [List.append_assoc, List.append_assoc, List.append_eq_append_iff] at htext
  -- a run that starts in the first part ends there, since the part does not end in a run
  rcases htext with ⟨m, hbefore, hsame⟩ | ⟨m, hm, hsame⟩
  · by_cases hnil : m = []
    · subst hnil
      rw [List.append_nil] at hbefore
      exact .inr ⟨hbefore, hbehind hsame.symm⟩
    · -- the run would start behind its own characters, or in characters that are none
      rcases List.append_eq_append_iff.1 hsame with ⟨k, rfl, hk⟩ | ⟨k, rfl, -⟩
      · obtain ⟨c, hc⟩ := List.exists_mem_of_ne_nil _ h.ne_nil
        have hnot := hrest c (by rw [hk]; simp [hc])
        rw [h.keyword c hc] at hnot
        cases hnot
      · exact absurd hbefore (h.left.ne_append hnil (fun c hc => hrun c (by simp [hc])) front)
  · by_cases hnil : m = []
    · subst hnil
      rw [List.append_nil] at hm
      exact .inr ⟨hm.symm, hbehind hsame⟩
    · rcases List.append_eq_append_iff.1 hsame with ⟨k, rfl, hk⟩ | ⟨k, rfl, -⟩
      · refine .inl ⟨k, by rw [hm, List.append_assoc], h.ne_nil, h.keyword, h.left, fun c hc => ?_⟩
        exact h.right c (by rw [hk, List.head?_append, Option.mem_def.1 hc]; rfl)
      · exact absurd hm (hfront.ne_append hnil (fun c hc => h.keyword c (by simp [hc])) before)

theorem IsBest.append_of_better (h : IsBest front before best)
    (hlength : minKeywordLength ≤ run.length) (hbetter : best.length < run.length) :
    IsBest (front ++ run ++ rest) front run where
  isRun := .inr ⟨hlength, rest, rfl, List.ne_nil_of_length_pos (by omega), hrun, hfront,
    fun c hc => hrest c (List.mem_of_head? hc)⟩
  longest {before' run' after'} hrun' hlong := by
    rcases hrun'.of_append hfront hrun hrest with ⟨_, hrun'⟩ | ⟨rfl, rfl⟩
    · have hle := (h.longest hrun' hlong).1
      exact ⟨by omega, by omega⟩
    · exact ⟨Nat.le_refl _, fun _ => Nat.le_refl _⟩

theorem IsBest.append_of_not_better (h : IsBest front before best)
    (hnot : ¬(minKeywordLength ≤ run.length ∧ best.length < run.length)) :
    IsBest (front ++ run ++ rest) before best where
  isRun := by
    rcases h.isRun with hnone | ⟨hlength, after, hbest⟩
    · exact .inl hnone
    · have hmore := hbest.append hfront (run ++ rest)
      rw [← List.append_assoc] at hmore
      exact .inr ⟨hlength, _, hmore⟩
  longest {before' run' after'} hrun' hlong := by
    rcases hrun'.of_append hfront hrun hrest with ⟨_, hrun'⟩ | ⟨rfl, rfl⟩
    · exact h.longest hrun' hlong
    · -- of two runs of the same length, the one that was there before is the first
      have hplace : before.length ≤ before'.length := by
        rcases h.isRun with ⟨-, rfl⟩ | ⟨-, after, hbest⟩
        · exact Nat.zero_le _
        · rw [hbest.text_eq]
          simp
      exact ⟨by omega, fun _ => hplace⟩

/-- The run behind a part that no run reaches the end of is compared with the keyword of this part. -/
theorem keywordChars_append :
    keywordChars (front ++ run ++ rest) = betterKeyword (keywordChars front) run := by
  have hone : keywordRuns run = [run] :=
    Text.split_eq_singleton fun c hc => by simp [hrun c hc]
  rw [keywordChars_append_of_not hrest]
  rcases List.eq_nil_or_concat front with rfl | ⟨front, c, rfl⟩
  · rw [List.nil_append, keywordChars, hone]
    rfl
  · rw [List.concat_eq_append] at hfront ⊢
    have hc : isKeywordChar c = false := hfront c (by simp)
    have hruns : keywordRuns (front ++ [c] ++ run) = keywordRuns front ++ [run] := by
      rw [← hone, List.append_assoc]
      exact Text.split_append_cons (by simp [hc]) front run
    rw [keywordChars, hruns, List.foldl_append, keywordChars_append_of_not (by simpa using hc)]
    rfl

end

end

/-! ## Bytes -/

theorem isKeywordChar_ascii {c : Char} (h : isKeywordChar c = true) : c.toNat < 0x80 := by
  simp only [isKeywordChar, Bool.or_eq_true, beq_iff_eq] at h
  rcases h with (h | rfl) | rfl
  · exact Text.isAlphanum_ascii h
  · decide
  · decide

theorem utf8EncodeChar_of_isKeywordByte {b : UInt8} (h : isKeywordByte b = true) :
    String.utf8EncodeChar (Char.ofNat b.toNat) = [b] := by
  have hvalid : b.toNat.isValidChar := .inl (by have := b.toNat_lt; omega)
  have hascii := isKeywordChar_ascii h
  rw [Text.toNat_ofNat_of_isValidChar hvalid] at hascii
  exact Text.Utf8.utf8EncodeChar_of_lt (Text.Utf8.lt_iff.2 (by omega))

theorem exists_utf8EncodeChar_eq {c : Char} (h : isKeywordChar c = true) :
    ∃ b, String.utf8EncodeChar c = [b] ∧ isKeywordByte b = true := by
  have hchar : Char.ofNat (UInt8.ofNat c.toNat).toNat = c := by
    have hascii := isKeywordChar_ascii h
    rw [UInt8.toNat_ofNat', Nat.mod_eq_of_lt (by omega), Char.ofNat_toNat]
  have hbyte : isKeywordByte (UInt8.ofNat c.toNat) = true := by rwa [isKeywordByte, hchar]
  exact ⟨_, by rw [← utf8EncodeChar_of_isKeywordByte hbyte, hchar], hbyte⟩

/-- No byte of another character is a keyword character, as that would stand in the other one. -/
theorem isKeywordByte_of_not {c : Char} (h : isKeywordChar c = false) :
    ∀ b ∈ String.utf8EncodeChar c, isKeywordByte b = false := by
  intro b hb
  rw [← Bool.not_eq_true]
  intro hbyte
  have hinfix : utf8 [Char.ofNat b.toNat] <:+: utf8 [c] := by
    obtain ⟨left, right, hbytes⟩ := List.append_of_mem hb
    rw [Text.utf8_cons, Text.utf8_cons, utf8EncodeChar_of_isKeywordByte hbyte, hbytes]
    exact ⟨left, right, by simp⟩
  have hsame : Char.ofNat b.toNat = c := by
    simpa using (Text.utf8_infix_iff.1 hinfix).subset List.mem_cons_self
  rw [isKeywordByte, hsame, h] at hbyte
  cases hbyte

theorem length_utf8_of_keyword {run : List Char} (h : ∀ c ∈ run, isKeywordChar c = true) :
    (utf8 run).length = run.length := by
  induction run with
  | nil => rfl
  | cons c run ih =>
    obtain ⟨hc, hrun⟩ := List.forall_mem_cons.1 h
    obtain ⟨b, hb, -⟩ := exists_utf8EncodeChar_eq hc
    rw [Text.utf8_cons, hb, List.length_append, ih hrun, List.length_singleton, List.length_cons]
    exact Nat.add_comm 1 _

/-! ## The search -/

/-- The bytes of a word in a text, from the first one to the one behind them. -/
def rangeOf (before word : List Char) : Nat × Nat :=
  ((utf8 before).length, (utf8 (before ++ word)).length)

theorem length_rangeOf {before word : List Char} (h : ∀ c ∈ word, isKeywordChar c = true) :
    (rangeOf before word).2 - (rangeOf before word).1 = word.length := by
  rw [rangeOf, Text.utf8_append, List.length_append, length_utf8_of_keyword h,
    Nat.add_sub_cancel_left]

namespace KeywordScan

variable {s : KeywordScan} {place : Nat}

theorem start_close (s : KeywordScan) (place : Nat) : (s.close place).start = none := by
  unfold close
  cases h : s.start with
  | none => exact h
  | some start => rfl

theorem close_of_start (h : s.start = none) : s.close place = s := by
  rw [close, h]

theorem run_append_of_not {bytes : List UInt8} (h : ∀ b ∈ bytes, isKeywordByte b = false)
    (hstart : s.start = none) (rest : List UInt8) :
    s.run place (bytes ++ rest) = s.run (place + bytes.length) rest := by
  induction bytes generalizing place with
  | nil => rfl
  | cons b bytes ih =>
    obtain ⟨hb, hbytes⟩ := List.forall_mem_cons.1 h
    rw [List.cons_append, run, step, Option.any_some, if_neg (by simp [hb]),
      close_of_start hstart, ih hbytes, List.length_cons, Nat.add_assoc, Nat.add_comm 1]

/-- A character that is no keyword character ends the run under way. -/
theorem run_utf8EncodeChar_of_not {c : Char} (h : isKeywordChar c = false) (rest : List UInt8) :
    s.run place (String.utf8EncodeChar c ++ rest) =
      (s.close place).run (place + (String.utf8EncodeChar c).length) rest := by
  have hbytes := isKeywordByte_of_not h
  cases hencode : String.utf8EncodeChar c with
  | nil => simp at hencode
  | cons b bytes =>
    rw [hencode] at hbytes
    obtain ⟨hb, hbytes⟩ := List.forall_mem_cons.1 hbytes
    rw [List.cons_append, run, step, Option.any_some, if_neg (by simp [hb]),
      run_append_of_not hbytes (start_close s place), List.length_cons, Nat.add_assoc, Nat.add_comm 1]

/-- What the search knows of a text that it has seen: the keyword of a part that no run reaches the
end of, and where the run behind this part starts. -/
structure Sees (text front run before : List Char) (s : KeywordScan) : Prop where
  text_eq : text = front ++ run
  closed : IsClosed front
  keyword : ∀ c ∈ run, isKeywordChar c = true
  start : s.start = if run = [] then none else some (utf8 front).length
  best : s.best = rangeOf before (keywordChars front)
  isBest : IsBest front before (keywordChars front)

theorem sees_nil : Sees [] [] [] [] {} where
  text_eq := rfl
  closed := nofun
  keyword := nofun
  start := rfl
  best := rfl
  isBest := isBest_nil

section
variable {text front run before : List Char}

theorem Sees.concat (h : Sees text front run before s) {c : Char} (hc : isKeywordChar c = true)
    {b : UInt8} (hb : isKeywordByte b = true) :
    Sees (text ++ [c]) front (run ++ [c]) before (s.step (utf8 text).length (some b)) where
  text_eq := by rw [h.text_eq, List.append_assoc]
  closed := h.closed
  keyword := by simpa [or_imp, forall_and, hc] using h.keyword
  start := by
    rw [step, Option.any_some, if_pos hb, h.start, h.text_eq]
    by_cases hrun : run = [] <;> simp [hrun]
  best := by
    rw [step, Option.any_some, if_pos hb]
    exact h.best
  isBest := h.isBest

theorem Sees.best_close (h : Sees text front run before s) :
    (s.close (utf8 text).length).best =
      if minKeywordLength ≤ run.length && (keywordChars front).length < run.length then
        rangeOf front run
      else rangeOf before (keywordChars front) := by
  by_cases hrun : run = []
  · rw [close_of_start (by rw [h.start, if_pos hrun]), h.best, hrun]
    rfl
  · have hunderway : (utf8 text).length - (utf8 front).length = run.length := by
      rw [h.text_eq]
      exact length_rangeOf h.keyword
    have hbest : s.best.2 - s.best.1 = (keywordChars front).length := by
      rw [h.best]
      exact length_rangeOf fun _ => isKeywordChar_of_mem_keywordChars
    rw [KeywordScan.close, h.start, if_neg hrun]
    dsimp only
    rw [hunderway, hbest, h.best, h.text_eq]
    rfl

/-- Where a run ends, the best one is the keyword of the text so far. -/
theorem Sees.exists_best_close (h : Sees text front run before s) {rest : List Char}
    (hrest : ∀ c ∈ rest, isKeywordChar c = false) : ∃ before',
      (s.close (utf8 text).length).best = rangeOf before' (keywordChars (text ++ rest)) ∧
        IsBest (text ++ rest) before' (keywordChars (text ++ rest)) := by
  rw [h.best_close, h.text_eq, keywordChars_append h.closed h.keyword hrest, betterKeyword]
  split
  · next hbetter =>
    rw [Bool.and_eq_true, decide_eq_true_iff, decide_eq_true_iff] at hbetter
    exact ⟨front, rfl, h.isBest.append_of_better h.closed h.keyword hrest hbetter.1 hbetter.2⟩
  · next hnot =>
    rw [Bool.and_eq_true, decide_eq_true_iff, decide_eq_true_iff] at hnot
    exact ⟨before, rfl, h.isBest.append_of_not_better h.closed h.keyword hrest hnot⟩

/-- Behind a character that is no keyword character, no run is under way. -/
theorem Sees.exists_close (h : Sees text front run before s) {c : Char}
    (hc : isKeywordChar c = false) : ∃ before',
      Sees (text ++ [c]) (text ++ [c]) [] before' (s.close (utf8 text).length) := by
  have hends : ∀ d ∈ [c], isKeywordChar d = false := by simpa using hc
  obtain ⟨before', hrange, hbest⟩ := h.exists_best_close hends
  exact ⟨before',
    { text_eq := by simp
      closed := by simpa [IsClosed] using hc
      keyword := nofun
      start := start_close _ _
      best := hrange
      isBest := hbest }⟩

/-- A search that goes on from what it knows ends with the keyword of the whole text. -/
theorem Sees.exists_best_run (h : Sees text front run before s) (rest : List Char) : ∃ before',
    (s.run (utf8 text).length (utf8 rest)).best = rangeOf before' (keywordChars (text ++ rest)) ∧
      IsBest (text ++ rest) before' (keywordChars (text ++ rest)) := by
  induction rest generalizing text front run before s with
  | nil => exact h.exists_best_close nofun
  | cons c rest ih =>
    have htext : text ++ c :: rest = text ++ [c] ++ rest := by simp
    have hlength :
        (utf8 (text ++ [c])).length = (utf8 text).length + (String.utf8EncodeChar c).length := by
      rw [Text.utf8_append, List.length_append, Text.utf8_cons, Text.utf8_nil, List.append_nil]
    rw [htext, Text.utf8_cons]
    cases hc : isKeywordChar c with
    | true =>
      obtain ⟨b, hencode, hb⟩ := exists_utf8EncodeChar_eq hc
      have hrest := ih (h.concat hc hb)
      rw [hlength, hencode] at hrest
      rw [hencode]
      exact hrest
    | false =>
      obtain ⟨before', hsees⟩ := h.exists_close hc
      rw [run_utf8EncodeChar_of_not hc, ← hlength]
      exact ih hsees

end

end KeywordScan

/-- The bytes that are found are those of the keyword, and it is the first of the longest runs. -/
theorem exists_keywordRange_eq (pattern : String) : ∃ before,
    keywordRange pattern = rangeOf before (keyword pattern).toList ∧
      IsBest pattern.toList before (keyword pattern).toList := by
  rw [keyword, String.toList_ofList]
  exact KeywordScan.sees_nil.exists_best_run pattern.toList

theorem IsBest.eq_nil_iff {text before best : List Char} (h : IsBest text before best) :
    best = [] ↔ ¬∃ part, part <:+: text ∧ minKeywordLength ≤ part.length ∧
      ∀ c ∈ part, isKeywordChar c = true := by
  constructor
  · rintro rfl ⟨part, hpart, hlength, hkeyword⟩
    have hne : part ≠ [] := by rintro rfl; cases hlength
    obtain ⟨_, run, _, hrun, hle⟩ := exists_isRun_of_infix hpart hne hkeyword
    have hempty := (h.longest hrun (by omega)).1
    exact hrun.ne_nil (List.length_eq_zero_iff.1 (Nat.le_zero.1 hempty))
  · intro hnone
    rcases h.isRun with ⟨hbest, -⟩ | ⟨hlength, after, hrun⟩
    · exact hbest
    · exact absurd ⟨best, ⟨before, after, hrun.text_eq.symm⟩, hlength, hrun.keyword⟩ hnone

/-- The keyword is empty where no three keyword characters stand side by side, and else the first of
the longest runs of them. Its bytes are found between two positions of the pattern. -/
theorem keyword_isFirstLongest (pattern : String) :
    let word := (keyword pattern).toList
    (keyword pattern = "" ↔ ¬∃ part, part <:+: pattern.toList ∧ 3 ≤ part.length ∧
      ∀ c ∈ part, isKeywordChar c = true) ∧
    word <:+: pattern.toList ∧ (∀ c ∈ word, isSpecial c = false) ∧
    (∃ start stop : pattern.Pos,
      keywordRange pattern = (start.offset.byteIdx, stop.offset.byteIdx) ∧
        pattern.extract start stop = keyword pattern) ∧
    (keyword pattern ≠ "" → ∃ before after, IsRun pattern.toList before word after ∧
      keywordRange pattern = rangeOf before word ∧ 3 ≤ word.length ∧
        ∀ before' run after', IsRun pattern.toList before' run after' →
          run.length ≤ word.length ∧ (run.length = word.length → before.length ≤ before'.length)) := by
  intro word
  obtain ⟨before, hrange, hbest⟩ :
      ∃ before, keywordRange pattern = rangeOf before word ∧ IsBest pattern.toList before word :=
    exists_keywordRange_eq pattern
  have hempty : keyword pattern = "" ↔ word = [] := String.toList_eq_nil_iff.symm
  have hword : word = keywordChars pattern.toList := String.toList_ofList
  have hplace : ∃ after, pattern.toList = before ++ word ++ after := by
    rcases hbest.isRun with ⟨hnil, rfl⟩ | ⟨-, after, hrun⟩
    · exact ⟨pattern.toList, by simp [word, hnil]⟩
    · exact ⟨after, hrun.text_eq⟩
  obtain ⟨after, htext⟩ := hplace
  refine ⟨hempty.trans hbest.eq_nil_iff, ⟨before, after, htext.symm⟩, fun c hc => ?_, ?_, fun hne => ?_⟩
  · rw [hword] at hc
    exact not_isSpecial_of_isKeywordChar (isKeywordChar_of_mem_keywordChars hc)
  · obtain ⟨start, stop, hstart, hstop, hextract⟩ := Text.exists_extract_eq htext
    refine ⟨start, stop, by rw [hrange, rangeOf, hstart, hstop], by rw [hextract, String.ofList_toList]⟩
  · rcases hbest.isRun with ⟨hnil, -⟩ | ⟨hlength, after, hrun⟩
    · exact absurd (hempty.2 hnil) hne
    · refine ⟨before, after, hrun, hrange, hlength, fun before' run after' hrun' => ?_⟩
      by_cases hlong : minKeywordLength ≤ run.length
      · exact hbest.longest hrun' hlong
      · exact ⟨by omega, by omega⟩

/-- Two runs of the same length stand between characters of two bytes. -/
theorem keyword_isFirstLongest_tie :
    let pattern := "é||ads.sample?x^example&é"
    let second := "é||ads.sample?x^".toList
    keyword pattern ≠ "" ∧ keyword pattern = "sample?x" ∧ keywordRange pattern = (8, 16) ∧
      IsRun pattern.toList second "example&".toList "é".toList ∧
      ∃ before after, IsRun pattern.toList before "sample?x".toList after ∧
        keywordRange pattern = rangeOf before "sample?x".toList ∧ before.length ≤ second.length := by
  intro pattern second
  have hkeyword : keyword pattern = "sample?x" := by decide +kernel
  have hne : keyword pattern ≠ "" := by rw [hkeyword]; decide
  have hleft : second.getLast? = some '^' := by decide
  have hright : "é".toList.head? = some 'é' := by decide
  have hsecond : IsRun pattern.toList second "example&".toList "é".toList :=
    { text_eq := by decide
      ne_nil := by decide
      keyword := by decide
      left := fun c hc => by cases hleft.symm.trans hc; decide
      right := fun c hc => by cases hright.symm.trans hc; decide }
  obtain ⟨before, after, hrun, hrange, -, hfirst⟩ := (keyword_isFirstLongest pattern).2.2.2.2 hne
  rw [hkeyword] at hrun hrange hfirst
  have hplace : keywordRange pattern = (8, 16) := by decide +kernel
  have hsame : "example&".toList.length = "sample?x".toList.length := by decide
  have hle := (hfirst _ _ _ hsecond).2 hsame
  exact ⟨hne, hkeyword, hplace, hsecond, before, after, hrun, hrange, hle⟩

end AdFilter.Glob
