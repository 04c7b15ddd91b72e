import AdFilter.Regex.Meaning
import AdFilter.Regex.Search

/-!
# The search finds what the expression means

`Tells P before text row` says that the entries of a row are the truth of `P` at the positions of a
text, where a position is given by the text before it and the text behind it. Every part turns the
row for a property into the row for "a factor that the part matches, and then the property"
(`tells_back`), so the search answers whether some factor is matched (`search_iff`). Factors in a row
are at most as many as the text is long, once the empty ones are left out (`InRow.shorten`); where a
row is cut in two, `then_assoc` carries the induction.
-/

namespace AdFilter.Regex

/-! ## One factor behind another -/

/-- A factor that `M` admits, and one that `N` admits behind it, make up `mid`. -/
abbrev Then (M N : List Char → List Char → List Char → Prop) (before mid after : List Char) : Prop :=
  ∃ left right, mid = left ++ right ∧ M before left (right ++ after) ∧ N (before ++ left) right after

section
variable {M M' N N' R : List Char → List Char → List Char → Prop} {before mid after : List Char}

theorem then_congr (hM : ∀ before mid after, M before mid after ↔ M' before mid after)
    (hN : ∀ before mid after, N before mid after ↔ N' before mid after) :
    Then M N before mid after ↔ Then M' N' before mid after := by
  simp only [Then, hM, hN]

theorem then_assoc :
    Then (Then M N) R before mid after ↔ Then M (Then N R) before mid after := by
  constructor
  · rintro ⟨_, right, rfl, ⟨first, left, rfl, hfirst, hleft⟩, hright⟩
    refine ⟨first, left ++ right, by simp, ?_, left, right, rfl, hleft, ?_⟩
    · simpa using hfirst
    · simpa using hright
  · rintro ⟨first, _, rfl, hfirst, left, right, rfl, hleft, hright⟩
    refine ⟨first ++ left, right, by simp, ⟨first, left, rfl, ?_, hleft⟩, ?_⟩
    · simpa using hfirst
    · simpa using hright

theorem empty_then : Then (fun _ mid _ => mid = []) N before mid after ↔ N before mid after := by
  constructor
  · rintro ⟨_, right, rfl, rfl, h⟩
    simpa using h
  · intro h
    exact ⟨[], mid, rfl, rfl, by simpa using h⟩

end

/-! ## Rows -/

/-- The entries of the row say where `P` holds in `text`, which follows `before`. -/
inductive Tells (P : List Char → List Char → Prop) : List Char → List Char → Row → Prop where
  | nil {before : List Char} {b : Bool} : (b = true ↔ P before []) → Tells P before [] [b]
  | cons {before text : List Char} {c : Char} {b : Bool} {row : Row} :
      (b = true ↔ P before (c :: text)) → Tells P (before ++ [c]) text row →
      Tells P before (c :: text) (b :: row)

/-- A factor that `M` admits leads to a position where `Q` holds. -/
def Leads (M : List Char → List Char → List Char → Prop) (Q : List Char → List Char → Prop)
    (before after : List Char) : Prop :=
  ∃ mid rest, after = mid ++ rest ∧ M before mid rest ∧ Q (before ++ mid) rest

theorem leads_or {M N : List Char → List Char → List Char → Prop}
    {Q : List Char → List Char → Prop} {before after : List Char} :
    Leads (fun b m a => M b m a ∨ N b m a) Q before after ↔
      Leads M Q before after ∨ Leads N Q before after := by
  simp only [Leads, or_and_right, and_or_left, exists_or]

theorem leads_congr {M N : List Char → List Char → List Char → Prop}
    {Q : List Char → List Char → Prop} {before after : List Char}
    (h : ∀ mid rest, after = mid ++ rest → (M before mid rest ↔ N before mid rest)) :
    Leads M Q before after ↔ Leads N Q before after :=
  exists_congr fun mid => exists_congr fun rest => and_congr_right fun hafter =>
    and_congr_left fun _ => h mid rest hafter

/-- Two factors in a row are one factor that falls apart into them. -/
theorem leads_leads {M N : List Char → List Char → List Char → Prop}
    {Q : List Char → List Char → Prop} {before after : List Char} :
    Leads M (Leads N Q) before after ↔ Leads (Then M N) Q before after := by
  constructor
  · rintro ⟨left, rest, rfl, hM, right, rest, rfl, hN, hQ⟩
    exact ⟨left ++ right, rest, by simp, ⟨left, right, rfl, hM, hN⟩, by simpa using hQ⟩
  · rintro ⟨mid, rest, rfl, ⟨left, right, rfl, hM, hN⟩, hQ⟩
    exact ⟨left, right ++ rest, by simp, hM, right, rest, rfl, hN, by simpa using hQ⟩

theorem leads_empty {Q : List Char → List Char → Prop} {before after : List Char} :
    Leads (fun _ mid _ => mid = []) Q before after ↔ Q before after := by
  constructor
  · rintro ⟨_, rest, rfl, rfl, hQ⟩
    simpa using hQ
  · intro hQ
    exact ⟨[], after, rfl, rfl, by simpa using hQ⟩

theorem leads_nil {M : List Char → List Char → List Char → Prop}
    {Q : List Char → List Char → Prop} {before : List Char} :
    Leads M Q before [] ↔ M before [] [] ∧ Q before [] := by
  constructor
  · rintro ⟨mid, rest, heq, hM, hQ⟩
    obtain ⟨rfl, rfl⟩ := List.append_eq_nil_iff.1 heq.symm
    exact ⟨hM, by simpa using hQ⟩
  · rintro ⟨hM, hQ⟩
    exact ⟨[], [], rfl, hM, by simpa using hQ⟩

section
variable {P Q : List Char → List Char → Prop} {before text : List Char} {row : Row}

theorem Tells.congr_of (h : Tells P before text row)
    (hPQ : ∀ b a, b ++ a = before ++ text → (P b a ↔ Q b a)) : Tells Q before text row := by
  induction h with
  | nil hb => exact .nil (hb.trans (hPQ _ _ rfl))
  | cons hb _ ih => exact .cons (hb.trans (hPQ _ _ rfl)) (ih fun b a hba => hPQ b a (by simp [hba]))

theorem Tells.congr (h : Tells P before text row)
    (hPQ : ∀ before after, P before after ↔ Q before after) : Tells Q before text row :=
  h.congr_of fun b a _ => hPQ b a

theorem Tells.headD (h : Tells P before text row) : row.headD false = true ↔ P before text := by
  cases h with
  | nil hb => exact hb
  | cons hb _ => exact hb

theorem Tells.any (h : Tells P before text row) :
    row.any id = true ↔ ∃ u v, text = u ++ v ∧ P (before ++ u) v := by
  induction h with
  | @nil before b hb =>
    rw [List.any_cons, List.any_nil, Bool.or_false, id_eq, hb]
    constructor
    · intro h
      exact ⟨[], [], rfl, by simpa using h⟩
    · rintro ⟨u, v, huv, h⟩
      obtain ⟨rfl, rfl⟩ := List.append_eq_nil_iff.1 huv.symm
      simpa using h
  | @cons before text c b row hb _ ih =>
    simp only [List.any_cons, id_eq, Bool.or_eq_true, hb, ih]
    constructor
    · rintro (h | ⟨u, v, rfl, h⟩)
      · exact ⟨[], c :: text, rfl, by simpa using h⟩
      · exact ⟨c :: u, v, rfl, by simpa using h⟩
    · rintro ⟨u, v, huv, h⟩
      cases u with
      | nil => exact .inl (by simpa [huv] using h)
      | cons d u =>
        obtain ⟨rfl, rfl⟩ := List.cons.inj huv
        exact .inr ⟨u, v, rfl, by simpa using h⟩

theorem tells_true (before text : List Char) :
    Tells (fun _ _ => True) before text (List.replicate (text.length + 1) true) := by
  induction text generalizing before with
  | nil => exact .nil (by simp)
  | cons c text ih => exact .cons (by simp) (ih _)

/-! ## The steps of the search -/

theorem Tells.zipWith_or {row' : Row} (h : Tells P before text row)
    (h' : Tells Q before text row') :
    Tells (fun b a => P b a ∨ Q b a) before text (List.zipWith or row row') := by
  induction h generalizing row' with
  | nil hb =>
    cases h' with
    | nil hb' => exact .nil (by simp [hb, hb'])
  | cons hb _ ih =>
    cases h' with
    | cons hb' h' => exact .cons (by simp [hb, hb']) (ih h')

theorem Tells.takeOne (accepts : Char → Bool) (h : Tells Q before text row) :
    Tells (Leads (fun _ mid _ => ∃ c, mid = [c] ∧ accepts c = true) Q) before text
      (takeOne accepts text row) := by
  induction h with
  | nil hb => exact .nil (by simp [leads_nil])
  | @cons before text c b row hb h ih =>
    refine .cons ?_ ih
    rw [List.tail_cons, Bool.and_eq_true, h.headD]
    constructor
    · rintro ⟨hQ, hc⟩
      exact ⟨[c], text, rfl, ⟨c, rfl, hc⟩, hQ⟩
    · rintro ⟨_, rest, heq, ⟨d, rfl, hd⟩, hQ⟩
      obtain ⟨rfl, rfl⟩ := List.cons.inj heq
      exact ⟨hQ, hd⟩

theorem Tells.takeMany (accepts : Char → Bool) (h : Tells Q before text row) :
    Tells (Leads (fun _ mid _ => ∀ c ∈ mid, accepts c = true) Q) before text
      (takeMany accepts text row) := by
  induction h with
  | nil hb => exact .nil (hb.trans (by simp [leads_nil]))
  | @cons before text c b row hb h ih =>
    refine .cons ?_ ih
    rw [Bool.or_eq_true, Bool.and_eq_true, List.headD_cons, hb, List.tail_cons, ih.headD]
    constructor
    · rintro (hQ | ⟨⟨mid, rest, rfl, hmid, hQ⟩, hc⟩)
      · exact ⟨[], c :: text, rfl, by simp, by simpa using hQ⟩
      · exact ⟨c :: mid, rest, rfl, List.forall_mem_cons.2 ⟨hc, hmid⟩, by simpa using hQ⟩
    · rintro ⟨mid, rest, heq, hmid, hQ⟩
      cases mid with
      | nil => exact .inl (by simpa [heq] using hQ)
      | cons d mid =>
        obtain ⟨rfl, rfl⟩ := List.cons.inj heq
        obtain ⟨hc, hmid⟩ := List.forall_mem_cons.1 hmid
        exact .inr ⟨⟨mid, rest, rfl, hmid, by simpa using hQ⟩, hc⟩

theorem Tells.map_false (h : Tells Q before text row) :
    Tells (Leads (fun _ _ _ => False) Q) before text (row.map fun _ => false) := by
  induction h with
  | nil hb => exact .nil (by simp [Leads])
  | cons hb _ ih => exact .cons (by simp [Leads]) ih

theorem leads_anchor {holds : Option Char → Option Char → Bool} {after : List Char} :
    Leads (fun b mid a => mid = [] ∧ holds b.getLast? a.head? = true) Q before after ↔
      Q before after ∧ holds before.getLast? after.head? = true := by
  constructor
  · rintro ⟨_, rest, rfl, ⟨rfl, hholds⟩, hQ⟩
    exact ⟨by simpa using hQ, hholds⟩
  · rintro ⟨hQ, hholds⟩
    exact ⟨[], after, rfl, ⟨rfl, hholds⟩, by simpa using hQ⟩

theorem Tells.takeAnchor (holds : Option Char → Option Char → Bool) (h : Tells Q before text row) :
    Tells (Leads (fun b mid a => mid = [] ∧ holds b.getLast? a.head? = true) Q) before text
      (takeAnchor holds before.getLast? text row) := by
  induction h with
  | nil hb => exact .nil (by simp [leads_anchor, hb])
  | cons hb _ ih =>
    refine .cons (by simp [leads_anchor, hb]) ?_
    rwa [List.getLast?_concat] at ih

end

/-! ## Factors in a row -/

section
variable {M : List Char → List Char → List Char → Prop} {before mid after : List Char}

theorem inRow_add {m n : Nat} :
    InRow M (m + n) before mid after ↔ Then (InRow M m) (InRow M n) before mid after := by
  induction m generalizing before mid after with
  | zero =>
    rw [Nat.zero_add]
    exact empty_then.symm
  | succ m ih =>
    rw [Nat.succ_add]
    calc InRow M (m + n + 1) before mid after
      _ ↔ Then M (Then (InRow M m) (InRow M n)) before mid after :=
        then_congr (fun _ _ _ => Iff.rfl) fun _ _ _ => ih
      _ ↔ Then (InRow M (m + 1)) (InRow M n) before mid after := then_assoc.symm

/-- Without the empty ones, factors in a row are no more than the characters that they make up. -/
theorem InRow.shorten {n : Nat} (h : InRow M n before mid after) :
    ∃ k, k ≤ mid.length ∧ InRow M k before mid after := by
  induction n generalizing before mid with
  | zero => exact ⟨0, Nat.zero_le _, h⟩
  | succ n ih =>
    obtain ⟨left, right, rfl, hleft, hright⟩ := h
    obtain ⟨k, hk, hrow⟩ := ih hright
    cases left with
    | nil => exact ⟨k, hk, by simpa using hrow⟩
    | cons c left =>
      exact ⟨k + 1, by simp; omega, c :: left, right, rfl, hleft, hrow⟩

theorem exists_inRow_one_iff {a : Atom} :
    (∃ n, InRow (Part.one a).Matches n before mid after) ↔ ∀ c ∈ mid, a.accepts c = true := by
  constructor
  · rintro ⟨n, h⟩
    induction n generalizing before mid with
    | zero =>
      rw [show mid = [] from h]
      simp
    | succ n ih =>
      obtain ⟨_, right, rfl, ⟨c, rfl, hc⟩, hright⟩ := h
      exact List.forall_mem_cons.2 ⟨hc, ih hright⟩
  · intro h
    induction mid generalizing before with
    | nil => exact ⟨0, rfl⟩
    | cons c mid ih =>
      obtain ⟨hc, hmid⟩ := List.forall_mem_cons.1 h
      obtain ⟨n, hn⟩ : ∃ n, InRow (Part.one a).Matches n (before ++ [c]) mid after := ih hmid
      exact ⟨n + 1, [c], mid, rfl, ⟨c, rfl, hc⟩, hn⟩

theorem matches_seq_repeated_iff {p q : Part} {least : Nat} {more : Option Nat} :
    (Part.seq (.repeated p least more) q).Matches before mid after ↔
      ∃ left right, mid = left ++ right ∧
        (Part.repeated p least more).Matches before left (right ++ after) ∧
        q.Matches (before ++ left) right after :=
  Iff.rfl

theorem matches_seq_one_iff {a : Atom} {p : Part} :
    (Part.seq (.one a) p).Matches before mid after ↔
      ∃ c rest, mid = c :: rest ∧ a.accepts c = true ∧ p.Matches (before ++ [c]) rest after := by
  constructor
  · rintro ⟨_, rest, rfl, ⟨c, rfl, hc⟩, hrest⟩
    exact ⟨c, rest, rfl, hc, hrest⟩
  · rintro ⟨c, rest, rfl, hc, hrest⟩
    exact ⟨[c], rest, rfl, ⟨c, rfl, hc⟩, hrest⟩

theorem matches_seq_empty_iff {p : Part} :
    (Part.seq p .empty).Matches before mid after ↔ p.Matches before mid after := by
  simp [Part.Matches]

theorem matches_alt_never_iff {p : Part} :
    (Part.alt p .never).Matches before mid after ↔ p.Matches before mid after :=
  or_iff_left not_false

theorem matches_anyNumber_one_iff {a : Atom} :
    (Part.repeated (.one a) 0 none).Matches before mid after ↔ ∀ c ∈ mid, a.accepts c = true := by
  show (∃ n, (∀ m ∈ none, n ≤ m) ∧ InRow (Part.one a).Matches (0 + n) before mid after) ↔ _
  simp [exists_inRow_one_iff]

theorem matches_atLeastOne_one_iff {a : Atom} :
    (Part.repeated (.one a) 1 none).Matches before mid after ↔
      mid ≠ [] ∧ ∀ c ∈ mid, a.accepts c = true := by
  simp only [Part.Matches, Nat.add_comm 1]
  constructor
  · rintro ⟨n, -, _, right, rfl, ⟨c, rfl, hc⟩, hright⟩
    exact ⟨by simp, List.forall_mem_cons.2 ⟨hc, exists_inRow_one_iff.1 ⟨n, hright⟩⟩⟩
  · rintro ⟨hne, hmid⟩
    obtain ⟨c, mid, rfl⟩ := List.exists_cons_of_ne_nil hne
    obtain ⟨hc, hmid⟩ := List.forall_mem_cons.1 hmid
    obtain ⟨n, hn⟩ := exists_inRow_one_iff.2 hmid
    exact ⟨n, by simp, [c], mid, rfl, ⟨c, rfl, hc⟩, hn⟩

theorem matches_atMostOne_iff {p : Part} :
    (Part.repeated p 0 (some 1)).Matches before mid after ↔
      mid = [] ∨ p.Matches before mid after := by
  simp only [Part.Matches, Nat.zero_add, Option.mem_some_iff, forall_eq']
  constructor
  · rintro ⟨n, hn, h⟩
    obtain rfl | rfl : n = 0 ∨ n = 1 := by omega
    · exact .inl h
    · obtain ⟨left, _, rfl, hleft, rfl⟩ := h
      exact .inr (by simpa using hleft)
  · rintro (rfl | h)
    · exact ⟨0, Nat.zero_le _, rfl⟩
    · exact ⟨1, Nat.le_refl _, mid, [], by simp, h, rfl⟩

end

/-- The step turns rows of a text as the part does that admits the factors of `M`. -/
def Steps (text : List Char) (M : List Char → List Char → List Char → Prop)
    (step : Row → Row) : Prop :=
  ∀ (Q : List Char → List Char → Prop) (row : Row), Tells Q [] text row →
    Tells (Leads M Q) [] text (step row)

section
variable {M : List Char → List Char → List Char → Prop} {Q : List Char → List Char → Prop}
  {text : List Char} {row : Row} {step : Row → Row}

theorem Tells.exactly (hstep : Steps text M step) (h : Tells Q [] text row) (n : Nat) :
    Tells (Leads (InRow M n) Q) [] text (exactly step row n) := by
  induction n with
  | zero => exact h.congr fun _ _ => leads_empty.symm
  | succ n ih => exact (hstep _ _ ih).congr fun _ _ => leads_leads

theorem Tells.upTo (hstep : Steps text M step) (h : Tells Q [] text row) (n : Nat) :
    Tells (Leads (fun b mid a => ∃ k, k ≤ n ∧ InRow M k b mid a) Q) [] text (upTo step row n) := by
  induction n with
  | zero =>
    refine h.congr fun before after => ?_
    simp [← leads_empty (Q := Q), InRow]
  | succ n ih =>
    refine (h.zipWith_or (hstep _ _ ih)).congr fun before after => ?_
    rw [← leads_empty (Q := Q), leads_leads, ← leads_or]
    refine leads_congr fun mid rest _ => ?_
    constructor
    · rintro (rfl | ⟨left, right, rfl, hleft, k, hk, hright⟩)
      · exact ⟨0, Nat.zero_le _, rfl⟩
      · exact ⟨k + 1, Nat.succ_le_succ hk, left, right, rfl, hleft, hright⟩
    · rintro ⟨k, hk, hrow⟩
      cases k with
      | zero => exact .inl hrow
      | succ k =>
        obtain ⟨left, right, rfl, hleft, hright⟩ := hrow
        exact .inr ⟨left, right, rfl, hleft, k, Nat.le_of_succ_le_succ hk, hright⟩

theorem Tells.anyNumber {p : Part} (hstep : Steps text p.Matches step) (h : Tells Q [] text row) :
    Tells (Leads (fun b mid a => ∃ k, InRow p.Matches k b mid a) Q) [] text
      (anyNumber step text row p) := by
  have hmany : Tells (Leads (fun b mid a => ∃ k, InRow p.Matches k b mid a) Q) [] text
      (Regex.upTo step row text.length) := by
    refine (h.upTo hstep text.length).congr_of fun before after htext => ?_
    refine leads_congr fun mid rest hafter => ?_
    constructor
    · rintro ⟨k, -, hrow⟩
      exact ⟨k, hrow⟩
    · rintro ⟨_, hrow⟩
      obtain ⟨k, hk, hrow⟩ := hrow.shorten
      have hlength := congrArg List.length htext
      rw [hafter] at hlength
      simp at hlength
      exact ⟨k, by omega, hrow⟩
  cases p with
  | one a => exact (h.takeMany (a.accepts ·)).congr fun _ _ => by simp only [exists_inRow_one_iff]
  | _ => exact hmany

/-- So many factors in a row, and then as many more as are left. -/
theorem Tells.repeated {p : Part} {least : Nat} {more : Option Nat}
    (hstep : Steps text p.Matches step)
    (h : Tells (Leads (fun b mid a => ∃ k, (∀ m ∈ more, k ≤ m) ∧ InRow p.Matches k b mid a) Q) []
      text row) :
    Tells (Leads (Part.repeated p least more).Matches Q) [] text
      (Regex.exactly step row least) := by
  refine (h.exactly hstep least).congr fun before after => leads_leads.trans ?_
  refine leads_congr fun mid rest _ => ?_
  simp only [Part.Matches, inRow_add]
  constructor
  · rintro ⟨left, right, rfl, hleft, k, hk, hright⟩
    exact ⟨k, hk, left, right, rfl, hleft, hright⟩
  · rintro ⟨k, hk, left, right, rfl, hleft, hright⟩
    exact ⟨left, right, rfl, hleft, k, hk, hright⟩

end

/-! ## Parts and expressions -/

theorem tells_back (p : Part) {Q : List Char → List Char → Prop} {text : List Char} {row : Row}
    (h : Tells Q [] text row) : Tells (Leads p.Matches Q) [] text (p.back text row) := by
  induction p generalizing Q row with
  | empty => exact h.congr fun _ _ => leads_empty.symm
  | never => exact h.map_false
  | one a => exact h.takeOne (a.accepts ·)
  | anchor a => exact h.takeAnchor (a.holds · ·)
  | seq p q ihp ihq => exact (ihp (ihq h)).congr fun _ _ => leads_leads
  | alt p q ihp ihq => exact ((ihp h).zipWith_or (ihq h)).congr fun _ _ => leads_or.symm
  | repeated p least more ih =>
    have hstep : Steps text p.Matches (p.back text) := fun _ _ hrow => ih hrow
    cases more with
    | none => exact Tells.repeated hstep ((h.anyNumber hstep).congr fun _ _ => by simp)
    | some n => exact Tells.repeated hstep ((h.upTo hstep n).congr fun _ _ => by simp)

theorem search_iff (r : Regex) (text : String) : r.search text = true ↔ r.Finds text.toList := by
  have hrow := tells_back r.part (tells_true [] text.toList)
  rw [search, row, hrow.any, Finds]
  constructor
  · rintro ⟨before, after, htext, mid, rest, rfl, hmid, -⟩
    exact ⟨before, mid, rest, by simpa using htext, by simpa using hmid⟩
  · rintro ⟨before, mid, after, htext, hmid⟩
    exact ⟨before, mid ++ after, by simpa using htext, mid, after, rfl, by simpa using hmid, trivial⟩

end AdFilter.Regex
