import AdFilter.Proofs.Stats
import Mathlib.Algebra.Order.BigOperators.Group.List
import Mathlib.Algebra.Order.Ring.Nat
import Mathlib.Algebra.Group.Action.Defs

/-!
# The average time

The statistics keep the sum of the times of all verdicts in a word and divide it by their number.
Neither depends on the order of the events (`recordAll_perm`), and the number is not zero where it
divides (`isSome_snapshot?`). A sum that fits its word has an average between the shortest and the
longest time (`average_between`); one that does not can have any.
-/

namespace AdFilter

/-- The time that the statistics add up for an event, if it is a verdict: what it took, or the
longest time that fits a word. -/
def Event.time? : Event → Option Nat
  | .verdict _ elapsed => some (min elapsed (2 ^ 64 - 1))
  | .cacheHit _ | .cacheMiss => none

namespace Stats

/-- The times of the verdicts among some events. -/
def times (events : List Event) : List Nat :=
  events.filterMap Event.time?

theorem countP_isVerdict (events : List Event) :
    events.countP (Event.isVerdict fun _ => true) = (times events).length := by
  rw [times, List.length_filterMap_eq_countP]
  apply List.countP_congr
  intro event _
  cases event <;> simp [Event.isVerdict, Event.time?]

theorem times_cons (event : Event) (events : List Event) :
    times (event :: events) = event.time?.toList ++ times events := by
  cases event <;> rfl

theorem nanos_eq (event : Event) : event.nanos = UInt64.ofNat event.time?.toList.sum := by
  cases event <;> simp [Event.nanos, Event.time?, capNanos]

theorem foldl_nanos (events : List Event) (total : UInt64) :
    events.foldl (fun total event => total + event.nanos) total =
      total + UInt64.ofNat (times events).sum := by
  induction events generalizing total with
  | nil => simp [times]
  | cons event events ih =>
    rw [List.foldl_cons, ih, times_cons, List.sum_append, UInt64.ofNat_add, nanos_eq,
      UInt64.add_assoc]

theorem recordAll_perm {events others : List Event} (h : others.Perm events) :
    ({} : Stats).recordAll others = ({} : Stats).recordAll events := by
  have htimes : (times others).sum = (times events).sum := (h.filterMap _).sum_eq
  rw [recordAll_eq_ofEvents, recordAll_eq_ofEvents]
  simp only [ofEvents, h.countP_eq, foldl_nanos, htimes]

/-! ## The average -/

theorem verdicts_recordAll {events : List Event} (h : events.length < 2 ^ 64) :
    (({} : Stats).recordAll events).verdicts.toNat = (times events).length := by
  have hlt : (times events).length < 2 ^ 64 :=
    Nat.lt_of_le_of_lt (List.length_filterMap_le _ _) h
  rw [recordAll_eq_ofEvents, ofEvents, countP_isVerdict, UInt64.toNat_ofNat', Nat.mod_eq_of_lt hlt]

theorem totalNanos_recordAll (events : List Event) :
    (({} : Stats).recordAll events).totalNanos.toNat = (times events).sum % 2 ^ 64 := by
  rw [recordAll_eq_ofEvents, ofEvents, foldl_nanos, UInt64.zero_add, UInt64.toNat_ofNat']

theorem averageNanos_recordAll {events : List Event} (h : events.length < 2 ^ 64) :
    (({} : Stats).recordAll events).snapshot.averageNanos.toNat =
      if times events = [] then 0
      else (times events).sum % 2 ^ 64 / (times events).length := by
  have hverdicts := verdicts_recordAll h
  rw [snapshot_eq]
  by_cases hnil : times events = []
  · have hzero : (({} : Stats).recordAll events).verdicts = 0 := by
      apply UInt64.toNat_inj.1
      rw [hverdicts, hnil]
      rfl
    simp [hnil, hzero]
  · have hzero : (({} : Stats).recordAll events).verdicts ≠ 0 := by
      intro hzero
      rw [hzero] at hverdicts
      exact hnil (List.length_eq_zero_iff.1 hverdicts.symm)
    rw [if_neg hzero, if_neg hnil, UInt64.toNat_div, totalNanos_recordAll, hverdicts]

theorem average_between {ds : List Nat} {least greatest : Nat} (hne : ds ≠ [])
    (h : ∀ d ∈ ds, least ≤ d ∧ d ≤ greatest) :
    least ≤ ds.sum / ds.length ∧ ds.sum / ds.length ≤ greatest := by
  have hpos : 0 < ds.length := List.length_pos_iff.2 hne
  have hleast := List.card_nsmul_le_sum ds least fun d hd => (h d hd).1
  have hgreatest := List.sum_le_card_nsmul ds greatest fun d hd => (h d hd).2
  rw [smul_eq_mul] at hleast hgreatest
  constructor
  · rw [Nat.le_div_iff_mul_le hpos, Nat.mul_comm]
    exact hleast
  · exact Nat.div_le_of_le_mul hgreatest

/-! ## The snapshot of any events -/

/-- The snapshot of fewer than `2 ^ 64` events is the same for any order of them, and takes no division
by zero. Its average is zero without a verdict, and otherwise what a word holds of the sum of the
times, divided by their number; if a word holds all of the sum, the average lies between the shortest
and the longest time. -/
theorem snapshot_laws {events : List Event} (h : events.length < 2 ^ 64) :
    (∀ others : List Event, others.Perm events →
      (({} : Stats).recordAll others).snapshot = (({} : Stats).recordAll events).snapshot) ∧
    (({} : Stats).recordAll events).snapshot? = some (({} : Stats).recordAll events).snapshot ∧
    (({} : Stats).recordAll events).snapshot.averageNanos.toNat =
      (if times events = [] then 0
      else (times events).sum % 2 ^ 64 / (times events).length) ∧
    (times events ≠ [] → (times events).sum < 2 ^ 64 →
      ∃ least greatest, (times events).min? = some least ∧ (times events).max? = some greatest ∧
        least ≤ (({} : Stats).recordAll events).snapshot.averageNanos.toNat ∧
        (({} : Stats).recordAll events).snapshot.averageNanos.toNat ≤ greatest) := by
  refine ⟨fun others hperm => ?_, (Option.some_get _).symm, averageNanos_recordAll h, fun hne hsum => ?_⟩
  · rw [recordAll_perm hperm]
  · obtain ⟨least, hleast⟩ := Option.ne_none_iff_exists'.1 (mt List.min?_eq_none_iff.1 hne)
    obtain ⟨greatest, hgreatest⟩ := Option.ne_none_iff_exists'.1 (mt List.max?_eq_none_iff.1 hne)
    have hbounds : ∀ d ∈ times events, least ≤ d ∧ d ≤ greatest := fun d hd =>
      ⟨(List.min?_eq_some_iff.1 hleast).2 d hd, (List.max?_eq_some_iff.1 hgreatest).2 d hd⟩
    refine ⟨least, greatest, hleast, hgreatest, ?_⟩
    rw [averageNanos_recordAll h, if_neg hne, Nat.mod_eq_of_lt hsum]
    exact average_between hne hbounds

/-- Two verdicts among other events, told in another order. -/
theorem snapshot_laws_two_verdicts :
    [Event.cacheMiss, .verdict .allowed 2000, .cacheHit true,
        .verdict (.blocked none) 4001].length < 2 ^ 64 ∧
      (({} : Stats).recordAll [.verdict (.blocked none) 4001, .cacheHit true, .cacheMiss,
        .verdict .allowed 2000]).snapshot =
      (({} : Stats).recordAll [.cacheMiss, .verdict .allowed 2000, .cacheHit true,
        .verdict (.blocked none) 4001]).snapshot ∧
      (({} : Stats).recordAll [.cacheMiss, .verdict .allowed 2000, .cacheHit true,
        .verdict (.blocked none) 4001]).snapshot.averageNanos.toNat = 3000 := by
  have hlen : [Event.cacheMiss, .verdict .allowed 2000, .cacheHit true,
      .verdict (.blocked none) 4001].length < 2 ^ 64 := by decide
  obtain ⟨hperm, -, haverage, -⟩ := snapshot_laws hlen
  refine ⟨hlen, hperm _ ?_, haverage.trans ?_⟩
  · decide
  · simp [times, List.filterMap_cons, Event.time?]

/-- The sum of two long times does not fit, and the average is far from both. -/
example : (({} : Stats).recordAll [.verdict .allowed (2 ^ 64 - 1),
    .verdict .allowed (2 ^ 65)]).snapshot.averageNanos = 2 ^ 63 - 1 := by
  decide +kernel

end Stats

end AdFilter
