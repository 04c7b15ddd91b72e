import AdFilter.Stats
import Mathlib.Data.List.Induction

/-!
# What the statistics count

Each counter is the number of the events of one kind, as a word, and the time is what all verdicts
took (`recordAll_eq_ofEvents`).
-/

namespace AdFilter

def Verdict.isExcepted : Verdict → Bool
  | .excepted _ => true
  | .allowed | .blocked _ => false

namespace Event

def isHit : Event → Bool
  | .cacheHit _ => true
  | .cacheMiss | .verdict _ _ => false

def isMiss : Event → Bool
  | .cacheMiss => true
  | .cacheHit _ | .verdict _ _ => false

def isVerdict (kind : Verdict → Bool) : Event → Bool
  | .verdict v _ => kind v
  | .cacheHit _ | .cacheMiss => false

/-- The time that the statistics add up for an event. -/
def nanos : Event → UInt64
  | .verdict _ elapsed => Stats.capNanos elapsed
  | .cacheHit _ | .cacheMiss => 0

end Event

namespace Stats

/-- The statistics of some events, by the number of each kind. -/
def ofEvents (events : List Event) : Stats where
  cacheHits := .ofNat (events.countP Event.isHit)
  cacheMisses := .ofNat (events.countP Event.isMiss)
  filtered := .ofNat (events.countP (Event.isVerdict Verdict.isBlocked))
  exceptions := .ofNat (events.countP (Event.isVerdict Verdict.isExcepted))
  verdicts := .ofNat (events.countP (Event.isVerdict fun _ => true))
  totalNanos := events.foldl (fun total event => total + event.nanos) 0

theorem ofEvents_concat (events : List Event) (event : Event) :
    ofEvents (events ++ [event]) = (ofEvents events).record event := by
  cases event with
  | cacheHit blocked =>
    simp [ofEvents, record, Event.isHit, Event.isMiss, Event.isVerdict, Event.nanos]
  | cacheMiss => simp [ofEvents, record, Event.isHit, Event.isMiss, Event.isVerdict, Event.nanos]
  | verdict v elapsed =>
    cases v <;>
      simp [ofEvents, record, Event.isHit, Event.isMiss, Event.isVerdict, Event.nanos,
        Verdict.isBlocked, Verdict.isExcepted]

theorem recordAll_eq_ofEvents (events : List Event) :
    ({} : Stats).recordAll events = ofEvents events := by
  induction events using List.reverseRecOn with
  | nil => rfl
  | append_singleton events event ih =>
    rw [ofEvents_concat, ← ih]
    exact List.foldl_append

end Stats

end AdFilter
