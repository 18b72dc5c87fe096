import AudioWalk.Story.Basic

/-!
# Warming up

The first readings of a receiver are noisy.  A tracker counts the readings of a
session and holds them back until a set number of them has come.
-/

namespace AudioWalk

/-- What a reading counts as. -/
inductive Fix where
  | warmingUp
  | first
  | subsequent
deriving DecidableEq, Repr

def Fix.isUsable : Fix → Bool
  | warmingUp => false
  | _ => true

/-- The reading number `threshold` is the first that counts. -/
structure Tracker where
  threshold : UInt32
  received : UInt32
  last? : Option Reading
deriving Repr

namespace Tracker

/-- At least one reading must come. -/
def new (threshold : UInt32) : Tracker :=
  { threshold := max threshold 1, received := 0, last? := none }

/-- The count stays at its greatest value once it is there. -/
def succ (received : UInt32) : UInt32 :=
  if received = UInt32.ofNat (UInt32.size - 1) then received else received + 1

def record (t : Tracker) (r : Reading) : Fix × Tracker :=
  let received := succ t.received
  let fix :=
    if received < t.threshold then Fix.warmingUp
    else if received = t.threshold then Fix.first
    else Fix.subsequent
  (fix, { t with received, last? := some r })

/-- Warms up again. -/
def reset (t : Tracker) : Tracker := { t with received := 0, last? := none }

end Tracker
end AudioWalk
