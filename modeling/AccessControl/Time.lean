/-!
Spans of time in whole nanoseconds, and the counter of nanoseconds that caches read, which stops at
the largest number of 64 bits.
-/

namespace AccessControl

/-- A span of time in whole nanoseconds. -/
structure Duration where
  nanos : Nat
  deriving DecidableEq

namespace Duration

def nanosPerSecond : Nat := 1000000000

def nanosPerMilli : Nat := 1000000

def ofSeconds (seconds : Nat) : Duration := ⟨seconds * nanosPerSecond⟩

def ofMillis (millis : Nat) : Duration := ⟨millis * nanosPerMilli⟩

/-- The whole seconds of a span. -/
def seconds (d : Duration) : Nat := d.nanos / nanosPerSecond

/-- The nanoseconds beyond the whole seconds. -/
def subsecond (d : Duration) : Nat := d.nanos % nanosPerSecond

/-- The whole milliseconds of a span. -/
def millis (d : Duration) : Nat := d.nanos / nanosPerMilli

end Duration

namespace Clock

/-- The last reading of a counter of 64 bits. -/
def limit : Nat := UInt64.size - 1

/-- What a counter that stops at its limit reads after so many nanoseconds. -/
def reading (nanos : Nat) : Nat := min nanos limit

end Clock

end AccessControl
