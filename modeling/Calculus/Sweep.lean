import Calculus.Numeral.Reader
import Calculus.Numeral.Style

/-!
# Sweeps

A sweep is an evenly spaced run of points from a start up to, and not including, an end. It is
read from up to three arguments; one that is missing or unusable is replaced by its default, and
the reader is told so. A sweep never has more than `maxPoints` points.
-/

namespace Calculus

/-- The points from `start` in increments of `step`, below `stop`. -/
structure Sweep where
  start : Float
  stop : Float
  step : Float

namespace Sweep

/-- The sweep used when nothing is asked for. -/
def standard : Sweep := ⟨0.0, 10.0, 1.0⟩

/-- The most points a sweep has. -/
def maxPoints : Nat := 10000

/-- Why an argument was replaced. -/
inductive Notice where
  | unreadable (field argument : String) (reason : Numeral.ReadError) (fallback : Float)
  | notFinite (field : String) (fallback : Float)
  | stepNotPositive (fallback : Float)

/-- What the reader is told about a replaced argument. -/
def Notice.message : Notice → String
  | .unreadable field argument reason fallback =>
    "invalid " ++ field ++ " `" ++ argument ++ "` (" ++ reason.message ++ "), using " ++
      Numeral.text fallback
  | .notFinite field fallback =>
    "the " ++ field ++ " must be finite, using " ++ Numeral.text fallback
  | .stepNotPositive fallback =>
    "the step must be positive, using " ++ Numeral.text fallback

/-- The value of one argument, or its fallback with the reason. -/
def readField (field : String) (fallback : Float) : Option String → Float × List Notice
  | none => (fallback, [])
  | some argument =>
    match Numeral.read argument with
    | .ok value =>
      if value.isFinite then (value, []) else (fallback, [.notFinite field fallback])
    | .error reason => (fallback, [.unreadable field argument reason fallback])

/-- The sweep that the arguments ask for: start, end and step, in this order. -/
def ofArguments (arguments : List String) : Sweep × List Notice :=
  let (start, notices₁) := readField "start" standard.start arguments[0]?
  let (stop, notices₂) := readField "end" standard.stop arguments[1]?
  let (step, notices₃) := readField "step" standard.step arguments[2]?
  let notices := notices₁ ++ notices₂ ++ notices₃
  if step ≤ 0.0 then
    (⟨start, stop, standard.step⟩, notices ++ [.stepNotPositive standard.step])
  else
    (⟨start, stop, step⟩, notices)

/-- The point number `i`, if the sweep went on for ever. -/
def point (sweep : Sweep) (i : Nat) : Float :=
  sweep.start + Float.ofNat i * sweep.step

/-- The points of a sweep: all those before the first one that is not below its end. -/
def points (sweep : Sweep) : List Float :=
  ((List.range maxPoints).map sweep.point).takeWhile (· < sweep.stop)

end Sweep

end Calculus
