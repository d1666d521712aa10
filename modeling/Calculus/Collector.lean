/-!
# Collectors

A collector takes the steps of an algorithm as they are made. An array keeps them in order; the
unit collector forgets them, for callers that only want the result.
-/

namespace Calculus

universe u v

/-- Something that takes steps. -/
class Collector (σ : Type u) (α : Type v) where
  /-- Take one more step. -/
  push : σ → α → σ

/-- The unit collector forgets every step. -/
instance {α : Type v} : Collector Unit α where
  push _ _ := ()

/-- An array keeps every step, in order. -/
instance {α : Type v} : Collector (Array α) α where
  push := Array.push

end Calculus
