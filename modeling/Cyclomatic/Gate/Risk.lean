/-!
# Risk bands

A score falls into one of four bands.
-/

namespace Cyclomatic

/-- The risk of a score. -/
inductive Risk where
  | low
  | moderate
  | high
  | veryHigh
deriving DecidableEq, Repr

/-- Scores up to 10 are low, up to 20 moderate, up to 50 high. -/
def Risk.ofScore (score : UInt32) : Risk :=
  if score ≤ 10 then .low
  else if score ≤ 20 then .moderate
  else if score ≤ 50 then .high
  else .veryHigh

/-- The name of a band in running text. -/
def Risk.text : Risk → String
  | .low => "low"
  | .moderate => "moderate"
  | .high => "high"
  | .veryHigh => "very high"

/-- The name of a band in data. -/
def Risk.name : Risk → String
  | .low => "low"
  | .moderate => "moderate"
  | .high => "high"
  | .veryHigh => "very_high"

end Cyclomatic
