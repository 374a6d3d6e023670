import TokenStation.Library.Saturating

/-!
# Token accounting

One exchange's token counts, in the host's vocabulary. A stream may report usage more than once, and
`absorb` folds the reports: a zero in a later report never erases an earlier count.
-/

namespace TokenStation

open Library

/-- The token counts of one exchange. -/
structure Usage where
  inputTokens : UInt64 := 0
  outputTokens : UInt64 := 0
  cacheReadTokens : UInt64 := 0
  explicitCacheReadTokens : UInt64 := 0
  cacheWriteTokens : UInt64 := 0
  cacheWrite5mTokens : UInt64 := 0
  cacheWrite1hTokens : UInt64 := 0
  reasoningTokens : UInt64 := 0
  deriving DecidableEq

namespace Usage

/-- The later count, unless it is zero. -/
def keep (slot later : UInt64) : UInt64 := if later ≠ 0 then later else slot

/-- Fold a later report in. -/
def absorb (usage later : Usage) : Usage where
  inputTokens := keep usage.inputTokens later.inputTokens
  outputTokens := keep usage.outputTokens later.outputTokens
  cacheReadTokens := keep usage.cacheReadTokens later.cacheReadTokens
  explicitCacheReadTokens := keep usage.explicitCacheReadTokens later.explicitCacheReadTokens
  cacheWriteTokens := keep usage.cacheWriteTokens later.cacheWriteTokens
  cacheWrite5mTokens := keep usage.cacheWrite5mTokens later.cacheWrite5mTokens
  cacheWrite1hTokens := keep usage.cacheWrite1hTokens later.cacheWrite1hTokens
  reasoningTokens := keep usage.reasoningTokens later.reasoningTokens

end Usage

/-- Providers keep their dialect's convention for cached input. This folds it into the host's. -/
def canonicalProviderUsage (provider : String) (usage : Usage) : Usage :=
  if provider = "anthropic" then
    { usage with
      inputTokens := Word.satAdd (Word.satAdd usage.inputTokens usage.cacheReadTokens)
        usage.cacheWriteTokens }
  else usage

end TokenStation
