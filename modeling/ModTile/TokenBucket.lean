import Mathlib.Tactic.GCongr
import Mathlib.Tactic.Linarith
import Mathlib.Tactic.Ring

/-!
# Token buckets

A bucket holds at most `size` tokens and is given one token every `rate` units of time.  Some
number of requests has been granted since a moment `start`, and the bucket has been filled up
to a moment `last`.  `Within` says that the requests and the tokens that are left are covered by
a full bucket, one more token, and the time from `start` to `last`.  Taking tokens and filling
the bucket keep it, and so the number of requests is bounded by the time that has passed.
-/

namespace TokenBucket

/-- The requests that were granted since `start` and the tokens that are left are covered. -/
def Within (size rate start granted tokens last : ℤ) : Prop :=
  rate * (granted + tokens) ≤ rate * (size + 1) + (last - start)

variable {size rate start granted tokens last : ℤ}

/-- The first request takes a token from a bucket that holds at most what it may hold at that
moment. -/
theorem within_first {now : ℤ} (hstart : start ≤ now)
    (h : rate * tokens + (now - last) ≤ rate * (size + 1)) :
  Within size rate start 1 (tokens - 1) last
  := by
  rw [Within, show 1 + (tokens - 1) = tokens by ring]
  linarith

/-- The first request is granted without a token, and leaves a full bucket. -/
theorem within_open (hstart : start ≤ last) :
  Within size rate start 1 size last
  := by
  rw [Within, add_comm 1 size]
  linarith

/-- A request takes a token. -/
theorem Within.take (h : Within size rate start granted tokens last) :
  Within size rate start (granted + 1) (tokens - 1) last
  := by
  rw [Within, show granted + 1 + (tokens - 1) = granted + tokens by ring]
  apply h

/-- Tokens are lost. -/
theorem Within.mono {tokens' : ℤ} (hrate : 0 ≤ rate) (htokens : tokens' ≤ tokens)
    (h : Within size rate start granted tokens last) :
  Within size rate start granted tokens' last
  := by
  have hle : rate * (granted + tokens') ≤ rate * (granted + tokens) := by gcongr
  apply hle.trans h

/-- The bucket is filled with the tokens for some time, as far as there is room for them. -/
theorem Within.refill (hrate : 0 ≤ rate) (n : ℤ)
    (h : Within size rate start granted tokens last) :
  Within size rate start granted (min size (tokens + n)) (last + rate * n)
  := by
  apply Within.mono hrate (min_le_right _ _)
  rw [Within] at h ⊢
  linarith

/-- The number of requests is bounded by the time from `start` on. -/
theorem Within.granted_le {now : ℤ} (hrate : 0 ≤ rate) (htokens : 0 ≤ tokens)
    (hlast : last ≤ now) (h : Within size rate start granted tokens last) :
  rate * granted ≤ rate * (size + 1) + (now - start)
  := by
  have hle : rate * granted ≤ rate * (granted + tokens) := by
    gcongr
    linarith
  rw [Within] at h
  linarith

end TokenBucket
