import CatalogChain.Settings
import CatalogChain.Text.Integer
import Mathlib.Tactic.SplitIfs

/-!
# Which settings an environment can give

Every number that is read from a variable is below a bound, and most are not zero
(`Settings.InRange`).  That is all that is asked of them: any settings within these ranges are given
by some environment, which holds each of them in decimal notation (`Settings.toVariables`).  So the
settings that are accepted are exactly those in range (`Settings.exists_ofVariables_iff`).
-/

namespace CatalogChain

/-! ## Numbers without blanks -/

namespace Text

theorem isBlank_eq_false_of_isDigit {c : Char} (h : c.isDigit = true) : isBlank c = false := by
  simp only [Char.isDigit, Bool.and_eq_true, decide_eq_true_eq] at h
  obtain ⟨hlow, hhigh⟩ := h
  have hlow : 48 ≤ c.toNat := hlow
  have hhigh : c.toNat ≤ 57 := hhigh
  simp [isBlank, blankRanges]
  omega

theorem trimStart_of_not_blank {cs : List Char} (h : ∀ c ∈ cs, isBlank c = false) :
    trimStart cs = cs := by
  cases cs with
  | nil => rfl
  | cons c cs => rw [trimStart, List.dropWhile_cons_of_neg]; simp [h c List.mem_cons_self]

/-- A text without blanks is as it is. -/
theorem trim_of_not_blank {cs : List Char} (h : ∀ c ∈ cs, isBlank c = false) : trim cs = cs := by
  rw [trim, trimStart_of_not_blank h,
    trimStart_of_not_blank fun c hc => h c (List.mem_reverse.mp hc), List.reverse_reverse]

theorem trim_ofNat (n : Nat) : trim (ofNat n).toList = (ofNat n).toList := by
  refine trim_of_not_blank fun c hc => ?_
  rw [ofNat, String.toList_ofList] at hc
  exact isBlank_eq_false_of_isDigit (Nat.isDigit_of_mem_toDigits (by decide) (by decide) hc)

end Text

namespace Settings

/-! ## Numbers from variables -/

section Numbers
variable {vars : Variables} {name : String} {bound default n : Nat}

theorem lt_of_number (hd : default < bound) (h : number vars name bound default = .ok n) :
    n < bound := by
  unfold number at h
  split at h
  · cases h
    exact hd
  · split at h
    · cases h
    · next hn =>
      cases h
      exact of_decide_eq_true (Option.filter_eq_some_iff.mp hn).2

theorem number_of_get? (hv : Entries.get? name vars = some (Text.ofNat n)) (hn : n < bound) :
    number vars name bound default = .ok n := by
  have hread : (Text.readNat? (Text.trim (Text.ofNat n).toList)).filter (· < bound) = some n := by
    rw [Text.trim_ofNat, Text.readNat?_ofNat]
    exact Option.filter_some_pos (decide_eq_true hn)
  rw [number, hv]
  simp only [hread]

theorem range_of_positive (hd : default < bound) (h : positive vars name bound default = .ok n) :
    0 < n ∧ n < bound := by
  unfold positive at h
  split at h
  · cases h
  · next hm =>
    split_ifs at h with hzero
    cases h
    exact ⟨Nat.pos_of_ne_zero hzero, lt_of_number hd hm⟩

theorem positive_of_get? (hv : Entries.get? name vars = some (Text.ofNat n)) (hpos : 0 < n)
    (hn : n < bound) : positive vars name bound default = .ok n := by
  rw [positive, number_of_get? hv hn]
  exact if_neg (Nat.ne_of_gt hpos)

end Numbers

/-! ## Settings -/

/-- **Settings in range**: each number is within the bounds of its variable. -/
structure InRange (s : Settings) : Prop where
  port : s.port < twoTo 16
  lockTtl : 0 < s.writes.lockTtl ∧ s.writes.lockTtl < twoTo 64
  sweepInterval : 0 < s.sweepInterval ∧ s.sweepInterval < twoTo 64
  attempts : 0 < s.writes.attempts ∧ s.writes.attempts < twoTo 32
  backoff : s.writes.backoff < twoTo 64
  concurrency : 0 < s.writes.concurrency ∧ s.writes.concurrency < twoTo 64
  feedCapacity : 0 < s.feedCapacity ∧ s.feedCapacity < twoTo 64

/-- **An environment** that holds settings. -/
def toVariables (s : Settings) : Variables :=
  [("HOST", s.host),
    ("PORT", Text.ofNat s.port),
    ("ENVIRONMENT", s.environment),
    ("LOCK_TTL_MS", Text.ofNat s.writes.lockTtl),
    ("LOCK_SWEEP_INTERVAL_MS", Text.ofNat s.sweepInterval),
    ("LOCK_RETRY_ATTEMPTS", Text.ofNat s.writes.attempts),
    ("LOCK_RETRY_BACKOFF_MS", Text.ofNat s.writes.backoff),
    ("BATCH_CONCURRENCY", Text.ofNat s.writes.concurrency),
    ("PUBLISHER_CAPACITY", Text.ofNat s.feedCapacity)]

/-- Readings one after the other succeed if each of them does. -/
theorem exists_of_bind_eq_ok {ε α β : Type} {x : Except ε α} {f : α → Except ε β} {b : β}
    (h : x >>= f = .ok b) : ∃ a, x = .ok a ∧ f a = .ok b := by
  cases x with
  | error e => cases h
  | ok a => exact ⟨a, rfl, h⟩

/-- **What an environment gives is in range.** -/
theorem inRange_of_ofVariables {vars : Variables} {s : Settings} (h : ofVariables vars = .ok s) :
    s.InRange := by
  unfold ofVariables at h
  obtain ⟨port, hport, h⟩ := exists_of_bind_eq_ok h
  obtain ⟨lockTtl, hlockTtl, h⟩ := exists_of_bind_eq_ok h
  obtain ⟨sweepInterval, hsweepInterval, h⟩ := exists_of_bind_eq_ok h
  obtain ⟨attempts, hattempts, h⟩ := exists_of_bind_eq_ok h
  obtain ⟨backoff, hbackoff, h⟩ := exists_of_bind_eq_ok h
  obtain ⟨concurrency, hconcurrency, h⟩ := exists_of_bind_eq_ok h
  obtain ⟨feedCapacity, hfeedCapacity, h⟩ := exists_of_bind_eq_ok h
  cases h
  exact {
    port := lt_of_number (by decide) hport
    lockTtl := range_of_positive (by decide) hlockTtl
    sweepInterval := range_of_positive (by decide) hsweepInterval
    attempts := range_of_positive (by decide) hattempts
    backoff := lt_of_number (by decide) hbackoff
    concurrency := range_of_positive (by decide) hconcurrency
    feedCapacity := range_of_positive (by decide) hfeedCapacity }

/-- **Settings in range are read back** from an environment that holds them. -/
theorem ofVariables_toVariables {s : Settings} (h : s.InRange) :
    ofVariables s.toVariables = .ok s := by
  unfold ofVariables
  rw [number_of_get? rfl h.port, positive_of_get? rfl h.lockTtl.1 h.lockTtl.2,
    positive_of_get? rfl h.sweepInterval.1 h.sweepInterval.2,
    positive_of_get? rfl h.attempts.1 h.attempts.2, number_of_get? rfl h.backoff,
    positive_of_get? rfl h.concurrency.1 h.concurrency.2,
    positive_of_get? rfl h.feedCapacity.1 h.feedCapacity.2]
  rfl

/-- **The settings that some environment gives** are those in range. -/
theorem exists_ofVariables_iff {s : Settings} :
    (∃ vars, ofVariables vars = .ok s) ↔ s.InRange :=
  ⟨fun ⟨_, h⟩ => inRange_of_ofVariables h, fun h => ⟨s.toVariables, ofVariables_toVariables h⟩⟩

end Settings

end CatalogChain
