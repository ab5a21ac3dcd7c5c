import Mathlib.Order.Bounds.Basic
import Urheilulaatikko.Server.RateLimit

/-!
# What the rate limit really promises

`RateLimit` shows that the limiter is not the budget its comment speaks of. This is what it is
instead, if `finish` does what it is documented to do and builds a token bucket per key: a subject
is never refused iff it keeps to the quota (`never_refused_iff`), and the busiest window there is
has `max + (window - 1) / period` requests of one subject in it (`busiest_window`), which is nearly
twice the budget, and up to three times if the division in `config` rounds.
-/

namespace Urheilulaatikko.Server.RateLimit

open Machine TokenBucket

/-- The requests that `extract` gives the key `subject`. -/
def hasKey (subject : String) (req : Request) : Bool := (extract req).toOption = some subject

/-! ## Who is never refused

The buckets are asked about keys, and what a subject keeps to is said of its requests. -/

/-- The quota, in the terms of the requests: from any time `t` on, in the next `w` nanoseconds (both
ends included), a burst and one request for each period. -/
def KeepsQuota (cfg : Config) (reqs : List Request) (subject : String) : Prop :=
  ∀ t w, reqs.countP (fun req => hasKey subject req ∧ t ≤ req.time ∧ req.time ≤ t + w) ≤
    cfg.rateLimitMaxRequests.toNat + w / refillNanos cfg

/-- Counting keyed requests is counting requests. -/
theorem countP_keyed (reqs : List Request) (subject : String) (t w : Nat) :
    (keyed reqs).countP (inWindow Prod.fst arrival subject t (t + w + 1)) =
      reqs.countP (fun req => hasKey subject req ∧ t ≤ req.time ∧ req.time ≤ t + w) := by
  induction reqs with
  | nil => rfl
  | cons req reqs ih =>
      cases hkey : (extract req).toOption with
      | none =>
          have hkeyed : keyed (req :: reqs) = keyed reqs := by simp [keyed, hkey]
          rw [hkeyed, ih, List.countP_cons_of_neg (by simp [hasKey, hkey])]
      | some key =>
          have hkeyed : keyed (req :: reqs) = (key, req) :: keyed reqs := by simp [keyed, hkey]
          have hlast : req.time < t + w + 1 ↔ req.time ≤ t + w := Nat.lt_succ_iff
          rw [hkeyed, List.countP_cons, List.countP_cons, ih]
          simp only [inWindow, arrival, hasKey, hkey, hlast, Option.some.injEq, decide_eq_true_eq]

/-- **A subject is never refused iff it keeps to the quota**, whatever the others send and in every
order of arrivals, for every limiter that `config` returns and that is a bucket per key. -/
theorem never_refused_iff {finish : Finish} {mode : Overflow} {cfg : Config}
    {limiter : Limiter String} (hfinish : finish.Documented)
    (hgcra : finish.Gcra (refillNanos cfg) cfg.rateLimitMaxRequests)
    (hlimiter : config finish mode cfg = some (.ok limiter)) {reqs : List Request}
    (hsorted : reqs.Pairwise fun a b => a.time ≤ b.time) (subject : String) :
    (admitted limiter reqs).filter (·.1 = subject) = (keyed reqs).filter (·.1 = subject) ↔
      KeepsQuota cfg reqs subject := by
  have himpl := implements_of_config hgcra hlimiter
  have hpos := pos_of_config hfinish hlimiter
  rw [admitted_eq himpl hsorted,
    filter_serve_eq_iff Prod.fst arrival hpos.1 (pairwise_keyed hsorted)]
  unfold Conforms KeepsQuota
  constructor
  · intro h t w
    rw [← countP_keyed]
    exact h t w
  · intro h t w
    rw [countP_keyed]
    exact h t w

/-- Seven requests at once are one more than the default quota, and not all of them get through. -/
theorem never_refused_default :
    config bucketFinish .panics (minimalConfig 6) = some (.ok (minimalLimiter 6)) ∧
      ¬ KeepsQuota (minimalConfig 6) (List.replicate 7 (requestAt 0)) "subject-1" ∧
      (admitted (minimalLimiter 6) (List.replicate 7 (requestAt 0))).filter (·.1 = "subject-1") ≠
        (keyed (List.replicate 7 (requestAt 0))).filter (·.1 = "subject-1") := by
  have hlimiter := config_minimal 6 (by decide) (by decide)
  have hrefused : ¬ KeepsQuota (minimalConfig 6) (List.replicate 7 (requestAt 0)) "subject-1" := by
    intro h
    exact absurd (h 0 0) (by decide +kernel)
  refine ⟨hlimiter, hrefused, ?_⟩
  intro h
  exact hrefused ((never_refused_iff bucketFinish_documented (bucketFinish_gcra _ _) hlimiter
    (by decide +kernel) "subject-1").mp h)

/-! ## The busiest window

A maximum over every sequence of requests and every window. The bound comes from the buckets, and
so does the sequence that reaches it; what remains is to compute it from the two numbers. -/

/-- The numbers of requests of one subject that reach a handler in a window of the configured
length. -/
def windowCounts (cfg : Config) (limiter : Limiter String) : Set Nat :=
  { n | ∃ (reqs : List Request) (subject : String) (t : Nat),
      reqs.Pairwise (fun a b => a.time ≤ b.time) ∧
      n = (admitted limiter reqs).countP
        (inWindow Prod.fst arrival subject t (t + windowNanos cfg)) }

/-- The number of requests in the busiest window. -/
def busiest (cfg : Config) : Nat :=
  cfg.rateLimitMaxRequests.toNat + (windowNanos cfg - 1) / refillNanos cfg

theorem windowNanos_pos {cfg : Config} (hperiod : 0 < refillNanos cfg) : 0 < windowNanos cfg := by
  apply Nat.pos_of_ne_zero
  intro hzero
  have hwindow : cfg.rateLimitWindowSeconds.toNat = 0 := by
    unfold windowNanos at hzero
    omega
  rw [refillNanos, hwindow] at hperiod
  simp at hperiod

theorem keyed_steady (times : List Nat) :
    keyed (times.map requestAt) = times.map fun t => ("subject-1", requestAt t) := by
  induction times with
  | nil => rfl
  | cons t times ih =>
      rw [List.map_cons, List.map_cons, ← ih]
      rfl

/-- No window has more. -/
theorem countP_admitted_le {cfg : Config} {limiter : Limiter String}
    (himpl : limiter.Implements (quota cfg)) (hperiod : 0 < refillNanos cfg) {reqs : List Request}
    (hsorted : reqs.Pairwise fun a b => a.time ≤ b.time) (subject : String) (t : Nat) :
    (admitted limiter reqs).countP
      (inWindow Prod.fst arrival subject t (t + windowNanos cfg)) ≤ busiest cfg := by
  rw [admitted_eq himpl hsorted]
  exact admitted_le Prod.fst arrival (q := quota cfg) hperiod (pairwise_keyed hsorted) subject t
    (windowNanos_pos hperiod)

/-- The busiest window is reached by the whole budget at once and then a request a period. -/
theorem isGreatest_busiest {cfg : Config} {limiter : Limiter String}
    (himpl : limiter.Implements (quota cfg)) (hperiod : 0 < (quota cfg).period)
    (hburst : 0 < (quota cfg).burst) : IsGreatest (windowCounts cfg limiter) (busiest cfg) := by
  constructor
  · let times := steady (quota cfg) ((windowNanos cfg - 1) / (quota cfg).period)
    have hsorted : (times.map requestAt).Pairwise fun a b => a.time ≤ b.time := by
      rw [List.pairwise_map]
      exact pairwise_steady ..
    refine ⟨times.map requestAt, "subject-1", 0, hsorted, ?_⟩
    rw [admitted_eq himpl hsorted, keyed_steady,
      serve_steadily Prod.fst arrival hburst (fun t => ("subject-1", requestAt t))
        (fun _ => rfl) (fun _ => rfl)]
    exact (countP_steadily Prod.fst arrival (q := quota cfg)
      (fun t => ("subject-1", requestAt t)) (fun _ => rfl) (fun _ => rfl)
      (windowNanos_pos hperiod)).symm
  · rintro n ⟨reqs, subject, t, hsorted, rfl⟩
    exact countP_admitted_le himpl hperiod hsorted subject t

/-- With a period of exactly `window / max`, a window regains all but one token of the budget. -/
theorem regained_of_exact {max p : Nat} (hmax : 0 < max) (hp : 0 < p) :
    (max * p - 1) / p = max - 1 := by
  obtain ⟨m, rfl⟩ : ∃ m, max = m + 1 := ⟨max - 1, by omega⟩
  have hsplit : (m + 1) * p - 1 = (p - 1) + p * m := by
    rw [Nat.add_mul, Nat.mul_comm m p]
    omega
  rw [hsplit, Nat.add_mul_div_left _ _ hp, Nat.div_eq_of_lt (by omega)]
  omega

/-- A period that was rounded down is at least half of the exact one. -/
theorem regained_of_rounded {max window : Nat} (hmax : 0 < max) (hle : max ≤ window) :
    (window * 1000000 - 1) / (window / max * 1000000) < 2 * max := by
  have hpos : 0 < window / max := Nat.div_pos hle hmax
  have hlt : window < max * (window / max) + max := Nat.lt_mul_div_succ window hmax
  have hhalf : max ≤ max * (window / max) := Nat.le_mul_of_pos_right _ hpos
  rw [Nat.div_lt_iff_lt_mul (by omega)]
  calc window * 1000000 - 1 < (max * (window / max) + max * (window / max)) * 1000000 := by omega
    _ = 2 * max * (window / max * 1000000) := by
        rw [← Nat.two_mul, Nat.mul_assoc, Nat.mul_assoc, Nat.mul_assoc]

/-- What the busiest window is in terms of the budget, unless the product in `config` wraps. -/
theorem busiest_bounds {cfg : Config} (hperiod : 0 < refillNanos cfg)
    (hmax : 0 < cfg.rateLimitMaxRequests.toNat)
    (hfits : cfg.rateLimitWindowSeconds.toNat * 1000 < 2 ^ 64) :
    (cfg.rateLimitMaxRequests.toNat ∣ cfg.rateLimitWindowSeconds.toNat * 1000 →
        busiest cfg = 2 * cfg.rateLimitMaxRequests.toNat - 1) ∧
      busiest cfg < 3 * cfg.rateLimitMaxRequests.toNat := by
  have hnanos : windowNanos cfg = cfg.rateLimitWindowSeconds.toNat * 1000 * 1000000 := by
    unfold windowNanos
    omega
  have hle : cfg.rateLimitMaxRequests.toNat ≤ cfg.rateLimitWindowSeconds.toNat * 1000 := by
    by_contra hlt
    rw [refillNanos_of_fits hfits, Nat.div_eq_of_lt (by omega), Nat.zero_mul] at hperiod
    exact absurd hperiod (Nat.lt_irrefl 0)
  unfold busiest
  rw [hnanos, refillNanos_of_fits hfits]
  constructor
  · rintro ⟨p, hp⟩
    have hp0 : 0 < p := by
      apply Nat.pos_of_ne_zero
      rintro rfl
      omega
    rw [hp, Nat.mul_div_cancel_left _ hmax, Nat.mul_assoc, regained_of_exact hmax (by omega)]
    omega
  · have := regained_of_rounded hmax hle
    omega

/-- **The busiest window**, for every limiter that `config` returns and that is a bucket per key:
the budget and what a window regains, and there is a sequence of requests that reaches it. Unless
the product in `config` wraps, that is one less than twice the budget if the division in `config` is
exact, and always less than three times the budget. -/
theorem busiest_window {finish : Finish} {mode : Overflow} {cfg : Config}
    {limiter : Limiter String} (hfinish : finish.Documented)
    (hgcra : finish.Gcra (refillNanos cfg) cfg.rateLimitMaxRequests)
    (hlimiter : config finish mode cfg = some (.ok limiter)) :
    IsGreatest (windowCounts cfg limiter) (busiest cfg) ∧
      (cfg.rateLimitWindowSeconds.toNat * 1000 < 2 ^ 64 →
        (cfg.rateLimitMaxRequests.toNat ∣ cfg.rateLimitWindowSeconds.toNat * 1000 →
          busiest cfg = 2 * cfg.rateLimitMaxRequests.toNat - 1) ∧
        busiest cfg < 3 * cfg.rateLimitMaxRequests.toNat) := by
  obtain ⟨hperiod, hburst⟩ := pos_of_config hfinish hlimiter
  refine ⟨isGreatest_busiest (implements_of_config hgcra hlimiter) hperiod hburst, ?_⟩
  intro hfits
  exact busiest_bounds hperiod hburst hfits

/-- Eleven requests in five minutes by default. -/
theorem busiest_window_default :
    config bucketFinish .panics (minimalConfig 6) = some (.ok (minimalLimiter 6)) ∧
      IsGreatest (windowCounts (minimalConfig 6) (minimalLimiter 6)) 11 := by
  have hlimiter := config_minimal 6 (by decide) (by decide)
  obtain ⟨hgreatest, hbound⟩ :=
    busiest_window bucketFinish_documented (bucketFinish_gcra _ _) hlimiter
  have heleven : busiest (minimalConfig 6) = 11 := (hbound (by decide)).1 (by decide)
  rw [heleven] at hgreatest
  exact ⟨hlimiter, hgreatest⟩

end Urheilulaatikko.Server.RateLimit
