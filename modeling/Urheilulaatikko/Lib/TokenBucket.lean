import Mathlib.Data.List.Basic
import Mathlib.Algebra.Order.Ring.Nat
import Mathlib.Logic.Function.Basic

/-!
# Token buckets

The generic cell rate algorithm, one bucket per key. A bucket holds at most `burst` tokens, starts
full and regains one token per `period`; a request is admitted iff a token is there for it. Tokens
grow back continuously, so a bucket is kept as a credit of time, in which one token is worth one
period.

* `period_mul_admitted_le`, `admitted_le` — at most `burst + (w - 1) / period` requests of one key
  are admitted in a window of length `w`, wherever it starts.
* `serve_burst_then_one` — and a bucket admits a whole burst and one more request a period later.
* `filter_serve` — keys do not share: what happens to one does not depend on the others.
* `filter_serve_eq_iff` — a key is never refused iff its requests conform to its quota.
* `serve_steadily` — and the bound of `admitted_le` is reached.

A program that uses a limiter does not see its buckets, only its answers. `Limiter` is a limiter as
its caller knows it, and `Limiter.Implements` says that it answers as token buckets would; what is
known of the buckets is then known of the limiter (`Limiter.Implements.serve_eq`).
-/

namespace TokenBucket

structure Quota where
  period : Nat
  burst  : Nat
  deriving DecidableEq, Repr

/-- The credit of a bucket, as of `time`. -/
structure Bucket where
  credit : Nat
  time   : Nat
  deriving DecidableEq, Repr

def Quota.capacity (q : Quota) : Nat := q.burst * q.period

def Quota.full (q : Quota) : Bucket := ⟨q.capacity, 0⟩

def Bucket.creditAt (q : Quota) (b : Bucket) (now : Nat) : Nat :=
  min q.capacity (b.credit + (now - b.time))

/-- One request at `now`: is it admitted, and what is left. -/
def Bucket.take (q : Quota) (b : Bucket) (now : Nat) : Bucket × Bool :=
  if q.period ≤ b.creditAt q now then (⟨b.creditAt q now - q.period, now⟩, true)
  else (⟨b.creditAt q now, now⟩, false)

section Keyed

variable {κ α : Type*} [DecidableEq κ] (q : Quota) (key : α → κ) (time : α → Nat)

/-- The requests that are admitted, each by the bucket of its key. -/
def serve : (κ → Bucket) → List α → List α
  | _,       []      => []
  | buckets, a :: as =>
      let (b, admitted) := (buckets (key a)).take q (time a)
      let rest := serve (Function.update buckets (key a) b) as
      if admitted then a :: rest else rest

/-- Both outcomes of one request at once. -/
theorem serve_cons (buckets : κ → Bucket) (a : α) (as : List α) :
    ∃ b rest, rest = serve q key time (Function.update buckets (key a) b) as ∧ b.time = time a ∧
      (serve q key time buckets (a :: as) = a :: rest ∧
          b.credit + q.period = (buckets (key a)).creditAt q (time a) ∨
        serve q key time buckets (a :: as) = rest ∧
          b.credit = (buckets (key a)).creditAt q (time a)) := by
  by_cases h : q.period ≤ (buckets (key a)).creditAt q (time a)
  · refine ⟨⟨(buckets (key a)).creditAt q (time a) - q.period, time a⟩, _, rfl, rfl, .inl ⟨?_, ?_⟩⟩
    · simp only [serve, Bucket.take, if_pos h]
      rfl
    · exact Nat.sub_add_cancel h
  · refine ⟨⟨(buckets (key a)).creditAt q (time a), time a⟩, _, rfl, rfl, .inr ⟨?_, rfl⟩⟩
    simp only [serve, Bucket.take, if_neg h]
    rfl

theorem serve_sublist (buckets : κ → Bucket) (as : List α) :
    (serve q key time buckets as).Sublist as := by
  induction as generalizing buckets with
  | nil => exact .slnil
  | cons a as ih =>
      obtain ⟨b, rest, hrest, -, ⟨hserve, -⟩ | ⟨hserve, -⟩⟩ := serve_cons q key time buckets a as
      · rw [hserve, hrest]
        exact (ih _).cons_cons a
      · rw [hserve, hrest]
        exact (ih _).cons a

/-! ## No window admits much more than a burst

What is admitted is paid for, and a bucket has no more to spend in a window than its capacity and
what it regains there. -/

/-- Requests of key `k` from `t` on and before `stop`. -/
def inWindow (k : κ) (t stop : Nat) (a : α) : Bool := key a = k ∧ t ≤ time a ∧ time a < stop

theorem countP_inWindow_eq_zero (buckets : κ → Bucket) {as : List α} (k : κ) (t : Nat) {stop : Nat}
    (h : ∀ a ∈ as, stop ≤ time a) :
    (serve q key time buckets as).countP (inWindow key time k t stop) = 0 := by
  rw [List.countP_eq_zero]
  intro a ha hin
  have hle := h a ((serve_sublist q key time buckets as).subset ha)
  simp only [inWindow, decide_eq_true_eq] at hin
  omega

/-- Every admitted request costs a period of credit; what the bucket had at the start of the window
(or has now, if that is later) and what it regains until the end of the window pays for all of
them. -/
theorem period_mul_admitted_le (buckets : κ → Bucket) {as : List α} (k : κ) (t stop : Nat)
    (hsorted : as.Pairwise fun a b => time a ≤ time b)
    (hpast : ∀ a ∈ as, (buckets k).time ≤ time a) (hstart : max t (buckets k).time < stop) :
    q.period * (serve q key time buckets as).countP (inWindow key time k t stop) + 1 +
        max t (buckets k).time ≤
      (buckets k).creditAt q (max t (buckets k).time) + stop := by
  induction as generalizing buckets with
  | nil =>
      show q.period * 0 + 1 + _ ≤ _
      omega
  | cons a as ih =>
      rw [List.pairwise_cons] at hsorted
      obtain ⟨b, rest, rfl, hbtime, hserve⟩ := serve_cons q key time buckets a as
      by_cases hk : key a = k
      · subst hk
        have hself : Function.update buckets (key a) b (key a) = b := Function.update_self ..
        have hle := hpast a (by simp)
        by_cases hbefore : time a < stop
        · have hrest := ih (Function.update buckets (key a) b) hsorted.2
            (by rw [hself, hbtime]; exact hsorted.1) (by rw [hself, hbtime]; omega)
          rw [hself, hbtime] at hrest
          have hcredit : b.creditAt q (max t (time a)) =
              min q.capacity (b.credit + (max t (time a) - time a)) := by
            rw [Bucket.creditAt, hbtime]
          have hnow : (buckets (key a)).creditAt q (time a) =
            min q.capacity ((buckets (key a)).credit + (time a - (buckets (key a)).time)) := rfl
          have hgoal : (buckets (key a)).creditAt q (max t (buckets (key a)).time) =
            min q.capacity ((buckets (key a)).credit +
              (max t (buckets (key a)).time - (buckets (key a)).time)) := rfl
          obtain ⟨heq, hcost⟩ | ⟨heq, hcost⟩ := hserve
          · rw [heq]
            -- an admission before the window costs credit too, but is not counted
            by_cases hin : t ≤ time a
            · rw [List.countP_cons_of_pos (by simp [inWindow, hin, hbefore]), Nat.mul_add,
                Nat.mul_one]
              omega
            · rw [List.countP_cons_of_neg (by simp [inWindow, hin])]
              omega
          · rw [heq]
            omega
        · -- from here on everything is past the window
          have hlate : ∀ c ∈ a :: as, stop ≤ time c := by
            intro c hc
            rcases List.mem_cons.mp hc with rfl | hc
            · omega
            · have := hsorted.1 c hc
              omega
          rw [countP_inWindow_eq_zero q key time buckets (key a) t hlate]
          omega
      · -- a request of another key leaves the bucket of `k` alone
        have hother : Function.update buckets (key a) b k = buckets k :=
          Function.update_of_ne (Ne.symm hk) ..
        have hrest := ih (Function.update buckets (key a) b) hsorted.2
          (by rw [hother]; exact fun c hc => hpast c (by simp [hc])) (by rw [hother]; exact hstart)
        rw [hother] at hrest
        have hcount : (serve q key time buckets (a :: as)).countP (inWindow key time k t stop) =
            (serve q key time (Function.update buckets (key a) b) as).countP
              (inWindow key time k t stop) := by
          obtain ⟨heq, -⟩ | ⟨heq, -⟩ := hserve
          · rw [heq, List.countP_cons_of_neg (by simp [inWindow, hk])]
          · rw [heq]
        rw [hcount]
        exact hrest

/-- **In any window of length `w`** a key gets at most `burst + (w - 1) / period` requests
through. -/
theorem admitted_le {q : Quota} (hperiod : 0 < q.period) {as : List α}
    (hsorted : as.Pairwise fun a b => time a ≤ time b) (k : κ) (t : Nat) {w : Nat} (hw : 0 < w) :
    (serve q key time (fun _ => q.full) as).countP (inWindow key time k t (t + w)) ≤
      q.burst + (w - 1) / q.period := by
  have h := period_mul_admitted_le q key time (fun _ => q.full) k t (t + w) hsorted
    (fun a _ => Nat.zero_le _) (by simp [Quota.full]; omega)
  have hcap : q.full.creditAt q (max t q.full.time) ≤ q.burst * q.period := Nat.min_le_left _ _
  have hstart : max t q.full.time = t := Nat.max_eq_left (Nat.zero_le t)
  rw [hstart] at h hcap
  rw [← Nat.add_mul_div_right _ _ hperiod |>.trans (Nat.add_comm _ _),
    Nat.le_div_iff_mul_le hperiod, Nat.mul_comm]
  omega

/-! ## A burst, and one more

The burst at once empties the bucket, and one period later there is a token again. -/

theorem serve_burst_then_one {q : Quota} (hburst : 0 < q.burst) {a b : α} (hkey : key b = key a)
    (ha : time a = 0) (hb : time b = q.period) :
    serve q key time (fun _ => q.full) (List.replicate q.burst a ++ [b]) =
      List.replicate q.burst a ++ [b] := by
  -- `n` tokens are left, and `n` requests still arrive at time 0
  have hmain : ∀ (n : Nat) (buckets : κ → Bucket), n ≤ q.burst →
      buckets (key a) = ⟨n * q.period, 0⟩ →
      serve q key time buckets (List.replicate n a ++ [b]) = List.replicate n a ++ [b] := by
    intro n
    induction n with
    | zero =>
        intro buckets _ hbucket
        have hcap : q.period ≤ q.capacity := Nat.le_mul_of_pos_left _ hburst
        have hcredit : q.period ≤ (buckets (key b)).creditAt q (time b) := by
          rw [hkey, hbucket, hb]
          simp [Bucket.creditAt, hcap]
        simp [serve, Bucket.take, if_pos hcredit]
    | succ n ih =>
        intro buckets hn hbucket
        have hcap : (n + 1) * q.period ≤ q.capacity := Nat.mul_le_mul_right _ hn
        have hcredit : (buckets (key a)).creditAt q (time a) = (n + 1) * q.period := by
          rw [hbucket, ha]
          simp [Bucket.creditAt, hcap]
        have henough : q.period ≤ (n + 1) * q.period := Nat.le_mul_of_pos_left _ (by omega)
        have hleft : (n + 1) * q.period - q.period = n * q.period := by
          rw [Nat.add_mul, Nat.one_mul, Nat.add_sub_cancel]
        rw [List.replicate_succ, List.cons_append]
        simp only [serve, Bucket.take, hcredit, if_pos henough, hleft, if_true]
        rw [ih _ (by omega) (by rw [Function.update_self, ha])]
  exact hmain q.burst _ (Nat.le_refl _) rfl

/-! ## Keys do not share

A key has its own bucket, so its requests fare as they would alone. -/

/-- Only the buckets of the keys that occur matter. -/
theorem serve_congr {buckets buckets' : κ → Bucket} {as : List α}
    (h : ∀ a ∈ as, buckets (key a) = buckets' (key a)) :
    serve q key time buckets as = serve q key time buckets' as := by
  induction as generalizing buckets buckets' with
  | nil => rfl
  | cons a as ih =>
      have ha := h a List.mem_cons_self
      have hrest : ∀ b, serve q key time (Function.update buckets (key a) b) as =
          serve q key time (Function.update buckets' (key a) b) as := by
        intro b
        apply ih
        intro c hc
        by_cases hk : key c = key a
        · rw [hk, Function.update_self, Function.update_self]
        · rw [Function.update_of_ne hk, Function.update_of_ne hk]
          exact h c (List.mem_cons_of_mem a hc)
      simp only [serve, ha, hrest]

/-- What happens to the requests of a key is what happens without the others. -/
theorem filter_serve (buckets : κ → Bucket) (as : List α) (k : κ) :
    (serve q key time buckets as).filter (key · = k) =
      serve q key time buckets (as.filter (key · = k)) := by
  induction as generalizing buckets with
  | nil => rfl
  | cons a as ih =>
      by_cases hk : key a = k
      · rw [List.filter_cons_of_pos (by simpa using hk)]
        simp only [serve]
        split
        · rw [List.filter_cons_of_pos (by simpa using hk), ih]
        · rw [ih]
      · -- a request of another key moves its own bucket only
        have hother : ∀ b, serve q key time (Function.update buckets (key a) b)
            (as.filter (key · = k)) = serve q key time buckets (as.filter (key · = k)) := by
          intro b
          apply serve_congr
          intro c hc
          have hck : key c = k := by simpa using (List.mem_filter.mp hc).2
          rw [Function.update_of_ne]
          rw [hck]
          exact Ne.symm hk
        rw [List.filter_cons_of_neg (by simpa using hk)]
        simp only [serve]
        split
        · rw [List.filter_cons_of_neg (by simpa using hk), ih, hother]
        · rw [ih, hother]

/-! ## Who is never refused

The other side of the bound: who asks for no more than any window pays for is never refused. -/

/-- The requests of a key conform to a quota: an interval of length `w` holds no more of them than
a burst and one for each period of `w`. -/
def Conforms (k : κ) (as : List α) : Prop :=
  ∀ t w, as.countP (inWindow key time k t (t + w + 1)) ≤ q.burst + w / q.period

/-- As long as what the bucket has and what it regains pays for every request so far, and no
interval asks for more than a full bucket and what it regains, everything is admitted. -/
theorem serve_eq_self {buckets : κ → Bucket} {as : List α} {k : κ} (hkey : ∀ a ∈ as, key a = k)
    (hsorted : as.Pairwise fun a b => time a ≤ time b)
    (hpast : ∀ a ∈ as, (buckets k).time ≤ time a)
    (hstart : ∀ u, (buckets k).time ≤ u →
      q.period * as.countP (time · ≤ u) ≤ (buckets k).credit + (u - (buckets k).time))
    (hwindow : ∀ t u, t ≤ u →
      q.period * as.countP (fun a => t ≤ time a ∧ time a ≤ u) ≤ q.capacity + (u - t)) :
    serve q key time buckets as = as := by
  induction as generalizing buckets with
  | nil => rfl
  | cons a as ih =>
      rw [List.pairwise_cons] at hsorted
      have ha : key a = k := hkey a List.mem_cons_self
      have hle := hpast a List.mem_cons_self
      -- from `time a` on, every request so far counts, and `a` is one of them
      have hcount : ∀ u, time a ≤ u → (a :: as).countP (time · ≤ u) = as.countP (time · ≤ u) + 1 :=
        fun u hu => List.countP_cons_of_pos (by simpa using hu)
      have hcount' : ∀ u, time a ≤ u →
          (a :: as).countP (fun c => time a ≤ time c ∧ time c ≤ u) =
            as.countP (time · ≤ u) + 1 := by
        intro u hu
        rw [← hcount u hu]
        apply List.countP_congr
        intro c hc
        have hac : time a ≤ time c := by
          rcases List.mem_cons.mp hc with rfl | hc
          · exact Nat.le_refl _
          · exact hsorted.1 c hc
        simp [hac]
      have hpaid : ∀ u, time a ≤ u → q.period * as.countP (time · ≤ u) + q.period ≤
          (buckets k).creditAt q (time a) + (u - time a) := by
        intro u hu
        have h1 := hstart u (Nat.le_trans hle hu)
        have h2 := hwindow (time a) u hu
        rw [hcount u hu, Nat.mul_add, Nat.mul_one] at h1
        rw [hcount' u hu, Nat.mul_add, Nat.mul_one] at h2
        have hcredit : (buckets k).creditAt q (time a) =
          min q.capacity ((buckets k).credit + (time a - (buckets k).time)) := rfl
        omega
      have henough : q.period ≤ (buckets k).creditAt q (time a) := by
        have := hpaid (time a) (Nat.le_refl _)
        omega
      simp only [serve, ha, Bucket.take, if_pos henough, if_true]
      congr 1
      apply ih (fun c hc => hkey c (List.mem_cons_of_mem a hc)) hsorted.2
      · rw [Function.update_self]
        exact hsorted.1
      · rw [Function.update_self]
        intro u hu
        have := hpaid u hu
        show q.period * _ ≤ (buckets k).creditAt q (time a) - q.period + (u - time a)
        omega
      · intro t u htu
        refine Nat.le_trans (Nat.mul_le_mul_left _ ?_) (hwindow t u htu)
        exact (List.sublist_cons_self a as).countP_le

theorem countP_filter_inWindow (k : κ) (t stop : Nat) (as : List α) :
    (as.filter (key · = k)).countP (inWindow key time k t stop) =
      as.countP (inWindow key time k t stop) := by
  rw [List.countP_filter]
  apply List.countP_congr
  intro a _
  simp only [inWindow, Bool.and_eq_true, decide_eq_true_eq]
  tauto

/-- **A key is never refused iff its requests conform**, whatever the requests of the others. -/
theorem filter_serve_eq_iff {q : Quota} (hperiod : 0 < q.period) {as : List α}
    (hsorted : as.Pairwise fun a b => time a ≤ time b) (k : κ) :
    (serve q key time (fun _ => q.full) as).filter (key · = k) = as.filter (key · = k) ↔
      Conforms q key time k as := by
  constructor
  · intro hall t w
    have hle := admitted_le key time hperiod hsorted k t (Nat.succ_pos w)
    rw [← countP_filter_inWindow, hall, countP_filter_inWindow] at hle
    exact hle
  · intro hconforms
    rw [filter_serve]
    -- in terms of credit: a period for each request of an interval
    have hwindow : ∀ t u, t ≤ u → q.period *
        (as.filter (key · = k)).countP (fun a => t ≤ time a ∧ time a ≤ u) ≤
          q.capacity + (u - t) := by
      intro t u htu
      have hle := hconforms t (u - t)
      have heq : (as.filter (key · = k)).countP (fun a => t ≤ time a ∧ time a ≤ u) =
          as.countP (inWindow key time k t (t + (u - t) + 1)) := by
        rw [← countP_filter_inWindow]
        apply List.countP_congr
        intro a ha
        have hk : key a = k := by simpa using (List.mem_filter.mp ha).2
        have hstop : t + (u - t) + 1 = u + 1 := by omega
        simp only [inWindow, hk, hstop, decide_eq_true_eq, true_and, Nat.lt_succ_iff]
      rw [heq]
      calc q.period * as.countP (inWindow key time k t (t + (u - t) + 1))
          ≤ q.period * (q.burst + (u - t) / q.period) := Nat.mul_le_mul_left _ hle
        _ = q.burst * q.period + q.period * ((u - t) / q.period) := by
            rw [Nat.mul_add, Nat.mul_comm q.period q.burst]
        _ ≤ q.capacity + (u - t) := Nat.add_le_add_left (Nat.mul_div_le _ _) _
    apply serve_eq_self q key time (k := k)
    · intro a ha
      simpa using (List.mem_filter.mp ha).2
    · exact hsorted.sublist List.filter_sublist
    · intro a _
      exact Nat.zero_le _
    · intro u _
      have hle := hwindow 0 u (Nat.zero_le u)
      simpa [Quota.full] using hle
    · exact hwindow

/-! ## The bound is reached

A burst at the start and then one request a period: all of them are admitted, and a window of any
length can be filled with them up to the bound. -/

/-- A burst at time 0 and then one request a period. -/
def steady (q : Quota) (n : Nat) : List Nat :=
  List.replicate q.burst 0 ++ (List.range n).map fun j => (j + 1) * q.period

theorem pairwise_steady (q : Quota) (n : Nat) : (steady q n).Pairwise (· ≤ ·) := by
  rw [steady, List.pairwise_append]
  refine ⟨List.pairwise_replicate.mpr (.inr (Nat.le_refl _)), ?_, ?_⟩
  · rw [List.pairwise_map]
    apply List.pairwise_lt_range.imp
    intro i j hij
    exact Nat.mul_le_mul_right _ (by omega)
  · intro a ha b _
    rw [List.eq_of_mem_replicate ha]
    exact Nat.zero_le _

/-- One request a period leaves an empty bucket empty. -/
theorem serve_each_period {q : Quota} (hburst : 0 < q.burst) (mk : Nat → α) {k : κ}
    (hkey : ∀ t, key (mk t) = k) (htime : ∀ t, time (mk t) = t) (n first : Nat)
    {buckets : κ → Bucket} (hbucket : buckets k = ⟨0, first * q.period⟩) :
    serve q key time buckets ((List.range' first n).map fun j => mk ((j + 1) * q.period)) =
      (List.range' first n).map fun j => mk ((j + 1) * q.period) := by
  induction n generalizing first buckets with
  | zero => rfl
  | succ n ih =>
      have hcap : q.period ≤ q.capacity := Nat.le_mul_of_pos_left _ hburst
      have hcredit : (Bucket.mk 0 (first * q.period)).creditAt q ((first + 1) * q.period) =
          q.period := by
        rw [Bucket.creditAt, Nat.add_mul, Nat.one_mul, Nat.add_sub_cancel_left, Nat.zero_add]
        exact Nat.min_eq_right hcap
      rw [List.range'_succ, List.map_cons]
      simp only [serve, hkey, htime, hbucket, Bucket.take, hcredit, Nat.le_refl, if_true,
        Nat.sub_self]
      rw [ih (first + 1) (by rw [Function.update_self])]

/-- Everything is admitted. -/
theorem serve_steadily {q : Quota} (hburst : 0 < q.burst) (mk : Nat → α) {k : κ}
    (hkey : ∀ t, key (mk t) = k) (htime : ∀ t, time (mk t) = t) (n : Nat) :
    serve q key time (fun _ => q.full) ((steady q n).map mk) = (steady q n).map mk := by
  -- `m` tokens are left, and `m` requests still arrive at time 0
  have hmain : ∀ (m : Nat) (buckets : κ → Bucket), m ≤ q.burst →
      buckets k = ⟨m * q.period, 0⟩ →
      serve q key time buckets (List.replicate m (mk 0) ++
          (List.range' 0 n).map fun j => mk ((j + 1) * q.period)) =
        List.replicate m (mk 0) ++ (List.range' 0 n).map fun j => mk ((j + 1) * q.period) := by
    intro m
    induction m with
    | zero =>
        intro buckets _ hbucket
        rw [Nat.zero_mul] at hbucket
        exact serve_each_period key time hburst mk hkey htime n 0 (by rw [hbucket, Nat.zero_mul])
    | succ m ih =>
        intro buckets hm hbucket
        have hcap : (m + 1) * q.period ≤ q.capacity := Nat.mul_le_mul_right _ hm
        have hcredit : (Bucket.mk ((m + 1) * q.period) 0).creditAt q 0 = (m + 1) * q.period := by
          simp [Bucket.creditAt, hcap]
        have henough : q.period ≤ (m + 1) * q.period := Nat.le_mul_of_pos_left _ (by omega)
        have hleft : (m + 1) * q.period - q.period = m * q.period := by
          rw [Nat.add_mul, Nat.one_mul, Nat.add_sub_cancel]
        rw [List.replicate_succ, List.cons_append]
        simp only [serve, hkey, htime, hbucket, Bucket.take, hcredit, if_pos henough, hleft,
          if_true]
        rw [ih _ (by omega) (by rw [Function.update_self])]
  have hsteady : (steady q n).map mk = List.replicate q.burst (mk 0) ++
      (List.range' 0 n).map fun j => mk ((j + 1) * q.period) := by
    rw [steady, List.map_append, List.map_replicate, List.map_map, List.range_eq_range']
    rfl
  rw [hsteady]
  exact hmain q.burst _ (Nat.le_refl _) rfl

/-- All of it falls into a window of length `w` if its last request does. -/
theorem countP_steadily {q : Quota} (mk : Nat → α) {k : κ}
    (hkey : ∀ t, key (mk t) = k) (htime : ∀ t, time (mk t) = t) {w : Nat} (hw : 0 < w) :
    ((steady q ((w - 1) / q.period)).map mk).countP (inWindow key time k 0 (0 + w)) =
      q.burst + (w - 1) / q.period := by
  have hall : ∀ a ∈ (steady q ((w - 1) / q.period)).map mk,
      inWindow key time k 0 (0 + w) a = true := by
    intro a ha
    obtain ⟨t, ht, rfl⟩ := List.mem_map.mp ha
    have hlt : t < w := by
      rcases List.mem_append.mp ht with ht | ht
      · rw [List.eq_of_mem_replicate ht]
        exact hw
      · obtain ⟨j, hj, rfl⟩ := List.mem_map.mp ht
        rw [List.mem_range] at hj
        have hle : (j + 1) * q.period ≤ (w - 1) / q.period * q.period :=
          Nat.mul_le_mul_right _ hj
        have hdiv := Nat.div_mul_le_self (w - 1) q.period
        omega
    simp [inWindow, hkey, htime, hlt]
  rw [List.countP_eq_length.mpr hall, List.length_map, steady, List.length_append,
    List.length_replicate, List.length_map, List.length_range]

/-! ## Limiters

A limiter may keep what it likes between two questions. All that it can depend on is what it was
asked before, and so it is a function of that. -/

/-- A limiter, as its caller knows it: whether it lets a request of a key through at a time, given
the requests that it was asked about before. -/
abbrev Limiter (κ : Type*) := List (κ × Nat) → κ × Nat → Bool

/-- The requests that a limiter lets through, after it was asked about `asked`. -/
def Limiter.serve (limiter : Limiter κ) : List (κ × Nat) → List α → List α
  | _,     []      => []
  | asked, a :: as =>
      let rest := Limiter.serve limiter (asked ++ [(key a, time a)]) as
      if limiter asked (key a, time a) then a :: rest else rest

/-- The buckets after some requests. -/
def Quota.buckets (asked : List (κ × Nat)) : κ → Bucket :=
  asked.foldl (fun buckets request =>
    Function.update buckets request.1 ((buckets request.1).take q request.2).1) fun _ => q.full

/-- The limiter that keeps a bucket for every key. -/
def Quota.limiter : Limiter κ := fun asked request =>
  ((q.buckets asked request.1).take q request.2).2

/-- The limiter answers as the buckets do, as long as the clock does not go back. -/
def Limiter.Implements (limiter : Limiter κ) (q : Quota) : Prop :=
  ∀ asked request, (asked ++ [request]).Pairwise (fun a b => a.2 ≤ b.2) →
    limiter asked request = q.limiter asked request

theorem Quota.limiter_implements : (q.limiter : Limiter κ).Implements q := fun _ _ _ => rfl

theorem Quota.buckets_snoc (asked : List (κ × Nat)) (request : κ × Nat) :
    q.buckets (asked ++ [request]) = Function.update (q.buckets asked) request.1
      ((q.buckets asked request.1).take q request.2).1 := by
  rw [Quota.buckets, List.foldl_append]
  rfl

/-- A limiter that implements the quota lets through what the buckets admit. -/
theorem Limiter.Implements.serve_eq {limiter : Limiter κ} {q : Quota} (h : limiter.Implements q)
    {as : List α} (hsorted : as.Pairwise fun a b => time a ≤ time b) :
    limiter.serve key time [] as = TokenBucket.serve q key time (fun _ => q.full) as := by
  -- the questions so far, and the buckets they have left
  have hmain : ∀ asked : List (κ × Nat),
      (asked ++ as.map fun a => (key a, time a)).Pairwise (fun a b => a.2 ≤ b.2) →
      limiter.serve key time asked as = TokenBucket.serve q key time (q.buckets asked) as := by
    clear hsorted
    induction as with
    | nil =>
        intro asked _
        rfl
    | cons a as ih =>
        intro asked hasked
        rw [List.map_cons, List.append_cons] at hasked
        have hnow : limiter asked (key a, time a) =
            ((q.buckets asked (key a)).take q (time a)).2 :=
          h asked (key a, time a) (hasked.sublist (List.sublist_append_left _ _))
        have hrest := ih (asked ++ [(key a, time a)]) hasked
        rw [Quota.buckets_snoc] at hrest
        simp only [Limiter.serve, TokenBucket.serve, hnow, hrest]
  apply hmain []
  rw [List.nil_append, List.pairwise_map]
  exact hsorted

end Keyed

end TokenBucket
