import Mathlib.Data.List.Induction
import Mathlib.Tactic.Ring

/-!
# Positional numbers, most significant digit first

`value b ds` is the number that the digits `ds` denote in base `b`, computed by the left fold that
programs use; `digits b n x` writes `x` in base `b` with exactly `n` digits, padded with zeros. On
numbers below `b ^ n` and digits below `b` the two are inverse to each other (`value_digits`,
`digits_value`).
-/

namespace Positional

/-- The number denoted by `ds` in base `b`. A digit may exceed the base. -/
def value (b : Nat) (ds : List Nat) : Nat := ds.foldl (fun acc d => acc * b + d) 0

/-- `x` in base `b` with `n` digits (its last `n`, if it has more). -/
def digits (b : Nat) : Nat → Nat → List Nat
  | 0,     _ => []
  | n + 1, x => digits b n (x / b) ++ [x % b]

@[simp] theorem value_nil (b : Nat) : value b [] = 0 := rfl

@[simp] theorem value_snoc (b : Nat) (ds : List Nat) (d : Nat) :
    value b (ds ++ [d]) = value b ds * b + d := by
  simp [value, List.foldl_append]

@[simp] theorem length_digits (b n x : Nat) : (digits b n x).length = n := by
  induction n generalizing x with
  | zero => rfl
  | succ n ih => simp [digits, ih]

theorem digits_lt {b : Nat} (hb : 0 < b) (n x : Nat) : ∀ d ∈ digits b n x, d < b := by
  induction n generalizing x with
  | zero => simp [digits]
  | succ n ih =>
      intro d hd
      rcases List.mem_append.mp hd with h | h
      · exact ih (x / b) d h
      · rw [List.mem_singleton.mp h]
        exact Nat.mod_lt x hb

theorem value_digits {b n x : Nat} (hx : x < b ^ n) : value b (digits b n x) = x := by
  induction n generalizing x with
  | zero =>
      rw [Nat.pow_zero] at hx
      show 0 = x
      omega
  | succ n ih =>
      have hdiv : x / b < b ^ n := by
        apply Nat.div_lt_of_lt_mul
        rwa [Nat.mul_comm, ← Nat.pow_succ]
      show value b (digits b n (x / b) ++ [x % b]) = x
      rw [value_snoc, ih hdiv]
      exact Nat.div_add_mod' x b

theorem digits_value {b : Nat} (hb : 0 < b) {ds : List Nat} (hds : ∀ d ∈ ds, d < b) :
    digits b ds.length (value b ds) = ds := by
  induction ds using List.reverseRecOn with
  | nil => rfl
  | append_singleton ds d ih =>
      have hd : d < b := hds d (by simp)
      have hrest : ∀ e ∈ ds, e < b := fun e he => hds e (by simp [he])
      rw [List.length_append, List.length_singleton, value_snoc]
      show digits b ds.length ((value b ds * b + d) / b) ++ [(value b ds * b + d) % b] = ds ++ [d]
      have hquot : (value b ds * b + d) / b = value b ds := by
        rw [Nat.add_comm, Nat.add_mul_div_right _ _ hb, Nat.div_eq_of_lt hd, Nat.zero_add]
      have hrem : (value b ds * b + d) % b = d := by
        rw [Nat.add_comm, Nat.add_mul_mod_self_right, Nat.mod_eq_of_lt hd]
      rw [hquot, hrem, ih hrest]

/-- Digits of at most `m` each, which may be more than the base allows, denote at most
`m · 11…1`. -/
theorem value_le {c m : Nat} {ds : List Nat} (hds : ∀ d ∈ ds, d ≤ m) :
    c * value (c + 1) ds + m ≤ m * (c + 1) ^ ds.length := by
  induction ds using List.reverseRecOn with
  | nil => simp
  | append_singleton ds d ih =>
      have hd : c * d ≤ c * m := Nat.mul_le_mul_left c (hds d (by simp))
      have hrest := Nat.mul_le_mul_right (c + 1) (ih fun e he => hds e (by simp [he]))
      rw [value_snoc, List.length_append, List.length_singleton, Nat.pow_succ]
      calc c * (value (c + 1) ds * (c + 1) + d) + m
          = c * value (c + 1) ds * (c + 1) + c * d + m := by ring
        _ ≤ c * value (c + 1) ds * (c + 1) + c * m + m := by omega
        _ = (c * value (c + 1) ds + m) * (c + 1) := by ring
        _ ≤ m * (c + 1) ^ ds.length * (c + 1) := hrest
        _ = m * ((c + 1) ^ ds.length * (c + 1)) := by ring

end Positional
