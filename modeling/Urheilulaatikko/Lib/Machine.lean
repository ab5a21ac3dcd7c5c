import Mathlib.Data.List.Basic
import Mathlib.Algebra.Order.Ring.Int

/-!
# Machine arithmetic and indexing that can go wrong

Fixed-width operations and indexing with their failures made explicit: `none` is an overflow or an
index out of range. A program that never sees `none` behaves the same whether its overflow checks
are on or off; `Overflow` is for the one that may see it.
-/

namespace Machine

variable {α : Type*}

/-! ## Indexing

An index out of range is a panic. -/

/-- `v[i] = a` on a fixed-size array. -/
def setIndex {n : Nat} (v : Vector α n) (i : Nat) (a : α) : Option (Vector α n) :=
  if h : i < n then some (v.set i a h) else none

/-- `&xs[start..stop]`. -/
def slice (xs : List α) (start stop : Nat) : Option (List α) :=
  if start ≤ stop ∧ stop ≤ xs.length then some ((xs.drop start).take (stop - start)) else none

theorem setIndex_eq {n i : Nat} (v : Vector α n) (a : α) (h : i < n) :
    setIndex v i a = some (v.set i a h) := dif_pos h

theorem slice_eq {xs : List α} {start stop : Nat} (h : start ≤ stop) (h' : stop ≤ xs.length) :
    slice xs start stop = some ((xs.drop start).take (stop - start)) := if_pos ⟨h, h'⟩

/-! ## Unsigned arithmetic

With overflow checks an operation that does not fit is a panic, without them it wraps. -/

def addU32 (a b : UInt32) : Option UInt32 :=
  if a.toNat + b.toNat < 2 ^ 32 then some (a + b) else none

def mulU32 (a b : UInt32) : Option UInt32 :=
  if a.toNat * b.toNat < 2 ^ 32 then some (a * b) else none

theorem addU32_eq {a b : UInt32} (h : a.toNat + b.toNat < 2 ^ 32) :
    ∃ c, addU32 a b = some c ∧ c.toNat = a.toNat + b.toNat := by
  refine ⟨a + b, if_pos h, ?_⟩
  rw [UInt32.toNat_add]
  exact Nat.mod_eq_of_lt h

theorem mulU32_eq {a b : UInt32} (h : a.toNat * b.toNat < 2 ^ 32) :
    ∃ c, mulU32 a b = some c ∧ c.toNat = a.toNat * b.toNat := by
  refine ⟨a * b, if_pos h, ?_⟩
  rw [UInt32.toNat_mul]
  exact Nat.mod_eq_of_lt h

/-- What an overflowing operation does: panic (overflow checks on) or wrap around (off). -/
inductive Overflow where
  | panics
  | wraps
  deriving DecidableEq, Repr

def mulU64 (mode : Overflow) (a b : UInt64) : Option UInt64 :=
  match mode with
  | .panics => if a.toNat * b.toNat < 2 ^ 64 then some (a * b) else none
  | .wraps  => some (a * b)

/-- Whatever the mode, a product that is returned is the product modulo `2 ^ 64`. -/
theorem toNat_of_mulU64 {mode : Overflow} {a b c : UInt64} (h : mulU64 mode a b = some c) :
    c.toNat = a.toNat * b.toNat % 2 ^ 64 := by
  cases mode with
  | panics =>
      unfold mulU64 at h
      dsimp only at h
      split at h
      · cases h
        exact UInt64.toNat_mul a b
      · cases h
  | wraps =>
      cases h
      exact UInt64.toNat_mul a b

theorem lt_of_mulU64_panics {a b c : UInt64} (h : mulU64 .panics a b = some c) :
    a.toNat * b.toNat < 2 ^ 64 := by
  by_contra hnot
  rw [mulU64, if_neg hnot] at h
  cases h

/-- A product that fits is returned in either mode. -/
theorem mulU64_eq (mode : Overflow) {a b : UInt64} (h : a.toNat * b.toNat < 2 ^ 64) :
    ∃ c, mulU64 mode a b = some c ∧ c.toNat = a.toNat * b.toNat := by
  have hmul : (a * b).toNat = a.toNat * b.toNat := by
    rw [UInt64.toNat_mul, Nat.mod_eq_of_lt h]
  cases mode with
  | panics => exact ⟨a * b, if_pos h, hmul⟩
  | wraps => exact ⟨a * b, rfl, hmul⟩

/-! ## Signed arithmetic

An `i64` is an integer in the range below. -/

def InI64 (x : Int) : Prop := -2 ^ 63 ≤ x ∧ x < 2 ^ 63

instance (x : Int) : Decidable (InI64 x) := inferInstanceAs (Decidable (_ ∧ _))

def negI64 (x : Int) : Option Int := if InI64 (-x) then some (-x) else none

def mulI64 (x y : Int) : Option Int := if InI64 (x * y) then some (x * y) else none

theorem negI64_eq {x : Int} (h : InI64 (-x)) : negI64 x = some (-x) := if_pos h

theorem mulI64_eq {x y : Int} (h : InI64 (x * y)) : mulI64 x y = some (x * y) := if_pos h

/-- `first..=last`. -/
def inclusiveRange (first last : Int) : List Int :=
  (List.range (last + 1 - first).toNat).map fun (n : Nat) => first + n

theorem mem_inclusiveRange {first last x : Int} :
    x ∈ inclusiveRange first last ↔ first ≤ x ∧ x ≤ last := by
  unfold inclusiveRange
  rw [List.mem_map]
  constructor
  · rintro ⟨n, hn, rfl⟩
    rw [List.mem_range] at hn
    omega
  · rintro ⟨hfirst, hlast⟩
    refine ⟨(x - first).toNat, ?_, by omega⟩
    rw [List.mem_range]
    omega

/-- `u64::saturating_add_signed`. -/
def saturatingAddSigned (a : UInt64) (d : Int) : UInt64 :=
  UInt64.ofNat (max 0 (min (a.toNat + d) (2 ^ 64 - 1))).toNat

theorem toNat_saturatingAddSigned (a : UInt64) (d : Int) :
    ((saturatingAddSigned a d).toNat : Int) = max 0 (min (a.toNat + d) (2 ^ 64 - 1)) := by
  have hlt : (max 0 (min ((a.toNat : Int) + d) (2 ^ 64 - 1))).toNat < 2 ^ 64 := by omega
  unfold saturatingAddSigned
  rw [UInt64.toNat_ofNat_of_lt' hlt]
  omega

end Machine
