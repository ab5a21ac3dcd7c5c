import Mathlib.Data.List.Basic

/-!
# Text: trimming, splitting and reading numbers

The string functions of the Rust standard library that the server uses, on the characters of a
string, and how it reads an unsigned integer: the order of the checks decides which error a bad
number is reported with, and what is read carries the proof that it fits.

* `parseUnsigned_eq_ok_iff` — what counts as a number, and which one it is.
* `parseUnsigned_toString` — a number that is printed is read back.
* `trim_eq_self` — there is nothing to trim where there is no white space.
-/

namespace Text

/-! ## Trimming and splitting

The functions of `str` that the server uses, on characters. -/

/-- The Unicode property `White_Space`. -/
def isWhiteSpace (c : Char) : Bool :=
  let n := c.toNat
  (0x9 ≤ n && n ≤ 0xD) || n == 0x20 || n == 0x85 || n == 0xA0 || n == 0x1680 ||
    (0x2000 ≤ n && n ≤ 0x200A) || n == 0x2028 || n == 0x2029 || n == 0x202F || n == 0x205F ||
    n == 0x3000

/-- `str::trim_end_matches` with a predicate. -/
def trimEndMatches (p : Char → Bool) (s : String) : String :=
  String.ofList (s.toList.reverse.dropWhile p).reverse

/-- `str::trim`. -/
def trim (s : String) : String :=
  trimEndMatches isWhiteSpace (String.ofList (s.toList.dropWhile isWhiteSpace))

/-- `str::strip_prefix`. -/
def stripPrefix (s lead : String) : Option String :=
  if lead.toList <+: s.toList then some (String.ofList (s.toList.drop lead.toList.length)) else none

/-- `str::split_once`: what is before and after the first `c`. -/
def splitOnce (s : String) (c : Char) : Option (String × String) :=
  let before := s.toList.takeWhile (· != c)
  match s.toList.drop before.length with
  | []         => none
  | _ :: after => some (String.ofList before, String.ofList after)

/-- `str::eq_ignore_ascii_case`. -/
def eqIgnoreAsciiCase (s t : String) : Bool :=
  s.toList.map Char.toLower == t.toList.map Char.toLower

/-! ## Unsigned integers

`from_str` of the unsigned types, one definition for all widths. The values that it builds carry the
bound of their type. -/

/-- `std::num::ParseIntError`, as far as an unsigned type can meet it. -/
inductive ParseIntError where
  | empty
  | invalidDigit
  | posOverflow
  deriving DecidableEq, Repr

def ParseIntError.display : ParseIntError → String
  | .empty        => "cannot parse integer from empty string"
  | .invalidDigit => "invalid digit found in string"
  | .posOverflow  => "number too large to fit in target type"

/-- The digits of a number that must not exceed `max`, after a part that denotes `acc`. The first
character that is no digit, or that takes the number past `max`, decides the error. -/
def parseDigits (max : Nat) : List Char → { n : Nat // n ≤ max } →
    Except ParseIntError { n : Nat // n ≤ max }
  | [],      acc => .ok acc
  | c :: cs, acc =>
      if '0' ≤ c ∧ c ≤ '9' then
        if h : acc.val * 10 + (c.toNat - '0'.toNat) ≤ max then parseDigits max cs ⟨_, h⟩
        else .error .posOverflow
      else .error .invalidDigit

/-- `from_str` of the unsigned type with the greatest value `max`: digits, with an optional plus
sign in front. -/
def parseUnsigned (max : Nat) (s : String) : Except ParseIntError { n : Nat // n ≤ max } :=
  match s.toList with
  | []            => .error .empty
  | ['+'] | ['-'] => .error .invalidDigit
  | '+' :: digits => parseDigits max digits ⟨0, Nat.zero_le max⟩
  | digits        => parseDigits max digits ⟨0, Nat.zero_le max⟩

/-! ## What is read

The reader described from outside: which strings it accepts and with which value, and that it reads
back what was printed. -/

theorem isDigit_iff {c : Char} : c.isDigit = true ↔ '0' ≤ c ∧ c ≤ '9' := by
  rw [Char.isDigit, Bool.and_eq_true, decide_eq_true_iff, decide_eq_true_iff]
  rfl

theorem le_ofDigitChars (cs : List Char) (acc : Nat) : acc ≤ Nat.ofDigitChars 10 cs acc := by
  rw [Nat.ofDigitChars_eq_ofDigitChars_zero]
  have hpos : 0 < 10 ^ cs.length := Nat.pow_pos (by decide)
  exact Nat.le_trans (Nat.le_mul_of_pos_left acc hpos) (Nat.le_add_right _ _)

/-- Only digits are accepted, and what they denote is what they denote in base 10. -/
theorem parseDigits_eq_ok_iff {max : Nat} {cs : List Char} {acc n : { n : Nat // n ≤ max }} :
    parseDigits max cs acc = .ok n ↔
      (∀ c ∈ cs, c.isDigit = true) ∧ n.1 = Nat.ofDigitChars 10 cs acc.1 := by
  induction cs generalizing acc with
  | nil =>
      simp only [parseDigits, Except.ok.injEq, Nat.ofDigitChars_nil, Subtype.ext_iff,
        List.not_mem_nil, false_implies, implies_true, true_and]
      exact eq_comm
  | cons c cs ih =>
      rw [List.forall_mem_cons, Nat.ofDigitChars_cons, Nat.mul_comm 10, parseDigits]
      by_cases hc : '0' ≤ c ∧ c ≤ '9'
      · rw [if_pos hc]
        split
        · rw [ih, isDigit_iff]
          simp [hc]
        · next hlarge =>
            -- the digits to come cannot make the number smaller again
            have hge := le_ofDigitChars cs (acc.1 * 10 + (c.toNat - '0'.toNat))
            constructor
            · intro h
              cases h
            · rintro ⟨-, hn⟩
              have hle := n.2
              omega
      · rw [if_neg hc, isDigit_iff]
        simp [hc]

/-- A number is a nonempty string of digits, with an optional plus sign in front. -/
theorem parseUnsigned_eq_ok_iff {max : Nat} {s : String} {n : { n : Nat // n ≤ max }} :
    parseUnsigned max s = .ok n ↔
      ∃ digits, (s.toList = digits ∨ s.toList = '+' :: digits) ∧ digits ≠ [] ∧
        (∀ c ∈ digits, c.isDigit = true) ∧ n.1 = Nat.ofDigitChars 10 digits 0 := by
  unfold parseUnsigned
  split
  · next hnil => simp [hnil]
  · next hplus =>
      rw [hplus]
      simp [show ('+'.isDigit) = false from rfl]
  · next hminus =>
      rw [hminus]
      simp [show ('-'.isDigit) = false from rfl]
  · next digits hne hplus =>
      rw [hplus, parseDigits_eq_ok_iff]
      constructor
      · intro h
        refine ⟨digits, .inr rfl, ?_, h⟩
        rintro rfl
        exact hne rfl
      · rintro ⟨ds, hds | hds, -, hall, hn⟩
        · subst hds
          have := hall '+' List.mem_cons_self
          exact absurd this (by decide)
        · cases hds
          exact ⟨hall, hn⟩
  · next digits hnil hplus' hminus hplus =>
      rw [parseDigits_eq_ok_iff]
      constructor
      · rintro ⟨hall, hn⟩
        exact ⟨_, .inl rfl, hnil, hall, hn⟩
      · rintro ⟨ds, hds | hds, -, hall, hn⟩
        · subst hds
          exact ⟨hall, hn⟩
        · exact absurd hds (hplus ds)

/-- What is printed is read back. -/
theorem parseUnsigned_toString {max n : Nat} (h : n ≤ max) :
    parseUnsigned max (toString n) = .ok ⟨n, h⟩ := by
  have hlist : (toString n).toList = Nat.toDigits 10 n := by
    rw [Nat.toString_eq_repr, Nat.toList_repr]
  rw [parseUnsigned_eq_ok_iff]
  refine ⟨Nat.toDigits 10 n, .inl hlist, Nat.toDigits_ne_nil, ?_, ?_⟩
  · intro c hc
    exact Nat.isDigit_of_mem_toDigits (by decide) (by decide) hc
  · exact Nat.ofDigitChars_ten_toDigits.symm

/-! ## What is left after trimming

When trimming leaves a string alone, and what it never leaves at the end. -/

/-- What is left ends with a character that stays. -/
theorem eq_false_of_getLast?_trimEndMatches {p : Char → Bool} {s : String} {c : Char}
    (h : (trimEndMatches p s).toList.getLast? = some c) : p c = false := by
  rw [trimEndMatches, String.toList_ofList, List.getLast?_reverse] at h
  have hnot := List.head?_dropWhile_not p s.toList.reverse
  rw [h] at hnot
  simpa using hnot

theorem dropWhile_eq_self {p : Char → Bool} {cs : List Char}
    (h : ∀ c, cs.head? = some c → p c = false) : cs.dropWhile p = cs := by
  cases cs with
  | nil => rfl
  | cons c cs => rw [List.dropWhile_cons_of_neg (by simp [h c rfl])]

theorem trimEndMatches_eq_self {p : Char → Bool} {s : String}
    (h : ∀ c, s.toList.getLast? = some c → p c = false) : trimEndMatches p s = s := by
  rw [trimEndMatches, dropWhile_eq_self, List.reverse_reverse, String.ofList_toList]
  intro c hc
  rw [List.head?_reverse] at hc
  exact h c hc

/-- There is nothing to trim where there is no white space. -/
theorem trim_eq_self {s : String} (h : ∀ c ∈ s.toList, isWhiteSpace c = false) : trim s = s := by
  rw [trim, dropWhile_eq_self, String.ofList_toList, trimEndMatches_eq_self]
  · intro c hc
    exact h c (List.mem_of_getLast? hc)
  · intro c hc
    exact h c (List.mem_of_head? hc)

/-- A digit is no white space. -/
theorem isWhiteSpace_of_isDigit {c : Char} (h : c.isDigit = true) : isWhiteSpace c = false := by
  rw [isDigit_iff] at h
  have hlo : 48 ≤ c.toNat := h.1
  have hhi : c.toNat ≤ 57 := h.2
  simp only [isWhiteSpace, Bool.or_eq_false_iff, Bool.and_eq_false_iff, decide_eq_false_iff_not,
    beq_eq_false_iff_ne]
  omega

theorem isDigit_of_mem_toString {n : Nat} {c : Char} (h : c ∈ (toString n).toList) :
    c.isDigit = true := by
  rw [Nat.toString_eq_repr, Nat.toList_repr] at h
  exact Nat.isDigit_of_mem_toDigits (by decide) (by decide) h

end Text
