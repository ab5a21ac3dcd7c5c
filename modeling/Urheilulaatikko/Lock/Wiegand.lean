import Urheilulaatikko.Lib.Machine
import Urheilulaatikko.Lib.Positional

/-!
# Decoding a captured Wiegand frame

`wiegand.rs` of the lock. A finished burst of bits (oldest first, `true` for a `1` bit) is a
keypress if it has 4 bits, a card read if it has 26, and noise otherwise. The slices of the card
frame are checked, so `decodeFrame` could fail; `decodeFrame_eq_some` shows that it never does.
-/

namespace Urheilulaatikko.Lock

open Machine

inductive Frame where
  | digit (d : UInt8)
  | cancel
  | enter
  | card (facilityCode : UInt8) (cardNumber : UInt16)
  | unrecognized (bitCount : Nat)
  deriving DecidableEq, Repr

def bitsToU32 (bits : List Bool) : UInt32 :=
  bits.foldl (fun acc bit => (acc <<< 1) ||| (if bit then 1 else 0)) 0

def decodeNibble (bits : List Bool) : Frame :=
  let value := bitsToU32 bits
  if value ≤ 9 then .digit value.toUInt8
  else if value = 10 then .cancel
  else if value = 11 then .enter
  else .unrecognized 4

def decodeCard (bits : List Bool) : Option Frame := do
  let facilityCode ← slice bits 1 9
  let cardNumber ← slice bits 9 25
  some (.card (bitsToU32 facilityCode).toUInt8 (bitsToU32 cardNumber).toUInt16)

def decodeFrame (bits : List Bool) : Option Frame :=
  match bits.length with
  | 4  => some (decodeNibble bits)
  | 26 => decodeCard bits
  | n  => some (.unrecognized n)

/-- **No slice is out of range**: every burst decodes to some frame. -/
theorem decodeFrame_eq_some (bits : List Bool) : ∃ frame, decodeFrame bits = some frame := by
  unfold decodeFrame
  split
  · exact ⟨_, rfl⟩
  · next hlen =>
      unfold decodeCard
      rw [slice_eq (by omega) (by omega), slice_eq (by omega) (by omega)]
      exact ⟨_, rfl⟩
  · exact ⟨_, rfl⟩

/-- Only the ten digits decode to a digit. -/
theorem toNat_lt_of_decodeFrame {bits : List Bool} {d : UInt8}
    (h : decodeFrame bits = some (.digit d)) : d.toNat < 10 := by
  unfold decodeFrame at h
  split at h
  · simp only [decodeNibble, Option.some.injEq] at h
    split at h
    · next hle =>
        cases h
        have hle' : (bitsToU32 bits).toNat ≤ 9 := UInt32.le_iff_toNat_le.mp hle
        rw [UInt32.toNat_toUInt8]
        omega
    · split at h
      · cases h
      · split at h <;> cases h
  · unfold decodeCard at h
    rw [slice_eq (by omega) (by omega), slice_eq (by omega) (by omega)] at h
    cases h
  · cases h

/-! ## The keypad's side of the wire

What a keypad or a card reader sends for a frame. The decoder does not look at the parity bits of a
card, so the wire format leaves them open (`Wire`). -/

/-- A key as the keypad sends it: its 4-bit code, most significant bit first. -/
def nibbleBits (code : Nat) : List Bool := (Positional.digits 2 4 code).map (· == 1)

theorem decodeFrame_nibbleBits_digit {d : Nat} (hd : d < 10) :
    decodeFrame (nibbleBits d) = some (.digit (UInt8.ofNat d)) := by
  revert d
  decide

theorem decodeFrame_nibbleBits_enter : decodeFrame (nibbleBits 11) = some .enter := by decide

/-- A number of `width` bits as it is sent, most significant bit first. -/
def wireBits (width n : Nat) : List Bool := (Positional.digits 2 width n).map (· == 1)

/-- A card as the reader sends it, between two parity bits that nobody checks. -/
def cardBits (first last : Bool) (facilityCode : UInt8) (cardNumber : UInt16) : List Bool :=
  first :: (wireBits 8 facilityCode.toNat ++ wireBits 16 cardNumber.toNat) ++ [last]

/-- The frames that can be sent, with their bits. -/
inductive Wire : Frame → List Bool → Prop
  | digit {d : UInt8} (hd : d ≤ 9) : Wire (.digit d) (nibbleBits d.toNat)
  | cancel : Wire .cancel (nibbleBits 10)
  | enter : Wire .enter (nibbleBits 11)
  | card {facilityCode : UInt8} {cardNumber : UInt16} (first last : Bool) :
      Wire (.card facilityCode cardNumber) (cardBits first last facilityCode cardNumber)

/-! ### Bits and numbers

The decoder reads a group of bits as a binary number and then narrows it. No bit is lost, because a
group is never longer than the type is wide. -/

/-- The number that bits denote, most significant bit first. -/
def bitValue (bits : List Bool) : Nat := Positional.value 2 (bits.map Bool.toNat)

theorem bitValue_lt (bits : List Bool) : bitValue bits < 2 ^ bits.length := by
  have hbits : ∀ d ∈ bits.map Bool.toNat, d ≤ 1 := by
    intro d hd
    obtain ⟨bit, -, rfl⟩ := List.mem_map.mp hd
    exact Bool.toNat_le bit
  have hle := Positional.value_le (c := 1) hbits
  rw [List.length_map, Nat.one_mul, Nat.one_mul] at hle
  exact hle

theorem length_wireBits (width n : Nat) : (wireBits width n).length = width := by
  rw [wireBits, List.length_map, Positional.length_digits]

theorem bitValue_wireBits {width n : Nat} (h : n < 2 ^ width) :
    bitValue (wireBits width n) = n := by
  have hdigits : (wireBits width n).map Bool.toNat = Positional.digits 2 width n := by
    rw [wireBits, List.map_map]
    apply (List.map_congr_left ?_).trans (List.map_id _)
    intro d hd
    have hlt := Positional.digits_lt (by decide) width n d hd
    obtain rfl | rfl : d = 0 ∨ d = 1 := by omega
    · rfl
    · rfl
  rw [bitValue, hdigits, Positional.value_digits h]

theorem wireBits_bitValue (bits : List Bool) : wireBits bits.length (bitValue bits) = bits := by
  have hlt : ∀ d ∈ bits.map Bool.toNat, d < 2 := by
    intro d hd
    obtain ⟨bit, -, rfl⟩ := List.mem_map.mp hd
    exact Bool.toNat_lt bit
  have hdigits := Positional.digits_value (by decide) hlt
  rw [List.length_map] at hdigits
  rw [wireBits, bitValue, hdigits, List.map_map]
  apply (List.map_congr_left ?_).trans (List.map_id _)
  intro bit _
  cases bit <;> rfl

/-- The shifts lose nothing as long as there are no more bits than fit. -/
theorem toNat_bitsToU32 {bits : List Bool} (h : bits.length ≤ 32) :
    (bitsToU32 bits).toNat = bitValue bits := by
  induction bits using List.reverseRecOn with
  | nil => rfl
  | append_singleton bits bit ih =>
      rw [List.length_append, List.length_singleton] at h
      have hvalue : bitValue (bits ++ [bit]) = bitValue bits * 2 + bit.toNat := by
        simp [bitValue]
      have hfold : bitsToU32 (bits ++ [bit]) =
          (bitsToU32 bits <<< 1) ||| (if bit then 1 else 0) := by
        simp [bitsToU32]
      have hlt : bitValue bits < 2 ^ 31 :=
        (bitValue_lt bits).trans_le (Nat.pow_le_pow_right (by decide) (by omega))
      have hfits : bitValue bits <<< 1 < 2 ^ 32 := by
        rw [Nat.shiftLeft_eq]
        omega
      have hbit : (if bit then 1 else 0 : UInt32).toNat = bit.toNat := by cases bit <;> rfl
      rw [hfold, hvalue, UInt32.toNat_or, UInt32.toNat_shiftLeft, ih (by omega), hbit]
      show bitValue bits <<< 1 % 2 ^ 32 ||| bit.toNat = bitValue bits * 2 + bit.toNat
      rw [Nat.mod_eq_of_lt hfits, ← Nat.shiftLeft_add_eq_or_of_lt (Bool.toNat_lt bit),
        Nat.shiftLeft_eq, Nat.pow_one]

theorem toNat_toUInt8_bitsToU32 {bits : List Bool} (h : bits.length ≤ 8) :
    (bitsToU32 bits).toUInt8.toNat = bitValue bits := by
  have hlt : bitValue bits < 2 ^ 8 :=
    (bitValue_lt bits).trans_le (Nat.pow_le_pow_right (by decide) h)
  rw [UInt32.toNat_toUInt8, toNat_bitsToU32 (by omega), Nat.mod_eq_of_lt hlt]

theorem toNat_toUInt16_bitsToU32 {bits : List Bool} (h : bits.length ≤ 16) :
    (bitsToU32 bits).toUInt16.toNat = bitValue bits := by
  have hlt : bitValue bits < 2 ^ 16 :=
    (bitValue_lt bits).trans_le (Nat.pow_le_pow_right (by decide) h)
  rw [UInt32.toNat_toUInt16, toNat_bitsToU32 (by omega), Nat.mod_eq_of_lt hlt]

/-! ### Decoding inverts the wire

One direction case by case over what can be sent, the other one over the length of what was
received. -/

/-- What decoding a keypress comes to. -/
theorem decodeFrame_of_length_four {bits : List Bool} (h : bits.length = 4) :
    decodeFrame bits = some (if bitValue bits ≤ 9 then .digit (UInt8.ofNat (bitValue bits))
      else if bitValue bits = 10 then .cancel
      else if bitValue bits = 11 then .enter
      else .unrecognized 4) := by
  have hvalue : (bitsToU32 bits).toNat = bitValue bits := toNat_bitsToU32 (by omega)
  have hnine : bitsToU32 bits ≤ 9 ↔ bitValue bits ≤ 9 := by
    rw [← hvalue]
    exact UInt32.le_iff_toNat_le
  have hten : bitsToU32 bits = 10 ↔ bitValue bits = 10 := by
    rw [← hvalue]
    exact UInt32.toNat_inj.symm
  have heleven : bitsToU32 bits = 11 ↔ bitValue bits = 11 := by
    rw [← hvalue]
    exact UInt32.toNat_inj.symm
  have hdigit : (bitsToU32 bits).toUInt8 = UInt8.ofNat (bitValue bits) := by
    rw [← hvalue]
    rfl
  simp only [decodeFrame, h, decodeNibble, hnine, hten, heleven, hdigit]

/-- What decoding a card read comes to. -/
theorem decodeFrame_card {facility number : List Bool} (hfacility : facility.length = 8)
    (hnumber : number.length = 16) (first last : Bool) :
    decodeFrame (first :: (facility ++ number) ++ [last]) =
      some (.card (bitsToU32 facility).toUInt8 (bitsToU32 number).toUInt16) := by
  have hlen : (first :: (facility ++ number) ++ [last]).length = 26 := by
    simp [hfacility, hnumber]
  have hslice₁ : slice (first :: (facility ++ number) ++ [last]) 1 9 = some facility := by
    rw [slice_eq (by omega) (by omega)]
    simp [hfacility]
  have hslice₂ : slice (first :: (facility ++ number) ++ [last]) 9 25 = some number := by
    rw [slice_eq (by omega) (by omega)]
    simp [hfacility, hnumber]
  unfold decodeFrame
  rw [hlen]
  simp only [decodeCard, hslice₁, hslice₂]
  rfl

/-- Every list of 26 bits is a card read. -/
theorem eq_card_of_length {bits : List Bool} (h : bits.length = 26) :
    ∃ first last facility number, facility.length = 8 ∧ number.length = 16 ∧
      bits = first :: (facility ++ number) ++ [last] := by
  cases bits with
  | nil => cases h
  | cons first rest =>
      rcases List.eq_nil_or_concat rest with rfl | ⟨body, last, rfl⟩
      · cases h
      · rw [List.length_cons, List.length_concat] at h
        refine ⟨first, last, body.take 8, body.drop 8, ?_, ?_, ?_⟩
        · rw [List.length_take]
          omega
        · rw [List.length_drop]
          omega
        · rw [List.take_append_drop, List.concat_eq_append, List.cons_append]

theorem nibbleBits_bitValue {bits : List Bool} (h : bits.length = 4) :
    nibbleBits (bitValue bits) = bits := by
  have hwire := wireBits_bitValue bits
  rwa [h] at hwire

/-- What is sent is what is decoded. -/
theorem decodeFrame_of_wire {frame : Frame} {bits : List Bool} (h : Wire frame bits) :
    decodeFrame bits = some frame := by
  cases h with
  | digit hd =>
      rw [UInt8.le_iff_toNat_le] at hd
      rw [decodeFrame_nibbleBits_digit (Nat.lt_succ_of_le hd), UInt8.ofNat_toNat]
  | cancel => decide
  | enter => exact decodeFrame_nibbleBits_enter
  | @card facilityCode cardNumber first last =>
      have hfacility := length_wireBits 8 facilityCode.toNat
      have hnumber := length_wireBits 16 cardNumber.toNat
      have hcode : (bitsToU32 (wireBits 8 facilityCode.toNat)).toUInt8 = facilityCode := by
        rw [← UInt8.toNat_inj, toNat_toUInt8_bitsToU32 (Nat.le_of_eq hfacility),
          bitValue_wireBits facilityCode.toNat_lt]
      have hcard : (bitsToU32 (wireBits 16 cardNumber.toNat)).toUInt16 = cardNumber := by
        rw [← UInt16.toNat_inj, toNat_toUInt16_bitsToU32 (Nat.le_of_eq hnumber),
          bitValue_wireBits cardNumber.toNat_lt]
      rw [cardBits, decodeFrame_card hfacility hnumber, hcode, hcard]

/-- What is decoded was sent, or is noise of the given length. -/
theorem wire_of_decodeFrame {frame : Frame} {bits : List Bool} (h : decodeFrame bits = some frame) :
    Wire frame bits ∨ frame = .unrecognized bits.length := by
  by_cases hfour : bits.length = 4
  · have hbits := nibbleBits_bitValue hfour
    rw [decodeFrame_of_length_four hfour, Option.some.injEq] at h
    split at h
    · next hnine =>
        have hvalue : (UInt8.ofNat (bitValue bits)).toNat = bitValue bits := by
          apply UInt8.toNat_ofNat_of_lt'
          exact Nat.lt_of_le_of_lt hnine (by decide)
        have hwire : Wire (.digit (UInt8.ofNat (bitValue bits)))
            (nibbleBits (UInt8.ofNat (bitValue bits)).toNat) := by
          apply Wire.digit
          rw [UInt8.le_iff_toNat_le, hvalue]
          exact hnine
        rw [hvalue, hbits, h] at hwire
        exact .inl hwire
    · split at h
      · next hten =>
          rw [hten] at hbits
          rw [← h, ← hbits]
          exact .inl .cancel
      · split at h
        · next heleven =>
            rw [heleven] at hbits
            rw [← h, ← hbits]
            exact .inl .enter
        · rw [hfour]
          exact .inr h.symm
  · by_cases hcard : bits.length = 26
    · obtain ⟨first, last, facility, number, hfacility, hnumber, rfl⟩ := eq_card_of_length hcard
      rw [decodeFrame_card hfacility hnumber, Option.some.injEq] at h
      have hwire : Wire (.card (bitsToU32 facility).toUInt8 (bitsToU32 number).toUInt16)
          (cardBits first last (bitsToU32 facility).toUInt8 (bitsToU32 number).toUInt16) :=
        .card first last
      have hback := wireBits_bitValue facility
      have hback' := wireBits_bitValue number
      rw [hfacility] at hback
      rw [hnumber] at hback'
      rw [cardBits, toNat_toUInt8_bitsToU32 (Nat.le_of_eq hfacility), hback,
        toNat_toUInt16_bitsToU32 (Nat.le_of_eq hnumber), hback', h] at hwire
      exact .inl hwire
    · unfold decodeFrame at h
      split at h
      · next hlen => exact absurd hlen hfour
      · next hlen => exact absurd hlen hcard
      · cases h
        exact .inr rfl

/-- **Decoding inverts the wire format.** Every list of bits, of whatever length, decodes to the one
frame that is sent as these bits, or else, if there is none, to noise of this length. All slices are
within range, and neither a shift nor a narrowing conversion loses a bit. -/
theorem decodeFrame_inverts_wire (bits : List Bool) :
    (∃ frame, decodeFrame bits = some frame) ∧
      (∀ frame, decodeFrame bits = some frame ↔
        Wire frame bits ∨ frame = .unrecognized bits.length ∧ ∀ sent, ¬ Wire sent bits) ∧
      (bits.length = 4 → (bitsToU32 bits).toNat = bitValue bits ∧
        (bitsToU32 bits).toUInt8.toNat = bitValue bits) ∧
      (bits.length = 26 → ∃ facility number, slice bits 1 9 = some facility ∧
        slice bits 9 25 = some number ∧
        (bitsToU32 facility).toNat = bitValue facility ∧
        (bitsToU32 facility).toUInt8.toNat = bitValue facility ∧
        (bitsToU32 number).toNat = bitValue number ∧
        (bitsToU32 number).toUInt16.toNat = bitValue number) := by
  obtain ⟨decoded, hdecoded⟩ := decodeFrame_eq_some bits
  refine ⟨⟨decoded, hdecoded⟩, ?_, ?_, ?_⟩
  · intro frame
    constructor
    · intro h
      rcases wire_of_decodeFrame h with hwire | rfl
      · exact .inl hwire
      · refine .inr ⟨rfl, ?_⟩
        intro sent hsent
        rw [decodeFrame_of_wire hsent, Option.some.injEq] at h
        rw [h] at hsent
        cases hsent
    · rintro (hwire | ⟨rfl, hnone⟩)
      · exact decodeFrame_of_wire hwire
      · rcases wire_of_decodeFrame hdecoded with hwire | rfl
        · exact absurd hwire (hnone decoded)
        · exact hdecoded
  · intro hfour
    exact ⟨toNat_bitsToU32 (by omega), toNat_toUInt8_bitsToU32 (by omega)⟩
  · intro hcard
    have hfacility : ((bits.drop 1).take 8).length = 8 := by
      rw [List.length_take, List.length_drop]
      omega
    have hnumber : ((bits.drop 9).take 16).length = 16 := by
      rw [List.length_take, List.length_drop]
      omega
    exact ⟨(bits.drop 1).take 8, (bits.drop 9).take 16, slice_eq (by omega) (by omega),
      slice_eq (by omega) (by omega),
      toNat_bitsToU32 (by omega), toNat_toUInt8_bitsToU32 (by omega),
      toNat_bitsToU32 (by omega), toNat_toUInt16_bitsToU32 (by omega)⟩

end Urheilulaatikko.Lock
