import Urheilulaatikko.Lib.Machine
import Urheilulaatikko.Lib.Text

/-!
# The lock's clock

`clock.rs` and `build.rs` of the firmware. The chip has no clock of its own that survives a power
loss: the build prints the time at which it runs into the image, the firmware reads it back at boot
and adds the time since then. An `Instant` is a number of microseconds since boot.
-/

namespace Urheilulaatikko.Lock

/-- `main` of `build.rs`: what it prints for `LOCK_CLIENT_BUILD_EPOCH`. -/
def buildEpoch (unixSeconds : UInt64) : String := toString unixSeconds.toNat

structure SystemClock where
  bootEpoch : UInt64
  deriving DecidableEq, Repr

namespace SystemClock

/-- `SystemClock::start`. `none`: the variable is no number, and the firmware panics. -/
def start (lockClientBuildEpoch : String) : Option SystemClock :=
  match Text.parseUnsigned (UInt64.size - 1) lockClientBuildEpoch with
  | .ok bootEpoch => some ⟨.ofNat bootEpoch⟩
  | .error _      => none

/-- `Duration::as_secs`. -/
def asSecs (micros : Nat) : Nat := micros / 1000000

/-- `unix_seconds`, with what `Instant::now` reads. The sum wraps around, as the release build
does. -/
def unixSeconds (clock : SystemClock) (now : Nat) : UInt64 :=
  clock.bootEpoch + .ofNat (asSecs now)

/-- The image's clock starts when the image was built. -/
theorem start_buildEpoch (unixSeconds : UInt64) :
    start (buildEpoch unixSeconds) = some ⟨unixSeconds⟩ := by
  have hle : unixSeconds.toNat ≤ UInt64.size - 1 := Nat.le_sub_one_of_lt unixSeconds.toNat_lt
  unfold start buildEpoch
  rw [Text.parseUnsigned_toString hle]
  simp

theorem toNat_unixSeconds {clock : SystemClock} {now : Nat}
    (h : clock.bootEpoch.toNat + asSecs now < 2 ^ 64) :
    (clock.unixSeconds now).toNat = clock.bootEpoch.toNat + asSecs now := by
  have hlt : asSecs now < 2 ^ 64 := by omega
  rw [unixSeconds, UInt64.toNat_add, UInt64.toNat_ofNat_of_lt' hlt, Nat.mod_eq_of_lt h]

end SystemClock

end Urheilulaatikko.Lock
