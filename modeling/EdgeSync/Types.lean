/-
  Types.lean --- the public data types (`edgesync_types.h`, `edgesync.h`).

  Fixed-width C integers are Lean's fixed-width integers, `size_t` is `Nat`.  A C
  string is the byte list of its array: `strlen` stops at the first NUL or, where
  the list has none, at its end.
-/
import Mathlib.Data.List.TakeWhile
import EdgeSync.Foundation.Bytes

set_option autoImplicit false

namespace EdgeSync

open Foundation

/-- `EDGESYNC_MAX_DESTINATION_LEN`. -/
def maxDestinationLen : Nat := 63

/-- The error codes the storage layer and the worker use. -/
inductive EspErr where
  | queueFull
  | storage
  | serialization
  | storageCorrupt
  | notFound
  | transport
  deriving DecidableEq, Repr

/-- The `esp_err_t` value, as it is stored in `last_error` (`ESP_OK` is 0). -/
def EspErr.code : EspErr → Int32
  | queueFull => 0x8A01
  | storage => 0x8A02
  | serialization => 0x8A03
  | storageCorrupt => 0x8A08
  | notFound => 0x8A09
  | transport => 0x8A0A

/-- `edgesync_overflow_policy_t`. -/
inductive OverflowPolicy where
  | rejectNew
  | dropOldest
  | dropLowestPriority
  deriving DecidableEq, Repr

/-- `edgesync_delivery_result_t`. -/
inductive DeliveryResult where
  | success
  | retryableFailure
  | permanentFailure
  deriving DecidableEq, Repr

/-- `strlen`. -/
def strlen (s : Bytes) : Nat := (s.takeWhile (· ≠ 0)).length

/-- The bytes of a C string, without its NUL. -/
def cString (s : Bytes) : Bytes := s.takeWhile (· ≠ 0)

/-- `edgesync_message_t` as a publisher fills it in.  `priority` is the value
after the cast to `uint8_t`; `payload` is what the borrowed pointer points to. -/
structure EdgesyncMessage where
  id : UInt64
  destination : Bytes
  priority : UInt8
  createdAtUs : Int64
  payload : Bytes
  deriving DecidableEq, Repr

/-- `payload_len`. -/
def EdgesyncMessage.payloadLen (m : EdgesyncMessage) : UInt32 := UInt32.ofNat m.payload.length

/-- `edgesync_message_state_t`. -/
inductive EdgesyncMessageState where
  | pending
  | inFlight
  | delivered
  | deadLetter
  deriving DecidableEq, Repr

/-- `edgesync_message_t` as `claim_next` fills it in.  `payload` points into the
backend's claim buffer, `payloadOff` bytes from its start. -/
structure ClaimedMessage where
  id : UInt64
  destination : Bytes
  priority : UInt8
  state : EdgesyncMessageState
  attemptCount : UInt32
  createdAtUs : Int64
  lastAttemptAtUs : Int64
  nextRetryAtUs : Int64
  lastError : Int32
  payloadLen : UInt32
  payloadOff : Nat
  deriving DecidableEq, Repr

/-! ## C strings -/

theorem strlen_eq_length_cString (s : Bytes) : strlen s = (cString s).length := rfl

theorem strlen_le_length (s : Bytes) : strlen s ≤ s.length :=
  (List.takeWhile_sublist _).length_le

theorem cString_eq_take (s : Bytes) : cString s = s.take (strlen s) :=
  List.prefix_iff_eq_take.mp (List.takeWhile_prefix _)

/-- A byte list without NUL is its own C string. -/
theorem cString_eq_self {s : Bytes} (h : ∀ b ∈ s, b ≠ 0) : cString s = s := by
  apply List.takeWhile_eq_self_iff.mpr
  intro b hb
  simpa using h b hb

theorem ne_zero_of_mem_cString {s : Bytes} {b : UInt8} (h : b ∈ cString s) : b ≠ 0 := by
  simpa using List.mem_takeWhile_imp h

/-- A buffer that was zeroed before a NUL-free string was copied into it holds
that string. -/
theorem cString_append_zeros {s : Bytes} (h : ∀ b ∈ s, b ≠ 0) (n : Nat) :
    cString (s ++ List.replicate n 0) = s := by
  have hall : ∀ b ∈ s, (b ≠ 0 : Bool) = true := fun b hb => by simpa using h b hb
  rw [cString, List.takeWhile_append_of_pos hall]
  cases n <;> simp [List.replicate_succ]

end EdgeSync
