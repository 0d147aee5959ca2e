/-
  Foundation/Blobs.lean --- a key--blob store as a device.

  The store answers six calls: the size of a blob, the blob, storing one, erasing
  one, committing, and its usage.  A call that fails leaves the store as it was.
  The power may go before or after a change, never inside it.
-/
import EdgeSync.Foundation.Asked
import EdgeSync.Foundation.Bytes

set_option autoImplicit false

namespace EdgeSync.Foundation

/-- The blobs, by key. -/
abbrev BlobStore : Type := Nat → Option Bytes

namespace BlobStore

/-- Store a blob. -/
def set (s : BlobStore) (key : Nat) (data : Bytes) : BlobStore := fun k =>
  if k = key then some data else s k

/-- Erase a key. -/
def erase (s : BlobStore) (key : Nat) : BlobStore := fun k => if k = key then none else s k

@[simp] theorem set_self (s : BlobStore) (key : Nat) (data : Bytes) :
    s.set key data key = some data := if_pos rfl

theorem set_other {s : BlobStore} {key k : Nat} {data : Bytes} (h : k ≠ key) :
    s.set key data k = s k := if_neg h

@[simp] theorem erase_self (s : BlobStore) (key : Nat) : s.erase key key = none := if_pos rfl

theorem erase_other {s : BlobStore} {key k : Nat} (h : k ≠ key) : s.erase key k = s k := if_neg h

end BlobStore

/-- The calls of the store. -/
inductive BlobCall where
  | size (key : Nat)
  | get (key : Nat)
  | set (key : Nat) (data : Bytes)
  | erase (key : Nat)
  | commit
  | usage
  deriving DecidableEq, Repr

/-- A read yields nothing when it failed or the key is absent; a change reports
whether it worked. -/
def BlobReply : BlobCall → Type
  | .size _ => Option Nat
  | .get _ => Option Bytes
  | .set _ _ => Bool
  | .erase _ => Bool
  | .commit => Bool
  | .usage => Option (UInt32 × UInt32)

/-- What happens during a call. -/
inductive BlobEvent where
  /-- the call works -/
  | run
  /-- the call reports an error and does nothing -/
  | fail
  /-- the power goes, after the change (`done`) or before it -/
  | cut (done : Bool)
  deriving DecidableEq, Repr

/-- A store; `usage` tells its total and used entries.  Erasing an absent key is
an error. -/
def blobDevice (usage : BlobStore → UInt32 × UInt32) :
    Device BlobCall BlobReply BlobStore BlobEvent where
  respond s
    | .size key, ev =>
        match ev with
        | .run => .reply ((s key).map List.length) s
        | .fail => .reply none s
        | .cut _ => .cut s
    | .get key, ev =>
        match ev with
        | .run => .reply (s key) s
        | .fail => .reply none s
        | .cut _ => .cut s
    | .set key data, ev =>
        match ev with
        | .run => .reply true (s.set key data)
        | .fail => .reply false s
        | .cut done => .cut (if done then s.set key data else s)
    | .erase key, ev =>
        match ev with
        | .run => .reply (s key).isSome (s.erase key)
        | .fail => .reply false s
        | .cut done => .cut (if done then s.erase key else s)
    | .commit, ev =>
        match ev with
        | .run => .reply true s
        | .fail => .reply false s
        | .cut _ => .cut s
    | .usage, ev =>
        match ev with
        | .run => .reply (some (usage s)) s
        | .fail => .reply none s
        | .cut _ => .cut s
  calm := .run

/-- The call leaves the blob at the key alone. -/
def BlobCall.Spares (key : Nat) : BlobCall → Prop
  | .set k _ => k ≠ key
  | .erase k => k ≠ key
  | _ => True

theorem BlobCall.Spares.respond {usage : BlobStore → UInt32 × UInt32} {key : Nat} {c : BlobCall}
    (h : c.Spares key) (s : BlobStore) (ev : BlobEvent) :
    ((blobDevice usage).respond s c ev).dev key = s key := by
  cases c with
  | set k data =>
    have hset : s.set k data key = s key := BlobStore.set_other (Ne.symm h)
    cases ev with
    | run => exact hset
    | fail => rfl
    | cut done =>
      cases done with
      | false => rfl
      | true => exact hset
  | erase k =>
    have herase : s.erase k key = s key := BlobStore.erase_other (Ne.symm h)
    cases ev with
    | run => exact herase
    | fail => rfl
    | cut done =>
      cases done with
      | false => rfl
      | true => exact herase
  | _ => cases ev <;> rfl

end EdgeSync.Foundation
