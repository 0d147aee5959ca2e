/-
  Encodable.lean --- entries whose record can be encoded again.

  Both backends read a record back and encode it anew: the NVS backend in every claim, the
  flash queue in a compaction.  The destination is copied into a zeroed array, so what the
  encoder sees is no longer than what was copied.
-/
import EdgeSync.Calls
import EdgeSync.Format.Accepted

set_option autoImplicit false

namespace EdgeSync

open Foundation

/-- The destination is not too long, and the record fits a buffer of this size. -/
structure EntryMeta.Encodable (bufCap : Nat) (x : EntryMeta) : Prop where
  destination : x.destinationLen.toNat ≤ maxDestinationLen
  record : recordTotalSize x.destinationLen x.payloadLen ≤ bufCap

theorem EntryMeta.encodable_change {bufCap : Nat} {x : EntryMeta} (f : Progress → Progress) :
    (x.change f).Encodable bufCap ↔ x.Encodable bufCap := by
  constructor
  · intro h
    exact ⟨h.destination, h.record⟩
  · intro h
    exact ⟨h.destination, h.record⟩

/-- A string in a zeroed array is no longer than what was copied. -/
theorem strlen_overlay_zeros (n : Nat) (x : Bytes) :
    strlen (overlay (List.replicate n 0) 0 x) ≤ x.length := by
  have hzeros : strlen (x ++ List.replicate (n - x.length) 0) ≤ x.length := by
    rw [strlen, List.takeWhile_append]
    split
    · simp
    · exact strlen_le_length x
  simpa [overlay] using hzeros

theorem recordTotalSize_mono {dl dl' : UInt16} (h : dl.toNat ≤ dl'.toNat) (bl : UInt32) :
    recordTotalSize dl bl ≤ recordTotalSize dl' bl := by
  simp only [recordTotalSize, round4]
  omega

/-- A destination that is no longer than that of the entry is encoded. -/
theorem EntryMeta.Encodable.encodes {bufCap : Nat} {x : EntryMeta} (h : x.Encodable bufCap)
    {destination : Bytes} (hd : strlen destination ≤ x.destinationLen.toNat) :
    strlen destination ≤ maxDestinationLen ∧
      recordTotalSize (UInt16.ofNat (strlen destination)) x.payloadLen ≤
        recordTotalSize x.destinationLen x.payloadLen := by
  have hle := hd.trans h.destination
  refine ⟨hle, recordTotalSize_mono ?_ _⟩
  rw [strlen_toNat hle]
  exact hd

/-- What a call does to the entries keeps them encodable. -/
theorem CallStep.encodable {early : Bool} {capacity bufCap : Nat} {q q' : List EntryMeta}
    {op : StorageOp} {res : Except EspErr StorageReply} (step : CallStep early capacity q op res q')
    (h : ∀ x ∈ q, x.Encodable bufCap)
    (hnew : ∀ message, op = .enqueue message → res = .ok .done → message.entry.Encodable bufCap) :
    ∀ x ∈ q', x.Encodable bufCap := by
  have hchanged : ∀ {pos : Nat} {f : Progress → Progress}, ∀ x ∈ q.modify pos (·.change f),
      x.Encodable bufCap := by
    intro pos f x hx
    rcases mem_of_mem_modify hx with hx | ⟨y, hy, rfl⟩
    · exact h x hx
    · exact (EntryMeta.encodable_change f).mpr (h y (List.mem_of_getElem? hy))
  cases step with
  | refused => exact h
  | @enqueued message room =>
    intro x hx
    rcases List.mem_append.mp hx with hx | hx
    · exact h x hx
    · rw [List.mem_singleton.mp hx]
      exact hnew message rfl rfl
  | claimed selected entry shows => exact hchanged
  | claimLost isEarly selected => exact hchanged
  | corrupt selected entry => exact hchanged
  | corruptLost selected => exact hchanged
  | retired retires found => exact fun x hx => h x (mem_of_mem_swapRemove hx)
  | retried found => exact hchanged
  | retryLost found => exact hchanged
  | candidate selected entry => exact h
  | stats => exact h

end EdgeSync
