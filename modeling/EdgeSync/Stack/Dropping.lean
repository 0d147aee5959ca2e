/-
  Stack/Dropping.lean --- dropping a message on flash without faults.

  Without faults the flash queue refuses for want of space only, so whether a
  publish into a full queue goes well can be read off the index and the message.
-/
import EdgeSync.Flashq.Drain
import EdgeSync.Stack.Overflow

set_option autoImplicit false

namespace EdgeSync

open Foundation

variable {cfg : FlashqConfig}

/-! ## What the outcome of a call says -/

section Outcomes

variable {ctx ctx' : FlashqCtx} {m m' : Memory} {recs recs' : List (Nat × RecordHdr)}
  {message : EdgesyncMessage} {policy : OverflowPolicy} {id : UInt64} {err : EspErr}
  {res : Except EspErr StorageReply} {c c' : Core}

theorem Effect.candidate_error
    (ef : Effect (quiet cfg) c m recs (.findDropCandidate policy) (.error err) c' m' recs') :
    selectDrop policy (c.index.map (·.toEntryMeta)) = none := by
  cases ef with
  | refused why => exact why.2
  | full prepared moved low => exact prepared.elim
  | spoilt lossy prepared moved left => exact lossy.elim

theorem Effect.candidate_ok
    (ef : Effect (quiet cfg) c m recs (.findDropCandidate policy) (.ok (.candidate id)) c' m' recs') :
    ∃ pos e, selectDrop policy (c.index.map (·.toEntryMeta)) = some pos ∧ c.index[pos]? = some e ∧
      id = e.id := by
  cases ef with
  | looked seen => exact seen

/-- A removal that was recorded found room, and took out what was found. -/
theorem Effect.remove_ok {reply : StorageReply} {pos : Nat}
    (ef : Effect (quiet cfg) c m recs (.remove id) (.ok reply) c' m' recs')
    (hfound : findEntry c.index id = some pos) :
    HasReserve cfg c.index ∧ c'.index.length < c.index.length ∧
      liveBytes c'.index = liveBytes (swapRemove c.index pos) := by
  cases ef with
  | looked seen => exact seen.elim
  | @retired _ _ newState pos' e c1 c2 m1 _ recs1 retires found entry moved updated =>
    cases retires
    obtain rfl := Option.some.inj (hfound.symm.trans found)
    have hroom := updated.room
    rw [moved.liveBytes_eq] at hroom
    have hlen : c2.index.length = c.index.length := by
      rw [updated.core_eq, List.length_modify, moved.length_eq]
    have hpos := (List.getElem?_eq_some_iff.mp entry).1
    refine ⟨hroom, ?_, ?_⟩
    · show (swapRemove c2.index pos).length < c.index.length
      rw [length_swapRemove, hlen]
      omega
    · have hids : (c2.index.map (·.identity)) = c.index.map (·.identity) := by
        rw [identities_of_keys updated.keys]
        have := congrArg (List.map EntryMeta.identity) moved.metas
        simpa [List.map_map, Function.comp_def] using this
      refine liveBytes_congr ?_
      show (swapRemove c2.index pos).map (·.identity) = _
      rw [map_swapRemove, map_swapRemove, hids]

end Outcomes

/-! ## A publish that goes well -/

section Publish

variable {ctx ctx' : FlashqCtx} {m m' : Memory} {recs : List (Nat × RecordHdr)}
  {message : EdgesyncMessage} {policy : OverflowPolicy} {calls : List StorageCall}
  {report : PublishReport}

end Publish

/-! ## A message that is dropped for nothing -/

section Loses

end Loses

end EdgeSync
