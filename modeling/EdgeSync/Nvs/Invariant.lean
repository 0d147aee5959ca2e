/-
  Nvs/Invariant.lean --- what the calls of the NVS backend keep.

  From the effects of a call: every entry keeps its record in a slot of its own,
  and the queue behind the index changes as the abstract queue does, except that
  a retry leaves zeros for the payload.
-/
import EdgeSync.Nvs.Operations

set_option autoImplicit false

namespace EdgeSync

open Foundation

variable {cfg : NvsConfig}

/-- A retry of a message, as this backend records it. -/
def StoredMessage.rewritten (f : Progress → Progress) (x : StoredMessage) : StoredMessage :=
  (x.change f).cleared

/-- The slot a new message gets shares its key with no other. -/
def FreshKey (ctx : NvsCtx) (op : StorageOp) : Prop :=
  op.enqueueId?.isSome → ∀ slot, findFreeSlot ctx.slotUsed = some slot →
    slotKey slot ∉ ctx.index.map fun e => slotKey e.slot

section Base

variable {ctx ctx' : NvsCtx} {s : BlobStore} {e : NvsIndexEntry} {pos : Nat}

/-- Below 100000 messages no two slots share a key. -/
theorem NvsBase.freshKey (b : NvsBase cfg ctx s) (hmax : cfg.maxMessages.toNat ≤ 100000)
    (op : StorageOp) : FreshKey ctx op := by
  intro _ slot hfree hmem
  obtain ⟨hlt, hne⟩ := findFreeSlot_some b hfree
  obtain ⟨e, he, hk⟩ := List.mem_map.mp hmem
  have hlt' := slot_lt b he
  refine hne e he (UInt32.toNat_inj.mp ?_)
  simp only [slotKey] at hk
  omega

/-- Rewriting the record of an entry. -/
theorem NvsBase.assign (b : NvsBase cfg ctx s) (he : ctx.index[pos]? = some e)
    {f : Progress → Progress} {y : StoredMessage} (hy : y.Sized cfg)
    (hmeta : y.toEntryMeta = e.toEntryMeta.change f)
    (hindex : ctx'.index = ctx.index.modify pos (·.change f))
    (hslots : ctx'.slotUsed = ctx.slotUsed) :
    NvsBase cfg ctx' (s.set (slotKey e.slot) y.blob) ∧
      ctx'.queue (s.set (slotKey e.slot) y.blob) = (ctx.queue s).set pos y := by
  have hkeys : ctx'.index.map (fun e => slotKey e.slot) = ctx.index.map fun e => slotKey e.slot := by
    rw [hindex]
    exact map_modify_of_eq fun _ _ => rfl
  have hnums : ctx'.index.map (fun e => e.slot.toNat) = ctx.index.map fun e => e.slot.toNat := by
    rw [hindex]
    exact map_modify_of_eq fun _ _ => rfl
  have hpos : Holds cfg (s.set (slotKey e.slot) y.blob) e.slot y := holds_set hy
  -- the entry at `pos` has the new record, the others keep theirs
  have hget : ∀ i e', ctx'.index[i]? = some e' →
      Holds cfg (s.set (slotKey e.slot) y.blob) e'.slot
        (slotContent (s.set (slotKey e.slot) y.blob) e') ∧
      slotContent (s.set (slotKey e.slot) y.blob) e' =
        if i = pos then y else slotContent s e' := by
    intro i e' he'
    rw [hindex] at he'
    by_cases hi : pos = i
    · subst hi
      rw [nvs_getElem?_modify he] at he'
      obtain rfl := Option.some.inj he'
      have hpos' : Holds cfg (s.set (slotKey e.slot) y.blob) (e.change f).slot y := hpos
      have hc := hpos'.content hmeta.symm
      rw [hc, if_pos rfl]
      exact ⟨hpos, rfl⟩
    · rw [List.getElem?_modify_ne _ _ hi] at he'
      have hne : slotKey e'.slot ≠ slotKey e.slot :=
        fun hk => hi (b.eq_of_key he he' hk.symm)
      have hs := @BlobStore.set_other s _ _ y.blob hne
      rw [slotContent_congr hs, if_neg (Ne.symm hi)]
      exact ⟨(b.held e' (List.mem_of_getElem? he')).congr hs, rfl⟩
  refine ⟨⟨?_, by rw [hkeys]; exact b.keys, by rw [hslots]; exact b.slots,
    by rw [hslots, hnums]; exact b.used⟩, ?_⟩
  · intro e' he'
    obtain ⟨i, hi⟩ := List.getElem?_of_mem he'
    exact (hget i e' hi).1
  · refine List.ext_getElem? fun i => ?_
    have hlen : pos < (ctx.queue s).length := by
      rw [length_nvsQueue]
      exact (List.getElem?_eq_some_iff.mp he).1
    rw [List.getElem?_set, NvsCtx.queue, NvsCtx.queue, List.getElem?_map]
    cases hi : ctx'.index[i]? with
    | none =>
      have hnone : ctx.index[i]? = none := by
        rw [hindex] at hi
        simpa using hi
      have hne : pos ≠ i := fun h => by
        subst h
        rw [he] at hnone
        exact absurd hnone (by simp)
      rw [if_neg hne, List.getElem?_map, hnone]
      rfl
    | some e' =>
      rw [Option.map_some, (hget i e' hi).2]
      by_cases hp : pos = i
      · rw [if_pos hp, if_pos hp.symm, if_pos (by rwa [NvsCtx.queue] at hlen)]
      · rw [if_neg hp, if_neg (Ne.symm hp), List.getElem?_map]
        rw [hindex, List.getElem?_modify_ne _ _ hp] at hi
        rw [hi]
        rfl

/-- Writing the record of a new entry. -/
theorem NvsBase.append (b : NvsBase cfg ctx s) {x : StoredMessage} (hx : x.Sized cfg)
    (hmeta : e.toEntryMeta = x.toEntryMeta) (hlt : e.slot.toNat < cfg.maxMessages.toNat)
    (hkey : slotKey e.slot ∉ ctx.index.map fun e => slotKey e.slot)
    (hindex : ctx'.index = ctx.index ++ [e])
    (hslots : ctx'.slotUsed = ctx.slotUsed.set e.slot.toNat true) :
    NvsBase cfg ctx' (s.set (slotKey e.slot) x.blob) ∧
      ctx'.queue (s.set (slotKey e.slot) x.blob) = ctx.queue s ++ [x] := by
  have hnew : Holds cfg (s.set (slotKey e.slot) x.blob) e.slot x := holds_set hx
  have hc := hnew.content hmeta
  have hold : ∀ e' ∈ ctx.index, (s.set (slotKey e.slot) x.blob) (slotKey e'.slot) =
      s (slotKey e'.slot) := by
    intro e' he'
    refine BlobStore.set_other fun hk => hkey ?_
    rw [← hk]
    exact List.mem_map.mpr ⟨e', he', rfl⟩
  refine ⟨⟨?_, ?_, by rw [hslots, List.length_set]; exact b.slots, ?_⟩, ?_⟩
  · intro e' he'
    rw [hindex] at he'
    rcases List.mem_append.mp he' with he' | he'
    · rw [slotContent_congr (hold e' he')]
      exact (b.held e' he').congr (hold e' he')
    · rw [List.mem_singleton.mp he', hc]
      exact hnew
  · rw [hindex, List.map_append]
    refine b.keys.append (List.nodup_singleton _) fun k hk hk' => hkey ?_
    rw [List.map_singleton, List.mem_singleton] at hk'
    rwa [hk'] at hk
  · intro i
    have hlen : e.slot.toNat < ctx.slotUsed.length := by rwa [b.slots]
    rw [hslots, hindex, List.map_append, List.map_singleton, List.mem_append, List.mem_singleton,
      List.getElem?_set]
    by_cases hi : e.slot.toNat = i
    · rw [if_pos hi, if_pos hlen]
      exact ⟨fun _ => .inr hi.symm, fun _ => rfl⟩
    · rw [if_neg hi, b.used i]
      exact ⟨.inl, fun h => h.resolve_right (Ne.symm hi)⟩
  · rw [NvsCtx.queue, NvsCtx.queue, hindex, List.map_append, List.map_singleton, hc]
    congr 1
    exact List.map_congr_left fun e' he' => slotContent_congr (hold e' he')

/-- Erasing the record of an entry. -/
theorem NvsBase.retire (b : NvsBase cfg ctx s) (he : ctx.index[pos]? = some e)
    (hindex : ctx'.index = swapRemove ctx.index pos)
    (hslots : ctx'.slotUsed = ctx.slotUsed.set e.slot.toNat false) :
    NvsBase cfg ctx' (s.erase (slotKey e.slot)) ∧
      ctx'.queue (s.erase (slotKey e.slot)) = swapRemove (ctx.queue s) pos := by
  have hperm := perm_swapRemove he
  have hne : ∀ e' ∈ swapRemove ctx.index pos, slotKey e'.slot ≠ slotKey e.slot := by
    intro e' he' hk
    obtain ⟨i, hi, hget⟩ := exists_of_mem_swapRemove he'
    exact hi (b.eq_of_key hget he hk)
  have hold : ∀ e' ∈ swapRemove ctx.index pos, (s.erase (slotKey e.slot)) (slotKey e'.slot) =
      s (slotKey e'.slot) := fun e' he' => BlobStore.erase_other (hne e' he')
  refine ⟨⟨?_, ?_, by rw [hslots, List.length_set]; exact b.slots, ?_⟩, ?_⟩
  · intro e' he'
    rw [hindex] at he'
    rw [slotContent_congr (hold e' he')]
    exact (b.held e' (mem_of_mem_swapRemove he')).congr (hold e' he')
  · rw [hindex]
    exact (((hperm.map fun e => slotKey e.slot).nodup_iff.mp b.keys).of_cons)
  · intro i
    have hlen : e.slot.toNat < ctx.slotUsed.length := by
      rw [b.slots]
      exact slot_lt b (List.mem_of_getElem? he)
    have hmem := (hperm.map fun e => e.slot.toNat).mem_iff (a := i)
    rw [hslots, hindex, List.getElem?_set]
    rw [List.map_cons, List.mem_cons] at hmem
    by_cases hi : e.slot.toNat = i
    · rw [if_pos hi, if_pos hlen]
      refine ⟨fun h => absurd h (by simp), fun h => ?_⟩
      obtain ⟨e', he', hslot⟩ := List.mem_map.mp h
      refine absurd ?_ (hne e' he')
      simp only [slotKey, hslot, hi]
    · rw [if_neg hi, b.used i, hmem]
      exact ⟨fun h => h.resolve_left (Ne.symm hi), .inr⟩
  · rw [NvsCtx.queue, NvsCtx.queue, ← map_swapRemove, hindex]
    exact List.map_congr_left fun e' he' => slotContent_congr (hold e' he')

/-- The scratch buffers do not matter. -/
theorem NvsBase.congr (b : NvsBase cfg ctx s) (hindex : ctx'.index = ctx.index)
    (hslots : ctx'.slotUsed = ctx.slotUsed) :
    NvsBase cfg ctx' s ∧ ctx'.queue s = ctx.queue s := by
  refine ⟨⟨?_, ?_, ?_, ?_⟩, by rw [NvsCtx.queue, NvsCtx.queue, hindex]⟩
  · rw [hindex]
    exact b.held
  · rw [hindex]
    exact b.keys
  · rw [hslots]
    exact b.slots
  · rw [hindex, hslots]
    exact b.used

/-- What is stored beside a rewritten record. -/
theorem NvsOnly.assign (h : NvsOnly ctx s) (he : ctx.index[pos]? = some e) {data : Bytes}
    {f : Progress → Progress} (hindex : ctx'.index = ctx.index.modify pos (·.change f)) :
    NvsOnly ctx' (s.set (slotKey e.slot) data) := by
  intro k d hk
  have hkeys : ctx'.index.map (fun e => slotKey e.slot) = ctx.index.map fun e => slotKey e.slot := by
    rw [hindex]
    exact map_modify_of_eq fun _ _ => rfl
  rw [hkeys]
  by_cases hkey : k = slotKey e.slot
  · exact List.mem_map.mpr ⟨e, List.mem_of_getElem? he, hkey.symm⟩
  · rw [BlobStore.set_other hkey] at hk
    exact h k d hk

theorem NvsOnly.append (h : NvsOnly ctx s) {data : Bytes} (hindex : ctx'.index = ctx.index ++ [e]) :
    NvsOnly ctx' (s.set (slotKey e.slot) data) := by
  intro k d hk
  rw [hindex, List.map_append, List.map_singleton, List.mem_append, List.mem_singleton]
  by_cases hkey : k = slotKey e.slot
  · exact .inr hkey
  · rw [BlobStore.set_other hkey] at hk
    exact .inl (h k d hk)

theorem NvsOnly.retire (h : NvsOnly ctx s) (he : ctx.index[pos]? = some e)
    (hindex : ctx'.index = swapRemove ctx.index pos) : NvsOnly ctx' (s.erase (slotKey e.slot)) := by
  intro k d hk
  by_cases hkey : k = slotKey e.slot
  · rw [hkey, BlobStore.erase_self] at hk
    exact absurd hk (by simp)
  · rw [BlobStore.erase_other hkey] at hk
    have hmem := ((perm_swapRemove he).map fun e => slotKey e.slot).mem_iff.mp (h k d hk)
    rw [hindex]
    rw [List.map_cons, List.mem_cons] at hmem
    exact hmem.resolve_left hkey

end Base

/-! ## The queue of slots -/

variable (cfg) in
/-- What a call does to the messages behind the index. -/
inductive SlotStep (q : List StoredMessage) :
    StorageOp → Except EspErr StorageReply → List StoredMessage → Prop where
  | refused {op : StorageOp} {err : EspErr} (why : NvsRefused cfg (metas q) op err) :
      SlotStep q op (.error err) q
  | candidate {policy : OverflowPolicy} {pos : Nat} {x : StoredMessage}
      (selected : selectDrop policy (metas q) = some pos) (entry : q[pos]? = some x) :
      SlotStep q (.findDropCandidate policy) (.ok (.candidate x.id)) q
  | stats {stats stats' : EdgesyncStats} (counted : NvsCounted cfg (metas q) stats stats') :
      SlotStep q (.getStats stats) (.ok (.stats stats')) q
  | enqueued {message : EdgesyncMessage} (room : q.length < cfg.indexCapacity)
      (encodes : message.EncodesNvs cfg) :
      SlotStep q (.enqueue message) (.ok .done) (q ++ [StoredMessage.ofMessage message])
  | claimed {nowUs : Int64} {pos : Nat} {x : StoredMessage}
      (selected : selectClaim nowUs (metas q) = some pos) (entry : q[pos]? = some x) :
      SlotStep q (.claimNext nowUs) (.ok (.claim (.claimed (x.nvsClaimedMessage nowUs))))
        (q.modify pos (·.change (Progress.claimed nowUs)))
  | retired {op : StorageOp} {id : UInt64} {newState : FlashqState} {pos : Nat}
      (retires : Retires op id newState) (found : findMessage q id = some pos) :
      SlotStep q op (.ok .done) (swapRemove q pos)
  /-- the payload is lost -/
  | retried {id : UInt64} {nextRetryTimeUs : Int64} {deadLetter : Bool} {lastError : Int32}
      {pos : Nat} (found : findMessage q id = some pos) :
      SlotStep q (.scheduleRetry id nextRetryTimeUs deadLetter lastError) (.ok .done)
        (q.modify pos (·.rewritten (Progress.retried nextRetryTimeUs deadLetter lastError)))

/-- The effects of a call are the steps of the queue of slots, and keep the base. -/
theorem NvsEffect.step {ctx ctx' : NvsCtx} {s s' : BlobStore} {op : StorageOp}
    {res : Except EspErr StorageReply} (ef : NvsEffect cfg ctx s op res ctx' s')
    (b : NvsBase cfg ctx s) (hkey : FreshKey ctx op) (hlen : op.Counted) :
    NvsBase cfg ctx' s' ∧ SlotStep cfg (ctx.queue s) op res (ctx'.queue s') := by
  have hmetas := metas_nvsQueue ctx s
  cases ef with
  | refused why hindex hslots =>
    obtain ⟨b', hq⟩ := b.congr hindex hslots
    rw [hq]
    exact ⟨b', .refused (by rwa [hmetas])⟩
  | candidate selected entry =>
    refine ⟨b, .candidate (x := slotContent s _) (by rw [hmetas]; exact selected) ?_⟩
    rw [NvsCtx.queue, List.getElem?_map, entry]
    rfl
  | stats counted => exact ⟨b, .stats (by rwa [hmetas])⟩
  | @enqueued message slot ctx' room encodes free hindex hslots =>
    have hx := sized_ofMessage encodes hlen
    obtain ⟨hlt, _⟩ := findFreeSlot_some b free
    obtain ⟨b', hq⟩ := b.append (e := message.nvsEntry slot) hx rfl hlt (hkey rfl slot free) hindex
      hslots
    refine ⟨b', ?_⟩
    rw [show (s.set (slotKey (message.nvsEntry slot).slot) _) = s.set (slotKey slot) _ from rfl] at hq
    rw [hq]
    refine .enqueued ?_ encodes
    rw [length_nvsQueue]
    rwa [NvsCtx.metas, List.length_map] at room
  | @claimed nowUs pos e ctx' selected entry hindex hslots borrowed =>
    have hheld := b.held e (List.mem_of_getElem? entry)
    have hget : (ctx.queue s)[pos]? = some (slotContent s e) := by
      rw [NvsCtx.queue, List.getElem?_map, entry]
      rfl
    obtain ⟨b', hq⟩ := b.assign entry (hheld.sized.change (Progress.claimed nowUs)) rfl hindex hslots
    refine ⟨b', ?_⟩
    rw [hq, ← modify_of_getElem? (f := (·.change (Progress.claimed nowUs))) hget]
    exact .claimed (by rw [hmetas]; exact selected) hget
  | @retired op id newState pos e ctx' retires found entry hindex hslots =>
    obtain ⟨b', hq⟩ := b.retire entry hindex hslots
    refine ⟨b', ?_⟩
    rw [hq]
    exact .retired retires (by rw [findMessage_nvsQueue]; exact found)
  | @retried id next dead err pos e ctx' found entry hindex hslots =>
    have hheld := b.held e (List.mem_of_getElem? entry)
    have hget : (ctx.queue s)[pos]? = some (slotContent s e) := by
      rw [NvsCtx.queue, List.getElem?_map, entry]
      rfl
    have hsized := (hheld.sized.change (Progress.retried next dead err)).cleared
    obtain ⟨b', hq⟩ := b.assign entry hsized rfl hindex hslots
    refine ⟨b', ?_⟩
    rw [hq]
    have hmod := modify_of_getElem? (f := (·.rewritten (Progress.retried next dead err))) hget
    rw [show ((slotContent s e).change (Progress.retried next dead err)).cleared =
      (slotContent s e).rewritten (Progress.retried next dead err) from rfl, ← hmod]
    exact .retried (by rw [findMessage_nvsQueue]; exact found)

/-- A call stores nothing else. -/
theorem NvsEffect.only {ctx ctx' : NvsCtx} {s s' : BlobStore} {op : StorageOp}
    {res : Except EspErr StorageReply} (ef : NvsEffect cfg ctx s op res ctx' s')
    (h : NvsOnly ctx s) : NvsOnly ctx' s' := by
  cases ef with
  | refused why hindex hslots =>
    intro k d hk
    rw [hindex]
    exact h k d hk
  | candidate selected entry => exact h
  | stats counted => exact h
  | enqueued room encodes free hindex hslots =>
    exact h.append (e := EdgesyncMessage.nvsEntry _ _) hindex
  | claimed selected entry hindex hslots borrowed => exact h.assign entry hindex
  | retired retires found entry hindex hslots => exact h.retire entry hindex
  | retried found entry hindex hslots => exact h.assign entry hindex

end EdgeSync
