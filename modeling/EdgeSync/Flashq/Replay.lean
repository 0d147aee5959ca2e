/-
  Flashq/Replay.lean --- the index a log stands for.

  `replay` folds the scan's record step over the records of a log.  An entry is
  `Located` when its own MESSAGE record stands at its offset; `contentOf` reads
  the message of such an entry off the flash.  The last part computes the replay
  of a freshly compacted region: it is the index compaction started from, with
  the records placed one behind the other.
-/
import EdgeSync.Flashq.Log
import EdgeSync.Spec

set_option autoImplicit false

namespace EdgeSync

open Foundation

variable (cfg : FlashqConfig)

/-! ## Replaying records -/

/-- The scan's fold over the records of a log. -/
def replay (recs : List (Nat × RecordHdr)) : Replay :=
  recs.foldl (fun r x => r.apply cfg x.1 x.2) ⟨[], 0⟩

/-- `max_seq_seen`. -/
def maxSeq (recs : List (Nat × RecordHdr)) : UInt32 :=
  recs.foldl (fun m x => if m < x.2.seq then x.2.seq else m) 0

/-- Bytes of the MESSAGE record of an entry. -/
def EntryMeta.recordSize (e : EntryMeta) : Nat := recordTotalSize e.destinationLen e.payloadLen

/-- Bytes the MESSAGE records of an index take. -/
def liveBytes (index : List FlashqIndexEntry) : Nat :=
  (index.map fun e => e.toEntryMeta.recordSize).sum

/-- The changing part an UPDATE record carries. -/
def RecordHdr.progress (h : RecordHdr) : Progress where
  state := h.state
  attemptCount := h.attemptCount
  lastAttemptAtUs := h.lastAttemptAtUs
  nextRetryAtUs := h.nextRetryAtUs
  lastError := h.lastError

/-- Replace the changing part of an index entry. -/
def FlashqIndexEntry.withProgress (p : Progress) (e : FlashqIndexEntry) : FlashqIndexEntry :=
  { e with toEntryMeta := e.toEntryMeta.withProgress p }

variable {cfg}

@[simp] theorem FlashqIndexEntry.withProgress_toEntryMeta (p : Progress) (e : FlashqIndexEntry) :
    (e.withProgress p).toEntryMeta = e.toEntryMeta.withProgress p := rfl

@[simp] theorem FlashqIndexEntry.withProgress_messageOffset (p : Progress) (e : FlashqIndexEntry) :
    (e.withProgress p).messageOffset = e.messageOffset := rfl

@[simp] theorem replay_nil : replay cfg [] = ⟨[], 0⟩ := rfl

theorem replay_append (recs more : List (Nat × RecordHdr)) :
    replay cfg (recs ++ more) = more.foldl (fun r x => r.apply cfg x.1 x.2) (replay cfg recs) := by
  rw [replay, List.foldl_append, ← replay]

theorem replay_snoc (recs : List (Nat × RecordHdr)) (off : Nat) (h : RecordHdr) :
    replay cfg (recs ++ [(off, h)]) = (replay cfg recs).apply cfg off h := by
  rw [replay_append]
  rfl

theorem maxSeq_snoc (recs : List (Nat × RecordHdr)) (off : Nat) (h : RecordHdr) :
    maxSeq (recs ++ [(off, h)]) = if maxSeq recs < h.seq then h.seq else maxSeq recs := by
  rw [maxSeq, List.foldl_append]
  rfl

/-! ## One record -/

namespace Replay

theorem apply_message {r : Replay} {off : Nat} {h : RecordHdr}
    (ht : h.type = RecordType.message.code) (hroom : r.index.length < cfg.indexCapacity) :
    r.apply cfg off h = { r with index := r.index ++ [h.indexEntry off] } := by
  rw [apply, if_pos ht, if_neg (by omega)]

theorem apply_update {r : Replay} {off : Nat} {h : RecordHdr} {pos : Nat}
    (ht : h.type = RecordType.update.code) (hpos : findEntry r.index h.messageId = some pos)
    (hs : isFinal h.state = false) :
    r.apply cfg off h = { r with index := r.index.modify pos (·.withProgress h.progress) } := by
  have hs' : ¬ (h.state = FlashqState.delivered.code ∨ h.state = FlashqState.removed.code) := by
    simpa [isFinal] using hs
  rw [apply, if_neg (by rw [ht]; decide), if_pos ht, hpos]
  simp only [if_neg hs']
  rfl

theorem apply_final {r : Replay} {off : Nat} {h : RecordHdr} {pos : Nat}
    (ht : h.type = RecordType.update.code) (hpos : findEntry r.index h.messageId = some pos)
    (hs : isFinal h.state = true) :
    r.apply cfg off h = ⟨swapRemove r.index pos, r.awaitingGcCount + 1⟩ := by
  have hs' : h.state = FlashqState.delivered.code ∨ h.state = FlashqState.removed.code := by
    simpa [isFinal] using hs
  rw [apply, if_neg (by rw [ht]; decide), if_pos ht, hpos]
  simp only [if_pos hs', swapRemove_modify]

theorem apply_end {r : Replay} {off : Nat} {h : RecordHdr}
    (ht : h.type = RecordType.endMarker.code) : r.apply cfg off h = r := by
  rw [apply, if_neg (by rw [ht]; decide), if_neg (by rw [ht]; decide)]

/-- What one record can do to the index. -/
theorem apply_cases (r : Replay) (off : Nat) (h : RecordHdr) :
    r.apply cfg off h = r ∨
    (h.type = RecordType.message.code ∧ r.index.length < cfg.indexCapacity ∧
      r.apply cfg off h = { r with index := r.index ++ [h.indexEntry off] }) ∨
    (∃ pos, r.apply cfg off h =
      { r with index := r.index.modify pos (·.withProgress h.progress) }) ∨
    (∃ pos, findEntry r.index h.messageId = some pos ∧
      r.apply cfg off h = ⟨swapRemove r.index pos, r.awaitingGcCount + 1⟩) := by
  by_cases hm : h.type = RecordType.message.code
  · by_cases hroom : cfg.indexCapacity ≤ r.index.length
    · left
      rw [apply, if_pos hm, if_pos hroom]
    · exact .inr (.inl ⟨hm, by omega, apply_message hm (by omega)⟩)
  · by_cases hu : h.type = RecordType.update.code
    · cases hpos : findEntry r.index h.messageId with
      | none =>
        left
        rw [apply, if_neg hm, if_pos hu, hpos]
      | some pos =>
        cases hs : isFinal h.state with
        | false => exact .inr (.inr (.inl ⟨pos, apply_update hu hpos hs⟩))
        | true => exact .inr (.inr (.inr ⟨pos, rfl, apply_final hu hpos hs⟩))
    · left
      rw [apply, if_neg hm, if_neg hu]

end Replay

theorem length_replay_le (recs : List (Nat × RecordHdr)) :
    (replay cfg recs).index.length ≤ cfg.indexCapacity := by
  induction recs using List.reverseRecOn with
  | nil => exact Nat.zero_le _
  | append_singleton recs x ih =>
    rw [show [x] = [(x.1, x.2)] from rfl, replay_snoc]
    rcases @Replay.apply_cases cfg (replay cfg recs) x.1 x.2 with
      h | ⟨_, hroom, h⟩ | ⟨pos, h⟩ | ⟨pos, _, h⟩
    · rw [h]
      exact ih
    · rw [h, List.length_append]
      exact hroom
    · rw [h, List.length_modify]
      exact ih
    · rw [h, length_swapRemove]
      omega

/-! ## Where the records of an index are -/

/-- The record behind an entry: the record `h` at `off` is a MESSAGE record of
this entry. -/
def FlashqIndexEntry.IsFor (e : FlashqIndexEntry) (off : Nat) (h : RecordHdr) : Prop :=
  e.messageOffset = UInt32.ofNat off ∧ h.type = RecordType.message.code ∧
    (h.messageId, h.priority, h.destinationLen, h.bodyLen, h.createdAtUs) = e.identity

theorem RecordHdr.isFor_indexEntry {h : RecordHdr} (ht : h.type = RecordType.message.code)
    (off : Nat) : (h.indexEntry off).IsFor off h := ⟨rfl, ht, rfl⟩

/-- Every entry of a replay comes from a MESSAGE record of the log. -/
theorem replay_mem {recs : List (Nat × RecordHdr)} {e : FlashqIndexEntry}
    (he : e ∈ (replay cfg recs).index) : ∃ off h, (off, h) ∈ recs ∧ e.IsFor off h := by
  induction recs using List.reverseRecOn generalizing e with
  | nil => simp at he
  | append_singleton recs x ih =>
    obtain ⟨off, h⟩ := x
    have lift : (∃ o r, (o, r) ∈ recs ∧ e.IsFor o r) →
        ∃ o r, (o, r) ∈ recs ++ [(off, h)] ∧ e.IsFor o r := by
      rintro ⟨o, r, hm, hf⟩
      exact ⟨o, r, List.mem_append_left _ hm, hf⟩
    rw [replay_snoc] at he
    rcases @Replay.apply_cases cfg (replay cfg recs) off h with
      hr | ⟨ht, _, hr⟩ | ⟨pos, hr⟩ | ⟨pos, _, hr⟩
    · rw [hr] at he
      exact lift (ih he)
    · rw [hr] at he
      rcases List.mem_append.mp he with he | he
      · exact lift (ih he)
      · rw [List.mem_singleton.mp he]
        exact ⟨off, h, by simp, RecordHdr.isFor_indexEntry ht off⟩
    · rw [hr] at he
      rcases mem_of_mem_modify he with he | ⟨b, hb, rfl⟩
      · exact lift (ih he)
      · obtain ⟨o, r, hm, hf⟩ := ih (List.mem_of_getElem? hb)
        exact ⟨o, r, List.mem_append_left _ hm, hf⟩
    · rw [hr] at he
      exact lift (ih (mem_of_mem_swapRemove he))

/-! ## Sizes -/

@[simp] theorem liveBytes_nil : liveBytes [] = 0 := rfl

@[simp] theorem liveBytes_cons (e : FlashqIndexEntry) (es : List FlashqIndexEntry) :
    liveBytes (e :: es) = e.recordSize + liveBytes es := by
  simp [liveBytes]

@[simp] theorem liveBytes_append (es fs : List FlashqIndexEntry) :
    liveBytes (es ++ fs) = liveBytes es + liveBytes fs := by
  simp [liveBytes]

/-- Sizes depend on the unchanging part only. -/
theorem liveBytes_congr {es fs : List FlashqIndexEntry}
    (h : es.map (·.identity) = fs.map (·.identity)) : liveBytes es = liveBytes fs := by
  have hg : ∀ l : List FlashqIndexEntry, liveBytes l =
      ((l.map (·.identity)).map fun i => recordTotalSize i.2.2.1 i.2.2.2.1).sum := by
    intro l
    rw [List.map_map]
    rfl
  rw [hg, hg, h]

theorem liveBytes_modify (es : List FlashqIndexEntry) (pos : Nat) (p : FlashqIndexEntry → Progress) :
    liveBytes (es.modify pos fun e => e.withProgress (p e)) = liveBytes es :=
  liveBytes_congr (map_modify_of_eq fun _ _ => rfl)

theorem liveBytes_swapRemove {es : List FlashqIndexEntry} {pos : Nat} {e : FlashqIndexEntry}
    (h : es[pos]? = some e) : e.recordSize + liveBytes (swapRemove es pos) = liveBytes es := by
  have hp := ((perm_swapRemove h).map fun e => e.toEntryMeta.recordSize).sum_nat
  rw [liveBytes, liveBytes, hp, List.map_cons, List.sum_cons]

theorem findEntry_some {es : List FlashqIndexEntry} {id : UInt64} {pos : Nat}
    (h : findEntry es id = some pos) : ∃ e, es[pos]? = some e ∧ e.id = id := by
  obtain ⟨e, he, hp⟩ := findPos_some h
  exact ⟨e, he, by simpa using hp⟩

/-- The live records are among the records of the log. -/
theorem liveBytes_replay_le (recs : List (Nat × RecordHdr)) :
    liveBytes (replay cfg recs).index ≤ (recs.map fun x => x.2.totalSize).sum := by
  induction recs using List.reverseRecOn with
  | nil => exact Nat.le_refl _
  | append_singleton recs x ih =>
    obtain ⟨off, h⟩ := x
    rw [replay_snoc, List.map_append, List.sum_append, List.map_singleton, List.sum_singleton]
    rcases @Replay.apply_cases cfg (replay cfg recs) off h with
      hr | ⟨_, _, hr⟩ | ⟨pos, hr⟩ | ⟨pos, hpos, hr⟩
    · rw [hr]
      omega
    · have hsize : (h.indexEntry off).recordSize = h.totalSize := rfl
      rw [hr, liveBytes_append, liveBytes_cons, liveBytes_nil, hsize]
      simp only
      omega
    · rw [hr, liveBytes_modify]
      omega
    · obtain ⟨e, he, _⟩ := findEntry_some hpos
      have := liveBytes_swapRemove he
      rw [hr]
      simp only
      omega

/-! ## Messages on flash -/

/-- The message of an entry, read off a region. -/
def contentOf (v : Memory) (e : FlashqIndexEntry) : StoredMessage where
  toEntryMeta := e.toEntryMeta
  destination := v.bytesAt (e.messageOffset.toNat + hdrSize) e.destinationLen.toNat
  payload := v.bytesAt (e.messageOffset.toNat + hdrSize + e.destinationLen.toNat) e.payloadLen.toNat

/-- The messages of an index, read off a region. -/
def contents (v : Memory) (index : List FlashqIndexEntry) : List StoredMessage :=
  index.map (contentOf v)

variable (cfg) in
/-- An entry whose own MESSAGE record stands at its offset, between the start of
the data area and `limit`, and fits the scratch buffers. -/
structure Located (v : Memory) (limit : Nat) (e : FlashqIndexEntry) : Prop where
  record : ∃ h, acceptAt cfg v e.messageOffset.toNat = some h ∧
    e.IsFor e.messageOffset.toNat h
  lower : dataStart ≤ e.messageOffset.toNat
  upper : e.messageOffset.toNat + e.recordSize ≤ limit
  destinationLen_le : e.destinationLen.toNat ≤ maxDestinationLen
  payloadLen_le : e.payloadLen ≤ cfg.maxMessageSize
  destination_ne : ∀ b ∈ (contentOf v e).destination, b ≠ 0

theorem EntryMeta.le_recordSize (e : EntryMeta) :
    hdrSize + e.destinationLen.toNat + e.payloadLen.toNat + 4 ≤ e.recordSize := le_round4 _

@[simp] theorem contentOf_withProgress (v : Memory) (p : Progress) (e : FlashqIndexEntry) :
    contentOf v (e.withProgress p) = (contentOf v e).change fun _ => p := rfl

theorem contentOf_congr {v w : Memory} {lo hi : Nat} {e : FlashqIndexEntry}
    (hvw : AgreeOn w v lo hi) (h1 : lo ≤ e.messageOffset.toNat)
    (h2 : e.messageOffset.toNat + e.recordSize ≤ hi) : contentOf w e = contentOf v e := by
  have hle := e.toEntryMeta.le_recordSize
  rw [contentOf, contentOf, hvw.bytesAt (by omega) (by omega), hvw.bytesAt (by omega) (by omega)]

namespace Located

variable {v w : Memory} {limit : Nat} {e : FlashqIndexEntry}

theorem congr (h : Located cfg v limit e) (hvw : AgreeOn w v dataStart limit) :
    Located cfg w limit e := by
  obtain ⟨hdr, ha, hf⟩ := h.record
  have hlo := h.lower
  have hup := h.upper
  have hus := hdr.usedSize_le
  have hsize : hdr.totalSize = e.recordSize := by
    have hid := hf.2.2
    simp only [EntryMeta.identity, Prod.mk.injEq] at hid
    rw [RecordHdr.totalSize, EntryMeta.recordSize, hid.2.2.1, hid.2.2.2.1]
  refine ⟨⟨hdr, acceptAt_congr ha (hvw.mono hlo (by omega)), hf⟩, hlo, hup, h.destinationLen_le,
    h.payloadLen_le, ?_⟩
  rw [contentOf_congr hvw hlo hup]
  exact h.destination_ne

theorem mono (h : Located cfg v limit e) {limit' : Nat} (hle : limit ≤ limit') :
    Located cfg v limit' e :=
  ⟨h.record, h.lower, Nat.le_trans h.upper hle, h.destinationLen_le, h.payloadLen_le,
    h.destination_ne⟩

theorem withProgress (h : Located cfg v limit e) (p : Progress) :
    Located cfg v limit (e.withProgress p) :=
  ⟨h.record, h.lower, h.upper, h.destinationLen_le, h.payloadLen_le, h.destination_ne⟩

end Located

theorem contents_congr {v w : Memory} {limit : Nat} {index : List FlashqIndexEntry}
    (hvw : AgreeOn w v dataStart limit) (h : ∀ e ∈ index, Located cfg v limit e) :
    contents w index = contents v index := by
  apply List.map_congr_left
  intro e he
  exact contentOf_congr hvw (h e he).lower (h e he).upper

/-- Changing an entry changes its message alike. -/
theorem contents_modify (v : Memory) (index : List FlashqIndexEntry) (pos : Nat)
    (f : Progress → Progress) :
    contents v (index.modify pos fun e => e.withProgress (f e.progress)) =
      (contents v index).modify pos (·.change f) :=
  modify_map (f := fun e => FlashqIndexEntry.withProgress (f e.progress) e) 
    (g := StoredMessage.change f) (h := contentOf v) (fun _ => rfl) index pos

theorem contents_swapRemove (v : Memory) (index : List FlashqIndexEntry) (pos : Nat) :
    contents v (swapRemove index pos) = swapRemove (contents v index) pos :=
  map_swapRemove _ _ _

/-! ## A compacted region -/

/-- The entries with their records placed one behind the other, from `off` on. -/
def placed : Nat → List FlashqIndexEntry → List FlashqIndexEntry
  | _, [] => []
  | off, e :: es => { e with messageOffset := UInt32.ofNat off } :: placed (off + e.recordSize) es

/-- The header compaction writes for an entry. -/
def FlashqIndexEntry.copyHdr (e : FlashqIndexEntry) (seq : UInt32) : RecordHdr :=
  RecordHdr.seal
    { RecordHdr.zero with
      seq := seq
      type := RecordType.message.code
      state := e.state
      priority := e.priority
      messageId := e.id
      attemptCount := e.attemptCount
      createdAtUs := e.createdAtUs
      lastAttemptAtUs := e.lastAttemptAtUs
      nextRetryAtUs := e.nextRetryAtUs
      lastError := e.lastError }
    e.destinationLen e.payloadLen

/-- The records the copy loop writes. -/
def copiedRecs : Nat → UInt32 → List FlashqIndexEntry → List (Nat × RecordHdr)
  | _, _, [] => []
  | off, seq, e :: es => (off, e.copyHdr seq) :: copiedRecs (off + e.recordSize) (seq + 1) es

@[simp] theorem FlashqIndexEntry.totalSize_copyHdr (e : FlashqIndexEntry) (seq : UInt32) :
    (e.copyHdr seq).totalSize = e.recordSize := rfl

theorem FlashqIndexEntry.indexEntry_copyHdr (e : FlashqIndexEntry) (seq : UInt32) (off : Nat) :
    (e.copyHdr seq).indexEntry off = { e with messageOffset := UInt32.ofNat off } := rfl

theorem placed_map_meta (off : Nat) (es : List FlashqIndexEntry) :
    (placed off es).map (·.toEntryMeta) = es.map (·.toEntryMeta) := by
  induction es generalizing off with
  | nil => rfl
  | cons e es ih => rw [placed, List.map_cons, List.map_cons, ih]

theorem length_placed (off : Nat) (es : List FlashqIndexEntry) :
    (placed off es).length = es.length := by
  have h := congrArg List.length (placed_map_meta off es)
  simpa using h

theorem liveBytes_placed (off : Nat) (es : List FlashqIndexEntry) :
    liveBytes (placed off es) = liveBytes es := by
  have h : ∀ l : List FlashqIndexEntry,
      liveBytes l = ((l.map (·.toEntryMeta)).map EntryMeta.recordSize).sum := by
    intro l
    rw [List.map_map]
    rfl
  rw [h, h, placed_map_meta]

theorem placed_append (off : Nat) (es fs : List FlashqIndexEntry) :
    placed off (es ++ fs) = placed off es ++ placed (off + liveBytes es) fs := by
  induction es generalizing off with
  | nil => rfl
  | cons e es ih =>
    rw [List.cons_append, placed, placed, ih, List.cons_append, liveBytes_cons, Nat.add_assoc]

theorem copiedRecs_append (off : Nat) (seq : UInt32) (es fs : List FlashqIndexEntry) :
    copiedRecs off seq (es ++ fs) =
      copiedRecs off seq es ++
        copiedRecs (off + liveBytes es) (seq + UInt32.ofNat es.length) fs := by
  induction es generalizing off seq with
  | nil => simp [copiedRecs]
  | cons e es ih =>
    have hseq : seq + 1 + UInt32.ofNat es.length = seq + UInt32.ofNat (es.length + 1) := by
      rw [UInt32.ofNat_add, UInt32.add_assoc, UInt32.add_comm 1]
      rfl
    rw [List.cons_append, copiedRecs, copiedRecs, ih, List.cons_append, liveBytes_cons,
      Nat.add_assoc, List.length_cons, hseq]

/-- Replaying the copied records gives the placed entries back. -/
theorem foldl_copiedRecs {done : List FlashqIndexEntry} {gc : UInt32} (off : Nat) (seq : UInt32)
    (es : List FlashqIndexEntry) (hroom : done.length + es.length ≤ cfg.indexCapacity) :
    (copiedRecs off seq es).foldl (fun r x => Replay.apply cfg r x.1 x.2) ⟨done, gc⟩ =
      ⟨done ++ placed off es, gc⟩ := by
  induction es generalizing off seq done with
  | nil => simp [copiedRecs, placed]
  | cons e es ih =>
    rw [List.length_cons] at hroom
    rw [copiedRecs, List.foldl_cons]
    simp only
    rw [Replay.apply_message (r := ⟨done, gc⟩) (h := e.copyHdr seq) rfl
      (by simp only; omega)]
    simp only
    rw [ih _ _ (by rw [List.length_append, List.length_singleton]; omega), placed,
      FlashqIndexEntry.indexEntry_copyHdr, List.append_assoc, List.singleton_append]

/-- The records of a region that compaction has just filled. -/
def compactedRecs (seq : UInt32) (index : List FlashqIndexEntry) : List (Nat × RecordHdr) :=
  copiedRecs dataStart seq index ++
    [(dataStart + liveBytes index, endHdr (seq + UInt32.ofNat index.length))]

theorem replay_compactedRecs {index : List FlashqIndexEntry} (seq : UInt32)
    (hroom : index.length ≤ cfg.indexCapacity) :
    replay cfg (compactedRecs seq index) = ⟨placed dataStart index, 0⟩ := by
  rw [compactedRecs, replay_snoc, Replay.apply_end rfl]
  have h := @foldl_copiedRecs cfg [] 0 dataStart seq index (by simpa using hroom)
  simpa [replay] using h

end EdgeSync
