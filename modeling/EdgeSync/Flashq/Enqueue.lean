/-
  Flashq/Enqueue.lean --- `op_enqueue` under a regime.

  An accepted message is one MESSAGE record behind the log and one entry at the
  end of the index.  A torn record may have been accepted with another body, so
  `storedWith` keeps the body apart from the message.
-/
import EdgeSync.Flashq.Update

set_option autoImplicit false

namespace EdgeSync

open Foundation

variable {cfg : FlashqConfig} {R : Regime cfg}

/-! ## The record of a message -/

namespace EdgesyncMessage

/-- The header `op_enqueue` writes. -/
def hdr (message : EdgesyncMessage) (seq : UInt32) : RecordHdr :=
  messageHdr message.id message.destination message.priority FlashqState.pending.code 0
    message.createdAtUs 0 0 0 message.payloadLen seq

/-- Destination and payload. -/
def body (message : EdgesyncMessage) : Bytes := cString message.destination ++ message.payload

/-- Bytes of the record. -/
def recordSize (message : EdgesyncMessage) : Nat :=
  recordTotalSize (UInt16.ofNat (strlen message.destination)) message.payloadLen

/-- The message with a body of the right length. -/
def storedWith (message : EdgesyncMessage) (body : Bytes) : StoredMessage :=
  { StoredMessage.ofMessage message with
    destination := body.take (strlen message.destination)
    payload := body.drop (strlen message.destination) }

theorem storedWith_body (message : EdgesyncMessage) :
    message.storedWith message.body = StoredMessage.ofMessage message := by
  have h1 : message.body.take (strlen message.destination) = cString message.destination :=
    List.take_left' rfl
  have h2 : message.body.drop (strlen message.destination) = message.payload :=
    List.drop_left' rfl
  rw [storedWith, h1, h2]
  rfl

@[simp] theorem totalSize_hdr (message : EdgesyncMessage) (seq : UInt32) :
    (message.hdr seq).totalSize = message.recordSize := rfl

@[simp] theorem seq_hdr (message : EdgesyncMessage) (seq : UInt32) :
    (message.hdr seq).seq = seq := rfl

variable {message : EdgesyncMessage}

theorem payloadLen_toNat (h : message.payload.length ≤ cfg.maxMessageSize.toNat) :
    message.payloadLen.toNat = message.payload.length := by
  have := cfg.maxMessageSize.toNat_lt
  apply UInt32.toNat_ofNat_of_lt'
  simp only [UInt32.size]
  omega

theorem length_body (hd : strlen message.destination ≤ maxDestinationLen)
    (h : message.payload.length ≤ cfg.maxMessageSize.toNat) (seq : UInt32) :
    message.body.length = (message.hdr seq).bodyBytes := by
  have h1 := strlen_toNat hd
  have h2 := payloadLen_toNat h
  rw [body, List.length_append, ← strlen_eq_length_cString, ← h1, ← h2]
  rfl

/-- The entry of the record. -/
theorem contentOf_hdr (v : Memory) {off : Nat} (hoff : (UInt32.ofNat off).toNat = off)
    (hd : strlen message.destination ≤ maxDestinationLen)
    (h : message.payload.length ≤ cfg.maxMessageSize.toNat) (seq : UInt32) :
    contentOf v ((message.hdr seq).indexEntry off) =
      message.storedWith (v.bytesAt (off + hdrSize) (message.hdr seq).bodyBytes) := by
  have h1 := strlen_toNat hd
  have hlen := length_body hd h seq
  have hb : (message.hdr seq).bodyBytes = strlen message.destination + message.payloadLen.toNat := by
    rw [← h1]
    rfl
  have htake : (v.bytesAt (off + hdrSize) (message.hdr seq).bodyBytes).take
      (strlen message.destination) = v.bytesAt (off + hdrSize) (strlen message.destination) :=
    Memory.take_bytesAt (by omega)
  have hdrop : (v.bytesAt (off + hdrSize) (message.hdr seq).bodyBytes).drop
      (strlen message.destination) =
      v.bytesAt (off + hdrSize + strlen message.destination) message.payloadLen.toNat := by
    rw [Memory.drop_bytesAt, hb, Nat.add_sub_cancel_left]
  rw [storedWith, htake, hdrop]
  simp only [contentOf, RecordHdr.indexEntry, hdr, messageHdr, RecordHdr.seal, hoff, h1]
  rfl

end EdgesyncMessage

/-- A byte of a body that landed is a byte of the body, or erased. -/
theorem Landed.mem {data data' : Bytes} (h : Landed data data') {b : UInt8} (hb : b ∈ data') :
    b ∈ data ∨ b = 0xFF := by
  induction h with
  | nil => simp at hb
  | cons hab _ ih =>
    rcases List.mem_cons.mp hb with rfl | hb
    · rcases hab with rfl | h
      · exact .inl List.mem_cons_self
      · exact .inr h
    · rcases ih hb with h | h
      · exact .inl (List.mem_cons_of_mem _ h)
      · exact .inr h

theorem Landed.take {data data' : Bytes} (h : Landed data data') (n : Nat) :
    Landed (data.take n) (data'.take n) := List.forall₂_take n h

/-- The entry of an accepted record is located, even with a torn body. -/
theorem located_hdr {v : Memory} {off : Nat} {message : EdgesyncMessage} {seq : UInt32}
    (hacc : acceptAt cfg v off = some (message.hdr seq))
    (hland : Landed message.body (v.bytesAt (off + hdrSize) (message.hdr seq).bodyBytes))
    (hlow : dataStart ≤ off) (hoff : (UInt32.ofNat off).toNat = off)
    (hd : strlen message.destination ≤ maxDestinationLen)
    (h : message.payload.length ≤ cfg.maxMessageSize.toNat) :
    Located cfg v (off + message.recordSize) ((message.hdr seq).indexEntry off) := by
  have h1 := strlen_toNat hd
  refine ⟨⟨message.hdr seq, ?_, ?_, rfl, rfl⟩, ?_, ?_, ?_, ?_, ?_⟩
  · show acceptAt cfg v (UInt32.ofNat off).toNat = _
    rw [hoff]
    exact hacc
  · show UInt32.ofNat off = UInt32.ofNat (UInt32.ofNat off).toNat
    rw [hoff]
  · show dataStart ≤ (UInt32.ofNat off).toNat
    rw [hoff]
    exact hlow
  · show (UInt32.ofNat off).toNat + message.recordSize ≤ off + message.recordSize
    rw [hoff]
  · show (UInt16.ofNat (strlen message.destination)).toNat ≤ maxDestinationLen
    rw [h1]
    exact hd
  · show message.payloadLen.toNat ≤ cfg.maxMessageSize.toNat
    rw [EdgesyncMessage.payloadLen_toNat h]
    exact h
  · rw [EdgesyncMessage.contentOf_hdr v hoff hd h]
    intro b hb
    have htake : message.body.take (strlen message.destination) = cString message.destination :=
      List.take_left' rfl
    rcases (hland.take (strlen message.destination)).mem hb with hb | rfl
    · rw [htake] at hb
      exact ne_zero_of_mem_cString hb
    · decide

/-! ## One more message -/

variable (R) in
/-- The message was appended to the log and to the index. -/
structure Enqueued (c1 : Core) (m1 : Memory) (message : EdgesyncMessage) (c2 : Core) (m2 : Memory) :
    Prop where
  written : Written R m1 c1.region c1.cursor (message.hdr c1.nextSeq) message.body m2
  core_eq : c2 =
    { c1 with
      cursor := c1.cursor + message.recordSize
      nextSeq := c1.nextSeq + 1
      index := c1.index ++ [(message.hdr c1.nextSeq).indexEntry c1.cursor] }
  room : c1.index.length < cfg.indexCapacity
  live : liveBytes c1.index + message.recordSize + updateSize ≤ cfg.dataCapacity
  destination_le : strlen message.destination ≤ maxDestinationLen
  payload_le : message.payload.length ≤ cfg.maxMessageSize.toNat

/-- The records after a MESSAGE record. -/
def enqueuedRecs (c : Core) (recs : List (Nat × RecordHdr)) (message : EdgesyncMessage) :
    List (Nat × RecordHdr) := recs ++ [(c.cursor, message.hdr c.nextSeq)]

/-- The replay of a MESSAGE record. -/
theorem replay_enqueuedRecs {c : Core} {recs : List (Nat × RecordHdr)}
    (hroom : (replay cfg recs).index.length < cfg.indexCapacity) (message : EdgesyncMessage) :
    replay cfg (enqueuedRecs c recs message) =
      { replay cfg recs with
        index := (replay cfg recs).index ++ [(message.hdr c.nextSeq).indexEntry c.cursor] } := by
  rw [enqueuedRecs, replay_snoc]
  exact Replay.apply_message rfl hroom

theorem contents_append (v : Memory) (es fs : List FlashqIndexEntry) :
    contents v (es ++ fs) = contents v es ++ contents v fs := List.map_append

theorem Base.length_eq {c : Core} {m : Memory} {recs : List (Nat × RecordHdr)}
    (b : Base R c m recs) : (replay cfg recs).index.length = c.index.length := by
  simpa using congrArg List.length b.same.symm

theorem Base.toNat_cursor {c : Core} {m : Memory} {recs : List (Nat × RecordHdr)}
    (b : Base R c m recs) : (UInt32.ofNat c.cursor).toNat = c.cursor :=
  cfg.toNat_offset b.cursor_le

namespace Enqueued

variable {c1 c2 : Core} {m1 m2 : Memory} {recs : List (Nat × RecordHdr)}
  {message : EdgesyncMessage}

theorem located (en : Enqueued R c1 m1 message c2 m2) (b : Base R c1 m1 recs) :
    Located cfg (view cfg m2 c1.region) (c1.cursor + message.recordSize)
      ((message.hdr c1.nextSeq).indexEntry c1.cursor) := by
  refine located_hdr en.written.accepted ?_ b.toGrown.start_le b.toNat_cursor en.destination_le
    en.payload_le
  rw [en.written.body]
  exact R.torn_landed (R.torn_refl _)

theorem base (en : Enqueued R c1 m1 message c2 m2) (b : Base R c1 m1 recs) :
    Base R c2 m2 (enqueuedRecs c1 recs message) := by
  have g := b.toGrown.append en.written (c1.nextSeq + 1)
  have hroom : (replay cfg recs).index.length < cfg.indexCapacity := by
    rw [b.length_eq]
    exact en.room
  have hlive := en.live
  have hsize : liveBytes [(message.hdr c1.nextSeq).indexEntry c1.cursor] = message.recordSize :=
    Nat.add_zero _
  rw [en.core_eq]
  refine ⟨⟨g.active, g.generation, g.spare, g.spare_blank, g.log, g.tail, ?_, ?_⟩, ?_⟩
  · intro x hx
    rcases List.mem_append.mp hx with hx | hx
    · exact g.located x hx
    · rw [List.mem_singleton.mp hx]
      exact en.located b
  · show liveBytes (c1.index ++ _) + updateSize ≤ cfg.dataCapacity
    rw [liveBytes_append, hsize]
    exact hlive
  · show (c1.index ++ _).map FlashqIndexEntry.key = _
    rw [replay_enqueuedRecs hroom]
    simp only [List.map_append, b.same]

theorem contentOf_new (en : Enqueued R c1 m1 message c2 m2) (b : Base R c1 m1 recs) :
    contentOf (view cfg m2 c1.region) ((message.hdr c1.nextSeq).indexEntry c1.cursor) =
      StoredMessage.ofMessage message := by
  rw [EdgesyncMessage.contentOf_hdr _ b.toNat_cursor en.destination_le en.payload_le,
    en.written.body, EdgesyncMessage.storedWith_body]

/-- The messages of the index. -/
theorem contents_index (en : Enqueued R c1 m1 message c2 m2) (b : Base R c1 m1 recs) :
    contents (view cfg m2 c2.region) c2.index =
      contents (view cfg m1 c1.region) c1.index ++ [StoredMessage.ofMessage message] := by
  have hc := contents_congr (en.written.before.mono (Nat.zero_le _) (Nat.le_refl _)) b.located
  rw [en.core_eq]
  simp only
  rw [contents_append, hc]
  exact congrArg _ (congrArg (fun s => [s]) (en.contentOf_new b))

theorem lensEq {β : Type} {L : Lens β} (en : Enqueued R c1 m1 message c2 m2)
    (b : Base R c1 m1 recs) (h : LensEq L c1.index (replay cfg recs).index) :
    LensEq L c2.index (replay cfg (enqueuedRecs c1 recs message)).index := by
  have hroom : (replay cfg recs).index.length < cfg.indexCapacity := by
    rw [b.length_eq]
    exact en.room
  rw [replay_enqueuedRecs hroom, en.core_eq]
  simp only [LensEq, List.map_append] at h ⊢
  rw [h]

end Enqueued

/-- The encoder takes the message. -/
def EdgesyncMessage.Encodes (cfg : FlashqConfig) (message : EdgesyncMessage) : Prop :=
  strlen message.destination ≤ maxDestinationLen ∧ message.recordSize ≤ cfg.scratchSize

/-- Why `op_enqueue` refuses a message before it looks for space. -/
def EnqueueRefused (cfg : FlashqConfig) (index : List FlashqIndexEntry) (message : EdgesyncMessage)
    (err : EspErr) : Prop :=
  (err = .queueFull ∧ cfg.indexCapacity ≤ index.length) ∨
  (err = .serialization ∧ index.length < cfg.indexCapacity ∧ ¬ message.Encodes cfg)

/-- The encoder, as `op_enqueue` calls it. -/
theorem encodeMessage_eq {message : EdgesyncMessage}
    (hpay : message.payload.length ≤ cfg.maxMessageSize.toNat) (h : message.Encodes cfg)
    (buf : Bytes) (seq : UInt32) :
    encodeMessage buf cfg.scratchSize message seq =
      some (recordBytes (message.hdr seq) message.body ++ buf.drop message.recordSize,
        message.recordSize) :=
  encodeMessageFull_eq h.1 h.2 (EdgesyncMessage.payloadLen_toNat hpay).symm

theorem encodeMessage_none {message : EdgesyncMessage} (h : ¬ message.Encodes cfg) (buf : Bytes)
    (seq : UInt32) : encodeMessage buf cfg.scratchSize message seq = none := by
  by_cases hd : strlen message.destination ≤ maxDestinationLen
  · have hcap : cfg.scratchSize < message.recordSize := Nat.lt_of_not_le fun hcap => h ⟨hd, hcap⟩
    exact encodeMessageFull_none_of_cap hcap
  · exact encodeMessageFull_none_of_dest (Nat.lt_of_not_le hd)

section Program

variable {ctx : FlashqCtx} {m : Memory} {recs : List (Nat × RecordHdr)}
  {Q : List StoredMessage → Prop} {message : EdgesyncMessage}

/-- The queues a power cut during `op_enqueue` may leave. -/
structure EnqueueQueues (R : Regime cfg) (Q : List StoredMessage → Prop) (v : Memory)
    (recs : List (Nat × RecordHdr)) (index : List FlashqIndexEntry) (message : EdgesyncMessage) :
    Prop where
  log : Q (contents v (replay cfg recs).index)
  ram : Q (contents v index)
  log_message : ∀ d, R.Torn message.body d →
    Q (contents v (replay cfg recs).index ++ [message.storedWith d])
  ram_message : ∀ d, R.Torn message.body d → Q (contents v index ++ [message.storedWith d])

theorem Moved.log_eq {c c1 : Core} {m1 : Memory} {recs1 : List (Nat × RecordHdr)}
    (mv : Moved R c m recs c1 m1 recs1) (hroom : c.index.length ≤ cfg.indexCapacity) :
    contents (view cfg m1 c1.region) (replay cfg recs1).index =
        contents (view cfg m c.region) (replay cfg recs).index ∨
      contents (view cfg m1 c1.region) (replay cfg recs1).index =
        contents (view cfg m c.region) c.index := by
  have hc := mv.contents_eq
  rcases mv.how with ⟨rfl, rfl, rfl⟩ | ⟨rfl, rfl⟩
  · exact .inl rfl
  · right
    rw [congrArg Replay.index (replay_of_compacted hroom), hc]

/-- An interrupted MESSAGE record leaves an image. -/
theorem Base.image_of_message {c : Core} {m' : Memory} (b : Base R c m recs)
    (hroom : c.index.length < cfg.indexCapacity)
    (hlive : liveBytes c.index + message.recordSize + updateSize ≤ cfg.dataCapacity)
    (hd : strlen message.destination ≤ maxDestinationLen)
    (hpay : message.payload.length ≤ cfg.maxMessageSize.toNat)
    (hQ : Q (contents (view cfg m c.region) (replay cfg recs).index))
    (hQm : ∀ d, R.Torn message.body d →
      Q (contents (view cfg m c.region) (replay cfg recs).index ++ [message.storedWith d]))
    (al : AppendLeft R m c.region c.cursor (message.hdr c.nextSeq) message.body m') :
    Image R m' Q := by
  refine b.image_of_append hQ al fun hacc htorn => ?_
  have hlow := al.before.mono (Nat.zero_le dataStart) (Nat.le_refl _)
  have hstored := located_of_keys b.same b.located
  have hlen := liveBytes_congr (identities_of_keys b.same)
  have hlog : (replay cfg recs).index.length < cfg.indexCapacity := by
    rw [b.length_eq]
    exact hroom
  rw [Replay.apply_message rfl hlog]
  have hnew := located_hdr hacc (R.torn_landed htorn) b.toGrown.start_le b.toNat_cursor hd hpay
  refine ⟨fun x hx => ?_, ?_, ?_⟩
  · rcases List.mem_append.mp hx with hx | hx
    · exact ((hstored x hx).congr hlow).mono (Nat.le_add_right _ _)
    · rw [List.mem_singleton.mp hx]
      exact hnew
  · have hsize : liveBytes [(message.hdr c.nextSeq).indexEntry c.cursor] = message.recordSize :=
      Nat.add_zero _
    simp only
    rw [liveBytes_append, hsize]
    omega
  · simp only
    have hone : contents (view cfg m' c.region) [(message.hdr c.nextSeq).indexEntry c.cursor] =
        [message.storedWith ((view cfg m' c.region).bytesAt (c.cursor + hdrSize)
          (message.hdr c.nextSeq).bodyBytes)] :=
      congrArg (fun s => [s]) (EdgesyncMessage.contentOf_hdr _ b.toNat_cursor hd hpay _)
    rw [contents_append, contents_congr hlow hstored, hone]
    exact hQm _ htorn

/-- So does one behind a compaction. -/
theorem EnqueueQueues.image {c c1 : Core} {m1 m' : Memory} {recs1 : List (Nat × RecordHdr)}
    (hQ : EnqueueQueues R Q (view cfg m c.region) recs c.index message) (b : Base R c m recs)
    (mv : Moved R c m recs c1 m1 recs1) (hroom : c1.index.length < cfg.indexCapacity)
    (hlive : liveBytes c1.index + message.recordSize + updateSize ≤ cfg.dataCapacity)
    (hd : strlen message.destination ≤ maxDestinationLen)
    (hpay : message.payload.length ≤ cfg.maxMessageSize.toNat)
    (al : AppendLeft R m1 c1.region c1.cursor (message.hdr c1.nextSeq) message.body m') :
    Image R m' Q := by
  refine mv.base.image_of_message hroom hlive hd hpay ?_ ?_ al
  · rcases mv.log_eq b.room with h | h
    · rw [h]
      exact hQ.log
    · rw [h]
      exact hQ.ram
  · intro d hd
    rcases mv.log_eq b.room with h | h
    · rw [h]
      exact hQ.log_message d hd
    · rw [h]
      exact hQ.ram_message d hd

/-- `op_enqueue`. -/
theorem wp_opEnqueue {P : Post FlashqCtx Memory EspErr Unit} (hquiet : ¬ R.mayFail)
    (b : Base R ctx.core m recs) (hpay : message.payload.length ≤ cfg.maxMessageSize.toNat)
    (hQ : EnqueueQueues R Q (view cfg m ctx.activeRegion) recs ctx.index message)
    (hok : ∀ (ctx1 : FlashqCtx) m1 recs1 (ctx2 : FlashqCtx) m2,
      Moved R ctx.core m recs ctx1.core m1 recs1 →
      Enqueued R ctx1.core m1 message ctx2.core m2 → P.ok () ctx2 m2)
    (hrefused : ∀ err (ctx' : FlashqCtx), ctx'.core = ctx.core →
      EnqueueRefused cfg ctx.index message err → P.error err ctx' m)
    (hfull : ∀ (ctx1 : FlashqCtx) m1 recs1, Moved R ctx.core m recs ctx1.core m1 recs1 →
      ctx1.core = ctx.core.compacted → recs1 = compactedRecs ctx.nextSeq ctx.index →
      cfg.dataCapacity < liveBytes ctx.index + updateSize + message.recordSize →
      P.error .storage ctx1 m1)
    (hbad : R.lossy → ∀ (ctx1 : FlashqCtx) m1 recs1 (ctx2 : FlashqCtx) m2,
      Moved R ctx.core m recs ctx1.core m1 recs1 →
      Spoilt R m1 ctx1.activeRegion ctx1.cursor m2 → ctx2.core = ctx1.core →
      P.error .storage ctx2 m2)
    (hcut : ∀ m', Image R m' Q → P.cut m') :
    wp cfg.device R.env (opEnqueue cfg message) P ctx m := by
  unfold opEnqueue
  simp only [Prog.bind_eq, wp_bind, wp_read, wp_ite, wp_fail]
  refine ⟨fun hcap => hrefused _ _ rfl (.inl ⟨rfl, hcap⟩), fun hcap => ?_⟩
  have hlen : ctx.index.length < cfg.indexCapacity := Nat.lt_of_not_le hcap
  by_cases henc : message.Encodes cfg
  swap
  · rw [encodeMessage_none henc]
    exact wp_fail.mpr (hrefused _ _ rfl (.inr ⟨rfl, hlen, henc⟩))
  rw [encodeMessage_eq hpay henc]
  simp only [wp_bind, wp_modify]
  refine wp_ensureSpaceLocked (Q := Q) b hQ.log hQ.ram ?_ hfull (fun hmay => absurd hmay hquiet)
    hcut
  intro ctx1 m1 recs1 mv hroom hlive
  dsimp only at hlive ⊢
  simp only [wp_read, encodeMessage_eq hpay henc, wp_bind, wp_modify]
  have hlen1 : ctx1.index.length = ctx.index.length := mv.length_eq
  have hlive1 : liveBytes ctx1.index = liveBytes ctx.index := mv.liveBytes_eq
  have hroom1 : ctx1.core.index.length < cfg.indexCapacity := by
    rw [FlashqCtx.core, hlen1]
    exact hlen
  have hlive2 : liveBytes ctx1.core.index + message.recordSize + updateSize ≤ cfg.dataCapacity := by
    rw [FlashqCtx.core, hlive1]
    exact hlive
  have hsealed : (message.hdr ctx1.nextSeq).Sealed := RecordHdr.sealed_seal _ _ _
  have hbody : message.body.length = (message.hdr ctx1.nextSeq).bodyBytes :=
    EdgesyncMessage.length_body henc.1 hpay _
  refine wp_appendLocked (h := message.hdr ctx1.nextSeq) mv.base.toGrown hsealed hbody hroom
    (take_recordBytes hbody rfl) ?_ ?_ (fun hmay => absurd hmay hquiet)
    (fun m' al => hcut _ (hQ.image b mv hroom1 hlive2 henc.1 hpay al))
  · intro vs m2 w
    dsimp only
    exact hok _ _ _ _ _ mv ⟨w, rfl, hroom1, hlive2, henc.1, hpay⟩
  · intro hl vs m2 sp
    exact hbad hl _ _ _ _ _ mv sp rfl

end Program

end EdgeSync
