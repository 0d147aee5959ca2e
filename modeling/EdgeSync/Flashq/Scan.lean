/-
  Flashq/Scan.lean --- the scan loop of `scan_region` on any bytes.

  Nothing is assumed about the region, nor about the flash calls: a read may fail and the
  power may go.  Sums of lengths are numbers here, so they do not wrap.
-/
import EdgeSync.Foundation.Asked
import EdgeSync.Flashq.Recovery

set_option autoImplicit false

namespace EdgeSync

open Foundation

variable {cfg : FlashqConfig}

/-! ## The reads of the loop -/

variable (cfg) in
/-- A read inside the region. -/
def InRegion (region : Fin 2) : FlashCall → Prop
  | .read addr len => cfg.regionOffset region ≤ addr ∧
      addr + len ≤ cfg.regionOffset region + cfg.regionSize
  | _ => False

theorem only_scanLoop (region : Fin 2) (fuel off : Nat) (seq : UInt32) :
    Only (InRegion cfg region) (scanLoop cfg region fuel off seq) := by
  induction fuel generalizing off seq with
  | zero => exact Only.ret _
  | succ fuel ih =>
    unfold scanLoop
    simp only [Prog.bind_eq, Prog.pure_eq]
    refine Only.ite (fun hhdr => ?_) fun _ => Only.ret _
    refine Only.bind (Only.ask ⟨Nat.le_add_right _ _, by omega⟩) fun hdrBuf => ?_
    cases hdrBuf with
    | none => exact Only.ret _
    | some hdrBuf =>
      simp only []
      split
      · exact Only.ret _
      · rename_i hdr _
        refine Only.ite (fun _ => Only.ret _) fun hroom => ?_
        refine Only.bind (Only.ask ⟨by omega, by omega⟩) fun body => ?_
        cases body with
        | none => exact Only.ret _
        | some body =>
          refine Only.bind (Only.modify _) fun _ => Only.bind Only.read fun ctx => ?_
          exact Only.ite (fun _ => Only.bind (Only.modify _) fun _ => ih _ _) fun _ => Only.ret _

theorem only_scanLog (region : Fin 2) (generation : UInt32) :
    Only (InRegion cfg region) (scanLog cfg region generation) :=
  Only.bind (Only.modify _) fun _ => Only.bind (only_scanLoop region _ _ _) fun _ => Only.modify _

/-- More turns than bytes are never taken. -/
theorem scanLoop_fuel (region : Fin 2) (extra : Nat) {fuel off : Nat} (seq : UInt32)
    (h : cfg.regionSize < off + hdrSize + fuel) :
    scanLoop cfg region (fuel + extra) off seq = scanLoop cfg region fuel off seq := by
  induction fuel generalizing off seq with
  | zero =>
    cases extra with
    | zero => rfl
    | succ extra =>
      have hend : ¬ off + hdrSize ≤ cfg.regionSize := by omega
      simp only [scanLoop, if_neg hend]
  | succ fuel ih =>
    have hnext : ∀ n seq', scanLoop cfg region (fuel + extra) (off + round4 (hdrSize + n + 4)) seq' =
        scanLoop cfg region fuel (off + round4 (hdrSize + n + 4)) seq' := by
      intro n seq'
      have := le_round4 (hdrSize + n + 4)
      exact ih seq' (by omega)
    rw [Nat.add_right_comm, scanLoop, scanLoop]
    simp only [hnext]

/-! ## What the loop leaves -/

section Programs

variable {env : Env FlashCall Memory FlashEvent} {ctx : FlashqCtx} {m : Memory}

/-- A read, whatever happens. -/
theorem wp_anyRead {P : Post FlashqCtx Memory EspErr (Option Bytes)} {addr len : Nat}
    (hok : P.ok (some (m.bytesAt addr len)) ctx m) (hfail : P.ok none ctx m) (hcut : P.cut m) :
    wp cfg.device env (espPartitionRead addr len) P ctx m := by
  refine wp_call.mpr fun ev _ => ?_
  by_cases hfit : addr + len ≤ cfg.partitionSize.toNat
  · cases ev <;> simp only [FlashqConfig.device, flashDevice, if_pos hfit]
    · exact wp_ret.mpr hok
    · exact wp_ret.mpr hfail
    · exact hcut
    · exact hcut
  · simp only [FlashqConfig.device, flashDevice, if_neg hfit]
    exact wp_ret.mpr hfail

/-- The loop follows the log of the region, as far as it gets. -/
theorem wp_anyScanLoop {P : Post FlashqCtx Memory EspErr (Nat × UInt32)} {region : Fin 2} {off : Nat}
    {seq : UInt32} (fuel : Nat)
    (hok : ∀ recs e, Log cfg (view cfg m region) off recs e → ∀ vs,
      P.ok (e, recs.foldl (fun s x => if s < x.2.seq then x.2.seq else s) seq)
        { ctx with
          verifyScratch := vs
          index := (recs.foldl (fun r x => Replay.apply cfg r x.1 x.2)
            ⟨ctx.index, ctx.awaitingGcCount⟩).index
          awaitingGcCount := (recs.foldl (fun r x => Replay.apply cfg r x.1 x.2)
            ⟨ctx.index, ctx.awaitingGcCount⟩).awaitingGcCount } m)
    (hcut : P.cut m) : wp cfg.device env (scanLoop cfg region fuel off seq) P ctx m := by
  have hstop : ∀ vs, P.ok (off, seq) { ctx with verifyScratch := vs } m := hok [] off (.nil off)
  induction fuel generalizing off seq ctx with
  | zero => exact wp_ret.mpr (hstop ctx.verifyScratch)
  | succ fuel ih =>
    unfold scanLoop
    simp only [Prog.bind_eq, Prog.pure_eq, wp_ite, wp_ret, wp_bind]
    refine ⟨fun hhdr => ?_, fun _ => hstop ctx.verifyScratch⟩
    refine wp_anyRead ?_ (wp_ret.mpr (hstop ctx.verifyScratch)) hcut
    rw [bytesAt_region]
    simp only []
    cases hdec : decodeHeader ((view cfg m region).bytesAt off hdrSize) hdrSize with
    | none => exact wp_ret.mpr (hstop ctx.verifyScratch)
    | some hdr =>
      simp only [wp_ite, wp_ret, wp_bind]
      refine ⟨fun _ => hstop ctx.verifyScratch, fun hroom => ?_⟩
      refine wp_anyRead ?_ (wp_ret.mpr (hstop ctx.verifyScratch)) hcut
      rw [bytesAt_region_add]
      simp only [wp_bind, wp_modify, wp_read, wp_ite, wp_ret]
      rw [verifyBody_overlay (Memory.length_bytesAt _ _ _)]
      refine ⟨fun hver => ?_, fun _ => hstop _⟩
      have haccept : acceptAt cfg (view cfg m region) off = some hdr :=
        acceptAt_eq_some.mpr ⟨hdec, Nat.le_of_not_lt hroom, hver⟩
      have hnext : off + round4 (hdrSize + hdr.bodyBytes + 4) = off + hdr.totalSize := by
        rw [hdr.totalSize_eq]
        rfl
      rw [hnext]
      have hrest : ∀ recs e, Log cfg (view cfg m region) (off + hdr.totalSize) recs e → ∀ vs,
          P.ok (e, recs.foldl (fun s x => if s < x.2.seq then x.2.seq else s)
            (if seq < hdr.seq then hdr.seq else seq)) _ m :=
        fun recs e log vs => hok ((off, hdr) :: recs) e (.cons haccept log) vs
      exact ih hrest (hrest [] _ (.nil _))

end Programs

/-! ## Records on any bytes -/

namespace Log

variable {v : Memory} {off e : Nat} {recs : List (Nat × RecordHdr)}

/-- The offsets of the turns, and where the loop stops. -/
theorem increasing (log : Log cfg v off recs e) :
    (recs.map (·.1) ++ [e]).Pairwise (· < ·) := by
  induction log with
  | nil off => exact List.pairwise_singleton _ _
  | cons accepted rest ih =>
    rename_i off e h recs
    have hsize := h.updateSize_le
    have hpos : 0 < h.totalSize := Nat.lt_of_lt_of_le (by decide) hsize
    refine List.pairwise_cons.mpr ⟨fun o ho => ?_, ih⟩
    rcases List.mem_append.mp ho with ho | ho
    · obtain ⟨⟨o', h'⟩, hm, rfl⟩ := List.mem_map.mp ho
      exact Nat.lt_of_lt_of_le (Nat.lt_add_of_pos_right hpos) (rest.mem hm).2.1
    · rw [List.mem_singleton.mp ho]
      exact Nat.lt_of_lt_of_le (Nat.lt_add_of_pos_right hpos) rest.le

theorem aligned (log : Log cfg v off recs e) (hoff : off % 4 = 0) :
    ∀ o ∈ recs.map (·.1) ++ [e], o % 4 = 0 := by
  induction log with
  | nil off =>
    intro o ho
    rw [List.mem_singleton.mp ho]
    exact hoff
  | cons accepted rest ih =>
    rename_i off e h recs
    have hsize := h.totalSize_mod
    intro o ho
    rcases List.mem_cons.mp ho with rfl | ho
    · exact hoff
    · exact ih (by omega) o ho

end Log

/-- What one record can add to an index. -/
theorem Replay.mem_apply {r : Replay} {off : Nat} {h : RecordHdr} {e : FlashqIndexEntry}
    (he : e ∈ (r.apply cfg off h).index) :
    e ∈ r.index ∨ (h.type = RecordType.message.code ∧ e = h.indexEntry off) ∨
      (h.type = RecordType.update.code ∧ isFinal e.state = false) := by
  by_cases hm : h.type = RecordType.message.code
  · by_cases hroom : r.index.length < cfg.indexCapacity
    · rw [Replay.apply_message hm hroom] at he
      exact (List.mem_append.mp he).imp_right fun he => .inl ⟨hm, List.mem_singleton.mp he⟩
    · rw [Replay.apply, if_pos hm, if_pos (Nat.le_of_not_lt hroom)] at he
      exact .inl he
  · by_cases hu : h.type = RecordType.update.code
    · cases hpos : findEntry r.index h.messageId with
      | none =>
        rw [Replay.apply, if_neg hm, if_pos hu, hpos] at he
        exact .inl he
      | some pos =>
        cases hs : isFinal h.state with
        | true =>
          rw [Replay.apply_final hu hpos hs] at he
          exact .inl (mem_of_mem_swapRemove he)
        | false =>
          rw [Replay.apply_update hu hpos hs] at he
          refine (mem_of_mem_modify he).imp_right fun hnew => .inr ⟨hu, ?_⟩
          obtain ⟨b, _, rfl⟩ := hnew
          exact hs
    · rw [Replay.apply, if_neg hm, if_neg hu] at he
      exact .inl he

/-- An entry in a final state was made in it, by the header of its MESSAGE record. -/
theorem replay_final {recs : List (Nat × RecordHdr)} {e : FlashqIndexEntry}
    (he : e ∈ (replay cfg recs).index) (hfinal : isFinal e.state = true) :
    ∃ off h, (off, h) ∈ recs ∧ h.type = RecordType.message.code ∧ e = h.indexEntry off := by
  induction recs using List.reverseRecOn with
  | nil => exact absurd he List.not_mem_nil
  | append_singleton recs x ih =>
    obtain ⟨off, h⟩ := x
    rw [replay_snoc] at he
    rcases Replay.mem_apply he with hold | ⟨ht, rfl⟩ | ⟨_, hno⟩
    · obtain ⟨o, h', hm, hmade⟩ := ih hold
      exact ⟨o, h', List.mem_append_left _ hm, hmade⟩
    · exact ⟨off, h, List.mem_append_right _ (List.mem_singleton_self _), ht, rfl⟩
    · rw [hno] at hfinal
      cases hfinal

/-- The record of an entry is inside the log. -/
theorem Log.entry_inside {v : Memory} {recs : List (Nat × RecordHdr)} {stop : Nat}
    (log : Log cfg v dataStart recs stop) (hstop : stop ≤ cfg.regionSize) {e : FlashqIndexEntry}
    (he : e ∈ (replay cfg recs).index) :
    dataStart ≤ e.messageOffset.toNat ∧ e.messageOffset.toNat + e.recordSize ≤ stop := by
  obtain ⟨off, h, hm, hfor⟩ := replay_mem he
  obtain ⟨_, hlo, hhi⟩ := log.mem hm
  have hid := hfor.2.2
  simp only [EntryMeta.identity, Prod.mk.injEq] at hid
  have hsize : e.recordSize = h.totalSize := by
    rw [EntryMeta.recordSize, RecordHdr.totalSize, hid.2.2.1, hid.2.2.2.1]
  rw [hfor.1, cfg.toNat_offset (by omega), hsize]
  exact ⟨hlo, hhi⟩

/-! ## Safety -/

variable (cfg) in
/-- The scan met the records `recs` and left the context: its offsets, the index after every
turn, and the entries at the end. -/
structure Scanned (v : Memory) (recs : List (Nat × RecordHdr)) (ctx : FlashqCtx) : Prop where
  log : Log cfg v dataStart recs ctx.cursor
  index : ctx.index = (replay cfg recs).index
  increasing : (recs.map (·.1) ++ [ctx.cursor]).Pairwise (· < ·)
  aligned : ∀ off ∈ recs.map (·.1) ++ [ctx.cursor], off % 4 = 0
  capacity : ∀ before, before <+: recs → (replay cfg before).index.length ≤ cfg.indexCapacity
  inside : ∀ e ∈ ctx.index, dataStart ≤ e.messageOffset.toNat ∧
    e.messageOffset.toNat + e.recordSize ≤ cfg.regionSize
  removed : ∀ before off h, before ++ [(off, h)] <+: recs → h.type = RecordType.update.code →
    ∀ e ∈ (replay cfg (before ++ [(off, h)])).index, isFinal e.state = true →
      e ∈ (replay cfg before).index
  made : ∀ e ∈ ctx.index, isFinal e.state = true →
    ∃ off h, (off, h) ∈ recs ∧ h.type = RecordType.message.code ∧ e = h.indexEntry off
  cursor : dataStart ≤ ctx.cursor ∧ ctx.cursor ≤ cfg.regionSize

theorem Scanned.of_log {v : Memory} {recs : List (Nat × RecordHdr)} {ctx : FlashqCtx}
    (log : Log cfg v dataStart recs ctx.cursor) (hindex : ctx.index = (replay cfg recs).index) :
    Scanned cfg v recs ctx := by
  have hstart : dataStart ≤ cfg.regionSize := by
    have := cfg.dataCapacity_eq
    omega
  have hstop := log.le_regionSize rfl hstart
  refine ⟨log, hindex, log.increasing, log.aligned rfl, fun before _ => length_replay_le before,
    fun e he => ?_, fun before off h _ ht e he hfinal => ?_, fun e he hfinal => ?_,
    log.le, hstop⟩
  · obtain ⟨hlo, hhi⟩ := log.entry_inside hstop (hindex ▸ he)
    exact ⟨hlo, hhi.trans hstop⟩
  · rw [replay_snoc] at he
    rcases Replay.mem_apply he with hold | ⟨hm, _⟩ | ⟨_, hno⟩
    · exact hold
    · rw [ht] at hm
      exact absurd hm (by decide)
    · rw [hno] at hfinal
      cases hfinal
  · exact replay_final (hindex ▸ he) hfinal

/-- The scan is safe on any bytes: more turns change nothing, every call is a read inside the
region, the partition stays as it is, and what the scan leaves is in range. -/
theorem scan_safe (cfg : FlashqConfig) (region : Fin 2) (generation : UInt32) (ctx : FlashqCtx)
    (m : Memory) (env : Env FlashCall Memory FlashEvent) :
    (∀ extra, scanLoop cfg region (cfg.regionSize + extra) dataStart 0 =
      scanLoop cfg region cfg.regionSize dataStart 0) ∧
    (∀ ctx' c, Requests cfg.device env (scanLog cfg region generation) ctx m ctx' c →
      InRegion cfg region c) ∧
    ∀ o, Runs cfg.device env (scanLog cfg region generation) ctx m o →
      o.Meets ⟨fun _ ctx' m' => m' = m ∧ ∃ recs, Scanned cfg (view cfg m region) recs ctx',
        fun _ _ _ => False, fun m' => m' = m⟩ := by
  refine ⟨fun extra => scanLoop_fuel region extra 0 ?_, fun _ c h => (only_scanLog _ _).requests h,
    fun o run => wp_sound run ?_⟩
  · have : 0 < dataStart := by decide
    omega
  · unfold scanLog
    simp only [Prog.bind_eq, wp_bind, wp_modify]
    exact wp_anyScanLoop _ (fun recs e log vs => ⟨rfl, recs, .of_log log rfl⟩) rfl

end EdgeSync
