/-
  Selected.lean --- which message the backends select.

  Both selection loops end with an entry that is best in the order of the interface, the
  first of them in the index, and report `EDGESYNC_ERR_NOT_FOUND` where no entry is
  eligible.  The flash queue reports it nowhere else; the NVS backend also reports it when
  it cannot ask for the size of the selected record.
-/
import EdgeSync.Backends
import EdgeSync.Nvs.Faults

set_option autoImplicit false

namespace EdgeSync

open Foundation

/-! ## The best entries -/

/-- Waiting, and due at `nowUs`. -/
def EntryMeta.Ready (nowUs : Int64) (e : EntryMeta) : Prop :=
  e.state = FlashqState.pending.code ∧ e.nextRetryAtUs ≤ nowUs

/-- A ready entry of the highest priority, of the earliest due time among these, and the
oldest among those. -/
structure BestClaim (nowUs : Int64) (q : List EntryMeta) (x : EntryMeta) : Prop where
  mem : x ∈ q
  ready : x.Ready nowUs
  best : ∀ y ∈ q, y.Ready nowUs → y.priority < x.priority ∨ y.priority = x.priority ∧
    (x.nextRetryAtUs < y.nextRetryAtUs ∨
      x.nextRetryAtUs = y.nextRetryAtUs ∧ x.createdAtUs ≤ y.createdAtUs)

/-- The oldest waiting entry, among those of the lowest priority where the policy says so. -/
structure BestDrop (policy : OverflowPolicy) (q : List EntryMeta) (x : EntryMeta) : Prop where
  mem : x ∈ q
  pending : x.state = FlashqState.pending.code
  oldest : policy ≠ .dropLowestPriority → ∀ y ∈ q, y.state = FlashqState.pending.code →
    x.createdAtUs ≤ y.createdAtUs
  lowest : policy = .dropLowestPriority → ∀ y ∈ q, y.state = FlashqState.pending.code →
    x.priority < y.priority ∨ x.priority = y.priority ∧ x.createdAtUs ≤ y.createdAtUs

/-- The first of the best entries is at this position. -/
def FirstBest (nowUs : Int64) (q : List EntryMeta) (pos : Nat) : Prop :=
  ∃ x, q[pos]? = some x ∧ BestClaim nowUs q x ∧
    ∀ i < pos, ∀ y, q[i]? = some y → ¬ BestClaim nowUs q y

section Order

variable {nowUs : Int64} {policy : OverflowPolicy} {q q' : List EntryMeta} {a b c x y : EntryMeta}
  {pos : Nat}

namespace EntryMeta

theorem eligible_iff : x.eligible nowUs = true ↔ x.Ready nowUs := by
  rw [eligible, Ready, Bool.and_eq_true, beq_iff_eq, Bool.not_eq_true', decide_eq_false_iff_not,
    Int64.lt_iff_toInt_lt, Int64.le_iff_toInt_le, Int.not_lt]

theorem not_claimedBefore_iff : claimedBefore y x = false ↔
    y.priority < x.priority ∨ y.priority = x.priority ∧
      (x.nextRetryAtUs < y.nextRetryAtUs ∨
        x.nextRetryAtUs = y.nextRetryAtUs ∧ x.createdAtUs ≤ y.createdAtUs) := by
  rw [← Bool.not_eq_true, claimedBefore_iff, UInt8.lt_iff_toNat_lt, ← UInt8.toNat_inj,
    Int64.lt_iff_toInt_lt, ← Int64.toInt_inj, Int64.le_iff_toInt_le]
  omega

theorem claimedBefore_weak (a b c : EntryMeta) (h : claimedBefore a c = true)
    (h' : claimedBefore b c = false) : claimedBefore a b = true := by
  rw [← Bool.not_eq_true] at h'
  rw [claimedBefore_iff] at *
  omega

end EntryMeta

theorem selectClaim_none : selectClaim nowUs q = none ↔ ¬ ∃ x ∈ q, x.Ready nowUs := by
  constructor
  · rintro h ⟨x, hx, hready⟩
    have := pick_none h x hx
    rw [EntryMeta.eligible_iff.mpr hready] at this
    cases this
  · intro h
    cases hsel : selectClaim nowUs q with
    | none => rfl
    | some pos =>
      obtain ⟨x, hx, helig⟩ := pick_some hsel
      exact absurd ⟨x, List.mem_of_getElem? hx, EntryMeta.eligible_iff.mp helig⟩ h

/-- The claim loop ends with a best entry. -/
theorem selectClaim_best (h : selectClaim nowUs q = some pos) :
    ∃ x, q[pos]? = some x ∧ BestClaim nowUs q x := by
  obtain ⟨x, hx, helig, hbest⟩ := pick_best EntryMeta.claimedBefore_trans
    EntryMeta.claimedBefore_irrefl h
  refine ⟨x, hx, List.mem_of_getElem? hx, EntryMeta.eligible_iff.mp helig, fun y hy hready => ?_⟩
  exact EntryMeta.not_claimedBefore_iff.mp (hbest y hy (EntryMeta.eligible_iff.mpr hready))

/-- The claim loop ends with the first of the best entries. -/
theorem selectClaim_iff : selectClaim nowUs q = some pos ↔ FirstBest nowUs q pos := by
  have hfirst : ∀ {pos}, selectClaim nowUs q = some pos → FirstBest nowUs q pos := by
    intro pos h
    obtain ⟨x, hx, hbest⟩ := selectClaim_best h
    refine ⟨x, hx, hbest, fun i hi y hy hbest' => ?_⟩
    have hbetter := pick_first EntryMeta.claimedBefore_trans EntryMeta.claimedBefore_weak h hx hy hi
      (EntryMeta.eligible_iff.mpr hbest'.ready)
    rw [EntryMeta.not_claimedBefore_iff.mpr (hbest'.best x hbest.mem hbest.ready)] at hbetter
    cases hbetter
  refine ⟨hfirst, fun ⟨x, hx, hbest, hnone⟩ => ?_⟩
  cases hsel : selectClaim nowUs q with
  | none => exact absurd ⟨x, hbest.mem, hbest.ready⟩ (selectClaim_none.mp hsel)
  | some pos' =>
    obtain ⟨x', hx', hbest', hnone'⟩ := hfirst hsel
    rcases Nat.lt_trichotomy pos' pos with hlt | rfl | hlt
    · exact absurd hbest' (hnone pos' hlt x' hx')
    · rfl
    · exact absurd hbest (hnone' pos hlt x hx)

theorem selectDrop_none :
    selectDrop policy q = none ↔ ¬ ∃ x ∈ q, x.state = FlashqState.pending.code := by
  constructor
  · rintro h ⟨x, hx, hpending⟩
    have := pick_none h x hx
    rw [hpending] at this
    cases this
  · intro h
    cases hsel : selectDrop policy q with
    | none => rfl
    | some pos =>
      obtain ⟨x, hx, hpending⟩ := pick_some hsel
      exact absurd ⟨x, List.mem_of_getElem? hx, eq_of_beq hpending⟩ h

/-- The drop loop ends with a best entry. -/
theorem selectDrop_best (h : selectDrop policy q = some pos) :
    ∃ x, q[pos]? = some x ∧ BestDrop policy q x := by
  obtain ⟨x, hx, hpending, hbest⟩ := pick_best (EntryMeta.droppedBefore_trans policy)
    (EntryMeta.droppedBefore_irrefl policy) h
  have hnot : ∀ y ∈ q, y.state = FlashqState.pending.code →
      ¬ EntryMeta.droppedBefore policy y x = true := by
    intro y hy hp
    rw [hbest y hy (by rw [hp]; rfl)]
    exact Bool.false_ne_true
  refine ⟨x, hx, List.mem_of_getElem? hx, eq_of_beq hpending, fun hpol y hy hp => ?_,
    fun hpol y hy hp => ?_⟩
  · have := hnot y hy hp
    rw [EntryMeta.droppedBefore_iff] at this
    rw [Int64.le_iff_toInt_le]
    exact Int.not_lt.mp fun hlt => this (.inr ⟨hpol, hlt⟩)
  · have := hnot y hy hp
    rw [EntryMeta.droppedBefore_iff] at this
    rw [UInt8.lt_iff_toNat_lt, ← UInt8.toNat_inj, Int64.le_iff_toInt_le]
    by_contra hcon
    exact this (.inl ⟨hpol, by omega⟩)

/-- Where no two entries have the same keys, there is one best entry, in whatever order
the entries are. -/
theorem BestClaim.unique (h : BestClaim nowUs q x) (h' : BestClaim nowUs q' y) (hperm : q.Perm q')
    (hkeys : (q.map fun e => (e.priority, e.nextRetryAtUs, e.createdAtUs)).Nodup) : x = y := by
  have hy := hperm.mem_iff.mpr h'.mem
  refine List.inj_on_of_nodup_map hkeys h.mem hy ?_
  have h1 := h.best y hy h'.ready
  have h2 := h'.best x (hperm.mem_iff.mp h.mem) h.ready
  simp only [UInt8.lt_iff_toNat_lt, ← UInt8.toNat_inj, Int64.lt_iff_toInt_lt, ← Int64.toInt_inj,
    Int64.le_iff_toInt_le, Prod.mk.injEq] at h1 h2 ⊢
  omega

/-- The same for the message to drop. -/
theorem BestDrop.unique (h : BestDrop policy q x) (h' : BestDrop policy q' y) (hperm : q.Perm q')
    (holdest : policy ≠ .dropLowestPriority → (q.map (·.createdAtUs)).Nodup)
    (hlowest : policy = .dropLowestPriority →
      (q.map fun e => (e.priority, e.createdAtUs)).Nodup) : x = y := by
  have hx := hperm.mem_iff.mp h.mem
  have hy := hperm.mem_iff.mpr h'.mem
  by_cases hpol : policy = .dropLowestPriority
  · refine List.inj_on_of_nodup_map (hlowest hpol) h.mem hy ?_
    have h1 := h.lowest hpol y hy h'.pending
    have h2 := h'.lowest hpol x hx h.pending
    simp only [UInt8.lt_iff_toNat_lt, ← UInt8.toNat_inj, ← Int64.toInt_inj, Int64.le_iff_toInt_le,
      Prod.mk.injEq] at h1 h2 ⊢
    omega
  · refine List.inj_on_of_nodup_map (holdest hpol) h.mem hy ?_
    have h1 := h.oldest hpol y hy h'.pending
    have h2 := h'.oldest hpol x hx h.pending
    simp only [← Int64.toInt_inj, Int64.le_iff_toInt_le] at h1 h2 ⊢
    omega

end Order

/-! ## Errors of the flash queue -/

section Flashq

variable (cfg : FlashqConfig)

/-- Any error but `EDGESYNC_ERR_NOT_FOUND`. -/
def OtherError (err : EspErr) : Prop := err ≠ .notFound

instance : DecidablePred OtherError := fun err => inferInstanceAs (Decidable (err ≠ .notFound))

/-- The run does not end in `EDGESYNC_ERR_NOT_FOUND`. -/
def Post.found {σ δ α : Type} : Post σ δ EspErr α :=
  ⟨fun _ _ _ => True, fun err _ _ => OtherError err, fun _ => True⟩

theorem raises_partitionWriteVerify (absOffset : Nat) (data : Bytes) :
    Raises OtherError (partitionWriteVerify absOffset data) := by
  refine Raises.bind (Raises.ask _) fun ok => Raises.ite ?_ (Raises.fail (by decide))
  refine Raises.bind (Raises.ask _) fun raw => ?_
  cases raw with
  | none => exact Raises.fail (by decide)
  | some raw =>
    refine Raises.bind (Raises.modify _) fun _ => Raises.bind Raises.read fun ctx => ?_
    exact Raises.ite (Raises.ret _) (Raises.fail (by decide))

theorem raises_ensureRegionErased (r : Fin 2) :
    Raises OtherError (ensureRegionErased cfg r) := by
  have herase : Raises OtherError (eraseRegion cfg r) :=
    Raises.bind (Raises.ask _) fun _ => Raises.ite (Raises.ret _) (Raises.fail (by decide))
  refine Raises.bind (Raises.attempt _) fun res => ?_
  rcases res with err | ⟨hdr, blank⟩
  · exact herase
  · exact Raises.ite (Raises.ret _) herase

theorem raises_encodeToWriteScratch (encode : Bytes → Option (Bytes × Nat)) :
    Raises OtherError (encodeToWriteScratch encode) := by
  refine Raises.bind Raises.read fun _ => ?_
  split
  · exact Raises.bind (Raises.modify _) fun _ => Raises.ret _
  · exact Raises.ret _

theorem raises_copyEntry (source target : Fin 2) (newCursor : Nat) (seq : UInt32) (i : Nat)
    (e : FlashqIndexEntry) :
    Raises OtherError (copyEntry cfg source target newCursor seq i e) := by
  refine Raises.bind (Raises.ask _) fun raw => ?_
  cases raw with
  | none => exact Raises.fail (by decide)
  | some raw =>
    refine Raises.bind (Raises.modify _) fun _ => Raises.bind Raises.read fun ctx => ?_
    simp only []
    split
    · exact Raises.fail (by decide)
    · exact Raises.bind (Raises.modify _) fun _ =>
        Raises.bind (raises_partitionWriteVerify _ _) fun _ =>
        Raises.bind (Raises.modify _) fun _ => Raises.ret _

theorem raises_copyLoop (source target : Fin 2) (entries : List FlashqIndexEntry)
    (i newCursor : Nat) (seq : UInt32) :
    Raises OtherError (copyLoop cfg source target entries i newCursor seq) := by
  induction entries generalizing i newCursor seq with
  | nil => exact Raises.ret _
  | cons e entries ih =>
    exact Raises.bind (raises_copyEntry cfg source target newCursor seq i e) fun _ => ih _ _ _

theorem raises_compactLocked : Raises OtherError (compactLocked cfg) :=
  Raises.bind Raises.read fun _ =>
    Raises.bind (raises_ensureRegionErased cfg _) fun _ =>
    Raises.bind (raises_partitionWriteVerify _ _) fun _ =>
    Raises.bind (raises_copyLoop cfg _ _ _ _ _ _) fun _ =>
    Raises.bind (raises_encodeToWriteScratch _) fun _ =>
    Raises.bind Raises.read fun _ =>
    Raises.bind (raises_partitionWriteVerify _ _) fun _ =>
    Raises.bind (Raises.bind (raises_partitionWriteVerify _ _) fun _ =>
      Raises.bind (Raises.attempt _) fun _ => Raises.bind (Raises.attempt _) fun _ =>
      Raises.ret _) fun _ => Raises.modify _

theorem raises_ensureSpaceLocked (neededLen : Nat) :
    Raises OtherError (ensureSpaceLocked cfg neededLen) := by
  unfold ensureSpaceLocked
  simp only [Prog.bind_eq, Prog.pure_eq]
  refine Raises.bind Raises.read fun ctx => ?_
  have hlast : Raises OtherError ((Prog.read : FlashqM FlashqCtx).bind fun ctx =>
      if ctx.freeBytes cfg < neededLen then (Prog.fail EspErr.storage : FlashqM Unit)
      else Prog.ret ()) :=
    Raises.bind Raises.read fun _ => Raises.ite (Raises.fail (by decide)) (Raises.ret _)
  exact Raises.ite (Raises.bind (raises_compactLocked cfg) fun _ => hlast) hlast

theorem raises_appendLocked (buf : Bytes) (len : Nat) :
    Raises OtherError (appendLocked cfg buf len) :=
  Raises.bind Raises.read fun _ => Raises.bind (raises_partitionWriteVerify _ _) fun _ =>
    Raises.modify _

variable {cfg} {ctx : FlashqCtx} {pos : Nat} {x : EntryMeta}

/-- Where the index has an entry at the position, making room leaves one there. -/
theorem leaves_ensureSpace_entry {α : Type} {neededLen : Nat} {f : FlashqIndexEntry → FlashqM α}
    (hx : ctx.metas[pos]? = some x)
    (hf : ∀ e c, c.index[pos]? = some e →
      leaves (f e) (fun _ _ => True) (fun err _ => OtherError err) c) :
    leaves ((ensureSpaceLocked cfg neededLen).bind fun _ => (entryAt pos).bind f)
      (fun _ _ => True) (fun err _ => OtherError err) ctx := by
  refine leaves_seq (leaves_and (keeps_ensureSpaceLocked cfg neededLen ctx)
    (raises_ensureSpaceLocked cfg neededLen ctx)) (fun _ c hc => ?_) fun _ _ h => h.2
  obtain ⟨e, he, _⟩ := FlashqCtx.getElem?_metas (hc.1 ▸ hx)
  exact leaves_bind.mpr (leaves_entryAt he (hf e c he))

theorem leaves_appendStateUpdate_entry {newState : FlashqState} (hx : ctx.metas[pos]? = some x) :
    leaves (appendStateUpdateLocked cfg pos newState) (fun _ _ => True)
      (fun err _ => OtherError err) ctx := by
  refine leaves_ensureSpace_entry hx fun e c _ => ?_
  exact Raises.bind Raises.read (fun _ => Raises.bind (raises_encodeToWriteScratch _) fun _ =>
    Raises.bind Raises.read fun _ => Raises.bind (raises_appendLocked cfg _ _) fun _ =>
    Raises.bind (Raises.modify _) fun _ => Raises.modify _) c

/-- A claim of the flash queue that selected an entry does not report
`EDGESYNC_ERR_NOT_FOUND`. -/
theorem flashq_claim_found {nowUs : Int64} (hsel : selectClaim nowUs ctx.metas = some pos) :
    leaves (opClaimNext cfg nowUs) (fun _ _ => True) (fun err _ => OtherError err) ctx := by
  obtain ⟨x, hx, _⟩ := pick_some hsel
  obtain ⟨e, he, rfl⟩ := FlashqCtx.getElem?_metas hx
  have hsel' : selectClaim nowUs (ctx.index.map (·.toEntryMeta)) = some pos := hsel
  unfold opClaimNext
  simp only [Prog.bind_eq, leaves_bind, leaves_read, hsel']
  refine leaves_entryAt he (leaves_ask.mpr fun raw => ?_)
  simp only [leaves_modify, leaves_ite]
  refine ⟨fun _ => ?_, fun _ => ?_⟩
  · simp only [leaves_bind]
    refine leaves_modify.mpr ?_
    have hmarked : (FlashqCtx.metas { ctx with
        index := ctx.index.modify pos fun e => { e with lastError := EspErr.storageCorrupt.code }
        claimScratch := overlay ctx.claimScratch 0 (raw.getD []) })[pos]? =
        some (e.toEntryMeta.change Progress.marked) := by
      rw [FlashqCtx.metas, @metas_modify _ pos Progress.marked _ fun _ => rfl, List.getElem?_modify]
      have hx' : (ctx.index.map (·.toEntryMeta))[pos]? = some e.toEntryMeta := hx
      simp only [if_true, hx']
      rfl
    exact leaves_mono (leaves_appendStateUpdate_entry hmarked) (fun _ _ _ => leaves_ret.mpr trivial)
      fun _ _ h => h
  · unfold claimIntact
    have hx' : ({ ctx with claimScratch := overlay ctx.claimScratch 0 (raw.getD []) } :
        FlashqCtx).metas[pos]? = some e.toEntryMeta := hx
    refine leaves_bind.mpr (leaves_entryAt he (leaves_ensureSpace_entry hx' fun e c _ => ?_))
    exact Raises.bind Raises.read (fun _ => Raises.bind (raises_encodeToWriteScratch _) fun _ =>
      Raises.bind Raises.read fun _ => Raises.bind (raises_appendLocked cfg _ _) fun _ =>
      Raises.bind (Raises.modify _) fun _ => Raises.bind (Raises.modify _) fun _ =>
      Raises.bind Raises.read fun _ => Raises.ret _) c

end Flashq

/-! ## Errors of the NVS backend -/

section Nvs

variable {cfg : NvsConfig} {usage : BlobStore → UInt32 × UInt32}
  {env : Env BlobCall BlobStore BlobEvent} {ctx : NvsCtx} {s : BlobStore}

/-- The size of the record that the claim loop selects can be asked for: its blob is there,
and `nvs_get_blob` does not fail. -/
def SizeAnswered (env : Env BlobCall BlobStore BlobEvent) (ctx : NvsCtx) (s : BlobStore)
    (nowUs : Int64) : Prop :=
  ∀ pos e, ctx.index[pos]? = some e → FirstBest nowUs ctx.metas pos →
    ∀ ev, env s (.size (slotKey e.slot)) ev →
      ev ≠ .fail ∧ (ev = .run → (s (slotKey e.slot)).isSome)

theorem raises_writeEntry (e : NvsIndexEntry) (destination : Bytes) (payload : Body) :
    Raises OtherError (writeEntry cfg e destination payload) := by
  refine Raises.bind Raises.read fun ctx => ?_
  split
  · exact Raises.fail (by decide)
  · refine Raises.bind (Raises.modify _) fun _ => Raises.bind (Raises.ask _) fun _ => ?_
    refine Raises.ite (Raises.bind (Raises.ask _) fun _ => ?_) (Raises.fail (by decide))
    exact Raises.ite (Raises.ret _) (Raises.fail (by decide))

theorem raises_nvsClaimIntact {pos : Nat} {e : NvsIndexEntry} {nowUs : Int64} {hdr : RecordHdr}
    (he : ctx.index[pos]? = some e) :
    leaves (nvsClaimIntact cfg nowUs pos hdr) (fun _ _ => True) (fun err _ => OtherError err) ctx := by
  unfold nvsClaimIntact nvsAssignEntry
  simp only [Prog.bind_eq, Prog.pure_eq, leaves_bind, leaves_modify]
  generalize hc1 : NvsCtx.mk _ _ _ _ = c1
  have he1 : ∃ e1, c1.index[pos]? = some e1 := by
    rw [← hc1]
    simp only [List.getElem?_modify, if_true, he]
    exact ⟨_, rfl⟩
  obtain ⟨e1, he1⟩ := he1
  refine leaves_nvsEntryAt he1 (leaves_read.mpr ?_)
  exact leaves_mono (raises_writeEntry e1 _ _ c1)
    (fun _ _ _ => leaves_read.mpr (leaves_ret.mpr trivial)) fun _ _ h => h

/-- Reading a record reports `EDGESYNC_ERR_NOT_FOUND` exactly when it learns no size. -/
theorem wp_readAndVerify_found {slot : UInt32} :
    wp (blobDevice usage) env (readAndVerify cfg slot) Post.found ctx s ↔
    ∀ ev, env s (.size (slotKey slot)) ev →
      ev ≠ .fail ∧ (ev = .run → (s (slotKey slot)).isSome) := by
  unfold readAndVerify nvsGetBlobSize
  simp only [Prog.bind_eq]
  have hnot : ¬ wp (blobDevice usage) env (.fail .notFound : NvsM RecordHdr) Post.found ctx s :=
    fun h => absurd rfl (show OtherError .notFound from wp_fail.mp h)
  constructor
  · intro h ev hev
    have hcall := wp_call.mp h ev hev
    cases ev with
    | run =>
      refine ⟨by decide, fun _ => ?_⟩
      cases hs : s (slotKey slot) with
      | some blob => rfl
      | none =>
        simp only [blobDevice, hs, Option.map_none] at hcall
        exact absurd hcall hnot
    | fail => exact absurd hcall hnot
    | cut done => exact ⟨by simp, by simp⟩
  · intro h
    refine wp_call.mpr fun ev hev => ?_
    obtain ⟨hfail, hsome⟩ := h ev hev
    cases ev with
    | run =>
      obtain ⟨blob, hs⟩ := Option.isSome_iff_exists.mp (hsome rfl)
      simp only [blobDevice, hs, Option.map_some]
      refine leaves_wp (Raises.ite (Raises.fail (by decide))
        (Raises.bind (Raises.ask _) fun blob => ?_) ctx)
      cases blob with
      | none => exact Raises.fail (by decide)
      | some blob =>
        refine Raises.bind (Raises.modify _) fun _ => Raises.bind Raises.read fun ctx => ?_
        split
        · exact Raises.fail (by decide)
        · exact Raises.ite (Raises.ret _) (Raises.fail (by decide))
    | fail => exact absurd rfl hfail
    | cut done => trivial

/-- A claim of the NVS backend that selected an entry reports `EDGESYNC_ERR_NOT_FOUND`
exactly when it learns no size. -/
theorem nvs_claim_found {nowUs : Int64} {pos : Nat} {e : NvsIndexEntry}
    (hsel : selectClaim nowUs ctx.metas = some pos) (he : ctx.index[pos]? = some e) :
    wp (blobDevice usage) env (nvsOpClaimNext cfg nowUs) Post.found ctx s ↔
    ∀ ev, env s (.size (slotKey e.slot)) ev →
      ev ≠ .fail ∧ (ev = .run → (s (slotKey e.slot)).isSome) := by
  rw [← @wp_readAndVerify_found cfg usage env ctx s e.slot]
  have hsel' : selectClaim nowUs (ctx.index.map (·.toEntryMeta)) = some pos := hsel
  unfold nvsOpClaimNext nvsEntryAt
  simp only [Prog.bind_eq, wp_bind, wp_read, hsel', he]
  refine Iff.trans wp_ret ?_
  simp only [wp_attempt]
  constructor
  · refine fun h => wp_mono h (fun _ _ _ _ => trivial) (fun err c s' herr => ?_) fun _ _ => trivial
    cases err with
    | storageCorrupt => exact (by decide : OtherError .storageCorrupt)
    | _ => exact (wp_fail (P := @Post.found NvsCtx BlobStore ClaimReply)).mp herr
  · intro h
    refine wp_mono (wp_and h (leaves_wp (keeps_readAndVerify cfg e.slot ctx)))
      (fun hdr c s' hc => ?_) (fun err c s' hc => ?_) fun _ _ => trivial
    · exact leaves_wp (raises_nvsClaimIntact (by rw [hc.2]; exact he))
    · cases err with
      | storageCorrupt =>
        exact leaves_wp (Raises.bind (Raises.modify _) (fun _ => Raises.bind
          (Raises.bind (Raises.ask _) fun _ => Raises.bind (Raises.ask _) fun _ => Raises.ret _)
          fun _ => Raises.ret _) c)
      | _ => exact wp_fail.mpr hc.1

end Nvs

/-! ## The selection of a backend -/

/-- The reply of a claim is about the entry. -/
def ClaimReply.Takes (nowUs : Int64) (x : EntryMeta) : ClaimReply → Prop
  | .claimed message => message.Shows x nowUs
  | .corrupt id => id = x.id

/-- How a claim ends: with a best entry, or without one where none is ready. -/
def ClaimSelects (nowUs : Int64) (q : List EntryMeta) : Except EspErr StorageReply → Prop
  | .ok reply => ∃ claim x, reply = .claim claim ∧ BestClaim nowUs q x ∧ claim.Takes nowUs x
  | .error err => err = .notFound ↔ ¬ ∃ x ∈ q, x.Ready nowUs

/-- How the search for a message to drop ends. -/
def DropSelects (policy : OverflowPolicy) (q : List EntryMeta) : Except EspErr StorageReply → Prop
  | .ok reply => ∃ x, reply = .candidate x.id ∧ BestDrop policy q x
  | .error err => err = .notFound ∧ ¬ ∃ x ∈ q, x.state = FlashqState.pending.code

/-- What callers rely on: a claim and a search for a message to drop select the best, no
other entry changes, and where the keys are pairwise distinct the choice is the same for
every order of the index. -/
structure SelectsBest (B : StorageBackend) (env : Env B.Call B.Dev B.Event) (ctx : B.Ctx)
    (dev : B.Dev) (nowUs : Int64) (policy : OverflowPolicy) : Prop where
  claim : ∀ res ctx' dev',
    Runs B.device env (B.ops.call (.claimNext nowUs)) ctx dev (.returned res ctx' dev') →
    ClaimSelects nowUs (B.metas ctx) res
  changed : ∀ res ctx' dev',
    Runs B.device env (B.ops.call (.claimNext nowUs)) ctx dev (.returned res ctx' dev') →
    ∀ i : Nat, (B.metas ctx')[i]? ≠ (B.metas ctx)[i]? →
      ∃ x, (B.metas ctx)[i]? = some x ∧ BestClaim nowUs (B.metas ctx) x
  drop : ∀ res ctx' dev',
    Runs B.device env (B.ops.call (.findDropCandidate policy)) ctx dev (.returned res ctx' dev') →
    DropSelects policy (B.metas ctx) res
  claimOrder : ((B.metas ctx).map fun e => (e.priority, e.nextRetryAtUs, e.createdAtUs)).Nodup →
    ∀ env₂ ctx₂ dev₂ r₁ c₁ d₁ r₂ c₂ d₂, (B.metas ctx).Perm (B.metas ctx₂) →
    Runs B.device env (B.ops.call (.claimNext nowUs)) ctx dev (.ok (.claim r₁) c₁ d₁) →
    Runs B.device env₂ (B.ops.call (.claimNext nowUs)) ctx₂ dev₂ (.ok (.claim r₂) c₂ d₂) →
    ∃ x, r₁.Takes nowUs x ∧ r₂.Takes nowUs x
  dropOrder : (policy ≠ .dropLowestPriority → ((B.metas ctx).map (·.createdAtUs)).Nodup) →
    (policy = .dropLowestPriority →
      ((B.metas ctx).map fun e => (e.priority, e.createdAtUs)).Nodup) →
    ∀ env₂ ctx₂ dev₂ id₁ c₁ d₁ id₂ c₂ d₂, (B.metas ctx).Perm (B.metas ctx₂) →
    Runs B.device env (B.ops.call (.findDropCandidate policy)) ctx dev (.ok (.candidate id₁) c₁ d₁) →
    Runs B.device env₂ (B.ops.call (.findDropCandidate policy)) ctx₂ dev₂
      (.ok (.candidate id₂) c₂ d₂) → id₁ = id₂

section Backend

variable {B : StorageBackend} {env : Env B.Call B.Dev B.Event} {ctx : B.Ctx} {dev : B.Dev}
  {nowUs : Int64} {policy : OverflowPolicy}

/-- A claim that returns took a best entry. -/
theorem CallStep.claim_best {early : Bool} {capacity : Nat} {q q' : List EntryMeta}
    {reply : StorageReply} (step : CallStep early capacity q (.claimNext nowUs) (.ok reply) q') :
    ClaimSelects nowUs q (.ok reply) := by
  cases step with
  | claimed selected entry shows =>
    obtain ⟨x, hx, hbest⟩ := selectClaim_best selected
    obtain rfl := Option.some.inj (hx.symm.trans entry)
    exact ⟨_, x, rfl, hbest, shows⟩
  | corrupt selected entry =>
    obtain ⟨x, hx, hbest⟩ := selectClaim_best selected
    obtain rfl := Option.some.inj (hx.symm.trans entry)
    exact ⟨_, x, rfl, hbest, rfl⟩
  | retired retires => cases retires

/-- A claim changes at most the best entry that it selects. -/
theorem CallStep.claim_changed {early : Bool} {capacity : Nat} {q q' : List EntryMeta}
    {res : Except EspErr StorageReply} (step : CallStep early capacity q (.claimNext nowUs) res q')
    {i : Nat} (h : q'[i]? ≠ q[i]?) : ∃ x, q[i]? = some x ∧ BestClaim nowUs q x := by
  have hmodify : ∀ {pos} {f : EntryMeta → EntryMeta}, selectClaim nowUs q = some pos →
      (q.modify pos f)[i]? ≠ q[i]? → ∃ x, q[i]? = some x ∧ BestClaim nowUs q x := by
    intro pos f hsel hne
    by_cases hi : pos = i
    · rw [← hi]
      exact selectClaim_best hsel
    · rw [List.getElem?_modify_ne _ _ hi] at hne
      exact absurd rfl hne
  cases step with
  | refused => exact absurd rfl h
  | claimed selected entry shows => exact hmodify selected h
  | claimLost isEarly selected => exact hmodify selected h
  | corrupt selected entry => exact hmodify selected h
  | corruptLost selected => exact hmodify selected h
  | retired retires => cases retires

theorem CallStep.drop_best {early : Bool} {capacity : Nat} {q q' : List EntryMeta}
    {reply : StorageReply}
    (step : CallStep early capacity q (.findDropCandidate policy) (.ok reply) q') :
    DropSelects policy q (.ok reply) := by
  cases step with
  | candidate selected entry =>
    obtain ⟨x, hx, hbest⟩ := selectDrop_best selected
    obtain rfl := Option.some.inj (hx.symm.trans entry)
    exact ⟨x, rfl, hbest⟩
  | retired retires => cases retires

/-- What is left to show of a backend: why its errors are reported. -/
theorem SelectsBest.of_errors
    (hclaim : ∀ err ctx' dev',
      Runs B.device env (B.ops.call (.claimNext nowUs)) ctx dev (.error err ctx' dev') →
      (err = .notFound ↔ ¬ ∃ x ∈ B.metas ctx, x.Ready nowUs))
    (hdrop : ∀ err ctx' dev',
      Runs B.device env (B.ops.call (.findDropCandidate policy)) ctx dev (.error err ctx' dev') →
      err = .notFound ∧ ¬ ∃ x ∈ B.metas ctx, x.state = FlashqState.pending.code) :
    SelectsBest B env ctx dev nowUs policy where
  claim res ctx' dev' run := by
    cases res with
    | ok reply => exact (leaves_sound run (B.call_step _ ctx)).claim_best
    | error err => exact hclaim err ctx' dev' run
  changed res ctx' dev' run i hi := by
    cases res with
    | ok reply => exact (leaves_sound run (B.call_step _ ctx)).claim_changed hi
    | error err => exact (leaves_sound run (B.call_step _ ctx)).claim_changed hi
  drop res ctx' dev' run := by
    cases res with
    | ok reply => exact (leaves_sound run (B.call_step _ ctx)).drop_best
    | error err => exact hdrop err ctx' dev' run
  claimOrder hkeys env₂ ctx₂ dev₂ r₁ c₁ d₁ r₂ c₂ d₂ hperm run₁ run₂ := by
    obtain ⟨_, x, hr₁, hbest₁, htakes₁⟩ := (leaves_sound run₁ (B.call_step _ ctx)).claim_best
    obtain ⟨_, y, hr₂, hbest₂, htakes₂⟩ := (leaves_sound run₂ (B.call_step _ ctx₂)).claim_best
    cases hr₁
    cases hr₂
    obtain rfl := hbest₁.unique hbest₂ hperm hkeys
    exact ⟨x, htakes₁, htakes₂⟩
  dropOrder holdest hlowest env₂ ctx₂ dev₂ id₁ c₁ d₁ id₂ c₂ d₂ hperm run₁ run₂ := by
    obtain ⟨x, hr₁, hbest₁⟩ := (leaves_sound run₁ (B.call_step _ ctx)).drop_best
    obtain ⟨y, hr₂, hbest₂⟩ := (leaves_sound run₂ (B.call_step _ ctx₂)).drop_best
    cases hr₁
    cases hr₂
    rw [hbest₁.unique hbest₂ hperm holdest hlowest]

end Backend

/-- The search of the flash queue fails only where no entry waits. -/
theorem flashq_drop_found {cfg : FlashqConfig} (policy : OverflowPolicy) (ctx : FlashqCtx) :
    leaves (flashqCall cfg (.findDropCandidate policy)) (fun _ _ => True)
      (fun err _ => err = .notFound ∧
        ¬ ∃ x ∈ ctx.metas, x.state = FlashqState.pending.code) ctx := by
  unfold flashqCall
  simp only [StorageOps.call, sFlashqOps, opFindDropCandidate, Prog.bind_eq, Prog.pure_eq,
    leaves_bind, leaves_read, leaves_ret]
  cases hsel : selectDrop policy (ctx.index.map (·.toEntryMeta)) with
  | none => exact leaves_fail.mpr ⟨rfl, selectDrop_none.mp hsel⟩
  | some pos =>
    obtain ⟨x, hx, _⟩ := pick_some hsel
    obtain ⟨e, he, rfl⟩ := FlashqCtx.getElem?_metas hx
    exact leaves_bind.mpr (leaves_entryAt he (leaves_ret.mpr trivial))

/-- The search of the NVS backend fails only where no entry waits. -/
theorem nvs_drop_found {cfg : NvsConfig} (policy : OverflowPolicy) (ctx : NvsCtx) :
    leaves (nvsCall cfg (.findDropCandidate policy)) (fun _ _ => True)
      (fun err _ => err = .notFound ∧
        ¬ ∃ x ∈ ctx.metas, x.state = FlashqState.pending.code) ctx := by
  unfold nvsCall
  simp only [StorageOps.call, sNvsOps, nvsOpFindDropCandidate, Prog.bind_eq, Prog.pure_eq,
    leaves_bind, leaves_read, leaves_ret]
  cases hsel : selectDrop policy (ctx.index.map (·.toEntryMeta)) with
  | none => exact leaves_fail.mpr ⟨rfl, selectDrop_none.mp hsel⟩
  | some pos =>
    obtain ⟨x, hx, _⟩ := pick_some hsel
    obtain ⟨e, he, rfl⟩ := NvsCtx.getElem?_metas hx
    exact leaves_bind.mpr (leaves_nvsEntryAt he (leaves_ret.mpr trivial))

section Selects

variable {fcfg : FlashqConfig} {cfg : NvsConfig} {usage : BlobStore → UInt32 × UInt32}

/-- The flash queue selects the best, whatever the flash does. -/
theorem flashq_selects (env : Env FlashCall Memory FlashEvent) (ctx : FlashqCtx) (m : Memory)
    (nowUs : Int64) (policy : OverflowPolicy) :
    SelectsBest (flashqBackend fcfg) env ctx m nowUs policy := by
  refine .of_errors (fun err ctx' dev' run => ?_)
    fun err ctx' dev' run => leaves_sound run (flashq_drop_found policy ctx)
  rw [← selectClaim_none]
  cases hsel : selectClaim nowUs ctx.metas with
  | none =>
    have hnone : leaves (flashqCall fcfg (.claimNext nowUs)) (fun _ _ => True)
        (fun err _ => err = .notFound) ctx := by
      unfold flashqCall
      simp only [StorageOps.call, sFlashqOps, opClaimNext, Prog.bind_eq, leaves_bind, leaves_read]
      rw [show selectClaim nowUs (ctx.index.map (·.toEntryMeta)) = none from hsel]
      exact leaves_fail.mpr rfl
    exact iff_of_true (leaves_sound run hnone) hsel
  | some pos =>
    have hfound : leaves (flashqCall fcfg (.claimNext nowUs)) (fun _ _ => True)
        (fun err _ => OtherError err) ctx :=
      leaves_seq (flashq_claim_found hsel) (fun _ _ _ => leaves_ret.mpr trivial) fun _ _ h => h
    exact iff_of_false (leaves_sound run hfound) fun hnone => absurd (hsel.symm.trans hnone) (by simp)

/-- The NVS backend selects the best exactly when it can ask for the size of the record
that the loop selects. -/
theorem nvs_selects (env : Env BlobCall BlobStore BlobEvent) (ctx : NvsCtx) (s : BlobStore)
    (nowUs : Int64) (policy : OverflowPolicy) :
    SelectsBest (nvsBackend usage cfg) env ctx s nowUs policy ↔
      SizeAnswered env ctx s nowUs := by
  constructor
  · intro h pos e he hfirst
    have hsel := selectClaim_iff.mpr hfirst
    refine (@nvs_claim_found cfg usage env ctx s nowUs pos e hsel he).mp (wp_iff_runs.mpr ?_)
    intro o run
    cases o with
    | ok reply c s' => trivial
    | cut s' => trivial
    | error err c s' =>
      rintro rfl
      have hnone := (h.claim (.error .notFound) c s' run.bind_error).mp rfl
      rw [← selectClaim_none] at hnone
      exact absurd (hsel.symm.trans hnone) (by simp)
  · intro h
    refine .of_errors (fun err ctx' dev' run => ?_)
      fun err ctx' dev' run => leaves_sound run (nvs_drop_found policy ctx)
    rw [← selectClaim_none]
    cases hsel : selectClaim nowUs (NvsCtx.metas ctx) with
    | none =>
      have hnone : leaves (nvsCall cfg (.claimNext nowUs)) (fun _ _ => True)
          (fun err _ => err = .notFound) ctx := by
        unfold nvsCall
        simp only [StorageOps.call, sNvsOps, nvsOpClaimNext, Prog.bind_eq, leaves_bind, leaves_read]
        rw [show selectClaim nowUs (ctx.index.map (·.toEntryMeta)) = none from hsel]
        exact leaves_fail.mpr rfl
      exact iff_of_true (leaves_sound run hnone) hsel
    | some pos =>
      obtain ⟨x, hx, _⟩ := pick_some hsel
      obtain ⟨e, he, _⟩ := NvsCtx.getElem?_metas hx
      have hfound := (@nvs_claim_found cfg usage env ctx s nowUs pos e hsel he).mpr
        (h pos e he (selectClaim_iff.mp hsel))
      have hcall : wp (blobDevice usage) env (nvsCall cfg (.claimNext nowUs)) Post.found ctx s :=
        wp_bind.mpr (wp_mono hfound (fun _ _ _ _ => wp_ret.mpr trivial) (fun _ _ _ h => h)
          fun _ h => h)
      exact iff_of_false (wp_sound run hcall) fun hnone => absurd (hsel.symm.trans hnone) (by simp)

end Selects

/-- Both backends select the best exactly when the NVS backend can ask for the size of the
record that its claim loop selects: the flash queue always does, and so do both searches
for a message to drop. -/
theorem selection_optimal (fcfg : FlashqConfig) (fenv : Env FlashCall Memory FlashEvent)
    (fctx : FlashqCtx) (m : Memory) (cfg : NvsConfig) (usage : BlobStore → UInt32 × UInt32)
    (env : Env BlobCall BlobStore BlobEvent) (ctx : NvsCtx) (s : BlobStore) (nowUs : Int64)
    (policy : OverflowPolicy) :
    (SelectsBest (flashqBackend fcfg) fenv fctx m nowUs policy ∧
      SelectsBest (nvsBackend usage cfg) env ctx s nowUs policy) ↔
      SizeAnswered env ctx s nowUs := by
  rw [nvs_selects, and_iff_right (flashq_selects fenv fctx m nowUs policy)]

/-- The first message is accepted; then the size of its record cannot be asked for. -/
def hiddenScript : NvsScript := [(.boot, []), (.call (.enqueue slotMessage), [])]

/-- The message is ready, and the claim reports that there is none. -/
def hiddenShows :
    List FlashqStepLabel × StorageSystem (nvsBackend noUsage slotConfig) → Bool
  | ([.booted, .call op (.ok .done)], .on ctx s) =>
    decide (op = .enqueue slotMessage ∧
      (NvsCtx.metas ctx).map (fun x => (x.id, x.state, x.nextRetryAtUs)) =
        [(7, FlashqState.pending.code, 0)]) &&
    match nvsFaultAct slotConfig (.on ctx s) (.call (.claimNext 10), [.fail], [.getBlob]) with
    | some (.call op (.error .notFound), .on _ _) => decide (op = .claimNext 10)
    | _ => false
  | _ => false

/-- `nvs_get_blob` fails for the size of the only record: the claim reports that nothing is
eligible, though a message is ready. -/
theorem ready_message_hidden : ∃ ctx s,
    StorageRun (nvsBackend noUsage slotConfig) (nvsWorld noUsage slotConfig quietStore)
      (.off emptyStore) [.booted, .call (.enqueue slotMessage) (.ok .done)] (.on ctx s) ∧
    (∃ ctx' s', Runs (blobDevice noUsage) (failing [.getBlob])
      (nvsCall slotConfig (.claimNext 10)) ctx s (.error .notFound ctx' s')) ∧
    (∃ x ∈ NvsCtx.metas ctx, x.id = 7 ∧ x.Ready 10) ∧
    ¬ SelectsBest (nvsBackend noUsage slotConfig) (failing [.getBlob]) ctx s 10 .dropOldest := by
  have hcheck : (nvsPlay slotConfig (.off emptyStore) hiddenScript []).any hiddenShows = true := by
    decide +kernel
  obtain ⟨played, hplay, hshows⟩ := (Option.any_eq_true _ _).mp hcheck
  unfold hiddenShows at hshows
  split at hshows
  case h_2 => cases hshows
  rename_i op ctx s
  obtain ⟨hstate, hclaim⟩ := Bool.and_eq_true_iff.mp hshows
  obtain ⟨rfl, hmetas⟩ := of_decide_eq_true hstate
  obtain ⟨x, hx, hkeys⟩ := List.map_eq_singleton_iff.mp hmetas
  have hmem : x ∈ NvsCtx.metas ctx := by
    rw [hx]
    exact List.mem_singleton_self x
  have hready : x.Ready 10 := by
    refine ⟨congrArg (·.2.1) hkeys, ?_⟩
    rw [show x.nextRetryAtUs = 0 from congrArg (·.2.2) hkeys]
    decide
  split at hclaim
  case h_2 => cases hclaim
  rename_i op ctx' s' hact
  obtain rfl := of_decide_eq_true hclaim
  cases nvsFaultAct_step hact with
  | call run =>
    refine ⟨ctx, s, nvsPlay_quiet (by decide) hplay, ⟨ctx', s', run⟩,
      ⟨x, hmem, congrArg (·.1) hkeys, hready⟩, fun h => ?_⟩
    exact (h.claim _ _ _ run).mp rfl ⟨x, hmem, hready⟩

end EdgeSync
