/-
  Flashq/Integrity.lean --- a claim hands out what was published.

  The history of a message is in the labels of a run: the call that published
  it, and the claims so far.  `Genuine` ties a message of the queue to its
  history.  The payload that a claim lends out lies in a buffer of its own,
  which only the next claim writes.
-/
import EdgeSync.Flashq.Drain

set_option autoImplicit false

namespace EdgeSync

open Foundation

variable {cfg : FlashqConfig}

/-! ## Histories -/

/-- The message a step hands to the worker. -/
def FlashqStepLabel.claimed? : FlashqStepLabel → Option ClaimedMessage
  | call (.claimNext _) (.ok (.claim (.claimed message))) => some message
  | _ => none

/-- How often the message with this id was claimed. -/
def claimCount (labels : List FlashqStepLabel) (id : UInt64) : Nat :=
  (labels.filterMap (·.claimed?)).countP (·.id == id)

theorem claimCount_snoc (labels : List FlashqStepLabel) (label : FlashqStepLabel) (id : UInt64) :
    claimCount (labels ++ [label]) id =
      claimCount labels id + label.claimed?.toList.countP (·.id == id) := by
  rw [claimCount, List.filterMap_append, List.countP_append, ← claimCount, List.filterMap_cons,
    List.filterMap_nil]
  cases label.claimed? <;> rfl

theorem claimCount_snoc_none {labels : List FlashqStepLabel} {label : FlashqStepLabel}
    (h : label.claimed? = none) (id : UInt64) :
    claimCount (labels ++ [label]) id = claimCount labels id := by
  rw [claimCount_snoc, h]
  rfl

/-- The message was accepted, and its attempts are its claims. -/
def Genuine (labels : List FlashqStepLabel) (s : StoredMessage) : Prop :=
  ∃ message, FlashqStepLabel.call (.enqueue message) (.ok .done) ∈ labels ∧
    (∃ p, s = (StoredMessage.ofMessage message).change fun _ => p) ∧
    s.attemptCount = UInt32.ofNat (claimCount labels message.id)

/-- Every message of the queue is genuine, and no unpublished one was claimed. -/
def GenuineQueue (labels : List FlashqStepLabel) (q : List StoredMessage) : Prop :=
  (∀ s ∈ q, Genuine labels s) ∧ ∀ id, id ∉ publishedIds labels → claimCount labels id = 0

theorem id_of_change {s : StoredMessage} {message : EdgesyncMessage} {p : Progress}
    (h : s = (StoredMessage.ofMessage message).change fun _ => p) :
    s.id = message.id := by
  rw [h]
  rfl

/-- A step that claims nothing else keeps a message genuine, whatever it does to
its progress but for the attempts. -/
theorem Genuine.change {labels : List FlashqStepLabel} {label : FlashqStepLabel} {s : StoredMessage}
    {f : Progress → Progress} (h : Genuine labels s)
    (hf : (f s.toEntryMeta.progress).attemptCount =
      s.attemptCount + UInt32.ofNat (label.claimed?.toList.countP (·.id == s.id))) :
    Genuine (labels ++ [label]) (s.change f) := by
  obtain ⟨message, hmem, ⟨p, hs⟩, hcount⟩ := h
  refine ⟨message, List.mem_append_left _ hmem, ⟨f p, ?_⟩, ?_⟩
  · rw [hs]
    rfl
  · have hid := id_of_change hs
    rw [claimCount_snoc, UInt32.ofNat_add, ← hcount, ← hid, ← hf]
    rfl

theorem Genuine.snoc {labels : List FlashqStepLabel} {label : FlashqStepLabel} {s : StoredMessage}
    (h : Genuine labels s) (hnot : label.claimed?.toList.countP (·.id == s.id) = 0) :
    Genuine (labels ++ [label]) s := by
  have hsame : s.attemptCount =
      s.attemptCount + UInt32.ofNat (label.claimed?.toList.countP (·.id == s.id)) := by
    rw [hnot]
    exact (UInt32.add_zero _).symm
  exact Genuine.change (f := fun p => p) h hsame

/-- Changing one message of a genuine queue. -/
theorem genuine_modify {labels : List FlashqStepLabel} {label : FlashqStepLabel}
    {q : List StoredMessage} {pos : Nat} {f : Progress → Progress} (h : ∀ s ∈ q, Genuine labels s)
    (hf : ∀ p, (f p).attemptCount = p.attemptCount) (hl : label.claimed? = none) :
    ∀ s ∈ q.modify pos (·.change f), Genuine (labels ++ [label]) s := by
  intro s hs
  rcases mem_of_mem_modify hs with hs | ⟨b, hb, rfl⟩
  · exact (h s hs).snoc (by rw [hl]; rfl)
  · refine (h b (List.mem_of_getElem? hb)).change ?_
    rw [hl, hf]
    exact (UInt32.add_zero _).symm

/-- A claim changes the message that is handed out, and no other. -/
theorem genuine_claim {labels : List FlashqStepLabel} {q : List StoredMessage} {nowUs : Int64}
    {pos : Nat} {s : StoredMessage} (h : ∀ s ∈ q, Genuine labels s) (hu : (messageIds q).Nodup)
    (hs : q[pos]? = some s) :
    ∀ x ∈ q.modify pos (·.change (Progress.claimed nowUs)), Genuine (labels ++
      [.call (.claimNext nowUs) (.ok (.claim (.claimed (s.claimedMessage nowUs))))]) x := by
  have hclaimed : ∀ id, (FlashqStepLabel.call (.claimNext nowUs)
      (.ok (.claim (.claimed (s.claimedMessage nowUs))))).claimed?.toList.countP (·.id == id) =
      if s.id = id then 1 else 0 := by
    intro id
    show [s.claimedMessage nowUs].countP (·.id == id) = _
    rw [List.countP_singleton]
    simp only [beq_iff_eq]
    rfl
  intro x hx
  obtain ⟨i, hi⟩ := List.getElem?_of_mem hx
  rw [List.getElem?_modify] at hi
  by_cases hp : pos = i
  · subst hp
    rw [hs] at hi
    obtain rfl : s.change (Progress.claimed nowUs) = x := by simpa using hi
    refine (h s (List.mem_of_getElem? hs)).change ?_
    rw [hclaimed, if_pos rfl]
    rfl
  · simp only [hp, if_false, id_map'] at hi
    refine (h x (List.mem_of_getElem? hi)).snoc ?_
    rw [hclaimed, if_neg]
    intro hid
    have h1 : (messageIds q)[pos]? = some s.id := by
      rw [messageIds, List.getElem?_map, hs]
      rfl
    have h2 : (messageIds q)[i]? = some s.id := by
      rw [messageIds, List.getElem?_map, hi, hid]
      rfl
    exact hp ((List.getElem?_inj (List.getElem?_eq_some_iff.mp h1).1 hu).mp (h1.trans h2.symm))

theorem genuine_snoc {labels : List FlashqStepLabel} {label : FlashqStepLabel}
    {q : List StoredMessage} (h : ∀ s ∈ q, Genuine labels s) (hl : label.claimed? = none) :
    ∀ s ∈ q, Genuine (labels ++ [label]) s :=
  fun s hs => (h s hs).snoc (by rw [hl]; rfl)

/-- A message that was just accepted has not been claimed. -/
theorem genuine_new {labels : List FlashqStepLabel} {message : EdgesyncMessage}
    (h : ∀ id, id ∉ publishedIds labels → claimCount labels id = 0)
    (hnew : message.id ∉ publishedIds labels) :
    Genuine (labels ++ [.call (.enqueue message) (.ok .done)]) (StoredMessage.ofMessage message) := by
  refine ⟨message, List.mem_append_right _ (List.mem_singleton.mpr rfl), ⟨Progress.queued, rfl⟩, ?_⟩
  rw [claimCount_snoc_none rfl, h _ hnew]
  rfl

theorem genuineQueue : QueueInvariant GenuineQueue where
  init := ⟨fun _ h => absurd h List.not_mem_nil, fun _ _ => rfl⟩
  restart := by
    rintro labels q label hl ⟨hq, hc⟩
    have hnone : label.claimed? = none := by rcases hl with rfl | rfl <;> rfl
    refine ⟨genuine_snoc hq hnone, fun id hid => ?_⟩
    rw [claimCount_snoc_none hnone]
    exact hc id fun hm => hid (mem_published_init hm label)
  requeue := by
    rintro labels q s pos _ ⟨hq, hc⟩ _ _
    refine ⟨fun x hx => ?_, hc⟩
    rcases mem_of_mem_modify hx with hx | ⟨b, hb, rfl⟩
    · exact hq x hx
    · obtain ⟨message, hmem, ⟨p, rfl⟩, hcount⟩ := hq b (List.mem_of_getElem? hb)
      refine ⟨message, hmem, ⟨p.requeued, rfl⟩, ?_⟩
      rw [← hcount]
      show p.requeued.attemptCount = p.attemptCount
      unfold Progress.requeued
      split <;> rfl
  call := by
    rintro labels q op res q' hids ⟨hq, hc⟩ hu step
    have hkeep : ∀ {label : FlashqStepLabel}, label.claimed? = none →
        ∀ id, id ∉ publishedIds (labels ++ [label]) → claimCount (labels ++ [label]) id = 0 := by
      intro label hl id hid
      rw [claimCount_snoc_none hl]
      exact hc id fun hm => hid (mem_published_init hm label)
    cases step with
    | refused => exact ⟨genuine_snoc hq (by cases op <;> rfl), hkeep (by cases op <;> rfl)⟩
    | staged found => exact ⟨genuine_modify hq (fun _ => rfl) rfl, hkeep rfl⟩
    | candidate selected entry => exact ⟨genuine_snoc hq rfl, hkeep rfl⟩
    | stats => exact ⟨genuine_snoc hq rfl, hkeep rfl⟩
    | enqueued =>
      refine ⟨fun s hs => ?_, hkeep rfl⟩
      rcases List.mem_append.mp hs with hs | hs
      · exact genuine_snoc hq rfl s hs
      · rw [List.mem_singleton.mp hs]
        exact genuine_new hc (fresh_of_unique hu rfl)
    | @claimed nowUs pos s selected entry =>
      refine ⟨genuine_claim hq hids.nodup entry, fun id hid => ?_⟩
      have hold := hc id fun hm => hid (mem_published_init hm _)
      have hne : s.id ≠ id := by
        rintro rfl
        refine hid (mem_published_init (hids.published _ ?_) _)
        exact List.mem_map_of_mem (List.mem_of_getElem? entry)
      rw [claimCount_snoc, hold, Nat.zero_add]
      show [s.claimedMessage nowUs].countP (·.id == id) = 0
      rw [List.countP_singleton, if_neg]
      exact fun h => hne (beq_iff_eq.mp h)
    | retired retires found =>
      have hl : (FlashqStepLabel.call op (.ok .done)).claimed? = none := by
        cases retires <;> rfl
      exact ⟨fun s hs => genuine_snoc hq hl s (mem_of_mem_swapRemove hs), hkeep hl⟩
    | retried found =>
      exact ⟨genuine_modify hq (fun _ => rfl) rfl, hkeep rfl⟩

/-! ## The borrowed payload -/

section Borrowed

variable {R : Regime cfg} {c c' : Core} {m m' : Memory} {recs recs' : List (Nat × RecordHdr)}
  {op : StorageOp} {res : Except EspErr StorageReply}

theorem Updated.claimScratch {c1 c2 : Core} {m1 m2 : Memory} {pos : Nat} {id : UInt64}
    {p : Progress} (up : Updated R c1 m1 pos id p c2 m2) : c2.claimScratch = c1.claimScratch := by
  rw [up.core_eq]

/-- Only a claim writes the claim buffer. -/
theorem Effect.claimScratch (ef : Effect R c m recs op res c' m' recs')
    (hop : ∀ nowUs, op ≠ .claimNext nowUs) : c'.claimScratch = c.claimScratch := by
  have hprep : ∀ {cS : Core}, Prepared c cS op → cS.claimScratch = c.claimScratch := by
    intro cS prep
    cases op with
    | claimNext nowUs => exact absurd rfl (hop nowUs)
    | scheduleRetry id nextRetryTimeUs deadLetter lastError =>
      obtain ⟨pos, _, rfl⟩ := prep
      rfl
    | findDropCandidate policy => exact prep.elim
    | getStats stats => exact prep.elim
    | _ =>
      cases prep
      rfl
  cases ef with
  | refused why => rfl
  | looked seen => rfl
  | full prepared moved low => exact moved.claimScratch.trans (hprep prepared)
  | spoilt lossy prepared moved left => exact moved.claimScratch.trans (hprep prepared)
  | enqueued moved enqueued =>
    rw [enqueued.core_eq]
    exact moved.claimScratch
  | claimed selected entry borrowed moved updated => exact absurd rfl (hop _)
  | retired retires found entry moved updated => exact updated.claimScratch.trans moved.claimScratch
  | retried found entry moved updated => exact updated.claimScratch.trans moved.claimScratch

/-- What a claim hands out, and where it put the payload. -/
theorem Effect.claimed_payload {nowUs : Int64} {message : ClaimedMessage}
    (ef : Effect R c m recs (.claimNext nowUs) (.ok (.claim (.claimed message))) c' m' recs') :
    ∃ s ∈ c.queue cfg m, message = s.claimedMessage nowUs ∧
      slice c'.claimScratch message.payloadOff message.payloadLen.toNat = s.payload := by
  generalize hop : StorageOp.claimNext nowUs = op at ef
  generalize hres : (Except.ok (StorageReply.claim (.claimed message)) :
    Except EspErr StorageReply) = res at ef
  cases ef with
  | looked seen =>
    subst hop
    exact seen.elim
  | claimed selected entry borrowed moved updated =>
    cases hop
    cases hres
    refine ⟨_, List.mem_of_getElem? (contents_getElem? entry), rfl, ?_⟩
    rw [updated.claimScratch, moved.claimScratch]
    exact borrowed
  | _ => simp at hres

end Borrowed

/-- Calls that are not claims. -/
def NoClaims (labels : List FlashqStepLabel) : Prop :=
  ∀ label ∈ labels, ∃ op res, label = .call op res ∧ ∀ nowUs, op ≠ .claimNext nowUs

/-- Until the next claim the buffer stays as it is. -/
theorem claimScratch_run {P : List FlashqStepLabel → List StoredMessage → Prop}
    {before more : List FlashqStepLabel} {ctx : FlashqCtx} {m : Memory} {s : FlashqSystem}
    (inv : QueueInvariant P) (h : Tracked cfg P before (.on ctx m))
    (run : FlashqRun cfg quietWorld (.on ctx m) more s) (hmore : NoClaims more)
    (hu : (publishedIds (before ++ more)).Nodup) (hfit : AllFit cfg (before ++ more)) :
    ∃ ctx' m', s = .on ctx' m' ∧ Tracked cfg P (before ++ more) (.on ctx' m') ∧
      ctx'.claimScratch = ctx.claimScratch := by
  induction run with
  | nil => exact ⟨ctx, m, rfl, by rwa [List.append_nil], rfl⟩
  | @snoc more s' s'' label run step ih =>
    rw [← List.append_assoc] at hu hfit
    obtain ⟨ctx1, m1, rfl, htr, hsame⟩ := ih (fun l hl => hmore l (List.mem_append_left _ hl))
      (unique_init hu) hfit.init
    obtain ⟨op, res, rfl, hop⟩ := hmore label (List.mem_append_right _ (List.mem_singleton.mpr rfl))
    obtain ⟨recs, htr⟩ := htr
    obtain ⟨ctx2, m2, recs2, rfl, ef⟩ := quiet_effect htr.base (hfit.last rfl) step
    refine ⟨ctx2, m2, rfl, ?_, (ef.claimScratch hop).trans hsame⟩
    rw [← List.append_assoc]
    exact ⟨recs2, htr.call inv hu ef⟩

/-- Every claim hands out what was published, counts the claims of the message
(in 32 bits), and lends a payload that stays as it is until the next claim. -/
theorem claim_genuine {labels more : List FlashqStepLabel} {nowUs : Int64}
    {claimed : ClaimedMessage} {ctx : FlashqCtx} {m : Memory}
    (run : FlashqRun cfg quietWorld (.off erasedFlash)
      (labels ++ [.call (.claimNext nowUs) (.ok (.claim (.claimed claimed)))] ++ more) (.on ctx m))
    (hu : (publishedIds (labels ++ [.call (.claimNext nowUs) (.ok (.claim (.claimed claimed)))] ++
      more)).Nodup)
    (hfit : AllFit cfg (labels ++ [.call (.claimNext nowUs) (.ok (.claim (.claimed claimed)))] ++
      more))
    (hboots : BootsReturn (labels ++ [.call (.claimNext nowUs) (.ok (.claim (.claimed claimed)))] ++
      more)) (hmore : NoClaims more) :
    ∃ message, FlashqStepLabel.call (.enqueue message) (.ok .done) ∈ labels ∧
      claimed.id = message.id ∧ claimed.destination = cString message.destination ∧
      claimed.priority = message.priority ∧ claimed.createdAtUs = message.createdAtUs ∧
      claimed.payloadLen = message.payloadLen ∧
      slice ctx.claimScratch claimed.payloadOff claimed.payloadLen.toNat = message.payload ∧
      claimed.attemptCount = UInt32.ofNat (claimCount labels message.id + 1) := by
  obtain ⟨s1, first, rest⟩ := run.split
  obtain ⟨s0, before, step⟩ := first.last
  have hu1 : (publishedIds (labels ++ [.call (.claimNext nowUs)
      (.ok (.claim (.claimed claimed)))])).Nodup := by
    rw [publishedIds, List.filterMap_append] at hu
    exact hu.of_append_left
  have hfit1 : AllFit cfg (labels ++ [.call (.claimNext nowUs) (.ok (.claim (.claimed claimed)))]) := by
    intro op hop
    refine hfit op ?_
    rw [callsOf, List.filterMap_append]
    exact List.mem_append_left _ hop
  have hboots0 : BootsReturn labels := fun err hm =>
    hboots err (List.mem_append_left _ (List.mem_append_left _ hm))
  have htr := Tracked.run genuineQueue before (unique_init hu1) hfit1.init hboots0
  cases s0 with
  | off m0 => cases step
  | on ctx0 m0 =>
    obtain ⟨recs0, htr0⟩ := htr
    obtain ⟨ctx1, m1, recs1, rfl, ef⟩ := quiet_effect htr0.base (hfit1.last rfl) step
    obtain ⟨s, hs, rfl, hpay⟩ := ef.claimed_payload
    obtain ⟨ctx2, m2, heq, _, hsame⟩ :=
      claimScratch_run genuineQueue ⟨recs1, htr0.call genuineQueue hu1 ef⟩ rest hmore hu hfit
    cases heq
    obtain ⟨message, hmem, ⟨p, rfl⟩, hcount⟩ := htr0.holds.1 s hs
    refine ⟨message, hmem, rfl, rfl, rfl, rfl, rfl, ?_, ?_⟩
    · rw [hsame]
      exact hpay
    · rw [UInt32.ofNat_add, ← hcount]
      rfl

/-! ## Counting past 32 bits -/

section Wrap

/-- The message that is retried for ever. -/
def retriedMessage : EdgesyncMessage := ⟨7, [0x61], 1, 5, [1, 2, 3]⟩

/-- A claim of the message with this progress. -/
def claimStep (p : Progress) : FlashqStepLabel :=
  .call (.claimNext 9) (.ok (.claim (.claimed
    (((StoredMessage.ofMessage retriedMessage).change fun _ => p).claimedMessage 9))))

/-- After `n` claims and retries. -/
structure RetriedState (n : Nat) (labels : List FlashqStepLabel) (ctx : FlashqCtx) (m : Memory)
    (p : Progress) : Prop where
  run : FlashqRun smallConfig quietWorld (.off erasedFlash) labels (.on ctx m)
  base : ∃ recs, Base (quiet smallConfig) ctx.core m recs
  reserve : HasReserve smallConfig ctx.index
  queue : ctx.core.queue smallConfig m =
    [(StoredMessage.ofMessage retriedMessage).change fun _ => p]
  due : p.state = FlashqState.pending.code ∧ p.nextRetryAtUs = 0
  attempts : p.attemptCount = UInt32.ofNat n
  claims : claimCount labels 7 = n
  ids : publishedIds labels = [7]
  fit : AllFit smallConfig labels
  boots : BootsReturn labels

/-- One message that is due is selected. -/
theorem selectClaim_due {p : Progress} (h : p.state = FlashqState.pending.code ∧ p.nextRetryAtUs = 0) :
    selectClaim 9 (metas [(StoredMessage.ofMessage retriedMessage).change fun _ => p]) = some 0 := by
  have helig : EntryMeta.eligible 9
      ((StoredMessage.ofMessage retriedMessage).change fun _ => p).toEntryMeta = true := by
    show (p.state == FlashqState.pending.code && !decide ((9 : Int64) < p.nextRetryAtUs)) = true
    rw [h.1, h.2]
    decide
  simp [selectClaim, metas, pick, pickFrom, helig]

theorem publishedIds_snoc_of_none {labels : List FlashqStepLabel} {label : FlashqStepLabel}
    (h : label.op?.bind (·.enqueueId?) = none) :
    publishedIds (labels ++ [label]) = publishedIds labels := by
  rw [publishedIds_snoc, publishedId?_none h]
  exact List.append_nil _

theorem AllFit.snoc {labels : List FlashqStepLabel} {label : FlashqStepLabel}
    (h : AllFit cfg labels) (hl : ∀ op, label.op? = some op → op.Fits cfg.maxMessageSize) :
    AllFit cfg (labels ++ [label]) := by
  intro op hop
  rw [callsOf_snoc] at hop
  rcases List.mem_append.mp hop with hop | hop
  · exact h op hop
  · exact hl op (by simpa using hop)

theorem BootsReturn.snoc {labels : List FlashqStepLabel} {label : FlashqStepLabel}
    (h : BootsReturn labels) (hl : ∀ err, label ≠ .bootFailed err) :
    BootsReturn (labels ++ [label]) := by
  intro err hm
  rcases List.mem_append.mp hm with hm | hm
  · exact h err hm
  · exact hl err (List.mem_singleton.mp hm).symm

/-- The claim of the message. -/
theorem RetriedState.claim {n : Nat} {labels : List FlashqStepLabel} {ctx : FlashqCtx} {m : Memory}
    {p : Progress} (st : RetriedState n labels ctx m p) :
    ∃ ctx' m', FlashqRun smallConfig quietWorld (.off erasedFlash) (labels ++ [claimStep p])
        (.on ctx' m') ∧ (∃ recs, Base (quiet smallConfig) ctx'.core m' recs) ∧
      HasReserve smallConfig ctx'.index ∧ ctx'.core.queue smallConfig m' =
        [(StoredMessage.ofMessage retriedMessage).change fun _ => p.claimed 9] := by
  obtain ⟨recs, b⟩ := st.base
  obtain ⟨ctx', m', recs', step, b', hres, hq⟩ := quiet_claim b st.reserve
    (by rw [st.queue]; exact selectClaim_due st.due) (by rw [st.queue]; rfl)
  refine ⟨ctx', m', st.run.snoc step, ⟨recs', b'⟩, hres, ?_⟩
  rw [hq, st.queue]
  rfl

theorem claimCount_claimStep (labels : List FlashqStepLabel) (p : Progress) :
    claimCount (labels ++ [claimStep p]) 7 = claimCount labels 7 + 1 := by
  rw [claimCount_snoc]
  rfl

/-- One more claim and retry. -/
theorem RetriedState.next {n : Nat} {labels : List FlashqStepLabel} {ctx : FlashqCtx} {m : Memory}
    {p : Progress} (st : RetriedState n labels ctx m p) :
    ∃ labels' ctx' m' p', RetriedState (n + 1) labels' ctx' m' p' := by
  obtain ⟨ctx1, m1, run1, ⟨recs1, b1⟩, hres1, hq1⟩ := st.claim
  have hpos : findMessage (ctx1.core.queue smallConfig m1) 7 = some 0 := by
    rw [hq1]
    rfl
  obtain ⟨ctx2, m2, recs2, step, b2, hres2, hq2⟩ := quiet_retry 0 false 0 b1 hres1 hpos
  refine ⟨_, ctx2, m2, (p.claimed 9).retried 0 false 0, run1.snoc step, ⟨recs2, b2⟩, hres2, ?_,
    ⟨rfl, rfl⟩, ?_, ?_, ?_, ?_, ?_⟩
  · rw [hq2, hq1]
    rfl
  · rw [UInt32.ofNat_add, ← st.attempts]
    rfl
  · rw [claimCount_snoc_none rfl, claimCount_claimStep, st.claims]
  · rw [publishedIds_snoc_of_none rfl, publishedIds_snoc_of_none rfl, st.ids]
  · refine (st.fit.snoc ?_).snoc ?_ <;>
    · intro op hop
      cases hop
      trivial
  · exact (st.boots.snoc fun _ => by simp [claimStep]).snoc fun _ => by simp

theorem retriedMessage_fits : (StorageOp.enqueue retriedMessage).Fits smallConfig.maxMessageSize := by
  decide

/-- The message was published. -/
theorem retriedState_zero : ∃ ctx m,
    RetriedState 0 [.booted, .call (.enqueue retriedMessage) (.ok .done)] ctx m Progress.queued := by
  obtain ⟨ctx, m, boot, hcore, b⟩ := quiet_boot smallConfig
  have hindex : ctx.index = [] := congrArg Core.index hcore
  obtain ⟨ctx1, m1, recs1, step, b1, hq⟩ := quiet_enqueue b retriedMessage_fits
    ⟨by decide, by decide⟩ (by rw [hindex]; decide) (by rw [hindex]; decide)
  have hq1 : ctx1.core.queue smallConfig m1 = [StoredMessage.ofMessage retriedMessage] := by
    rw [hq, Core.queue, show ctx.core.index = [] from hindex]
    rfl
  have hlive : liveBytes ctx1.index = retriedMessage.recordSize := by
    rw [← queueBytes_contents (view smallConfig m1 ctx1.core.region)]
    exact (congrArg queueBytes hq1).trans (queueBytes_singleton _)
  refine ⟨ctx1, m1, (FlashqRun.nil.snoc boot).snoc step, ⟨recs1, b1⟩, ?_, hq1, ⟨rfl, rfl⟩, rfl, rfl,
    rfl, ?_, ?_⟩
  · rw [HasReserve, hlive]
    decide
  · intro op hop
    rw [List.mem_singleton.mp hop]
    decide
  · intro err hm
    simp at hm

/-- The message can be claimed and retried any number of times. -/
theorem retriedState_all (n : Nat) : ∃ labels ctx m p, RetriedState n labels ctx m p := by
  induction n with
  | zero =>
    obtain ⟨ctx, m, st⟩ := retriedState_zero
    exact ⟨_, ctx, m, _, st⟩
  | succ n ih =>
    obtain ⟨labels, ctx, m, p, st⟩ := ih
    exact st.next

/-- The claim numbered 2^32 reports no attempt at all. -/
theorem attempts_wrap : ∃ labels claimed ctx m,
    FlashqRun smallConfig quietWorld (.off erasedFlash)
      (labels ++ [.call (.claimNext 9) (.ok (.claim (.claimed claimed)))]) (.on ctx m) ∧
    (publishedIds labels).Nodup ∧ AllFit smallConfig labels ∧ BootsReturn labels ∧
    claimCount labels claimed.id + 1 = 2 ^ 32 ∧ claimed.attemptCount = 0 := by
  obtain ⟨labels, ctx, m, p, st⟩ := retriedState_all (2 ^ 32 - 1)
  obtain ⟨ctx', m', run, _, _, _⟩ := st.claim
  refine ⟨labels, _, ctx', m', run, ?_, st.fit, st.boots, ?_, ?_⟩
  · rw [st.ids]
    exact List.nodup_singleton _
  · show claimCount labels 7 + 1 = _
    rw [st.claims]
    decide
  · show p.attemptCount + 1 = 0
    rw [st.attempts]
    decide

/-- The first claim of a message. -/
theorem claim_genuine_first : ∃ labels claimed ctx m,
    FlashqRun smallConfig quietWorld (.off erasedFlash)
      (labels ++ [.call (.claimNext 9) (.ok (.claim (.claimed claimed)))] ++ []) (.on ctx m) ∧
    ∃ message, FlashqStepLabel.call (.enqueue message) (.ok .done) ∈ labels ∧
      claimed.id = message.id ∧
      slice ctx.claimScratch claimed.payloadOff claimed.payloadLen.toNat = message.payload := by
  obtain ⟨ctx, m, st⟩ := retriedState_zero
  obtain ⟨ctx', m', run, _, _, _⟩ := st.claim
  generalize [FlashqStepLabel.booted, .call (.enqueue retriedMessage) (.ok .done)] = labels at st run
  generalize Progress.queued = p at st run
  rw [← List.append_nil (labels ++ [claimStep p])] at run
  have hu : (publishedIds (labels ++ [claimStep p] ++ [])).Nodup := by
    rw [List.append_nil, publishedIds_snoc_of_none rfl, st.ids]
    exact List.nodup_singleton _
  have hfit : AllFit smallConfig (labels ++ [claimStep p] ++ []) := by
    rw [List.append_nil]
    exact st.fit.snoc fun op hop => by
      cases hop
      trivial
  have hboots : BootsReturn (labels ++ [claimStep p] ++ []) := by
    rw [List.append_nil]
    exact st.boots.snoc fun _ => by simp [claimStep]
  obtain ⟨message, hmem, hid, _, _, _, _, hpay, _⟩ := claim_genuine run hu hfit hboots
    fun _ h => absurd h List.not_mem_nil
  exact ⟨labels, _, ctx', m', run, message, hmem, hid, hpay⟩

end Wrap

end EdgeSync
