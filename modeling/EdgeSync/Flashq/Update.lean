/-
  Flashq/Update.lean --- `append_state_update_locked`: one UPDATE record.

  `progressHdr` is the record; on the messages of a log it acts as `progressTo`.
  The fields of an entry may be staged before the record is written, so in
  between the index is not the replay of the log.  `LensEq` says how far the two
  agree, `Staged` that they will agree again once the record at one position is
  there.
-/
import EdgeSync.Flashq.Append

set_option autoImplicit false

namespace EdgeSync

open Foundation

variable {cfg : FlashqConfig} {R : Regime cfg}

/-! ## The record -/

/-- The UPDATE record that carries `p`. -/
def progressHdr (id : UInt64) (p : Progress) (seq : UInt32) : RecordHdr :=
  updateHdr id p.state p.attemptCount p.lastAttemptAtUs p.nextRetryAtUs p.lastError seq

@[simp] theorem progressHdr_progress (id : UInt64) (p : Progress) (seq : UInt32) :
    (progressHdr id p seq).progress = p := rfl

@[simp] theorem progressHdr_messageId (id : UInt64) (p : Progress) (seq : UInt32) :
    (progressHdr id p seq).messageId = id := rfl

@[simp] theorem progressHdr_seq (id : UInt64) (p : Progress) (seq : UInt32) :
    (progressHdr id p seq).seq = seq := rfl

@[simp] theorem progressHdr_totalSize (id : UInt64) (p : Progress) (seq : UInt32) :
    (progressHdr id p seq).totalSize = updateSize := rfl

@[simp] theorem progressHdr_bodyBytes (id : UInt64) (p : Progress) (seq : UInt32) :
    (progressHdr id p seq).bodyBytes = 0 := rfl

theorem sealed_progressHdr (id : UInt64) (p : Progress) (seq : UInt32) :
    (progressHdr id p seq).Sealed := RecordHdr.sealed_seal _ 0 0

theorem ids_of_keys {es fs : List FlashqIndexEntry}
    (hk : es.map FlashqIndexEntry.key = fs.map FlashqIndexEntry.key) :
    es.map (·.id) = fs.map (·.id) := by
  have h := congrArg (List.map fun k => k.1.1) hk
  simpa [List.map_map, FlashqIndexEntry.key, EntryMeta.identity, Function.comp_def] using h

/-- Looking an id up in an index and in its messages. -/
theorem findEntry_contents (v : Memory) (index : List FlashqIndexEntry) (id : UInt64) :
    findMessage (contents v index) id = findEntry index id :=
  findPos_map (contentOf v) (fun s => s.id == id) index

/-- The record acts on the entries as `progressTo` acts on the messages. -/
theorem Replay.apply_progressHdr (r : Replay) (off : Nat) (id : UInt64) (p : Progress)
    (seq : UInt32) :
    r.apply cfg off (progressHdr id p seq) =
      match findEntry r.index id with
      | none => r
      | some pos =>
          if isFinal p.state then ⟨swapRemove r.index pos, r.awaitingGcCount + 1⟩
          else { r with index := r.index.modify pos (·.withProgress p) } := by
  cases hpos : findEntry r.index id with
  | none =>
    have ht : (progressHdr id p seq).type = RecordType.update.code := rfl
    simp only [Replay.apply, ht, progressHdr_messageId, hpos]
    rfl
  | some pos =>
    cases hs : isFinal p.state with
    | false => exact Replay.apply_update rfl hpos hs
    | true => exact Replay.apply_final rfl hpos hs

theorem contents_apply_progressHdr (v : Memory) (r : Replay) (off : Nat) (id : UInt64)
    (p : Progress) (seq : UInt32) :
    contents v (r.apply cfg off (progressHdr id p seq)).index =
      progressTo id p (contents v r.index) := by
  rw [Replay.apply_progressHdr, progressTo, findEntry_contents]
  cases hpos : findEntry r.index id with
  | none => rfl
  | some pos =>
    cases hs : isFinal p.state with
    | true => exact contents_swapRemove v r.index pos
    | false => exact contents_modify v r.index pos fun _ => p

/-- A replayed UPDATE record that keeps the entry keeps the keys. -/
theorem keys_apply_progressHdr {r : Replay} {p : Progress} (hs : isFinal p.state = false)
    (off : Nat) (id : UInt64) (seq : UInt32) :
    (r.apply cfg off (progressHdr id p seq)).index.map FlashqIndexEntry.key =
      r.index.map FlashqIndexEntry.key := by
  rw [Replay.apply_progressHdr]
  cases findEntry r.index id with
  | none => rfl
  | some pos =>
    simp only [hs]
    exact map_modify_of_eq fun _ _ => rfl

/-- A replayed UPDATE record moves no record. -/
theorem mem_apply_progressHdr {r : Replay} {off : Nat} {id : UInt64} {p : Progress} {seq : UInt32}
    {x : FlashqIndexEntry} (hx : x ∈ (r.apply cfg off (progressHdr id p seq)).index) :
    ∃ y ∈ r.index, x.key = y.key := by
  rw [Replay.apply_progressHdr] at hx
  cases hpos : findEntry r.index id with
  | none => exact ⟨x, by simpa only [hpos] using hx, rfl⟩
  | some pos =>
    cases hs : isFinal p.state with
    | true =>
      simp only [hpos, hs, if_true] at hx
      exact ⟨x, mem_of_mem_swapRemove hx, rfl⟩
    | false =>
      simp only [hpos, hs] at hx
      rcases mem_of_mem_modify hx with hx | ⟨y, hy, rfl⟩
      · exact ⟨x, hx, rfl⟩
      · exact ⟨y, List.mem_of_getElem? hy, rfl⟩

theorem liveBytes_apply_progressHdr_le (r : Replay) (off : Nat) (id : UInt64) (p : Progress)
    (seq : UInt32) :
    liveBytes (r.apply cfg off (progressHdr id p seq)).index ≤ liveBytes r.index := by
  rw [Replay.apply_progressHdr]
  cases hpos : findEntry r.index id with
  | none => exact Nat.le_refl _
  | some pos =>
    cases hs : isFinal p.state with
    | true =>
      obtain ⟨e, he, _⟩ := findEntry_some hpos
      have := liveBytes_swapRemove he
      simp only [if_true]
      omega
    | false =>
      exact Nat.le_of_eq (liveBytes_modify r.index pos fun _ => p)

/-! ## How far the index agrees with the log -/

/-- The two indexes look alike. -/
def LensEq {β : Type} (L : Lens β) (A B : List FlashqIndexEntry) : Prop :=
  A.map (fun e => L.get e.toEntryMeta) = B.map (fun e => L.get e.toEntryMeta)

/-- They will look alike as soon as the entry at `pos` is given any progress. -/
def Staged {β : Type} (L : Lens β) (pos : Nat) (A B : List FlashqIndexEntry) : Prop :=
  ∀ p, LensEq L (A.modify pos (·.withProgress p)) (B.modify pos (·.withProgress p))

section Agreement

variable {β : Type} {L : Lens β} {A B : List FlashqIndexEntry} {pos : Nat}

theorem LensEq.refl (L : Lens β) (A : List FlashqIndexEntry) : LensEq L A A := rfl

theorem LensEq.length (h : LensEq L A B) : A.length = B.length := by
  simpa using congrArg List.length h

theorem LensEq.getElem? (h : LensEq L A B) {i : Nat} {a : FlashqIndexEntry} (ha : A[i]? = some a) :
    ∃ b, B[i]? = some b ∧ L.get a.toEntryMeta = L.get b.toEntryMeta := by
  have hi := congrArg (·[i]?) h
  simp only [List.getElem?_map, ha, Option.map_some] at hi
  obtain ⟨b, hb, heq⟩ := Option.map_eq_some_iff.mp hi.symm
  exact ⟨b, hb, heq.symm⟩

theorem LensEq.of_getElem? (hlen : A.length = B.length)
    (h : ∀ (i : Nat) (a b : FlashqIndexEntry), A[i]? = some a → B[i]? = some b →
      L.get a.toEntryMeta = L.get b.toEntryMeta) :
    LensEq L A B := by
  apply List.ext_getElem (by simpa using hlen)
  intro i h1 h2
  rw [List.length_map] at h1 h2
  simpa using h i _ _ (List.getElem?_eq_getElem h1) (List.getElem?_eq_getElem h2)

/-- The ids are the same. -/
theorem LensEq.ids (h : LensEq L A B) : A.map (·.id) = B.map (·.id) := by
  apply List.ext_getElem (by simpa using h.length)
  intro i h1 h2
  rw [List.length_map] at h1 h2
  obtain ⟨b, hb, heq⟩ := h.getElem? (List.getElem?_eq_getElem h1)
  have hid := L.id_eq _ _ heq
  have hb' : B[i] = b := (List.getElem?_eq_some_iff.mp hb).2
  simpa [hb'] using hid

theorem findEntry_eq_ids (index : List FlashqIndexEntry) (id : UInt64) :
    findEntry index id = findPos (fun i => i == id) (index.map (·.id)) :=
  (findPos_map (fun e : FlashqIndexEntry => e.id) (fun i => i == id) index).symm

theorem findEntry_congr (h : A.map (·.id) = B.map (·.id)) (id : UInt64) :
    findEntry A id = findEntry B id := by
  rw [findEntry_eq_ids, findEntry_eq_ids, h]

theorem LensEq.staged (h : LensEq L A B) (pos : Nat) : Staged L pos A B := by
  intro p
  refine LensEq.of_getElem? (by simpa using h.length) ?_
  intro i a b ha hb
  rw [List.getElem?_modify] at ha hb
  obtain ⟨a', ha', rfl⟩ := Option.map_eq_some_iff.mp ha
  obtain ⟨b', hb', rfl⟩ := Option.map_eq_some_iff.mp hb
  obtain ⟨b'', hb'', heq⟩ := h.getElem? ha'
  obtain rfl := Option.some.inj (hb'.symm.trans hb'')
  split
  · exact L.progress_eq p _ _ heq
  · exact heq

/-- Staging a change. -/
theorem Staged.modify (h : Staged L pos A B) (s : FlashqIndexEntry → Progress) :
    Staged L pos (A.modify pos fun e => e.withProgress (s e)) B := by
  intro p
  have hm : (A.modify pos fun e => e.withProgress (s e)).modify pos (·.withProgress p) =
      A.modify pos (·.withProgress p) := by
    rw [List.modify_modify_eq]
    rfl
  rw [hm]
  exact h p

theorem LensEq.map_swapRemove (h : LensEq L A B) (pos : Nat) :
    LensEq L (swapRemove A pos) (swapRemove B pos) := by
  rw [LensEq, Foundation.map_swapRemove, Foundation.map_swapRemove, h]

/-- An entry that leaves takes its staged fields with it. -/
theorem Staged.swapRemove (h : Staged L pos A B) :
    LensEq L (swapRemove A pos) (swapRemove B pos) := by
  have hr := (h Progress.queued).map_swapRemove pos
  rwa [swapRemove_modify, swapRemove_modify] at hr

theorem LensEq.symm (h : LensEq L A B) : LensEq L B A := Eq.symm h

theorem LensEq.trans {C : List FlashqIndexEntry} (h : LensEq L A B) (h' : LensEq L B C) :
    LensEq L A C := Eq.trans h h'

end Agreement

/-! ## Writing the record -/

variable (R) in
/-- The record for `p` was written, and the entry at `pos` has the progress. -/
structure Updated (c1 : Core) (m1 : Memory) (pos : Nat) (id : UInt64) (p : Progress) (c2 : Core)
    (m2 : Memory) : Prop where
  written : Written R m1 c1.region c1.cursor (progressHdr id p c1.nextSeq) [] m2
  core_eq : c2 =
    { c1 with
      cursor := c1.cursor + updateSize
      nextSeq := c1.nextSeq + 1
      index := c1.index.modify pos (·.withProgress p) }
  room : liveBytes c1.index + updateSize + updateSize ≤ cfg.dataCapacity

/-- The records after an UPDATE record. -/
def updatedRecs (c : Core) (recs : List (Nat × RecordHdr)) (id : UInt64) (p : Progress) :
    List (Nat × RecordHdr) := recs ++ [(c.cursor, progressHdr id p c.nextSeq)]

namespace Updated

variable {c1 c2 : Core} {m1 m2 : Memory} {recs : List (Nat × RecordHdr)} {pos : Nat} {id : UInt64}
  {p : Progress}

theorem keys (u : Updated R c1 m1 pos id p c2 m2) :
    c2.index.map FlashqIndexEntry.key = c1.index.map FlashqIndexEntry.key := by
  rw [u.core_eq]
  exact map_modify_of_eq fun _ _ => rfl

theorem grown (u : Updated R c1 m1 pos id p c2 m2) (b : Base R c1 m1 recs) :
    Grown R c2 m2 (updatedRecs c1 recs id p) := by
  have g := b.toGrown.append u.written (c1.nextSeq + 1)
  have hlive := liveBytes_modify c1.index pos fun _ => p
  have hkeys := u.keys
  rw [u.core_eq] at hkeys ⊢
  exact ⟨g.active, g.generation, g.spare, g.spare_blank, g.log, g.tail,
    located_of_keys hkeys.symm g.located, by rw [hlive]; exact g.fit⟩

/-- The messages of the index. -/
theorem contents_index (u : Updated R c1 m1 pos id p c2 m2) (b : Base R c1 m1 recs) :
    contents (view cfg m2 c2.region) c2.index =
      (contents (view cfg m1 c1.region) c1.index).modify pos (·.change fun _ => p) := by
  have hloc := b.located
  have hc := contents_congr (u.written.before.mono (Nat.zero_le _) (Nat.le_refl _)) hloc
  rw [u.core_eq]
  exact (contents_modify _ c1.index pos fun _ => p).trans (by rw [hc])

/-- A record that keeps the entry. -/
theorem base (u : Updated R c1 m1 pos id p c2 m2) (b : Base R c1 m1 recs)
    (hs : isFinal p.state = false) : Base R c2 m2 (updatedRecs c1 recs id p) := by
  refine ⟨u.grown b, ?_⟩
  rw [updatedRecs, replay_snoc, keys_apply_progressHdr hs, u.keys, b.same]

/-- The replay, for a record that keeps the entry. -/
theorem replay_eq (b : Base R c1 m1 recs) (hpos : findEntry c1.index id = some pos)
    (hs : isFinal p.state = false) :
    replay cfg (updatedRecs c1 recs id p) =
      { replay cfg recs with index := (replay cfg recs).index.modify pos (·.withProgress p) } := by
  rw [updatedRecs, replay_snoc, Replay.apply_progressHdr,
    ← findEntry_congr (ids_of_keys b.same) id, hpos]
  simp only [hs]
  rfl

/-- The replay, for a record that ends the message. -/
theorem replay_final (b : Base R c1 m1 recs) (hpos : findEntry c1.index id = some pos)
    (hs : isFinal p.state = true) :
    replay cfg (updatedRecs c1 recs id p) =
      ⟨swapRemove (replay cfg recs).index pos, (replay cfg recs).awaitingGcCount + 1⟩ := by
  rw [updatedRecs, replay_snoc, Replay.apply_progressHdr,
    ← findEntry_congr (ids_of_keys b.same) id, hpos]
  simp only [hs]
  rfl

/-- The index agrees with the log again. -/
theorem lensEq {β : Type} {L : Lens β} (u : Updated R c1 m1 pos id p c2 m2) (b : Base R c1 m1 recs)
    (hpos : findEntry c1.index id = some pos) (hs : isFinal p.state = false)
    (h : Staged L pos c1.index (replay cfg recs).index) :
    LensEq L c2.index (replay cfg (updatedRecs c1 recs id p)).index := by
  rw [replay_eq b hpos hs, u.core_eq]
  exact h p

end Updated

/-- A context after `remove_entry_at`. -/
def Core.retired (c : Core) (pos : Nat) : Core :=
  { c with
    index := swapRemove c.index pos
    awaitingGcCount := c.awaitingGcCount + 1 }

namespace Updated

variable {c1 c2 : Core} {m1 m2 : Memory} {recs : List (Nat × RecordHdr)} {pos : Nat} {id : UInt64}
  {p : Progress}

theorem retired_index (u : Updated R c1 m1 pos id p c2 m2) :
    (c2.retired pos).index = swapRemove c1.index pos := by
  rw [u.core_eq]
  exact swapRemove_modify _ _ _

/-- A record that ends the message, and the removal of the entry. -/
theorem retired (u : Updated R c1 m1 pos id p c2 m2) (b : Base R c1 m1 recs)
    (hpos : findEntry c1.index id = some pos) (hs : isFinal p.state = true) :
    Base R (c2.retired pos) m2 (updatedRecs c1 recs id p) := by
  have g := u.grown b
  obtain ⟨e, he, _⟩ := findEntry_some hpos
  have he2 : c2.index[pos]? = some (e.withProgress p) := by
    rw [u.core_eq]
    simp only [List.getElem?_modify, if_true, he]
    rfl
  have hlive := liveBytes_swapRemove he2
  have hfit := g.fit
  refine ⟨⟨g.active, g.generation, g.spare, g.spare_blank, g.log, g.tail,
    fun x hx => g.located x (mem_of_mem_swapRemove hx), ?_⟩, ?_⟩
  · show liveBytes (swapRemove c2.index pos) + updateSize ≤ cfg.dataCapacity
    omega
  · rw [replay_final b hpos hs, u.retired_index, map_swapRemove, map_swapRemove, b.same]

theorem retired_lensEq {β : Type} {L : Lens β} (u : Updated R c1 m1 pos id p c2 m2)
    (b : Base R c1 m1 recs) (hpos : findEntry c1.index id = some pos) (hs : isFinal p.state = true)
    (h : Staged L pos c1.index (replay cfg recs).index) :
    LensEq L (c2.retired pos).index (replay cfg (updatedRecs c1 recs id p)).index := by
  rw [replay_final b hpos hs, u.retired_index]
  exact h.swapRemove

theorem retired_contents (u : Updated R c1 m1 pos id p c2 m2) (b : Base R c1 m1 recs) :
    contents (view cfg m2 c2.region) (c2.retired pos).index =
      swapRemove (contents (view cfg m1 c1.region) c1.index) pos := by
  show contents (view cfg m2 c2.region) (swapRemove c2.index pos) = _
  rw [contents_swapRemove, u.contents_index b, swapRemove_modify]

end Updated

/-! ## The programs -/

variable (cfg) in
/-- What a queue may look like after a power cut while an UPDATE record for `p`
is being written. -/
structure UpdateQueues (Q : List StoredMessage → Prop) (v : Memory)
    (recs : List (Nat × RecordHdr)) (index : List FlashqIndexEntry) (id : UInt64) (p : Progress) :
    Prop where
  log : Q (contents v (replay cfg recs).index)
  ram : Q (contents v index)
  log_progress : Q (progressTo id p (contents v (replay cfg recs).index))
  ram_progress : Q (progressTo id p (contents v index))

section Programs

variable {ctx : FlashqCtx} {m : Memory} {recs : List (Nat × RecordHdr)} {pos : Nat} {id : UInt64}
  {p : Progress} {Q : List StoredMessage → Prop}

theorem Moved.queues {c c1 : Core} {m1 : Memory} {recs1 : List (Nat × RecordHdr)}
    (mv : Moved R c m recs c1 m1 recs1) (hroom : c.index.length ≤ cfg.indexCapacity)
    (hQ : UpdateQueues cfg Q (view cfg m c.region) recs c.index id p) :
    UpdateQueues cfg Q (view cfg m1 c1.region) recs1 c1.index id p := by
  have hc := mv.contents_eq
  rcases mv.how with ⟨rfl, rfl, rfl⟩ | ⟨rfl, rfl⟩
  · exact hQ
  · have hlog := congrArg Replay.index (replay_of_compacted hroom)
    refine ⟨?_, ?_, ?_, ?_⟩
    · rw [hlog, hc]
      exact hQ.ram
    · rw [hc]
      exact hQ.ram
    · rw [hlog, hc]
      exact hQ.ram_progress
    · rw [hc]
      exact hQ.ram_progress

/-- An interrupted UPDATE leaves an image. -/
theorem Base.image_of_update {c : Core} {m' : Memory} (b : Base R c m recs)
    (hQ : Q (contents (view cfg m c.region) (replay cfg recs).index))
    (hQp : Q (progressTo id p (contents (view cfg m c.region) (replay cfg recs).index)))
    (al : AppendLeft R m c.region c.cursor (progressHdr id p c.nextSeq) [] m') :
    Image R m' Q := by
  refine b.image_of_append hQ al fun _ _ => ?_
  have hlow := al.before.mono (Nat.zero_le dataStart) (Nat.le_refl _)
  have hstored := located_of_keys b.same b.located
  have hfit := b.fit
  have hlive := liveBytes_congr (identities_of_keys b.same)
  refine ⟨fun x hx => ?_, ?_, ?_⟩
  · obtain ⟨y, hy, hkey⟩ := mem_apply_progressHdr hx
    exact (((hstored y hy).of_key hkey).congr hlow).mono (Nat.le_add_right _ _)
  · have := @liveBytes_apply_progressHdr_le cfg (replay cfg recs) c.cursor id p c.nextSeq
    omega
  · rw [contents_apply_progressHdr, contents_congr hlow hstored]
    exact hQp

/-- Encoding the record and appending it. -/
theorem wp_writeUpdate {K : Unit → FlashqCtx → Memory → Prop}
    {E : EspErr → FlashqCtx → Memory → Prop} {C : Memory → Prop} (b : Base R ctx.core m recs)
    (hfit : ctx.cursor + updateSize ≤ cfg.regionSize)
    (hQ : Q (contents (view cfg m ctx.activeRegion) (replay cfg recs).index))
    (hQp : Q (progressTo id p (contents (view cfg m ctx.activeRegion) (replay cfg recs).index)))
    (hok : ∀ ctx2 m2,
      Written R m ctx.activeRegion ctx.cursor (progressHdr id p ctx.nextSeq) [] m2 →
      ctx2.core = { ctx.core with cursor := ctx.cursor + updateSize, nextSeq := ctx.nextSeq + 1 } →
      K () ctx2 m2)
    (hbad : R.lossy → ∀ ctx2 m2, Spoilt R m ctx.activeRegion ctx.cursor m2 →
      ctx2.core = ctx.core → E .storage ctx2 m2)
    (herr : R.mayFail → ∀ err ctx' m', Image R m' Q → E err ctx' m')
    (hcut : ∀ m', Image R m' Q → C m') :
    wp cfg.device R.env
      (encodeToWriteScratch fun buf => encodeUpdate buf cfg.scratchSize id p.state p.attemptCount
        p.lastAttemptAtUs p.nextRetryAtUs p.lastError ctx.nextSeq)
      ⟨fun len s d => wp cfg.device R.env (appendLocked cfg s.writeScratch len) ⟨K, E, C⟩ s d, E, C⟩
      ctx m := by
  refine wp_encodeToWriteScratch (encodeUpdate_eq (updateSize_le_scratch cfg)) ?_
  dsimp only
  have himage := fun m' (al : AppendLeft R m ctx.activeRegion ctx.cursor
    (progressHdr id p ctx.nextSeq) [] m') => b.image_of_update hQ hQp al
  refine wp_appendLocked (h := progressHdr id p ctx.nextSeq) b.toGrown
    (sealed_progressHdr _ _ _) rfl hfit (take_recordBytes rfl rfl) ?_ ?_ ?_ ?_
  · intro vs m2 w
    exact hok _ _ w rfl
  · intro hl vs m2 sp
    exact hbad hl _ _ sp rfl
  · intro hmay m2 al
    exact herr hmay _ _ _ (himage m2 al)
  · intro m2 al
    exact hcut _ (himage m2 al)

theorem wp_entryAt {P : Post FlashqCtx Memory EspErr FlashqIndexEntry} {e : FlashqIndexEntry}
    {env : Env FlashCall Memory FlashEvent} (he : ctx.index[pos]? = some e) (hok : P.ok e ctx m) :
    wp cfg.device env (entryAt pos) P ctx m := by
  unfold entryAt
  simp only [Prog.bind_eq, wp_bind, wp_read, he, Prog.pure_eq, wp_ret]
  exact hok

/-- The entry at a position after space was made. -/
theorem Moved.getElem? {c c1 : Core} {m1 : Memory} {recs1 : List (Nat × RecordHdr)}
    {e : FlashqIndexEntry} (mv : Moved R c m recs c1 m1 recs1) (he : c.index[pos]? = some e) :
    ∃ e1, c1.index[pos]? = some e1 ∧ e1.toEntryMeta = e.toEntryMeta := by
  have h := congrArg (·[pos]?) mv.metas
  simp only [List.getElem?_map, he, Option.map_some] at h
  obtain ⟨e1, he1, hm⟩ := Option.map_eq_some_iff.mp h
  exact ⟨e1, he1, hm⟩

theorem core_assign_eq {c1 : Core} {e : FlashqIndexEntry} (f : FlashqIndexEntry → FlashqIndexEntry)
    (he : c1.index[pos]? = some e) (hf : f e = e.withProgress p) :
    c1.index.modify pos f = c1.index.modify pos (·.withProgress p) := by
  rw [modify_of_getElem? he, modify_of_getElem? he, hf]

/-- `append_state_update_locked`. -/
theorem wp_appendStateUpdateLocked {P : Post FlashqCtx Memory EspErr Unit} {e : FlashqIndexEntry}
    {newState : FlashqState} (b : Base R ctx.core m recs) (he : ctx.index[pos]? = some e)
    (hp : p = { e.progress with state := newState.code })
    (hQ : UpdateQueues cfg Q (view cfg m ctx.activeRegion) recs ctx.index e.id p)
    (hok : ∀ (ctx1 : FlashqCtx) m1 recs1 (ctx2 : FlashqCtx) m2, Moved R ctx.core m recs ctx1.core m1 recs1 →
      Updated R ctx1.core m1 pos e.id p ctx2.core m2 → P.ok () ctx2 m2)
    (hfull : ∀ (ctx1 : FlashqCtx) m1 recs1, Moved R ctx.core m recs ctx1.core m1 recs1 →
      ctx1.core = ctx.core.compacted → recs1 = compactedRecs ctx.nextSeq ctx.index →
      cfg.dataCapacity < liveBytes ctx.index + updateSize + updateSize → P.error .storage ctx1 m1)
    (hbad : R.lossy → ∀ (ctx1 : FlashqCtx) m1 recs1 (ctx2 : FlashqCtx) m2,
      Moved R ctx.core m recs ctx1.core m1 recs1 →
      Spoilt R m1 ctx1.activeRegion ctx1.cursor m2 → ctx2.core = ctx1.core →
      P.error .storage ctx2 m2)
    (herr : R.mayFail → ∀ err ctx' m', Image R m' Q → P.error err ctx' m')
    (hcut : ∀ m', Image R m' Q → P.cut m') :
    wp cfg.device R.env (appendStateUpdateLocked cfg pos newState) P ctx m := by
  unfold appendStateUpdateLocked
  simp only [Prog.bind_eq, wp_bind, wp_read]
  refine wp_ensureSpaceLocked (Q := Q) b hQ.log hQ.ram ?_ hfull herr hcut
  intro ctx1 m1 recs1 mv hroom hlive
  obtain ⟨e1, he1, hmeta⟩ := mv.getElem? (c := ctx.core) he
  have hQ1 := mv.queues b.room hQ
  refine wp_entryAt he1 ?_
  have hargs : e1.id = e.id ∧ p.state = newState.code ∧ p.attemptCount = e1.attemptCount ∧
      p.lastAttemptAtUs = e1.lastAttemptAtUs ∧ p.nextRetryAtUs = e1.nextRetryAtUs ∧
      p.lastError = e1.lastError := by
    rw [hp, hmeta]
    exact ⟨rfl, rfl, rfl, rfl, rfl, rfl⟩
  obtain ⟨hid, hstate, hcount, hlast, hnext, herror⟩ := hargs
  dsimp only
  rw [hid, ← hstate, ← hcount, ← hlast, ← hnext, ← herror]
  refine wp_writeUpdate (Q := Q) mv.base hroom hQ1.log hQ1.log_progress ?_
    (fun hl ctx2 m2 sp hc => hbad hl _ _ _ _ _ mv sp hc) herr hcut
  intro ctx2 m2 w hcore
  unfold assignEntry
  simp only [wp_modify]
  have hsame : liveBytes ctx1.core.index = liveBytes ctx.core.index := mv.liveBytes_eq
  refine hok _ _ _ _ _ mv ⟨w, ?_, by rw [hsame]; exact hlive⟩
  have hf : { e1 with state := p.state } = e1.withProgress p := by
    rw [FlashqIndexEntry.withProgress, EntryMeta.withProgress, hcount, hlast, hnext, herror]
  have hidx : ctx2.index = ctx1.index := congrArg Core.index hcore
  have hmod := core_assign_eq (fun e => { e with state := p.state }) he1 hf
  have hcur : ctx2.cursor = ctx1.cursor + updateSize := congrArg Core.cursor hcore
  have hseq : ctx2.nextSeq = ctx1.nextSeq + 1 := congrArg Core.nextSeq hcore
  have hreg : ctx2.activeRegion = ctx1.activeRegion := congrArg Core.region hcore
  have hgen : ctx2.activeGeneration = ctx1.activeGeneration := congrArg Core.generation hcore
  have hgc : ctx2.awaitingGcCount = ctx1.awaitingGcCount := congrArg Core.awaitingGcCount hcore
  have hclaim : ctx2.claimScratch = ctx1.claimScratch := congrArg Core.claimScratch hcore
  simp only [FlashqCtx.core] at hmod ⊢
  rw [hidx, hmod, hcur, hseq, hreg, hgen, hgc, hclaim]

end Programs

end EdgeSync
