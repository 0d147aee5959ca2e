/-
  Flashq/Subscan.lean --- a log that is scanned into a smaller index.

  The scan skips a message that finds the index full, and with it all that the log
  says of the message later.  What it indexes is then part of what the writer of
  the log had indexed: a message is missing exactly when the index was full where
  its record stands.
-/
import EdgeSync.Flashq.Replay

set_option autoImplicit false

namespace EdgeSync

open Foundation

variable {cfg : FlashqConfig}

/-! ## Two scans of one log -/

/-- The messages whose records are in the log. -/
def recordedIds (recs : List (Nat × RecordHdr)) : List UInt64 :=
  (recs.filter fun x => x.2.type = RecordType.message.code).map (·.2.messageId)

variable (cfg) in
/-- No message of the log finds the index full. -/
inductive Unrefused : List (Nat × RecordHdr) → Prop where
  | nil : Unrefused []
  | snoc {recs : List (Nat × RecordHdr)} {off : Nat} {h : RecordHdr} (before : Unrefused recs)
      (room : h.type = RecordType.message.code →
        (replay cfg recs).index.length < cfg.indexCapacity) : Unrefused (recs ++ [(off, h)])

/-- The messages an index of `n` entries admits, one record after the other. -/
def admitted (n : Nat) (recs : List (Nat × RecordHdr)) : List UInt64 :=
  recs.foldl (fun ids x =>
    if x.2.type = RecordType.message.code then
      if ids.length < n then ids ++ [x.2.messageId] else ids
    else if x.2.type = RecordType.update.code ∧ isFinal x.2.state = true then
      ids.erase x.2.messageId
    else ids) []

/-- Where the record of the message stands, fewer than `n` messages were admitted
and are not done. -/
def FindsRoom (n : Nat) (recs : List (Nat × RecordHdr)) (id : UInt64) : Prop :=
  ∀ before off h after, recs = before ++ (off, h) :: after → h.type = RecordType.message.code →
    h.messageId = id → (admitted n before).length < n

theorem erase_perm_swapRemove {index : List FlashqIndexEntry} {id : UInt64} {pos : Nat}
    (hpos : findEntry index id = some pos) :
    ((swapRemove index pos).map (·.id)).Perm ((index.map (·.id)).erase id) := by
  obtain ⟨e, he, rfl⟩ := findEntry_some hpos
  have hperm := (perm_swapRemove he).map (·.id)
  have herase := hperm.erase e.id
  rw [List.map_cons, List.erase_cons_head] at herase
  exact herase.symm

/-- The scan indexes the messages that are admitted. -/
theorem admitted_perm (recs : List (Nat × RecordHdr)) :
    ((replay cfg recs).index.map (·.id)).Perm (admitted cfg.indexCapacity recs) := by
  induction recs using List.reverseRecOn with
  | nil => exact .refl _
  | append_singleton recs x ih =>
    obtain ⟨off, h⟩ := x
    have hlen := ih.length_eq
    rw [List.length_map] at hlen
    rw [replay_snoc, admitted, List.foldl_append, ← admitted, List.foldl_cons, List.foldl_nil]
    by_cases htm : h.type = RecordType.message.code
    · rw [if_pos htm]
      by_cases hroom : (replay cfg recs).index.length < cfg.indexCapacity
      · rw [Replay.apply_message htm hroom, if_pos (by omega), List.map_append]
        exact ih.append_right _
      · rw [Replay.apply, if_pos htm, if_pos (Nat.le_of_not_lt hroom), if_neg (by omega)]
        exact ih
    rw [if_neg htm]
    by_cases htu : h.type = RecordType.update.code
    · cases hpos : findEntry (replay cfg recs).index h.messageId with
      | none =>
        have hnot : h.messageId ∉ admitted cfg.indexCapacity recs := by
          rw [← ih.mem_iff]
          intro hm
          obtain ⟨e, he, hid⟩ := List.mem_map.mp hm
          have := findPos_none hpos e he
          simp [hid] at this
        rw [Replay.apply, if_neg htm, if_pos htu, hpos, List.erase_of_not_mem hnot, ite_self]
        exact ih
      | some pos =>
        cases hs : isFinal h.state with
        | false =>
          rw [Replay.apply_update htu hpos hs, if_neg (by simp)]
          refine (List.Perm.of_eq ?_).trans ih
          exact map_modify_of_eq fun _ _ => rfl
        | true =>
          rw [Replay.apply_final htu hpos hs, if_pos ⟨htu, rfl⟩]
          exact (erase_perm_swapRemove hpos).trans (ih.erase _)
    · rw [Replay.apply, if_neg htm, if_neg htu, if_neg fun h => htu h.1]
      exact ih

theorem length_admitted (recs : List (Nat × RecordHdr)) :
    (admitted cfg.indexCapacity recs).length = (replay cfg recs).index.length := by
  rw [← (admitted_perm recs).length_eq, List.length_map]

/-- A scan with a smaller index: what it indexes, the other indexes as well. -/
structure Subscan (cfg' cfg : FlashqConfig) (recs : List (Nat × RecordHdr)) : Prop where
  ids : ((replay cfg recs).index.map (·.id)).Nodup
  ids' : ((replay cfg' recs).index.map (·.id)).Nodup
  recorded : ∀ e ∈ (replay cfg recs).index, e.id ∈ recordedIds recs
  subset : ∀ e ∈ (replay cfg' recs).index, e ∈ (replay cfg recs).index
  keeps : ∀ e ∈ (replay cfg recs).index,
    e.id ∈ (replay cfg' recs).index.map (·.id) ↔ FindsRoom cfg'.indexCapacity recs e.id

section Scans

variable {cfg' : FlashqConfig} {recs : List (Nat × RecordHdr)} {off : Nat} {h : RecordHdr}
  {id : UInt64}

theorem recordedIds_snoc (recs : List (Nat × RecordHdr)) (off : Nat) (h : RecordHdr) :
    recordedIds (recs ++ [(off, h)]) = recordedIds recs ++
      if h.type = RecordType.message.code then [h.messageId] else [] := by
  rw [recordedIds, List.filter_append, List.map_append, ← recordedIds, List.filter_cons]
  split <;> rename_i ht <;> simp_all

/-- The record after a log decides only on its own message. -/
theorem findsRoom_snoc {n : Nat} : FindsRoom n (recs ++ [(off, h)]) id ↔ FindsRoom n recs id ∧
    (h.type = RecordType.message.code → h.messageId = id → (admitted n recs).length < n) := by
  constructor
  · intro hr
    refine ⟨fun before o x after heq ht hid => ?_, fun ht hid => hr recs off h [] rfl ht hid⟩
    exact hr before o x (after ++ [(off, h)]) (by rw [heq, List.append_assoc, List.cons_append]) ht hid
  · rintro ⟨hr, hlast⟩ before o x after heq ht hid
    rcases List.eq_nil_or_concat after with rfl | ⟨after, y, rfl⟩
    · obtain ⟨rfl, hx⟩ := List.append_inj' heq rfl
      cases hx
      exact hlast ht hid
    · rw [List.concat_eq_append, ← List.cons_append, ← List.append_assoc] at heq
      obtain ⟨hrecs, _⟩ := List.append_inj' heq rfl
      exact hr before o x after hrecs ht hid

/-- A message without a record is never skipped. -/
theorem findsRoom_of_not_recorded {n : Nat} (h : id ∉ recordedIds recs) : FindsRoom n recs id := by
  rintro before off x after rfl ht rfl
  refine absurd (List.mem_map.mpr ⟨(off, x), List.mem_filter.mpr ⟨?_, ?_⟩, rfl⟩) h
  · exact List.mem_append_right _ List.mem_cons_self
  · simpa using ht

theorem Subscan.message (sub : Subscan cfg' cfg recs) (ht : h.type = RecordType.message.code)
    (hroom : (replay cfg recs).index.length < cfg.indexCapacity)
    (hnew : h.messageId ∉ recordedIds recs) : Subscan cfg' cfg (recs ++ [(off, h)]) := by
  have hnot : ∀ e ∈ (replay cfg recs).index, e.id ≠ h.messageId := fun e he heq =>
    hnew (heq ▸ sub.recorded e he)
  have hnot' : h.messageId ∉ (replay cfg' recs).index.map (·.id) := by
    intro hm
    obtain ⟨e, he, heq⟩ := List.mem_map.mp hm
    exact hnot e (sub.subset e he) heq
  have hlarge : (replay cfg (recs ++ [(off, h)])).index =
      (replay cfg recs).index ++ [h.indexEntry off] := by
    rw [replay_snoc, Replay.apply_message ht hroom]
  have hids : ((replay cfg recs).index ++ [h.indexEntry off]).map (·.id) =
      (replay cfg recs).index.map (·.id) ++ [h.messageId] := by
    rw [List.map_append]
    rfl
  have hnodup : ((replay cfg recs).index.map (·.id) ++ [h.messageId]).Nodup := by
    refine sub.ids.append (List.nodup_singleton _) fun id hid hid' => ?_
    obtain ⟨e, he, rfl⟩ := List.mem_map.mp hid
    exact hnot e he (List.mem_singleton.mp hid')
  -- the smaller index grows only where it has room
  by_cases hroom' : (replay cfg' recs).index.length < cfg'.indexCapacity
  · have hsmall : (replay cfg' (recs ++ [(off, h)])).index =
        (replay cfg' recs).index ++ [h.indexEntry off] := by
      rw [replay_snoc, Replay.apply_message ht hroom']
    have hids' : ((replay cfg' recs).index ++ [h.indexEntry off]).map (·.id) =
        (replay cfg' recs).index.map (·.id) ++ [h.messageId] := by
      rw [List.map_append]
      rfl
    refine ⟨by rwa [hlarge, hids], ?_, ?_, ?_, ?_⟩
    · rw [hsmall, hids']
      refine sub.ids'.append (List.nodup_singleton _) fun id hid hid' => ?_
      rw [List.mem_singleton.mp hid'] at hid
      exact hnot' hid
    · rw [hlarge, recordedIds_snoc, if_pos ht]
      intro e he
      rcases List.mem_append.mp he with he | he
      · exact List.mem_append_left _ (sub.recorded e he)
      · rw [List.mem_singleton.mp he]
        exact List.mem_append_right _ List.mem_cons_self
    · rw [hlarge, hsmall]
      intro e he
      rcases List.mem_append.mp he with he | he
      · exact List.mem_append_left _ (sub.subset e he)
      · exact List.mem_append_right _ he
    · rw [hlarge, hsmall, hids']
      intro e he
      rw [List.mem_append, List.mem_singleton, findsRoom_snoc, length_admitted]
      rcases List.mem_append.mp he with he | he
      · rw [sub.keeps e he]
        exact ⟨fun hk => ⟨hk.resolve_right (hnot e he), fun _ _ => hroom'⟩, fun hk => .inl hk.1⟩
      · obtain rfl := List.mem_singleton.mp he
        exact ⟨fun _ => ⟨findsRoom_of_not_recorded hnew, fun _ _ => hroom'⟩, fun _ => .inr rfl⟩
  · have hsmall : (replay cfg' (recs ++ [(off, h)])).index = (replay cfg' recs).index := by
      rw [replay_snoc, Replay.apply, if_pos ht, if_pos (Nat.le_of_not_lt hroom')]
    refine ⟨by rwa [hlarge, hids], by rw [hsmall]; exact sub.ids', ?_, ?_, ?_⟩
    · rw [hlarge, recordedIds_snoc, if_pos ht]
      intro e he
      rcases List.mem_append.mp he with he | he
      · exact List.mem_append_left _ (sub.recorded e he)
      · rw [List.mem_singleton.mp he]
        exact List.mem_append_right _ List.mem_cons_self
    · rw [hlarge, hsmall]
      exact fun e he => List.mem_append_left _ (sub.subset e he)
    · rw [hlarge, hsmall]
      intro e he
      rw [findsRoom_snoc, length_admitted]
      rcases List.mem_append.mp he with he | he
      · rw [sub.keeps e he]
        exact ⟨fun hk => ⟨hk, fun _ heq => absurd heq.symm (hnot e he)⟩, fun hk => hk.1⟩
      · obtain rfl := List.mem_singleton.mp he
        exact ⟨fun hk => absurd hk hnot', fun hk => absurd (hk.2 ht rfl) hroom'⟩

/-- An UPDATE record changes the entry of its message. -/
theorem mem_replay_update (hids : ((replay cfg recs).index.map (·.id)).Nodup)
    (ht : h.type = RecordType.update.code) (hs : isFinal h.state = false) {b : FlashqIndexEntry} :
    b ∈ (replay cfg (recs ++ [(off, h)])).index ↔
      (b ∈ (replay cfg recs).index ∧ b.id ≠ h.messageId) ∨
        ∃ a ∈ (replay cfg recs).index, a.id = h.messageId ∧ b = a.withProgress h.progress := by
  rw [replay_snoc]
  cases hpos : findEntry (replay cfg recs).index h.messageId with
  | none =>
    have hnone : ∀ a ∈ (replay cfg recs).index, a.id ≠ h.messageId := fun a ha heq => by
      have := findPos_none hpos a ha
      simp [heq] at this
    rw [Replay.apply, if_neg (by rw [ht]; decide), if_pos ht, hpos]
    constructor
    · exact fun hb => .inl ⟨hb, hnone b hb⟩
    · rintro (hb | ⟨a, ha, hid, _⟩)
      · exact hb.1
      · exact absurd hid (hnone a ha)
  | some pos =>
    rw [Replay.apply_update ht hpos hs]
    exact mem_modify_of_found hids hpos

/-- The record of a message that is done deletes its entry. -/
theorem mem_replay_final (hids : ((replay cfg recs).index.map (·.id)).Nodup)
    (ht : h.type = RecordType.update.code) (hs : isFinal h.state = true) {b : FlashqIndexEntry} :
    b ∈ (replay cfg (recs ++ [(off, h)])).index ↔
      b ∈ (replay cfg recs).index ∧ b.id ≠ h.messageId := by
  rw [replay_snoc]
  cases hpos : findEntry (replay cfg recs).index h.messageId with
  | none =>
    have hnone : ∀ a ∈ (replay cfg recs).index, a.id ≠ h.messageId := fun a ha heq => by
      have := findPos_none hpos a ha
      simp [heq] at this
    rw [Replay.apply, if_neg (by rw [ht]; decide), if_pos ht, hpos]
    exact ⟨fun hb => ⟨hb, hnone b hb⟩, fun hb => hb.1⟩
  | some pos =>
    rw [Replay.apply_final ht hpos hs]
    exact mem_swapRemove_of_found hids hpos

/-- What an UPDATE record leaves of the ids. -/
theorem ids_replay_update (ht : h.type = RecordType.update.code) (hs : isFinal h.state = false) :
    (replay cfg (recs ++ [(off, h)])).index.map (·.id) = (replay cfg recs).index.map (·.id) := by
  rw [replay_snoc]
  cases hpos : findEntry (replay cfg recs).index h.messageId with
  | none => rw [Replay.apply, if_neg (by rw [ht]; decide), if_pos ht, hpos]
  | some pos =>
    rw [Replay.apply_update ht hpos hs]
    exact map_modify_of_eq fun _ _ => rfl

theorem nodup_replay_final (hids : ((replay cfg recs).index.map (·.id)).Nodup)
    (ht : h.type = RecordType.update.code) (hs : isFinal h.state = true) :
    ((replay cfg (recs ++ [(off, h)])).index.map (·.id)).Nodup := by
  rw [replay_snoc]
  cases hpos : findEntry (replay cfg recs).index h.messageId with
  | none =>
    rw [Replay.apply, if_neg (by rw [ht]; decide), if_pos ht, hpos]
    exact hids
  | some pos =>
    obtain ⟨e, he, _⟩ := findEntry_some hpos
    rw [Replay.apply_final ht hpos hs]
    exact (((perm_swapRemove he).map _).nodup_iff.mp hids).of_cons

theorem findsRoom_snoc_of_ne {n : Nat} (ht : h.type ≠ RecordType.message.code) :
    FindsRoom n (recs ++ [(off, h)]) id ↔ FindsRoom n recs id := by
  rw [findsRoom_snoc]
  exact ⟨fun hr => hr.1, fun hr => ⟨hr, fun hm => absurd hm ht⟩⟩

theorem recordedIds_snoc_of_ne (ht : h.type ≠ RecordType.message.code) :
    recordedIds (recs ++ [(off, h)]) = recordedIds recs := by
  rw [recordedIds_snoc, if_neg ht, List.append_nil]

theorem Subscan.update (sub : Subscan cfg' cfg recs) (ht : h.type = RecordType.update.code)
    (hs : isFinal h.state = false) : Subscan cfg' cfg (recs ++ [(off, h)]) := by
  have htm : h.type ≠ RecordType.message.code := by
    rw [ht]
    decide
  -- every entry is an old one, or an old one changed
  have hold : ∀ b ∈ (replay cfg (recs ++ [(off, h)])).index,
      ∃ a ∈ (replay cfg recs).index, b.id = a.id := by
    intro b hb
    rcases (mem_replay_update sub.ids ht hs).mp hb with hb | ⟨a, ha, _, rfl⟩
    · exact ⟨b, hb.1, rfl⟩
    · exact ⟨a, ha, rfl⟩
  refine ⟨by rw [ids_replay_update ht hs]; exact sub.ids,
    by rw [ids_replay_update ht hs]; exact sub.ids', ?_, ?_, ?_⟩
  · intro b hb
    obtain ⟨a, ha, hid⟩ := hold b hb
    rw [recordedIds_snoc_of_ne htm, hid]
    exact sub.recorded a ha
  · intro b hb
    rw [mem_replay_update sub.ids ht hs]
    rcases (mem_replay_update sub.ids' ht hs).mp hb with hb | ⟨a, ha, hid, rfl⟩
    · exact .inl ⟨sub.subset b hb.1, hb.2⟩
    · exact .inr ⟨a, sub.subset a ha, hid, rfl⟩
  · intro b hb
    obtain ⟨a, ha, hid⟩ := hold b hb
    rw [ids_replay_update ht hs, findsRoom_snoc_of_ne htm, hid]
    exact sub.keeps a ha

theorem Subscan.final (sub : Subscan cfg' cfg recs) (ht : h.type = RecordType.update.code)
    (hs : isFinal h.state = true) : Subscan cfg' cfg (recs ++ [(off, h)]) := by
  have htm : h.type ≠ RecordType.message.code := by
    rw [ht]
    decide
  refine ⟨nodup_replay_final sub.ids ht hs, nodup_replay_final sub.ids' ht hs, ?_, ?_, ?_⟩
  · intro b hb
    rw [recordedIds_snoc_of_ne htm]
    exact sub.recorded b ((mem_replay_final sub.ids ht hs).mp hb).1
  · intro b hb
    obtain ⟨hb, hne⟩ := (mem_replay_final sub.ids' ht hs).mp hb
    exact (mem_replay_final sub.ids ht hs).mpr ⟨sub.subset b hb, hne⟩
  · intro b hb
    obtain ⟨hb, hne⟩ := (mem_replay_final sub.ids ht hs).mp hb
    rw [findsRoom_snoc_of_ne htm, ← sub.keeps b hb, List.mem_map, List.mem_map]
    constructor
    · rintro ⟨a, ha, hid⟩
      exact ⟨a, ((mem_replay_final sub.ids' ht hs).mp ha).1, hid⟩
    · rintro ⟨a, ha, hid⟩
      exact ⟨a, (mem_replay_final sub.ids' ht hs).mpr ⟨ha, by rwa [hid]⟩, hid⟩

/-- The log of a writer that refused nothing, scanned into another index. -/
theorem Unrefused.subscan (hun : Unrefused cfg recs) (hrec : (recordedIds recs).Nodup) :
    Subscan cfg' cfg recs := by
  induction hun with
  | nil => exact ⟨List.nodup_nil, List.nodup_nil, by simp, by simp, by simp⟩
  | @snoc recs off h before room ih =>
    rw [recordedIds_snoc] at hrec
    have sub := ih hrec.of_append_left
    by_cases htm : h.type = RecordType.message.code
    · refine sub.message htm (room htm) fun hm => ?_
      rw [if_pos htm] at hrec
      exact List.disjoint_of_nodup_append hrec hm List.mem_cons_self
    · by_cases htu : h.type = RecordType.update.code
      · cases hs : isFinal h.state with
        | false => exact sub.update htu hs
        | true => exact sub.final htu hs
      · have hsame : ∀ {c : FlashqConfig},
            (replay c (recs ++ [(off, h)])).index = (replay c recs).index := by
          intro c
          rw [replay_snoc, Replay.apply, if_neg htm, if_neg htu]
        refine ⟨by rw [hsame]; exact sub.ids, by rw [hsame]; exact sub.ids', ?_, ?_, ?_⟩
        · rw [hsame, recordedIds_snoc_of_ne htm]
          exact sub.recorded
        · rw [hsame, hsame]
          exact sub.subset
        · rw [hsame, hsame]
          intro e he
          rw [findsRoom_snoc_of_ne htm]
          exact sub.keeps e he

end Scans

end EdgeSync
