/-
  Table.lean --- the queue both backends implement.

  The table of messages without their payloads, and what a call does to it.  Every
  error has one reason.  The order of the table does not show: from two tables with
  the same messages a call leads to the same reply and to tables with the same
  messages, as long as ids are unique and ages distinct.
-/
import EdgeSync.Selection
import EdgeSync.Calls

set_option autoImplicit false

namespace EdgeSync

open Foundation

/-! ## Calls -/

/-- A message without its payload. -/
def StoredMessage.heading (x : StoredMessage) : StoredMessage := { x with payload := [] }

@[simp] theorem StoredMessage.heading_toEntryMeta (x : StoredMessage) :
    x.heading.toEntryMeta = x.toEntryMeta := rfl

@[simp] theorem StoredMessage.heading_id (x : StoredMessage) : x.heading.id = x.id := rfl

/-- The table behind a queue. -/
def headings (q : List StoredMessage) : List StoredMessage := q.map StoredMessage.heading

@[simp] theorem metas_headings (q : List StoredMessage) : metas (headings q) = metas q := by
  rw [metas, headings, List.map_map]
  rfl

@[simp] theorem messageIds_headings (q : List StoredMessage) :
    messageIds (headings q) = messageIds q := by
  rw [messageIds, headings, List.map_map]
  rfl

@[simp] theorem length_headings (q : List StoredMessage) : (headings q).length = q.length :=
  List.length_map _

@[simp] theorem findMessage_headings (q : List StoredMessage) (id : UInt64) :
    findMessage (headings q) id = findMessage q id :=
  findPos_map StoredMessage.heading (fun x => x.id == id) q

theorem headings_getElem? {q : List StoredMessage} {pos : Nat} {x : StoredMessage}
    (h : q[pos]? = some x) : (headings q)[pos]? = some x.heading := by
  rw [headings, List.getElem?_map, h]
  rfl

theorem headings_append (q : List StoredMessage) (x : StoredMessage) :
    headings (q ++ [x]) = headings q ++ [x.heading] := by
  rw [headings, List.map_append]
  rfl

theorem headings_swapRemove (q : List StoredMessage) (pos : Nat) :
    headings (swapRemove q pos) = swapRemove (headings q) pos := map_swapRemove _ _ _

theorem headings_modify (q : List StoredMessage) (pos : Nat) {f : StoredMessage → StoredMessage}
    {g : Progress → Progress} (h : ∀ x, (f x).heading = x.heading.change g) :
    headings (q.modify pos f) = (headings q).modify pos (·.change g) := modify_map h q pos

/-- Why a call is refused. -/
inductive TableRefused (capacity : Nat) (encodes : EdgesyncMessage → Prop) (q : List EntryMeta) :
    StorageOp → EspErr → Prop where
  | full {message : EdgesyncMessage} (full : capacity ≤ q.length) :
      TableRefused capacity encodes q (.enqueue message) .queueFull
  | encoding {message : EdgesyncMessage} (room : q.length < capacity)
      (encoding : ¬ encodes message) :
      TableRefused capacity encodes q (.enqueue message) .serialization
  | idle {nowUs : Int64} (none : selectClaim nowUs q = none) :
      TableRefused capacity encodes q (.claimNext nowUs) .notFound
  | retire {op : StorageOp} {id : UInt64} {newState : FlashqState} (retires : Retires op id newState)
      (none : findMeta q id = none) : TableRefused capacity encodes q op .notFound
  | retry {id : UInt64} {nextRetryTimeUs : Int64} {deadLetter : Bool} {lastError : Int32}
      (none : findMeta q id = none) :
      TableRefused capacity encodes q (.scheduleRetry id nextRetryTimeUs deadLetter lastError)
        .notFound
  | candidate {policy : OverflowPolicy} (none : selectDrop policy q = none) :
      TableRefused capacity encodes q (.findDropCandidate policy) .notFound

/-- What a call does to the table. -/
inductive TableStep (capacity : Nat) (encodes : EdgesyncMessage → Prop) (q : List StoredMessage) :
    StorageOp → Except EspErr StorageReply → List StoredMessage → Prop where
  | refused {op : StorageOp} {err : EspErr} (why : TableRefused capacity encodes (metas q) op err) :
      TableStep capacity encodes q op (.error err) q
  | candidate {policy : OverflowPolicy} {pos : Nat} {x : StoredMessage}
      (selected : selectDrop policy (metas q) = some pos) (entry : q[pos]? = some x) :
      TableStep capacity encodes q (.findDropCandidate policy) (.ok (.candidate x.id)) q
  | stats {stats stats' : EdgesyncStats}
      (counted : StatsAgree stats' ((metas q).foldl EdgesyncStats.count stats)) :
      TableStep capacity encodes q (.getStats stats) (.ok (.stats stats')) q
  | enqueued {message : EdgesyncMessage} (room : q.length < capacity) (encoding : encodes message) :
      TableStep capacity encodes q (.enqueue message) (.ok .done)
        (q ++ [(StoredMessage.ofMessage message).heading])
  | claimed {nowUs : Int64} {pos off : Nat} {x : StoredMessage}
      (selected : selectClaim nowUs (metas q) = some pos) (entry : q[pos]? = some x) :
      TableStep capacity encodes q (.claimNext nowUs)
        (.ok (.claim (.claimed { x.claimedMessage nowUs with payloadOff := off })))
        (q.modify pos (·.change (Progress.claimed nowUs)))
  | retired {op : StorageOp} {id : UInt64} {newState : FlashqState} {pos : Nat}
      (retires : Retires op id newState) (found : findMessage q id = some pos) :
      TableStep capacity encodes q op (.ok .done) (swapRemove q pos)
  | retried {id : UInt64} {nextRetryTimeUs : Int64} {deadLetter : Bool} {lastError : Int32}
      {pos : Nat} (found : findMessage q id = some pos) :
      TableStep capacity encodes q (.scheduleRetry id nextRetryTimeUs deadLetter lastError)
        (.ok .done)
        (q.modify pos (·.change (Progress.retried nextRetryTimeUs deadLetter lastError)))

/-- Replies that differ at most in where the payload lies and in the usage of the
medium. -/
inductive RepliesAgree : Except EspErr StorageReply → Except EspErr StorageReply → Prop where
  | error (err : EspErr) : RepliesAgree (.error err) (.error err)
  | done : RepliesAgree (.ok .done) (.ok .done)
  | claimed {c c' : ClaimedMessage} (same : { c with payloadOff := 0 } = { c' with payloadOff := 0 }) :
      RepliesAgree (.ok (.claim (.claimed c))) (.ok (.claim (.claimed c')))
  | candidate (id : UInt64) : RepliesAgree (.ok (.candidate id)) (.ok (.candidate id))
  | stats {stats stats' : EdgesyncStats} (same : StatsAgree stats stats') :
      RepliesAgree (.ok (.stats stats)) (.ok (.stats stats'))

/-! ## The order does not show -/

section Perm

variable {capacity : Nat} {encodes : EdgesyncMessage → Prop} {q q' q1 q2 q1' q2' : List StoredMessage}
  {op : StorageOp} {r1 r2 : Except EspErr StorageReply}

theorem findMeta_queue (q : List StoredMessage) (id : UInt64) :
    findMeta (metas q) id = findMessage q id :=
  findPos_map (fun x : StoredMessage => x.toEntryMeta) (fun e => e.id == id) q

/-- With unique ids an id finds the same message in both tables. -/
theorem findMessage_perm (hperm : q1.Perm q2) (hids : (messageIds q1).Nodup) (id : UInt64) :
    (findMessage q1 id = none ∧ findMessage q2 id = none) ∨
    ∃ pos1 pos2 x, findMessage q1 id = some pos1 ∧ findMessage q2 id = some pos2 ∧
      q1[pos1]? = some x ∧ q2[pos2]? = some x := by
  have hnone : ∀ {l l' : List StoredMessage}, l.Perm l' → findMessage l id = none →
      findMessage l' id = none := by
    intro l l' hp h
    cases h' : findMessage l' id with
    | none => rfl
    | some pos =>
      obtain ⟨x, hx, hid⟩ := findPos_some h'
      have := findPos_none h x (hp.mem_iff.mpr (List.mem_of_getElem? hx))
      rw [this] at hid
      exact absurd hid (by simp)
  cases h1 : findMessage q1 id with
  | none => exact .inl ⟨rfl, hnone hperm h1⟩
  | some pos1 =>
    cases h2 : findMessage q2 id with
    | none =>
      rw [hnone hperm.symm h2] at h1
      exact absurd h1 (by simp)
    | some pos2 =>
      obtain ⟨x, hx, hxid⟩ := findPos_some h1
      obtain ⟨y, hy, hyid⟩ := findPos_some h2
      have hxy : x = y := by
        refine List.inj_on_of_nodup_map hids (List.mem_of_getElem? hx)
          (hperm.mem_iff.mpr (List.mem_of_getElem? hy)) ?_
        rw [eq_of_beq hxid, eq_of_beq hyid]
      exact .inr ⟨pos1, pos2, x, rfl, rfl, hx, hxy ▸ hy⟩

theorem selectClaim_lt {nowUs : Int64} {index : List EntryMeta} {pos : Nat}
    (h : selectClaim nowUs index = some pos) : ∃ e, index[pos]? = some e := by
  obtain ⟨e, he, _⟩ := pick_some h
  exact ⟨e, he⟩

theorem selectDrop_lt {policy : OverflowPolicy} {index : List EntryMeta} {pos : Nat}
    (h : selectDrop policy index = some pos) : ∃ e, index[pos]? = some e := by
  obtain ⟨e, he, _⟩ := pick_some h
  exact ⟨e, he⟩

/-- A selection finds the same message in both tables. -/
theorem selected_perm {select : List EntryMeta → Option Nat} (hperm : q1.Perm q2)
    (hids : (messageIds q1).Nodup)
    (hsame : (select (metas q1)).bind ((metas q1)[·]?) = (select (metas q2)).bind ((metas q2)[·]?))
    (hlt : ∀ {l pos}, select l = some pos → ∃ e, l[pos]? = some e) :
    (select (metas q1) = none ∧ select (metas q2) = none) ∨
    ∃ pos1 pos2 x, select (metas q1) = some pos1 ∧ select (metas q2) = some pos2 ∧
      q1[pos1]? = some x ∧ q2[pos2]? = some x := by
  cases h1 : select (metas q1) with
  | none =>
    cases h2 : select (metas q2) with
    | none => exact .inl ⟨rfl, rfl⟩
    | some pos2 =>
      obtain ⟨e, he⟩ := hlt h2
      rw [h1, h2] at hsame
      exact absurd (hsame.trans he) (by simp)
  | some pos1 =>
    obtain ⟨e1, he1⟩ := hlt h1
    cases h2 : select (metas q2) with
    | none =>
      rw [h1, h2] at hsame
      exact absurd (he1.symm.trans hsame) (by simp)
    | some pos2 =>
      rw [h1, h2] at hsame
      have hsame : (metas q1)[pos1]? = (metas q2)[pos2]? := hsame
      rw [metas, metas, List.getElem?_map, List.getElem?_map] at hsame
      rw [metas, List.getElem?_map] at he1
      obtain ⟨x, hx, _⟩ := Option.map_eq_some_iff.mp he1
      rw [hx] at hsame
      obtain ⟨y, hy, hxy⟩ := Option.map_eq_some_iff.mp hsame.symm
      have hxy : x = y := by
        refine List.inj_on_of_nodup_map hids (List.mem_of_getElem? hx)
          (hperm.mem_iff.mpr (List.mem_of_getElem? hy)) ?_
        exact (congrArg EntryMeta.id hxy).symm
      exact .inr ⟨pos1, pos2, x, rfl, rfl, hx, hxy ▸ hy⟩


/-- A refusal has one error code. -/
theorem TableRefused.unique {index : List EntryMeta} {err err' : EspErr}
    (h : TableRefused capacity encodes index op err)
    (h' : TableRefused capacity encodes index op err') : err = err' := by
  cases h with
  | full full =>
    cases h' with
    | full => rfl
    | encoding room => exact absurd room (Nat.not_lt.mpr full)
    | retire retires => cases retires
  | encoding room =>
    cases h' with
    | full full => exact absurd room (Nat.not_lt.mpr full)
    | encoding => rfl
    | retire retires => cases retires
  | idle =>
    cases h' with
    | idle => rfl
    | retire retires => cases retires
  | retire retires =>
    cases h' with
    | retire => rfl
    | _ => cases retires
  | retry =>
    cases h' with
    | retry => rfl
    | retire retires => cases retires
  | candidate =>
    cases h' with
    | candidate => rfl
    | retire retires => cases retires

/-- Where one table refuses a call the other does. -/
theorem TableRefused.perm {err : EspErr} (h : TableRefused capacity encodes (metas q1) op err)
    (hperm : q1.Perm q2) (hids : (messageIds q1).Nodup) (hages : DistinctAges (metas q1)) :
    TableRefused capacity encodes (metas q2) op err := by
  have hlen : (metas q1).length = (metas q2).length := by
    rw [metas, metas, List.length_map, List.length_map, hperm.length_eq]
  have hmetas : (metas q1).Perm (metas q2) := hperm.map _
  have hfind : ∀ {id}, findMeta (metas q1) id = none → findMeta (metas q2) id = none := by
    intro id h
    rw [findMeta_queue] at h ⊢
    rcases findMessage_perm hperm hids id with ⟨_, h2⟩ | ⟨_, _, _, h1, _⟩
    · exact h2
    · rw [h1] at h
      exact absurd h (by simp)
  cases h with
  | full full => exact .full (hlen ▸ full)
  | encoding room encoding => exact .encoding (hlen ▸ room) encoding
  | idle none =>
    refine .idle ?_
    rcases selected_perm hperm hids (selectClaim_perm hmetas hages) selectClaim_lt with
      ⟨_, h2⟩ | ⟨_, _, _, h1, _⟩
    · exact h2
    · rw [h1] at none
      exact absurd none (by simp)
  | retire retires none => exact .retire retires (hfind none)
  | retry none => exact .retry (hfind none)
  | candidate none =>
    refine .candidate ?_
    rcases selected_perm hperm hids (selectDrop_perm hmetas hages) selectDrop_lt with
      ⟨_, h2⟩ | ⟨_, _, _, h1, _⟩
    · exact h2
    · rw [h1] at none
      exact absurd none (by simp)

/-- A call that is refused does nothing else. -/
theorem TableRefused.not_ok {err : EspErr} {reply : StorageReply}
    (h : TableRefused capacity encodes (metas q) op err) :
    ¬ TableStep capacity encodes q op (.ok reply) q' := by
  intro step
  cases step with
  | candidate selected entry =>
    cases h with
    | candidate none => simp [none] at selected
    | retire retires => cases retires
  | stats =>
    cases h with
    | retire retires => cases retires
  | enqueued room encoding =>
    cases h with
    | full full =>
      rw [metas, List.length_map] at full
      exact absurd room (Nat.not_lt.mpr full)
    | encoding _ h => exact h encoding
    | retire retires => cases retires
  | claimed selected entry =>
    cases h with
    | idle none => simp [none] at selected
    | retire retires => cases retires
  | retired retires found =>
    rw [← findMeta_queue] at found
    cases h with
    | retire retires' none =>
      cases retires <;> cases retires' <;> simp [none] at found
    | _ => cases retires
  | retried found =>
    rw [← findMeta_queue] at found
    cases h with
    | retry none => simp [none] at found
    | retire retires => cases retires

/-- The same selection leads to the same message. -/
theorem selected_agree {select : List EntryMeta → Option Nat} {pos1 pos2 : Nat}
    {x1 x2 : StoredMessage} (hperm : q1.Perm q2) (hids : (messageIds q1).Nodup)
    (hsame : (select (metas q1)).bind ((metas q1)[·]?) = (select (metas q2)).bind ((metas q2)[·]?))
    (hlt : ∀ {l pos}, select l = some pos → ∃ e, l[pos]? = some e)
    (h1 : select (metas q1) = some pos1) (hx1 : q1[pos1]? = some x1)
    (h2 : select (metas q2) = some pos2) (hx2 : q2[pos2]? = some x2) : x1 = x2 := by
  rcases selected_perm hperm hids hsame hlt with ⟨hnone, _⟩ | ⟨p1, p2, x, hp1, hp2, hy1, hy2⟩
  · rw [hnone] at h1
    exact absurd h1 (by simp)
  · obtain rfl := Option.some.inj (hp1.symm.trans h1)
    obtain rfl := Option.some.inj (hp2.symm.trans h2)
    exact (Option.some.inj (hx1.symm.trans hy1)).trans (Option.some.inj (hy2.symm.trans hx2))

/-- The same id leads to the same message. -/
theorem found_agree {id : UInt64} {pos1 pos2 : Nat} (hperm : q1.Perm q2)
    (hids : (messageIds q1).Nodup) (h1 : findMessage q1 id = some pos1)
    (h2 : findMessage q2 id = some pos2) : ∃ x, q1[pos1]? = some x ∧ q2[pos2]? = some x := by
  rcases findMessage_perm hperm hids id with ⟨hnone, _⟩ | ⟨p1, p2, x, hp1, hp2, hx1, hx2⟩
  · rw [hnone] at h1
    exact absurd h1 (by simp)
  · obtain rfl := Option.some.inj (hp1.symm.trans h1)
    obtain rfl := Option.some.inj (hp2.symm.trans h2)
    exact ⟨x, hx1, hx2⟩

theorem Retires.unique {id id' : UInt64} {newState newState' : FlashqState}
    (h : Retires op id newState) (h' : Retires op id' newState') : id = id' := by
  cases h <;> cases h' <;> rfl

/-- An error is a refusal. -/
theorem TableStep.of_error {err : EspErr} (step : TableStep capacity encodes q op (.error err) q') :
    TableRefused capacity encodes (metas q) op err ∧ q' = q := by
  cases step with
  | refused why => exact ⟨why, rfl⟩

/-- Two calls that return `ESP_OK` return the same. -/
theorem TableStep.agree_ok {reply1 reply2 : StorageReply}
    (step1 : TableStep capacity encodes q1 op (.ok reply1) q1')
    (step2 : TableStep capacity encodes q2 op (.ok reply2) q2') (hperm : q1.Perm q2)
    (hids : (messageIds q1).Nodup) (hages : DistinctAges (metas q1)) :
    RepliesAgree (.ok reply1) (.ok reply2) ∧ q1'.Perm q2' := by
  have hmetas : (metas q1).Perm (metas q2) := hperm.map _
  cases step1 with
  | candidate selected entry =>
    cases step2 with
    | candidate selected' entry' =>
      obtain rfl := selected_agree hperm hids (selectDrop_perm hmetas hages) selectDrop_lt selected
        entry selected' entry'
      exact ⟨.candidate _, hperm⟩
    | retired retires => cases retires
  | stats counted =>
    cases step2 with
    | stats counted' =>
      rw [← count_perm hmetas] at counted'
      exact ⟨.stats (counted.trans counted'.symm), hperm⟩
    | retired retires => cases retires
  | enqueued =>
    cases step2 with
    | enqueued => exact ⟨.done, hperm.append_right _⟩
    | retired retires => cases retires
  | claimed selected entry =>
    cases step2 with
    | claimed selected' entry' =>
      obtain rfl := selected_agree hperm hids (selectClaim_perm hmetas hages) selectClaim_lt selected
        entry selected' entry'
      exact ⟨.claimed rfl, modify_perm hperm entry entry'⟩
    | retired retires => cases retires
  | retired retires found =>
    cases step2 with
    | retired retires' found' =>
      obtain rfl := retires.unique retires'
      obtain ⟨x, hx, hx'⟩ := found_agree hperm hids found found'
      exact ⟨.done, swapRemove_perm hperm hx hx'⟩
    | _ => cases retires
  | retried found =>
    cases step2 with
    | retried found' =>
      obtain ⟨x, hx, hx'⟩ := found_agree hperm hids found found'
      exact ⟨.done, modify_perm hperm hx hx'⟩
    | retired retires => cases retires

/-- From two tables with the same messages a call leads to the same reply, and to
tables with the same messages. -/
theorem TableStep.agree (step1 : TableStep capacity encodes q1 op r1 q1')
    (step2 : TableStep capacity encodes q2 op r2 q2') (hperm : q1.Perm q2)
    (hids : (messageIds q1).Nodup) (hages : DistinctAges (metas q1)) :
    RepliesAgree r1 r2 ∧ q1'.Perm q2' := by
  have hidsPerm : (messageIds q1).Perm (messageIds q2) := hperm.map _
  have hmetas : (metas q1).Perm (metas q2) := hperm.map _
  have hids2 : (messageIds q2).Nodup := hidsPerm.nodup_iff.mp hids
  have hages2 : DistinctAges (metas q2) := (hmetas.map _).nodup_iff.mp hages
  cases r1 with
  | error err1 =>
    obtain ⟨why1, rfl⟩ := step1.of_error
    cases r2 with
    | error err2 =>
      obtain ⟨why2, rfl⟩ := step2.of_error
      obtain rfl := (why1.perm hperm hids hages).unique why2
      exact ⟨.error _, hperm⟩
    | ok reply2 => exact absurd step2 (why1.perm hperm hids hages).not_ok
  | ok reply1 =>
    cases r2 with
    | error err2 =>
      obtain ⟨why2, rfl⟩ := step2.of_error
      exact absurd step1 (why2.perm hperm.symm hids2 hages2).not_ok
    | ok reply2 => exact step1.agree_ok step2 hperm hids hages

end Perm

end EdgeSync
