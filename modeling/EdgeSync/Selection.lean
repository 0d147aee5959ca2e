/-
  Selection.lean --- the selection loops do not depend on the order of the index.

  Both loops look for a best entry under a strict order that ends with the age, so
  where no two messages were created at the same time they find the same message
  in whatever order the entries are.
-/
import EdgeSync.Spec

set_option autoImplicit false

namespace EdgeSync

open Foundation

namespace EntryMeta

variable {a b c : EntryMeta} {policy : OverflowPolicy}

theorem claimedBefore_iff : claimedBefore a b = true ↔
    b.priority.toNat < a.priority.toNat ∨
    a.priority.toNat = b.priority.toNat ∧
      (a.nextRetryAtUs.toInt < b.nextRetryAtUs.toInt ∨
        a.nextRetryAtUs.toInt = b.nextRetryAtUs.toInt ∧
          a.createdAtUs.toInt < b.createdAtUs.toInt) := by
  simp only [claimedBefore, Bool.or_eq_true, Bool.and_eq_true, decide_eq_true_eq, beq_iff_eq,
    UInt8.lt_iff_toNat_lt, Int64.lt_iff_toInt_lt, ← UInt8.toNat_inj, ← Int64.toInt_inj]
  omega

theorem claimedBefore_trans (a b c : EntryMeta) (h1 : claimedBefore a b = true)
    (h2 : claimedBefore b c = true) : claimedBefore a c = true := by
  rw [claimedBefore_iff] at *
  omega

theorem claimedBefore_irrefl (a : EntryMeta) : claimedBefore a a = false := by
  rw [← Bool.not_eq_true, claimedBefore_iff]
  omega

/-- The age decides at last. -/
theorem claimedBefore_total (h : a.createdAtUs ≠ b.createdAtUs) :
    claimedBefore a b = true ∨ claimedBefore b a = true := by
  rw [claimedBefore_iff, claimedBefore_iff]
  have hne : a.createdAtUs.toInt ≠ b.createdAtUs.toInt := fun heq => h (Int64.toInt_inj.mp heq)
  omega

theorem droppedBefore_iff : droppedBefore policy a b = true ↔
    (policy = .dropLowestPriority ∧
      (a.priority.toNat < b.priority.toNat ∨
        a.priority.toNat = b.priority.toNat ∧ a.createdAtUs.toInt < b.createdAtUs.toInt)) ∨
    (policy ≠ .dropLowestPriority ∧ a.createdAtUs.toInt < b.createdAtUs.toInt) := by
  cases policy <;>
    simp [droppedBefore, UInt8.lt_iff_toNat_lt, Int64.lt_iff_toInt_lt, ← UInt8.toNat_inj]

theorem droppedBefore_trans (policy : OverflowPolicy) (a b c : EntryMeta)
    (h1 : droppedBefore policy a b = true) (h2 : droppedBefore policy b c = true) :
    droppedBefore policy a c = true := by
  rw [droppedBefore_iff] at *
  rcases h1 with ⟨hp, h1⟩ | ⟨hp, h1⟩
  · rcases h2 with ⟨_, h2⟩ | ⟨hp', _⟩
    · exact .inl ⟨hp, by omega⟩
    · exact absurd hp hp'
  · rcases h2 with ⟨hp', _⟩ | ⟨_, h2⟩
    · exact absurd hp' hp
    · exact .inr ⟨hp, by omega⟩

theorem droppedBefore_irrefl (policy : OverflowPolicy) (a : EntryMeta) :
    droppedBefore policy a a = false := by
  rw [← Bool.not_eq_true, droppedBefore_iff]
  omega

theorem droppedBefore_total (policy : OverflowPolicy) (h : a.createdAtUs ≠ b.createdAtUs) :
    droppedBefore policy a b = true ∨ droppedBefore policy b a = true := by
  rw [droppedBefore_iff, droppedBefore_iff]
  have hne : a.createdAtUs.toInt ≠ b.createdAtUs.toInt := fun heq => h (Int64.toInt_inj.mp heq)
  by_cases hp : policy = .dropLowestPriority
  · rcases Int.lt_or_gt_of_ne hne with hlt | hlt
    · rcases Nat.lt_or_ge b.priority.toNat a.priority.toNat with hprio | hprio
      · exact .inr (.inl ⟨hp, by omega⟩)
      · exact .inl (.inl ⟨hp, by omega⟩)
    · rcases Nat.lt_or_ge a.priority.toNat b.priority.toNat with hprio | hprio
      · exact .inl (.inl ⟨hp, by omega⟩)
      · exact .inr (.inl ⟨hp, by omega⟩)
  · rcases Int.lt_or_gt_of_ne hne with hlt | hlt
    · exact .inl (.inr ⟨hp, hlt⟩)
    · exact .inr (.inr ⟨hp, hlt⟩)

end EntryMeta

/-- No two entries are of the same age. -/
def DistinctAges (index : List EntryMeta) : Prop := (index.map (·.createdAtUs)).Nodup

/-- Entries of distinct ages are equal or of different ages. -/
theorem DistinctAges.eq_or_ne {index : List EntryMeta} (h : DistinctAges index) :
    ∀ a ∈ index, ∀ b ∈ index, a = b ∨ a.createdAtUs ≠ b.createdAtUs := by
  intro a ha b hb
  by_cases heq : a.createdAtUs = b.createdAtUs
  · exact .inl (List.inj_on_of_nodup_map h ha hb heq)
  · exact .inr heq

theorem selectClaim_perm {index index' : List EntryMeta} {nowUs : Int64}
    (hperm : index.Perm index') (h : DistinctAges index) :
    (selectClaim nowUs index).bind (index[·]?) = (selectClaim nowUs index').bind (index'[·]?) :=
  pick_perm EntryMeta.claimedBefore_trans EntryMeta.claimedBefore_irrefl hperm fun a ha b hb =>
    (h.eq_or_ne a ha b hb).imp_right EntryMeta.claimedBefore_total

theorem selectDrop_perm {index index' : List EntryMeta} {policy : OverflowPolicy}
    (hperm : index.Perm index') (h : DistinctAges index) :
    (selectDrop policy index).bind (index[·]?) = (selectDrop policy index').bind (index'[·]?) :=
  pick_perm (EntryMeta.droppedBefore_trans policy) (EntryMeta.droppedBefore_irrefl policy) hperm
    fun a ha b hb => (h.eq_or_ne a ha b hb).imp_right (EntryMeta.droppedBefore_total policy)

/-! ## Counting -/

/-- What `op_get_stats` counts. -/
structure StatsAgree (stats stats' : EdgesyncStats) : Prop where
  pending : stats.pendingMessages = stats'.pendingMessages
  retrying : stats.retryingMessages = stats'.retryingMessages
  inFlight : stats.inFlightMessages = stats'.inFlightMessages
  deadLetter : stats.deadLetterMessages = stats'.deadLetterMessages
  bytesQueued : stats.bytesQueued = stats'.bytesQueued

theorem StatsAgree.symm {stats stats' : EdgesyncStats} (h : StatsAgree stats stats') :
    StatsAgree stats' stats :=
  ⟨h.pending.symm, h.retrying.symm, h.inFlight.symm, h.deadLetter.symm, h.bytesQueued.symm⟩

theorem StatsAgree.trans {stats stats' stats'' : EdgesyncStats} (h : StatsAgree stats stats')
    (h' : StatsAgree stats' stats'') : StatsAgree stats stats'' :=
  ⟨h.pending.trans h'.pending, h.retrying.trans h'.retrying, h.inFlight.trans h'.inFlight,
    h.deadLetter.trans h'.deadLetter, h.bytesQueued.trans h'.bytesQueued⟩

theorem count_comm (stats : EdgesyncStats) (a b : EntryMeta) :
    (stats.count a).count b = (stats.count b).count a := by
  have hbytes : stats.bytesQueued + a.payloadLen.toUInt64 + b.payloadLen.toUInt64 =
      stats.bytesQueued + b.payloadLen.toUInt64 + a.payloadLen.toUInt64 := by
    rw [UInt64.add_assoc, UInt64.add_comm a.payloadLen.toUInt64, ← UInt64.add_assoc]
  unfold EdgesyncStats.count
  split_ifs <;> simp [hbytes]

/-- The counters do not depend on the order of the index. -/
theorem count_perm {index index' : List EntryMeta} (h : index.Perm index') (stats : EdgesyncStats) :
    index.foldl EdgesyncStats.count stats = index'.foldl EdgesyncStats.count stats := by
  have hcomm : RightCommutative EdgesyncStats.count := ⟨count_comm⟩
  exact h.foldl_eq stats

end EdgeSync
