/-
  Flashq/Context.lean --- configuration and context of the flash-queue backend
  (`edgesync_storage_flashq.c`, its types and `edgesync_flashq_create`).

  What `edgesync_flashq_create` checks is carried by `FlashqConfig`, so a
  configuration the constructor would refuse cannot be written down.  The fields
  of `edgesync_flashq_ctx_t` that never change after the constructor are
  functions of the configuration; the others make up `FlashqCtx`.
-/
import Mathlib.Data.Fintype.Card
import EdgeSync.Foundation.Nor
import EdgeSync.Storage

set_option autoImplicit false

namespace EdgeSync

open Foundation

/-- `EDGESYNC_FLASHQ_SECTOR_SIZE`. -/
def sectorSize : Nat := 4096

/-- `EDGESYNC_FLASHQ_RESERVE_BYTES`. -/
def reserveBytes : Nat := sectorSize

/-- `data_start`. -/
def dataStart : Nat := sectorSize

/-- A partition and an `edgesync_flashq_config_t` that `edgesync_flashq_create`
accepts. -/
structure FlashqConfig where
  partitionSize : UInt32
  maxMessages : UInt32
  maxMessageSize : UInt32
  maxMessages_ne : maxMessages ≠ 0
  aligned : partitionSize.toNat % sectorSize = 0
  sectors : 4 ≤ partitionSize.toNat / sectorSize
  deriving DecidableEq, Repr

/-- The checks of `edgesync_flashq_create`. -/
def edgesyncFlashqCreate (partitionSize maxMessages maxMessageSize : UInt32) :
    Option FlashqConfig :=
  if h : maxMessages ≠ 0 ∧ partitionSize.toNat % sectorSize = 0 ∧
      4 ≤ partitionSize.toNat / sectorSize then
    some ⟨partitionSize, maxMessages, maxMessageSize, h.1, h.2.1, h.2.2⟩
  else none

namespace FlashqConfig

variable (cfg : FlashqConfig)

/-- `sectors_per_region`. -/
def sectorsPerRegion : Nat := cfg.partitionSize.toNat / sectorSize / 2

/-- `region_size`. -/
def regionSize : Nat := cfg.sectorsPerRegion * sectorSize

/-- `data_capacity`. -/
def dataCapacity : Nat := cfg.regionSize - dataStart

/-- `index_capacity`. -/
def indexCapacity : Nat := cfg.maxMessages.toNat

/-- `scratch_size`, i.e. `max_record_size`. -/
def scratchSize : Nat := recordTotalSize (UInt16.ofNat maxDestinationLen) cfg.maxMessageSize

/-- `region_offset`. -/
def regionOffset (region : Fin 2) : Nat := region.val * cfg.regionSize

/-- The flash part that holds the partition. -/
def device : Device FlashCall FlashReply Memory FlashEvent :=
  flashDevice cfg.partitionSize.toNat sectorSize

end FlashqConfig

/-- `flashq_index_entry_t`. -/
structure FlashqIndexEntry extends EntryMeta where
  messageOffset : UInt32
  deriving DecidableEq, Repr

/-- The changing part of `edgesync_flashq_ctx_t`.  `index` is the used part of
the array; its length is `index_count`. -/
structure FlashqCtx where
  activeRegion : Fin 2
  activeGeneration : UInt32
  cursor : Nat
  nextSeq : UInt32
  index : List FlashqIndexEntry
  writeScratch : Bytes
  verifyScratch : Bytes
  claimScratch : Bytes
  compactionsTotal : UInt32
  awaitingGcCount : UInt32
  updatesSinceCompaction : UInt32
  deriving DecidableEq, Repr

/-- The regions are numbered from 0. -/
instance twoRegions : NeZero 2 := ⟨Nat.succ_ne_zero 1⟩

/-- The context after `edgesync_flashq_create`: `calloc`ed, the scratch buffers
allocated (their contents are written before they are read). -/
def FlashqCtx.fresh (cfg : FlashqConfig) : FlashqCtx where
  activeRegion := 0
  activeGeneration := 0
  cursor := 0
  nextSeq := 0
  index := []
  writeScratch := List.replicate cfg.scratchSize 0
  verifyScratch := List.replicate cfg.scratchSize 0
  claimScratch := List.replicate cfg.scratchSize 0
  compactionsTotal := 0
  awaitingGcCount := 0
  updatesSinceCompaction := 0

/-- Programs of the backend: the mutex is held for the whole operation, so an
operation is one program. -/
abbrev FlashqM (α : Type) : Type := Prog FlashCall FlashReply FlashqCtx EspErr α

/-- `esp_partition_read`: the bytes, or nothing when it did not return `ESP_OK`. -/
def espPartitionRead (addr len : Nat) : FlashqM (Option Bytes) :=
  Prog.ask (FlashCall.read addr len)

/-- `esp_partition_write` returned `ESP_OK`. -/
def espPartitionWrite (addr : Nat) (data : Bytes) : FlashqM Bool :=
  Prog.ask (FlashCall.write addr data)

/-- `esp_partition_erase_range` returned `ESP_OK`. -/
def espPartitionEraseRange (addr len : Nat) : FlashqM Bool :=
  Prog.ask (FlashCall.erase addr len)

/-! ## Geometry -/

namespace FlashqConfig

variable (cfg : FlashqConfig)

theorem two_le_sectorsPerRegion : 2 ≤ cfg.sectorsPerRegion := by
  have h := cfg.sectors
  simp only [sectorsPerRegion]
  omega

/-- Both regions lie inside the partition. -/
theorem two_regions_le : 2 * cfg.regionSize ≤ cfg.partitionSize.toNat := by
  simp only [regionSize, sectorsPerRegion, sectorSize]
  omega

theorem dataStart_add_le : dataStart + sectorSize ≤ cfg.regionSize := by
  have h := cfg.two_le_sectorsPerRegion
  simp only [regionSize, dataStart, sectorSize]
  omega

theorem dataCapacity_eq : dataStart + cfg.dataCapacity = cfg.regionSize := by
  have h := cfg.dataStart_add_le
  simp only [dataCapacity, dataStart, sectorSize] at h ⊢
  omega

theorem regionSize_mod : cfg.regionSize % 4 = 0 := by
  simp only [regionSize, sectorSize]
  omega

theorem regionSize_lt : cfg.regionSize < 2 ^ 31 := by
  have h1 := cfg.two_regions_le
  have h2 := cfg.partitionSize.toNat_lt
  omega

/-- Offsets inside a region fit the `uint32_t` of an index entry. -/
theorem toNat_offset {off : Nat} (h : off ≤ cfg.regionSize) :
    (UInt32.ofNat off).toNat = off := by
  have hlt := cfg.regionSize_lt
  apply UInt32.toNat_ofNat_of_lt'
  simp only [UInt32.size]
  omega

/-- An access inside a region is inside the partition. -/
theorem regionOffset_add_le {r : Fin 2} {n : Nat} (h : n ≤ cfg.regionSize) :
    cfg.regionOffset r + n ≤ cfg.partitionSize.toNat := by
  have h2 := cfg.two_regions_le
  have hr : r.val ≤ 1 := Nat.le_of_lt_succ r.isLt
  have hmul : r.val * cfg.regionSize ≤ 1 * cfg.regionSize := Nat.mul_le_mul_right _ hr
  simp only [regionOffset]
  omega

end FlashqConfig

/-- The other region (`1 - region`). -/
theorem other_ne (r : Fin 2) : 1 - r ≠ r := by
  revert r
  decide

theorem other_other (r : Fin 2) : 1 - (1 - r) = r := by
  revert r
  decide

theorem eq_or_eq_other (r a : Fin 2) : r = a ∨ r = 1 - a := by
  revert r a
  decide

end EdgeSync
