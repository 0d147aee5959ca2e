/-
  Api/Ownership.lean --- what the handles own.

  Every part of a handle owns what it was made of.  Creating it with any allocation failing
  leaves nothing behind but the one handle of the NVS backend, and tearing it down releases
  every object once.
-/
import EdgeSync.Api.Lifecycle
import EdgeSync.Foundation.Runs
import Mathlib.Tactic.Abel

set_option autoImplicit false

namespace EdgeSync

open Foundation

/-! ## What is owned -/

/-- What `edgesync_flashq_destroy` releases. -/
def FlashqObjects.memory (s : FlashqObjects) : Multiset (Object Resource) :=
  {s.ctx} + s.index.held + s.writeScratch.held + s.verifyScratch.held + s.claimScratch.held

/-- What `edgesync_nvs_storage_destroy` releases. -/
def NvsObjects.memory (s : NvsObjects) : Multiset (Object Resource) :=
  {s.ctx} + s.slotUsed.held + s.index.held + s.scratch.held + s.claimScratch.held

/-- What a storage owns. -/
def StorageObjects.held : StorageObjects → Multiset (Object Resource)
  | .flashq s => s.memory + s.lock.held
  | .nvs s => s.memory + {s.handle} + s.lock.held
  | .custom => 0

/-- What a transport owns. -/
def TransportObjects.held : TransportObjects → Multiset (Object Resource)
  | .http ctx => {ctx}
  | .custom _ => 0

/-- What the queue owns. -/
def QueueObjects.held (q : QueueObjects) : Multiset (Object Resource) := {q.queue} + {q.lock}

/-- What a worker owns. -/
def WorkerObjects.held (w : WorkerObjects) : Multiset (Object Resource) :=
  {w.worker} + {w.stoppedSem} + {w.task}

/-- What a worker owns, where there is one. -/
def heldWorker : Option WorkerObjects → Multiset (Object Resource)
  | none => 0
  | some w => w.held

/-- What a handle owns. -/
def EdgesyncHandle.held (h : EdgesyncHandle) : Multiset (Object Resource) :=
  {h.ctx} + h.storage.held + h.transport.held + h.queue.held + heldWorker h.worker

/-- A storage that was not initialized has no mutex. -/
def StorageObjects.Fresh : StorageObjects → Prop
  | .flashq s => s.lock = none
  | .nvs s => s.lock = none
  | .custom => True

/-- The handle that the NVS backend leaves open when it runs out of memory. -/
def Leaks (storage : EdgesyncStorageType) (err : ApiErr) (leaked : Multiset (Object Resource)) :
    Prop :=
  leaked = 0 ∨ storage = .nvs ∧ err = .noMem ∧ ∃ handle : Object Resource,
    handle.kind = .nvsHandle ∧ leaked = {handle}

/-! ## Tearing down -/

section Specs

variable {d : Objects Resource} {frame : Multiset (Object Resource)} {α : Type}
  {config : EdgesyncInitConfig} {ctx : Object Resource} {storage : StorageObjects}
  {transport : TransportObjects}

variable (frame) in
theorem wp_storageDestroy {P : Post Unit (Objects Resource) ApiErr Unit}
    (h : d.Owns (storage.held + frame)) (hP : ∀ d', d'.Owns frame → P.ok () () d') :
    wp (objectDevice Resource) anyEvent (edgesyncStorageDestroy storage) P () d := by
  unfold edgesyncStorageDestroy
  refine wp_bind.mpr ?_
  cases storage with
  | flashq s =>
    refine wp_releaseAll (s.memory + frame) (h.congr ?_) fun d' hd' =>
      wp_releaseAll frame (hd'.congr ?_) hP
    · simp only [StorageObjects.held, List.map_cons, List.map_nil, List.sum_cons, List.sum_nil]
      abel
    · simp only [FlashqObjects.memory, List.map_cons, List.map_nil, List.sum_cons, List.sum_nil,
        Pointer.held_some]
      abel
  | nvs s =>
    refine wp_releaseAll (s.memory + frame) (h.congr ?_) fun d' hd' =>
      wp_releaseAll frame (hd'.congr ?_) hP
    · simp only [StorageObjects.held, List.map_cons, List.map_nil, List.sum_cons, List.sum_nil,
        Pointer.held_some]
      abel
    · simp only [NvsObjects.memory, List.map_cons, List.map_nil, List.sum_cons, List.sum_nil,
        Pointer.held_some]
      abel
  | custom => exact wp_ret.mpr (wp_ret.mpr (hP d (h.congr (zero_add frame))))

variable (frame) in
theorem wp_transportDestroy {P : Post Unit (Objects Resource) ApiErr Unit}
    (h : d.Owns (transport.held + frame)) (hP : ∀ d', d'.Owns frame → P.ok () () d') :
    wp (objectDevice Resource) anyEvent (edgesyncTransportDestroy transport) P () d := by
  cases transport with
  | http ctx =>
    refine wp_releaseAll frame (h.congr ?_) hP
    simp [TransportObjects.held]
  | custom hasInit => exact wp_ret.mpr (hP d (h.congr (zero_add frame)))

variable (frame) in
theorem wp_queueDestroy {q : QueueObjects} {P : Post Unit (Objects Resource) ApiErr Unit}
    (h : d.Owns (q.held + frame)) (hP : ∀ d', d'.Owns frame → P.ok () () d') :
    wp (objectDevice Resource) anyEvent (edgesyncQueueDestroy q) P () d := by
  refine wp_releaseAll frame (h.congr ?_) hP
  simp only [QueueObjects.held, List.map_cons, List.map_nil, List.sum_cons, List.sum_nil,
    Pointer.held_some]
  abel

/-- Giving up releases what was made until then. -/
theorem wp_initUndo {err : ApiErr} {P : Post Unit (Objects Resource) ApiErr α}
    (h : d.Owns ({ctx} + storage.held + transport.held + frame))
    (hP : ∀ d', d'.Owns frame → P.error err () d') :
    wp (objectDevice Resource) anyEvent (initUndo ctx storage transport err : ApiProg α) P () d := by
  unfold initUndo
  refine wp_bind.mpr (wp_transportDestroy (storage.held + ({ctx} + frame))
    (h.congr (by abel)) fun d1 h1 => ?_)
  refine wp_bind.mpr (wp_storageDestroy ({ctx} + frame) h1 fun d2 h2 => ?_)
  exact wp_bind.mpr (wp_release h2 fun d3 h3 => wp_fail.mpr (hP d3 h3))

/-! ## Creating -/

theorem wp_flashqCreate {P : Post Unit (Objects Resource) ApiErr FlashqObjects} (h : d.Owns frame)
    (hok : ∀ s d', s.lock = none → d'.Owns (s.memory + frame) → P.ok s () d')
    (herror : ∀ err d', d'.Owns frame → P.error err () d') :
    wp (objectDevice Resource) anyEvent (flashqCreate config) P () d := by
  unfold flashqCreate
  split
  · exact wp_fail.mpr (herror _ d h)
  · refine wp_bind.mpr (wp_require h (fun ctx d1 h1 => ?_) (herror _))
    refine wp_bind.mpr (wp_acquire h1 fun index d2 _ h2 => ?_)
    refine wp_bind.mpr (wp_acquire h2 fun writeScratch d3 _ h3 => ?_)
    refine wp_bind.mpr (wp_acquire h3 fun verifyScratch d4 _ h4 => ?_)
    refine wp_bind.mpr (wp_acquire h4 fun claimScratch d5 _ h5 => ?_)
    refine wp_ite.mpr ⟨fun _ => wp_bind.mpr (wp_releaseAll frame (h5.congr ?_) fun d6 h6 =>
      wp_fail.mpr (herror _ d6 h6)), fun _ => wp_ret.mpr (hok _ d5 rfl (h5.congr ?_))⟩
    · simp only [List.map_cons, List.map_nil, List.sum_cons, List.sum_nil, Pointer.held_some]
      abel
    · simp only [FlashqObjects.memory]
      abel

theorem wp_nvsCreate {P : Post Unit (Objects Resource) ApiErr NvsObjects} (h : d.Owns frame)
    (hok : ∀ s d', s.lock = none → d'.Owns (s.memory + {s.handle} + frame) → P.ok s () d')
    (herror : ∀ err d' leaked, Leaks .nvs err leaked → d'.Owns (leaked + frame) →
      P.error err () d') :
    wp (objectDevice Resource) anyEvent (nvsCreate config) P () d := by
  have hclean : ∀ err d', d'.Owns frame → P.error err () d' := fun err d' hd' =>
    herror err d' 0 (.inl rfl) (hd'.congr (zero_add frame).symm)
  unfold nvsCreate
  split
  · exact wp_fail.mpr (hclean _ d h)
  · refine wp_bind.mpr (wp_require h (fun ctx d1 h1 => ?_) (hclean _))
    refine wp_bind.mpr (wp_acquire h1 fun opened d2 hkind h2 => ?_)
    cases opened with
    | none =>
      exact wp_bind.mpr (wp_release (h2.congr (zero_add _)) fun d3 h3 => wp_fail.mpr (hclean _ d3 h3))
    | some handle =>
      refine wp_bind.mpr (wp_acquire h2 fun slotUsed d3 _ h3 => ?_)
      refine wp_bind.mpr (wp_acquire h3 fun index d4 _ h4 => ?_)
      refine wp_bind.mpr (wp_acquire h4 fun scratch d5 _ h5 => ?_)
      refine wp_bind.mpr (wp_acquire h5 fun claimScratch d6 _ h6 => ?_)
      refine wp_ite.mpr ⟨fun _ => ?_, fun _ => wp_ret.mpr (hok _ d6 rfl (h6.congr ?_))⟩
      · -- the handle is not closed
        refine wp_bind.mpr (wp_releaseAll ({handle} + frame) (h6.congr ?_) fun d7 h7 =>
          wp_fail.mpr (herror _ d7 {handle}
            (.inr ⟨rfl, rfl, handle, hkind handle rfl, rfl⟩) h7))
        simp only [List.map_cons, List.map_nil, List.sum_cons, List.sum_nil, Pointer.held_some]
        abel
      · simp only [NvsObjects.memory, Pointer.held_some]
        abel

theorem wp_storageCreate {P : Post Unit (Objects Resource) ApiErr StorageObjects} (h : d.Owns frame)
    (hok : ∀ s d', s.Fresh → d'.Owns (s.held + frame) → P.ok s () d')
    (herror : ∀ err d' leaked, Leaks config.storage err leaked → d'.Owns (leaked + frame) →
      P.error err () d') :
    wp (objectDevice Resource) anyEvent (edgesyncStorageCreate config) P () d := by
  have hclean : ∀ err d', d'.Owns frame → P.error err () d' := fun err d' hd' =>
    herror err d' 0 (.inl rfl) (hd'.congr (zero_add frame).symm)
  unfold edgesyncStorageCreate
  cases hstorage : config.storage with
  | flashq =>
    refine wp_bind.mpr (wp_flashqCreate h (fun s d' hlock hd' => wp_ret.mpr ?_) hclean)
    refine hok (.flashq s) d' hlock (hd'.congr ?_)
    rw [StorageObjects.held, hlock, Pointer.held_none, add_zero]
  | nvs =>
    refine wp_bind.mpr (wp_nvsCreate h (fun s d' hlock hd' => wp_ret.mpr ?_)
      fun err d' leaked hleaks hd' => herror err d' leaked (hstorage ▸ hleaks) hd')
    refine hok (.nvs s) d' hlock (hd'.congr ?_)
    rw [StorageObjects.held, hlock, Pointer.held_none, add_zero]
  | custom =>
    refine wp_ite.mpr ⟨fun _ => wp_ret.mpr (hok .custom d trivial (h.congr (zero_add frame).symm)),
      fun _ => wp_fail.mpr (hclean _ d h)⟩

theorem wp_transportCreate {P : Post Unit (Objects Resource) ApiErr TransportObjects}
    (h : d.Owns frame) (hok : ∀ transport d', d'.Owns (transport.held + frame) → P.ok transport () d')
    (herror : ∀ err d', d'.Owns frame → P.error err () d') :
    wp (objectDevice Resource) anyEvent (edgesyncTransportCreate config) P () d := by
  unfold edgesyncTransportCreate
  refine wp_ite.mpr ⟨fun _ => wp_ret.mpr (hok _ d (h.congr (zero_add frame).symm)), fun _ => ?_⟩
  split
  · exact wp_fail.mpr (herror _ d h)
  · exact wp_bind.mpr (wp_require h (fun ctx d' hd' => wp_ret.mpr (hok (.http ctx) d' hd')) (herror _))

theorem wp_transportInit {P : Post Unit (Objects Resource) ApiErr Unit} (hok : P.ok () () d)
    (herror : P.error .external () d) :
    wp (objectDevice Resource) anyEvent (transportInit transport) P () d := by
  cases transport with
  | http ctx => exact wp_ret.mpr hok
  | custom hasInit => exact wp_ite.mpr ⟨fun _ => wp_consult hok herror, fun _ => wp_ret.mpr hok⟩

theorem wp_queueCreate {P : Post Unit (Objects Resource) ApiErr QueueObjects} (h : d.Owns frame)
    (hok : ∀ q d', d'.Owns (q.held + frame) → P.ok q () d')
    (herror : ∀ err d', d'.Owns frame → P.error err () d') :
    wp (objectDevice Resource) anyEvent edgesyncQueueCreate P () d := by
  unfold edgesyncQueueCreate
  refine wp_bind.mpr (wp_require h (fun queue d1 h1 => ?_) (herror _))
  refine wp_bind.mpr (wp_acquire h1 fun lock d2 _ h2 => ?_)
  cases lock with
  | none =>
    exact wp_bind.mpr (wp_release (h2.congr (zero_add _)) fun d3 h3 => wp_fail.mpr (herror _ d3 h3))
  | some lock =>
    refine wp_ret.mpr (hok ⟨queue, lock⟩ d2 (h2.congr ?_))
    simp only [QueueObjects.held, Pointer.held_some]
    abel

/-- The mutex of the storage is made once. -/
theorem wp_storageInit {P : Post Unit (Objects Resource) ApiErr StorageObjects}
    (hfresh : storage.Fresh) (h : d.Owns (storage.held + frame))
    (hok : ∀ s d', d'.Owns (s.held + frame) → P.ok s () d')
    (herror : ∀ err d', d'.Owns (storage.held + frame) → P.error err () d') :
    wp (objectDevice Resource) anyEvent (storageInit storage) P () d := by
  cases storage with
  | flashq s =>
    refine wp_bind.mpr (wp_require h (fun lock d' hd' => wp_ret.mpr (hok _ d' (hd'.congr ?_)))
      (herror _))
    have hlock : s.lock = none := hfresh
    simp only [StorageObjects.held, FlashqObjects.memory, hlock, Pointer.held_none, Pointer.held_some]
    abel
  | nvs s =>
    refine wp_bind.mpr (wp_require h (fun lock d' hd' => wp_ret.mpr (hok _ d' (hd'.congr ?_)))
      (herror _))
    have hlock : s.lock = none := hfresh
    simp only [StorageObjects.held, NvsObjects.memory, hlock, Pointer.held_none, Pointer.held_some]
    abel
  | custom => exact wp_bind.mpr (wp_consult (wp_ret.mpr (hok .custom d h)) (herror _ d h))

variable (frame) in
theorem wp_queueRecover {P : Post Unit (Objects Resource) ApiErr (StorageObjects × Except ApiErr Unit)}
    (hfresh : storage.Fresh) (h : d.Owns (storage.held + frame))
    (hP : ∀ s res d', d'.Owns (s.held + frame) → P.ok (s, res) () d') :
    wp (objectDevice Resource) anyEvent (edgesyncQueueRecover storage) P () d := by
  unfold edgesyncQueueRecover
  refine wp_bind.mpr (wp_attempt.mpr (wp_storageInit hfresh h (fun s d1 h1 => ?_)
    fun err d1 h1 => wp_ret.mpr (hP _ _ d1 h1)))
  exact wp_bind.mpr (wp_attempt.mpr (wp_consult (wp_ret.mpr (hP _ _ d1 h1))
    (wp_ret.mpr (hP _ _ d1 h1))))

theorem wp_workerStart {P : Post Unit (Objects Resource) ApiErr WorkerObjects} (h : d.Owns frame)
    (hok : ∀ w d', d'.Owns (w.held + frame) → P.ok w () d')
    (herror : ∀ err d', d'.Owns frame → P.error err () d') :
    wp (objectDevice Resource) anyEvent edgesyncWorkerStart P () d := by
  unfold edgesyncWorkerStart
  refine wp_bind.mpr (wp_require h (fun worker d1 h1 => ?_) (herror _))
  refine wp_bind.mpr (wp_acquire h1 fun sem d2 _ h2 => ?_)
  cases sem with
  | none =>
    exact wp_bind.mpr (wp_release (h2.congr (zero_add _)) fun d3 h3 => wp_fail.mpr (herror _ d3 h3))
  | some stoppedSem =>
    refine wp_bind.mpr (wp_acquire h2 fun created d3 _ h3 => ?_)
    cases created with
    | none =>
      refine wp_bind.mpr (wp_releaseAll frame (h3.congr ?_) fun d4 h4 =>
        wp_fail.mpr (herror _ d4 h4))
      simp only [List.map_cons, List.map_nil, List.sum_cons, List.sum_nil, Pointer.held_none,
        Pointer.held_some]
      abel
    | some task =>
      refine wp_ret.mpr (hok ⟨worker, stoppedSem, task⟩ d3 (h3.congr ?_))
      simp only [WorkerObjects.held, Pointer.held_some]
      abel

/-! ## The handle -/

theorem wp_initQueue {P : Post Unit (Objects Resource) ApiErr EdgesyncHandle}
    (hfresh : storage.Fresh) (h : d.Owns ({ctx} + storage.held + transport.held + frame))
    (hok : ∀ handle d', handle.started = false → handle.worker = none →
      d'.Owns (handle.held + frame) → P.ok handle () d')
    (herror : ∀ err d', d'.Owns frame → P.error err () d') :
    wp (objectDevice Resource) anyEvent (initQueue ctx storage transport) P () d := by
  unfold initQueue
  refine wp_bind.mpr (wp_attempt.mpr (wp_queueCreate h (fun queue d1 h1 => ?_) fun err d1 h1 =>
    wp_initUndo h1 (herror err)))
  refine wp_bind.mpr (wp_queueRecover (queue.held + {ctx} + transport.held + frame) hfresh
    (h1.congr (by abel)) fun s res d2 h2 => ?_)
  cases res with
  | error err =>
    refine wp_bind.mpr (wp_queueDestroy ({ctx} + s.held + transport.held + frame)
      (h2.congr (by abel)) fun d3 h3 => wp_initUndo h3 (herror err))
  | ok =>
    refine wp_ret.mpr (hok _ d2 rfl rfl (h2.congr ?_))
    simp only [EdgesyncHandle.held, heldWorker]
    abel

theorem wp_initTransport {P : Post Unit (Objects Resource) ApiErr EdgesyncHandle}
    (hfresh : storage.Fresh) (h : d.Owns ({ctx} + storage.held + frame))
    (hok : ∀ handle d', handle.started = false → handle.worker = none →
      d'.Owns (handle.held + frame) → P.ok handle () d')
    (herror : ∀ err d', d'.Owns frame → P.error err () d') :
    wp (objectDevice Resource) anyEvent (initTransport config ctx storage) P () d := by
  unfold initTransport
  refine wp_bind.mpr (wp_attempt.mpr (wp_transportCreate h (fun transport d1 h1 => ?_)
    fun err d1 h1 => ?_))
  · have h1 : d1.Owns ({ctx} + storage.held + transport.held + frame) := h1.congr (by abel)
    exact wp_bind.mpr (wp_attempt.mpr (wp_transportInit (wp_initQueue hfresh h1 hok herror)
      (wp_initUndo h1 (herror _))))
  · refine wp_bind.mpr (wp_storageDestroy ({ctx} + frame) (h1.congr (by abel)) fun d2 h2 => ?_)
    exact wp_bind.mpr (wp_release h2 fun d3 h3 => wp_fail.mpr (herror err d3 h3))

/-- `edgesync_init` owns what its handle owns, or leaves nothing behind but a handle of the NVS
backend. -/
theorem wp_init {P : Post Unit (Objects Resource) ApiErr EdgesyncHandle} (h : d.Owns frame)
    (hok : ∀ handle d', handle.started = false → handle.worker = none →
      d'.Owns (handle.held + frame) → P.ok handle () d')
    (herror : ∀ err d' leaked, Leaks config.storage err leaked → d'.Owns (leaked + frame) →
      P.error err () d') :
    wp (objectDevice Resource) anyEvent (edgesyncInit config) P () d := by
  have hclean : ∀ err d', d'.Owns frame → P.error err () d' := fun err d' hd' =>
    herror err d' 0 (.inl rfl) (hd'.congr (zero_add frame).symm)
  unfold edgesyncInit
  refine wp_bind.mpr (wp_require h (fun ctx d1 h1 => ?_) (hclean _))
  refine wp_bind.mpr (wp_attempt.mpr (wp_storageCreate h1 (fun s d2 hfresh h2 => ?_)
    fun err d2 leaked hleaks h2 => ?_))
  · exact wp_initTransport hfresh (h2.congr (by abel)) hok hclean
  · exact wp_bind.mpr (wp_release (h2.congr (by abel)) fun d3 h3 =>
      wp_fail.mpr (herror err d3 leaked hleaks h3))

/-- A handle with a worker, or without. -/
def EdgesyncHandle.Sound (h : EdgesyncHandle) : Prop := h.started = h.worker.isSome

theorem wp_start {handle : EdgesyncHandle} {P : Post Unit (Objects Resource) ApiErr EdgesyncHandle}
    (sound : handle.Sound) (h : d.Owns (handle.held + frame))
    (hok : ∀ next d', next.Sound → d'.Owns (next.held + frame) → P.ok next () d')
    (herror : ∀ err d', d'.Owns (handle.held + frame) → P.error err () d') :
    wp (objectDevice Resource) anyEvent (edgesyncStart handle) P () d := by
  refine wp_ite.mpr ⟨fun _ => wp_fail.mpr (herror _ d h), fun hstopped => ?_⟩
  refine wp_bind.mpr (wp_workerStart h (fun w d' hd' => wp_ret.mpr (hok _ d' rfl (hd'.congr ?_))) herror)
  have hnone : handle.worker = none := by
    have hworker : handle.started = handle.worker.isSome := sound
    rw [Bool.eq_false_of_not_eq_true hstopped] at hworker
    exact Option.isNone_iff_eq_none.mp (by simpa using hworker.symm)
  simp only [EdgesyncHandle.held, heldWorker, hnone]
  abel

theorem wp_stop {handle : EdgesyncHandle} {P : Post Unit (Objects Resource) ApiErr EdgesyncHandle}
    (h : d.Owns (handle.held + frame))
    (hok : ∀ next d', next.Sound → d'.Owns (next.held + frame) → P.ok next () d')
    (herror : ∀ err d', d'.Owns (handle.held + frame) → P.error err () d') :
    wp (objectDevice Resource) anyEvent (edgesyncStop handle) P () d := by
  refine wp_ite.mpr ⟨fun _ => wp_fail.mpr (herror _ d h), fun _ => wp_bind.mpr ?_⟩
  cases hworker : handle.worker with
  | none =>
    refine wp_ret.mpr (wp_ret.mpr (hok _ d rfl (h.congr ?_)))
    simp only [EdgesyncHandle.held, heldWorker, hworker]
  | some w =>
    refine wp_releaseAll (({ handle with worker := none, started := false } :
      EdgesyncHandle).held + frame) (h.congr ?_) fun d' hd' => wp_ret.mpr (hok _ d' rfl hd')
    simp only [EdgesyncHandle.held, heldWorker, hworker, WorkerObjects.held, List.map_cons,
      List.map_nil, List.sum_cons, List.sum_nil, Pointer.held_some]
    abel

theorem wp_deinit {handle : EdgesyncHandle} {P : Post Unit (Objects Resource) ApiErr Unit}
    (sound : handle.Sound) (h : d.Owns (handle.held + frame)) (hok : ∀ d', d'.Owns frame → P.ok () () d')
    (herror : ∀ err d', d'.Owns (handle.held + frame) → P.error err () d') :
    wp (objectDevice Resource) anyEvent (edgesyncDeinit handle) P () d := by
  refine wp_ite.mpr ⟨fun _ => wp_fail.mpr (herror _ d h), fun hstopped => ?_⟩
  have hnone : handle.worker = none := by
    have hworker : handle.started = handle.worker.isSome := sound
    rw [Bool.eq_false_of_not_eq_true hstopped] at hworker
    exact Option.isNone_iff_eq_none.mp (by simpa using hworker.symm)
  have h : d.Owns (handle.queue.held + (handle.transport.held + (handle.storage.held +
      ({handle.ctx} + frame)))) := h.congr (by
    simp only [EdgesyncHandle.held, heldWorker, hnone]
    abel)
  refine wp_bind.mpr (wp_queueDestroy _ h fun d1 h1 => ?_)
  refine wp_bind.mpr (wp_transportDestroy _ h1 fun d2 h2 => ?_)
  exact wp_bind.mpr (wp_storageDestroy _ h2 fun d3 h3 => wp_release h3 hok)

end Specs

/-! ## Any number of handles -/

/-- A call on a handle. -/
inductive HandleCall where
  | start
  | stop
  | deinit
  deriving DecidableEq

/-- The call, and the handle after it. -/
def HandleCall.prog (h : EdgesyncHandle) : HandleCall → ApiProg (Option EdgesyncHandle)
  | .start => (edgesyncStart h).bind fun next => .ret (some next)
  | .stop => (edgesyncStop h).bind fun next => .ret (some next)
  | .deinit => (edgesyncDeinit h).bind fun _ => .ret none

/-- The objects, and the handles that an application has. -/
structure ApiSystem where
  objects : Objects Resource
  handles : List EdgesyncHandle

/-- Nothing was created. -/
def ApiSystem.initial : ApiSystem := ⟨.initial Resource, []⟩

/-- What an application does, and what it is told. -/
inductive ApiLabel where
  | init (storage : EdgesyncStorageType) (res : Except ApiErr Unit)
  | call (c : HandleCall) (res : Except ApiErr Unit)
  deriving DecidableEq

/-- One call of the API, in which anything may fail. -/
inductive ApiStep : ApiSystem → ApiLabel → ApiSystem → Prop where
  | created {s : ApiSystem} {config : EdgesyncInitConfig} {h : EdgesyncHandle}
      {objects' : Objects Resource}
      (run : Runs (objectDevice Resource) anyEvent (edgesyncInit config) () s.objects
        (.ok h () objects')) :
      ApiStep s (.init config.storage (.ok ())) ⟨objects', h :: s.handles⟩
  | notCreated {s : ApiSystem} {config : EdgesyncInitConfig} {err : ApiErr}
      {objects' : Objects Resource}
      (run : Runs (objectDevice Resource) anyEvent (edgesyncInit config) () s.objects
        (.error err () objects')) :
      ApiStep s (.init config.storage (.error err)) ⟨objects', s.handles⟩
  | called {s : ApiSystem} {c : HandleCall} {before after : List EdgesyncHandle}
      {h : EdgesyncHandle} {next : Option EdgesyncHandle} {objects' : Objects Resource}
      (handles : s.handles = before ++ h :: after)
      (run : Runs (objectDevice Resource) anyEvent (c.prog h) () s.objects (.ok next () objects')) :
      ApiStep s (.call c (.ok ())) ⟨objects', before ++ next.toList ++ after⟩
  | refused {s : ApiSystem} {c : HandleCall} {h : EdgesyncHandle} {err : ApiErr}
      {objects' : Objects Resource} (mem : h ∈ s.handles)
      (run : Runs (objectDevice Resource) anyEvent (c.prog h) () s.objects (.error err () objects')) :
      ApiStep s (.call c (.error err)) ⟨objects', s.handles⟩

/-- What the handles own. -/
def heldBy (handles : List EdgesyncHandle) : Multiset (Object Resource) :=
  (handles.map EdgesyncHandle.held).sum

/-- An `edgesync_init` over NVS that ran out of memory. -/
def outOfMemory (label : ApiLabel) : Bool := label = .init .nvs (.error .noMem)

/-- What is live is owned by a handle, but for handles of NVS that were left open. -/
structure Balanced (labels : List ApiLabel) (s : ApiSystem) (leaked : Multiset (Object Resource)) :
    Prop where
  owns : s.objects.Owns (heldBy s.handles + leaked)
  distinct : s.objects.Distinct
  sound : ∀ h ∈ s.handles, h.Sound
  leakedKind : ∀ object ∈ leaked, object.kind = .nvsHandle
  leakedCount : leaked.card ≤ labels.countP outOfMemory

section Runs

variable {labels : List ApiLabel} {label : ApiLabel} {s s' : ApiSystem}
  {leaked : Multiset (Object Resource)} {handle : EdgesyncHandle} {c : HandleCall}
  {d : Objects Resource} {frame : Multiset (Object Resource)}

/-- What a call on a handle leaves to it. -/
theorem wp_handleCall {P : Post Unit (Objects Resource) ApiErr (Option EdgesyncHandle)}
    (sound : handle.Sound) (h : d.Owns (handle.held + frame))
    (hok : ∀ next d', (∀ x ∈ next, x.Sound) → d'.Owns (heldBy next.toList + frame) → P.ok next () d')
    (herror : ∀ err d', d'.Owns (handle.held + frame) → P.error err () d') :
    wp (objectDevice Resource) anyEvent (c.prog handle) P () d := by
  have hsome : ∀ next d', next.Sound → d'.Owns (next.held + frame) → P.ok (some next) () d' := by
    intro next d' hnext hd'
    refine hok (some next) d' (fun x hx => Option.some.inj hx ▸ hnext) (hd'.congr ?_)
    simp [heldBy]
  cases c with
  | start =>
    exact wp_bind.mpr (wp_start sound h (fun next d' hnext hd' =>
      wp_ret.mpr (hsome next d' hnext hd')) herror)
  | stop =>
    exact wp_bind.mpr (wp_stop h (fun next d' hnext hd' =>
      wp_ret.mpr (hsome next d' hnext hd')) herror)
  | deinit =>
    refine wp_bind.mpr (wp_deinit sound h (fun d' hd' => wp_ret.mpr ?_) herror)
    exact hok none d' (fun _ hx => by cases hx) (hd'.congr (zero_add frame).symm)

theorem heldBy_append (before after : List EdgesyncHandle) :
    heldBy (before ++ after) = heldBy before + heldBy after := by
  rw [heldBy, List.map_append, List.sum_append]
  rfl

theorem Balanced.later (h : Balanced labels s leaked) (howns : s'.objects.Owns (heldBy s'.handles + leaked))
    (hdistinct : s'.objects.Distinct) (hsound : ∀ x ∈ s'.handles, x.Sound) :
    Balanced (labels ++ [label]) s' leaked where
  owns := howns
  distinct := hdistinct
  sound := hsound
  leakedKind := h.leakedKind
  leakedCount := by
    rw [List.countP_append]
    exact Nat.le_trans h.leakedCount (Nat.le_add_right _ _)

theorem Balanced.step (h : Balanced labels s leaked) (step : ApiStep s label s') :
    ∃ leaked', Balanced (labels ++ [label]) s' leaked' := by
  cases step with
  | @created config handle objects' run =>
    have hmeets := wp_sound run (wp_init (P := ⟨fun handle _ d => handle.Sound ∧
      d.Owns (handle.held + (heldBy s.handles + leaked)), fun _ _ _ => True, fun _ => True⟩) h.owns
      (fun handle d' hstarted hworker hd' => ⟨by rw [EdgesyncHandle.Sound, hstarted, hworker]; rfl, hd'⟩)
      fun _ _ _ _ _ => trivial)
    obtain ⟨hsound, howns⟩ := hmeets
    refine ⟨leaked, h.later (howns.congr ?_) (h.distinct.runs run) fun x hx => ?_⟩
    · show _ = heldBy (handle :: s.handles) + leaked
      rw [heldBy, heldBy, List.map_cons, List.sum_cons, add_assoc]
    · rcases List.mem_cons.mp hx with rfl | hx
      · exact hsound
      · exact h.sound x hx
  | @notCreated config err objects' run =>
    have hmeets := wp_sound run (wp_init (P := ⟨fun _ _ _ => True, fun err _ d =>
      ∃ more, Leaks config.storage err more ∧ d.Owns (more + (heldBy s.handles + leaked)),
      fun _ => True⟩) h.owns (fun _ _ _ _ _ => trivial)
      fun err d' more hleaks hd' => ⟨more, hleaks, hd'⟩)
    obtain ⟨more, hleaks, howns⟩ := hmeets
    rcases hleaks with rfl | ⟨hstorage, rfl, nvsHandle, hkind, rfl⟩
    · exact ⟨leaked, h.later (howns.congr (zero_add _)) (h.distinct.runs run) h.sound⟩
    · refine ⟨{nvsHandle} + leaked, howns.congr (by abel), h.distinct.runs run, h.sound, ?_, ?_⟩
      · intro object hobject
        rcases Multiset.mem_add.mp hobject with hobject | hobject
        · rw [Multiset.mem_singleton.mp hobject]
          exact hkind
        · exact h.leakedKind object hobject
      · have hcount := h.leakedCount
        have hone : outOfMemory (.init config.storage (.error .noMem)) = true := by
          rw [hstorage]
          rfl
        rw [Multiset.card_add, Multiset.card_singleton, List.countP_append, List.countP_singleton,
          if_pos hone]
        omega
  | @called c before after handle next objects' hhandles run =>
    have howns : s.objects.Owns (handle.held + (heldBy before + heldBy after + leaked)) :=
      h.owns.congr (by
        rw [hhandles, heldBy_append, show handle :: after = [handle] ++ after from rfl, heldBy_append,
          show heldBy [handle] = handle.held + 0 from rfl]
        abel)
    have hsound : handle.Sound := h.sound handle (by rw [hhandles]; simp)
    have hmeets := wp_sound run (wp_handleCall (P := ⟨fun next _ d => (∀ x ∈ next, x.Sound) ∧
      d.Owns (heldBy next.toList + (heldBy before + heldBy after + leaked)), fun _ _ _ => True,
      fun _ => True⟩) hsound howns (fun next d' hnext hd' => ⟨hnext, hd'⟩) fun _ _ _ => trivial)
    obtain ⟨hnext, howns'⟩ := hmeets
    refine ⟨leaked, h.later (howns'.congr ?_) (h.distinct.runs run) fun x hx => ?_⟩
    · show _ = heldBy (before ++ next.toList ++ after) + leaked
      rw [heldBy_append, heldBy_append]
      abel
    · rcases List.mem_append.mp hx with hx | hx
      · rcases List.mem_append.mp hx with hx | hx
        · exact h.sound x (by rw [hhandles]; exact List.mem_append_left _ hx)
        · exact hnext x (Option.mem_toList.mp hx)
      · exact h.sound x (by
          rw [hhandles]
          exact List.mem_append_right _ (List.mem_cons_of_mem _ hx))
  | @refused c handle err objects' mem run =>
    obtain ⟨before, after, hhandles⟩ := List.append_of_mem mem
    have hheld : heldBy s.handles = handle.held + (heldBy before + heldBy after) := by
      rw [hhandles, heldBy_append, show handle :: after = [handle] ++ after from rfl, heldBy_append,
        show heldBy [handle] = handle.held + 0 from rfl]
      abel
    have howns : s.objects.Owns (handle.held + (heldBy before + heldBy after + leaked)) :=
      h.owns.congr (by rw [hheld]; abel)
    have hmeets := wp_sound run (wp_handleCall (P := ⟨fun _ _ _ => True, fun _ _ d =>
      d.Owns (handle.held + (heldBy before + heldBy after + leaked)), fun _ => True⟩)
      (h.sound handle mem) howns (fun _ _ _ _ => trivial) fun _ _ hd' => hd')
    have howns' : objects'.Owns (handle.held + (heldBy before + heldBy after + leaked)) := hmeets
    exact ⟨leaked, h.later (howns'.congr (by rw [hheld]; abel)) (h.distinct.runs run) h.sound⟩

end Runs

/-- Whatever fails, nothing is released twice, no two handles share an object, and what is not
owned by a handle is a handle of NVS that an `edgesync_init` out of memory has left open. -/
theorem nothing_leaks {labels : List ApiLabel} {s : ApiSystem}
    (run : StepRun ApiStep ApiSystem.initial labels s) :
    ∃ leaked, Balanced labels s leaked := by
  induction run with
  | nil =>
    exact ⟨0, initial_owns, initial_distinct, fun _ h => absurd h List.not_mem_nil,
      fun _ h => absurd h (Multiset.notMem_zero _), Nat.le_refl _⟩
  | snoc _ last ih =>
    obtain ⟨leaked, h⟩ := ih
    exact h.step last

/-! ## An application that runs out of memory -/

/-- A call of the API, on the handle that was created last. -/
inductive ApiAction where
  | init (config : EdgesyncInitConfig)
  | call (c : HandleCall)

/-- Make a call, with the events of its calls outside. -/
def ApiSystem.act (s : ApiSystem) : ApiAction → List ObjectEvent → Option (ApiLabel × ApiSystem)
  | .init config, evs =>
      match exec (objectDevice Resource) (edgesyncInit config) () s.objects evs with
      | .ok h () objects' => some (.init config.storage (.ok ()), ⟨objects', h :: s.handles⟩)
      | .error err () objects' => some (.init config.storage (.error err), ⟨objects', s.handles⟩)
      | .cut _ => none
  | .call c, evs =>
      match s.handles with
      | [] => none
      | h :: after =>
          match exec (objectDevice Resource) (c.prog h) () s.objects evs with
          | .ok next () objects' => some (.call c (.ok ()), ⟨objects', next.toList ++ after⟩)
          | .error err () objects' => some (.call c (.error err), ⟨objects', s.handles⟩)
          | .cut _ => none

/-- Play a script of calls; the labels of the calls made so far come first. -/
def ApiSystem.play : ApiSystem → List (ApiAction × List ObjectEvent) → List ApiLabel →
    Option (List ApiLabel × ApiSystem)
  | s, [], labels => some (labels, s)
  | s, (a, evs) :: script, labels =>
      match s.act a evs with
      | none => none
      | some (label, s') => s'.play script (labels ++ [label])

theorem ApiSystem.act_step {s s' : ApiSystem} {a : ApiAction} {evs : List ObjectEvent}
    {label : ApiLabel} (h : s.act a evs = some (label, s')) : ApiStep s label s' := by
  have hruns : ∀ {α : Type} (x : ApiProg α), Runs (objectDevice Resource) anyEvent x () s.objects
      (exec (objectDevice Resource) x () s.objects evs) := fun x =>
    exec_runs (fun _ _ => trivial) x () s.objects evs fun _ _ _ _ => trivial
  cases a with
  | init config =>
    have run := hruns (edgesyncInit config)
    simp only [ApiSystem.act] at h
    split at h <;> rename_i hexec <;> rw [hexec] at run <;> cases h
    · exact .created run
    · exact .notCreated run
  | call c =>
    simp only [ApiSystem.act] at h
    split at h
    · cases h
    · rename_i handle after hhandles
      have run := hruns (c.prog handle)
      split at h <;> rename_i hexec <;> rw [hexec] at run <;> cases h
      · exact @ApiStep.called _ _ [] _ _ _ _ hhandles run
      · exact .refused (by rw [hhandles]; exact List.mem_cons_self) run

/-- What is played is a run. -/
theorem ApiSystem.play_run {script : List (ApiAction × List ObjectEvent)} {s0 s s' : ApiSystem}
    {labels labels' : List ApiLabel} (run : StepRun ApiStep s0 labels s)
    (h : s.play script labels = some (labels', s')) : StepRun ApiStep s0 labels' s' := by
  induction script generalizing s labels with
  | nil =>
    cases h
    exact run
  | cons x script ih =>
    obtain ⟨a, evs⟩ := x
    rw [ApiSystem.play] at h
    cases hact : s.act a evs with
    | none => simp [hact] at h
    | some y =>
      obtain ⟨label, s1⟩ := y
      rw [hact] at h
      exact ih (run.snoc (act_step hact)) h

/-- The NVS backend for a few messages. -/
def nvsInit : EdgesyncInitConfig where
  maxQueueSize := 4
  maxMessageSize := 16
  overflowPolicy := .rejectNew
  retryInitialMs := 0
  retryMaxMs := 0
  retryMultiplier := 0
  retryJitter := false
  retryMaxAttempts := 0
  storage := .nvs
  partitionSize := none
  storageOps := false
  transportOps := false
  transportInit := false
  http := longUrlConfig

/-- The third allocation of the backend fails; then all goes well. -/
def memoryScript : List (ApiAction × List ObjectEvent) :=
  [(.init nvsInit, [.works, .works, .works, .works, .fails]), (.init nvsInit, []),
    (.call .start, []), (.call .deinit, []), (.call .stop, []), (.call .deinit, [])]

/-- The handle that was opened first stays open. -/
theorem nothing_leaks_memory : ∃ labels s, StepRun ApiStep ApiSystem.initial labels s ∧
    s.handles = [] ∧ s.objects.live.card = 1 ∧ labels.countP outOfMemory = 1 ∧
    ∃ leaked, Balanced labels s leaked := by
  have hcheck : (ApiSystem.initial.play memoryScript []).any (fun x =>
      x.2.handles.isEmpty && (x.2.objects.live.card == 1 && x.1.countP outOfMemory == 1)) = true := by
    decide +kernel
  obtain ⟨x, hplay, hshows⟩ := (Option.any_eq_true _ _).mp hcheck
  obtain ⟨labels, s⟩ := x
  simp only [Bool.and_eq_true, List.isEmpty_iff, beq_iff_eq] at hshows
  have run : StepRun ApiStep ApiSystem.initial labels s := ApiSystem.play_run .nil hplay
  exact ⟨labels, s, run, hshows.1, hshows.2.1, hshows.2.2, nothing_leaks run⟩

end EdgeSync
