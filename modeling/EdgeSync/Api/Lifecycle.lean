/-
  Api/Lifecycle.lean --- creating and tearing down the stack (`edgesync.c`,
  `edgesync_storage.c`, `edgesync_transport.c`, `edgesync_queue.c`, `edgesync_worker.c`).

  Every allocation, and every call of a backend or of a transport, may fail.  What was made
  until then is released again, but for one handle: the NVS backend does not close the
  handle it has opened when it runs out of memory.
-/
import EdgeSync.Api.Publish
import EdgeSync.Foundation.Objects
import EdgeSync.Transport.Address

set_option autoImplicit false

namespace EdgeSync

open Foundation

/-! ## Objects -/

/-- What is made and released. -/
inductive Resource where
  | memory
  | semaphore
  | nvsHandle
  | task
  deriving DecidableEq

/-- Programs of the API. -/
abbrev ApiProg (α : Type) : Type := ObjectProg Resource ApiErr α

/-- `edgesync_storage_type_t`. -/
inductive EdgesyncStorageType where
  | flashq
  | nvs
  | custom
  deriving DecidableEq

/-- What `edgesync_init` uses of `edgesync_config_t`.  `partitionSize` is the size of the
partition that `esp_partition_find_first` finds; `storageOps` and `transportOps` say whether
the application brings its own, and `transportInit` whether that has an `init`. -/
structure EdgesyncInitConfig extends EdgesyncConfig where
  storage : EdgesyncStorageType
  partitionSize : Option UInt32
  storageOps : Bool
  transportOps : Bool
  transportInit : Bool
  http : EdgesyncHttpTransportConfig

/-! ## The storage -/

/-- The memory of `edgesync_flashq_ctx_t` and what it points to. -/
structure FlashqObjects where
  ctx : Object Resource
  index : Pointer Resource
  writeScratch : Pointer Resource
  verifyScratch : Pointer Resource
  claimScratch : Pointer Resource
  lock : Pointer Resource

/-- `edgesync_flashq_destroy`. -/
def edgesyncFlashqDestroy (s : FlashqObjects) : ApiProg Unit :=
  releaseAll [s.index, s.writeScratch, s.verifyScratch, s.claimScratch, some s.ctx]

/-- `edgesync_flashq_create`. -/
def flashqCreate (config : EdgesyncInitConfig) : ApiProg FlashqObjects :=
  match config.partitionSize.bind fun size =>
      edgesyncFlashqCreate size config.queueSize config.messageSize with
  | none => .fail .storage
  | some _ => do
      let ctx ← require .memory .noMem
      let index ← acquire .memory
      let writeScratch ← acquire .memory
      let verifyScratch ← acquire .memory
      let claimScratch ← acquire .memory
      let s : FlashqObjects := ⟨ctx, index, writeScratch, verifyScratch, claimScratch, none⟩
      if index = none ∨ writeScratch = none ∨ verifyScratch = none ∨ claimScratch = none then do
        edgesyncFlashqDestroy s
        .fail .noMem
      else .ret s

/-- The memory of `edgesync_nvs_ctx_t` and what it points to. -/
structure NvsObjects where
  ctx : Object Resource
  handle : Object Resource
  slotUsed : Pointer Resource
  index : Pointer Resource
  scratch : Pointer Resource
  claimScratch : Pointer Resource
  lock : Pointer Resource

/-- `edgesync_nvs_storage_destroy`; it does not close the handle. -/
def edgesyncNvsStorageDestroy (s : NvsObjects) : ApiProg Unit :=
  releaseAll [s.slotUsed, s.index, s.scratch, s.claimScratch, some s.ctx]

/-- `edgesync_nvs_storage_create`. -/
def nvsCreate (config : EdgesyncInitConfig) : ApiProg NvsObjects :=
  match edgesyncNvsStorageCreate config.queueSize config.messageSize with
  | none => .fail .invalidArg
  | some _ => do
      let ctx ← require .memory .noMem
      let opened ← acquire .nvsHandle
      match opened with
      | none => do
          release ctx
          .fail .storage
      | some handle => do
          let slotUsed ← acquire .memory
          let index ← acquire .memory
          let scratch ← acquire .memory
          let claimScratch ← acquire .memory
          let s : NvsObjects := ⟨ctx, handle, slotUsed, index, scratch, claimScratch, none⟩
          if slotUsed = none ∨ index = none ∨ scratch = none ∨ claimScratch = none then do
            edgesyncNvsStorageDestroy s
            .fail .noMem
          else .ret s

/-- A storage that was created; what an application brings is its own. -/
inductive StorageObjects where
  | flashq (s : FlashqObjects)
  | nvs (s : NvsObjects)
  | custom

/-- `edgesync_storage_create`. -/
def edgesyncStorageCreate (config : EdgesyncInitConfig) : ApiProg StorageObjects :=
  match config.storage with
  | .flashq => (flashqCreate config).bind fun s => .ret (.flashq s)
  | .nvs => (nvsCreate config).bind fun s => .ret (.nvs s)
  | .custom => if config.storageOps then .ret .custom else .fail .invalidArg

/-- `init` of the storage. -/
def storageInit : StorageObjects → ApiProg StorageObjects
  | .flashq s => (require .semaphore .noMem).bind fun lock => .ret (.flashq { s with lock := some lock })
  | .nvs s => (require .semaphore .noMem).bind fun lock => .ret (.nvs { s with lock := some lock })
  | .custom => (consult .external).bind fun _ => .ret .custom

/-- `close` of the storage. -/
def storageClose : StorageObjects → ApiProg Unit
  | .flashq s => releaseAll [s.lock]
  | .nvs s => releaseAll [some s.handle, s.lock]
  | .custom => .ret ()

/-- `edgesync_storage_destroy`. -/
def edgesyncStorageDestroy (s : StorageObjects) : ApiProg Unit :=
  (storageClose s).bind fun _ =>
    match s with
    | .flashq s => edgesyncFlashqDestroy s
    | .nvs s => edgesyncNvsStorageDestroy s
    | .custom => .ret ()

/-! ## The transport -/

/-- A transport that was created. -/
inductive TransportObjects where
  | http (ctx : Object Resource)
  | custom (hasInit : Bool)

/-- `edgesync_transport_create`. -/
def edgesyncTransportCreate (config : EdgesyncInitConfig) : ApiProg TransportObjects :=
  if config.transportOps then .ret (.custom config.transportInit)
  else
    match edgesyncHttpTransportCreate config.http with
    | .error _ => .fail .transport
    | .ok _ => (require .memory .noMem).bind fun ctx => .ret (.http ctx)

/-- `init` of the transport, where there is one. -/
def transportInit : TransportObjects → ApiProg Unit
  | .http _ => .ret ()
  | .custom hasInit => if hasInit then consult .external else .ret ()

/-- `edgesync_transport_destroy`. -/
def edgesyncTransportDestroy : TransportObjects → ApiProg Unit
  | .http ctx => releaseAll [some ctx]
  | .custom _ => .ret ()

/-! ## The queue and the worker -/

/-- `edgesync_queue_t`. -/
structure QueueObjects where
  queue : Object Resource
  lock : Object Resource

/-- `edgesync_queue_create`. -/
def edgesyncQueueCreate : ApiProg QueueObjects := do
  let queue ← require .memory .noMem
  let lock ← acquire .semaphore
  match lock with
  | none => do
      release queue
      .fail .noMem
  | some lock => .ret ⟨queue, lock⟩

/-- `edgesync_queue_recover`: `init` and `recover` of the storage, which keeps what `init` has
made when `recover` fails. -/
def edgesyncQueueRecover (s : StorageObjects) :
    ApiProg (StorageObjects × Except ApiErr Unit) := do
  let opened ← (storageInit s).attempt
  match opened with
  | .error err => .ret (s, .error err)
  | .ok s => do
      let recovered ← (consult .external).attempt
      .ret (s, recovered)

/-- `edgesync_queue_destroy`. -/
def edgesyncQueueDestroy (q : QueueObjects) : ApiProg Unit :=
  releaseAll [some q.lock, some q.queue]

/-- `edgesync_worker_t`. -/
structure WorkerObjects where
  worker : Object Resource
  stoppedSem : Object Resource
  task : Object Resource

/-- `edgesync_worker_start`. -/
def edgesyncWorkerStart : ApiProg WorkerObjects := do
  let worker ← require .memory .noMem
  let sem ← acquire .semaphore
  match sem with
  | none => do
      release worker
      .fail .noMem
  | some stoppedSem => do
      let created ← acquire .task
      match created with
      | none => do
          releaseAll [some stoppedSem, some worker]
          .fail .noMem
      | some task => .ret ⟨worker, stoppedSem, task⟩

/-- `edgesync_worker_stop`, once the task has deleted itself. -/
def edgesyncWorkerStop : Option WorkerObjects → ApiProg Unit
  | none => .ret ()
  | some w => releaseAll [some w.task, some w.stoppedSem, some w.worker]

/-! ## The handle -/

/-- `struct edgesync_ctx`. -/
structure EdgesyncHandle where
  ctx : Object Resource
  storage : StorageObjects
  transport : TransportObjects
  queue : QueueObjects
  worker : Option WorkerObjects
  started : Bool

/-- How `edgesync_init` gives up once there is a transport. -/
def initUndo {α : Type} (ctx : Object Resource) (storage : StorageObjects)
    (transport : TransportObjects) (err : ApiErr) : ApiProg α := do
  edgesyncTransportDestroy transport
  edgesyncStorageDestroy storage
  release ctx
  .fail err

/-- `edgesync_init`, from `edgesync_queue_create` on. -/
def initQueue (ctx : Object Resource) (storage : StorageObjects) (transport : TransportObjects) :
    ApiProg EdgesyncHandle := do
  let made ← edgesyncQueueCreate.attempt
  match made with
  | .error err => initUndo ctx storage transport err
  | .ok queue => do
      let recovered ← edgesyncQueueRecover storage
      match recovered.2 with
      | .error err => do
          edgesyncQueueDestroy queue
          initUndo ctx recovered.1 transport err
      | .ok _ => .ret ⟨ctx, recovered.1, transport, queue, none, false⟩

/-- `edgesync_init`, from `edgesync_transport_create` on. -/
def initTransport (config : EdgesyncInitConfig) (ctx : Object Resource) (storage : StorageObjects) :
    ApiProg EdgesyncHandle := do
  let made ← (edgesyncTransportCreate config).attempt
  match made with
  | .error err => do
      edgesyncStorageDestroy storage
      release ctx
      .fail err
  | .ok transport => do
      let ready ← (transportInit transport).attempt
      match ready with
      | .error err => initUndo ctx storage transport err
      | .ok _ => initQueue ctx storage transport

/-- `edgesync_init`. -/
def edgesyncInit (config : EdgesyncInitConfig) : ApiProg EdgesyncHandle := do
  let ctx ← require .memory .noMem
  let made ← (edgesyncStorageCreate config).attempt
  match made with
  | .error err => do
      release ctx
      .fail err
  | .ok storage => initTransport config ctx storage

/-- `edgesync_start`. -/
def edgesyncStart (h : EdgesyncHandle) : ApiProg EdgesyncHandle :=
  if h.started then .fail .alreadyStarted
  else edgesyncWorkerStart.bind fun worker => .ret { h with worker := some worker, started := true }

/-- `edgesync_stop`. -/
def edgesyncStop (h : EdgesyncHandle) : ApiProg EdgesyncHandle :=
  if h.started = false then .fail .invalidState
  else do
    edgesyncWorkerStop h.worker
    .ret { h with worker := none, started := false }

/-- `edgesync_deinit`. -/
def edgesyncDeinit (h : EdgesyncHandle) : ApiProg Unit :=
  if h.started then .fail .invalidState
  else do
    edgesyncQueueDestroy h.queue
    edgesyncTransportDestroy h.transport
    edgesyncStorageDestroy h.storage
    release h.ctx

end EdgeSync
