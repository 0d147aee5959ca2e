/-
  Stack/Tasks.lean --- publishers and the worker over one queue
  (`edgesync_queue.c`, `edgesync_worker.c`).

  The mutex of the queue is held from the first storage call of a queue operation to
  its last, so a queue operation is one step.  Between these steps the tasks
  interleave: a publisher fires its events and notifies the worker after it released
  the mutex, and the worker delivers and fires its events without it.
-/
import EdgeSync.Foundation.Runs
import EdgeSync.Stack.Queue
import EdgeSync.Stack.Retry
import Mathlib.Logic.Function.Basic

set_option autoImplicit false

namespace EdgeSync

open Foundation

/-! ## The queue -/

/-- What `edgesync_queue_t` counts. -/
structure QueueCounters where
  successfulDeliveries : UInt64 := 0
  failedDeliveries : UInt64 := 0
  deriving DecidableEq, Repr

/-- `edgesync_queue_mark_delivered` and `edgesync_queue_schedule_retry` count what the
storage recorded. -/
def QueueCounters.after (counters : QueueCounters) :
    StorageOp → Except EspErr StorageReply → QueueCounters
  | .markDelivered _, .ok _ =>
      { counters with successfulDeliveries := counters.successfulDeliveries + 1 }
  | .scheduleRetry _ _ _ _, .ok _ =>
      { counters with failedDeliveries := counters.failedDeliveries + 1 }
  | _, _ => counters

/-- `edgesync_stats_t`, as `edgesync_queue_get_stats` fills it in. -/
structure QueueStats extends EdgesyncStats where
  successfulDeliveries : UInt64
  failedDeliveries : UInt64
  deriving DecidableEq, Repr

/-! ## The worker -/

/-- `edgesync_retry_should_retry` decides between a retry and a dead letter, and
`edgesync_queue_schedule_retry` records it; then the events are fired. -/
def handleRetryableFailure (cfg : EdgesyncRetryConfig) (msg : ClaimedMessage) (nowUs : Int64)
    (randomU32 : UInt32) : StorageOp × List EdgesyncEvent :=
  if cfg.shouldRetry msg.attemptCount then
    let delayMs := cfg.computeDelayMs msg.attemptCount randomU32
    let nextRetryAtUs := nowUs + Int64.ofNat delayMs.toNat * 1000
    (.scheduleRetry msg.id nextRetryAtUs false EspErr.transport.code, [.failed, .retry])
  else (.scheduleRetry msg.id 0 true EspErr.transport.code, [.failed, .deadLetter])

/-- `handle_delivery_result`: the storage call, whose result is not looked at, and the
events after it. -/
def handleDeliveryResult (cfg : EdgesyncRetryConfig) (msg : ClaimedMessage) (nowUs : Int64)
    (randomU32 : UInt32) : DeliveryResult → StorageOp × List EdgesyncEvent
  | .success => (.markDelivered msg.id, [.delivered])
  | .permanentFailure =>
      (.scheduleRetry msg.id 0 true EspErr.transport.code, [.failed, .deadLetter])
  | .retryableFailure => handleRetryableFailure cfg msg nowUs randomU32

/-- Events that are still to be fired, each with the id of its message. -/
abbrev Events : Type := List (EdgesyncEvent × UInt64)

/-- Where the worker is in its loop. -/
inductive WorkerPhase where
  /-- it fires these events, and then claims -/
  | firing (events : Events)
  /-- the claim gave nothing: it is going to wait -/
  | resting
  /-- in `ulTaskNotifyTake` -/
  | blocked
  | delivering (msg : ClaimedMessage)
  /-- the transport is done: it is going to make this storage call -/
  | settling (op : StorageOp) (events : Events)
  deriving DecidableEq

/-- What a claim leads to. -/
def WorkerPhase.afterClaim : Except EspErr StorageReply → WorkerPhase
  | .ok (.claim (.claimed msg)) => .delivering msg
  | .ok (.claim (.corrupt id)) => .firing [(.deadLetter, id)]
  | _ => .resting

/-- A task that publishes: the events it still fires, and whether it notifies the
worker after them. -/
structure Publisher where
  events : Events
  wakes : Bool
  deriving DecidableEq

/-- Not in `edgesync_queue_publish`. -/
def Publisher.idle : Publisher := ⟨[], false⟩

/-- The mutex is released. -/
def Publisher.released (report : PublishReport) (message : EdgesyncMessage) : Publisher where
  events := report.events message
  wakes := report.res.isOk

/-! ## The running stack -/

section Stack

variable (B : StorageBackend)

/-- The queue with its storage, the tasks that publish, and the worker.  `notified` is
the notification count of the worker's task. -/
structure Tasks where
  ctx : B.Ctx
  dev : B.Dev
  counters : QueueCounters
  publishers : Nat → Publisher
  worker : WorkerPhase
  notified : Nat

/-- The worker was just started. -/
def Tasks.start {B : StorageBackend} (ctx : B.Ctx) (dev : B.Dev) : Tasks B where
  ctx := ctx
  dev := dev
  counters := {}
  publishers := fun _ => .idle
  worker := .firing []
  notified := 0

/-- What the tasks do. -/
inductive TasksLabel where
  /-- `edgesync_queue_publish`, until the mutex is released -/
  | publish (p : Nat) (message : EdgesyncMessage) (calls : List StorageCall)
      (report : PublishReport)
  | publisherFires (p : Nat) (event : EdgesyncEvent) (id : UInt64)
  /-- `wake_cb` -/
  | wake (p : Nat)
  /-- `edgesync_queue_claim_next` -/
  | claim (nowUs : Int64) (res : Except EspErr StorageReply)
  /-- `ulTaskNotifyTake` begins -/
  | take
  /-- `ulTaskNotifyTake` returns because of a notification -/
  | woken
  /-- `ulTaskNotifyTake` returns because its time is over -/
  | timeout
  /-- `deliver` returns; the time and the random number are those of the retry -/
  | deliver (msg : ClaimedMessage) (result : DeliveryResult) (nowUs : Int64) (randomU32 : UInt32)
  /-- `edgesync_queue_mark_delivered` or `edgesync_queue_schedule_retry` -/
  | settle (op : StorageOp) (res : Except EspErr StorageReply)
  | workerFires (event : EdgesyncEvent) (id : UInt64)
  /-- `edgesync_queue_get_stats` -/
  | stats (res : Except EspErr StorageReply) (stats : QueueStats)
  deriving DecidableEq

/-- `edgesync_queue_get_stats`: the counters of the storage are zero where it fails. -/
def QueueCounters.stats (counters : QueueCounters) : Except EspErr StorageReply → QueueStats
  | .ok (.stats stats) => { stats with
      successfulDeliveries := counters.successfulDeliveries
      failedDeliveries := counters.failedDeliveries }
  | _ => { ({} : EdgesyncStats) with
      successfulDeliveries := counters.successfulDeliveries
      failedDeliveries := counters.failedDeliveries }

/-- The policies of `edgesync_config_t`. -/
structure StackConfig where
  overflowPolicy : OverflowPolicy
  retry : EdgesyncRetryConfig

variable {B}

/-- A publisher moves on. -/
def Tasks.setPublisher (s : Tasks B) (p : Nat) (publisher : Publisher) : Tasks B :=
  { s with publishers := Function.update s.publishers p publisher }

/-- One step of one task. -/
inductive TasksStep (env : Env B.Call B.Dev B.Event) (cfg : StackConfig) (s : Tasks B) :
    TasksLabel → Tasks B → Prop where
  | publish {p : Nat} {message : EdgesyncMessage} {calls : List StorageCall}
      {report : PublishReport} {ctx' : B.Ctx} {dev' : B.Dev} (idle : s.publishers p = .idle)
      (run : Calls B env s.ctx s.dev calls ctx' dev')
      (made : PublishCalls cfg.overflowPolicy message calls report) :
      TasksStep env cfg s (.publish p message calls report)
        ({ s with ctx := ctx', dev := dev' }.setPublisher p (.released report message))
  | publisherFires {p : Nat} {event : EdgesyncEvent} {id : UInt64} {events : Events} {wakes : Bool}
      (fires : s.publishers p = ⟨(event, id) :: events, wakes⟩) :
      TasksStep env cfg s (.publisherFires p event id) (s.setPublisher p ⟨events, wakes⟩)
  | wake {p : Nat} (wakes : s.publishers p = ⟨[], true⟩) :
      TasksStep env cfg s (.wake p)
        ({ s with notified := s.notified + 1 }.setPublisher p .idle)
  | claim {nowUs : Int64} {res : Except EspErr StorageReply} {ctx' : B.Ctx} {dev' : B.Dev}
      (ready : s.worker = .firing [])
      (run : Runs B.device env (B.ops.call (.claimNext nowUs)) s.ctx s.dev
        (.returned res ctx' dev')) :
      TasksStep env cfg s (.claim nowUs res)
        { s with ctx := ctx', dev := dev', worker := .afterClaim res }
  | take (rests : s.worker = .resting) :
      TasksStep env cfg s .take
        { s with worker := if s.notified = 0 then .blocked else .firing [], notified := 0 }
  | woken (blocked : s.worker = .blocked) (notified : s.notified ≠ 0) :
      TasksStep env cfg s .woken { s with worker := .firing [], notified := 0 }
  | timeout (blocked : s.worker = .blocked) :
      TasksStep env cfg s .timeout { s with worker := .firing [], notified := 0 }
  | deliver {msg : ClaimedMessage} {result : DeliveryResult} {nowUs : Int64} {randomU32 : UInt32}
      (delivers : s.worker = .delivering msg) :
      TasksStep env cfg s (.deliver msg result nowUs randomU32)
        (let handled := handleDeliveryResult cfg.retry msg nowUs randomU32 result
         { s with worker := .settling handled.1 (handled.2.map (·, msg.id)) })
  | settle {op : StorageOp} {events : Events} {res : Except EspErr StorageReply} {ctx' : B.Ctx}
      {dev' : B.Dev} (settles : s.worker = .settling op events)
      (run : Runs B.device env (B.ops.call op) s.ctx s.dev (.returned res ctx' dev')) :
      TasksStep env cfg s (.settle op res)
        { s with
          ctx := ctx'
          dev := dev'
          counters := s.counters.after op res
          worker := .firing events }
  | workerFires {event : EdgesyncEvent} {id : UInt64} {events : Events}
      (fires : s.worker = .firing ((event, id) :: events)) :
      TasksStep env cfg s (.workerFires event id) { s with worker := .firing events }
  | stats {res : Except EspErr StorageReply} {ctx' : B.Ctx} {dev' : B.Dev}
      (run : Runs B.device env (B.ops.call (.getStats {})) s.ctx s.dev (.returned res ctx' dev')) :
      TasksStep env cfg s (.stats res (s.counters.stats res)) { s with ctx := ctx', dev := dev' }

/-- The storage calls of a step. -/
def TasksLabel.calls : TasksLabel → List StorageCall
  | .publish _ _ calls _ => calls
  | .claim nowUs res => [(.claimNext nowUs, res)]
  | .settle op res => [(op, res)]
  | .stats res _ => [(.getStats {}, res)]
  | _ => []

end Stack

end EdgeSync
