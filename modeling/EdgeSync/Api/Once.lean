/-
  Api/Once.lean --- every message is served once by a server that knows its key.

  A message may be delivered again after a loss of power, but every request for it carries
  its id as the idempotency key.  A server that remembers the keys of the requests it has
  served then serves every accepted message exactly once.
-/
import EdgeSync.Api.Publish
import EdgeSync.Foundation.Once
import EdgeSync.Stack.Duplicates
import EdgeSync.Transport.Address

set_option autoImplicit false

namespace EdgeSync

open Foundation

/-! ## The key -/

theorem hexDigit_inj : ∀ m < 16, ∀ n < 16, hexDigit m = hexDigit n → m = n := by decide

/-- Numbers with the same hexadecimal digits are the same. -/
theorem mod_eq_of_digits {a b : Nat} :
    ∀ n, (∀ k < n, a / 16 ^ k % 16 = b / 16 ^ k % 16) → a % 16 ^ n = b % 16 ^ n
  | 0, _ => by rw [Nat.pow_zero, Nat.mod_one, Nat.mod_one]
  | n + 1, h => by
    rw [Nat.mod_pow_succ, Nat.mod_pow_succ, mod_eq_of_digits n fun k hk => h k (by omega),
      h n (by omega)]

/-- Different ids have different keys. -/
theorem edgesyncIdToHex_inj {i j : UInt64} (h : edgesyncIdToHex i = edgesyncIdToHex j) : i = j := by
  have hdigits : ∀ k < 16, i.toNat / 16 ^ k % 16 = j.toNat / 16 ^ k % 16 := by
    intro k hk
    have hdigit := (List.map_inj_left.mp h) (15 - k) (List.mem_range.mpr (by omega))
    rw [show 15 - (15 - k) = k by omega] at hdigit
    exact hexDigit_inj _ (Nat.mod_lt _ (by omega)) _ (Nat.mod_lt _ (by omega)) hdigit
  have hmod := mod_eq_of_digits 16 hdigits
  have hi := i.toNat_lt
  have hj := j.toNat_lt
  rw [Nat.mod_eq_of_lt (by omega), Nat.mod_eq_of_lt (by omega)] at hmod
  exact UInt64.toNat_inj.mp hmod

/-! ## The headers of a request -/

/-- A letter in lower case. -/
def asciiLower (b : UInt8) : UInt8 := if 0x41 ≤ b ∧ b ≤ 0x5A then b + 0x20 else b

/-- Header names are compared without regard to case. -/
def sameHeader (a b : Bytes) : Bool := a.map asciiLower == b.map asciiLower

/-- The value of a header; `esp_http_client_set_header` replaces an earlier one. -/
def HttpRequest.header (request : HttpRequest) (name : Bytes) : Option Bytes :=
  (request.headers.reverse.find? fun x => sameHeader x.1 name).map (·.2)

/-- The name of the header with the key. -/
def HttpCtx.keyHeader (ctx : HttpCtx) : Bytes := ctx.config.idempotencyHeader.getD idempotencyKey

/-- The key of a request. -/
def HttpCtx.key (ctx : HttpCtx) (request : HttpRequest) : Option Bytes :=
  request.header ctx.keyHeader

/-- The headers that the application adds. -/
def HttpCtx.addedHeaders (ctx : HttpCtx) : List (Bytes × Bytes) :=
  (match ctx.config.authHeaderName, ctx.config.authHeaderValue with
    | some name, some value => [(name, value)]
    | _, _ => []) ++
  ctx.config.extraHeaders

/-- The key is sent, and no other header takes its place or that of the destination. -/
structure HttpCtx.Keyed (ctx : HttpCtx) : Prop where
  named : cString ctx.keyHeader ≠ []
  key_kept : ∀ x ∈ ctx.addedHeaders, sameHeader x.1 ctx.keyHeader = false
  destination_kept : ∀ x ∈ ctx.addedHeaders, sameHeader x.1 destinationHeader = false
  distinct : sameHeader ctx.keyHeader destinationHeader = false

/-- The request is for the message with this id, to this destination. -/
structure HttpCtx.IsFor (ctx : HttpCtx) (id : UInt64) (destination : Bytes) (request : HttpRequest) :
    Prop where
  key : ctx.key request = some (edgesyncIdToHex id)
  destination : request.header destinationHeader = some destination

section Headers

variable {ctx : HttpCtx} {message : EdgesyncMessage} {client : EspHttpClient} {request : HttpRequest}

/-- A header that is not set again. -/
theorem header_of_append {request : HttpRequest} {name value : Bytes}
    (before : List (Bytes × Bytes)) {after : List (Bytes × Bytes)} (h : request.headers = before ++ (name, value) :: after)
    (hafter : ∀ x ∈ after, sameHeader x.1 name = false) : request.header name = some value := by
  have hself : sameHeader name name = true := beq_self_eq_true _
  have hnone : after.reverse.find? (fun x => sameHeader x.1 name) = none :=
    List.find?_eq_none.mpr fun x hx => by simp [hafter x (List.mem_reverse.mp hx)]
  rw [HttpRequest.header, h, List.reverse_append, List.reverse_cons, List.append_assoc,
    List.find?_append, hnone, Option.none_or, List.singleton_append, List.find?_cons, hself]
  rfl

theorem headers_eq (hnamed : cString ctx.keyHeader ≠ []) : ctx.headers message =
    [(contentTypeHeader, ctx.config.contentType.getD octetStream),
      (destinationHeader, cString message.destination),
      (ctx.keyHeader, edgesyncIdToHex message.id)] ++ ctx.addedHeaders := by
  rw [HttpCtx.headers, show ctx.config.idempotencyHeader.getD idempotencyKey = ctx.keyHeader from rfl,
    if_neg hnamed, HttpCtx.addedHeaders]
  exact List.append_assoc _ _ _

/-- A request is for the message it was made of. -/
theorem HttpCtx.Keyed.isFor (keyed : ctx.Keyed)
    (h : (httpOpDeliver client ctx message).sent = some request) :
    ctx.IsFor message.id (cString message.destination) request := by
  have hheaders : request.headers = ctx.headers message := by
    unfold httpOpDeliver at h
    split at h
    · cases h
    · simp only at h
      split_ifs at h
      split at h <;> (rw [← Option.some.inj h])
  rw [headers_eq keyed.named] at hheaders
  constructor
  · exact header_of_append [_, _] hheaders keyed.key_kept
  · refine header_of_append [_] hheaders fun x hx => ?_
    rcases List.mem_cons.mp hx with rfl | hx
    · exact keyed.distinct
    · exact keyed.destination_kept x hx

/-- A delivery that succeeds has sent its request. -/
theorem sent_of_success (h : (httpOpDeliver client ctx message).result = .success) :
    ∃ request, (httpOpDeliver client ctx message).sent = some request := by
  rcases httpOpDeliver_sent client ctx message with ⟨address, -, hsent⟩ | ⟨-, hfailed⟩
  · obtain ⟨request, hrequest, -⟩ := Option.map_eq_some_iff.mp hsent
    exact ⟨request, hrequest⟩
  · exact absurd h hfailed

end Headers

/-! ## Deliveries over HTTP -/

/-- The message as `deliver` gets it, with the bytes in the claim buffer. -/
def ClaimedMessage.message (msg : ClaimedMessage) (payload : Bytes) : EdgesyncMessage where
  id := msg.id
  destination := msg.destination
  priority := msg.priority
  createdAtUs := msg.createdAtUs
  payload := payload

/-- A run whose deliveries are requests, and the requests that the server has taken.  What
the HTTP client answers may change from delivery to delivery; a request that counts as
delivered was taken. -/
inductive HttpRun (ctx : HttpCtx) : List StackLabel → List HttpRequest → Prop where
  | nil : HttpRun ctx [] []
  | other {labels : List StackLabel} {requests : List HttpRequest} {label : StackLabel}
      (run : HttpRun ctx labels requests) (silent : label.hands? = none) :
      HttpRun ctx (labels ++ [label]) requests
  | taken {labels : List StackLabel} {requests : List HttpRequest} {client : EspHttpClient}
      {msg : ClaimedMessage} {payload : Bytes} {nowUs : Int64} {randomU32 : UInt32}
      {request : HttpRequest} (run : HttpRun ctx labels requests)
      (sent : (httpOpDeliver client ctx (msg.message payload)).sent = some request) :
      HttpRun ctx (labels ++ [.task (.deliver msg
        (httpOpDeliver client ctx (msg.message payload)).result nowUs randomU32)])
        (requests ++ [request])
  | lost {labels : List StackLabel} {requests : List HttpRequest} {client : EspHttpClient}
      {msg : ClaimedMessage} {payload : Bytes} {nowUs : Int64} {randomU32 : UInt32}
      (run : HttpRun ctx labels requests)
      (failed : (httpOpDeliver client ctx (msg.message payload)).result ≠ .success) :
      HttpRun ctx (labels ++ [.task (.deliver msg
        (httpOpDeliver client ctx (msg.message payload)).result nowUs randomU32)]) requests

/-- What a server that knows the keys has served. -/
def HttpCtx.served (ctx : HttpCtx) (requests : List HttpRequest) : List HttpRequest :=
  appliedOnce ctx.key requests

section Http

variable {ctx : HttpCtx} {labels : List StackLabel} {requests : List HttpRequest}

theorem handedMessages_append (labels labels' : List StackLabel) :
    handedMessages (labels ++ labels') = handedMessages labels ++ handedMessages labels' :=
  List.filterMap_append

/-- Every request is for a message that was handed out. -/
theorem HttpRun.requested (run : HttpRun ctx labels requests) (keyed : ctx.Keyed) :
    ∀ request ∈ requests, ∃ msg ∈ handedMessages labels,
      ctx.IsFor msg.id (cString msg.destination) request := by
  induction run with
  | nil => exact fun _ h => absurd h List.not_mem_nil
  | other run silent ih =>
    intro request hrequest
    obtain ⟨msg, hmsg, isFor⟩ := ih request hrequest
    exact ⟨msg, by rw [handedMessages_append]; exact List.mem_append_left _ hmsg, isFor⟩
  | @taken labels requests client msg payload nowUs randomU32 request run sent ih =>
    intro request' hrequest
    rw [handedMessages_append]
    rcases List.mem_append.mp hrequest with hrequest | hrequest
    · obtain ⟨msg, hmsg, isFor⟩ := ih request' hrequest
      exact ⟨msg, List.mem_append_left _ hmsg, isFor⟩
    · rw [List.mem_singleton.mp hrequest]
      exact ⟨msg, List.mem_append_right _ List.mem_cons_self, keyed.isFor sent⟩
  | lost run failed ih =>
    intro request hrequest
    obtain ⟨msg, hmsg, isFor⟩ := ih request hrequest
    exact ⟨msg, by rw [handedMessages_append]; exact List.mem_append_left _ hmsg, isFor⟩

theorem deliveredIds_append (labels labels' : List StackLabel) :
    deliveredIds (labels ++ labels') = deliveredIds labels ++ deliveredIds labels' :=
  List.filterMap_append

theorem delivers?_of_silent {label : StackLabel} (h : label.hands? = none) :
    label.delivers? = none := by
  unfold StackLabel.delivers?
  split
  · cases h
  · rfl

/-- Every message that was delivered was requested. -/
theorem HttpRun.delivered (run : HttpRun ctx labels requests) (keyed : ctx.Keyed) :
    ∀ id ∈ deliveredIds labels, ∃ request ∈ requests, ctx.key request = some (edgesyncIdToHex id) := by
  have hlast : ∀ {msg : ClaimedMessage} {result : DeliveryResult} {nowUs : Int64}
      {randomU32 : UInt32} {id : UInt64},
      id ∈ deliveredIds [.task (.deliver msg result nowUs randomU32)] →
      result = .success ∧ msg.id = id := by
    intro msg result nowUs randomU32 id hid
    obtain ⟨label, hlabel, hsome⟩ := List.mem_filterMap.mp hid
    rw [List.mem_singleton.mp hlabel] at hsome
    cases result with
    | success => exact ⟨rfl, Option.some.inj hsome⟩
    | retryableFailure => cases hsome
    | permanentFailure => cases hsome
  induction run with
  | nil => exact fun _ h => absurd h List.not_mem_nil
  | other run silent ih =>
    intro id hid
    rw [deliveredIds_append] at hid
    rcases List.mem_append.mp hid with hid | hid
    · exact ih id hid
    · obtain ⟨label, hlabel, hsome⟩ := List.mem_filterMap.mp hid
      rw [List.mem_singleton.mp hlabel, delivers?_of_silent silent] at hsome
      cases hsome
  | @taken labels requests client msg payload nowUs randomU32 request run sent ih =>
    intro id hid
    rw [deliveredIds_append] at hid
    rcases List.mem_append.mp hid with hid | hid
    · obtain ⟨request', hrequest, hkey⟩ := ih id hid
      exact ⟨request', List.mem_append_left _ hrequest, hkey⟩
    · obtain ⟨-, rfl⟩ := hlast hid
      exact ⟨request, List.mem_append_right _ List.mem_cons_self, (keyed.isFor sent).key⟩
  | lost run failed ih =>
    intro id hid
    rw [deliveredIds_append] at hid
    rcases List.mem_append.mp hid with hid | hid
    · exact ih id hid
    · exact absurd (hlast hid).1 failed

end Http

/-! ## Exactly once -/

/-- The message is still queued, made room for another one, or was served, to its
destination; what was served was published, and no key was served twice. -/
structure ServedOnce (ctx : HttpCtx) (labels : List StackLabel) (requests : List HttpRequest)
    (queued : EdgesyncMessage → Prop) : Prop where
  accepted : ∀ message ∈ acceptedMessages labels, queued message ∨
    message.id ∈ droppedIds labels ∨
    ∃ request ∈ ctx.served requests, ctx.IsFor message.id message.destination request
  genuine : ∀ request ∈ ctx.served requests, ∃ message ∈ publishedMessages (storageLabels labels),
    ctx.IsFor message.id message.destination request
  once : ((ctx.served requests).map ctx.key).Nodup

section Served

variable {D : DurableBackend} {config : EdgesyncConfig} {ctx : HttpCtx} {labels : List StackLabel}
  {t : Tasks D.B} {requests : List HttpRequest}

/-- What holds of every backend that loses nothing. -/
theorem servedOnce (h : DurableRun D config.stack labels t)
    (checked : ApiPublished config.messageSize labels) (keyed : ctx.Keyed)
    (http : HttpRun ctx labels requests) : ServedOnce ctx labels requests fun message =>
      ∃ x ∈ D.queue t.ctx t.dev, D.view x = D.view (StoredMessage.ofMessage message) := by
  have hserved : ∀ request ∈ ctx.served requests,
      ∃ message ∈ publishedMessages (storageLabels labels),
        ctx.IsFor message.id message.destination request := by
    intro request hrequest
    obtain ⟨msg, hmsg, isFor⟩ :=
      http.requested keyed request (appliedOnce_subset ctx.key requests hrequest)
    obtain ⟨message, hm, tells⟩ := h.genuine hmsg
    have hdestination : cString msg.destination = message.destination := by
      rw [tells.destination]
      show cString (cString message.destination) = message.destination
      have hself := (published_checked (stack_worker h.run) checked hm).destination_eq
      rw [hself, hself]
    rw [show msg.id = message.id from tells.id, hdestination] at isFor
    exact ⟨message, hm, isFor⟩
  refine ⟨fun message hm => ?_, hserved, appliedOnce_nodup ctx.key requests⟩
  rcases h.at_least_once hm with hqueued | hdelivered | hdropped
  · exact .inl hqueued
  · refine .inr (.inr ?_)
    obtain ⟨request, hrequest, hkey⟩ := http.delivered keyed message.id hdelivered
    obtain ⟨request', hrequest', hsame⟩ := exists_mem_appliedOnce ctx.key hrequest
    obtain ⟨message', hm', isFor⟩ := hserved request' hrequest'
    -- the id of the key is the id of one message only
    have hid : message'.id = message.id :=
      edgesyncIdToHex_inj (Option.some.inj (isFor.key.symm.trans (hsame.trans hkey)))
    have hmessage := published_eq h.unique hm' (accepted_published (stack_worker h.run) hm) hid
    exact ⟨request', hrequest', hmessage ▸ isFor⟩
  · exact .inr (.inl hdropped)

end Served

/-- A server that knows the keys it has served serves every accepted message exactly once,
unless the message is still queued or made room for another one. -/
theorem published_once (config : EdgesyncConfig) (ctx : HttpCtx) (keyed : ctx.Keyed) :
    (∀ (partitionSize : UInt32) (fcfg : FlashqConfig) (labels : List StackLabel)
        (t : Tasks (flashqBackend fcfg)) (requests : List HttpRequest),
      edgesyncFlashqCreate partitionSize config.queueSize config.messageSize = some fcfg →
      ApiRun (flashqDurable fcfg) config labels t → HttpRun ctx labels requests →
      ServedOnce ctx labels requests fun message =>
        ∃ x ∈ (FlashqCtx.core t.ctx).queue fcfg t.dev,
          x.accepted = StoredMessage.ofMessage message) ∧
    ∀ (usage : BlobStore → UInt32 × UInt32) (ncfg : NvsConfig)
        (hmax : ncfg.maxMessages.toNat ≤ 100000) (labels : List StackLabel)
        (t : Tasks (nvsBackend usage ncfg)) (requests : List HttpRequest),
      edgesyncNvsStorageCreate config.queueSize config.messageSize = some ncfg →
      ApiRun (nvsDurable ncfg usage hmax) config labels t → HttpRun ctx labels requests →
      ServedOnce ctx labels requests fun message =>
        ∃ x ∈ NvsCtx.queue t.ctx t.dev,
          x.accepted.heading = (StoredMessage.ofMessage message).heading := by
  refine ⟨fun partitionSize fcfg labels t requests hcreate api run => ?_,
    fun usage ncfg hmax labels t requests hcreate api run =>
      servedOnce api.nvs api.published keyed run⟩
  have hsize : fcfg.maxMessageSize = config.messageSize := by
    unfold edgesyncFlashqCreate at hcreate
    split_ifs at hcreate
    rw [← Option.some.inj hcreate]
  exact servedOnce (api.flashq hsize) api.published keyed run

/-! ## A message that is sent twice -/

/-- A server that answers every request. -/
def answeringClient : EspHttpClient := ⟨fun _ => true, fun _ => some 200⟩

/-- A delivery of the step succeeded, to this destination. -/
def StackLabel.deliversTo (destination : Bytes) : StackLabel → Bool
  | .task (.deliver msg result _ _) => result = .success ∧ msg.destination = destination
  | _ => true

/-- Requests that are answered make an HTTP run. -/
theorem httpRun_answered {ctx : HttpCtx} {destination : Bytes}
    (answered : ∀ message : EdgesyncMessage, message.destination = destination →
      (httpOpDeliver answeringClient ctx message).result = .success) {labels : List StackLabel}
    (h : labels.all (·.deliversTo destination) = true) :
    ∃ requests, HttpRun ctx labels requests ∧ requests.length = (handedMessages labels).length := by
  induction labels using List.reverseRecOn with
  | nil => exact ⟨[], .nil, rfl⟩
  | append_singleton labels label ih =>
    rw [List.all_append, Bool.and_eq_true_iff] at h
    obtain ⟨requests, run, hlen⟩ := ih h.1
    have hlabel : label.deliversTo destination = true := List.all_eq_true.mp h.2 label List.mem_cons_self
    rw [handedMessages_append, List.length_append, ← hlen]
    cases hhands : label.hands? with
    | none =>
      refine ⟨requests, run.other hhands, ?_⟩
      rw [handedMessages, List.filterMap_cons, hhands]
      rfl
    | some msg =>
      have hdeliver : ∃ nowUs randomU32, label = .task (.deliver msg .success nowUs randomU32) ∧
          msg.destination = destination := by
        unfold StackLabel.hands? at hhands
        split at hhands
        · rename_i msg' result nowUs randomU32
          obtain ⟨rfl, hdestination⟩ := of_decide_eq_true hlabel
          cases hhands
          exact ⟨nowUs, randomU32, rfl, hdestination⟩
        · cases hhands
      obtain ⟨nowUs, randomU32, rfl, hdestination⟩ := hdeliver
      have hsuccess := answered (msg.message []) hdestination
      obtain ⟨request, hsent⟩ := sent_of_success hsuccess
      have hrun : HttpRun ctx (labels ++ [.task (.deliver msg
          (httpOpDeliver answeringClient ctx (msg.message [])).result nowUs randomU32)])
          (requests ++ [request]) := run.taken hsent
      rw [hsuccess] at hrun
      refine ⟨_, hrun, ?_⟩
      rw [List.length_append, handedMessages, List.filterMap_cons]
      rfl

/-- A small queue with the default retries. -/
def smallQueue : EdgesyncConfig := ⟨4, 16, .rejectNew, 0, 0, 0, false, 0⟩

/-- Messages go to `h/a` and the like. -/
def plainHttp : HttpCtx :=
  ⟨{ longUrlConfig with url := some [0x68], noAppendDestination := false }, [0x68]⟩

theorem plainHttp_keyed : plainHttp.Keyed where
  named := by decide
  key_kept _ hx := absurd hx List.not_mem_nil
  destination_kept _ hx := absurd hx List.not_mem_nil
  distinct := by decide

/-- What a caller passes for `slotMessage`. -/
def slotArgs : PublishArgs where
  destination := some [0x61]
  data := some [1, 2, 3]
  dataLen := 3
  options := some ⟨7, 1⟩
  points bytes hbytes := by
    rw [← Option.some.inj hbytes]
    rfl

theorem slotMessage_checked : slotMessage.Checked smallQueue.messageSize :=
  ⟨slotArgs, 0, 5, by decide⟩

/-- The power goes before the first delivery is settled, and the message is sent again. -/
theorem published_once_twice :
    ∃ labels t requests, ApiRun slotDurable smallQueue labels t ∧
      HttpRun plainHttp labels requests ∧ requests.length = 2 ∧
      ServedOnce plainHttp labels requests fun message => ∃ x ∈ NvsCtx.queue t.ctx t.dev,
        x.accepted.heading = (StoredMessage.ofMessage message).heading := by
  have hcheck : (StackSystem.play smallQueue.stack (.off emptyStore) twiceScript []).any
      (slotShows fun labels _ => decide (labels.filterMap (·.message?) = [slotMessage] ∧
        labels.all (·.deliversTo [0x61]) = true ∧ (handedMessages labels).length = 2)) = true := by
    decide +kernel
  obtain ⟨labels, t, run, htest⟩ := slotRun (by decide) hcheck
  obtain ⟨hmessages, hdelivers, hlen⟩ := of_decide_eq_true htest
  have api : ApiRun slotDurable smallQueue labels t := by
    refine ⟨run.run, fun label hlabel message hmessage => ?_, run.unique⟩
    have hmem := List.mem_filterMap.mpr ⟨label, hlabel, hmessage⟩
    rw [hmessages] at hmem
    rw [List.mem_singleton.mp hmem]
    exact slotMessage_checked
  have answered : ∀ message : EdgesyncMessage, message.destination = [0x61] →
      (httpOpDeliver answeringClient plainHttp message).result = .success := by
    intro message hdestination
    unfold httpOpDeliver
    rw [hdestination]
    rfl
  obtain ⟨requests, http, hrequests⟩ := httpRun_answered answered hdelivers
  exact ⟨labels, t, requests, api, http, hrequests.trans hlen,
    (published_once smallQueue plainHttp plainHttp_keyed).2 noUsage slotConfig slotConfig_max labels t
      requests rfl api http⟩

end EdgeSync
