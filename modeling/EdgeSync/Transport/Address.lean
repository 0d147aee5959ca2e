/-
  Transport/Address.lean --- where the built-in transports deliver to
  (`edgesync_http.c`, `edgesync_mqtt.c`).

  The configured string is copied into an array when a transport is created, and
  the address is put together from the copy at every delivery.  The HTTP client and
  the MQTT client are outside: what they answer is a parameter.
-/
import EdgeSync.Transport.Mqtt

set_option autoImplicit false

namespace EdgeSync

open Foundation

/-! ## Strings in arrays -/

/-- `strlcpy(dst, src, size)`: the string that is in `dst` afterwards. -/
def strlcpy (src : Bytes) (size : Nat) : Bytes := (cString src).take (size - 1)

/-- The address in an array of `size` bytes, from the copy `base`: `strlcpy`, or
`snprintf` of `"%s/%s"` where the result fits. -/
def deliveryAddress (size : Nat) (noAppendDestination : Bool) (base destination : Bytes) :
    Option Bytes :=
  if noAppendDestination then some (strlcpy base size)
  else
    let address := cString base ++ 0x2F :: cString destination
    if size ≤ address.length then none else some address

/-! ## The HTTP transport -/

/-- `EDGESYNC_HTTP_MAX_URL_LEN`. -/
def httpMaxUrlLen : Nat := 256

/-- `CONFIG_EDGESYNC_HTTP_DEFAULT_TIMEOUT_MS`. -/
def httpDefaultTimeoutMs : UInt32 := 30000

/-- `edgesync_http_transport_config_t`; nothing stands for `NULL`, and for a
`classify_status` that returns -1. -/
structure EdgesyncHttpTransportConfig where
  url : Option Bytes
  noAppendDestination : Bool
  timeoutMs : UInt32
  contentType : Option Bytes
  idempotencyHeader : Option Bytes
  authHeaderName : Option Bytes
  authHeaderValue : Option Bytes
  extraHeaders : List (Bytes × Bytes)
  useCertBundle : Bool
  certPem : Option Bytes
  skipCertCommonNameCheck : Bool
  classifyStatus : Option (Int → Option DeliveryResult)

/-- `edgesync_http_ctx_t`. -/
structure HttpCtx where
  config : EdgesyncHttpTransportConfig
  baseUrl : Bytes

/-- `"https://"`. -/
def httpsScheme : Bytes := [0x68, 0x74, 0x74, 0x70, 0x73, 0x3A, 0x2F, 0x2F]

/-- `edgesync_http_transport_create`, where `calloc` finds memory. -/
def edgesyncHttpTransportCreate (config : EdgesyncHttpTransportConfig) : Except EspErr HttpCtx :=
  match config.url with
  | none => .error .transport
  | some url =>
      let baseUrl := strlcpy url httpMaxUrlLen
      .ok
        { config :=
            if config.useCertBundle = false ∧ config.certPem = none ∧
                baseUrl.take 8 = httpsScheme then
              { config with useCertBundle := true }
            else config
          baseUrl := baseUrl }

/-- A hexadecimal digit of `edgesync_id_to_hex`. -/
def hexDigit (n : Nat) : UInt8 := UInt8.ofNat (if n < 10 then 0x30 + n else 0x61 + (n - 10))

/-- `edgesync_id_to_hex`. -/
def edgesyncIdToHex (id : UInt64) : Bytes :=
  (List.range 16).map fun i => hexDigit (id.toNat / 16 ^ (15 - i) % 16)

/-- What `esp_http_client_init` is given. -/
structure HttpClientConfig where
  url : Bytes
  timeoutMs : UInt32
  skipCertCommonNameCheck : Bool
  certPem : Option Bytes
  crtBundle : Bool

/-- A POST request as it is performed. -/
structure HttpRequest where
  client : HttpClientConfig
  headers : List (Bytes × Bytes)
  body : Bytes

/-- The HTTP client: whether a handle is made, and the status code of a request,
where there is an answer. -/
structure EspHttpClient where
  init : HttpClientConfig → Bool
  perform : HttpRequest → Option Int

/-- `default_classify`. -/
def defaultClassify (status : Int) : DeliveryResult :=
  if status ≤ 0 then .retryableFailure
  else if 200 ≤ status ∧ status < 300 then .success
  else if status ∈ [400, 401, 403, 404, 422] then .permanentFailure
  else if status ∈ [408, 429, 500, 502, 503, 504] then .retryableFailure
  else if 500 ≤ status then .retryableFailure
  else .permanentFailure

/-- What a delivery has done: the request that was sent, the result and
`*out_status_code`. -/
structure HttpDelivery where
  sent : Option HttpRequest
  result : DeliveryResult
  statusCode : Int

/-- `"Content-Type"`. -/
def contentTypeHeader : Bytes :=
  [0x43, 0x6F, 0x6E, 0x74, 0x65, 0x6E, 0x74, 0x2D, 0x54, 0x79, 0x70, 0x65]

/-- `"application/octet-stream"`. -/
def octetStream : Bytes :=
  [0x61, 0x70, 0x70, 0x6C, 0x69, 0x63, 0x61, 0x74, 0x69, 0x6F, 0x6E, 0x2F,
    0x6F, 0x63, 0x74, 0x65, 0x74, 0x2D, 0x73, 0x74, 0x72, 0x65, 0x61, 0x6D]

/-- `"X-EdgeSync-Destination"`. -/
def destinationHeader : Bytes :=
  [0x58, 0x2D, 0x45, 0x64, 0x67, 0x65, 0x53, 0x79, 0x6E, 0x63, 0x2D,
    0x44, 0x65, 0x73, 0x74, 0x69, 0x6E, 0x61, 0x74, 0x69, 0x6F, 0x6E]

/-- `"Idempotency-Key"`. -/
def idempotencyKey : Bytes :=
  [0x49, 0x64, 0x65, 0x6D, 0x70, 0x6F, 0x74, 0x65, 0x6E, 0x63, 0x79, 0x2D, 0x4B, 0x65, 0x79]

/-- The headers of a request. -/
def HttpCtx.headers (ctx : HttpCtx) (message : EdgesyncMessage) : List (Bytes × Bytes) :=
  let idemHeader := ctx.config.idempotencyHeader.getD idempotencyKey
  [(contentTypeHeader, ctx.config.contentType.getD octetStream),
    (destinationHeader, cString message.destination)] ++
  (if cString idemHeader = [] then [] else [(idemHeader, edgesyncIdToHex message.id)]) ++
  (match ctx.config.authHeaderName, ctx.config.authHeaderValue with
    | some name, some value => [(name, value)]
    | _, _ => []) ++
  ctx.config.extraHeaders

/-- `esp_http_client_config_t`, as `op_deliver` fills it in. -/
def HttpCtx.clientConfig (ctx : HttpCtx) (url : Bytes) : HttpClientConfig where
  url := url
  timeoutMs := if ctx.config.timeoutMs = 0 then httpDefaultTimeoutMs else ctx.config.timeoutMs
  skipCertCommonNameCheck := ctx.config.skipCertCommonNameCheck
  certPem := ctx.config.certPem
  crtBundle := ctx.config.certPem.isNone && ctx.config.useCertBundle

/-- `op_deliver` of the HTTP transport. -/
def httpOpDeliver (client : EspHttpClient) (ctx : HttpCtx) (message : EdgesyncMessage) :
    HttpDelivery :=
  match deliveryAddress httpMaxUrlLen ctx.config.noAppendDestination ctx.baseUrl
      message.destination with
  | none => ⟨none, .permanentFailure, 0⟩
  | some url =>
      if client.init (ctx.clientConfig url) then
        let request : HttpRequest :=
          ⟨ctx.clientConfig url, ctx.headers message, message.payload⟩
        match client.perform request with
        | none => ⟨some request, .retryableFailure, 0⟩
        | some status =>
            ⟨some request, ((ctx.config.classifyStatus.bind fun classify => classify status).getD
              (defaultClassify status)), status⟩
      else ⟨none, .retryableFailure, 0⟩

/-! ## The MQTT transport -/

/-- `CONFIG_EDGESYNC_MQTT_DEFAULT_QOS`. -/
def mqttDefaultQos : Int := 1

/-- What delivery uses of `edgesync_mqtt_transport_config_t`. -/
structure EdgesyncMqttTransportConfig where
  brokerUri : Option Bytes
  topic : Option Bytes
  noAppendDestination : Bool
  qos : Int
  retain : Bool

/-- `edgesync_mqtt_ctx_t`, without the client and its queue. -/
structure MqttCtx where
  config : EdgesyncMqttTransportConfig
  baseTopic : Bytes

/-- `edgesync_mqtt_transport_create`, where there is memory and the client can be
made. -/
def edgesyncMqttTransportCreate (config : EdgesyncMqttTransportConfig) : Except EspErr MqttCtx :=
  match config.brokerUri, config.topic with
  | some _, some topic => .ok ⟨config, strlcpy topic mqttMaxTopicLen⟩
  | _, _ => .error .transport

/-- What `esp_mqtt_client_publish` is given. -/
structure MqttPublish where
  topic : Bytes
  payload : Bytes
  qos : Int
  retain : Bool

/-- The MQTT client: the message id of a publish, and the acknowledgement that
arrives in time. -/
structure EspMqttClient where
  publish : MqttPublish → Int
  acked : MqttPublish → Option Int

/-- What a delivery has done: what was published, the result and
`*out_status_code`. -/
structure MqttDelivered where
  sent : Option MqttPublish
  result : DeliveryResult
  statusCode : Int

/-- The arguments of the publish. -/
def MqttCtx.publish (ctx : MqttCtx) (topic payload : Bytes) : MqttPublish where
  topic := topic
  payload := payload
  qos := if ctx.config.qos < 0 ∨ 2 < ctx.config.qos then mqttDefaultQos else ctx.config.qos
  retain := ctx.config.retain

/-- `op_deliver` of the MQTT transport; the queue and its overtaking
acknowledgements are the subject of `MqttTransport`. -/
def mqttOpDeliver (client : EspMqttClient) (ctx : MqttCtx) (message : EdgesyncMessage) :
    MqttDelivered :=
  match deliveryAddress mqttMaxTopicLen ctx.config.noAppendDestination ctx.baseTopic
      message.destination with
  | none => ⟨none, .permanentFailure, 0⟩
  | some topic =>
      let publish := ctx.publish topic message.payload
      let msgId := client.publish publish
      if msgId < 0 then ⟨some publish, .retryableFailure, msgId⟩
      else if client.acked publish = some msgId then ⟨some publish, .success, msgId⟩
      else ⟨some publish, .retryableFailure, msgId⟩

/-- The transport with its queue builds the same topic. -/
theorem MqttConfig.topic_eq (cfg : MqttConfig) (destination : Bytes) :
    cfg.topic destination = deliveryAddress mqttMaxTopicLen cfg.noAppendDestination cfg.baseTopic
      destination := by
  unfold MqttConfig.topic deliveryAddress
  split
  · rfl
  · simp only
    split
    · rw [if_neg (by omega)]
    · rw [if_pos (by omega)]

/-! ## The address -/

/-- The address a delivery is meant for. -/
def configuredAddress (noAppendDestination : Bool) (configured destination : Bytes) : Bytes :=
  if noAppendDestination then cString configured
  else cString configured ++ 0x2F :: cString destination

/-- The delivery went to the configured address, or nowhere and failed. -/
def DeliveredTo (noAppendDestination : Bool) (configured destination : Bytes) (sent : Option Bytes)
    (result : DeliveryResult) : Prop :=
  sent = some (configuredAddress noAppendDestination configured destination) ∨
    sent = none ∧ result ≠ .success

theorem cString_strlcpy (src : Bytes) (size : Nat) : cString (strlcpy src size) = strlcpy src size := by
  apply cString_eq_self
  intro b hb
  exact ne_zero_of_mem_cString (List.mem_of_mem_take hb)

/-- The address is exact unless the copy was cut short and is used as it is. -/
theorem deliveryAddress_exact {size : Nat} {noAppend : Bool} {configured destination : Bytes}
    (hsize : 0 < size) :
    (∀ address, deliveryAddress size noAppend (strlcpy configured size) destination = some address →
      address = configuredAddress noAppend configured destination) ↔
      noAppend = false ∨ strlen configured < size := by
  have hshort : strlen configured < size → strlcpy configured size = cString configured := by
    intro h
    exact List.take_of_length_le (by rw [← strlen_eq_length_cString]; omega)
  have hlong : ¬ strlen configured < size → (strlcpy configured size).length = size - 1 := by
    intro h
    rw [strlcpy, List.length_take, ← strlen_eq_length_cString]
    omega
  cases noAppend with
  | true =>
    have hself : strlcpy (strlcpy configured size) size = strlcpy configured size := by
      rw [strlcpy, cString_strlcpy, strlcpy, List.take_take, Nat.min_self]
    simp only [deliveryAddress, configuredAddress, if_true, Option.some.injEq, forall_eq', hself]
    constructor
    · intro h
      by_contra hno
      have hlen := hlong (by simpa using hno)
      rw [h, ← strlen_eq_length_cString] at hlen
      omega
    · exact fun h => hshort (by simpa using h)
  | false =>
    refine ⟨fun _ => .inl rfl, fun _ address h => ?_⟩
    simp only [deliveryAddress, configuredAddress, Bool.false_eq_true, if_false, cString_strlcpy]
      at h ⊢
    split at h
    · exact absurd h nofun
    · rename_i hfit
      obtain rfl := Option.some.inj h
      by_cases hlen : strlen configured < size
      · rw [hshort hlen]
      · -- a copy that fills the array leaves no room for the destination
        rw [List.length_append, List.length_cons, hlong hlen] at hfit
        omega

/-- The HTTP transport delivers to the configured address. -/
def HttpExact (config : EdgesyncHttpTransportConfig) (message : EdgesyncMessage) : Prop :=
  ∀ url, config.url = some url → ∀ ctx, edgesyncHttpTransportCreate config = .ok ctx →
    ∀ client, DeliveredTo config.noAppendDestination url message.destination
      ((httpOpDeliver client ctx message).sent.map (·.client.url))
      (httpOpDeliver client ctx message).result

/-- The MQTT transport does. -/
def MqttExact (config : EdgesyncMqttTransportConfig) (message : EdgesyncMessage) : Prop :=
  ∀ topic, config.topic = some topic → ∀ ctx, edgesyncMqttTransportCreate config = .ok ctx →
    ∀ client, DeliveredTo config.noAppendDestination topic message.destination
      ((mqttOpDeliver client ctx message).sent.map (·.topic))
      (mqttOpDeliver client ctx message).result

theorem httpCreate_ok {config : EdgesyncHttpTransportConfig} {url : Bytes}
    (hurl : config.url = some url) : ∃ ctx, edgesyncHttpTransportCreate config = .ok ctx ∧
      ctx.baseUrl = strlcpy url httpMaxUrlLen ∧
      ctx.config.noAppendDestination = config.noAppendDestination := by
  unfold edgesyncHttpTransportCreate
  rw [hurl]
  refine ⟨_, rfl, rfl, ?_⟩
  show (if _ then _ else _ : EdgesyncHttpTransportConfig).noAppendDestination = _
  split <;> rfl

/-- A request goes to the address that was built, and without an address nothing is
sent. -/
theorem httpOpDeliver_sent (client : EspHttpClient) (ctx : HttpCtx) (message : EdgesyncMessage) :
    (∃ address, deliveryAddress httpMaxUrlLen ctx.config.noAppendDestination ctx.baseUrl
      message.destination = some address ∧
      (httpOpDeliver client ctx message).sent.map (·.client.url) = some address) ∨
    (httpOpDeliver client ctx message).sent.map (·.client.url) = none ∧
      (httpOpDeliver client ctx message).result ≠ .success := by
  unfold httpOpDeliver
  cases deliveryAddress httpMaxUrlLen ctx.config.noAppendDestination ctx.baseUrl
      message.destination with
  | none => exact .inr ⟨rfl, nofun⟩
  | some address =>
    by_cases hinit : client.init (ctx.clientConfig address) = true
    · simp only [hinit, if_true]
      cases client.perform ⟨ctx.clientConfig address, ctx.headers message, message.payload⟩ with
      | none => exact .inl ⟨address, rfl, rfl⟩
      | some status => exact .inl ⟨address, rfl, rfl⟩
    · simp only [hinit, Bool.false_eq_true, if_false]
      exact .inr ⟨rfl, nofun⟩

/-- A client that makes a handle sends to every address. -/
theorem httpOpDeliver_ready {ctx : HttpCtx} {message : EdgesyncMessage} {address : Bytes}
    (h : deliveryAddress httpMaxUrlLen ctx.config.noAppendDestination ctx.baseUrl
      message.destination = some address) :
    (httpOpDeliver ⟨fun _ => true, fun _ => none⟩ ctx message).sent.map (·.client.url) =
      some address := by
  unfold httpOpDeliver
  rw [h]
  rfl

theorem mqttOpDeliver_sent (client : EspMqttClient) (ctx : MqttCtx) (message : EdgesyncMessage) :
    (mqttOpDeliver client ctx message).sent.map (·.topic) =
      deliveryAddress mqttMaxTopicLen ctx.config.noAppendDestination ctx.baseTopic
        message.destination ∧
    ((mqttOpDeliver client ctx message).sent = none →
      (mqttOpDeliver client ctx message).result ≠ .success) := by
  unfold mqttOpDeliver
  cases deliveryAddress mqttMaxTopicLen ctx.config.noAppendDestination ctx.baseTopic
      message.destination with
  | none => exact ⟨rfl, fun _ => nofun⟩
  | some address =>
    simp only
    split_ifs <;> exact ⟨rfl, nofun⟩

/-- Deliveries go to the configured address exactly when it is not used alone or fits
the array it is copied into. -/
theorem delivered_exactly (http : EdgesyncHttpTransportConfig) (mqtt : EdgesyncMqttTransportConfig)
    (message : EdgesyncMessage) :
    (HttpExact http message ↔ ∀ url, http.url = some url →
      http.noAppendDestination = false ∨ strlen url < httpMaxUrlLen) ∧
    (MqttExact mqtt message ↔ ∀ uri topic, mqtt.brokerUri = some uri → mqtt.topic = some topic →
      mqtt.noAppendDestination = false ∨ strlen topic < mqttMaxTopicLen) := by
  constructor
  · constructor
    · intro h url hurl
      obtain ⟨ctx, hctx, hbase, happend⟩ := httpCreate_ok hurl
      refine (@deliveryAddress_exact httpMaxUrlLen http.noAppendDestination url
        message.destination (by decide)).mp fun address haddress => ?_
      rw [← hbase, ← happend] at haddress
      have hsent := httpOpDeliver_ready haddress
      rcases h url hurl ctx hctx ⟨fun _ => true, fun _ => none⟩ with h | ⟨h, _⟩
      · rw [hsent] at h
        exact Option.some.inj h
      · rw [hsent] at h
        exact absurd h nofun
    · intro h url hurl ctx hctx client
      obtain ⟨ctx', hctx', hbase, happend⟩ := httpCreate_ok hurl
      obtain rfl := Except.ok.inj (hctx.symm.trans hctx')
      rcases httpOpDeliver_sent client ctx message with ⟨address, haddress, hsent⟩ | hnone
      · rw [hbase, happend] at haddress
        rw [hsent]
        exact .inl (congrArg some ((deliveryAddress_exact (by decide)).mpr (h url hurl) address
          haddress))
      · exact .inr hnone
  · constructor
    · intro h uri topic huri htopic
      have hctx : edgesyncMqttTransportCreate mqtt =
          .ok ⟨mqtt, strlcpy topic mqttMaxTopicLen⟩ := by
        unfold edgesyncMqttTransportCreate
        rw [huri, htopic]
      refine (@deliveryAddress_exact mqttMaxTopicLen mqtt.noAppendDestination topic
        message.destination (by decide)).mp fun address haddress => ?_
      have hsent := (mqttOpDeliver_sent ⟨fun _ => 0, fun _ => none⟩
        ⟨mqtt, strlcpy topic mqttMaxTopicLen⟩ message).1.trans haddress
      rcases h topic htopic _ hctx ⟨fun _ => 0, fun _ => none⟩ with h | ⟨h, _⟩
      · rw [hsent] at h
        exact Option.some.inj h
      · rw [hsent] at h
        exact absurd h nofun
    · intro h topic htopic ctx hctx client
      cases huri : mqtt.brokerUri with
      | none =>
        unfold edgesyncMqttTransportCreate at hctx
        rw [huri] at hctx
        exact absurd hctx nofun
      | some uri =>
        have hctx' : edgesyncMqttTransportCreate mqtt =
            .ok ⟨mqtt, strlcpy topic mqttMaxTopicLen⟩ := by
          unfold edgesyncMqttTransportCreate
          rw [huri, htopic]
        obtain rfl := Except.ok.inj (hctx.symm.trans hctx')
        obtain ⟨hsent, hfailed⟩ := mqttOpDeliver_sent client
          ⟨mqtt, strlcpy topic mqttMaxTopicLen⟩ message
        cases haddress : deliveryAddress mqttMaxTopicLen mqtt.noAppendDestination
            (strlcpy topic mqttMaxTopicLen) message.destination with
        | none =>
          have hnone := hsent.trans haddress
          exact .inr ⟨hnone, hfailed (Option.map_eq_none_iff.mp hnone)⟩
        | some address =>
          left
          rw [hsent, haddress]
          exact congrArg some ((deliveryAddress_exact (by decide)).mpr (h uri topic huri htopic)
            address haddress)

/-- A URL of 256 characters. -/
def longUrl : Bytes := List.replicate 256 0x61

/-- Every message goes to this URL. -/
def longUrlConfig : EdgesyncHttpTransportConfig where
  url := some longUrl
  noAppendDestination := true
  timeoutMs := 0
  contentType := none
  idempotencyHeader := none
  authHeaderName := none
  authHeaderValue := none
  extraHeaders := []
  useCertBundle := false
  certPem := none
  skipCertCommonNameCheck := false
  classifyStatus := none

/-- The request goes to the first 255 characters, and counts as delivered. -/
theorem delivered_truncated : ∃ ctx, edgesyncHttpTransportCreate longUrlConfig = .ok ctx ∧
    (httpOpDeliver ⟨fun _ => true, fun _ => some 200⟩ ctx
      ⟨7, [0x61], 0, 0, []⟩).sent.map (·.client.url) = some (List.replicate 255 0x61) ∧
    (httpOpDeliver ⟨fun _ => true, fun _ => some 200⟩ ctx ⟨7, [0x61], 0, 0, []⟩).result = .success ∧
    ¬ HttpExact longUrlConfig ⟨7, [0x61], 0, 0, []⟩ := by
  have hsent : deliveryAddress httpMaxUrlLen true (strlcpy longUrl httpMaxUrlLen) [0x61] =
      some (List.replicate 255 0x61) := by decide +kernel
  refine ⟨_, rfl, ?_, ?_, ?_⟩
  · show ((httpOpDeliver _ _ _).sent.map (·.client.url)) = _
    decide +kernel
  · decide +kernel
  · intro h
    rcases h longUrl rfl _ rfl ⟨fun _ => true, fun _ => some 200⟩ with h | ⟨h, _⟩
    · revert h
      decide +kernel
    · revert h
      decide +kernel

end EdgeSync
