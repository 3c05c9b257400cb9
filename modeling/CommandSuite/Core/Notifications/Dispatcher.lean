import CommandSuite.Core.EventLog
import CommandSuite.Core.MessageDelivery.Ledger
import CommandSuite.Core.Notifications

/-! # The dispatcher of notifications

`packages/core/src/notifications/dispatcher.ts`, cut at the points where it awaits a push: a call runs up to its first
push, and goes on when the push has an outcome. Between the two any other call may run.
-/

namespace CommandSuite.Notifications

open Library

/-- What the broker, the roster, the channels and the clock say while a call runs. -/
structure World where
  now : Int
  memberExists : String → Bool
  isConnected : String → Bool
  isWorking : String → Bool
  recipientNames : Option (String → Option (List String))

/-- A `broker.push`, with what its body is composed of. -/
structure Push where
  endpointSlug : String
  displayName : String
  deliveries : List DeliveryRecord
  queuedMs : Option Int
  queuedReason : Option PendingReason
  composedAt : Int
  level : LogLevel
  title : Option String
  toName : Option String
  thread : Option String
  recipients : Option (List String)

/-- The id of the message and whether it is settled, or `none` when there was no push or it failed. -/
abbrev Outcome := Option (String × Bool)

structure DispatchOptions where
  queuedMs : Option Int
  queuedReason : Option PendingReason
  forceMember : Option String

def DispatchOptions.plain : DispatchOptions := ⟨none, none, none⟩

/-- A `dispatchGroup`: the group with the newest first, and what the loop over the targets has gathered. -/
structure Job where
  endpoint : NotificationEndpoint
  primary : DeliveryRecord
  older : List DeliveryRecord
  options : DispatchOptions
  composedAt : Int
  messageIds : List String
  acknowledged : Nat
  notes : List String
  queued : Nat

inductive Task where
  | flush (memberName endpointId : String) (rows : List PendingRecord)
  | recover (endpointId : String) (group : List DeliveryRecord)
  | pause

/-- A call that awaits the outcome of a push, with the targets and the groups that are still to come. -/
structure Flight where
  job : Job
  target : NotificationTarget
  targets : List NotificationTarget
  tasks : List Task

inductive Process where
  | pushing (flight : Flight)
  | ready (tasks : List Task)

/-- What a call did until it awaits, and the rows of the queue that it passed to a dispatch. -/
structure Segment where
  store : Store
  process : Option Process
  pushes : List Push
  flushed : List PendingRecord

namespace Job

variable (job : Job)

def newest : List DeliveryRecord := job.primary :: job.older

def ifOffline : IfOffline := (job.primary.overrides.bind NotificationOverrides.ifOffline).getD job.endpoint.policy.ifOffline

def ifBusy : IfBusy := (job.primary.overrides.bind NotificationOverrides.ifBusy).getD job.endpoint.policy.ifBusy

def note (text : String) : Job := { job with notes := job.notes ++ [text] }

def hold (text : String) : Job := { job.note text with queued := job.queued + 1 }

def push (toName thread : Option String) (recipients : Option (List String)) : Push where
  endpointSlug := job.endpoint.slug
  displayName := job.endpoint.displayName
  deliveries := job.newest
  queuedMs := job.options.queuedMs
  queuedReason := job.options.queuedReason
  composedAt := job.composedAt
  level := job.primary.level
  title := job.primary.title
  toName := toName
  thread := thread
  recipients := recipients

/-- `pushMessage` to a channel. A channel that is not there is not pushed to. -/
def channelPush (world : World) (channel : String) : Option Push :=
  match world.recipientNames with
  | none => some (job.push none (some channel) none)
  | some recipientNames =>
    if channel = EventLog.GENERAL_CHANNEL_ID then some (job.push none (some channel) none)
    else (recipientNames channel).map fun recipients => job.push none (some channel) (some recipients)

def pendingRow (name : String) (reason : PendingReason) (now waitMs : Int) : PendingRecord where
  id := 0
  endpointId := job.endpoint.id
  memberName := name
  reason := reason
  deliveryIds := job.newest.map DeliveryRecord.id
  level := job.primary.level
  title := job.primary.title
  createdAt := now
  deadlineAt := now + waitMs

inductive Turn where
  | awaits (push : Option Push)
  | passes (store : Store) (job : Job)

def memberTurn (world : World) (store : Store) (name : String) : Turn :=
  let force := job.options.forceMember = some name
  if !world.memberExists name then .passes store (job.note s!"member {name} no longer exists")
  else if !world.isConnected name && !force then
    match job.ifOffline with
    | .queue => .passes (store.insertPending (job.pendingRow name .offline world.now job.endpoint.policy.queueTtlMs))
        (job.hold s!"queued for {name} (offline)")
    | .drop => .passes store (job.note s!"dropped for {name} (offline)")
  else if world.isConnected name && world.isWorking name && job.ifBusy = .wait && job.primary.level ≠ .critical && !force then
    .passes (store.insertPending (job.pendingRow name .busy world.now job.endpoint.policy.maxWaitMs))
      (job.hold s!"waiting for {name} (mid-task)")
  else .awaits (some (job.push (some name) none none))

def turn (world : World) (store : Store) (target : NotificationTarget) : Turn :=
  match target.channel, target.member with
  | some channel, _ => .awaits (job.channelPush world channel)
  | none, none => .passes store job
  | none, some name => job.memberTurn world store name

def receive (target : NotificationTarget) (outcome : Outcome) : Job :=
  match outcome, target.channel with
  | some (id, settled), _ =>
    { job with messageIds := job.messageIds ++ [id], acknowledged := job.acknowledged + if settled then 1 else 0 }
  | none, some channel => job.note s!"channel {channel} unavailable"
  | none, none => job.note ("push to " ++ target.member.getD "" ++ " failed")

def status : NotificationDeliveryStatus :=
  if job.acknowledged > 0 then .delivered
  else if job.messageIds.length > 0 || job.queued > 0 then .pending
  else .dropped

def rowStatus (index : Nat) (delivery : DeliveryRecord) : NotificationDeliveryStatus :=
  if delivery.status = .delivered ∨ delivery.status = .coalesced then delivery.status
  else if job.messageIds.length > 0 && index > 0 then .coalesced
  else job.status

def patch (now : Int) (index : Nat) (delivery : DeliveryRecord) : DeliveryPatch where
  status := some (job.rowStatus index delivery)
  statusReason := some (if job.notes.isEmpty then none else some ("; ".intercalate job.notes))
  addMessageIds := job.messageIds
  rendered := none
  deliveredAt := if job.acknowledged > 0 then some now else none

def update (now : Int) : Nat → List DeliveryRecord → Store → Store × Bool
  | _, [], store => (store, true)
  | index, delivery :: deliveries, store =>
    match store.updateDelivery delivery.id (job.patch now index delivery) with
    | none => (store, false)
    | some store => update now (index + 1) deliveries store

end Job

def goesOn (tasks : List Task) : Option Process := if tasks.isEmpty then none else some (.ready tasks)

def deliver (world : World) (tasks : List Task) : List NotificationTarget → Store → Job → Segment
  | [], store, job =>
    match job.update world.now 0 job.newest store with
    | (store, true) => ⟨store, goesOn tasks, [], []⟩
    | (store, false) => ⟨store, none, [], []⟩
  | target :: targets, store, job =>
    match job.turn world store target with
    | .awaits push => ⟨store, some (.pushing ⟨job, target, targets, tasks⟩), push.toList, []⟩
    | .passes store job => deliver world tasks targets store job

def newestFirst (group : List DeliveryRecord) : List DeliveryRecord :=
  group.insertionSort fun left right => left.receivedAt ≥ right.receivedAt

def dispatchGroup (world : World) (store : Store) (endpoint : NotificationEndpoint) (group : List DeliveryRecord)
    (options : DispatchOptions) (tasks : List Task) : Segment :=
  match newestFirst group with
  | [] => ⟨store, goesOn tasks, [], []⟩
  | primary :: older =>
    let targets := match options.forceMember with
      | some name => [⟨some name, none⟩]
      | none => endpoint.targets
    deliver world tasks targets store ⟨endpoint, primary, older, options, world.now, [], 0, [], 0⟩

def flushOptions (now : Int) (memberName : String) (rows : List PendingRecord) : DispatchOptions where
  queuedMs := some (now - (rows.map PendingRecord.createdAt).min?.getD now)
  queuedReason := some (if rows.all fun row => row.reason = .busy then .busy else .offline)
  forceMember := some memberName

def runTasks (world : World) : List Task → Store → Segment
  | [], store => ⟨store, none, [], []⟩
  | .pause :: tasks, store => ⟨store, goesOn tasks, [], []⟩
  | .flush memberName endpointId rows :: tasks, store =>
    let store := store.deletePending (rows.map PendingRecord.id)
    match store.get endpointId, store.deliveriesByIds (rows.flatMap PendingRecord.deliveryIds).eraseDups with
    | none, _ | some _, [] => runTasks world tasks store
    | some endpoint, delivery :: deliveries =>
      { dispatchGroup world store endpoint (delivery :: deliveries) (flushOptions world.now memberName rows) tasks with
        flushed := rows }
  | .recover endpointId group :: tasks, store =>
    match store.get endpointId with
    | none => runTasks world tasks store
    | some endpoint => dispatchGroup world store endpoint group .plain tasks

/-! ## Calls -/

structure DebounceBuffer where
  endpointId : String
  deliveryIds : List String
  firstAt : Int

abbrev DebounceBuffer.key (buffer : DebounceBuffer) : String := buffer.endpointId

structure Desk where
  store : Store
  buffers : Table DebounceBuffer.key
  processes : List Process

structure Output where
  pushes : List Push
  flushed : List PendingRecord

def Output.none : Output := ⟨[], []⟩

def Output.append (first second : Output) : Output := ⟨first.pushes ++ second.pushes, first.flushed ++ second.flushed⟩

def Desk.spawn (desk : Desk) (segment : Segment) : Desk × Output :=
  ({ desk with store := segment.store, processes := desk.processes ++ segment.process.toList }, ⟨segment.pushes, segment.flushed⟩)

def flushDebounce (world : World) (desk : Desk) (endpointId : String) : Desk × Output :=
  match desk.buffers.find endpointId with
  | none => (desk, .none)
  | some buffer =>
    let desk := { desk with buffers := desk.buffers.delete fun other => other.endpointId = endpointId }
    match desk.store.get endpointId with
    | none => (desk, .none)
    | some endpoint =>
      desk.spawn (dispatchGroup world desk.store endpoint (desk.store.deliveriesByIds buffer.deliveryIds) .plain [])

def byEndpoint (rows : List PendingRecord) : List (String × List PendingRecord) :=
  (rows.map PendingRecord.endpointId).eraseDups.map fun endpointId =>
    (endpointId, rows.filter fun row => row.endpointId = endpointId)

def flushTasks (memberName : String) (rows : List PendingRecord) : List Task :=
  (byEndpoint rows).map fun group => .flush memberName group.1 group.2

def flushPendingFor (world : World) (desk : Desk) (memberName : String) (reason : Option PendingReason) : Desk × Output :=
  desk.spawn (runTasks world (flushTasks memberName (desk.store.pendingForMember memberName reason)) desk.store)

/-- The filters and the rendering of `render.ts`, and the digest of a payload that is not retained. -/
structure Content where
  refuses : List NotificationFilterRule → String → Option String
  rendered : Option String → String → String
  sha256Hex : String → String

def bufferDelivery (now : Int) (endpointId id : String) (buffers : Table DebounceBuffer.key) : Table DebounceBuffer.key :=
  match buffers.find endpointId with
  | none => buffers.insertOrIgnore ⟨endpointId, [id], now⟩
  | some _ => buffers.update (fun buffer => buffer.endpointId = endpointId)
      (fun buffer => { buffer with deliveryIds := buffer.deliveryIds ++ [id] }) fun _ => rfl

def debounce (world : World) (desk : Desk) (endpoint : NotificationEndpoint) (id : String) : Desk × Output :=
  let buffers := bufferDelivery world.now endpoint.id id desk.buffers
  match desk.store.updateDelivery id ⟨some .pending, some (some "debouncing"), [], none, none⟩ with
  | none => ({ desk with buffers := buffers }, .none)
  | some store =>
    let desk := { desk with store := store, buffers := buffers }
    let size := ((buffers.find endpoint.id).map fun buffer => buffer.deliveryIds.length).getD 0
    if (size : Int) ≥ endpoint.policy.debounceMax then flushDebounce world desk endpoint.id else (desk, .none)

def runPipeline (content : Content) (world : World) (desk : Desk) (endpoint : NotificationEndpoint) (delivery : DeliveryRecord) :
    Desk × Output :=
  match content.refuses endpoint.filters delivery.body with
  | some reason =>
    let store := desk.store.updateDelivery delivery.id ⟨some .filtered, some (some reason), [], none, none⟩
    ({ desk with store := store.getD desk.store }, .none)
  | none =>
    let rendered := content.rendered endpoint.template delivery.body
    match desk.store.updateDelivery delivery.id ⟨none, none, [], some rendered, none⟩ with
    | none => (desk, .none)
    | some store =>
      let record := { delivery with rendered := rendered }
      if endpoint.policy.debounceMs > 0 && record.level ≠ .critical then
        debounce world { desk with store := store } endpoint record.id
      else desk.spawn (dispatchGroup world store endpoint [record] .plain [])

structure IngestInput where
  endpoint : NotificationEndpoint
  body : String
  bytes : Nat
  contentType : Option String
  getHeader : String → Option String
  overrides : Option NotificationOverrides
  refused : Option String

namespace IngestInput

variable (input : IngestInput)

def level : LogLevel := (input.overrides.bind NotificationOverrides.level).getD input.endpoint.level

def title : String :=
  input.endpoint.title.getD (if input.endpoint.displayName = "" then input.endpoint.slug else input.endpoint.displayName)

def record (id : String) (now : Int) (status : NotificationDeliveryStatus) (statusReason dedupeKey : Option String)
    (body : String) : DeliveryRecord where
  id := id
  endpointId := input.endpoint.id
  endpointSlug := input.endpoint.slug
  receivedAt := now
  status := status
  statusReason := statusReason
  dedupeKey := dedupeKey
  messageIds := []
  body := body
  contentType := input.contentType
  rendered := ""
  level := input.level
  title := some input.title
  overrides := input.overrides
  deliveredAt := none
  replayOf := none

def dedupeKey : Option String :=
  (input.endpoint.dedupeHeader.bind input.getHeader).bind fun value =>
    if value = "" then none else some (String.ofList (value.toList.take 256))

def unverifiedRecord (content : Content) (id : String) (now : Int) (reason : String) : DeliveryRecord :=
  input.record id now .rejected (some reason) none
    s!"[unverified payload not retained — {input.bytes} bytes, sha256:{content.sha256Hex input.body}]"

end IngestInput

def Desk.receipt (desk : Desk) (record : DeliveryRecord) : Desk :=
  { desk with store := (desk.store.insertDelivery record).getD desk.store }

def ingest (content : Content) (world : World) (desk : Desk) (input : IngestInput) (id : String) : Desk × Output :=
  match input.refused with
  | some reason =>
    if !input.endpoint.enabled then (desk, .none)
    else (desk.receipt (input.unverifiedRecord content id world.now reason), .none)
  | none =>
    if !input.endpoint.enabled then
      (desk.receipt (input.record id world.now .rejected (some "endpoint disabled") none input.body), .none)
    else
      match input.dedupeKey.bind (desk.store.findDeliveryByDedupe input.endpoint.id) with
      | some _ => (desk, .none)
      | none =>
        let record := input.record id world.now .pending none input.dedupeKey input.body
        match desk.store.insertDelivery record with
        | none => (desk, .none)
        | some store => runPipeline content world { desk with store := store } input.endpoint record

def replay (content : Content) (world : World) (desk : Desk) (deliveryId id : String) : Desk × Output :=
  match desk.store.getDeliveryRecord deliveryId with
  | none => (desk, .none)
  | some source =>
    if source.status = .rejected then (desk, .none)
    else
      match desk.store.get source.endpointId with
      | none => (desk, .none)
      | some endpoint =>
        let title := endpoint.title.getD (if endpoint.displayName = "" then endpoint.slug else endpoint.displayName)
        let fresh : DeliveryRecord := ⟨id, endpoint.id, endpoint.slug, world.now, .pending, none, none, [], source.body,
          source.contentType, "", endpoint.level, some title, none, none, some source.id⟩
        match desk.store.insertDelivery fresh with
        | none => (desk, .none)
        | some store => runPipeline content world { desk with store := store } endpoint fresh

def expire (store : Store) (row : PendingRecord) : Store :=
  (store.deliveriesByIds row.deliveryIds).foldl (fun store delivery =>
    if delivery.status = .pending then
      (store.updateDelivery delivery.id ⟨some .expired, some (some s!"queue TTL lapsed before {row.memberName} woke"), [], none, none⟩).getD
        store
    else store) store

def sweepBuffers (world : World) : List DebounceBuffer → Desk → Desk × Output
  | [], desk => (desk, .none)
  | buffer :: buffers, desk =>
    let windowMs := ((desk.store.get buffer.endpointId).map fun endpoint => endpoint.policy.debounceMs).getD 0
    let flushed := if world.now - buffer.firstAt ≥ windowMs then flushDebounce world desk buffer.endpointId else (desk, .none)
    let rest := sweepBuffers world buffers flushed.1
    (rest.1, flushed.2.append rest.2)

def starvedTasks (starved : List PendingRecord) : List Task :=
  (starved.map PendingRecord.memberName).eraseDups.flatMap fun memberName =>
    flushTasks memberName (starved.filter fun row => row.memberName = memberName) ++ [.pause]

def sweep (world : World) (desk : Desk) : Desk × Output :=
  let swept := sweepBuffers world desk.buffers.rows desk
  let due := swept.1.store.pendingDue world.now
  let lapsed := due.filter fun row => row.reason = .offline
  let starved := due.filter fun row => row.reason = .busy
  let store := lapsed.foldl expire (swept.1.store.deletePending (lapsed.map PendingRecord.id))
  let flushed := { swept.1 with store := store }.spawn (runTasks world (starvedTasks starved) store)
  (flushed.1, swept.2.append flushed.2)

def recoverTasks (stranded : List DeliveryRecord) : List Task :=
  (stranded.map DeliveryRecord.endpointId).eraseDups.map fun endpointId =>
    .recover endpointId (stranded.filter fun delivery => delivery.endpointId = endpointId)

/-- The listener of `broker.onMessageDisposition`. -/
def onMessageDisposition (store : Store) (frame : MessageDispositionFrame) : Store :=
  let patch : Option DeliveryPatch := match frame.disposition with
    | .acted | .handled => some ⟨some .delivered, some none, [], none, some frame.at_⟩
    | .refused =>
      some ⟨some .dropped, some (some ((frame.reason.map DispositionReason.detail).getD "subscriber refused delivery")), [], none, none⟩
    | .accepted | .deferred => none
  match patch with
  | none => store
  | some patch => (store.findDeliveriesByMessageId frame.messageId).foldl (fun store delivery =>
      (store.updateDelivery delivery.id patch).getD store) store

/-- A call or what it awaits. A call comes with the world it runs in. -/
inductive Event where
  | ingest (input : IngestInput) (id : String)
  | replay (deliveryId id : String)
  | pushed (index : Nat) (outcome : Outcome)
  | proceed (index : Nat)
  | timer (endpointId : String)
  | onWake (memberName : String)
  | onActivityReport (memberName : String) (working : Bool)
  | sweep
  | recover
  | disposition (frame : MessageDispositionFrame)
  | put (endpoint : NotificationEndpoint)
  | delete (endpointId : String)

def Desk.resume (desk : Desk) (index : Nat) (segment : Segment) : Desk × Output :=
  { desk with processes := desk.processes.eraseIdx index }.spawn segment

def Event.perform (content : Content) (world : World) (desk : Desk) : Event → Desk × Output
  | .ingest input id => Notifications.ingest content world desk input id
  | .replay deliveryId id => Notifications.replay content world desk deliveryId id
  | .pushed index outcome =>
    match desk.processes[index]? with
    | some (.pushing flight) =>
      desk.resume index (deliver world flight.tasks flight.targets desk.store (flight.job.receive flight.target outcome))
    | _ => (desk, .none)
  | .proceed index =>
    match desk.processes[index]? with
    | some (.ready tasks) => desk.resume index (runTasks world tasks desk.store)
    | _ => (desk, .none)
  | .timer endpointId => flushDebounce world desk endpointId
  | .onWake memberName => flushPendingFor world desk memberName none
  | .onActivityReport memberName working =>
    if working then (desk, .none) else flushPendingFor world desk memberName (some .busy)
  | .sweep => Notifications.sweep world desk
  | .recover => desk.spawn (runTasks world (recoverTasks desk.store.listStrandedDebounce) desk.store)
  | .disposition frame => ({ desk with store := onMessageDisposition desk.store frame }, .none)
  | .put endpoint => ({ desk with store := desk.store.put endpoint }, .none)
  | .delete endpointId => ({ desk with store := desk.store.delete endpointId }, .none)

def serve (content : Content) : Transcript.Machine Desk (World × Event) Output := fun desk call =>
  call.2.perform content call.1 desk

end CommandSuite.Notifications
