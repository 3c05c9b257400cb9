import CommandSuite.Library.Transcript

/-! # The connections to MCP servers

`apps/server/src/tool-sources/mcp-client.ts`, with the routes of `app.ts` that change a source. The calls on a source share a
connection. A timer may fire at any time and a call may end in any way; what it returns is left out.
-/

namespace CommandSuite.McpClient

open Library Transcript Function

structure ToolSource (ι : Type) where
  id : ι
  url : Option String

structure CredentialRow (γ : Type) where
  credential : γ
  updatedAt : Nat

/-- The fingerprint is what is hashed. `ready` is how the promise has settled, and `failed` tells of the transport or of an error
on the connection that is not an `McpError`. -/
structure ManagedEntry (ι γ : Type) where
  source : ι
  fingerprint : String × Nat
  credential : Option γ
  ready : Option Bool := none
  failed : Bool := false
  closed : Bool := false

inductive Phase where
  | connecting (n : Nat)
  | running (n : Nat)
  | caught (mcpError : Bool)
  | ended

/-- An `invoke` or a `refresh`, with the source as its caller has read it. -/
structure Call (ι : Type) where
  isRefresh : Bool
  source : ToolSource ι
  retried : Bool
  phase : Phase

/-- An `McpError` ends an `invoke`: its caller gets it as a result. -/
def Call.ends {ι : Type} (call : Call ι) (mcpError : Bool) : Bool := mcpError && !call.isRefresh

structure McpClientManager (ι γ : Type) where
  conns : List (ManagedEntry ι γ)
  entries : ι → Option Nat
  closed : Bool
  calls : List (Call ι)
  credentials : ι → Option (CredentialRow γ)

inductive Effect where
  | acquired (c n : Nat)
  | closed (n : Nat)
  deriving DecidableEq

/-- `answered` is what the last request of a call comes to, `none` a result. `update` is a change of the row of the source, and
tells whether its configuration is another one. A source that is deleted loses its credential. -/
inductive Event (ι γ : Type) where
  | call (isRefresh : Bool) (source : ToolSource ι)
  | settled (n : Nat) (ok : Bool)
  | resume (c : Nat)
  | answered (c : Nat) (mcpError : Option Bool)
  | lost (n : Nat)
  | idle (n : Nat)
  | update (id : ι) (changed : Bool)
  | setCredential (id : ι) (row : Option (CredentialRow γ))
  | closeAll

-- whether the URL of the source and its credential can be read
variable {ι γ : Type} [DecidableEq ι] (opens : ToolSource ι → Option γ → Bool)

namespace McpClientManager

variable (m : McpClientManager ι γ)

def fingerprintOf (source : ToolSource ι) : String × Nat :=
  (source.url.getD "", ((m.credentials source.id).map CredentialRow.updatedAt).getD 0)

def stored (id : ι) : Option γ := (m.credentials id).map CredentialRow.credential

def edit (n : Nat) (f : ManagedEntry ι γ → ManagedEntry ι γ) : McpClientManager ι γ := { m with conns := m.conns.modify n f }

/-- The entry is deleted if it is the one of its source. -/
def delete (n : Nat) : McpClientManager ι γ :=
  match m.conns[n]? with
  | some entry => if m.entries entry.source = some n then { m with entries := update m.entries entry.source none } else m
  | none => m

def invalidate (id : ι) : McpClientManager ι γ × List Effect :=
  match m.entries id with
  | some n => ({ m with entries := update m.entries id none }.edit n ({ · with closed := true }), [.closed n])
  | none => (m, [])

def connect (source : ToolSource ι) : McpClientManager ι γ × Option Nat :=
  if opens source (m.stored source.id) then
    ({ m with
        conns := m.conns ++ [{ source := source.id, fingerprint := m.fingerprintOf source, credential := m.stored source.id }]
        entries := update m.entries source.id (some m.conns.length) }, some m.conns.length)
  else (m, none)

def acquire (source : ToolSource ι) : McpClientManager ι γ × List Effect × Option Nat :=
  if m.closed then (m, [], none)
  else
    match m.entries source.id with
    | some n =>
      if m.conns[n]?.map ManagedEntry.fingerprint = some (m.fingerprintOf source) then (m, [], some n)
      else
        let dropped := m.invalidate source.id
        let opened := dropped.1.connect opens source
        (opened.1, dropped.2, opened.2)
    | none =>
      let opened := m.connect opens source
      (opened.1, [], opened.2)

def setPhase (c : Nat) (call : Call ι) (phase : Phase) : McpClientManager ι γ :=
  { m with calls := m.calls.set c { call with phase := phase } }

/-- The call at the place tries, for the first or the second time. -/
def attempt (c : Nat) (call : Call ι) : McpClientManager ι γ × List Effect :=
  match m.acquire opens call.source with
  | (after, effects, some n) => (after.setPhase c call (.connecting n), effects ++ [.acquired c n])
  | (after, effects, none) => (after.setPhase c call (.caught false), effects)

def recover (c : Nat) (call : Call ι) (mcpError : Bool) : McpClientManager ι γ × List Effect :=
  if call.ends mcpError then (m.setPhase c call .ended, [])
  else
    let dropped := m.invalidate call.source.id
    if call.retried then (dropped.1.setPhase c call .ended, dropped.2)
    else
      let retry := dropped.1.attempt opens c { call with retried := true }
      (retry.1, dropped.2 ++ retry.2)

def step : McpClientManager ι γ → Event ι γ → McpClientManager ι γ × List Effect
  | m, .call isRefresh source =>
    let call := ⟨isRefresh, source, false, .ended⟩
    { m with calls := m.calls ++ [call] }.attempt opens m.calls.length call
  | m, .settled n ok =>
    match m.conns[n]?.bind ManagedEntry.ready with
    | some _ => (m, [])
    | none =>
      if ok then (m.edit n ({ · with ready := some true }), [])
      else ((m.delete n).edit n ({ · with ready := some false, failed := true }), [])
  | m, .resume c =>
    match m.calls[c]? with
    | none => (m, [])
    | some call =>
      match call.phase with
      | .connecting n =>
        match m.conns[n]?.bind ManagedEntry.ready with
        | some true => (m.setPhase c call (.running n), [])
        | some false => (m.setPhase c call (.caught false), [])
        | none => (m, [])
      | .caught mcpError => m.recover opens c call mcpError
      | .running _ | .ended => (m, [])
  | m, .answered c result =>
    match m.calls[c]? with
    | none => (m, [])
    | some call =>
      match call.phase, result with
      | .running _, none => (m.setPhase c call .ended, [])
      | .running _, some true => (m.setPhase c call (.caught true), [])
      | .running n, some false => ((m.setPhase c call (.caught false)).edit n ({ · with failed := true }), [])
      | _, _ => (m, [])
  | m, .lost n => ((m.delete n).edit n ({ · with failed := true }), [])
  | m, .idle n =>
    match m.conns[n]? with
    | some entry => if m.entries entry.source = some n then m.invalidate entry.source else (m, [])
    | none => (m, [])
  | m, .update id _ => m.invalidate id
  | m, .setCredential id row => { m with credentials := update m.credentials id row }.invalidate id
  | m, .closeAll =>
    ({ m with
        conns := m.conns.mapIdx fun n entry => if m.entries entry.source = some n then { entry with closed := true } else entry
        entries := fun _ => none
        closed := true },
      (m.conns.mapIdx fun n entry => if m.entries entry.source = some n then [.closed n] else []).flatten)

end McpClientManager

/-! ## What is asked of the manager -/

open McpClientManager

variable (m : McpClientManager ι γ)

def InFlight (n : Nat) : Prop := ∃ call ∈ m.calls, call.phase = .connecting n ∨ call.phase = .running n

/-- The configuration or the credential is changed, or another one than the connection was opened with. -/
def Changed (entry : ManagedEntry ι γ) : Event ι γ → Prop
  | .update _ changed => changed = true
  | .setCredential .. => True
  | .call _ source => entry.fingerprint ≠ m.fingerprintOf source
  | .resume c => ∃ call ∈ m.calls[c]?, entry.fingerprint ≠ m.fingerprintOf call.source
  | _ => False

def MayClose (n : Nat) (event : Event ι γ) : Prop :=
  event = .closeAll ∨ event = .idle n ∨ ∃ entry ∈ m.conns[n]?, entry.failed = true ∨ Changed m entry event

def ManagedEntry.Live (entry : ManagedEntry ι γ) : Prop := entry.closed = false ∧ entry.failed = false

/-- The call waits for the connection, which was opened with the credential of its source. -/
def Opened (after : McpClientManager ι γ) (c n : Nat) : Prop :=
  ∃ call ∈ after.calls[c]?, ∃ entry ∈ after.conns[n]?, call.phase = .connecting n ∧ entry.source = call.source.id ∧
    entry.credential = m.stored call.source.id

structure Undisturbed (step : Step (McpClientManager ι γ) (Event ι γ) (List Effect)) : Prop where
  closes : ∀ n, .closed n ∈ step.output → InFlight step.before n → MayClose step.before n step.input
  single : ∀ (n k : Nat) (first second : ManagedEntry ι γ), step.after.conns[n]? = some first → step.after.conns[k]? = some second →
    first.Live → second.Live → first.source = second.source → n = k
  credential : ∀ c n, .acquired c n ∈ step.output → Opened step.before step.after c n

/-- A connection that would be closed is not in use, has failed, or was opened with another configuration or credential. -/
def Spares (id : ι) (event : Event ι γ) : Prop :=
  ∀ n, m.entries id = some n → InFlight m n → ∃ entry ∈ m.conns[n]?, entry.failed = true ∨ Changed m entry event

/-- An error that a call goes on from with an invalidation, and an update that changes nothing, find no other call. -/
def Careful : Event ι γ → Prop
  | .resume c => ∀ call ∈ m.calls[c]?, ∀ mcpError, call.phase = .caught mcpError → call.ends mcpError = false →
    Spares m call.source.id (.resume c)
  | .update id changed => Spares m id (.update id changed)
  | _ => True

/-! ## The entries -/

structure Sound : Prop where
  entry : ∀ id n, m.entries id = some n → ∃ entry, m.conns[n]? = some entry ∧ entry.source = id ∧ entry.credential = m.stored id ∧
    entry.closed = false
  live : ∀ n entry, m.conns[n]? = some entry → entry.Live → m.entries entry.source = some n

variable {m} {opens} {after : McpClientManager ι γ} {effects : List Effect}

omit [DecidableEq ι] in
theorem Sound.mark (h : Sound m) {g : Nat → ManagedEntry ι γ → ManagedEntry ι γ}
    (hConns : ∀ n, after.conns[n]? = m.conns[n]?.map (g n)) (hSame : ∀ n entry, (g n entry).source = entry.source ∧ (g n entry).credential = entry.credential)
    (hEntries : ∀ id n, after.entries id = some n → m.entries id = some n ∧ after.stored id = m.stored id ∧ ∀ entry, (g n entry).closed = entry.closed)
    (hLive : ∀ n entry, (g n entry).Live → entry.Live ∧ (m.entries entry.source = some n → after.entries entry.source = some n)) :
    Sound after := by
  constructor
  · intro id n hEntry
    obtain ⟨hBefore, hStored, hClosed⟩ := hEntries id n hEntry
    obtain ⟨entry, hConn, hSource, hCredential, hOpen⟩ := h.entry id n hBefore
    refine ⟨g n entry, by rw [hConns, hConn, Option.map_some], (hSame n entry).1.trans hSource, ?_, (hClosed entry).trans hOpen⟩
    rw [(hSame n entry).2, hCredential, hStored]
  · intro n entry hConn hOpen
    rw [hConns] at hConn
    obtain ⟨old, hOld, rfl⟩ := Option.map_eq_some_iff.mp hConn
    obtain ⟨hOldLive, hKept⟩ := hLive n old hOpen
    rw [(hSame n old).1]
    exact hKept (h.live n old hOld hOldLive)

omit [DecidableEq ι] in
theorem getElem?_edit (n k : Nat) (f : ManagedEntry ι γ → ManagedEntry ι γ) :
    (m.edit n f).conns[k]? = m.conns[k]?.map fun entry => if n = k then f entry else entry := List.getElem?_modify ..

omit [DecidableEq ι] in
theorem Sound.edit (h : Sound m) {n : Nat} {f : ManagedEntry ι γ → ManagedEntry ι γ}
    (hKeeps : ∀ entry, (f entry).source = entry.source ∧ (f entry).credential = entry.credential ∧ (f entry).closed = entry.closed ∧
      ((f entry).failed = false → entry.failed = false)) : Sound (m.edit n f) := by
  refine h.mark (getElem?_edit n · f) (fun k entry => ?_) (fun id k hEntry => ⟨hEntry, rfl, fun entry => ?_⟩) fun k entry hLive => ⟨?_, id⟩
  all_goals
    have hEntry := hKeeps entry
    grind [ManagedEntry.Live]

theorem Sound.fail (h : Sound m) {n : Nat} {f : ManagedEntry ι γ → ManagedEntry ι γ}
    (hKeeps : ∀ entry, (f entry).source = entry.source ∧ (f entry).credential = entry.credential ∧ (f entry).closed = entry.closed ∧
      (f entry).failed = true) : Sound ((m.delete n).edit n f) := by
  have hDelete : (m.delete n).conns = m.conns ∧ (m.delete n).credentials = m.credentials ∧ ∀ id k,
      ((m.delete n).entries id = some k → m.entries id = some k) ∧ (m.entries id = some k → k ≠ n → (m.delete n).entries id = some k) := by
    unfold McpClientManager.delete
    split
    · split <;> grind [update_apply]
    · grind
  obtain ⟨hConns, hStored, hEntries⟩ := hDelete
  refine h.mark (fun k => by rw [getElem?_edit, hConns]) (fun k entry => ?_) (fun id k hEntry => ⟨(hEntries id k).1 hEntry, ?_, fun entry => ?_⟩)
    fun k entry hLive => ⟨?_, fun hHeld => (hEntries _ k).2 hHeld ?_⟩
  case refine_2 => rw [stored, McpClientManager.edit, hStored, stored]
  all_goals
    have hEntry := hKeeps entry
    grind [ManagedEntry.Live]

theorem Sound.invalidate (h : Sound m) (id : ι) {credentials : ι → Option (CredentialRow γ)}
    (hOthers : ∀ other, other ≠ id → credentials other = m.credentials other) : Sound ({ m with credentials := credentials }.invalidate id).1 := by
  have hStored : ∀ other, other ≠ id → { m with credentials := credentials }.stored other = m.stored other := fun other hOther =>
    congrArg (Option.map _) (hOthers other hOther)
  unfold McpClientManager.invalidate
  dsimp only
  cases hEntry : m.entries id with
  | none =>
    refine h.mark (g := fun _ entry => entry) (fun n => Option.map_id'.symm) (fun _ _ => ⟨rfl, rfl⟩) (fun other n hOther => ?_)
      fun _ _ hLive => ⟨hLive, fun hHeld => hHeld⟩
    exact ⟨hOther, hStored other fun hSame => by simp [hSame, hEntry] at hOther, fun _ => rfl⟩
  | some n =>
    obtain ⟨closed, hClosed, hSource, -⟩ := h.entry id n hEntry
    refine h.mark (getElem?_edit n · _) (fun k entry => by split <;> exact ⟨rfl, rfl⟩) (fun other k hOther => ?_) fun k entry hLive => ?_
    · have hNe : other ≠ id := fun hSame => by simp [McpClientManager.edit, hSame] at hOther
      have hHeld : m.entries other = some k := (update_of_ne hNe ..).symm.trans hOther
      refine ⟨hHeld, hStored other hNe, fun entry => ?_⟩
      obtain ⟨found, hFound, hPlace, -⟩ := h.entry other k hHeld
      have hPlaces : n ≠ k := by
        rintro rfl
        exact hNe (hPlace.symm.trans (Option.some.inj (hFound.symm.trans hClosed) ▸ hSource))
      rw [if_neg hPlaces]
    · split at hLive
      · exact absurd hLive.1 (by simp)
      · rename_i hPlaces
        refine ⟨hLive, fun hHeld => ?_⟩
        have hNe : entry.source ≠ id := fun hSame => hPlaces (Option.some.inj (hEntry.symm.trans (hSame ▸ hHeld)))
        exact (update_of_ne hNe ..).trans hHeld

variable (opens) in
theorem Sound.connect (h : Sound m) {source : ToolSource ι} (hNone : m.entries source.id = none) :
    Sound (m.connect opens source).1 ∧ ∀ n ∈ (m.connect opens source).2, (m.connect opens source).1.entries source.id = some n := by
  unfold McpClientManager.connect
  split
  · dsimp only
    refine ⟨⟨fun id k hEntry => ?_, fun k entry hConn hLive => ?_⟩, fun n hNew => (update_self ..).trans hNew⟩
    · change update m.entries source.id (some m.conns.length) id = some k at hEntry
      by_cases hSame : id = source.id
      · rw [hSame, update_self] at hEntry
        obtain rfl := Option.some.inj hEntry
        exact ⟨_, List.getElem?_concat_length, hSame.symm, hSame ▸ rfl, rfl⟩
      · rw [update_of_ne hSame] at hEntry
        obtain ⟨entry, hConn, hRest⟩ := h.entry id k hEntry
        exact ⟨entry, (List.getElem?_append_left (List.getElem?_eq_some_iff.mp hConn).1).trans hConn, hRest⟩
    · change update m.entries source.id (some m.conns.length) entry.source = some k
      rcases lt_or_ge k m.conns.length with hOld | hNew
      · have hHeld := h.live k entry ((List.getElem?_append_left hOld).symm.trans hConn) hLive
        rwa [update_of_ne fun hSame => by simp [hSame, hNone] at hHeld]
      · obtain ⟨hPlace, hEntry⟩ := List.getElem?_eq_some_iff.mp ((List.getElem?_append_right hNew).symm.trans hConn)
        rw [List.length_singleton] at hPlace
        rw [← hEntry, List.getElem_singleton, update_self, show k = m.conns.length by omega]
  · exact ⟨h, nofun⟩

theorem connect_eq (source : ToolSource ι) : (m.connect opens source).1.calls = m.calls ∧
    (m.connect opens source).1.credentials = m.credentials := by
  unfold McpClientManager.connect
  split <;> exact ⟨rfl, rfl⟩

theorem invalidate_eq (id : ι) : (m.invalidate id).1.entries id = none ∧ (m.invalidate id).1.calls = m.calls ∧
    (m.invalidate id).1.credentials = m.credentials ∧ ∀ effect, effect ∈ (m.invalidate id).2 ↔ ∃ n, effect = .closed n ∧ m.entries id = some n := by
  unfold McpClientManager.invalidate
  cases hEntry : m.entries id with
  | none => simp [hEntry]
  | some n => simp [McpClientManager.edit]

theorem Sound.acquire (h : Sound m) {source : ToolSource ι} {result : Option Nat} (hAcquire : m.acquire opens source = (after, effects, result)) :
    Sound after ∧ after.calls = m.calls ∧ after.credentials = m.credentials ∧ (∀ n ∈ result, after.entries source.id = some n) ∧
      ∀ effect ∈ effects, ∃ n, effect = .closed n ∧ m.entries source.id = some n ∧
        ∃ entry ∈ m.conns[n]?, entry.fingerprint ≠ m.fingerprintOf source := by
  unfold McpClientManager.acquire at hAcquire
  split at hAcquire
  · cases hAcquire
    exact ⟨h, rfl, rfl, nofun, nofun⟩
  · split at hAcquire
    · rename_i n hEntry
      split at hAcquire
      · cases hAcquire
        exact ⟨h, rfl, rfl, fun k hSame => Option.some.inj hSame ▸ hEntry, nofun⟩
      · rename_i hStale
        obtain ⟨entry, hConn, -⟩ := h.entry _ n hEntry
        obtain ⟨hFree, hCalls, hStored, hCloses⟩ := invalidate_eq (m := m) source.id
        obtain ⟨hSound, hResult⟩ := (h.invalidate source.id fun _ _ => rfl).connect opens hFree
        cases hAcquire
        refine ⟨hSound, (connect_eq source).1.trans hCalls, (connect_eq source).2.trans hStored, hResult, fun effect hEffect => ?_⟩
        obtain ⟨k, hClosed, hHeld⟩ := (hCloses effect).mp hEffect
        obtain rfl := Option.some.inj (hEntry.symm.trans hHeld)
        exact ⟨n, hClosed, hEntry, entry, hConn, fun hSame => hStale (by rw [hConn, Option.map_some, hSame])⟩
    · rename_i hNone
      obtain ⟨hSound, hResult⟩ := h.connect opens hNone
      cases hAcquire
      exact ⟨hSound, (connect_eq source).1, (connect_eq source).2, hResult, nofun⟩

omit [DecidableEq ι] in
theorem Sound.setPhase (h : Sound m) (c : Nat) (call : Call ι) (phase : Phase) : Sound (m.setPhase c call phase) := ⟨h.entry, h.live⟩

theorem Sound.attempt (h : Sound m) {c : Nat} (hPlace : c < m.calls.length) {call : Call ι}
    (hAttempt : m.attempt opens c call = (after, effects)) : Sound after ∧ (∀ k n, .acquired k n ∈ effects → Opened m after k n) ∧
      ∀ n, .closed n ∈ effects → m.entries call.source.id = some n ∧ ∃ entry ∈ m.conns[n]?, entry.fingerprint ≠ m.fingerprintOf call.source := by
  obtain ⟨⟨acquired, closes, result⟩, hAcquire⟩ : ∃ r, m.acquire opens call.source = r := ⟨_, rfl⟩
  obtain ⟨hSound, hCalls, hStored, hResult, hEffects⟩ := h.acquire hAcquire
  have hCloses : ∀ n, .closed n ∈ closes → m.entries call.source.id = some n ∧
      ∃ entry ∈ m.conns[n]?, entry.fingerprint ≠ m.fingerprintOf call.source := by
    intro n hEffect
    obtain ⟨k, hSame, hHeld⟩ := hEffects _ hEffect
    cases hSame
    exact hHeld
  have hNone : ∀ k n, .acquired k n ∉ closes := by
    intro k n hEffect
    obtain ⟨_, hSame, -⟩ := hEffects _ hEffect
    cases hSame
  unfold McpClientManager.attempt at hAttempt
  rw [hAcquire] at hAttempt
  cases result with
  | none =>
    cases hAttempt
    exact ⟨hSound.setPhase .., fun k n hEffect => absurd hEffect (hNone k n), hCloses⟩
  | some n =>
    cases hAttempt
    refine ⟨hSound.setPhase .., fun k j hEffect => ?_, fun j hEffect => hCloses j (by simpa using hEffect)⟩
    obtain ⟨rfl, rfl⟩ : k = c ∧ j = n := by simpa [hNone] using hEffect
    obtain ⟨entry, hConn, hSource, hCredential, -⟩ := hSound.entry _ _ (hResult _ rfl)
    have hCall : (acquired.calls.set k { call with phase := .connecting j })[k]? = some { call with phase := .connecting j } := by
      rw [hCalls, List.getElem?_set_self hPlace]
    exact ⟨_, hCall, entry, hConn, rfl, hSource, by rw [hCredential, stored, hStored, stored]⟩

/-! ## Steps -/

structure Does (m : McpClientManager ι γ) (event : Event ι γ) (done : McpClientManager ι γ × List Effect) : Prop where
  sound : Sound done.1
  opened : ∀ c n, .acquired c n ∈ done.2 → Opened m done.1 c n
  closes : (∀ n, .closed n ∈ done.2 → InFlight m n → MayClose m n event) ↔ Careful m event

variable {event : Event ι γ}

omit [DecidableEq ι] in
theorem Does.quiet (h : Sound after) (hCareful : Careful m event) : Does m event (after, []) := ⟨h, nofun, iff_of_true nofun hCareful⟩

omit [DecidableEq ι] in
theorem Does.of_held {id : ι} (h : Sound after) (hOpened : ∀ c n, .acquired c n ∈ effects → Opened m after c n)
    (hCloses : ∀ n, .closed n ∈ effects ↔ m.entries id = some n) (hAll : event ≠ .closeAll) (hIdle : ∀ n, event ≠ .idle n)
    (hCareful : Careful m event ↔ Spares m id event) : Does m event (after, effects) := by
  refine ⟨h, hOpened, Iff.trans ?_ hCareful.symm⟩
  refine forall_congr' fun n => imp_congr (hCloses n) (imp_congr_right fun _ => ?_)
  unfold MayClose
  rw [or_iff_right hAll, or_iff_right (hIdle n)]

theorem Sound.recover (h : Sound m) {c : Nat} (hPlace : c < m.calls.length) {call : Call ι} {mcpError : Bool}
    (hEnds : call.ends mcpError = false) (hCareful : Careful m (.resume c) ↔ Spares m call.source.id (.resume c)) :
    Does m (.resume c) (m.recover opens c call mcpError) := by
  obtain ⟨hFree, hCalls, hStored, hCloses⟩ := invalidate_eq (m := m) call.source.id
  have hDropped : Sound (m.invalidate call.source.id).1 := h.invalidate call.source.id fun _ _ => rfl
  have hClosed : ∀ n, .closed n ∈ (m.invalidate call.source.id).2 ↔ m.entries call.source.id = some n := fun n => by simp [hCloses]
  have hNone : ∀ k n, .acquired k n ∉ (m.invalidate call.source.id).2 := fun k n => by simp [hCloses]
  unfold McpClientManager.recover
  rw [hEnds]
  dsimp only
  rw [if_neg Bool.false_ne_true]
  split
  · exact .of_held (hDropped.setPhase ..) (fun k n hEffect => absurd hEffect (hNone k n)) hClosed nofun nofun hCareful
  · obtain ⟨⟨after, effects⟩, hRetry⟩ : ∃ done, (m.invalidate call.source.id).1.attempt opens c { call with retried := true } = done := ⟨_, rfl⟩
    obtain ⟨hSound, hOpened, hNew⟩ := hDropped.attempt (hCalls ▸ hPlace) hRetry
    rw [hRetry]
    refine .of_held hSound (fun k n hEffect => ?_) (fun n => ?_) nofun nofun hCareful
    · obtain ⟨later, hLater, entry, hConn, hPhase, hSource, hCredential⟩ := hOpened k n (by simpa [hNone] using hEffect)
      exact ⟨later, hLater, entry, hConn, hPhase, hSource, by rw [hCredential, stored, hStored, stored]⟩
    · rw [List.mem_append, hClosed, or_iff_left_iff_imp]
      exact fun hAgain => absurd (hFree.symm.trans (hNew n hAgain).1) nofun

variable (opens) in
theorem Sound.step (h : Sound m) (event : Event ι γ) : Does m event (m.step opens event) := by
  have hNone : ∀ (other : McpClientManager ι γ) id c n, .acquired c n ∈ (other.invalidate id).2 → Opened m (other.invalidate id).1 c n :=
    fun other id c n hEffect => by simp [(invalidate_eq id).2.2.2] at hEffect
  have hClosed : ∀ id n, .closed n ∈ (m.invalidate id).2 ↔ m.entries id = some n := fun id n => by simp [(invalidate_eq id).2.2.2]
  cases event with
  | call isRefresh source =>
    have hCalled : Sound { m with calls := m.calls ++ [⟨isRefresh, source, false, .ended⟩] } := ⟨h.entry, h.live⟩
    rw [McpClientManager.step]
    obtain ⟨⟨after, effects⟩, hAttempt⟩ : ∃ done, McpClientManager.attempt opens { m with calls := m.calls ++ [⟨isRefresh, source, false, .ended⟩] }
      m.calls.length ⟨isRefresh, source, false, .ended⟩ = done := ⟨_, rfl⟩
    obtain ⟨hSound, hOpened, hCloses⟩ := hCalled.attempt (by simp) hAttempt
    rw [hAttempt]
    refine ⟨hSound, hOpened, iff_of_true (fun n hEffect _ => ?_) trivial⟩
    obtain ⟨-, entry, hConn, hStale⟩ := hCloses n hEffect
    exact .inr (.inr ⟨entry, hConn, .inr hStale⟩)
  | settled n ok =>
    rw [McpClientManager.step]
    split
    · exact .quiet h trivial
    · split
      · exact .quiet (h.edit fun entry => ⟨rfl, rfl, rfl, id⟩) trivial
      · exact .quiet (h.fail fun entry => ⟨rfl, rfl, rfl, rfl⟩) trivial
  | resume c =>
    rw [McpClientManager.step]
    split
    · rename_i hCall
      exact .quiet h (by simp [Careful, hCall])
    · rename_i call hCall
      split
      · rename_i hPhase
        have hCareful : Careful m (.resume c) := by simp [Careful, hCall, hPhase]
        split
        · exact .quiet (h.setPhase ..) hCareful
        · exact .quiet (h.setPhase ..) hCareful
        · exact .quiet h hCareful
      · rename_i mcpError hPhase
        have hCareful : Careful m (.resume c) ↔ (call.ends mcpError = false → Spares m call.source.id (.resume c)) := by
          refine ⟨fun hAll => hAll call hCall mcpError hPhase, fun hOne other hOther error hError => ?_⟩
          obtain rfl := Option.some.inj (hCall.symm.trans hOther)
          obtain rfl := Phase.caught.inj (hPhase.symm.trans hError)
          exact hOne
        cases hEnds : call.ends mcpError with
        | true =>
          rw [McpClientManager.recover, if_pos hEnds]
          exact .quiet (h.setPhase ..) (hCareful.mpr fun hNot => absurd (hEnds.symm.trans hNot) nofun)
        | false => exact h.recover (List.getElem?_eq_some_iff.mp hCall).1 hEnds (hCareful.trans (forall_prop_of_true hEnds))
      · rename_i hPhase
        exact .quiet h (by simp [Careful, hCall, hPhase])
      · rename_i hPhase
        exact .quiet h (by simp [Careful, hCall, hPhase])
  | answered c result =>
    rw [McpClientManager.step]
    split
    · exact .quiet h trivial
    · split
      · exact .quiet (h.setPhase ..) trivial
      · exact .quiet (h.setPhase ..) trivial
      · exact .quiet ((h.setPhase ..).edit fun entry => ⟨rfl, rfl, rfl, nofun⟩) trivial
      · exact .quiet h trivial
  | lost n => exact .quiet (h.fail fun entry => ⟨rfl, rfl, rfl, rfl⟩) trivial
  | idle n =>
    rw [McpClientManager.step]
    split
    · split
      · rename_i hHeld
        refine ⟨h.invalidate _ fun _ _ => rfl, hNone m _, iff_of_true (fun k hEffect _ => .inr (.inl ?_)) trivial⟩
        rw [Option.some.inj (hHeld.symm.trans ((hClosed _ k).mp hEffect))]
      · exact .quiet h trivial
    · exact .quiet h trivial
  | update id changed => exact .of_held (h.invalidate id fun _ _ => rfl) (hNone m id) (hClosed id) nofun nofun Iff.rfl
  | setCredential id row =>
    refine ⟨h.invalidate id fun other hOther => update_of_ne hOther .., hNone _ id, iff_of_true (fun n hEffect _ => ?_) trivial⟩
    have hHeld : m.entries id = some n := by simpa [McpClientManager.step, (invalidate_eq id).2.2.2] using hEffect
    obtain ⟨entry, hConn, -⟩ := h.entry id n hHeld
    exact .inr (.inr ⟨entry, hConn, .inr trivial⟩)
  | closeAll =>
    refine ⟨h.mark (fun n => List.getElem?_mapIdx) (fun n entry => by split <;> exact ⟨rfl, rfl⟩) nofun fun n entry hLive => ?_, fun c n hEffect => ?_,
      iff_of_true (fun _ _ _ => .inl rfl) trivial⟩
    · split at hLive
      · exact absurd hLive.1 (by simp)
      · rename_i hOther
        exact ⟨hLive, fun hHeld => absurd hHeld hOther⟩
    · obtain ⟨closes, hEffects, hEffect⟩ := List.mem_flatten.mp hEffect
      obtain ⟨k, hPlace, rfl⟩ := List.mem_mapIdx.mp hEffects
      split at hEffect <;> simp at hEffect

def initial (credentials : ι → Option (CredentialRow γ)) : McpClientManager ι γ := ⟨[], fun _ => none, false, [], credentials⟩

/-- No call disturbs another exactly if every error that is gone on from, and every update that changes nothing, spares the
connection that is held then. -/
theorem undisturbed_iff (credentials : ι → Option (CredentialRow γ)) (events : List (Event ι γ)) :
    (∀ step ∈ run (McpClientManager.step opens) (initial credentials) events, Undisturbed step) ↔
      ∀ step ∈ run (McpClientManager.step opens) (initial credentials) events, Careful step.before step.input := by
  refine forall_step_iff (R := Sound) (V := fun _ => True) (fun m event h _ => ?_) (fun m event h _ _ => (h.step opens event).sound)
    ⟨nofun, nofun⟩ fun _ _ => trivial
  obtain ⟨hSound, hOpened, hCloses⟩ := h.step opens event
  refine Iff.trans ⟨Undisturbed.closes, fun h => ⟨h, fun n k first second hFirst hSecond hLive hOther hSource => ?_, hOpened⟩⟩ hCloses
  have hHeld := hSound.live n first hFirst hLive
  rw [hSource, hSound.live k second hSecond hOther] at hHeld
  exact (Option.some.inj hHeld).symm

/-- Two calls, whose connection cannot be made. The first one goes on with another, and the second one closes that. -/
theorem second_connection_closed : ∃ step ∈ run (McpClientManager.step fun _ (_ : Option Unit) => true) (initial fun _ : Unit => none)
    [.call false ⟨(), some "u"⟩, .call false ⟨(), some "u"⟩, .settled 0 false, .resume 0, .resume 1, .resume 0, .settled 1 true, .resume 0,
      .resume 1], ¬Undisturbed step := by
  refine ⟨_, List.getLast_mem (by simp), fun h => ?_⟩
  obtain hAll | hIdle | ⟨entry, hEntry, hFailed | ⟨call, hCall, hStale⟩⟩ := h.closes 1 (by decide) ⟨_, List.Mem.head _, .inr rfl⟩
  · cases hAll
  · cases hIdle
  · cases hEntry
    cases hFailed
  · cases hEntry
    cases hCall
    exact hStale rfl

/-! ## After the shutdown -/

def Down (m : McpClientManager ι γ) : Prop := m.closed = true ∧ ∀ id, m.entries id = none

theorem Down.invalidate (h : Down m) (id : ι) : m.invalidate id = (m, []) := by
  rw [McpClientManager.invalidate, h.2]

theorem Down.attempt (h : Down m) (c : Nat) (call : Call ι) : m.attempt opens c call = (m.setPhase c call (.caught false), []) := by
  rw [McpClientManager.attempt, McpClientManager.acquire, if_pos h.1]

theorem Down.delete (h : Down m) (n : Nat) : m.delete n = m := by
  unfold McpClientManager.delete
  split
  · rw [h.2, if_neg nofun]
  · rfl

theorem Down.step (h : Down m) (event : Event ι γ) : Down (m.step opens event).1 ∧ (m.step opens event).2 = [] := by
  cases event with
  | call isRefresh source =>
    have hCalled : Down { m with calls := m.calls ++ [⟨isRefresh, source, false, .ended⟩] } := h
    rw [McpClientManager.step, hCalled.attempt]
    exact ⟨h, rfl⟩
  | setCredential id row =>
    have hChanged : Down { m with credentials := update m.credentials id row } := h
    rw [McpClientManager.step, hChanged.invalidate]
    exact ⟨h, rfl⟩
  | closeAll =>
    refine ⟨⟨rfl, fun _ => rfl⟩, List.flatten_eq_nil_iff.mpr fun closes hCloses => ?_⟩
    obtain ⟨n, hPlace, rfl⟩ := List.mem_mapIdx.mp hCloses
    rw [h.2, if_neg nofun]
  | _ =>
    unfold McpClientManager.step McpClientManager.recover
    simp only [h.invalidate, h.attempt, h.delete]
    (repeat' split) <;> exact ⟨h, by trivial⟩

/-- After `closeAll` nothing is opened, used or closed any more, and no connection is left that works. -/
theorem shut_down (credentials : ι → Option (CredentialRow γ)) (before after : List (Event ι γ)) :
    let m := final (McpClientManager.step opens) (initial credentials) (before ++ [.closeAll])
    (∀ step ∈ run (McpClientManager.step opens) m after, step.output = []) ∧
      ∀ entry ∈ (final (McpClientManager.step opens) m after).conns, ¬entry.Live := by
  intro m
  have hDown : Down m := by
    rw [show m = _ from final_append ..]
    exact ⟨rfl, fun _ => rfl⟩
  have hSound : ∀ events, Sound (final (McpClientManager.step opens) (initial credentials) events) :=
    final_invariant (fun _ event h => (h.step opens event).sound) ⟨nofun, nofun⟩
  have hKept : ∀ (m : McpClientManager ι γ) event, Down m → Down (m.step opens event).1 := fun _ event h => (h.step event).1
  refine ⟨fun step hStep => ?_, fun entry hEntry hLive => ?_⟩
  · obtain ⟨hBefore, hSame⟩ := run_invariant hKept hDown hStep
    rw [hSame]
    exact (hBefore.step step.input).2
  · obtain ⟨n, hConn⟩ := List.mem_iff_getElem?.mp hEntry
    have hHeld := (hSound (before ++ [.closeAll] ++ after)).live n entry (by rwa [final_append]) hLive
    rw [final_append] at hHeld
    exact absurd (((final_invariant hKept hDown after).2 _).symm.trans hHeld) nofun

end CommandSuite.McpClient
