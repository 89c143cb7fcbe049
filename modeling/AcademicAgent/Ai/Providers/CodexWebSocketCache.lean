import AcademicAgent.Ai.Providers.CodexWebSockets

/-!
# The cache of a session loses no connection

Every open connection is in the cache or belongs to a request in flight, as long as a
connection is stored into an empty cache and an entry is deleted for the connection it holds.
-/

namespace AcademicAgent

open Function (update_of_ne update_self)

namespace Codex

variable {k r : Nat} {f : Connection → Connection} {variant : Release} {reports : Bool}

variable {j : Nat} {i : Input}

namespace Sessions

variable (s : Sessions) (k : Nat) (f : Connection → Connection)

@[simp] theorem setConnection_requests : (s.setConnection k f).requests = s.requests := rfl

@[simp] theorem setConnection_cache :
    (s.setConnection k f).websocketSessionCache = s.websocketSessionCache := rfl

@[simp] theorem setConnection_opened : (s.setConnection k f).opened = s.opened := rfl

@[simp] theorem setConnection_started : (s.setConnection k f).started = s.started := rfl

theorem setConnection_connections (j : Nat) : (s.setConnection k f).connections j =
    if j = k then f (s.connections k) else s.connections j :=
  Function.update_apply s.connections k (f (s.connections k)) j

@[simp] theorem setConnection_self : (s.setConnection k f).connections k = f (s.connections k) :=
  update_self k _ s.connections

@[simp] theorem setConnection_other (h : j ≠ k) :
    (s.setConnection k f).connections j = s.connections j :=
  update_of_ne h _ s.connections

variable (r : Nat) (g : Request → Request)

@[simp] theorem setRequest_connections : (s.setRequest r g).connections = s.connections := rfl

@[simp] theorem setRequest_cache :
    (s.setRequest r g).websocketSessionCache = s.websocketSessionCache := rfl

@[simp] theorem setRequest_opened : (s.setRequest r g).opened = s.opened := rfl

@[simp] theorem setRequest_started : (s.setRequest r g).started = s.started := rfl

@[simp] theorem setRequest_self : (s.setRequest r g).requests r = g (s.requests r) :=
  update_self r _ s.requests

@[simp] theorem setRequest_other {r' : Nat} (h : r' ≠ r) :
    (s.setRequest r g).requests r' = s.requests r' :=
  update_of_ne h _ s.requests

variable (request : Request)

@[simp] theorem addRequest_connections : (s.addRequest request).connections = s.connections := rfl

@[simp] theorem addRequest_self : (s.addRequest request).requests s.started = request :=
  update_self s.started _ s.requests

@[simp] theorem addRequest_other {r' : Nat} (h : r' ≠ s.started) :
    (s.addRequest request).requests r' = s.requests r' :=
  update_of_ne h _ s.requests

theorem send_settle (variant : Release) : (s.settle r).send r k variant = s.send r k variant := by
  simp [send, settle, setRequest, setConnection]

end Sessions

/-- A request has a connection that is not in the cache. -/
def Phase.Holds : Phase → Nat → Prop
  | .connecting j _, k => j = k
  | .active j .own, k => j = k
  | _, _ => False

/-- A request uses a connection through its cache entry. -/
def Phase.UsesEntry : Phase → Nat → Prop
  | .active j .reused, k => j = k
  | .active j .stored, k => j = k
  | _, _ => False

theorem Phase.connection?_iff {p : Phase} : p.connection? = some k ↔ p.Holds k ∨ p.UsesEntry k := by
  cases p with
  | connecting j stores | settled => simp [connection?, Holds, UsesEntry]
  | active j variant => cases variant <;> simp [connection?, Holds, UsesEntry]

/-- No two requests in flight have the same connection. -/
def Unshared (s : Sessions) : Prop :=
  ∀ r r' k, (s.requests r).phase.connection? = some k →
    (s.requests r').phase.connection? = some k → r = r'

/-- Besides, an entry in use is busy, and a connection that is held is not in the cache. -/
structure Inv (s : Sessions) : Prop where
  unshared : Unshared s
  busy : ∀ r k, (s.requests r).phase.UsesEntry k → (s.connections k).busy = true
  held : ∀ r k, (s.requests r).phase.Holds k → s.websocketSessionCache ≠ some k
  opened : ∀ r k, (s.requests r).phase.connection? = some k → k < s.opened
  cached : ∀ k, s.websocketSessionCache = some k → k < s.opened
  started : ∀ r, s.started ≤ r → (s.requests r).phase = .settled

namespace Inv

variable {s : Sessions}

theorem initial : Inv {} where
  unshared r r' k h _ := by cases h
  busy r k h := by cases h
  held r k h := by cases h
  opened r k h := by cases h
  cached k h := by cases h
  started r _ := rfl

section

variable (hs : Inv s)
include hs

theorem setConnection (k : Nat)
    (hf : (∃ r, (s.requests r).phase.UsesEntry k) → (f (s.connections k)).busy = true) :
    Inv (s.setConnection k f) where
  unshared := hs.unshared
  busy r j h := by
    rw [Sessions.setConnection_connections]
    split_ifs with hj
    · rw [hj] at h
      exact hf ⟨r, h⟩
    · exact hs.busy r j h
  held := hs.held
  opened := hs.opened
  cached := hs.cached
  started := hs.started

theorem deleteEntry : Inv s.deleteEntry where
  unshared := hs.unshared
  busy := hs.busy
  held r k _ := by simp [Sessions.deleteEntry]
  opened := hs.opened
  cached k h := by cases h
  started := hs.started

theorem setRequest (r : Nat) {f : Request → Request} (hr : r < s.started)
    (hunshared : ∀ k, (f (s.requests r)).phase.connection? = some k →
      ∀ r' ≠ r, (s.requests r').phase.connection? ≠ some k)
    (hbusy : ∀ k, (f (s.requests r)).phase.UsesEntry k → (s.connections k).busy = true)
    (hheld : ∀ k, (f (s.requests r)).phase.Holds k → s.websocketSessionCache ≠ some k)
    (hopened : ∀ k, (f (s.requests r)).phase.connection? = some k → k < s.opened) :
    Inv (s.setRequest r f) := by
  have hself := s.setRequest_self r f
  have hother := fun r' h => @Sessions.setRequest_other s r f r' h
  refine ⟨fun r₁ r₂ k h₁ h₂ => ?_, fun r' k h => ?_, fun r' k h => ?_, fun r' k h => ?_, hs.cached,
    fun r' h => ?_⟩
  · by_cases h1 : r₁ = r
    · by_cases h2 : r₂ = r
      · rw [h1, h2]
      · rw [h1, hself] at h₁
        rw [hother r₂ h2] at h₂
        exact absurd h₂ (hunshared k h₁ r₂ h2)
    · by_cases h2 : r₂ = r
      · rw [h2, hself] at h₂
        rw [hother r₁ h1] at h₁
        exact absurd h₁ (hunshared k h₂ r₁ h1)
      · rw [hother r₁ h1] at h₁
        rw [hother r₂ h2] at h₂
        exact hs.unshared r₁ r₂ k h₁ h₂
  · by_cases h' : r' = r
    · rw [h', hself] at h
      exact hbusy k h
    · rw [hother r' h'] at h
      exact hs.busy r' k h
  · by_cases h' : r' = r
    · rw [h', hself] at h
      exact hheld k h
    · rw [hother r' h'] at h
      exact hs.held r' k h
  · by_cases h' : r' = r
    · rw [h', hself] at h
      exact hopened k h
    · rw [hother r' h'] at h
      exact hs.opened r' k h
  · have h' : r' ≠ r := fun e => by rw [e] at h; exact absurd hr (Nat.not_lt.mpr h)
    rw [hother r' h']
    exact hs.started r' h

theorem lt_started (h : (s.requests r).phase ≠ .settled) : r < s.started := by
  by_contra hnot
  exact h (hs.started r (Nat.le_of_not_lt hnot))

theorem settle (h : (s.requests r).phase ≠ .settled) : Inv (s.settle r) :=
  hs.setRequest r (hs.lt_started h) (fun k hk => by cases hk) (fun k hk => by cases hk)
    (fun k hk => by cases hk) (fun k hk => by cases hk)

theorem setConnection_busy (k : Nat)
    (hf : (f (s.connections k)).busy = (s.connections k).busy) : Inv (s.setConnection k f) :=
  hs.setConnection k fun ⟨r, h⟩ => hf.trans (hs.busy r k h)

theorem closeWebSocketSilently (k : Nat) : Inv (s.closeWebSocketSilently k) :=
  hs.setConnection_busy k rfl

theorem settle_free (h : (s.requests r).phase.connection? = some k) (r' : Nat) :
    ((s.settle r).requests r').phase.connection? ≠ some k := by
  intro h'
  by_cases hr : r' = r
  · rw [hr, Sessions.settle, Sessions.setRequest_self] at h'
    cases h'
  · rw [Sessions.settle, s.setRequest_other r _ hr] at h'
    exact hr (hs.unshared r' r k h' h)

theorem connectWebSocket (body : RequestBody) (transport : Option Transport)
    (stores : Bool) : Inv (s.connectWebSocket body transport stores) := by
  have hself : (s.connectWebSocket body transport stores).requests s.started =
      { body, transport, phase := .connecting s.opened stores } := Sessions.addRequest_self _ _
  have hother : ∀ r ≠ s.started,
      (s.connectWebSocket body transport stores).requests r = s.requests r :=
    fun r h => Sessions.addRequest_other _ _ h
  have hconnection : ∀ r k, ((s.connectWebSocket body transport stores).requests r).phase.connection? =
      some k → (r = s.started ∧ k = s.opened) ∨
        (r ≠ s.started ∧ k < s.opened ∧ (s.requests r).phase.connection? = some k) := by
    intro r k h
    by_cases hr : r = s.started
    · rw [hr, hself] at h
      exact .inl ⟨hr, (Option.some.inj h).symm⟩
    · rw [hother r hr] at h
      exact .inr ⟨hr, hs.opened r k h, h⟩
  refine ⟨fun r r' k h h' => ?_, fun r k h => ?_, fun r k h => ?_, fun r k h => ?_, fun k h => ?_,
    fun r h => ?_⟩
  · rcases hconnection r k h with ⟨hr, hk⟩ | ⟨hr, hk, hold⟩
    · rcases hconnection r' k h' with ⟨hr', -⟩ | ⟨-, hk', -⟩
      · rw [hr, hr']
      · omega
    · rcases hconnection r' k h' with ⟨-, hk'⟩ | ⟨-, -, hold'⟩
      · omega
      · exact hs.unshared r r' k hold hold'
  · rcases hconnection r k (Phase.connection?_iff.mpr (.inr h)) with ⟨hr, -⟩ | ⟨hr, hk, -⟩
    · rw [hr, hself] at h
      cases h
    · rw [hother r hr] at h
      have hconn : (s.connectWebSocket body transport stores).connections k = s.connections k :=
        update_of_ne (Nat.ne_of_lt hk) _ _
      rw [hconn]
      exact hs.busy r k h
  · rcases hconnection r k (Phase.connection?_iff.mpr (.inl h)) with ⟨-, hk⟩ | ⟨hr, -, -⟩
    · intro hcached
      have hlt := hs.cached k hcached
      omega
    · rw [hother r hr] at h
      exact hs.held r k h
  · have hopened : (s.connectWebSocket body transport stores).opened = s.opened + 1 := rfl
    rcases hconnection r k h with ⟨-, hk⟩ | ⟨-, hk, -⟩ <;> omega
  · have hopened : (s.connectWebSocket body transport stores).opened = s.opened + 1 := rfl
    have hlt := hs.cached k h
    omega
  · have hstarted : (s.connectWebSocket body transport stores).started = s.started + 1 := rfl
    rw [hother r (by omega)]
    exact hs.started r (by omega)

theorem send (hr : r < s.started) (hk : k < s.opened)
    (hfree : ∀ r' ≠ r, (s.requests r').phase.connection? ≠ some k)
    (hbusy : variant ≠ .own → (s.connections k).busy = true)
    (hheld : variant = .own → s.websocketSessionCache ≠ some k) : Inv (s.send r k variant) := by
  have hkept : Inv (s.setConnection k fun c =>
      { c with
        continuation :=
          (Sessions.requestBody (s.requests r).body (s.requests r).transport variant
            (s.connections k).continuation).2 }) :=
    hs.setConnection_busy k rfl
  rw [Sessions.send]
  refine hkept.setRequest r hr ?_ ?_ ?_ ?_
  · intro j hj
    cases hj
    exact hfree
  · intro j hj
    cases variant with
    | own => cases hj
    | reused | stored =>
      cases hj
      simpa using hbusy (by simp)
  · intro j hj
    cases variant with
    | own =>
      cases hj
      exact hheld rfl
    | reused => cases hj
    | stored => cases hj
  · intro j hj
    cases hj
    exact hk

theorem addRequest {request : Request} (h : request.phase = .settled) :
    Inv (s.addRequest request) := by
  have hphase : ∀ r, ((s.addRequest request).requests r).phase = (s.requests r).phase := by
    intro r
    by_cases hr : r = s.started
    · rw [hr, Sessions.addRequest_self, h, hs.started s.started (Nat.le_refl _)]
    · rw [Sessions.addRequest_other _ _ hr]
  refine ⟨fun r r' k h h' => ?_, fun r k h => ?_, fun r k h => ?_, fun r k h => ?_, hs.cached,
    fun r h => ?_⟩
  · rw [hphase] at h h'
    exact hs.unshared r r' k h h'
  · rw [hphase] at h
    exact hs.busy r k h
  · rw [hphase] at h
    exact hs.held r k h
  · rw [hphase] at h
    exact hs.opened r k h
  · rw [hphase]
    exact hs.started r (Nat.le_of_succ_le h)

theorem idle_free (hcached : s.websocketSessionCache = some k)
    (hidle : (s.connections k).busy = false) (r : Nat) :
    (s.requests r).phase.connection? ≠ some k := by
  intro h
  rcases Phase.connection?_iff.mp h with hheld | huses
  · exact hs.held r k hheld hcached
  · rw [hs.busy r k huses] at hidle
    cases hidle

theorem reuse (hcached : s.websocketSessionCache = some k)
    (hidle : (s.connections k).busy = false) (body : RequestBody) (transport : Option Transport) :
    Inv (((s.setConnection k fun c => { c with busy := true }).addRequest
      { body, transport }).send s.started k .reused) := by
  have hbusy : Inv (s.setConnection k fun c => { c with busy := true }) :=
    hs.setConnection k fun _ => rfl
  have hadded : Inv ((s.setConnection k fun c => { c with busy := true }).addRequest
      { body, transport }) :=
    hbusy.addRequest rfl
  refine hadded.send (Nat.lt_succ_self _) (hs.cached k hcached) (fun r hr => ?_) (fun _ => ?_)
    fun h => by cases h
  · have hother := Sessions.addRequest_other (s.setConnection k fun c => { c with busy := true })
      { body, transport } hr
    rw [hother]
    exact hs.idle_free hcached hidle r
  · exact congrArg Connection.busy (s.setConnection_self k fun c => { c with busy := true })

theorem acquireWebSocket (reports : Bool) (body : RequestBody)
    (transport : Option Transport) : Inv (s.acquireWebSocket reports body transport) := by
  rw [Sessions.acquireWebSocket]
  cases hcached : s.websocketSessionCache with
  | none => exact hs.connectWebSocket body transport true
  | some k =>
    have hcleared : Inv (s.setConnection k fun c => { c with idleTimer := false }) :=
      hs.setConnection_busy k rfl
    dsimp only
    split_ifs with hbusy hreusable
    · exact hcleared.connectWebSocket body transport false
    · exact hcleared.reuse hcached (by simpa using hbusy) body transport
    · exact (hcleared.closeWebSocketSilently k).deleteEntry.connectWebSocket body transport true

theorem store (hk : k < s.opened) (hfree : ∀ r, (s.requests r).phase.connection? ≠ some k) :
    Inv { s with websocketSessionCache := some k } where
  unshared := hs.unshared
  busy := hs.busy
  held r j h hcached := by
    cases hcached
    exact hfree r (Phase.connection?_iff.mpr (.inl h))
  opened := hs.opened
  cached j h := by
    cases h
    exact hk
  started := hs.started

theorem connected {stores : Bool} (h : (s.requests r).phase = .connecting k stores) :
    Inv (s.connected r k stores) := by
  have hconnection : (s.requests r).phase.connection? = some k := by rw [h]; rfl
  have hholds : (s.requests r).phase.Holds k := by rw [h]; rfl
  have hflight : (s.requests r).phase ≠ .settled := by rw [h]; simp
  have hr := hs.lt_started hflight
  have hk := hs.opened r k hconnection
  rw [Sessions.connected]
  cases stores with
  | false =>
    have hopen : Inv (s.setConnection k fun c => { c with readyState := .open }) :=
      hs.setConnection_busy k rfl
    exact hopen.send hr hk (fun r' hr' h' => hr' (hs.unshared r' r k h' hconnection))
      (fun h => by simp at h) fun _ => hs.held r k hholds
  | true =>
    have hfree := hs.settle_free hconnection
    have hopen : Inv ((s.settle r).setConnection k fun c => { c with readyState := .open }) :=
      (hs.settle hflight).setConnection_busy k rfl
    have hbusy : Inv (((s.settle r).setConnection k fun c => { c with readyState := .open }).setConnection k
        fun c => { c with busy := true, continuation := none }) :=
      hopen.setConnection k fun _ => rfl
    have hstored := hbusy.store hk hfree
    rw [← Sessions.send_settle]
    refine hstored.send hr hk (fun r' _ => hfree r') ?_ ?_
    · simp
    · simp

theorem release (reports : Bool) (keep : Bool) (variant : Release)
    (hfree : ∀ r, (s.requests r).phase.connection? ≠ some k) :
    Inv (s.release reports k keep variant) := by
  have hkept : Inv (s.setConnection k fun c => { c with busy := false, idleTimer := true }) :=
    hs.setConnection k fun ⟨r, huses⟩ =>
      absurd (Phase.connection?_iff.mpr (.inr huses)) (hfree r)
  cases variant with
  | own => exact hs.closeWebSocketSilently k
  | reused =>
    rw [Sessions.release]
    split_ifs with hclose
    · exact (hs.closeWebSocketSilently k).deleteEntry
    · exact hkept
  | stored =>
    rw [Sessions.release]
    have hclosed : Inv (s.setConnection k fun c =>
        { c with readyState := .closed, idleTimer := false }) := hs.setConnection_busy k rfl
    dsimp only
    split_ifs with hclose hcached
    · exact hclosed.deleteEntry
    · exact hclosed
    · exact hkept

theorem expire (k : Nat) : Inv (s.expire k) := by
  have hfired : Inv (s.setConnection k fun c => { c with idleTimer := false }) :=
    hs.setConnection_busy k rfl
  rw [Sessions.expire]
  split_ifs with hbusy
  · exact hfired
  · exact (hfired.closeWebSocketSilently k).deleteEntry

theorem close : Inv s.closeOpenAICodexWebSocketSessions := by
  rw [Sessions.closeOpenAICodexWebSocketSessions]
  cases s.websocketSessionCache with
  | none => exact hs
  | some k =>
    have hclosed : Inv (s.setConnection k fun c =>
        { c with idleTimer := false, readyState := .closed }) := hs.setConnection_busy k rfl
    exact hclosed.deleteEntry

theorem settled_release (reports : Bool) (h : (s.requests r).phase = .active k variant)
    (f : Connection → Connection) (hf : (f (s.connections k)).busy = (s.connections k).busy)
    (keep : Bool) : Inv (((s.settle r).setConnection k f).release reports k keep variant) := by
  have hconnection : (s.requests r).phase.connection? = some k := by rw [h]; rfl
  have hflight : (s.requests r).phase ≠ .settled := by rw [h]; simp
  have hchanged : Inv ((s.settle r).setConnection k f) :=
    (hs.settle hflight).setConnection_busy k hf
  exact hchanged.release reports keep variant (hs.settle_free hconnection)

theorem step {t : Sessions} (h : Codex.step reports s i = some t) : Inv t := by
  have hcases := step_cases h
  cases i with
  | acquire body transport =>
    rw [hcases]
    exact hs.acquireWebSocket reports body transport
  | connected r =>
    obtain ⟨k, stores, hphase, rfl⟩ := hcases
    exact hs.connected hphase
  | connectFailed r =>
    obtain ⟨k, stores, hphase, rfl⟩ := hcases
    exact (hs.settle (by rw [hphase]; simp)).closeWebSocketSilently k
  | complete r aborted responseId responseItems | fail r =>
    obtain ⟨k, variant, hphase, rfl⟩ := hcases
    exact hs.settled_release reports hphase _ rfl _
  | remoteClose k =>
    obtain ⟨-, rfl⟩ := hcases
    exact hs.closeWebSocketSilently k
  | expire k =>
    obtain ⟨-, rfl⟩ := hcases
    exact hs.expire k
  | close =>
    rw [hcases]
    exact hs.close

end

end Inv

/-- A connection is closed, in the cache, or held by a request in flight. -/
def Held (s : Sessions) : Prop :=
  ∀ k < s.opened, (s.connections k).readyState = .closed ∨ s.websocketSessionCache = some k ∨
    ∃ r, (s.requests r).phase.Holds k

/-- A connection is stored into an empty cache, and an entry is deleted for its own connection. -/
def Kept (reports : Bool) (s : Sessions) : Input → Prop
  | .connected r => ∀ k, (s.requests r).phase = .connecting k true → s.websocketSessionCache = none
  | .complete r aborted _ _ => ∀ k, (s.requests r).phase = .active k .reused →
      aborted = true ∨ s.isWebSocketReusable reports k = false →
        s.websocketSessionCache = none ∨ s.websocketSessionCache = some k
  | .fail r => ∀ k, (s.requests r).phase = .active k .reused →
      s.websocketSessionCache = none ∨ s.websocketSessionCache = some k
  | .expire k => (s.connections k).busy = true ∨ s.websocketSessionCache = none ∨
      s.websocketSessionCache = some k
  | _ => True

def subject (s : Sessions) : Input → Option Nat
  | .acquire .. | .close => s.websocketSessionCache
  | .connected r | .connectFailed r | .complete r .. | .fail r => (s.requests r).phase.connection?
  | .remoteClose k | .expire k => some k

/-- An operation removes no entry but that of its own connection. -/
def RemovesOwn (reports : Bool) (s : Sessions) (i : Input) : Prop :=
  ∀ t, step reports s i = some t → ∀ k, s.websocketSessionCache = some k →
    t.websocketSessionCache = some k ∨ subject s i = some k

namespace Sessions

variable (s : Sessions)

@[simp] theorem send_cache (r k : Nat) (variant : Release) :
    (s.send r k variant).websocketSessionCache = s.websocketSessionCache := rfl

@[simp] theorem send_phase (r k : Nat) (variant : Release) :
    ((s.send r k variant).requests r).phase = .active k variant := by
  simp [send]

theorem send_otherRequest {r' : Nat} (k : Nat) (variant : Release) (h : r' ≠ r) :
    (s.send r k variant).requests r' = s.requests r' := by
  simp [send, h]

@[simp] theorem send_readyState (r k : Nat) (variant : Release) (j : Nat) :
    ((s.send r k variant).connections j).readyState = (s.connections j).readyState := by
  rw [send, setRequest_connections, setConnection_connections]
  split_ifs with hj
  · rw [hj]
  · rfl

section

variable (reports : Bool)

@[simp] theorem release_requests (k : Nat) (keep : Bool) (variant : Release) :
    (s.release reports k keep variant).requests = s.requests := by
  cases variant with
  | own => rfl
  | reused =>
    rw [release]
    split_ifs <;> rfl
  | stored =>
    rw [release]
    dsimp only
    split_ifs <;> rfl

@[simp] theorem release_opened (k : Nat) (keep : Bool) (variant : Release) :
    (s.release reports k keep variant).opened = s.opened := by
  cases variant with
  | own => rfl
  | reused =>
    rw [release]
    split_ifs <;> rfl
  | stored =>
    rw [release]
    dsimp only
    split_ifs <;> rfl

theorem release_other (keep : Bool) (variant : Release) (h : j ≠ k) :
    (s.release reports k keep variant).connections j = s.connections j := by
  cases variant with
  | own => exact update_of_ne h _ _
  | reused =>
    rw [release]
    split_ifs
    · exact update_of_ne h _ _
    · exact update_of_ne h _ _
  | stored =>
    rw [release]
    dsimp only
    split_ifs
    · exact update_of_ne h _ _
    · exact update_of_ne h _ _
    · exact update_of_ne h _ _

theorem release_self (k : Nat) (keep : Bool) (variant : Release) :
    ((s.release reports k keep variant).connections k).readyState = .closed ∨
      (((s.release reports k keep variant).connections k).readyState =
        (s.connections k).readyState ∧ variant ≠ .own ∧
          (s.release reports k keep variant).websocketSessionCache = s.websocketSessionCache) := by
  cases variant with
  | own => exact .inl (by simp [release, closeWebSocketSilently])
  | reused =>
    rw [release]
    split_ifs
    · exact .inl (by simp [closeWebSocketSilently, deleteEntry])
    · exact .inr (by simp)
  | stored =>
    rw [release]
    dsimp only
    split_ifs
    · exact .inl (by simp [deleteEntry])
    · exact .inl (by simp)
    · exact .inr (by simp)

theorem release_cache {keep : Bool}
    (hown : variant = .reused → keep = false ∨ s.isWebSocketReusable reports k = false → s.websocketSessionCache = none ∨ s.websocketSessionCache = some k)
    (hcached : s.websocketSessionCache = some j) (hj : j ≠ k) :
    (s.release reports k keep variant).websocketSessionCache = some j := by
  cases variant with
  | own => exact hcached
  | reused =>
    rw [release]
    split_ifs with hclose
    · have hcases := hown rfl (by simpa using hclose)
      rw [hcached] at hcases
      rcases hcases with h | h
      · cases h
      · cases h
        exact absurd rfl hj
    · exact hcached
  | stored =>
    rw [release]
    dsimp only
    split_ifs with hclose hsame
    · have hself : s.websocketSessionCache = some k := hsame
      rw [hcached] at hself
      cases hself
      exact absurd rfl hj
    · exact hcached
    · exact hcached

end

end Sessions

theorem Kept.removesOwn {s : Sessions} (hk : Kept reports s i) : RemovesOwn reports s i := by
  intro t h j hcached
  have hcases := step_cases h
  by_cases hsubject : subject s i = some j
  · exact .inr hsubject
  · refine .inl ?_
    cases i with
    | acquire body transport | close => exact absurd hcached hsubject
    | connected r =>
      obtain ⟨k, stores, hphase, rfl⟩ := hcases
      cases stores with
      | false => exact hcached
      | true =>
        rw [hk k hphase] at hcached
        cases hcached
    | connectFailed r =>
      obtain ⟨k, stores, hphase, rfl⟩ := hcases
      exact hcached
    | complete r aborted responseId responseItems =>
      obtain ⟨k, variant, hphase, rfl⟩ := hcases
      have hj : j ≠ k := fun e => hsubject (by rw [subject, hphase, e]; rfl)
      refine Sessions.release_cache _ reports (fun hreused hclose => ?_) hcached hj
      rw [hreused] at hphase
      refine hk k hphase ?_
      simpa [Sessions.isWebSocketReusable, Sessions.settle] using hclose
    | fail r =>
      obtain ⟨k, variant, hphase, rfl⟩ := hcases
      have hj : j ≠ k := fun e => hsubject (by rw [subject, hphase, e]; rfl)
      refine Sessions.release_cache _ reports (fun hreused _ => ?_) hcached hj
      rw [hreused] at hphase
      exact hk k hphase
    | remoteClose k =>
      obtain ⟨-, rfl⟩ := hcases
      exact hcached
    | expire k =>
      obtain ⟨-, rfl⟩ := hcases
      have hj : j ≠ k := fun e => hsubject (by rw [subject, e])
      rw [Sessions.expire]
      split_ifs with hbusy
      · exact hcached
      · rcases hk with hkbusy | hnone | hself
        · exact absurd (by simpa using hkbusy) hbusy
        · rw [hnone] at hcached
          cases hcached
        · rw [hself] at hcached
          cases hcached
          exact absurd rfl hj

namespace Held

variable {s t : Sessions}

theorem change (hs : Held s) (hopened : t.opened = s.opened)
    (hself : (t.connections k).readyState = .closed ∨ t.websocketSessionCache = some k ∨ ∃ r, (t.requests r).phase.Holds k)
    (hclosed : ∀ j ≠ k, (s.connections j).readyState = .closed → (t.connections j).readyState = .closed)
    (hcached : ∀ j ≠ k, s.websocketSessionCache = some j → t.websocketSessionCache = some j)
    (hholds : ∀ j ≠ k, ∀ r, (s.requests r).phase.Holds j → (t.requests r).phase.Holds j) :
    Held t := by
  intro j hj
  by_cases hjk : j = k
  · rw [hjk]
    exact hself
  · rw [hopened] at hj
    rcases hs j hj with h | h | ⟨r, h⟩
    · exact .inl (hclosed j hjk h)
    · exact .inr (.inl (hcached j hjk h))
    · exact .inr (.inr ⟨r, hholds j hjk r h⟩)

theorem setConnection (hs : Held s) (k : Nat)
    (hf : (s.connections k).readyState = .closed → (f (s.connections k)).readyState = .closed) :
    Held (s.setConnection k f) := by
  intro j hj
  rcases hs j hj with h | h
  · refine .inl ?_
    rw [Sessions.setConnection_connections]
    split_ifs with hjk
    · rw [hjk] at h
      exact hf h
    · exact h
  · exact .inr h

theorem closeEntry (hs : Held s) (hf : ∀ c, (f c).readyState = .closed)
    (hcached : s.websocketSessionCache = none ∨ s.websocketSessionCache = some k) :
    Held (s.setConnection k f).deleteEntry := by
  refine hs.change (k := k) rfl (.inl ?_) (fun j hj h => ?_) (fun j hj h => ?_) fun j _ r h => h
  · simp [Sessions.deleteEntry, hf]
  · simpa [Sessions.deleteEntry, hj] using h
  · rcases hcached with hnone | hself
    · rw [hnone] at h
      cases h
    · rw [hself] at h
      cases h
      exact absurd rfl hj

theorem connectWebSocket (hs : Held s) (hinv : Inv s) (body : RequestBody)
    (transport : Option Transport) (stores : Bool) :
    Held (s.connectWebSocket body transport stores) := by
  intro j hj
  by_cases hnew : j = s.opened
  · refine .inr (.inr ⟨s.started, ?_⟩)
    rw [hnew, Sessions.connectWebSocket]
    exact (congrArg (fun q : Request => q.phase.Holds s.opened)
      (Sessions.addRequest_self _ _)).mpr rfl
  · have hold : j < s.opened := by
      have hopened : (s.connectWebSocket body transport stores).opened = s.opened + 1 := rfl
      omega
    have hconnection : (s.connectWebSocket body transport stores).connections j = s.connections j :=
      update_of_ne hnew _ _
    rcases hs j hold with h | h | ⟨r, h⟩
    · exact .inl (by rw [hconnection]; exact h)
    · exact .inr (.inl h)
    · refine .inr (.inr ⟨r, ?_⟩)
      have hr : r ≠ s.started := by
        rintro rfl
        rw [hinv.started s.started (Nat.le_refl _)] at h
        cases h
      have hrequest : (s.connectWebSocket body transport stores).requests r = s.requests r :=
        Sessions.addRequest_other _ _ hr
      rw [hrequest]
      exact h

theorem ne_started (hinv : Inv s) (h : (s.requests r).phase.Holds j) : r ≠ s.started := by
  rintro rfl
  rw [hinv.started s.started (Nat.le_refl _)] at h
  cases h

section

variable (hs : Held s)
include hs

theorem reuse (hinv : Inv s) (hcached : s.websocketSessionCache = some k)
    (body : RequestBody) (transport : Option Transport) :
    Held (((s.setConnection k fun c => { c with busy := true }).addRequest
      { body, transport }).send s.started k .reused) := by
  refine hs.change (k := k) rfl (.inr (.inl hcached)) (fun j hj h => ?_) (fun j _ h => h)
    fun j _ r h => ?_
  · simpa [hj] using h
  · have hr := ne_started hinv h
    rw [Sessions.send_otherRequest _ k .reused hr]
    have hrequest := Sessions.addRequest_other (s.setConnection k fun c => { c with busy := true })
      { body, transport } hr
    rw [hrequest]
    exact h

theorem acquireWebSocket (hinv : Inv s) (reports : Bool) (body : RequestBody)
    (transport : Option Transport) : Held (s.acquireWebSocket reports body transport) := by
  rw [Sessions.acquireWebSocket]
  cases hcached : s.websocketSessionCache with
  | none => exact hs.connectWebSocket hinv body transport true
  | some k =>
    have hcleared : Held (s.setConnection k fun c => { c with idleTimer := false }) :=
      hs.setConnection k id
    have hinv' : Inv (s.setConnection k fun c => { c with idleTimer := false }) :=
      hinv.setConnection_busy k rfl
    dsimp only
    split_ifs with hbusy hreusable
    · exact hcleared.connectWebSocket hinv' body transport false
    · exact hcleared.reuse hinv' hcached body transport
    · exact (hcleared.closeEntry (fun _ => rfl) (.inr hcached)).connectWebSocket
        (hinv'.closeWebSocketSilently k).deleteEntry body transport true

theorem connected {stores : Bool} (h : (s.requests r).phase = .connecting k stores)
    (hempty : stores = true → s.websocketSessionCache = none) : Held (s.connected r k stores) := by
  have hholds : ∀ j ≠ k, ∀ r', (s.requests r').phase.Holds j → r' ≠ r := by
    rintro j hj r' hr' rfl
    rw [h] at hr'
    exact hj hr'.symm
  rw [Sessions.connected]
  cases stores with
  | false =>
    refine hs.change (k := k) rfl (.inr (.inr ⟨r, ?_⟩)) (fun j hj hc => ?_) (fun j _ hc => hc)
      fun j hj r' hr' => ?_
    · simp only [Bool.false_eq_true, if_false, Sessions.send_phase]
      rfl
    · simp only [Bool.false_eq_true, if_false, Sessions.send_readyState]
      exact (congrArg Connection.readyState (s.setConnection_other k _ hj)).trans hc
    · simp only [Bool.false_eq_true, if_false]
      rw [Sessions.send_otherRequest _ k .own (hholds j hj r' hr')]
      exact hr'
  | true =>
    refine hs.change (k := k) rfl (.inr (.inl rfl)) (fun j hj hc => ?_) (fun j _ hc => ?_)
      fun j hj r' hr' => ?_
    · simp only [if_true, Sessions.send_readyState]
      simpa [hj] using hc
    · rw [hempty rfl] at hc
      cases hc
    · simp only [if_true]
      rw [Sessions.send_otherRequest _ k .stored (hholds j hj r' hr')]
      exact hr'

theorem settled_release (hinv : Inv s) (reports : Bool)
    (h : (s.requests r).phase = .active k variant) (hf : ∀ c, (f c).readyState = c.readyState)
    {keep : Bool}
    (hown : variant = .reused → keep = false ∨ s.isWebSocketReusable reports k = false → s.websocketSessionCache = none ∨ s.websocketSessionCache = some k)
    : Held (((s.settle r).setConnection k f).release reports k keep variant) := by
  have hconnection : (s.requests r).phase.connection? = some k := by rw [h]; rfl
  have hk := hinv.opened r k hconnection
  refine hs.change (k := k) (by simp [Sessions.settle]) ?_ (fun j hj hc => ?_) (fun j hj hc => ?_)
    fun j hj r' hr' => ?_
  · rcases Sessions.release_self ((s.settle r).setConnection k f) reports k keep variant with
      hclosed | ⟨hstate, hvariant, hcache⟩
    · exact .inl hclosed
    · rw [hstate, hcache, Sessions.setConnection_self, hf]
      rcases hs k hk with hclosed | hcached | ⟨r', hr'⟩
      · exact .inl hclosed
      · exact .inr (.inl hcached)
      · have hsame := hinv.unshared r' r k (Phase.connection?_iff.mpr (.inl hr')) hconnection
        rw [hsame, h] at hr'
        cases variant with
        | own => exact absurd rfl hvariant
        | reused => cases hr'
        | stored => cases hr'
  · rw [Sessions.release_other _ reports keep variant hj]
    exact (congrArg Connection.readyState ((s.settle r).setConnection_other k f hj)).trans hc
  · refine Sessions.release_cache ((s.settle r).setConnection k f) reports
      (fun hreused hclose => hown hreused ?_) hc hj
    simpa [Sessions.isWebSocketReusable, Sessions.settle, hf] using hclose
  · have hne : r' ≠ r := by
      rintro rfl
      rw [h] at hr'
      cases variant with
      | own => exact hj hr'.symm
      | reused => cases hr'
      | stored => cases hr'
    rw [Sessions.release_requests]
    simpa [Sessions.settle, hne] using hr'

theorem step (hinv : Inv s) (hkept : Kept reports s i) (h : Codex.step reports s i = some t) :
    Held t := by
  have hcases := step_cases h
  cases i with
  | acquire body transport =>
    rw [hcases]
    exact hs.acquireWebSocket hinv reports body transport
  | connected r =>
    obtain ⟨k, stores, hphase, rfl⟩ := hcases
    refine hs.connected hphase fun hstores => hkept k ?_
    rw [hphase, hstores]
  | connectFailed r =>
    obtain ⟨k, stores, hphase, rfl⟩ := hcases
    refine hs.change (k := k) rfl (.inl ?_) (fun j hj hc => ?_) (fun j _ hc => hc)
      fun j hj r' hr' => ?_
    · simp [Sessions.connectFailed, Sessions.closeWebSocketSilently]
    · simpa [Sessions.connectFailed, Sessions.closeWebSocketSilently, Sessions.settle, hj] using hc
    · have hne : r' ≠ r := by
        rintro rfl
        rw [hphase] at hr'
        exact hj hr'.symm
      simpa [Sessions.connectFailed, Sessions.closeWebSocketSilently, Sessions.settle, hne] using hr'
  | complete r aborted responseId responseItems =>
    obtain ⟨k, variant, hphase, rfl⟩ := hcases
    rw [Sessions.complete]
    refine hs.settled_release hinv reports hphase ?_ fun hreused hclose => ?_
    · intro c
      rfl
    · rw [hreused] at hphase
      exact hkept k hphase (by simpa using hclose)
  | fail r =>
    obtain ⟨k, variant, hphase, rfl⟩ := hcases
    rw [Sessions.fail]
    refine hs.settled_release hinv reports hphase ?_ fun hreused _ => ?_
    · intro c
      rfl
    · rw [hreused] at hphase
      exact hkept k hphase
  | remoteClose k =>
    obtain ⟨-, rfl⟩ := hcases
    exact hs.setConnection k fun _ => rfl
  | expire k =>
    obtain ⟨-, rfl⟩ := hcases
    have hfired : Held (s.setConnection k fun c => { c with idleTimer := false }) :=
      hs.setConnection k id
    rw [Sessions.expire]
    split_ifs with hbusy
    · exact hfired
    · refine hfired.closeEntry (fun _ => rfl) (hkept.resolve_left fun h => hbusy ?_)
      simpa using h
  | close =>
    rw [hcases, Sessions.closeOpenAICodexWebSocketSessions]
    cases hcached : s.websocketSessionCache with
    | none => exact hs
    | some k => exact hs.closeEntry (fun _ => rfl) (.inr hcached)

theorem closed (hsettled : ∀ r, (s.requests r).phase = .settled) (hk : k < s.opened) :
    (s.closeOpenAICodexWebSocketSessions.connections k).readyState = .closed := by
  rw [Sessions.closeOpenAICodexWebSocketSessions]
  rcases hs k hk with hclosed | hcached | ⟨r, hr⟩
  · cases hcached : s.websocketSessionCache with
    | none => exact hclosed
    | some j =>
      by_cases hj : k = j
      · simp [Sessions.deleteEntry, hj]
      · simpa [Sessions.deleteEntry, hj] using hclosed
  · rw [hcached]
    simp [Sessions.deleteEntry]
  · rw [hsettled r] at hr
    cases hr

end

end Held

/-- No connection serves two requests, no operation removes the entry of another connection,
and closing the session with no request in flight closes every connection opened for it. -/
structure LosesNoConnection (reports : Bool) (is : List Input) (s : Sessions) : Prop where
  unshared : Unshared s
  removesOwn : Along (step reports) (RemovesOwn reports) {} is
  closed : (∀ r, (s.requests r).phase = .settled) → ∀ k < s.opened,
    (s.closeOpenAICodexWebSocketSessions.connections k).readyState = .closed

/-- A run that stores connections into an empty cache, and deletes an entry for its own
connection, loses no connection. -/
theorem websockets_kept {reports : Bool} {is : List Input} {s : Sessions}
    (hkept : Along (step reports) (Kept reports) {} is) (hrun : run (step reports) {} is = some s) :
    LosesNoConnection reports is s := by
  have hinitial : Inv {} ∧ Held {} := ⟨.initial, fun k hk => absurd hk (Nat.not_lt_zero k)⟩
  have hstep : ∀ s i t, Inv s ∧ Held s → Kept reports s i → step reports s i = some t →
      Inv t ∧ Held t := fun _ _ _ h hi ht => ⟨h.1.step ht, h.2.step h.1 hi ht⟩
  have hboth := run_invariant hstep hinitial hkept hrun
  exact ⟨hboth.1.unshared, hkept.imp fun _ _ => Kept.removesOwn, fun h _ => hboth.2.closed h⟩

/-- A request, another one on its connection, and the end of the session. -/
def reusedRun : List Input :=
  [.acquire {} none, .connected 0, .complete 0 false none [], .acquire {} none,
    .complete 1 false none [], .close]

/-- A connection that is reused and closed with its session. -/
theorem websockets_kept_reused :
    ∃ s, run (step true) {} reusedRun = some s ∧ LosesNoConnection true reusedRun s := by
  refine ⟨_, rfl, websockets_kept ?_ rfl⟩
  refine .cons rfl trivial (.cons rfl (fun k hk => rfl) (.cons rfl ?_ (.cons rfl trivial
    (.cons rfl ?_ (.cons rfl trivial trivial)))))
  · rintro k ⟨⟩
  · rintro k ⟨⟩ -
    exact Or.inr rfl

/-- Two requests that acquire a connection at the same time, and end. -/
def overlappingRun : List Input :=
  [.acquire {} none, .acquire {} none, .connected 0, .connected 1, .complete 0 false none [],
    .complete 1 false none []]

/-- In every run, whatever it does to the cache, a connection serves one request at a time: one that
is used through the cache is busy, and one that is held is not in the cache. -/
theorem connections_unshared {reports : Bool} {s : Sessions}
    (h : Reachable (step reports) {} s) : Unshared s ∧ ∀ r k,
      ((s.requests r).phase.UsesEntry k → (s.connections k).busy = true) ∧
      ((s.requests r).phase.Holds k → s.websocketSessionCache ≠ some k) := by
  have hinv : Inv s := h.invariant (fun _ _ _ hs hstep => hs.step hstep) .initial
  exact ⟨hinv.unshared, fun r k => ⟨hinv.busy r k, hinv.held r k⟩⟩

theorem connections_unshared_overlapping :
    ∃ s, run (step true) {} overlappingRun = some s ∧ Unshared s :=
  ⟨_, rfl, (@connections_unshared true _ ⟨overlappingRun, rfl⟩).1⟩

/-- Of two connections that are established at the same time, one stays open. -/
theorem websockets_not_kept :
    ¬ ∀ is s, run (step true) {} is = some s → LosesNoConnection true is s := by
  intro h
  have hclosed := (h overlappingRun _ rfl).closed (fun r => ?_) 0 (by decide)
  · cases hclosed
  · rcases r with - | - | r <;> rfl

end Codex

end AcademicAgent
