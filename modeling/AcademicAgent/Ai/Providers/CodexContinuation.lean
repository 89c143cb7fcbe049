import AcademicAgent.Ai.Providers.CodexWebSocketCache

/-!
# Continuations of a Codex session

A request that goes on from a response sends what its input adds to the request of that
response and the items of the response.
-/

namespace AcademicAgent

theorem eq_some_of_nonEmpty {s : Option JsString} {t : JsString} (h : nonEmpty s = some t) :
    s = some t := by
  cases s with
  | none => cases h
  | some u =>
    rw [nonEmpty] at h
    split_ifs at h
    exact h

namespace Codex

theorem responseInputsEqual_iff {a b : Option (List Json)} :
    responseInputsEqual a b = true ↔ a.getD [] = b.getD [] := by
  rw [responseInputsEqual, beq_iff_eq, Json.stringify_injective.eq_iff, Json.array_injective.eq_iff]

theorem requestBodiesMatchExceptInput_iff {a b : RequestBody} :
    requestBodiesMatchExceptInput a b = true ↔ requestBodyWithoutInput a = requestBodyWithoutInput b := by
  rw [requestBodiesMatchExceptInput, beq_iff_eq, Json.stringify_injective.eq_iff]

variable {body : RequestBody} {variant : Release}

theorem getCachedWebSocketInputDelta_eq_some {c : CachedWebSocketContinuationState}
    {delta : List Json} (h : getCachedWebSocketInputDelta body c = some delta) :
    requestBodyWithoutInput body = requestBodyWithoutInput c.lastRequestBody ∧ body.input.getD [] =
        c.lastRequestBody.input.getD [] ++ c.lastResponseItems ++ delta := by
  rw [getCachedWebSocketInputDelta] at h
  dsimp only at h
  split_ifs at h with hmatch hlength hstart
  cases h
  refine ⟨requestBodiesMatchExceptInput_iff.mp hmatch, ?_⟩
  have htake := responseInputsEqual_iff.mp hstart
  simp only [Option.getD_some] at htake
  conv_lhs => rw [← List.take_append_drop
    (c.lastRequestBody.input.getD [] ++ c.lastResponseItems).length (body.input.getD [])]
  rw [htake]

theorem buildCachedWebSocketRequestBody_spec
    (continuation : Option CachedWebSocketContinuationState) (body : RequestBody) :
    buildCachedWebSocketRequestBody continuation body = (body, none) ∨
      ∃ c delta, continuation = some c ∧ getCachedWebSocketInputDelta body c = some delta ∧
        buildCachedWebSocketRequestBody continuation body =
          ({ body with previousResponseId := some c.lastResponseId, input := some delta }, some c) := by
  cases continuation with
  | none => exact .inl rfl
  | some c =>
    rw [buildCachedWebSocketRequestBody]
    cases hdelta : getCachedWebSocketInputDelta body c with
    | none => exact .inl rfl
    | some delta =>
      split_ifs with hid
      · exact .inl rfl
      · exact .inr ⟨c, delta, rfl, hdelta, rfl⟩

/-- A request that was sent with the id of a response goes on from the last response completed
on its connection: its input is the input of that request, the items of the response, and what
was sent, and the other fields are the same. -/
def ContinuesLast (request : Request) : Prop :=
  ∀ sent id, request.sent = some sent → sent.previousResponseId = some id →
    ∃ c, request.sentAfter = some c ∧ c.responseId = some id ∧
      request.body.input.getD [] = c.body.input.getD [] ++ c.responseItems ++ sent.input.getD [] ∧
      requestBodyWithoutInput request.body = requestBodyWithoutInput c.body ∧
      requestBodyWithoutInput sent = requestBodyWithoutInput c.body

def CachedWebSocketContinuationState.completed (c : CachedWebSocketContinuationState) :
    Completed where
  body := c.lastRequestBody
  responseId := some c.lastResponseId
  responseItems := c.lastResponseItems

/-- A continuation, if there is one, is the last response completed on the connection. -/
def Connection.UpToDate (connection : Connection) : Prop :=
  ∀ c, connection.continuation = some c → connection.lastCompleted = some c.completed

/-- The caller names no response of its own, and a response that does not set the continuation
completes on a connection that has none or is not kept. -/
def Continues (reports : Bool) (s : Sessions) : Input → Prop
  | .acquire body _ => body.previousResponseId = none
  | .complete r aborted responseId _ => ∀ k variant, (s.requests r).phase = .active k variant →
      variant = .own ∨ aborted = true ∨ s.isWebSocketReusable reports k = false ∨
        (s.connections k).continuation = none ∨
        (useCachedContext (s.requests r).transport = true ∧ nonEmpty responseId ≠ none)
  | _ => True

structure Continuing (s : Sessions) : Prop where
  cached : ∀ k, s.websocketSessionCache = some k → (s.connections k).UpToDate
  bodies : ∀ r, (s.requests r).body.previousResponseId = none
  sent : ∀ r, ContinuesLast (s.requests r)

theorem Sessions.release_upToDate (s : Sessions) (reports : Bool) (k : Nat) (keep : Bool)
    (variant : Release) (j : Nat) :
    ((s.release reports k keep variant).connections j).UpToDate ↔ (s.connections j).UpToDate := by
  by_cases hj : j = k
  · subst hj
    cases variant with
    | own => simp [release, closeWebSocketSilently, Connection.UpToDate]
    | reused =>
      rw [release]
      split_ifs <;> simp [closeWebSocketSilently, deleteEntry, Connection.UpToDate]
    | stored =>
      rw [release]
      dsimp only
      split_ifs <;> simp [deleteEntry, Connection.UpToDate]
  · rw [s.release_other reports keep variant hj]

theorem Sessions.release_cached {s : Sessions} {reports : Bool} {k : Nat} {keep : Bool} {j : Nat}
    (h : (s.release reports k keep variant).websocketSessionCache = some j) :
    s.websocketSessionCache = some j ∧ (variant ≠ .own → j = k →
      keep = true ∧ s.isWebSocketReusable reports k = true) := by
  cases variant with
  | own => exact ⟨h, fun hown => absurd rfl hown⟩
  | reused =>
    rw [release] at h
    split_ifs at h with hclose
    · cases h
    · exact ⟨h, fun _ _ => by simpa using hclose⟩
  | stored =>
    rw [release] at h
    dsimp only at h
    split_ifs at h with hclose hself
    · cases h
    · refine ⟨h, fun _ hj => absurd ?_ hself⟩
      rw [← hj]
      exact h
    · exact ⟨h, fun _ _ => by simpa using hclose⟩

namespace Continuing

variable {s : Sessions}

theorem initial : Continuing {} where
  cached k h := by cases h
  bodies r := rfl
  sent r sent id h := by cases h

section

variable (hs : Continuing s)
include hs

theorem setConnection (k : Nat) {f : Connection → Connection}
    (hf : s.websocketSessionCache = some k → (s.connections k).UpToDate →
      (f (s.connections k)).UpToDate) : Continuing (s.setConnection k f) where
  cached j h := by
    have hcached : s.websocketSessionCache = some j := h
    rw [Sessions.setConnection_connections]
    split_ifs with hj
    · rw [hj] at hcached
      exact hf hcached (hs.cached k hcached)
    · exact hs.cached j hcached
  bodies := hs.bodies
  sent := hs.sent

theorem deleteEntry : Continuing s.deleteEntry where
  cached k h := by cases h
  bodies := hs.bodies
  sent := hs.sent

theorem setRequest (r : Nat) {f : Request → Request}
    (hbody : (f (s.requests r)).body = (s.requests r).body)
    (hsent : ContinuesLast (f (s.requests r))) : Continuing (s.setRequest r f) where
  cached := hs.cached
  bodies r' := by
    by_cases hr : r' = r
    · rw [hr, Sessions.setRequest_self, hbody]
      exact hs.bodies r
    · rw [Sessions.setRequest_other _ _ _ hr]
      exact hs.bodies r'
  sent r' := by
    by_cases hr : r' = r
    · rw [hr, Sessions.setRequest_self]
      exact hsent
    · rw [Sessions.setRequest_other _ _ _ hr]
      exact hs.sent r'

theorem settle (r : Nat) : Continuing (s.settle r) :=
  hs.setRequest r rfl (hs.sent r)

theorem addRequest {request : Request}
    (hbody : request.body.previousResponseId = none) (hsent : request.sent = none) :
    Continuing (s.addRequest request) where
  cached := hs.cached
  bodies r := by
    by_cases hr : r = s.started
    · rw [hr, Sessions.addRequest_self]
      exact hbody
    · rw [Sessions.addRequest_other _ _ hr]
      exact hs.bodies r
  sent r := by
    by_cases hr : r = s.started
    · rw [hr, Sessions.addRequest_self]
      intro sent id h
      rw [hsent] at h
      cases h
    · rw [Sessions.addRequest_other _ _ hr]
      exact hs.sent r

theorem connectWebSocket (hinv : Inv s) (hbody : body.previousResponseId = none)
    (transport : Option Transport) (stores : Bool) :
    Continuing (s.connectWebSocket body transport stores) := by
  have hopened : Continuing { s with
      connections := Function.update s.connections s.opened {}
      opened := s.opened + 1 } := by
    refine ⟨fun k hk => ?_, hs.bodies, hs.sent⟩
    have hne : k ≠ s.opened := Nat.ne_of_lt (hinv.cached k hk)
    have hconnection : (Function.update s.connections s.opened {}) k = s.connections k :=
      Function.update_of_ne hne _ _
    show Connection.UpToDate (Function.update s.connections s.opened {} k)
    rw [hconnection]
    exact hs.cached k hk
  exact hopened.addRequest hbody rfl

end

theorem requestBody_spec (fullBody : RequestBody) (transport : Option Transport) (variant : Release) {connection : Connection}
    (hfresh : variant ≠ .own → connection.UpToDate) :
    let built := Sessions.requestBody fullBody transport variant connection.continuation
    (built.1 = fullBody ∨ ∃ c : CachedWebSocketContinuationState,
      connection.lastCompleted = some c.completed ∧
      built.1.previousResponseId = some c.lastResponseId ∧
      fullBody.input.getD [] =
        c.lastRequestBody.input.getD [] ++ c.lastResponseItems ++ built.1.input.getD [] ∧
      requestBodyWithoutInput fullBody = requestBodyWithoutInput c.lastRequestBody ∧
      requestBodyWithoutInput built.1 = requestBodyWithoutInput c.lastRequestBody) ∧
    (built.2 = none ∨ built.2 = connection.continuation) := by
  intro built
  by_cases huse : useCachedContext transport && variant != .own
  · have hbuilt : built = buildCachedWebSocketRequestBody connection.continuation fullBody :=
      if_pos huse
    have hown : variant ≠ .own := by
      rw [Bool.and_eq_true] at huse
      simpa using huse.2
    rcases buildCachedWebSocketRequestBody_spec connection.continuation fullBody with
      hspec | ⟨c, delta, hc, hdelta, hspec⟩
    · rw [hbuilt, hspec]
      exact ⟨.inl rfl, .inl rfl⟩
    · obtain ⟨hrest, hinput⟩ := getCachedWebSocketInputDelta_eq_some hdelta
      rw [hbuilt, hspec, hc]
      exact ⟨.inr ⟨c, hfresh hown c hc, rfl, hinput, hrest, hrest⟩, .inr rfl⟩
  · have hbuilt : built = (fullBody, connection.continuation) := if_neg huse
    rw [hbuilt]
    exact ⟨.inl rfl, .inr rfl⟩

section

variable (hs : Continuing s)
include hs

theorem send (r : Nat) {k : Nat} (variant : Release)
    (hfresh : variant ≠ .own → (s.connections k).UpToDate) : Continuing (s.send r k variant) := by
  obtain ⟨hsent, hkept⟩ := requestBody_spec (s.requests r).body (s.requests r).transport variant hfresh
  rw [Sessions.send]
  refine setRequest (hs.setConnection k fun _ hdate c hc => ?_) r rfl ?_
  · rcases hkept with hnone | hsame
    · rw [hnone] at hc
      cases hc
    · rw [hsame] at hc
      exact hdate c hc
  · intro sent id hsent' hid
    cases hsent'
    rcases hsent with hfull | ⟨c, hlast, hid', hinput, hrest, hrest'⟩
    · rw [hfull, hs.bodies r] at hid
      cases hid
    · rw [hid'] at hid
      cases hid
      exact ⟨c.completed, hlast, rfl, hinput, hrest, hrest'⟩

theorem acquireWebSocket (hinv : Inv s) (reports : Bool)
    (hbody : body.previousResponseId = none) (transport : Option Transport) :
    Continuing (s.acquireWebSocket reports body transport) := by
  rw [Sessions.acquireWebSocket]
  cases hcached : s.websocketSessionCache with
  | none => exact hs.connectWebSocket hinv hbody transport true
  | some k =>
    have hcleared : Continuing (s.setConnection k fun c => { c with idleTimer := false }) :=
      hs.setConnection k fun _ => id
    have hinv' : Inv (s.setConnection k fun c => { c with idleTimer := false }) :=
      hinv.setConnection_busy k rfl
    dsimp only
    split_ifs with hbusy hreusable
    · exact hcleared.connectWebSocket hinv' hbody transport false
    · have hused : Continuing ((s.setConnection k fun c => { c with idleTimer := false }).setConnection
          k fun c => { c with busy := true }) := hcleared.setConnection k fun _ => id
      exact (hused.addRequest hbody rfl).send _ .reused fun _ => hused.cached k hcached
    · have hclosed : Continuing ((s.setConnection k fun c =>
          { c with idleTimer := false }).closeWebSocketSilently k) :=
        hcleared.setConnection k fun _ => id
      exact hclosed.deleteEntry.connectWebSocket (hinv'.closeWebSocketSilently k).deleteEntry
        hbody transport true

theorem store {k : Nat} (hdate : (s.connections k).UpToDate) :
    Continuing { s with websocketSessionCache := some k } where
  cached j h := by
    cases h
    exact hdate
  bodies := hs.bodies
  sent := hs.sent

theorem connected (r k : Nat) (stores : Bool) : Continuing (s.connected r k stores) := by
  have hopen : Continuing (s.setConnection k fun c => { c with readyState := .open }) :=
    hs.setConnection k fun _ => id
  rw [Sessions.connected]
  cases stores with
  | false => exact hopen.send r .own fun h => absurd rfl h
  | true =>
    have hnew : Continuing ((s.setConnection k fun c => { c with readyState := .open }).setConnection k
        fun c => { c with busy := true, continuation := none }) :=
      hopen.setConnection k fun _ _ c hc => by cases hc
    have hdate : (((s.setConnection k fun c => { c with readyState := .open }).setConnection k
        fun c => { c with busy := true, continuation := none }).connections k).UpToDate := by
      intro c hc
      simp at hc
    exact (hnew.store hdate).send r .stored fun _ => hdate

theorem settled_release (hinv : Inv s) (reports : Bool) {r k : Nat}
    (h : (s.requests r).phase = .active k variant) {f : Connection → Connection}
    (hstate : ∀ c, (f c).readyState = c.readyState) {keep : Bool}
    (hf : variant ≠ .own → keep = true → s.isWebSocketReusable reports k = true → (s.connections k).UpToDate → (f (s.connections k)).UpToDate)
    : Continuing (((s.settle r).setConnection k f).release reports k keep variant) where
  cached j hj := by
    obtain ⟨hcached, hkept⟩ := Sessions.release_cached hj
    have hbefore : s.websocketSessionCache = some j := hcached
    rw [Sessions.release_upToDate, Sessions.setConnection_connections]
    split_ifs with hjk
    · have hown : variant ≠ .own := by
        rintro rfl
        rw [hjk] at hbefore
        exact hinv.held r k (by rw [h]; rfl) hbefore
      obtain ⟨hkeep, hreusable⟩ := hkept hown hjk
      have hreusable' : s.isWebSocketReusable reports k = true := by
        simpa [Sessions.isWebSocketReusable, Sessions.settle, hstate] using hreusable
      rw [hjk] at hbefore
      exact hf hown hkeep hreusable' (hs.cached k hbefore)
    · exact hs.cached j hbefore
  bodies r' := by
    rw [Sessions.release_requests]
    exact (hs.settle r).bodies r'
  sent r' := by
    rw [Sessions.release_requests]
    exact (hs.settle r).sent r'

end

theorem nextContinuation_upToDate {request : Request} {responseId : Option JsString}
    (hown : variant ≠ .own) {connection : Connection}
    (h : connection.continuation = none ∨ (useCachedContext request.transport = true ∧ nonEmpty responseId ≠ none))
    (responseItems : List Json) : Connection.UpToDate { connection with
      lastCompleted := some ⟨request.body, responseId, responseItems⟩
      continuation :=
        Sessions.nextContinuation request variant responseId responseItems connection.continuation } := by
  intro c hc
  have hvariant : (variant != .own) = true := by simpa using hown
  cases hid : nonEmpty responseId with
  | none =>
    simp only [Sessions.nextContinuation, hid] at hc
    rcases h with hnone | ⟨-, hsome⟩
    · rw [hnone] at hc
      cases hc
    · exact absurd hid hsome
  | some id =>
    have hresponse : responseId = some id := eq_some_of_nonEmpty hid
    simp only [Sessions.nextContinuation, hid] at hc
    by_cases huse : useCachedContext request.transport = true
    · rw [if_pos (by rw [huse, hvariant]; rfl)] at hc
      cases hc
      simp [CachedWebSocketContinuationState.completed, hresponse]
    · rw [if_neg (by simp [huse])] at hc
      rcases h with hnone | ⟨hcontext, -⟩
      · rw [hnone] at hc
        cases hc
      · exact absurd hcontext huse

theorem step (hs : Continuing s) (hinv : Inv s) {reports : Bool} {i : Input} {t : Sessions}
    (hi : Continues reports s i) (h : Codex.step reports s i = some t) : Continuing t := by
  have hcases := step_cases h
  cases i with
  | acquire body transport =>
    rw [hcases]
    exact hs.acquireWebSocket hinv reports hi transport
  | connected r =>
    obtain ⟨k, stores, hphase, rfl⟩ := hcases
    exact hs.connected r k stores
  | connectFailed r =>
    obtain ⟨k, stores, hphase, rfl⟩ := hcases
    have hclosed : Continuing ((s.settle r).closeWebSocketSilently k) :=
      (hs.settle r).setConnection k fun _ => id
    exact hclosed
  | complete r aborted responseId responseItems =>
    obtain ⟨k, variant, hphase, rfl⟩ := hcases
    rw [Sessions.complete]
    refine hs.settled_release hinv reports hphase ?_ fun hown hkeep hreusable hdate => ?_
    · intro c
      rfl
    · have haborted : aborted = false := by simpa using hkeep
      have hset : (s.connections k).continuation = none ∨
          (useCachedContext (s.requests r).transport = true ∧ nonEmpty responseId ≠ none) := by
        rcases hi k variant hphase with hown' | habort | hnot | hset
        · exact absurd hown' hown
        · rw [haborted] at habort
          cases habort
        · rw [hreusable] at hnot
          cases hnot
        · exact hset
      rw [haborted]
      exact nextContinuation_upToDate hown hset responseItems
  | fail r =>
    obtain ⟨k, variant, hphase, rfl⟩ := hcases
    rw [Sessions.fail]
    refine hs.settled_release hinv reports hphase ?_ fun _ hkeep => ?_
    · intro c
      rfl
    · cases hkeep
  | remoteClose k =>
    obtain ⟨-, rfl⟩ := hcases
    exact hs.setConnection k fun _ => id
  | expire k =>
    obtain ⟨-, rfl⟩ := hcases
    have hfired : Continuing (s.setConnection k fun c => { c with idleTimer := false }) :=
      hs.setConnection k fun _ => id
    rw [Sessions.expire]
    split_ifs with hbusy
    · exact hfired
    · have hclosed : Continuing ((s.setConnection k fun c =>
          { c with idleTimer := false }).closeWebSocketSilently k) :=
        hfired.setConnection k fun _ => id
      exact hclosed.deleteEntry
  | close =>
    rw [hcases, Sessions.closeOpenAICodexWebSocketSessions]
    cases s.websocketSessionCache with
    | none => exact hs
    | some k =>
      have hclosed : Continuing (s.setConnection k fun c =>
          { c with idleTimer := false, readyState := .closed }) := hs.setConnection k fun _ => id
      exact hclosed.deleteEntry

end Continuing

/-- In a run whose responses set the continuation where there is one, every request that goes
on from a response goes on from the last one completed on its connection. -/
theorem requests_continue_last {reports : Bool} {is : List Input} {s : Sessions}
    (hcontinues : Along (step reports) (Continues reports) {} is)
    (hrun : run (step reports) {} is = some s) (r : Nat) : ContinuesLast (s.requests r) := by
  have hinitial : Inv {} ∧ Continuing {} := ⟨.initial, .initial⟩
  have hstep : ∀ s i t, Inv s ∧ Continuing s → Continues reports s i →
      step reports s i = some t → Inv t ∧ Continuing t :=
    fun _ _ _ h hi ht => ⟨h.1.step ht, h.2.step h.1 hi ht⟩
  exact (run_invariant hstep hinitial hcontinues hrun).2.sent r

def items (ns : List Nat) : List Json := ns.map fun n => ⟨.num (Decimal.ofInt n), rfl⟩

/-- Three requests of a growing conversation, the second with a given transport. -/
def conversation (transport : Transport) : List Input :=
  [.acquire { input := some (items [1]) } (some .auto), .connected 0,
    .complete 0 false (some (js "r1")) (items [2]),
    .acquire { input := some (items [1, 2, 3]) } (some transport),
    .complete 1 false (some (js "r2")) (items [4]),
    .acquire { input := some (items [1, 2, 3, 4, 5]) } (some .auto)]

/-- What the third request sends, and the id of the last response completed before. -/
def thirdRequest (s : Sessions) : Option (RequestBody × Option JsString) :=
  (s.requests 2).sent.map fun sent => (sent, (s.requests 2).sentAfter.bind Completed.responseId)

/-- The third request sends its own item and the id of the second response. -/
theorem requests_continue_last_auto : ∃ s, run (step true) {} (conversation .auto) = some s ∧
      thirdRequest s =
        some ({ input := some (items [5]), previousResponseId := some (js "r2") }, some (js "r2")) ∧
      ContinuesLast (s.requests 2) := by
  have hthird : (run (step true) {} (conversation .auto)).bind thirdRequest =
      some ({ input := some (items [5]), previousResponseId := some (js "r2") },
        some (js "r2")) := by
    decide
  obtain ⟨s, hrun, hs⟩ := Option.bind_eq_some_iff.mp hthird
  refine ⟨s, hrun, hs, requests_continue_last ?_ hrun 2⟩
  refine .cons rfl rfl (.cons rfl trivial (.cons rfl ?_ (.cons rfl rfl (.cons rfl ?_
    (.cons rfl rfl trivial)))))
  · rintro k variant ⟨⟩
    exact Or.inr (Or.inr (Or.inr (Or.inl rfl)))
  · rintro k variant ⟨⟩
    exact Or.inr (Or.inr (Or.inr (Or.inr ⟨rfl, by decide⟩)))

/-- After a request that does not use the cached context, the next one goes on from the response
before it. -/
theorem requests_not_continue_last :
    ¬ ∀ is s, run (step true) {} is = some s → ∀ r, ContinuesLast (s.requests r) := by
  intro h
  have hthird : (run (step true) {} (conversation .websocket)).bind thirdRequest =
      some ({ input := some (items [3, 4, 5]), previousResponseId := some (js "r1") },
        some (js "r2")) := by
    decide
  obtain ⟨s, hrun, hs⟩ := Option.bind_eq_some_iff.mp hthird
  obtain ⟨sent, hsent, hpair⟩ := Option.map_eq_some_iff.mp hs
  obtain ⟨rfl, hafter⟩ := Prod.mk.inj hpair
  obtain ⟨c, hc, hid, -⟩ := h _ s hrun 2 _ (js "r1") hsent rfl
  rw [hc] at hafter
  have hids : some (js "r2") = some (js "r1") := hafter.symm.trans hid
  exact absurd hids (by decide)

end Codex

end AcademicAgent
