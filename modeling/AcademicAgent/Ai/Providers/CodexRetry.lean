import AcademicAgent.Core.Pattern

/-!
# Retries of Codex requests

A request is sent again after a network failure and after an error that passes.
-/

namespace AcademicAgent.Codex

variable {attempt : Nat} {lastError : Option JsString} {message : JsString}

def MAX_RETRIES : Nat := 3

open Pattern in
/-- The alternatives of the expression of `isRetryableError`. -/
def retryablePatterns : List Pattern :=
  [⟨literal "rate" ++ optionalUnit ++ literal "limit", false⟩, .ofText "overloaded",
    ⟨literal "service" ++ optionalUnit ++ literal "unavailable", false⟩,
    ⟨literal "upstream" ++ optionalUnit ++ literal "connect", false⟩,
    ⟨literal "connection" ++ optionalUnit ++ literal "refused", false⟩]

def isRetryableError (status : Nat) (errorText : JsString) : Bool :=
  status ∈ [429, 500, 502, 503, 504] || retryablePatterns.any fun p => p.test errorText

/-- The `error` of the body of a response, as its type has it. -/
structure CodexError where
  code : Option JsString := none
  type : Option JsString := none
  message : Option JsString := none
  planType : Option JsString := none
  resetsAt : Option Int := none

/-- What the texts of errors depend on: `JSON.parse(raw)?.error`, when there is one, the lower
case of a text, the time in milliseconds, and the error of `new Response` for a status that takes
no text. -/
structure ErrorSettings where
  errorOf : JsString → Option CodexError
  toLowerCase : JsString → JsString
  now : Int
  responseError : Nat → Option JsString

/-- The alternatives of the codes that tell of a limit. -/
def limitPatterns : List Pattern :=
  [.ofText "usage_limit_reached", .ofText "usage_not_included", .ofText "rate_limit_exceeded"]

section Requests

variable (settings : ErrorSettings)

/-- The minutes until the limit is reset, rounded. -/
def minutesLeft (resetsAt : Int) : Nat :=
  ((2 * (resetsAt * 1000 - settings.now) + 60000) / 120000).toNat

section

variable (status : Nat)

/-- The friendly message of `parseErrorResponse`. -/
def friendlyMessage (err : CodexError) : Option JsString :=
  let code := ((nonEmpty err.code).or (nonEmpty err.type)).getD []
  if limitPatterns.any (fun p => p.test code) ∨ status = 429 then
    let plan :=
      match nonEmpty err.planType with
      | some planType => js " (" ++ settings.toLowerCase planType ++ js " plan)"
      | none => []
    let when_ :=
      match err.resetsAt.filter (· ≠ 0) with
      | some resetsAt =>
        js " Try again in ~" ++ decimalText (minutesLeft settings resetsAt) ++ js " min."
      | none => []
    some (trim (js "You have hit your ChatGPT usage limit" ++ plan ++ js "." ++ when_))
  else none

/-- `info.friendlyMessage || info.message`, of `parseErrorResponse`. -/
def errorMessage (statusText raw : JsString) : JsString :=
  let message := ((nonEmpty (some raw)).or (nonEmpty (some statusText))).getD (js "Request failed")
  match settings.errorOf raw with
  | some err =>
    let friendly := friendlyMessage settings status err
    (nonEmpty friendly).getD ((nonEmpty err.message).getD message)
  | none => message

/-- The text of the error that is thrown for a response. -/
def thrownMessage (statusText raw : JsString) : JsString :=
  (settings.responseError status).getD (errorMessage settings status statusText raw)

end

/-- What becomes of a request: the signal aborts it, it fails, or there is a response. -/
inductive CodexOutcome where
  | aborted
  | failure (message : JsString)
  | response (status : Nat) (statusText errorText : JsString)

/-- What becomes of each request, and whether the signal is aborted when it is to be sent. -/
structure CodexWorld where
  outcome : Nat → CodexOutcome
  aborted : Nat → Bool

/-- `response.ok`. -/
def isOk (status : Nat) : Bool := 200 ≤ status && status ≤ 299

/-- How the requests end: with a response, aborted, or with an error. -/
inductive CodexEnding where
  | response (status : Nat)
  | aborted
  | error (message : JsString)
  deriving DecidableEq

/-- What the body of the loop does: it ends the requests, or goes on with the last error. -/
inductive CodexStep where
  | stop (ending : CodexEnding)
  | resend (lastError : Option JsString)

variable (world : CodexWorld)

section

variable (attempt : Nat)

/-- `sleep`, before the next request. -/
def sleepThenResend (lastError : Option JsString) : CodexStep :=
  if world.aborted (attempt + 1) then .stop .aborted else .resend lastError

/-- The `catch` branch, for an error that the signal has not raised. -/
def catchError (message : JsString) : CodexStep :=
  if message = js "Request was aborted" then .stop (.error message)
  else if attempt < MAX_RETRIES ∧ ¬ js "usage limit" <:+: message then
    sleepThenResend world attempt (some message)
  else .stop (.error message)

def requestStep (lastError : Option JsString) : CodexStep :=
  match world.outcome attempt with
  | .aborted => .stop .aborted
  | .failure message => catchError world attempt message
  | .response status statusText errorText =>
    if isOk status then .stop (.response status)
    else if attempt < MAX_RETRIES ∧ isRetryableError status errorText then
      sleepThenResend world attempt lastError
    else catchError world attempt (thrownMessage settings status statusText errorText)

end

structure CodexRun where
  sent : Nat
  ending : CodexEnding

def fetchLoop : Nat → Nat → Option JsString → CodexRun
  | 0, attempt, lastError => ⟨attempt, .error (lastError.getD (js "Failed after retries"))⟩
  | left + 1, attempt, lastError =>
    if world.aborted attempt then ⟨attempt, .aborted⟩
    else
      match requestStep settings world attempt lastError with
      | .stop ending => ⟨attempt + 1, ending⟩
      | .resend lastError => fetchLoop left (attempt + 1) lastError

/-- The requests of `streamOpenAICodexResponses`. -/
def fetchWithRetry : CodexRun := fetchLoop settings world (MAX_RETRIES + 1) 0 none

end Requests

def CodexOutcome.Retryable : CodexOutcome → Prop
  | .aborted => False
  | .failure _ => True
  | .response status _ errorText => ¬ isOk status ∧ isRetryableError status errorText

section Classification

variable (settings : ErrorSettings) (world : CodexWorld)

/-- The request is sent again exactly after an outcome that is worth it, while there are retries
left, unless the wait is aborted, which ends the requests as aborted. An error that does not pass
ends them at once with its message. -/
structure FollowsOutcome (run : CodexRun) (attempt : Nat) : Prop where
  resent : attempt + 1 < run.sent ↔ (world.outcome attempt).Retryable ∧ attempt < MAX_RETRIES ∧
    world.aborted (attempt + 1) = false
  aborted : (world.outcome attempt).Retryable → attempt < MAX_RETRIES →
    world.aborted (attempt + 1) → run.sent = attempt + 1 ∧ run.ending = .aborted
  refused : ∀ status statusText errorText,
    world.outcome attempt = .response status statusText errorText → ¬ isOk status →
      ¬ isRetryableError status errorText →
        run.sent = attempt + 1 ∧
          run.ending = .error (errorMessage settings status statusText errorText)

/-- The text of an error that is not taken for a network failure. -/
def EndsRequests (message : JsString) : Prop :=
  message = js "Request was aborted" ∨ js "usage limit" <:+: message

/-- The `catch` branch and the outcome agree: before the last attempt, the text of a failure does
not end the requests, and that of an error that does not pass does; and that text is what is
thrown. -/
def CaughtRight (attempt : Nat) : CodexOutcome → Prop
  | .aborted => True
  | .failure message => attempt < MAX_RETRIES → ¬ EndsRequests message
  | .response status statusText errorText =>
    isOk status ∨ isRetryableError status errorText ∨
      thrownMessage settings status statusText errorText =
        errorMessage settings status statusText errorText ∧
      (attempt < MAX_RETRIES → EndsRequests (errorMessage settings status statusText errorText))

def CodexRun.After (run : CodexRun) (attempt : Nat) : CodexStep → Prop
  | .stop ending => run = ⟨attempt + 1, ending⟩
  | .resend _ => attempt + 1 < run.sent

variable {settings world}

section

variable {next : Option JsString}

theorem sleepThenResend_resend (h : sleepThenResend world attempt lastError = .resend next) :
    world.aborted (attempt + 1) = false := by
  unfold sleepThenResend at h
  split_ifs at h with haborted
  exact eq_false_of_ne_true haborted

theorem catchError_resend (h : catchError world attempt message = .resend next) :
    attempt < MAX_RETRIES ∧ world.aborted (attempt + 1) = false := by
  unfold catchError at h
  split_ifs at h with hmessage hretry
  exact ⟨hretry.1, sleepThenResend_resend h⟩

theorem requestStep_resend (h : requestStep settings world attempt lastError = .resend next) :
    attempt < MAX_RETRIES ∧ world.aborted (attempt + 1) = false := by
  unfold requestStep at h
  split at h
  · cases h
  · exact catchError_resend h
  · split_ifs at h with hok hretry
    · exact ⟨hretry.1, sleepThenResend_resend h⟩
    · exact catchError_resend h

end

theorem le_sent (left attempt : Nat) (lastError : Option JsString) :
    attempt ≤ (fetchLoop settings world left attempt lastError).sent := by
  induction left generalizing attempt lastError with
  | zero => exact Nat.le_refl _
  | succ left ih =>
    rw [fetchLoop]
    split_ifs
    · exact Nat.le_refl _
    · split
      · exact Nat.le_succ _
      · exact (Nat.le_succ _).trans (ih _ _)

theorem lt_sent {left : Nat} (hleft : 0 < left) (h : world.aborted attempt = false)
    (lastError : Option JsString) :
    attempt < (fetchLoop settings world left attempt lastError).sent := by
  obtain ⟨left, rfl⟩ := Nat.exists_eq_succ_of_ne_zero hleft.ne'
  rw [fetchLoop, h, if_neg Bool.false_ne_true]
  split
  · exact Nat.lt_succ_self _
  · exact le_sent _ _ _

theorem fetchLoop_after {left : Nat} (hleft : left + attempt = MAX_RETRIES + 1) {i : Nat}
    (hattempt : attempt ≤ i) (hsent : i < (fetchLoop settings world left attempt lastError).sent) :
    ∃ error, (fetchLoop settings world left attempt lastError).After i
      (requestStep settings world i error) := by
  induction left generalizing attempt lastError with
  | zero => exact absurd hsent (Nat.not_lt.mpr hattempt)
  | succ left ih =>
    rw [fetchLoop] at hsent ⊢
    split_ifs at hsent ⊢ with haborted
    · exact absurd hsent (Nat.not_lt.mpr hattempt)
    · cases hstep : requestStep settings world attempt lastError with
      | stop ending =>
        rw [hstep] at hsent
        obtain rfl : attempt = i := Nat.le_antisymm hattempt (Nat.le_of_lt_succ hsent)
        exact ⟨lastError, by rw [hstep]; rfl⟩
      | resend next =>
        rw [hstep] at hsent
        obtain ⟨hretry, hawake⟩ := requestStep_resend hstep
        rcases Nat.eq_or_lt_of_le hattempt with rfl | hlater
        · exact ⟨lastError, by rw [hstep]; exact lt_sent (by omega) hawake next⟩
        · exact ih (by omega) hlater hsent

theorem fetchWithRetry_after {i : Nat} (hsent : i < (fetchWithRetry settings world).sent) :
    ∃ error, (fetchWithRetry settings world).After i (requestStep settings world i error) :=
  fetchLoop_after (Nat.add_zero _) (Nat.zero_le i) hsent

theorem catchError_of_ends (h : EndsRequests message ∨ ¬ attempt < MAX_RETRIES) :
    catchError world attempt message = .stop (.error message) := by
  unfold catchError
  split_ifs with hmessage hretry
  · rfl
  · exact absurd hretry (by
      rintro ⟨hlt, hlimit⟩
      exact h.elim (fun hends => hends.elim hmessage hlimit) fun hlast => hlast hlt)
  · rfl

theorem catchError_of_not_ends (h : ¬ EndsRequests message) (hattempt : attempt < MAX_RETRIES) :
    catchError world attempt message = sleepThenResend world attempt (some message) := by
  obtain ⟨hmessage, hlimit⟩ := not_or.mp h
  rw [catchError, if_neg hmessage, if_pos ⟨hattempt, hlimit⟩]

section

variable {run : CodexRun} {attempt : Nat} {lastError : Option JsString}

theorem after_sleepThenResend (h : run.After attempt (sleepThenResend world attempt lastError)) :
    world.aborted (attempt + 1) ∧ run = ⟨attempt + 1, .aborted⟩ ∨
      world.aborted (attempt + 1) = false ∧ attempt + 1 < run.sent := by
  unfold sleepThenResend at h
  split_ifs at h with haborted
  · exact .inl ⟨haborted, h⟩
  · exact .inr ⟨eq_false_of_ne_true haborted, h⟩

theorem followsOutcome_of_sleep
    (hretryable : (world.outcome attempt).Retryable) (hattempt : attempt < MAX_RETRIES)
    (h : run.After attempt (sleepThenResend world attempt lastError)) :
    FollowsOutcome settings world run attempt := by
  have hrefused : ∀ status statusText errorText,
      world.outcome attempt = .response status statusText errorText →
        isRetryableError status errorText := fun _ _ _ houtcome => by
    rw [houtcome] at hretryable
    exact hretryable.2
  rcases after_sleepThenResend h with ⟨haborted, rfl⟩ | ⟨hawake, hsent⟩
  · refine ⟨iff_of_false (lt_irrefl _) fun hagain => ?_, fun _ _ _ => ⟨rfl, rfl⟩, ?_⟩
    · rw [haborted] at hagain
      cases hagain.2.2
    · exact fun _ _ _ houtcome _ hnot => absurd (hrefused _ _ _ houtcome) hnot
  · refine ⟨iff_of_true hsent ⟨hretryable, hattempt, hawake⟩, fun _ _ haborted => ?_, ?_⟩
    · rw [hawake] at haborted
      cases haborted
    · exact fun _ _ _ houtcome _ hnot => absurd (hrefused _ _ _ houtcome) hnot

end

theorem followsOutcome_of_stop {ending : CodexEnding}
    (h : ¬ (world.outcome attempt).Retryable ∨ ¬ attempt < MAX_RETRIES) :
    FollowsOutcome settings world ⟨attempt + 1, ending⟩ attempt ↔ ∀ status statusText errorText,
        world.outcome attempt = .response status statusText errorText → ¬ isOk status →
          ¬ isRetryableError status errorText →
            ending = .error (errorMessage settings status statusText errorText) := by
  constructor
  · exact fun hfollows status statusText errorText houtcome hok hretry =>
      (hfollows.refused status statusText errorText houtcome hok hretry).2
  · intro hmessage
    refine ⟨iff_of_false (lt_irrefl _) fun hagain => ?_, fun hretryable hattempt => ?_, ?_⟩
    · exact h.elim (fun hnot => hnot hagain.1) fun hlast => hlast hagain.2.1
    · exact absurd hattempt (h.resolve_left (not_not.mpr hretryable))
    · exact fun status statusText errorText houtcome hok hretry =>
        ⟨rfl, hmessage status statusText errorText houtcome hok hretry⟩

theorem not_followsOutcome_of_error (hretryable : (world.outcome attempt).Retryable)
    (hattempt : attempt < MAX_RETRIES) :
    ¬ FollowsOutcome settings world ⟨attempt + 1, .error message⟩ attempt := by
  intro hfollows
  cases haborted : world.aborted (attempt + 1) with
  | true => cases (hfollows.aborted hretryable hattempt haborted).2
  | false => exact lt_irrefl _ (hfollows.resent.mpr ⟨hretryable, hattempt, haborted⟩)

theorem refused_iff_caughtRight {run : CodexRun} {status : Nat} {statusText errorText : JsString}
    (houtcome : world.outcome attempt = .response status statusText errorText) (hok : ¬ isOk status)
    (hnot : ¬ isRetryableError status errorText)
    (h : run.After attempt (catchError world attempt (thrownMessage settings status statusText errorText)))
    : FollowsOutcome settings world run attempt ↔
      CaughtRight settings attempt (.response status statusText errorText) := by
  have hretryable : ¬ (world.outcome attempt).Retryable := by
    rw [houtcome]
    exact fun hretryable => hnot hretryable.2
  have hright : CaughtRight settings attempt (.response status statusText errorText) ↔
      thrownMessage settings status statusText errorText =
        errorMessage settings status statusText errorText ∧
      (attempt < MAX_RETRIES →
        EndsRequests (errorMessage settings status statusText errorText)) := by
    rw [CaughtRight, or_iff_right hok, or_iff_right hnot]
  rw [hright]
  by_cases hends : EndsRequests (thrownMessage settings status statusText errorText) ∨
      ¬ attempt < MAX_RETRIES
  · rw [catchError_of_ends hends] at h
    obtain rfl : run = ⟨attempt + 1, .error _⟩ := h
    rw [followsOutcome_of_stop (.inl hretryable)]
    constructor
    · intro hmessage
      have heq := CodexEnding.error.inj (hmessage status statusText errorText houtcome hok hnot)
      refine ⟨heq, fun hattempt => ?_⟩
      rw [← heq]
      exact hends.resolve_right (not_not.mpr hattempt)
    · rintro ⟨heq, -⟩ _ _ _ hresponse - -
      rw [houtcome] at hresponse
      cases hresponse
      rw [heq]
  · obtain ⟨hnotEnds, hattempt⟩ := not_or.mp hends
    rw [not_not] at hattempt
    rw [catchError_of_not_ends hnotEnds hattempt] at h
    refine iff_of_false (fun hfollows => ?_) fun hcaught => ?_
    · obtain ⟨hsent, hending⟩ := hfollows.refused status statusText errorText houtcome hok hnot
      rcases after_sleepThenResend h with ⟨-, rfl⟩ | ⟨-, hagain⟩
      · cases hending
      · omega
    · exact hnotEnds (hcaught.1 ▸ hcaught.2 hattempt)

theorem followsOutcome_iff_caughtRight {run : CodexRun}
    (h : run.After attempt (requestStep settings world attempt lastError)) :
    FollowsOutcome settings world run attempt ↔
      CaughtRight settings attempt (world.outcome attempt) := by
  cases houtcome : world.outcome attempt with
  | aborted =>
    rw [requestStep, houtcome] at h
    obtain rfl : run = ⟨attempt + 1, .aborted⟩ := h
    refine iff_of_true ((followsOutcome_of_stop ?_).mpr fun _ _ _ hresponse => ?_) trivial
    · rw [houtcome]
      exact .inl id
    · rw [houtcome] at hresponse
      cases hresponse
  | failure message =>
    have hretryable : (world.outcome attempt).Retryable := by rw [houtcome]; trivial
    rw [requestStep, houtcome] at h
    dsimp only at h
    by_cases hattempt : attempt < MAX_RETRIES
    · by_cases hends : EndsRequests message
      · rw [catchError_of_ends (.inl hends)] at h
        obtain rfl : run = ⟨attempt + 1, .error message⟩ := h
        exact iff_of_false (not_followsOutcome_of_error hretryable hattempt)
          fun hright => hright hattempt hends
      · rw [catchError_of_not_ends hends hattempt] at h
        exact iff_of_true (followsOutcome_of_sleep hretryable hattempt h) fun _ => hends
    · rw [catchError_of_ends (.inr hattempt)] at h
      obtain rfl : run = ⟨attempt + 1, .error message⟩ := h
      refine iff_of_true ((followsOutcome_of_stop (.inr hattempt)).mpr fun _ _ _ hresponse => ?_)
        fun hlt => absurd hlt hattempt
      rw [houtcome] at hresponse
      cases hresponse
  | response status statusText errorText =>
    rw [requestStep, houtcome] at h
    dsimp only at h
    have hsame : ∀ status' statusText' errorText',
        world.outcome attempt = .response status' statusText' errorText' →
          status' = status ∧ statusText' = statusText ∧ errorText' = errorText := by
      intro _ _ _ hresponse
      rw [houtcome] at hresponse
      cases hresponse
      exact ⟨rfl, rfl, rfl⟩
    split_ifs at h with hok hretry
    · obtain rfl : run = ⟨attempt + 1, .response status⟩ := h
      refine iff_of_true ((followsOutcome_of_stop ?_).mpr fun _ _ _ hresponse hnot => ?_) (.inl hok)
      · rw [houtcome]
        exact .inl fun hretryable => hretryable.1 hok
      · obtain ⟨rfl, -, -⟩ := hsame _ _ _ hresponse
        exact absurd hok hnot
    · have hretryable : (world.outcome attempt).Retryable := by
        rw [houtcome]
        exact ⟨hok, hretry.2⟩
      exact iff_of_true (followsOutcome_of_sleep hretryable hretry.1 h) (.inr (.inl hretry.2))
    · by_cases hpasses : isRetryableError status errorText
      · have hlast : ¬ attempt < MAX_RETRIES := fun hlt => hretry ⟨hlt, hpasses⟩
        rw [catchError_of_ends (.inr hlast)] at h
        obtain rfl : run = ⟨attempt + 1, .error _⟩ := h
        refine iff_of_true ((followsOutcome_of_stop (.inr hlast)).mpr ?_) (.inr (.inl hpasses))
        intro _ _ _ hresponse _ hnot
        obtain ⟨rfl, -, rfl⟩ := hsame _ _ _ hresponse
        exact absurd hpasses hnot
      · exact refused_iff_caughtRight houtcome hok hpasses h

/-- All outcomes before an attempt are worth another one. -/
def Reached (world : CodexWorld) (attempt : Nat) : Prop :=
  world.aborted 0 = false ∧ ∀ earlier < attempt, (world.outcome earlier).Retryable ∧
    earlier < MAX_RETRIES ∧ world.aborted (earlier + 1) = false

theorem Reached.of_succ (h : Reached world (attempt + 1)) : Reached world attempt :=
  ⟨h.1, fun earlier hearlier => h.2 earlier (Nat.lt_succ_of_lt hearlier)⟩

theorem followsOutcome_sent_iff (hsent : attempt < (fetchWithRetry settings world).sent) :
    FollowsOutcome settings world (fetchWithRetry settings world) attempt ↔
      CaughtRight settings attempt (world.outcome attempt) := by
  obtain ⟨lastError, hafter⟩ := fetchWithRetry_after hsent
  exact followsOutcome_iff_caughtRight hafter

theorem lt_sent_of_reached (h : Reached world attempt)
    (hright : ∀ earlier < attempt, earlier < (fetchWithRetry settings world).sent → FollowsOutcome settings world (fetchWithRetry settings world) earlier)
    : attempt < (fetchWithRetry settings world).sent := by
  induction attempt with
  | zero => exact lt_sent (Nat.succ_pos _) h.1 none
  | succ attempt ih =>
    have hsent := ih h.of_succ fun earlier hlt => hright earlier (Nat.lt_succ_of_lt hlt)
    have hlt := Nat.lt_succ_self attempt
    exact (hright attempt hlt hsent).resent.mpr (h.2 attempt hlt)

theorem reached_of_lt_sent (hsent : attempt < (fetchWithRetry settings world).sent)
    (hright : ∀ earlier < attempt, Reached world earlier → FollowsOutcome settings world (fetchWithRetry settings world) earlier)
    : Reached world attempt := by
  induction attempt with
  | zero =>
    refine ⟨?_, fun _ hlt => absurd hlt (Nat.not_lt_zero _)⟩
    by_contra haborted
    rw [fetchWithRetry, fetchLoop, if_pos (Bool.eq_true_of_not_eq_false haborted)] at hsent
    exact lt_irrefl _ hsent
  | succ attempt ih =>
    have hlt := Nat.lt_succ_self attempt
    have hreached := ih (hlt.trans hsent) fun earlier hearlier =>
      hright earlier (Nat.lt_succ_of_lt hearlier)
    refine ⟨hreached.1, fun earlier hearlier => ?_⟩
    rcases Nat.lt_succ_iff_lt_or_eq.mp hearlier with hearlier | rfl
    · exact hreached.2 earlier hearlier
    · exact (hright earlier hlt hreached).resent.mp hsent

variable (settings world)

/-- Every outcome is followed by what should follow it exactly when the `catch` branch agrees with
each outcome that is reached. -/
theorem fetchWithRetry_follows_iff : (∀ attempt < (fetchWithRetry settings world).sent,
      FollowsOutcome settings world (fetchWithRetry settings world) attempt) ↔
      ∀ attempt, Reached world attempt → CaughtRight settings attempt (world.outcome attempt) := by
  constructor
  · intro hfollows attempt hreached
    have hsent : attempt < (fetchWithRetry settings world).sent :=
      lt_sent_of_reached hreached fun earlier _ => hfollows earlier
    exact (followsOutcome_sent_iff hsent).mp (hfollows attempt hsent)
  · intro hright attempt
    induction attempt using Nat.strong_induction_on with
    | _ attempt ih =>
      intro hsent
      have hreached := reached_of_lt_sent hsent fun earlier hlt _ =>
        ih earlier hlt (hlt.trans hsent)
      exact (followsOutcome_sent_iff hsent).mpr (hright attempt hreached)

end Classification

def plainSettings : ErrorSettings where
  errorOf _ := none
  toLowerCase text := text
  now := 0
  responseError _ := none

def badRequests : CodexWorld where
  outcome _ := .response 400 (js "Bad Request") (js "bad")
  aborted _ := false

/-- A bad request is sent four times. -/
theorem bad_request_is_sent_again : (fetchWithRetry plainSettings badRequests).sent = 4 ∧
      ¬ ∀ attempt < (fetchWithRetry plainSettings badRequests).sent,
        FollowsOutcome plainSettings badRequests (fetchWithRetry plainSettings badRequests)
          attempt := by
  have hsent : (fetchWithRetry plainSettings badRequests).sent = 4 := by decide
  refine ⟨hsent, fun h => ?_⟩
  have hfirst := (h 0 (by rw [hsent]; decide)).refused 400 (js "Bad Request") (js "bad") rfl
    (by decide) (by decide)
  rw [hsent] at hfirst
  cases hfirst.1

end AcademicAgent.Codex
