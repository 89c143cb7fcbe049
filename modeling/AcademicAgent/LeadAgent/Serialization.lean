import AcademicAgent.Core.Json.Text
import AcademicAgent.Core.JsMap

/-!
# Serialized contracts

A contract is printed as JSON text, and read back by the guard of its type.
-/

namespace AcademicAgent.LeadAgent.Serialization

open Json List
open Option (map_some some_inj)

/-- A value without parts: `nonFinite` is `NaN` or an infinity, `function` is a function or a
symbol, and a date prints as its text, or as `null` when it is invalid. -/
inductive Atom where
  | undefined
  | null
  | bool (b : Bool)
  | num (n : Decimal)
  | nonFinite
  | bigint (n : Int)
  | str (s : JsString)
  | function
  | date (text : Option JsString)
  deriving DecidableEq

inductive Value where
  | atom (a : Atom)
  | arr (xs : List Value)
  | obj (ms : List (JsString × Value))

/-- What `JSON.stringify` prints for an atom, if anything. -/
def Atom.toTree : Atom → Option Tree
  | undefined | function | bigint _ => none
  | null | nonFinite | date none => some .null
  | bool b => some (.bool b)
  | num n => some (.num n)
  | str s | date (some s) => some (.str s)

/-- The atoms that `isJsonValue` accepts. A date is a record without members of its own. -/
def Atom.isJson : Atom → Bool
  | undefined | function | bigint _ => false
  | _ => true

def Atom.isBigInt : Atom → Bool
  | bigint _ => true
  | _ => false

/-- The atoms that JSON has: no date, and no number that is not finite. -/
def Atom.isPlain : Atom → Bool
  | null | bool _ | num _ | str _ => true
  | _ => false

namespace Value

def isUndefined : Value → Bool
  | atom .undefined => true
  | _ => false

mutual

def allAtoms (p : Atom → Bool) : Value → Bool
  | atom a => p a
  | arr xs => allElements p xs
  | obj ms => allMembers p ms

def allElements (p : Atom → Bool) : List Value → Bool
  | [] => true
  | x :: xs => x.allAtoms p && allElements p xs

def allMembers (p : Atom → Bool) : List (JsString × Value) → Bool
  | [] => true
  | (_, x) :: ms => x.allAtoms p && allMembers p ms

end

mutual

/-- A value without the members that are undefined. -/
def present : Value → Value
  | atom a => atom a
  | arr xs => arr (presentElements xs)
  | obj ms => obj (presentMembers ms)

def presentElements : List Value → List Value
  | [] => []
  | x :: xs => x.present :: presentElements xs

def presentMembers : List (JsString × Value) → List (JsString × Value)
  | [] => []
  | (k, x) :: ms =>
    if x.isUndefined then presentMembers ms else (k, x.present) :: presentMembers ms

end

mutual

/-- What `JSON.stringify` prints: an element that it cannot print is `null`, such a member is
left out. -/
def toTree : Value → Option Tree
  | atom a => a.toTree
  | arr xs => some (.arr (toElements xs))
  | obj ms => some (.obj (toMembers ms))

def toElements : List Value → List Tree
  | [] => []
  | x :: xs => x.toTree.getD .null :: toElements xs

def toMembers : List (JsString × Value) → List (JsString × Tree)
  | [] => []
  | (k, x) :: ms =>
    match x.toTree with
    | some t => (k, t) :: toMembers ms
    | none => toMembers ms

end

mutual

/-- The value that `JSON.parse` makes of a tree. -/
def ofTree : Tree → Value
  | .null => atom .null
  | .bool b => atom (.bool b)
  | .num n => atom (.num n)
  | .str s => atom (.str s)
  | .arr xs => arr (ofElements xs)
  | .obj ms => obj (ofMembers ms)

def ofElements : List Tree → List Value
  | [] => []
  | t :: ts => ofTree t :: ofElements ts

def ofMembers : List (JsString × Tree) → List (JsString × Value)
  | [] => []
  | (k, t) :: ms => (k, ofTree t) :: ofMembers ms

end

mutual

def ordered : Value → Bool
  | atom _ => true
  | arr xs => orderedElements xs
  | obj ms => decide (KeysOrdered (ms.map Prod.fst)) && orderedMembers ms

def orderedElements : List Value → Bool
  | [] => true
  | x :: xs => x.ordered && orderedElements xs

def orderedMembers : List (JsString × Value) → Bool
  | [] => true
  | (_, x) :: ms => x.ordered && orderedMembers ms

end

/-- `value[key]`. -/
def get (key : String) : Value → Value
  | obj ms => (assocGet (js key) ms).getD (atom .undefined)
  | _ => atom .undefined

def isRecord : Value → Bool
  | obj _ | atom (.date _) => true
  | _ => false

theorem eq_of_isUndefined : {v : Value} → v.isUndefined = true → v = atom .undefined
  | atom .undefined, _ => rfl

theorem isUndefined_present : (v : Value) → v.present.isUndefined = v.isUndefined
  | atom _ | arr _ | obj _ => rfl

theorem presentElements_eq (xs : List Value) : presentElements xs = xs.map present := by
  induction xs with
  | nil => rfl
  | cons x xs ih => rw [presentElements, ih, map_cons]

theorem orderedElements_iff (xs : List Value) :
    orderedElements xs = true ↔ ∀ x ∈ xs, x.ordered = true := by
  induction xs with
  | nil => simp [orderedElements]
  | cons x xs ih => simp [orderedElements, ih]

mutual

theorem present_of_isJson : (v : Value) → v.allAtoms Atom.isJson = true → v.present = v
  | atom _, _ => rfl
  | arr xs, h => congrArg arr (presentElements_of_isJson xs h)
  | obj ms, h => congrArg obj (presentMembers_of_isJson ms h)

theorem presentElements_of_isJson : (xs : List Value) →
    allElements Atom.isJson xs = true → presentElements xs = xs
  | [], _ => rfl
  | x :: xs, h => by
    rw [allElements, Bool.and_eq_true] at h
    rw [presentElements, present_of_isJson x h.1, presentElements_of_isJson xs h.2]

theorem presentMembers_of_isJson : (ms : List (JsString × Value)) →
    allMembers Atom.isJson ms = true → presentMembers ms = ms
  | [], _ => rfl
  | (k, x) :: ms, h => by
    rw [allMembers, Bool.and_eq_true] at h
    have hdefined : ¬ x.isUndefined = true := by
      intro hundefined
      rw [eq_of_isUndefined hundefined] at h
      exact Bool.false_ne_true h.1
    rw [presentMembers, if_neg hdefined, present_of_isJson x h.1, presentMembers_of_isJson ms h.2]

end

mutual

theorem allAtoms_of_present {p q : Atom → Bool} (hpq : ∀ a, q a = true → p a = true)
    (hundefined : p .undefined = true) :
    (v : Value) → v.present.allAtoms q = true → v.allAtoms p = true
  | atom a, h => hpq a h
  | arr xs, h => allElements_of_present hpq hundefined xs h
  | obj ms, h => allMembers_of_present hpq hundefined ms h

theorem allElements_of_present {p q : Atom → Bool} (hpq : ∀ a, q a = true → p a = true)
    (hundefined : p .undefined = true) : (xs : List Value) →
      allElements q (presentElements xs) = true → allElements p xs = true
  | [], _ => rfl
  | x :: xs, h => by
    rw [presentElements, allElements, Bool.and_eq_true] at h
    rw [allElements, allAtoms_of_present hpq hundefined x h.1,
      allElements_of_present hpq hundefined xs h.2]
    rfl

theorem allMembers_of_present {p q : Atom → Bool} (hpq : ∀ a, q a = true → p a = true)
    (hundefined : p .undefined = true) : (ms : List (JsString × Value)) →
      allMembers q (presentMembers ms) = true → allMembers p ms = true
  | [], _ => rfl
  | (k, x) :: ms, h => by
    rw [presentMembers] at h
    rw [allMembers, Bool.and_eq_true]
    split at h
    · rename_i hx
      rw [eq_of_isUndefined hx]
      exact ⟨hundefined, allMembers_of_present hpq hundefined ms h⟩
    · rw [allMembers, Bool.and_eq_true] at h
      exact ⟨allAtoms_of_present hpq hundefined x h.1, allMembers_of_present hpq hundefined ms h.2⟩

end

mutual

theorem present_ofTree : (t : Tree) → (ofTree t).present = ofTree t
  | .null | .bool _ | .num _ | .str _ => rfl
  | .arr ts => congrArg arr (presentElements_ofElements ts)
  | .obj ms => congrArg obj (presentMembers_ofMembers ms)

theorem presentElements_ofElements : (ts : List Tree) →
    presentElements (ofElements ts) = ofElements ts
  | [] => rfl
  | t :: ts => by
    rw [ofElements, presentElements, present_ofTree t, presentElements_ofElements ts]

theorem presentMembers_ofMembers : (ms : List (JsString × Tree)) →
    presentMembers (ofMembers ms) = ofMembers ms
  | [] => rfl
  | (k, t) :: ms => by
    have hdefined : (ofTree t).isUndefined = false := by cases t <;> rfl
    rw [ofMembers, presentMembers, hdefined, if_neg Bool.false_ne_true, present_ofTree t,
      presentMembers_ofMembers ms]

end

theorem keys_toMembers (ms : List (JsString × Value)) :
    (toMembers ms).map Prod.fst <+ ms.map Prod.fst := by
  induction ms with
  | nil => exact Sublist.refl _
  | cons m ms ih =>
    obtain ⟨k, x⟩ := m
    rw [toMembers]
    split
    · exact ih.cons_cons k
    · exact ih.cons k

mutual

theorem ordered_toTree : (v : Value) → (t : Tree) → v.ordered = true → v.toTree = some t →
    t.ordered = true
  | atom a, t, _, h => by
    rcases a with _ | _ | _ | _ | _ | _ | _ | _ | (_ | _) <;> cases h <;> rfl
  | arr xs, t, hv, h => by
    cases h
    exact ordered_toElements xs hv
  | obj ms, t, hv, h => by
    cases h
    rw [ordered, Bool.and_eq_true, decide_eq_true_eq] at hv
    rw [Tree.ordered, ordered_toMembers ms hv.2, Bool.and_true, decide_eq_true_eq]
    exact hv.1.sublist (keys_toMembers ms)

theorem ordered_toElements : (xs : List Value) → orderedElements xs = true →
    Tree.orderedList (toElements xs) = true
  | [], _ => rfl
  | x :: xs, h => by
    rw [orderedElements, Bool.and_eq_true] at h
    rw [toElements, Tree.orderedList, ordered_toElements xs h.2, Bool.and_true]
    cases hx : x.toTree with
    | none => rfl
    | some t => exact ordered_toTree x t h.1 hx

theorem ordered_toMembers : (ms : List (JsString × Value)) → orderedMembers ms = true →
    Tree.orderedMembers (toMembers ms) = true
  | [], _ => rfl
  | (k, x) :: ms, h => by
    rw [orderedMembers, Bool.and_eq_true] at h
    rw [toMembers]
    split
    · rename_i t hx
      rw [Tree.orderedMembers, ordered_toTree x t h.1 hx, ordered_toMembers ms h.2]
      rfl
    · exact ordered_toMembers ms h.2

end

theorem length_toMembers (ms : List (JsString × Value)) :
    (toMembers ms).length ≤ (presentMembers ms).length := by
  induction ms with
  | nil => exact le_rfl
  | cons m ms ih =>
    obtain ⟨k, x⟩ := m
    rw [toMembers, presentMembers]
    split
    · rename_i t hx
      have hdefined : ¬ x.isUndefined = true := by
        intro hundefined
        rw [eq_of_isUndefined hundefined] at hx
        cases hx
      rw [if_neg hdefined, length_cons, length_cons]
      exact Nat.succ_le_succ ih
    · split
      · exact ih
      · exact ih.trans (Nat.le_succ _)

theorem length_ofMembers (ms : List (JsString × Tree)) : (ofMembers ms).length = ms.length := by
  induction ms with
  | nil => rfl
  | cons m ms ih => rw [ofMembers, length_cons, length_cons, ih]

theorem atom_of_toTree_none : {v : Value} → v.toTree = none → ∃ a, v = atom a ∧ a.toTree = none
  | atom a, h => ⟨a, rfl, h⟩

mutual

/-- A value comes back as it was, but for undefined members, exactly when JSON has its atoms. -/
theorem ofTree_toTree : (v : Value) →
    (v.toTree.map ofTree = some v.present ↔ v.present.allAtoms Atom.isPlain = true)
  | atom a => by
    rcases a with _ | _ | _ | _ | _ | _ | _ | _ | (_ | _) <;>
      simp [toTree, Atom.toTree, present, ofTree, allAtoms, Atom.isPlain]
  | arr xs => by
    rw [toTree, map_some, some_inj, present, ofTree, arr.injEq, allAtoms]
    exact ofElements_toElements xs
  | obj ms => by
    rw [toTree, map_some, some_inj, present, ofTree, obj.injEq, allAtoms]
    exact ofMembers_toMembers ms

theorem ofElements_toElements : (xs : List Value) →
    (ofElements (toElements xs) = presentElements xs ↔
      allElements Atom.isPlain (presentElements xs) = true)
  | [] => iff_of_true rfl rfl
  | x :: xs => by
    rw [toElements, ofElements, presentElements, allElements, cons.injEq, Bool.and_eq_true,
      ofElements_toElements xs, ← ofTree_toTree x]
    cases hx : x.toTree with
    | some t => rw [Option.getD_some, map_some, some_inj]
    | none =>
      obtain ⟨a, rfl, ha⟩ := atom_of_toTree_none hx
      have hnull : ofTree .null ≠ (atom a).present := by
        rintro h
        cases h
        cases ha
      simp [hnull]

theorem ofMembers_toMembers : (ms : List (JsString × Value)) →
    (ofMembers (toMembers ms) = presentMembers ms ↔
      allMembers Atom.isPlain (presentMembers ms) = true)
  | [] => iff_of_true rfl rfl
  | (k, x) :: ms => by
    rw [toMembers, presentMembers]
    by_cases hundefined : x.isUndefined = true
    · rw [if_pos hundefined, eq_of_isUndefined hundefined]
      exact ofMembers_toMembers ms
    · rw [if_neg hundefined, allMembers, Bool.and_eq_true, ← ofTree_toTree x]
      cases hx : x.toTree with
      | some t => simp [ofMembers, ofMembers_toMembers ms]
      | none =>
        -- A member that is not printed is missing, so the lengths differ.
        refine iff_of_false (fun h => ?_) (fun h => ?_)
        · have hlength := congrArg length h
          have hle := length_toMembers ms
          simp only [length_ofMembers, length_cons] at hlength
          omega
        · cases h.1

end

theorem get_present {v : Value} (h : v.ordered = true) (key : String) :
    v.present.get key = (v.get key).present := by
  cases v with
  | atom a => rfl
  | arr xs => rfl
  | obj ms =>
    rw [ordered, Bool.and_eq_true, decide_eq_true_eq] at h
    replace h := h.1
    rw [present, get, get]
    induction ms with
    | nil => rfl
    | cons m ms ih =>
      obtain ⟨k, x⟩ := m
      rw [map_cons, KeysOrdered, pairwise_cons] at h
      specialize ih h.2
      rw [presentMembers, assocGet]
      by_cases hk : k = js key
      · rw [if_pos hk]
        split
        · rename_i hundefined
          have hnone : assocGet (js key) ms = none :=
            (assocGet_eq_none_iff _ _).mpr fun hmem => keyBefore_ne (h.1 _ hmem) hk
          rw [ih, hnone, eq_of_isUndefined hundefined]
          rfl
        · rw [assocGet, if_pos hk]
          rfl
      · rw [if_neg hk]
        split
        · exact ih
        · rw [assocGet, if_neg hk, ih]

theorem ordered_get {v : Value} (h : v.ordered = true) (key : String) :
    (v.get key).ordered = true := by
  cases v with
  | atom a => rfl
  | arr xs => rfl
  | obj ms =>
    rw [ordered, Bool.and_eq_true] at h
    replace h := h.2
    rw [get]
    induction ms with
    | nil => rfl
    | cons m ms ih =>
      obtain ⟨k, x⟩ := m
      rw [orderedMembers, Bool.and_eq_true] at h
      rw [assocGet]
      split
      · exact h.1
      · exact ih h.2

end Value

/-- A value whose objects have their members in order, as the language keeps them. -/
structure RuntimeValue where
  value : Value
  ordered : value.ordered = true

open Value

/-- A guard accepts a value without its undefined members when it accepts the value. -/
structure Guard where
  test : Value → Bool
  stable : ∀ v, v.ordered = true → test v = true → test v.present = true

def typed (p : Atom → Bool) : Guard where
  test
    | .atom a => p a
    | _ => false
  stable
    | .atom _, _, h => h

def isString : Guard := typed fun a => a matches .str _

/-- `typeof NaN` is `"number"` too. -/
def isNumber : Guard := typed fun a => a matches .num _ | .nonFinite

def isBoolean : Guard := typed fun a => a matches .bool _

/-- `value === text` for one of the texts. -/
def isOneOf (texts : List String) : Guard := typed fun a => texts.any fun text => a == .str (js text)

def isArrayOf (guard : Guard) : Guard where
  test
    | .arr xs => xs.all guard.test
    | _ => false
  stable
    | .arr xs, hordered, h => by
      rw [Value.ordered, orderedElements_iff] at hordered
      simp only [present, presentElements_eq, all_map, all_eq_true] at h ⊢
      exact fun x hx => guard.stable x (hordered x hx) (h x hx)

def isStringArray : Guard := isArrayOf isString

/-- `Object.values(value).every(isJsonValue)` for a record. -/
def isJsonObject : Guard where
  test v := v.isRecord && v.allAtoms Atom.isJson
  stable v _ h := by
    rw [present_of_isJson v (Bool.and_eq_true_iff.mp h).2]
    exact h

def optional (guard : Guard) : Guard where
  test v := v.isUndefined || guard.test v
  stable v hordered h := by
    rw [Bool.or_eq_true] at h ⊢
    rw [isUndefined_present]
    exact h.imp_right (guard.stable v hordered)

def recordOf (members : List (String × Guard)) : Guard where
  test v := v.isRecord && members.all fun m => m.2.test (v.get m.1)
  stable v hordered h := by
    rw [Bool.and_eq_true, all_eq_true] at h ⊢
    refine ⟨by cases v <;> exact h.1, fun m hm => ?_⟩
    rw [get_present hordered]
    exact m.2.stable _ (ordered_get hordered _) (h.2 m hm)

def both (first second : Guard) : Guard where
  test v := first.test v && second.test v
  stable v hordered h := by
    rw [Bool.and_eq_true] at h ⊢
    exact h.imp (first.stable v hordered) (second.stable v hordered)

def either (first second : Guard) : Guard where
  test v := first.test v || second.test v
  stable v hordered h := by
    rw [Bool.or_eq_true] at h ⊢
    exact h.imp (first.stable v hordered) (second.stable v hordered)

def isArtifactRef : Guard :=
  recordOf [("id", isString), ("kind", isString), ("uri", isString), ("title", optional isString),
    ("mediaType", optional isString), ("version", optional isString),
    ("metadata", optional isJsonObject)]

def isArtifactBrief : Guard :=
  recordOf [("artifactId", isString), ("kind", isString), ("title", optional isString),
    ("brief", isString), ("keyFindings", optional isStringArray),
    ("limitations", optional isStringArray)]

def isArtifactManifest : Guard :=
  recordOf [("id", isString), ("artifacts", isArrayOf isArtifactRef), ("createdAt", isString),
    ("updatedAt", optional isString), ("metadata", optional isJsonObject)]

def isExecutionTraceEvent : Guard :=
  recordOf [("type", isString), ("timestamp", isString), ("message", optional isString),
    ("data", optional isJsonObject)]

def isExecutionTrace : Guard :=
  recordOf [("runId", isString), ("sessionId", optional isString), ("startedAt", isString),
    ("endedAt", optional isString), ("events", isArrayOf isExecutionTraceEvent)]

def isWorkerBudget : Guard :=
  recordOf [("maxTurns", optional isNumber), ("timeoutMs", optional isNumber),
    ("maxToolCalls", optional isNumber)]

def isWorkerResultStatus : Guard := isOneOf ["success", "failed", "cancelled"]

def isWorkerRetryPolicy : Guard :=
  recordOf [("maxAttempts", isNumber),
    ("retryableStatuses", optional (isArrayOf isWorkerResultStatus))]

def isWorkerToolPolicy : Guard :=
  recordOf [("maxCalls", optional isNumber), ("defaultProviders", optional isStringArray),
    ("allowedProviders", optional isStringArray), ("maxResultsPerProvider", optional isNumber),
    ("timeoutMs", optional isNumber), ("requireArtifactOutput", optional isBoolean),
    ("allowRefresh", optional isBoolean)]

def isWorkerProfile : Guard :=
  recordOf [("id", isString), ("name", isString), ("description", optional isString),
    ("rolePrompt", optional isString), ("capabilities", isStringArray),
    ("expectedOutputs", optional isStringArray), ("acceptanceChecklist", optional isStringArray),
    ("allowedTools", optional isStringArray), ("toolPolicy", optional isWorkerToolPolicy),
    ("inputRequirements", optional isStringArray), ("boundaries", optional isStringArray)]

def isSchemaRef : Guard := recordOf [("id", isString), ("version", isOneOf ["v1"])]

def isOutputRequirementBase : Guard :=
  recordOf [("id", isString), ("label", isString), ("required", isBoolean),
    ("description", optional isString)]

def isOutputRequirement : Guard :=
  both isOutputRequirementBase <|
    either
      (recordOf [("kind", isOneOf ["artifact"]), ("artifactKind", isString),
        ("minCount", optional isNumber), ("schemaRef", optional isSchemaRef)]) <|
    either
      (recordOf [("kind", isOneOf ["structured"]), ("path", isString),
        ("schemaRef", optional isSchemaRef)])
      (recordOf [("kind", isOneOf ["narrative"]), ("section", isString),
        ("minChars", optional isNumber), ("mustMention", optional isStringArray)])

def isExpectedWorkerOutput : Guard :=
  recordOf [("contractId", isString), ("profileId", isString),
    ("successMode", isOneOf ["all-required"]), ("requirements", isArrayOf isOutputRequirement)]

def isAcceptanceIssue : Guard :=
  recordOf [("code", isString), ("message", isString),
    ("severity", isOneOf ["info", "warning", "error"]), ("artifactId", optional isString)]

def isWorkerAttemptContext : Guard :=
  recordOf [("attempt", isNumber), ("maxAttempts", isNumber),
    ("previousIssues", optional (isArrayOf isAcceptanceIssue)),
    ("previousFailureReason", optional isString)]

def isWorkerRequest : Guard :=
  recordOf [("taskId", isString), ("workerType", isString), ("objective", isString),
    ("constraints", isStringArray), ("inputArtifacts", isArrayOf isArtifactRef),
    ("expectedOutputs", isStringArray), ("acceptanceCriteria", isStringArray),
    ("outputContract", optional isExpectedWorkerOutput),
    ("attemptContext", optional isWorkerAttemptContext),
    ("legacyExpectedOutputs", optional isStringArray),
    ("legacyAcceptanceCriteria", optional isStringArray),
    ("executionBudget", optional isWorkerBudget), ("retryPolicy", optional isWorkerRetryPolicy),
    ("profile", optional isWorkerProfile), ("metadata", optional isJsonObject)]

def isWorkerOpenQuestion : Guard :=
  recordOf [("question", isString), ("blocksExecution", optional isBoolean)]

def isWorkerResult : Guard :=
  recordOf [("taskId", isString), ("status", isWorkerResultStatus), ("summary", isString),
    ("structuredOutputs", optional isJsonObject),
    ("producedArtifacts", isArrayOf isArtifactRef),
    ("artifactBriefs", optional (isArrayOf isArtifactBrief)), ("warnings", isStringArray),
    ("openQuestions", isArrayOf isWorkerOpenQuestion), ("executionTrace", isExecutionTrace),
    ("failureReason", optional isString)]

def isAcceptanceReport : Guard :=
  recordOf [("taskId", isString), ("accepted", isBoolean), ("checkedAt", isString),
    ("issues", isArrayOf isAcceptanceIssue), ("summary", optional isString)]

/-- An error of `JSON.parse`, or one with a text. -/
inductive ContractError where
  | notJson
  | invalid (message : JsString)

def parseJsonContract (json : JsString) : Except ContractError Value :=
  match Json.parse json with
  | some value => .ok (ofTree value.tree)
  | none => .error .notJson

def expectContract (value : Value) (predicate : Guard) (name : String) :
    Except ContractError Value :=
  if predicate.test value then .ok value
  else .error (.invalid (js "Invalid " ++ js name ++ js " contract"))

/-- `JSON.stringify(value)`; none when it throws, as it does for a big integer. -/
def serializeContract (value : Value) : Option JsString :=
  if value.allAtoms (!·.isBigInt) then value.toTree.map Tree.print else none

def deserializeContract (predicate : Guard) (name : String) (json : JsString) :
    Except ContractError Value := do
  expectContract (← parseJsonContract json) predicate name

def deserializeWorkerRequest := deserializeContract isWorkerRequest "WorkerRequest"

def deserializeWorkerResult := deserializeContract isWorkerResult "WorkerResult"

def deserializeArtifactManifest := deserializeContract isArtifactManifest "ArtifactManifest"

def deserializeAcceptanceReport := deserializeContract isAcceptanceReport "AcceptanceReport"

inductive Contract where
  | workerRequest
  | workerResult
  | artifactManifest
  | acceptanceReport

namespace Contract

def guard : Contract → Guard
  | workerRequest => isWorkerRequest
  | workerResult => isWorkerResult
  | artifactManifest => isArtifactManifest
  | acceptanceReport => isAcceptanceReport

def deserialize : Contract → JsString → Except ContractError Value
  | workerRequest => deserializeWorkerRequest
  | workerResult => deserializeWorkerResult
  | artifactManifest => deserializeArtifactManifest
  | acceptanceReport => deserializeAcceptanceReport

theorem deserialize_eq (type : Contract) :
    ∃ name, type.deserialize = deserializeContract type.guard name := by
  cases type <;> exact ⟨_, rfl⟩

end Contract

theorem deserialize_print (type : Contract) {v : Value} (h : v.ordered = true) {t : Tree}
    (ht : v.toTree = some t) :
    ∃ name, type.deserialize t.print = expectContract (ofTree t) type.guard name := by
  obtain ⟨name, hname⟩ := type.deserialize_eq
  have hround := Json.parse_stringify ⟨t, ordered_toTree v t h ht⟩
  rw [Json.stringify] at hround
  refine ⟨name, ?_⟩
  rw [hname, deserializeContract, parseJsonContract, hround]
  rfl

theorem isPlain_of_returned {type : Contract} {v w : Value} {json : JsString}
    (h : v.ordered = true) (hjson : serializeContract v = some json)
    (hw : type.deserialize json = .ok w) (hsame : w.present = v.present) :
    v.present.allAtoms Atom.isPlain = true := by
  rw [serializeContract] at hjson
  split at hjson
  · obtain ⟨t, ht, rfl⟩ := Option.map_eq_some_iff.mp hjson
    obtain ⟨name, hname⟩ := deserialize_print type h ht
    rw [hname, expectContract] at hw
    split at hw
    · cases hw
      rw [← ofTree_toTree, ht, map_some, ← hsame, present_ofTree]
    · cases hw
  · cases hjson

theorem returned_of_isPlain {type : Contract} {v : Value} (hordered : v.ordered = true)
    (hguard : type.guard.test v = true) (h : v.present.allAtoms Atom.isPlain = true) :
    ∃ json, serializeContract v = some json ∧ type.deserialize json = .ok v.present := by
  have hbigint : v.allAtoms (!·.isBigInt) = true :=
    allAtoms_of_present (fun a ha => by cases a <;> first | rfl | cases ha) rfl v h
  obtain ⟨t, ht, hpresent⟩ := Option.map_eq_some_iff.mp ((ofTree_toTree v).mpr h)
  obtain ⟨name, hname⟩ := deserialize_print type hordered ht
  refine ⟨t.print, ?_, ?_⟩
  · rw [serializeContract, if_pos hbigint, ht]
    rfl
  · rw [hname, expectContract, hpresent, if_pos (type.guard.stable v hordered hguard)]

/-- An accepted contract comes back, but for members that are undefined, exactly when its numbers
are finite and it holds nothing that JSON lacks. -/
theorem serializeContract_roundTrips (type : Contract) (v : RuntimeValue)
    (hguard : type.guard.test v.value = true) :
    (∃ json w, serializeContract v.value = some json ∧ type.deserialize json = .ok w ∧
      w.present = v.value.present) ↔ v.value.present.allAtoms Atom.isPlain = true := by
  constructor
  · rintro ⟨json, w, hjson, hw, hsame⟩
    exact isPlain_of_returned v.ordered hjson hw hsame
  · intro h
    obtain ⟨json, hjson, hw⟩ := returned_of_isPlain v.ordered hguard h
    obtain ⟨t, -, hpresent⟩ := Option.map_eq_some_iff.mp ((ofTree_toTree v.value).mpr h)
    exact ⟨json, v.value.present, hjson, hw, by rw [← hpresent, present_ofTree]⟩

/-- A manifest without artifacts whose metadata has one member. -/
def scoredManifest (score : Atom) : Value :=
  .obj [(js "id", .atom (.str (js "m"))), (js "artifacts", .arr []),
    (js "createdAt", .atom (.str (js "t"))), (js "updatedAt", .atom .undefined),
    (js "metadata", .obj [(js "score", .atom score)])]

theorem serializeContract_roundTrips_scored :
    (∃ json w, serializeContract (scoredManifest .null) = some json ∧
      deserializeArtifactManifest json = .ok w ∧ w.present = (scoredManifest .null).present) ↔
        (scoredManifest .null).present.allAtoms Atom.isPlain = true :=
  serializeContract_roundTrips .artifactManifest ⟨_, by decide⟩ (by decide)

/-- A number that is not finite is accepted, and comes back as `null`. -/
theorem serializeContract_not_roundTrips :
    ¬ ∀ (type : Contract) (v : RuntimeValue), type.guard.test v.value = true →
      ∃ json w, serializeContract v.value = some json ∧ type.deserialize json = .ok w ∧
        w.present = v.value.present := by
  intro h
  have hordered : (scoredManifest .nonFinite).ordered = true := by decide
  have hguard : isArtifactManifest.test (scoredManifest .nonFinite) = true := by decide
  obtain ⟨json, w, hjson, hw, hsame⟩ := h .artifactManifest ⟨_, hordered⟩ hguard
  exact absurd (isPlain_of_returned hordered hjson hw hsame) (by decide)

end AcademicAgent.LeadAgent.Serialization
