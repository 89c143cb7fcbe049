import Mathlib.Data.Nat.Digits.Lemmas
import AcademicAgent.Core.Padding
import AcademicAgent.Ai.Providers.TransformTranscript

/-!
# Ids of tool calls for another provider

Each converter makes the ids of foreign tool calls acceptable in its own way: characters are
replaced, the id is cut off, and the id of the Responses API keeps its two parts.
-/

namespace AcademicAgent

open List

def base36Digit (d : Nat) : CodeUnit := UInt16.ofNat (if d < 10 then 0x30 + d else 0x57 + d)

/-- `n.toString(36)`. -/
def base36Text (n : Nat) : JsString :=
  if n = 0 then [0x30] else (Nat.digits 36 n).reverse.map base36Digit

/-- The loop of `shortHash`. -/
def hashUnit (h : UInt32 × UInt32) (ch : CodeUnit) : UInt32 × UInt32 :=
  ((h.1 ^^^ ch.toUInt32) * 2654435761, (h.2 ^^^ ch.toUInt32) * 1597334677)

/-- `Math.imul(h ^ (h >>> shift), factor)`. -/
def mixHash (h shift factor : UInt32) : UInt32 := (h ^^^ (h >>> shift)) * factor

def shortHash (str : JsString) : JsString :=
  let (h1, h2) := str.foldl hashUnit (0xdeadbeef, 0x41c6ce57)
  let h1 := mixHash h1 16 2246822507 ^^^ mixHash h2 13 3266489909
  let h2 := mixHash h2 16 2246822507 ^^^ mixHash h1 13 3266489909
  base36Text h2.toNat ++ base36Text h1.toNat

/-- `|`, between the two ids of a call of the Responses API. -/
def pipe : CodeUnit := 0x7C

/-- `[a-zA-Z0-9_-]`. -/
def isIdUnit (c : CodeUnit) : Bool :=
  (0x61 ≤ c && c ≤ 0x7A) || (0x41 ≤ c && c ≤ 0x5A) || (0x30 ≤ c && c ≤ 0x39) || c == 0x5F ||
    c == 0x2D

section

variable (id : JsString)

/-- `id.replace(/[^a-zA-Z0-9_-]/g, "_")`. -/
def sanitizeId : JsString := id.map fun c => if isIdUnit c then c else 0x5F

/-- The first part of `id.split("|")`. -/
def callIdPart : JsString := (id.splitOn pipe).getD 0 []

/-- The second part of `id.split("|")`. -/
def itemIdPart : Option JsString := (id.splitOn pipe)[1]?

end

/-- `normalizeToolCallId` of the chat completions. -/
def normalizeCompletionsToolCallId (model : Model) (id : JsString) : JsString :=
  if pipe ∈ id then (sanitizeId (callIdPart id)).take 40
  else if model.provider = js "openai" then (if 40 < id.length then id.take 40 else id)
  else id

section

variable (part : JsString)

def normalizeIdPart : JsString :=
  let sanitized := sanitizeId part
  let normalized := if 64 < sanitized.length then sanitized.take 64 else sanitized
  normalized.rdropWhile (· == 0x5F)

def buildForeignResponsesItemId (itemId : JsString) : JsString :=
  let normalized := js "fc_" ++ shortHash itemId
  if 64 < normalized.length then normalized.take 64 else normalized

/-- The item id that `normalizeToolCallId` of the Responses API makes. -/
def normalizeItemId (isForeignToolCall : Bool) (itemId : JsString) : JsString :=
  let normalizedItemId :=
    if isForeignToolCall then buildForeignResponsesItemId itemId else normalizeIdPart itemId
  if js "fc_" <+: normalizedItemId then normalizedItemId
  else normalizeIdPart (js "fc_" ++ normalizedItemId)

/-- `normalizeToolCallId` of the Responses API. -/
def normalizeResponsesToolCallId (allowedToolCallProviders : List JsString) (id : JsString)
    (model : Model) (source : AssistantMessage) : JsString :=
  if model.provider ∉ allowedToolCallProviders then normalizeIdPart id
  else if pipe ∉ id then normalizeIdPart id
  else
    let isForeignToolCall := source.provider ≠ model.provider || source.api ≠ model.api
    normalizeIdPart (callIdPart id) ++
      pipe :: normalizeItemId isForeignToolCall ((itemIdPart id).getD [])

/-- The id has at least one of the characters `[a-zA-Z0-9_-]`, no others, and at most so many. -/
structure IdWithin (limit : Nat) (id : JsString) : Prop where
  ne_nil : id ≠ []
  units : ∀ c ∈ id, isIdUnit c = true
  length_le : id.length ≤ limit

structure ResponsesIds (id : JsString) : Prop where
  callId : IdWithin 64 (callIdPart id)
  itemId : ∀ itemId ∈ itemIdPart id, IdWithin 64 itemId ∧ js "fc" <+: itemId

/-- A character that becomes an underscore, or is one. -/
def isBlank (c : CodeUnit) : Bool := !isIdUnit c || c == 0x5F

def SameUnit (c d : CodeUnit) : Prop := c = d ∨ isBlank c = true ∧ isBlank d = true

instance (c d : CodeUnit) : Decidable (SameUnit c d) := inferInstanceAs (Decidable (_ ∨ _))

theorem isIdUnit_sanitizeId (id : JsString) : ∀ c ∈ sanitizeId id, isIdUnit c = true := by
  intro c hc
  obtain ⟨d, -, rfl⟩ := mem_map.mp hc
  by_cases hd : isIdUnit d = true
  · rw [if_pos hd]
    exact hd
  · rw [if_neg hd]
    rfl

theorem sanitized_eq_underscore (c : CodeUnit) :
    (if isIdUnit c then c else 0x5F) = 0x5F ↔ isBlank c = true := by
  by_cases hc : isIdUnit c = true
  · rw [if_pos hc, isBlank, hc]
    simp
  · rw [if_neg hc, isBlank, Bool.eq_false_iff.mpr hc]
    simp

theorem sanitized_eq_iff (c d : CodeUnit) :
    (if isIdUnit c then c else 0x5F) = (if isIdUnit d then d else 0x5F) ↔ SameUnit c d := by
  constructor
  · intro h
    by_cases hblank : isBlank c = true
    · have hc := (sanitized_eq_underscore c).mpr hblank
      exact .inr ⟨hblank, (sanitized_eq_underscore d).mp (h ▸ hc)⟩
    · have hd : ¬ isBlank d = true := fun hd =>
        hblank ((sanitized_eq_underscore c).mp (h.trans ((sanitized_eq_underscore d).mpr hd)))
      have hunit : ∀ x : CodeUnit, ¬ isBlank x = true → isIdUnit x = true := by
        intro x hx
        by_contra hnot
        exact hx (by rw [isBlank, Bool.eq_false_iff.mpr hnot]; rfl)
      rw [if_pos (hunit c hblank), if_pos (hunit d hd)] at h
      exact .inl h
  · rintro (rfl | ⟨hc, hd⟩)
    · rfl
    · rw [(sanitized_eq_underscore c).mpr hc, (sanitized_eq_underscore d).mpr hd]

theorem take_sanitizeId_eq_iff (limit : Nat) (x y : JsString) :
    (sanitizeId x).take limit = (sanitizeId y).take limit ↔
      Forall₂ SameUnit (x.take limit) (y.take limit) := by
  rw [sanitizeId, sanitizeId, ← map_take, ← map_take, ← forall₂_eq_eq_eq,
    forall₂_map_left_iff, forall₂_map_right_iff]
  simp only [sanitized_eq_iff]

theorem getD_sanitizeId (x : JsString) (i : Nat) :
    (sanitizeId x).getD i 0x5F = if isIdUnit (x.getD i 0x5F) then x.getD i 0x5F else 0x5F := by
  rw [getD_eq_getElem?_getD, getD_eq_getElem?_getD, sanitizeId, getElem?_map]
  cases x[i]? with
  | none => rfl
  | some c => rfl

theorem normalizeIdPart_eq :
    normalizeIdPart part = Padding.trimFiller 0x5F ((sanitizeId part).take 64) := by
  rw [normalizeIdPart, Padding.trimFiller]
  split
  · rfl
  · rename_i h
    rw [take_of_length_le (Nat.le_of_not_lt h)]

theorem normalizeIdPart_eq_iff (x y : JsString) : normalizeIdPart x = normalizeIdPart y ↔
      ∀ i < 64, SameUnit (x.getD i 0x5F) (y.getD i 0x5F) := by
  have htake (s : JsString) (i : Nat) : ((sanitizeId s).take 64).getD i 0x5F =
        if i < 64 then (if isIdUnit (s.getD i 0x5F) then s.getD i 0x5F else 0x5F) else 0x5F := by
    rw [getD_eq_getElem?_getD, getElem?_take]
    split
    · rw [← getD_eq_getElem?_getD, getD_sanitizeId]
    · rfl
  rw [normalizeIdPart_eq, normalizeIdPart_eq, Padding.trimFiller_eq_iff]
  constructor
  · intro h i hi
    have hi' := h i
    rw [htake, htake, if_pos hi, if_pos hi, sanitized_eq_iff] at hi'
    exact hi'
  · intro h i
    rw [htake, htake]
    by_cases hi : i < 64
    · rw [if_pos hi, if_pos hi, sanitized_eq_iff]
      exact h i hi
    · rw [if_neg hi, if_neg hi]

theorem normalizeIdPart_ne_nil_iff :
    normalizeIdPart part ≠ [] ↔ ∃ c ∈ part.take 64, isBlank c = false := by
  rw [normalizeIdPart_eq, Ne, Padding.trimFiller_eq_nil, sanitizeId, ← map_take, forall_mem_map]
  simp only [sanitized_eq_underscore]
  push Not
  simp only [Bool.not_eq_true]

theorem isIdUnit_normalizeIdPart : ∀ c ∈ normalizeIdPart part, isIdUnit c = true := by
  intro c hc
  rw [normalizeIdPart_eq] at hc
  exact isIdUnit_sanitizeId part c (mem_of_mem_take (( rdropWhile_prefix _ _).subset hc))

theorem length_normalizeIdPart_le : (normalizeIdPart part).length ≤ 64 := by
  rw [normalizeIdPart_eq]
  exact ( rdropWhile_prefix _ _).length_le.trans (length_take_le 64 _)

theorem idWithin_normalizeIdPart :
    IdWithin 64 (normalizeIdPart part) ↔ ∃ c ∈ part.take 64, isBlank c = false := by
  rw [← normalizeIdPart_ne_nil_iff]
  exact ⟨fun h => h.ne_nil,
    fun h => ⟨h, isIdUnit_normalizeIdPart part, length_normalizeIdPart_le part⟩⟩

theorem splitOn_pipe {callId itemId : JsString} (hcall : pipe ∉ callId) (hitem : pipe ∉ itemId) :
    (callId ++ pipe :: itemId).splitOn pipe = [callId, itemId] := by
  rw [splitOn_append_of_notMem hcall, splitOn_cons_eq_if_modifyHead, beq_self_eq_true,
    if_pos rfl, splitOn_eq_singleton hitem, modifyHead_cons, append_nil]

theorem pipe_notMem_of_units {s : JsString} (h : ∀ c ∈ s, isIdUnit c = true) : pipe ∉ s :=
  fun hmem => absurd (h pipe hmem) (by decide)

theorem base36Digit_isIdUnit {d : Nat} (h : d < 36) : isIdUnit (base36Digit d) = true := by
  revert d
  decide

theorem base36Text_spec {n : Nat} (h : n < 2 ^ 32) :
    (∀ c ∈ base36Text n, isIdUnit c = true) ∧ (base36Text n).length ≤ 7 := by
  rw [base36Text]
  split
  · exact ⟨forall_mem_of_all (by decide), by decide⟩
  · constructor
    · intro c hc
      obtain ⟨d, hd, rfl⟩ := mem_map.mp hc
      exact base36Digit_isIdUnit (Nat.digits_lt_base (by decide) (mem_reverse.mp hd))
    · rw [length_map, length_reverse, Nat.digits_length_le_iff (by decide)]
      exact h.trans (by decide)

theorem shortHash_spec (str : JsString) :
    (∀ c ∈ shortHash str, isIdUnit c = true) ∧ (shortHash str).length ≤ 14 := by
  obtain ⟨h1, h2, heq⟩ : ∃ h1 h2 : UInt32,
      shortHash str = base36Text h2.toNat ++ base36Text h1.toNat := ⟨_, _, rfl⟩
  obtain ⟨hunits1, hlength1⟩ := base36Text_spec h1.toNat_lt
  obtain ⟨hunits2, hlength2⟩ := base36Text_spec h2.toNat_lt
  rw [heq]
  constructor
  · intro c hc
    rcases mem_append.mp hc with hc | hc
    · exact hunits2 c hc
    · exact hunits1 c hc
  · rw [length_append]
    omega

theorem buildForeignResponsesItemId_eq (itemId : JsString) :
    buildForeignResponsesItemId itemId = js "fc_" ++ shortHash itemId := by
  have hlength := (shortHash_spec itemId).2
  have hthree : (js "fc_").length = 3 := rfl
  rw [buildForeignResponsesItemId]
  refine if_neg ?_
  rw [length_append]
  omega

theorem idWithin_buildForeignResponsesItemId (itemId : JsString) :
    IdWithin 64 (buildForeignResponsesItemId itemId) := by
  obtain ⟨hunits, hlength⟩ := shortHash_spec itemId
  have hopen : ∀ c ∈ js "fc_", isIdUnit c = true := forall_mem_of_all (by decide)
  have hthree : (js "fc_").length = 3 := rfl
  rw [buildForeignResponsesItemId_eq]
  refine ⟨by simp [hthree, ← length_eq_zero_iff], fun c hc => ?_, ?_⟩
  · exact (mem_append.mp hc).elim (hopen c) (hunits c)
  · rw [length_append]
    omega

theorem idWithin_fc : IdWithin 64 (normalizeIdPart (js "fc_" ++ part)) ∧
      js "fc" <+: normalizeIdPart (js "fc_" ++ part) := by
  have hprefix : js "fc" <+: normalizeIdPart (js "fc_" ++ part) := by
    rw [normalizeIdPart_eq]
    exact @Padding.prefix_trimFiller CodeUnit _ _ 0x5F (js "f")
      ((0x5F :: sanitizeId part).take 62) 0x63 (by decide)
  exact ⟨⟨fun hnil => absurd (hnil ▸ hprefix) (by decide), isIdUnit_normalizeIdPart _,
    length_normalizeIdPart_le _⟩, hprefix⟩

end

theorem idWithin_normalizeItemId (isForeignToolCall : Bool) (itemId : JsString) :
    IdWithin 64 (normalizeItemId isForeignToolCall itemId) ∧
      js "fc" <+: normalizeItemId isForeignToolCall itemId := by
  simp only [normalizeItemId]
  by_cases hfc : js "fc_" <+: (if isForeignToolCall = true then
    buildForeignResponsesItemId itemId else normalizeIdPart itemId)
  · rw [if_pos hfc]
    have hopen : js "fc" <+: js "fc_" := ⟨js "_", rfl⟩
    refine ⟨?_, hopen.trans hfc⟩
    cases isForeignToolCall with
    | true =>
      rw [if_pos rfl]
      exact idWithin_buildForeignResponsesItemId itemId
    | false =>
      rw [if_neg Bool.false_ne_true] at hfc ⊢
      exact ⟨fun hnil => absurd (hnil ▸ hfc) (by decide), isIdUnit_normalizeIdPart itemId,
        length_normalizeIdPart_le itemId⟩
  · rw [if_neg hfc]
    exact idWithin_fc _

theorem responsesIds_pair {callId itemId : JsString} (hcall : ∀ c ∈ callId, isIdUnit c = true)
    (hitem : IdWithin 64 itemId ∧ js "fc" <+: itemId) :
    callIdPart (callId ++ pipe :: itemId) = callId ∧
      (ResponsesIds (callId ++ pipe :: itemId) ↔ IdWithin 64 callId) := by
  have hsplit := splitOn_pipe (pipe_notMem_of_units hcall) (pipe_notMem_of_units hitem.1.units)
  have hfirst : callIdPart (callId ++ pipe :: itemId) = callId := by
    rw [callIdPart, hsplit]
    rfl
  have hsecond : itemIdPart (callId ++ pipe :: itemId) = some itemId := by
    rw [itemIdPart, hsplit]
    rfl
  refine ⟨hfirst, fun h => hfirst ▸ h.callId, fun h => ⟨hfirst.symm ▸ h, fun id hid => ?_⟩⟩
  rw [hsecond] at hid
  exact Option.some.inj hid ▸ hitem

theorem responsesIds_single {callId : JsString} (hcall : ∀ c ∈ callId, isIdUnit c = true) :
    callIdPart callId = callId ∧ (ResponsesIds callId ↔ IdWithin 64 callId) := by
  have hsplit := splitOn_eq_singleton (pipe_notMem_of_units hcall)
  have hfirst : callIdPart callId = callId := by
    rw [callIdPart, hsplit]
    rfl
  have hsecond : itemIdPart callId = none := by
    rw [itemIdPart, hsplit]
    rfl
  refine ⟨hfirst, fun h => hfirst ▸ h.callId, fun h => ⟨hfirst.symm ▸ h, fun id hid => ?_⟩⟩
  rw [hsecond] at hid
  cases hid

/-- The part of an id that becomes the call id of the Responses API. -/
def callIdSource (allowedToolCallProviders : List JsString) (model : Model) (id : JsString) :
    JsString :=
  if model.provider ∉ allowedToolCallProviders then id else callIdPart id

theorem normalizeResponsesToolCallId_spec (allowedToolCallProviders : List JsString)
    (id : JsString) (model : Model) (source : AssistantMessage) :
    callIdPart (normalizeResponsesToolCallId allowedToolCallProviders id model source) =
        normalizeIdPart (callIdSource allowedToolCallProviders model id) ∧
      (ResponsesIds (normalizeResponsesToolCallId allowedToolCallProviders id model source) ↔
        IdWithin 64 (normalizeIdPart (callIdSource allowedToolCallProviders model id))) := by
  rw [normalizeResponsesToolCallId, callIdSource]
  split
  · exact responsesIds_single (isIdUnit_normalizeIdPart id)
  · split
    · rename_i hpipe
      have hwhole : callIdPart id = id := by
        rw [callIdPart, splitOn_eq_singleton hpipe]
        rfl
      rw [hwhole]
      exact responsesIds_single (isIdUnit_normalizeIdPart id)
    · exact responsesIds_pair (isIdUnit_normalizeIdPart _) (idWithin_normalizeItemId _ _)

end AcademicAgent
