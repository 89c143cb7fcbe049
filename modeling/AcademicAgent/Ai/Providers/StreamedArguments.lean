import AcademicAgent.Ai.Providers.OpenAICompletions

/-!
# Arguments of streamed calls

The arguments of a tool call are read from the text that has arrived so far.
-/

namespace AcademicAgent

open List Option Completions Json

variable {text : JsString} {block : Completions.StreamingBlock} {more : List JsString}
  {partialArgs : Option JsString} {streamIndex : Option Nat}

def Json.IsObject (value : Json) : Prop := ∃ members, value.tree = .obj members

theorem Json.isObject_emptyObject : emptyObject.IsObject := ⟨[], rfl⟩

/-- The text itself or its repair, whichever is JSON first. -/
def jsonText (text : JsString) : Option JsString :=
  [text, repairJson text].find? fun t => (Json.parse t).isSome

section Reading

variable (partialParse : JsString → Option Json)

/-- The value that the parser of incomplete texts gives is an object or `null`. -/
def GivesObject (value : Json) : Prop := value.tree = .null ∨ value.IsObject

/-- A text is blank; or it is JSON, maybe after a repair, and starts with a brace; or it is no
JSON, and the parser of incomplete texts gives an object for it, for its repair where it throws
for the text, or throws for both. -/
def ReadsObject (text : JsString) : Prop :=
  trim text = [] ∨
    match jsonText text with
    | some t => (Json.skipWhitespace t).head? = some 0x7B
    | none => ∀ value, ((partialParse text).or (partialParse (repairJson text))) = some value →
        GivesObject value

theorem Json.parseScalar_ne_obj {s rest : JsString} {members : List (JsString × Json.Tree)} :
    parseScalar s ≠ some (.obj members, rest) := by
  intro h
  simp only [parseScalar, or_eq_some_iff, map_eq_some_iff] at h
  rcases h with ⟨_, _, h⟩ | ⟨_, ⟨_, _, h⟩ | ⟨_, ⟨_, _, h⟩ | ⟨_, _, _, h⟩⟩⟩ <;> cases h

theorem Json.parseValue_obj_iff {fuel : Nat} {s : JsString} {p : Json.Tree × JsString}
    (h : parseValue fuel s = some p) :
    (∃ members, p.1 = .obj members) ↔ (skipWhitespace s).head? = some 0x7B := by
  cases fuel with
  | zero => cases h
  | succ fuel =>
    rw [parseValue] at h
    split at h
    · cases h
    · rename_i c rest hskip
      rw [hskip, head?_cons, some_inj]
      split_ifs at h with hquote hbracket hbrace
      · obtain ⟨q, -, rfl⟩ := map_eq_some_iff.mp h
        subst hquote
        exact iff_of_false (by rintro ⟨members, hobj⟩; cases hobj) (by decide)
      · subst hbracket
        refine iff_of_false (fun hmembers => ?_) (by decide)
        obtain ⟨members, hobj⟩ := hmembers
        split at h
        · cases h
        · split_ifs at h
          · cases h
            cases hobj
          · obtain ⟨x, -, h⟩ := bind_eq_some_iff.mp h
            obtain ⟨xs, -, rfl⟩ := map_eq_some_iff.mp h
            cases hobj
      · refine iff_of_true ?_ hbrace
        split at h
        · cases h
        · split_ifs at h
          · cases h
            exact ⟨[], rfl⟩
          · obtain ⟨k, -, h⟩ := bind_eq_some_iff.mp h
            obtain ⟨x, -, h⟩ := bind_eq_some_iff.mp h
            obtain ⟨ms, -, rfl⟩ := map_eq_some_iff.mp h
            exact ⟨ms.1, rfl⟩
      · refine iff_of_false (fun hmembers => ?_) hbrace
        obtain ⟨members, hobj⟩ := hmembers
        obtain ⟨t, rest'⟩ := p
        obtain rfl : t = .obj members := hobj
        exact parseScalar_ne_obj h

theorem Json.isObject_parse_iff {value : Json} (h : parse text = some value) :
    value.IsObject ↔ (skipWhitespace text).head? = some 0x7B := by
  unfold parse at h
  split at h
  · rename_i t htree
    obtain rfl := some.inj h
    obtain ⟨p, hp, hend⟩ := bind_eq_some_iff.mp htree
    split at hend
    · obtain rfl := some.inj hend
      exact parseValue_obj_iff hp
    · cases hend
  · cases h

theorem parseJsonWithRepair_eq (syntaxError : JsString → JsString) (text : JsString) :
    (parseJsonWithRepair syntaxError text).toOption = (jsonText text).bind parse := by
  rw [parseJsonWithRepair, jsonText, find?_cons, find?_cons, find?_nil]
  cases htext : parse text with
  | some value =>
    dsimp only [isSome_some]
    rw [bind_some, htext]
    rfl
  | none =>
    dsimp only [isSome_none]
    by_cases hrepair : repairJson text = text
    · rw [if_neg (not_not.mpr hrepair), hrepair, htext]
      rfl
    · rw [if_pos hrepair]
      cases hvalue : parse (repairJson text) with
      | some value =>
        dsimp only [isSome_some]
        rw [bind_some, hvalue]
        rfl
      | none => rfl

theorem isObject_notNull_iff (value : Json) :
    ((notNull value).getD .emptyObject).IsObject ↔ GivesObject value := by
  rw [notNull, GivesObject]
  split
  · rename_i hnull
    exact iff_of_true isObject_emptyObject (.inl hnull)
  · rename_i hvalue
    exact ⟨.inr, fun h => h.resolve_left hvalue⟩

theorem parseStreamingJson_of_blank (h : trim text = []) :
    parseStreamingJson partialParse text = .emptyObject := if_pos (.inr h)

theorem parse_jsonText {t : JsString} (h : jsonText text = some t) :
    ∃ value, parse t = some value := by
  have hsome := find?_some h
  exact isSome_iff_exists.mp hsome

theorem parseStreamingJson_eq (h : trim text ≠ []) : parseStreamingJson partialParse text =
      match jsonText text with
      | some t => (parse t).getD .emptyObject
      | none => (((partialParse text).or (partialParse (repairJson text))).map fun value =>
          (notNull value).getD .emptyObject).getD .emptyObject := by
  have hne : text ≠ [] := by
    rintro rfl
    exact h rfl
  have hstrict := parseJsonWithRepair_eq id text
  rw [parseStreamingJson, if_neg (not_or.mpr ⟨hne, h⟩)]
  cases hjson : jsonText text with
  | some t =>
    obtain ⟨value, hvalue⟩ := parse_jsonText hjson
    rw [hjson, bind_some, hvalue] at hstrict
    dsimp only
    rw [hvalue, getD_some]
    cases hparse : parseJsonWithRepair id text with
    | ok result =>
      rw [hparse] at hstrict
      exact some.inj hstrict
    | error _ =>
      rw [hparse] at hstrict
      cases hstrict
  | none =>
    rw [hjson, bind_none] at hstrict
    cases hparse : parseJsonWithRepair id text with
    | ok result =>
      rw [hparse] at hstrict
      cases hstrict
    | error _ =>
      rw [parseIncomplete, parseIncomplete]
      cases partialParse text with
      | some value => rfl
      | none => rfl

theorem isObject_parseStreamingJson_iff (text : JsString) :
    (parseStreamingJson partialParse text).IsObject ↔ ReadsObject partialParse text := by
  rw [ReadsObject]
  by_cases hblank : trim text = []
  · rw [parseStreamingJson_of_blank partialParse hblank]
    exact iff_of_true isObject_emptyObject (.inl hblank)
  · rw [parseStreamingJson_eq partialParse hblank, or_iff_right hblank]
    cases hjson : jsonText text with
    | some t =>
      obtain ⟨value, hvalue⟩ := parse_jsonText hjson
      dsimp only
      rw [hvalue, getD_some]
      exact isObject_parse_iff hvalue
    | none =>
      cases (partialParse text).or (partialParse (repairJson text)) with
      | none => exact iff_of_true isObject_emptyObject fun value h => by cases h
      | some value =>
        rw [map_some, getD_some, isObject_notNull_iff]
        exact ⟨fun h value' heq => some.inj heq ▸ h, fun h => h value rfl⟩

theorem parseStreamingJson_of_object {value : Json} (h : parse text = some value)
    (hobject : value.IsObject) : parseStreamingJson partialParse text = value := by
  refine parseStreamingJson_of_parse partialParse (fun hblank => ?_) h
  have hhead := (isObject_parse_iff h).mp hobject
  have hbrace : 0x7B ∈ text :=
    (dropWhile_sublist _).mem (mem_of_head? hhead)
  exact absurd (mem_isWhitespace_of_trim hblank _ hbrace) (by decide)

end Reading

namespace Completions

/-- The texts of the argument fragments of a chunk. -/
def argumentFragments (chunk : Chunk) : List JsString :=
  match chunk.choice.bind Choice.delta with
  | some delta => delta.toolCalls.map fun toolCall => toolCall.arguments.getD []
  | none => []

section Stream

variable (settings : StreamSettings)

/-- A block of a call has the arguments that are read from some of the fragments. -/
def ReadFrom (fragments : List JsString) (block : AssistantBlock) : Prop :=
  ∀ call, block = .toolCall call → ∃ parts : List JsString, parts.Sublist fragments ∧
    call.arguments = parseStreamingJson settings.parseIncomplete parts.flatten

/-- The current block of a call has the arguments that are read from its text, which is made of
some of the fragments. -/
def ReadsOn (fragments : List JsString) (block : StreamingBlock) : Prop :=
  ∀ call, block.content = .toolCall call → ∃ parts : List JsString, parts.Sublist fragments ∧
    block.partialArgs = some parts.flatten ∧
    call.arguments = parseStreamingJson settings.parseIncomplete parts.flatten

/-- All calls of a state have arguments that are read from fragments. -/
structure Reading (fragments : List JsString) (s : StreamState) : Prop where
  finished : ∀ block ∈ s.finished, ReadFrom settings fragments block.content
  current : ∀ block ∈ s.currentBlock, ReadsOn settings fragments block

variable {settings} {fragments : List JsString} {s : StreamState}

theorem ReadsOn.readFrom (h : ReadsOn settings fragments block) :
    ReadFrom settings fragments block.content := by
  intro call hcall
  obtain ⟨parts, hparts, -, harguments⟩ := h call hcall
  exact ⟨parts, hparts, harguments⟩

theorem ReadFrom.mono {block : AssistantBlock} (h : ReadFrom settings fragments block)
    (hmore : fragments.Sublist more) : ReadFrom settings more block := by
  intro call hcall
  obtain ⟨parts, hparts, harguments⟩ := h call hcall
  exact ⟨parts, hparts.trans hmore, harguments⟩

theorem ReadsOn.mono (h : ReadsOn settings fragments block) (hmore : fragments.Sublist more) :
    ReadsOn settings more block := by
  intro call hcall
  obtain ⟨parts, hparts, hargs⟩ := h call hcall
  exact ⟨parts, hparts.trans hmore, hargs⟩

theorem Reading.mono (h : Reading settings fragments s) (hmore : fragments.Sublist more) :
    Reading settings more s :=
  ⟨fun block hblock => (h.finished block hblock).mono hmore,
    fun block hblock => (h.current block hblock).mono hmore⟩

theorem ReadsOn.finish (h : ReadsOn settings fragments block) :
    ReadFrom settings fragments (finishBlock settings block).1.content := by
  obtain ⟨content, partialArgs, streamIndex⟩ := block
  cases content with
  | text _ | thinking _ => exact fun call hcall => by cases hcall
  | toolCall call =>
    intro call' hcall
    obtain rfl := AssistantBlock.toolCall.inj hcall
    obtain ⟨parts, hparts, htext, -⟩ := h call rfl
    dsimp only at htext
    exact ⟨parts, hparts, by rw [htext]; rfl⟩

theorem Reading.openBlock (h : Reading settings fragments s)
    (hblock : ReadsOn settings fragments block) (kind : UpdateKind) :
    Reading settings fragments (openBlock settings s block kind) := by
  rw [Completions.openBlock]
  cases hcurrent : s.currentBlock with
  | none => exact ⟨h.finished, fun _ hb => some.inj hb ▸ hblock⟩
  | some current =>
    refine ⟨fun b hb => ?_, fun _ hb => some.inj hb ▸ hblock⟩
    rcases mem_append.mp hb with hb | hb
    · exact h.finished b hb
    · rw [mem_singleton.mp hb]
      exact (h.current current hcurrent).finish

theorem Reading.updateCurrent (h : Reading settings fragments s)
    (hblock : ReadsOn settings fragments block) (kind : UpdateKind) :
    Reading settings fragments (updateCurrent s block kind) :=
  ⟨h.finished, fun _ hb => some.inj hb ▸ hblock⟩

theorem readsOn_text {c : TextContent} :
    ReadsOn settings fragments ⟨.text c, partialArgs, streamIndex⟩ := fun _ hcall => by cases hcall

theorem readsOn_thinking {c : ThinkingContent} :
    ReadsOn settings fragments ⟨.thinking c, partialArgs, streamIndex⟩ :=
  fun _ hcall => by cases hcall

theorem Reading.appendText (h : Reading settings fragments s) (text : JsString) :
    Reading settings fragments (appendText settings s text) := by
  unfold Completions.appendText
  split
  · exact h.updateCurrent readsOn_text _
  · exact (h.openBlock readsOn_text _).updateCurrent readsOn_text _

theorem Reading.appendThinking (h : Reading settings fragments s) (field delta : JsString) :
    Reading settings fragments (appendThinking settings s field delta) := by
  unfold Completions.appendThinking
  split
  · exact h.updateCurrent readsOn_thinking _
  · exact (h.openBlock readsOn_thinking _).updateCurrent readsOn_thinking _

theorem readsOn_startedCall (toolCall : ToolCallDelta) :
    ReadsOn settings fragments (startedCall toolCall) := by
  intro call hcall
  obtain rfl := AssistantBlock.toolCall.inj hcall
  exact ⟨[], nil_sublist _, rfl, (parseStreamingJson_nil _).symm⟩

theorem Reading.enterToolCall (h : Reading settings fragments s) (toolCall : ToolCallDelta) :
    Reading settings fragments (enterToolCall settings s toolCall) := by
  unfold Completions.enterToolCall
  split
  · split
    · exact h
    · exact h.openBlock (readsOn_startedCall toolCall) _
  · exact h.openBlock (readsOn_startedCall toolCall) _

theorem ReadsOn.addFragment {block : ToolCall}
    (h : ReadsOn settings fragments ⟨.toolCall block, partialArgs, streamIndex⟩)
    (toolCall : ToolCallDelta) : ReadsOn settings (fragments ++ [toolCall.arguments.getD []])
      (Completions.addFragment settings toolCall block partialArgs streamIndex) := by
  intro call hcall
  obtain rfl := AssistantBlock.toolCall.inj hcall
  obtain ⟨parts, hparts, htext, harguments⟩ := h block rfl
  dsimp only at htext
  refine ⟨parts ++ [toolCall.arguments.getD []], hparts.append_right _, ?_, ?_⟩
  · rw [flatten_append, flatten_singleton]
    simp only [Completions.addFragment, htext, getD_some]
  · rw [flatten_append, flatten_singleton]
    dsimp only
    rw [htext, getD_some]
    split
    · rename_i hempty
      rw [hempty, append_nil]
      exact harguments
    · rfl

theorem Reading.appendToolCall (h : Reading settings fragments s) (toolCall : ToolCallDelta) :
    Reading settings (fragments ++ [toolCall.arguments.getD []])
      (appendToolCall settings s toolCall) := by
  have hentered := h.enterToolCall toolCall
  have hmore : fragments.Sublist (fragments ++ [toolCall.arguments.getD []]) :=
    sublist_append_left _ _
  unfold Completions.appendToolCall
  dsimp only
  split
  · rename_i block partialArgs streamIndex hcurrent
    exact (hentered.mono hmore).updateCurrent ((hentered.current _ hcurrent).addFragment toolCall) _
  · exact hentered.mono hmore

theorem signBlock_toolCall {call : ToolCall} (h : (signBlock text block).content = .toolCall call) :
    ∃ signed, block.content = .toolCall signed ∧ call.arguments = signed.arguments ∧
      (signBlock text block).partialArgs = block.partialArgs := by
  obtain ⟨content, partialArgs, streamIndex⟩ := block
  cases content with
  | text _ => cases h
  | thinking _ => cases h
  | toolCall signed =>
    obtain rfl := AssistantBlock.toolCall.inj h
    exact ⟨signed, rfl, rfl, rfl⟩

theorem ReadFrom.signBlock (h : ReadFrom settings fragments block.content) (text : JsString) :
    ReadFrom settings fragments (signBlock text block).content := by
  intro call hcall
  obtain ⟨signed, hsigned, harguments, -⟩ := signBlock_toolCall hcall
  rw [harguments]
  exact h signed hsigned

theorem ReadsOn.signBlock (h : ReadsOn settings fragments block) (text : JsString) :
    ReadsOn settings fragments (signBlock text block) := by
  intro call hcall
  obtain ⟨signed, hsigned, harguments, htext⟩ := signBlock_toolCall hcall
  rw [harguments, htext]
  exact h signed hsigned

theorem mem_modifyFirst {p : StreamingBlock → Bool} {f : StreamingBlock → StreamingBlock}
    {blocks : List StreamingBlock} (h : block ∈ modifyFirst p f blocks) :
    ∃ b ∈ blocks, block = b ∨ block = f b := by
  induction blocks with
  | nil => cases h
  | cons first blocks ih =>
    rw [modifyFirst] at h
    split at h
    · rcases mem_cons.mp h with rfl | h
      · exact ⟨first, mem_cons_self, .inr rfl⟩
      · exact ⟨block, mem_cons_of_mem _ h, .inl rfl⟩
    · rcases mem_cons.mp h with rfl | h
      · exact ⟨block, mem_cons_self, .inl rfl⟩
      · obtain ⟨b, hb, heq⟩ := ih h
        exact ⟨b, mem_cons_of_mem _ hb, heq⟩

theorem Reading.applyReasoningDetail (h : Reading settings fragments s) (detail : ReasoningDetail) :
    Reading settings fragments (applyReasoningDetail s detail) := by
  unfold Completions.applyReasoningDetail
  split
  · split
    · split
      · refine ⟨fun block hblock => ?_, h.current⟩
        obtain ⟨b, hb, rfl | rfl⟩ := mem_modifyFirst hblock
        · exact h.finished _ hb
        · exact (h.finished b hb).signBlock _
      · refine ⟨h.finished, fun block hblock => ?_⟩
        obtain ⟨b, hb, rfl⟩ := map_eq_some_iff.mp hblock
        split
        · exact (h.current b hb).signBlock _
        · exact h.current b hb
    · exact h
  · exact h

theorem Reading.foldl_appendToolCall (toolCalls : List ToolCallDelta)
    (h : Reading settings fragments s) :
    Reading settings (fragments ++ toolCalls.map fun toolCall => toolCall.arguments.getD [])
      (toolCalls.foldl (Completions.appendToolCall settings) s) := by
  induction toolCalls generalizing fragments s with
  | nil =>
    rw [map_nil, append_nil]
    exact h
  | cons toolCall toolCalls ih =>
    have hstep := ih (h.appendToolCall toolCall)
    rw [append_assoc] at hstep
    exact hstep

theorem Reading.foldl_applyReasoningDetail (details : List ReasoningDetail)
    (h : Reading settings fragments s) :
    Reading settings fragments (details.foldl Completions.applyReasoningDetail s) := by
  induction details generalizing s with
  | nil => exact h
  | cons detail details ih => exact ih (h.applyReasoningDetail detail)

theorem Reading.applyDelta (h : Reading settings fragments s) (delta : ChunkDelta) :
    Reading settings (fragments ++ delta.toolCalls.map fun toolCall => toolCall.arguments.getD [])
      (applyDelta settings s delta) := by
  unfold Completions.applyDelta
  refine (Reading.foldl_appendToolCall _ ?_).foldl_applyReasoningDetail _
  split
  · refine Reading.appendThinking ?_ _ _
    split
    · exact h.appendText _
    · exact h
  · split
    · exact h.appendText _
    · exact h

theorem Reading.of_blocks_eq {t : StreamState} (h : Reading settings fragments s)
    (hfinished : t.finished = s.finished) (hcurrent : t.currentBlock = s.currentBlock) :
    Reading settings fragments t :=
  ⟨hfinished ▸ h.finished, hcurrent ▸ h.current⟩

theorem applyMeta_blocks (settings : StreamSettings) (s : StreamState) (chunk : Chunk) :
    (applyMeta settings s chunk).finished = s.finished ∧
      (applyMeta settings s chunk).currentBlock = s.currentBlock := by
  unfold applyMeta
  split <;> split <;> split <;> try split
  all_goals exact ⟨rfl, rfl⟩

theorem Reading.streamChunk (h : Reading settings fragments s) (chunk : Chunk) :
    Reading settings (fragments ++ argumentFragments chunk)
      (streamChunk settings s chunk) := by
  have hmeta : Reading settings fragments (applyMeta settings s chunk) :=
    h.of_blocks_eq (applyMeta_blocks settings s chunk).1 (applyMeta_blocks settings s chunk).2
  rw [Completions.streamChunk, argumentFragments]
  cases chunk.choice.bind Choice.delta with
  | some delta => exact hmeta.applyDelta delta
  | none => exact hmeta.mono (sublist_append_left _ _)

theorem Reading.foldl_streamChunk (chunks : List Chunk) (h : Reading settings fragments s) :
    Reading settings (fragments ++ chunks.flatMap argumentFragments)
      (chunks.foldl (Completions.streamChunk settings) s) := by
  induction chunks generalizing fragments s with
  | nil =>
    rw [flatMap_nil, append_nil]
    exact h
  | cons chunk chunks ih =>
    have hstep := ih (h.streamChunk chunk)
    rw [append_assoc] at hstep
    exact hstep

theorem Reading.initial : Reading settings [] StreamState.initial :=
  ⟨fun _ hblock => absurd hblock not_mem_nil, fun _ hblock => nomatch hblock⟩

theorem Reading.content (h : Reading settings fragments s) :
    ∀ block ∈ s.content, ReadFrom settings fragments block.content := by
  intro block hblock
  rcases mem_append.mp hblock with hfinished | hcurrent
  · exact h.finished block hfinished
  · exact (h.current block (mem_toList.mp hcurrent)).readFrom

theorem Reading.finishStream (h : Reading settings fragments s) :
    ∀ block ∈ (finishStream settings s).content,
      ReadFrom settings fragments block.content := by
  rw [Completions.finishStream]
  cases hcurrent : s.currentBlock with
  | none => exact h.content
  | some current =>
    intro block hblock
    rcases mem_append.mp hblock with hfinished | hlast
    · exact h.finished block hfinished
    · rw [mem_singleton.mp hlast]
      exact (h.current current hcurrent).finish

end Stream

end Completions

end AcademicAgent
