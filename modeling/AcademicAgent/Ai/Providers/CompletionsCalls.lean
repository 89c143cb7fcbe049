import AcademicAgent.Ai.Providers.OpenAICompletions
import AcademicAgent.Core.Groups
import Mathlib.Data.List.Nodup
import Mathlib.Data.List.Perm.Subperm

/-!
# Calls of a chat completion

What the chunks deliver is a sequence of pieces: texts, reasoning, fragments of calls.
-/

namespace AcademicAgent

open List AssistantBlock
open Option (getD_some map_none some.inj some.injEq toList_none)

namespace Completions

inductive Piece where
  | text (text : JsString)
  | thinking (field thinking : JsString)
  | fragment (toolCall : ToolCallDelta)
  deriving DecidableEq

inductive PieceKey where
  | text
  | thinking
  | call (index : Option Nat)
  deriving DecidableEq

variable {block : StreamingBlock} {items : List Piece}

variable {s : StreamState} {toolCall : ToolCallDelta}

namespace Piece

def key : Piece → PieceKey
  | text _ => .text
  | thinking _ _ => .thinking
  | fragment toolCall => .call toolCall.index

def text? : Piece → Option JsString
  | .text content => some content
  | _ => none

def thinking? : Piece → Option JsString
  | .thinking _ content => some content
  | _ => none

def fragment? : Piece → Option ToolCallDelta
  | fragment toolCall => some toolCall
  | _ => none

def isProse : Piece → Bool
  | text _ | thinking _ _ => true
  | fragment _ => false

end Piece

/-- The pieces of a delta, in the order in which they are taken. -/
def deltaPieces (delta : ChunkDelta) : List Piece :=
  ((nonEmpty delta.content).map Piece.text).toList ++
    (((foundReasoning delta).map fun p => Piece.thinking p.1 p.2).toList ++
      delta.toolCalls.map Piece.fragment)

def pieces (chunks : List Chunk) : List Piece :=
  chunks.flatMap fun chunk =>
    match chunk.choice.bind Choice.delta with
    | some delta => deltaPieces delta
    | none => []

def fragmentsOf (items : List Piece) (i : Nat) : List ToolCallDelta :=
  (items.filterMap Piece.fragment?).filter fun toolCall => toolCall.index = some i

def firstGiven (names : List (Option JsString)) : JsString :=
  (names.findSome? nonEmpty).getD []

section Assembly

variable (settings : StreamSettings)

/-- A call made of its fragments: the first id and name given, and the parsed
concatenation of the arguments. -/
structure CallOf (fragments : List ToolCallDelta) (call : ToolCall) : Prop where
  id : call.id = firstGiven (fragments.map ToolCallDelta.id)
  name : call.name = firstGiven (fragments.map ToolCallDelta.name)
  arguments : call.arguments = parseStreamingJson settings.parseIncomplete
    (fragments.map fun fragment => fragment.arguments.getD []).flatten

def BlockOf (g : PieceKey × List Piece) (block : AssistantBlock) : Prop :=
  match g.1 with
  | .text => block = .text { text := (g.2.filterMap Piece.text?).flatten }
  | .thinking => ∃ signature,
      block = .thinking
        { thinking := (g.2.filterMap Piece.thinking?).flatten, thinkingSignature := signature }
  | .call _ => ∃ call, block = .toolCall call ∧ CallOf settings (g.2.filterMap Piece.fragment?) call

def isProseBlock : AssistantBlock → Bool
  | .text _ | .thinking _ => true
  | .toolCall _ => false

/-- The message has one call for every index, made of its fragments; its text and thinking
blocks hold all texts and all reasoning in order. -/
structure CallsAssembled (items : List Piece) (content : List AssistantBlock) : Prop where
  calls : ∃ order : List Nat, order.Nodup ∧
    (∀ i, i ∈ order ↔ ∃ toolCall, Piece.fragment toolCall ∈ items ∧ toolCall.index = some i) ∧
      Forall₂ (fun i call => CallOf settings (fragmentsOf items i) call) order
        (content.filterMap AssistantBlock.toolCall?)
  prose : ∃ groups : List (PieceKey × List Piece),
    (groups.map Prod.snd).flatten = items.filter Piece.isProse ∧
      Forall₂ (BlockOf settings) groups (content.filter isProseBlock)

/-- The fragments of every index stand together: nothing arrives for another block
between two of them. -/
def CallsContiguous (items : List Piece) : Prop :=
  ∀ i : Nat, Together Piece.key items (.call (some i))

/-- A block that is current, with its scratch fields. -/
def OpenOf (g : PieceKey × List Piece) (block : StreamingBlock) : Prop :=
  BlockOf settings g block.content ∧
    match g.1 with
    | .text | .thinking => block.partialArgs = none ∧ block.streamIndex = none
    | .call index =>
      block.streamIndex = index ∧ block.partialArgs = some
        ((g.2.filterMap Piece.fragment?).map fun fragment => fragment.arguments.getD []).flatten

/-- The blocks of the message are the runs of the pieces so far. -/
structure Assembled (items : List Piece) (s : StreamState) : Prop where
  runs : ∃ groups last, RunsOf Piece.key (groups ++ last.toList) items ∧
    Forall₂ (fun g block => BlockOf settings g block.content ∧ block.partialArgs = none ∧
      block.streamIndex = none) groups s.finished ∧
    Option.Rel (OpenOf settings) last s.currentBlock
  first : s.currentBlock = none → s.finished = []

theorem firstGiven_append (names : List (Option JsString)) (name : Option JsString) :
    firstGiven (names ++ [name]) =
      if firstGiven names = [] then name.getD [] else firstGiven names := by
  have hgiven (name : Option JsString) : (nonEmpty name).getD [] = name.getD [] := by
    cases name with
    | none => rfl
    | some s =>
      rw [nonEmpty]
      split
      · rename_i h
        rw [h]
        rfl
      · rfl
  rw [firstGiven, firstGiven, findSome?_append]
  cases hfound : names.findSome? nonEmpty with
  | none =>
    rw [Option.none_or, Option.getD_none, if_pos rfl, findSome?_cons, findSome?_nil]
    rw [← hgiven name]
    cases nonEmpty name with
    | none => rfl
    | some s => rfl
  | some s =>
    obtain ⟨x, -, hx⟩ := exists_of_findSome?_eq_some hfound
    have hne : s ≠ [] := by
      rintro rfl
      cases x with
      | none => contradiction
      | some t =>
        rw [nonEmpty] at hx
        split at hx
        · contradiction
        · rename_i ht
          exact ht (some.inj hx)
    rw [Option.some_or, getD_some, if_neg hne]

theorem OpenOf.finish {g : PieceKey × List Piece} (h : OpenOf settings g block) :
    BlockOf settings g (finishBlock settings block).1.content ∧
      (finishBlock settings block).1.partialArgs = none ∧
        (finishBlock settings block).1.streamIndex = none := by
  obtain ⟨key, run⟩ := g
  obtain ⟨content, partialArgs, streamIndex⟩ := block
  obtain ⟨hblock, hscratch⟩ := h
  cases key with
  | text =>
    have hcontent : content = _ := hblock
    subst hcontent
    exact ⟨hblock, hscratch.1, hscratch.2⟩
  | thinking =>
    obtain ⟨signature, hcontent⟩ := hblock
    have hcontent : content = _ := hcontent
    subst hcontent
    exact ⟨⟨signature, rfl⟩, hscratch.1, hscratch.2⟩
  | call index =>
    obtain ⟨call, hcontent, hcall⟩ := hblock
    have hcontent : content = _ := hcontent
    subst hcontent
    refine ⟨⟨_, rfl, hcall.id, hcall.name, ?_⟩, rfl, rfl⟩
    have hargs : partialArgs = _ := hscratch.2
    rw [hargs]
    rfl

theorem Assembled.update (h : Assembled settings items s) {x : Piece} {current : StreamingBlock}
    (hcurrent : s.currentBlock = some current)
    (hsame : ∀ g, OpenOf settings g current → g.1 = x.key) {kind : UpdateKind}
    (hopen : ∀ run, OpenOf settings (x.key, run) current → OpenOf settings (x.key, run ++ [x]) block)
    : Assembled settings (items ++ [x]) (updateCurrent s block kind) := by
  obtain ⟨groups, last, hruns, hfinished, hlast⟩ := h.runs
  rw [hcurrent] at hlast
  cases hlast with
  | some hg =>
    rename_i g
    obtain ⟨k, run⟩ := g
    have hk : k = x.key := hsame (k, run) hg
    subst hk
    refine ⟨⟨groups, some (x.key, run ++ [x]), ?_, hfinished, Option.Rel.some (hopen run hg)⟩,
      fun hnone => nomatch hnone⟩
    exact hruns.extend rfl

theorem Assembled.openBlock (h : Assembled settings items s) {x : Piece}
    (hother : ∀ current, s.currentBlock = some current → ∀ g, OpenOf settings g current → g.1 ≠ x.key)
    {started : StreamingBlock} {first kind : UpdateKind}
    (hopen : OpenOf settings (x.key, [x]) block) : Assembled settings (items ++ [x])
      (updateCurrent (AcademicAgent.Completions.openBlock settings s started first) block kind) := by
  obtain ⟨groups, last, hruns, hfinished, hlast⟩ := h.runs
  unfold AcademicAgent.Completions.openBlock
  cases hcurrent : s.currentBlock with
  | none =>
    rw [hcurrent] at hlast
    cases hlast
    rw [toList_none, append_nil] at hruns
    refine ⟨⟨groups, some (x.key, [x]), ?_, hfinished, Option.Rel.some hopen⟩,
      fun hnone => nomatch hnone⟩
    rw [h.first hcurrent, forall₂_nil_right_iff] at hfinished
    apply hruns.concat
    intro g hg
    rw [hfinished] at hg
    contradiction
  | some current =>
    rw [hcurrent] at hlast
    cases hlast with
    | some hg =>
      rename_i g
      refine ⟨⟨groups ++ [g], some (x.key, [x]), ?_, ?_, Option.Rel.some hopen⟩,
        fun hnone => nomatch hnone⟩
      · apply hruns.concat
        intro g' hg'
        rw [Option.toList_some, getLast?_concat, some.injEq] at hg'
        rw [← hg']
        exact hother current hcurrent g hg
      · exact rel_append hfinished (List.Forall₂.cons (hg.finish settings) List.Forall₂.nil)

section

variable {items : List Piece}

theorem Assembled.appendText (h : Assembled settings items s) (text : JsString) :
    Assembled settings (items ++ [.text text]) (appendText settings s text) := by
  unfold Completions.appendText
  split
  · rename_i block partialArgs streamIndex hcurrent
    apply h.update settings hcurrent
    · rintro ⟨k, run⟩ ⟨hblock, -⟩
      cases k with
      | text => rfl
      | thinking =>
        obtain ⟨signature, heq⟩ := hblock
        contradiction
      | call index =>
        obtain ⟨call, heq, -⟩ := hblock
        contradiction
    · rintro run ⟨hblock, hscratch⟩
      have hblock : AssistantBlock.text block =
          .text { text := (run.filterMap Piece.text?).flatten } := hblock
      rw [AssistantBlock.text.injEq] at hblock
      subst hblock
      refine ⟨?_, hscratch⟩
      show AssistantBlock.text _ = .text _
      simp only [filterMap_append, flatten_append, filterMap_cons, Piece.text?,
        filterMap_nil, flatten_cons, flatten_nil, append_nil]
  · rename_i hother
    apply h.openBlock settings
    · rintro ⟨content, partialArgs, streamIndex⟩ hcurrent ⟨k, run⟩ ⟨hblock, -⟩ hk
      have hk : k = .text := hk
      subst hk
      have hblock : content = _ := hblock
      subst hblock
      exact hother _ _ _ hcurrent
    · refine ⟨?_, rfl, rfl⟩
      show AssistantBlock.text _ = .text _
      simp only [filterMap_cons, Piece.text?, filterMap_nil, flatten_cons, flatten_nil, append_nil]

theorem Assembled.appendThinking (h : Assembled settings items s) (field thinking : JsString) :
    Assembled settings (items ++ [.thinking field thinking])
      (appendThinking settings s field thinking) := by
  unfold Completions.appendThinking
  split
  · rename_i block partialArgs streamIndex hcurrent
    apply h.update settings hcurrent
    · rintro ⟨k, run⟩ ⟨hblock, -⟩
      cases k with
      | text => exact nomatch (show AssistantBlock.thinking _ = .text _ from hblock)
      | thinking => rfl
      | call index =>
        obtain ⟨call, heq, -⟩ := hblock
        contradiction
    · rintro run ⟨⟨signature, hblock⟩, hscratch⟩
      have hblock : AssistantBlock.thinking block = .thinking
          { thinking := (run.filterMap Piece.thinking?).flatten
            thinkingSignature := signature } := hblock
      rw [AssistantBlock.thinking.injEq] at hblock
      subst hblock
      refine ⟨⟨signature, ?_⟩, hscratch⟩
      simp only [filterMap_append, flatten_append, filterMap_cons, Piece.thinking?,
        filterMap_nil, flatten_cons, flatten_nil, append_nil]
  · rename_i hother
    apply h.openBlock settings
    · rintro ⟨content, partialArgs, streamIndex⟩ hcurrent ⟨k, run⟩ ⟨hblock, -⟩ hk
      have hk : k = .thinking := hk
      subst hk
      obtain ⟨signature, hblock⟩ := hblock
      have hblock : content = _ := hblock
      subst hblock
      exact hother _ _ _ hcurrent
    · refine ⟨⟨some field, ?_⟩, rfl, rfl⟩
      simp only [filterMap_cons, Piece.thinking?, filterMap_nil, flatten_cons,
        flatten_nil, append_nil]

theorem openOf_addFragment {run : List Piece} {block : ToolCall} {partialArgs : Option JsString}
    {streamIndex : Option Nat}
    (h : OpenOf settings (.call toolCall.index, run) ⟨.toolCall block, partialArgs, streamIndex⟩) :
    OpenOf settings (.call toolCall.index, run ++ [.fragment toolCall])
      (addFragment settings toolCall block partialArgs streamIndex) := by
  obtain ⟨⟨call, hblock, hcall⟩, hindex, hargs⟩ := h
  have hblock : AssistantBlock.toolCall block = .toolCall call := hblock
  rw [AssistantBlock.toolCall.injEq] at hblock
  subst hblock
  have hindex : streamIndex = toolCall.index := hindex
  have hargs : partialArgs = _ := hargs
  have hlast : (run ++ [Piece.fragment toolCall]).filterMap Piece.fragment? =
      run.filterMap Piece.fragment? ++ [toolCall] := filterMap_append ..
  refine ⟨⟨_, rfl, ?_, ?_, ?_⟩, ?_, ?_⟩
  · rw [hlast, map_append, map_singleton, firstGiven_append, ← hcall.id]
  · rw [hlast, map_append, map_singleton, firstGiven_append, ← hcall.name]
  · rw [hlast, map_append, map_singleton, flatten_append, flatten_singleton]
    dsimp only
    rw [hargs, getD_some, hcall.arguments]
    split
    · rename_i hempty
      rw [hempty, append_nil]
    · rfl
  · show streamIndex.or toolCall.index = toolCall.index
    rw [hindex, Option.or_self]
  · show some (partialArgs.getD [] ++ toolCall.arguments.getD []) = _
    rw [hlast, map_append, map_singleton, flatten_append, flatten_singleton,
      hargs, getD_some]

theorem openOf_startedCall (toolCall : ToolCallDelta) :
    OpenOf settings (.call toolCall.index, [.fragment toolCall]) (addFragment settings toolCall
        { id := toolCall.id.getD [], name := toolCall.name.getD [], arguments := .emptyObject }
        (some []) toolCall.index) := by
  have hgiven (name : Option JsString) :
      firstGiven [name] = if name.getD [] = [] then name.getD [] else name.getD [] := by
    rw [ite_self]
    exact (firstGiven_append [] name).trans (if_pos rfl)
  refine ⟨⟨_, rfl, (hgiven _).symm, (hgiven _).symm, ?_⟩, Option.or_self, ?_⟩
  · show (if toolCall.arguments.getD [] = [] then _ else _) = _
    simp only [filterMap_cons, Piece.fragment?, filterMap_nil, map_cons,
      map_nil, flatten_cons, flatten_nil, append_nil, getD_some,
      nil_append]
    split
    · rename_i hempty
      rw [hempty, parseStreamingJson_nil]
    · rfl
  · simp only [addFragment, filterMap_cons, Piece.fragment?, filterMap_nil,
      map_cons, map_nil, flatten_cons, flatten_nil, append_nil,
      getD_some, nil_append]

theorem openBlock_currentBlock (s : StreamState) (block : StreamingBlock) (kind : UpdateKind) :
    (Completions.openBlock settings s block kind).currentBlock = some block := by
  unfold Completions.openBlock
  split
  · rfl
  · rfl

theorem OpenOf.call {index : Option Nat} {run : List Piece} {current : StreamingBlock}
    (h : OpenOf settings (.call index, run) current) :
    ∃ block partialArgs, current = ⟨.toolCall block, partialArgs, index⟩ := by
  obtain ⟨content, partialArgs, streamIndex⟩ := current
  obtain ⟨⟨call, hblock, -⟩, hstream, -⟩ := h
  have hblock : content = .toolCall call := hblock
  have hstream : streamIndex = index := hstream
  rw [hblock, hstream]
  exact ⟨call, partialArgs, rfl⟩

theorem enterToolCall_cases (s : StreamState) {i : Nat} (hindex : toolCall.index = some i) :
    (∃ block partialArgs, s.currentBlock = some ⟨.toolCall block, partialArgs, some i⟩ ∧
        enterToolCall settings s toolCall = s) ∨
      ((∀ block partialArgs, s.currentBlock ≠ some ⟨.toolCall block, partialArgs, some i⟩) ∧
        enterToolCall settings s toolCall =
          Completions.openBlock settings s (startedCall toolCall) .toolcallStart) := by
  unfold enterToolCall
  split
  · rename_i block partialArgs streamIndex hcurrent
    have hsame : sameToolCall toolCall block streamIndex = decide (streamIndex = some i) := by
      rw [sameToolCall, hindex]
    by_cases hstream : streamIndex = some i
    · rw [hsame, if_pos (decide_eq_true hstream)]
      subst hstream
      exact .inl ⟨block, partialArgs, hcurrent, rfl⟩
    · rw [hsame, if_neg (by simpa only [decide_eq_true_eq] using hstream)]
      refine .inr ⟨?_, rfl⟩
      intro other otherArgs hother
      rw [hcurrent, some.injEq, StreamingBlock.mk.injEq] at hother
      exact hstream hother.2.2
  · rename_i hother
    exact .inr ⟨fun block partialArgs => hother block partialArgs (some i), rfl⟩

theorem Assembled.appendToolCall (h : Assembled settings items s) {i : Nat}
    (hindex : toolCall.index = some i) :
    Assembled settings (items ++ [.fragment toolCall]) (appendToolCall settings s toolCall) := by
  have hkey : (Piece.fragment toolCall).key = .call (some i) := by
    rw [Piece.key, hindex]
  unfold Completions.appendToolCall
  dsimp only
  rcases enterToolCall_cases settings s hindex with ⟨block, partialArgs, hcurrent, henter⟩ |
    ⟨hother, henter⟩
  · rw [henter, hcurrent]
    apply h.update settings hcurrent
    · rintro ⟨k, run⟩ ⟨hblock, hscratch⟩
      rw [hkey]
      cases k with
      | text => exact nomatch (show AssistantBlock.toolCall _ = .text _ from hblock)
      | thinking =>
        obtain ⟨signature, heq⟩ := hblock
        contradiction
      | call index =>
        have hk : some i = index := hscratch.1
        rw [hk]
    · intro run hopen
      rw [hkey, ← hindex] at hopen ⊢
      exact openOf_addFragment settings hopen
  · rw [henter, openBlock_currentBlock]
    apply h.openBlock settings
    · rintro current hcurrent ⟨k, run⟩ hopen hk
      have hk : k = .call (some i) := hk.trans hkey
      subst hk
      obtain ⟨block, partialArgs, heq⟩ := hopen.call settings
      rw [heq] at hcurrent
      exact hother block partialArgs hcurrent
    · exact openOf_startedCall settings toolCall

theorem blockOf_signBlock {g : PieceKey × List Piece} (h : BlockOf settings g block.content)
    (text : JsString) : BlockOf settings g (signBlock text block).content ∧
      (signBlock text block).partialArgs = block.partialArgs ∧
        (signBlock text block).streamIndex = block.streamIndex := by
  obtain ⟨k, run⟩ := g
  obtain ⟨content, partialArgs, streamIndex⟩ := block
  cases content with
  | text c | thinking c => exact ⟨h, rfl, rfl⟩
  | toolCall call =>
    refine ⟨?_, rfl, rfl⟩
    cases k with
    | text => exact nomatch (show toolCall _ = .text _ from h)
    | thinking =>
      obtain ⟨signature, heq⟩ := h
      contradiction
    | call index =>
      obtain ⟨other, heq, hcall⟩ := h
      have heq : toolCall call = .toolCall other := heq
      rw [toolCall.injEq] at heq
      subst heq
      exact ⟨_, rfl, hcall.id, hcall.name, hcall.arguments⟩

theorem forall₂_modifyFirst {R : PieceKey × List Piece → StreamingBlock → Prop}
    {groups : List (PieceKey × List Piece)} {blocks : List StreamingBlock}
    (h : Forall₂ R groups blocks) (p : StreamingBlock → Bool)
    {f : StreamingBlock → StreamingBlock} (hf : ∀ g block, R g block → R g (f block)) :
    Forall₂ R groups (modifyFirst p f blocks) := by
  induction h with
  | nil => exact List.Forall₂.nil
  | cons hblock hrest ih =>
    rw [modifyFirst]
    split
    · exact List.Forall₂.cons (hf _ _ hblock) hrest
    · exact List.Forall₂.cons hblock ih

theorem Assembled.applyReasoningDetail (h : Assembled settings items s) (detail : ReasoningDetail) :
    Assembled settings items (applyReasoningDetail s detail) := by
  obtain ⟨groups, last, hruns, hfinished, hlast⟩ := h.runs
  unfold Completions.applyReasoningDetail
  split
  · rename_i id data hid hdata
    split
    · split
      · refine ⟨⟨groups, last, hruns, ?_, hlast⟩, ?_⟩
        · apply forall₂_modifyFirst hfinished
          rintro g block ⟨hblock, hargs, hindex⟩
          obtain ⟨hsigned, hsameArgs, hsameIndex⟩ := blockOf_signBlock settings hblock detail.text
          exact ⟨hsigned, hsameArgs.trans hargs, hsameIndex.trans hindex⟩
        · intro hnone
          rw [h.first hnone]
          rfl
      · refine ⟨⟨groups, last, hruns, hfinished, ?_⟩, ?_⟩
        · dsimp only
          cases hcurrent : s.currentBlock with
          | none =>
            rw [hcurrent] at hlast
            exact hlast
          | some current =>
            rw [hcurrent] at hlast
            cases hlast with
            | some hopen =>
              rename_i g
              apply Option.Rel.some
              dsimp only
              split
              · obtain ⟨hblock, hscratch⟩ := hopen
                obtain ⟨hsigned, hsameArgs, hsameIndex⟩ :=
                  blockOf_signBlock settings hblock detail.text
                refine ⟨hsigned, ?_⟩
                rw [hsameArgs, hsameIndex]
                exact hscratch
              · exact hopen
        · intro hnone
          exact h.first (Option.map_eq_none_iff.mp hnone)
    · exact h
  · exact h

theorem Assembled.applyMeta (h : Assembled settings items s) (chunk : Chunk) :
    Assembled settings items (applyMeta settings s chunk) := by
  have hsame : (Completions.applyMeta settings s chunk).finished = s.finished ∧
      (Completions.applyMeta settings s chunk).currentBlock = s.currentBlock := by
    unfold Completions.applyMeta
    split <;> split <;> split
    all_goals first
      | exact ⟨rfl, rfl⟩
      | split <;> exact ⟨rfl, rfl⟩
  obtain ⟨groups, last, hruns, hfinished, hlast⟩ := h.runs
  refine ⟨⟨groups, last, hruns, ?_, ?_⟩, ?_⟩
  · rw [hsame.1]
    exact hfinished
  · rw [hsame.2]
    exact hlast
  · rw [hsame.1, hsame.2]
    exact h.first

end

def Indexed (items : List Piece) : Prop :=
  ∀ toolCall, Piece.fragment toolCall ∈ items → ∃ i, toolCall.index = some i

theorem Assembled.applyDelta {items : List Piece} (h : Assembled settings items s)
    {delta : ChunkDelta} (hindexed : Indexed (deltaPieces delta)) :
    Assembled settings (items ++ deltaPieces delta) (applyDelta settings s delta) := by
  have hcalls (toolCalls : List ToolCallDelta) (before : List Piece) (t : StreamState)
      (ht : Assembled settings before t) (hall : Indexed (toolCalls.map Piece.fragment)) :
      Assembled settings (before ++ toolCalls.map Piece.fragment)
        (toolCalls.foldl (Completions.appendToolCall settings) t) := by
    induction toolCalls generalizing before t with
    | nil =>
      rw [map_nil, append_nil]
      exact ht
    | cons toolCall toolCalls ih =>
      obtain ⟨i, hi⟩ := hall toolCall mem_cons_self
      rw [map_cons, append_cons, foldl_cons]
      exact ih _ _ (ht.appendToolCall settings hi)
        (fun other hother => hall other (mem_cons_of_mem _ hother))
  have hdetails (details : List ReasoningDetail) (before : List Piece) (t : StreamState)
      (ht : Assembled settings before t) :
      Assembled settings before (details.foldl Completions.applyReasoningDetail t) := by
    induction details generalizing t with
    | nil => exact ht
    | cons detail details ih => exact ih _ (ht.applyReasoningDetail settings detail)
  rw [deltaPieces, ← append_assoc, ← append_assoc]
  apply hdetails
  apply hcalls
  · cases foundReasoning delta with
    | none =>
      rw [map_none, toList_none, append_nil]
      cases nonEmpty delta.content with
      | none =>
        rw [map_none, toList_none, append_nil]
        exact h
      | some text => exact h.appendText settings text
    | some found =>
      refine Assembled.appendThinking settings ?_ found.1 found.2
      cases nonEmpty delta.content with
      | none =>
        rw [map_none, toList_none, append_nil]
        exact h
      | some text => exact h.appendText settings text
  · intro toolCall hmem
    apply hindexed
    rw [deltaPieces]
    exact mem_append_right _ (mem_append_right _ hmem)

theorem assembled_chunks {chunks : List Chunk} (hindexed : Indexed (pieces chunks)) :
    Assembled settings (pieces chunks) (chunks.foldl (streamChunk settings) .initial) := by
  have hrun (chunks : List Chunk) (before : List Piece) (s : StreamState)
      (h : Assembled settings before s) (hall : Indexed (pieces chunks)) :
      Assembled settings (before ++ pieces chunks) (chunks.foldl (streamChunk settings) s) := by
    induction chunks generalizing before s with
    | nil =>
      rw [pieces, flatMap_nil, append_nil]
      exact h
    | cons chunk chunks ih =>
      rw [pieces, flatMap_cons, ← pieces] at hall ⊢
      rw [← append_assoc, foldl_cons]
      apply ih
      · unfold streamChunk
        cases hdelta : chunk.choice.bind Choice.delta with
        | none =>
          rw [append_nil]
          exact h.applyMeta settings chunk
        | some delta =>
          rw [hdelta] at hall
          exact (h.applyMeta settings chunk).applyDelta settings
            (fun toolCall hmem => hall toolCall (mem_append_left _ hmem))
      · exact fun toolCall hmem => hall toolCall (mem_append_right _ hmem)
  apply hrun chunks [] .initial ?_ hindexed
  exact ⟨⟨[], none, RunsOf.nil, List.Forall₂.nil, Option.Rel.none⟩, fun _ => rfl⟩

theorem content_runs (aborted : Bool) (error : Option JsString) {chunks : List Chunk}
    (hindexed : Indexed (pieces chunks)) : ∃ groups, RunsOf Piece.key groups (pieces chunks) ∧
      Forall₂ (BlockOf settings) groups
        ((streamOpenAICompletions settings aborted (chunks, error)).content.map
          StreamingBlock.content) := by
  have h := assembled_chunks settings hindexed
  unfold streamOpenAICompletions
  generalize chunks.foldl (streamChunk settings) .initial = s at h
  obtain ⟨groups, last, hruns, hfinished, hlast⟩ := h.runs
  refine ⟨groups ++ last.toList, hruns, ?_⟩
  have hdone : Forall₂ (BlockOf settings) groups (s.finished.map StreamingBlock.content) := by
    rw [forall₂_map_right_iff]
    exact hfinished.imp (fun g block hblock => hblock.1)
  have hraw : Forall₂ (BlockOf settings) (groups ++ last.toList)
      (s.content.map StreamingBlock.content) := by
    rw [StreamState.content, map_append]
    apply rel_append hdone
    cases hcurrent : s.currentBlock with
    | none =>
      rw [hcurrent] at hlast
      cases hlast
      exact List.Forall₂.nil
    | some current =>
      rw [hcurrent] at hlast
      cases hlast with
      | some hopen => exact List.Forall₂.cons hopen.1 List.Forall₂.nil
  have hfinish : Forall₂ (BlockOf settings) (groups ++ last.toList)
      ((finishStream settings s).content.map StreamingBlock.content) := by
    unfold finishStream
    cases hcurrent : s.currentBlock with
    | none => exact hraw
    | some current =>
      dsimp only
      rw [StreamState.content, map_append]
      apply rel_append hdone
      rw [hcurrent] at hlast
      cases hlast with
      | some hopen => exact List.Forall₂.cons (hopen.finish settings).1 List.Forall₂.nil
  have hfail (t : StreamState) (message : JsString)
      (ht : Forall₂ (BlockOf settings) (groups ++ last.toList)
        (t.content.map StreamingBlock.content)) :
      Forall₂ (BlockOf settings) (groups ++ last.toList)
        ((failStream aborted t message).content.map StreamingBlock.content) := by
    rw [failStream, map_map]
    exact ht
  cases error with
  | some message => exact hfail _ _ hraw
  | none =>
    dsimp only
    split
    · exact hfail _ _ hfinish
    · split
      · exact hfail _ _ hfinish
      · exact hfinish

def PieceKey.index? : PieceKey → Option Nat
  | .call index => index
  | .text | .thinking => none

def callRuns (groups : List (PieceKey × List Piece)) : List (Nat × List Piece) :=
  groups.filterMap fun g => g.1.index?.map fun i => (i, g.2)

theorem callRuns_call (i : Nat) (run : List Piece) (groups : List (PieceKey × List Piece)) :
    callRuns ((.call (some i), run) :: groups) = (i, run) :: callRuns groups :=
  rfl

theorem count_callRuns (groups : List (PieceKey × List Piece)) (i : Nat) :
    ((callRuns groups).map Prod.fst).count i = (groups.map Prod.fst).count (.call (some i)) := by
  induction groups with
  | nil => rfl
  | cons g groups ih =>
    obtain ⟨k, run⟩ := g
    rw [map_cons, count_cons, ← ih]
    rcases k with - | - | - | j
    · rfl
    · rfl
    · rfl
    · rw [callRuns_call, map_cons, count_cons]
      by_cases hj : j = i
      · simp [hj]
      · simp [hj]

section

variable {groups : List (PieceKey × List Piece)}

theorem callRuns_calls {content : List AssistantBlock} (hindexed : ∀ g ∈ groups, g.1 ≠ .call none)
    (h : Forall₂ (BlockOf settings) groups content) :
    Forall₂ (fun p call => CallOf settings (p.2.filterMap Piece.fragment?) call)
      (callRuns groups) (content.filterMap toolCall?) := by
  induction h with
  | nil => exact List.Forall₂.nil
  | @cons g block groups content hblock hrest ih =>
    obtain ⟨hg, hgroups⟩ := forall_mem_cons.mp hindexed
    obtain ⟨k, run⟩ := g
    rw [callRuns] at ih ⊢
    rcases k with - | - | - | i
    · have hblock : block = _ := hblock
      subst hblock
      exact ih hgroups
    · obtain ⟨signature, hblock⟩ := hblock
      have hblock : block = _ := hblock
      subst hblock
      exact ih hgroups
    · exact absurd rfl hg
    · obtain ⟨call, hblock, hcall⟩ := hblock
      have hblock : block = _ := hblock
      subst hblock
      exact List.Forall₂.cons hcall (ih hgroups)

theorem proseRuns {content : List AssistantBlock} (hruns : RunsOf Piece.key groups items)
    (h : Forall₂ (BlockOf settings) groups content) : ∃ prose : List (PieceKey × List Piece),
      (prose.map Prod.snd).flatten = items.filter Piece.isProse ∧
        Forall₂ (BlockOf settings) prose (content.filter isProseBlock) := by
  rw [← hruns.flatten]
  have hkeyed := hruns.keyed
  clear hruns
  induction h with
  | nil => exact ⟨[], rfl, List.Forall₂.nil⟩
  | @cons g block groups content hblock hrest ih =>
    obtain ⟨hg, hgroups⟩ := forall_mem_cons.mp hkeyed
    obtain ⟨prose, hflatten, hprose⟩ := ih hgroups
    obtain ⟨k, run⟩ := g
    rw [map_cons, flatten_cons, filter_append]
    cases k with
    | text =>
      have hblock' : block = _ := hblock
      have hall : run.filter Piece.isProse = run := by
        rw [filter_eq_self]
        intro x hx
        cases x with
        | text content => rfl
        | thinking field content => rfl
        | fragment toolCall => exact nomatch hg _ hx
      refine ⟨(.text, run) :: prose, ?_, ?_⟩
      · rw [map_cons, flatten_cons, hflatten, hall]
      · rw [filter_cons_of_pos (by rw [hblock']; rfl)]
        exact List.Forall₂.cons hblock hprose
    | thinking =>
      obtain ⟨signature, hblock'⟩ := hblock
      have hblock' : block = _ := hblock'
      have hall : run.filter Piece.isProse = run := by
        rw [filter_eq_self]
        intro x hx
        cases x with
        | text content => rfl
        | thinking field content => rfl
        | fragment toolCall => exact nomatch hg _ hx
      refine ⟨(.thinking, run) :: prose, ?_, ?_⟩
      · rw [map_cons, flatten_cons, hflatten, hall]
      · rw [filter_cons_of_pos (by rw [hblock']; rfl)]
        exact List.Forall₂.cons ⟨signature, hblock'⟩ hprose
    | call index =>
      obtain ⟨call, hblock', -⟩ := hblock
      have hblock' : block = _ := hblock'
      have hnone : run.filter Piece.isProse = [] := by
        rw [filter_eq_nil_iff]
        intro x hx
        cases x with
        | text content | thinking field content => exact nomatch hg _ hx
        | fragment toolCall => exact Bool.false_ne_true
      refine ⟨prose, ?_, ?_⟩
      · rw [hflatten, hnone, nil_append]
      · rw [filter_cons_of_neg (by rw [hblock']; exact Bool.false_ne_true)]
        exact hprose

theorem fragmentsOf_runs (hkeyed : ∀ g ∈ groups, ∀ x ∈ g.2, Piece.key x = g.1) (i : Nat) :
    fragmentsOf (groups.map Prod.snd).flatten i =
      (((callRuns groups).filter fun p => p.1 = i).map fun p =>
        p.2.filterMap Piece.fragment?).flatten := by
  induction groups with
  | nil => rfl
  | cons g groups ih =>
    obtain ⟨hg, hgroups⟩ := forall_mem_cons.mp hkeyed
    obtain ⟨k, run⟩ := g
    have hrest := ih hgroups
    have hother (hk : k ≠ .call (some i)) :
        (run.filterMap Piece.fragment?).filter (fun toolCall => toolCall.index = some i) = [] := by
      rw [filter_eq_nil_iff]
      intro toolCall hmem
      obtain ⟨x, hx, hfragment⟩ := mem_filterMap.mp hmem
      cases x with
      | text content | thinking field content => contradiction
      | fragment other =>
        cases hfragment
        rw [decide_eq_true_eq]
        intro hindex
        have hkey : PieceKey.call toolCall.index = k := hg _ hx
        rw [hindex] at hkey
        exact hk hkey.symm
    have hsplit : fragmentsOf (((k, run) :: groups).map Prod.snd).flatten i =
        (run.filterMap Piece.fragment?).filter (fun toolCall => toolCall.index = some i) ++
          fragmentsOf (groups.map Prod.snd).flatten i := by
      rw [fragmentsOf, map_cons, flatten_cons, filterMap_append, filter_append]
      rfl
    rw [hsplit, hrest]
    rcases k with - | - | - | j
    · rw [hother nofun]
      rfl
    · rw [hother nofun]
      rfl
    · rw [hother nofun]
      rfl
    · rw [callRuns_call]
      by_cases hj : j = i
      · subst hj
        have hall : (run.filterMap Piece.fragment?).filter
            (fun toolCall => toolCall.index = some j) = run.filterMap Piece.fragment? := by
          rw [filter_eq_self]
          intro toolCall hmem
          obtain ⟨x, hx, hfragment⟩ := mem_filterMap.mp hmem
          cases x with
          | text content | thinking field content => contradiction
          | fragment other =>
            cases hfragment
            have hkey : PieceKey.call toolCall.index = .call (some j) := hg _ hx
            rw [PieceKey.call.injEq] at hkey
            exact decide_eq_true hkey
        rw [hall, filter_cons_of_pos (by simp only [decide_true]), map_cons, flatten_cons]
      · rw [hother (fun heq => hj (some.inj (PieceKey.call.inj heq))),
          filter_cons_of_neg (by simpa only [decide_eq_true_eq] using hj)]
        rfl

end

theorem filter_key_eq {entries : List (Nat × List Piece)} (h : (entries.map Prod.fst).Nodup)
    {p : Nat × List Piece} (hp : p ∈ entries) : (entries.filter fun q => q.1 = p.1) = [p] := by
  induction entries with
  | nil => contradiction
  | cons q entries ih =>
    rw [map_cons, nodup_cons] at h
    rcases mem_cons.mp hp with rfl | hp
    · rw [filter_cons_of_pos (by simp only [decide_true])]
      congr 1
      rw [filter_eq_nil_iff]
      intro q hq
      rw [decide_eq_true_eq]
      intro heq
      rw [← heq] at h
      exact h.1 (mem_map_of_mem hq)
    · rw [filter_cons_of_neg, ih h.2 hp]
      rw [decide_eq_true_eq]
      intro heq
      rw [heq] at h
      exact h.1 (mem_map_of_mem hp)

theorem forall₂_of_mem {R S : Nat × List Piece → ToolCall → Prop}
    {entries : List (Nat × List Piece)} {calls : List ToolCall} (h : Forall₂ R entries calls)
    (himp : ∀ p ∈ entries, ∀ call, R p call → S p call) : Forall₂ S entries calls := by
  induction h with
  | nil => exact List.Forall₂.nil
  | cons hcall hrest ih =>
    obtain ⟨hfirst, hothers⟩ := forall_mem_cons.mp himp
    exact List.Forall₂.cons (hfirst _ hcall) (ih hothers)

end Assembly

def fragmentChunk (toolCall : ToolCallDelta) : Chunk where
  id := js "c"
  model := none
  usage := none
  choice := some
    { usage := none
      finishReason := none
      delta := some
        { content := none
          reasoningContent := none
          reasoning := none
          reasoningText := none
          toolCalls := [toolCall]
          reasoningDetails := [] } }

theorem pieces_fragmentChunk (toolCalls : List ToolCallDelta) :
    pieces (toolCalls.map fragmentChunk) = toolCalls.map Piece.fragment := by
  induction toolCalls with
  | nil => rfl
  | cons toolCall toolCalls ih =>
    rw [map_cons, map_cons, ← ih]
    rfl

theorem indexed_fragmentChunk {toolCalls : List ToolCallDelta}
    (h : ∀ toolCall ∈ toolCalls, ∃ i, toolCall.index = some i) :
    Indexed (pieces (toolCalls.map fragmentChunk)) := by
  rw [pieces_fragmentChunk]
  intro toolCall hmem
  obtain ⟨other, hother, heq⟩ := mem_map.mp hmem
  cases heq
  exact h _ hother

theorem callsContiguous_fragmentChunk {toolCalls : List ToolCallDelta} {i : Nat}
    (h : ∀ toolCall ∈ toolCalls, toolCall.index = some i) :
    CallsContiguous (pieces (toolCalls.map fragmentChunk)) := by
  rw [pieces_fragmentChunk]
  have hkey : ∀ x ∈ toolCalls.map Piece.fragment, x.key = .call (some i) := by
    intro x hx
    obtain ⟨toolCall, hmem, rfl⟩ := mem_map.mp hx
    rw [Piece.key, h toolCall hmem]
  intro j
  by_cases hj : j = i
  · subst hj
    exact ⟨[], toolCalls.map Piece.fragment, [], by rw [append_nil, nil_append], hkey,
      forall_mem_nil _, forall_mem_nil _⟩
  · refine ⟨[], [], toolCalls.map Piece.fragment, rfl, forall_mem_nil _, forall_mem_nil _, ?_⟩
    intro x hx heq
    rw [hkey x hx, PieceKey.call.injEq, some.injEq] at heq
    exact hj heq.symm

def exampleSettings : StreamSettings := ⟨js "m", fun _ => EMPTY_USAGE.cost, fun _ => none⟩

/-- The first fragment of a call, with its id and its name. -/
def openingFragment (index : Nat) (id : JsString) : ToolCallDelta :=
  ⟨some index, some id, some (js "f"), some (js "\x7b\"a\":")⟩

def closingFragment (index : Nat) : ToolCallDelta :=
  ⟨some index, none, none, some (js "true\x7d")⟩

end Completions

end AcademicAgent
