import AcademicAgent.Core.Json.Number
import AcademicAgent.Core.Occurrence
import AcademicAgent.Core.Run
import AcademicAgent.Core.TextDecoder

/-!
# The terminal input buffer

Input is kept until an escape sequence is complete and is emitted one sequence at a time; text
between paste markers is emitted as one paste.
-/

namespace AcademicAgent

def ESC : CodeUnit := 0x1B

def BRACKETED_PASTE_START : JsString := ESC :: js "[200~"

def BRACKETED_PASTE_END : JsString := ESC :: js "[201~"

inductive SequenceStatus where
  | complete
  | incomplete
  | notEscape
  deriving DecidableEq

/-- One or more digits, `\d+`. -/
def isDigits (s : JsString) : Bool := !s.isEmpty && s.all isDigit

/-- `/^<\d+;\d+;\d+[Mm]$/`. -/
def isSgrMouse (payload : JsString) : Bool :=
  payload.head? == some 0x3C &&
    (payload.getLast? == some 0x4D || payload.getLast? == some 0x6D) &&
    match payload.tail.dropLast.splitOn 0x3B with
    | [b, x, y] => isDigits b && isDigits x && isDigits y
    | _ => false

section

variable (data : JsString)

/-- A sequence that starts with `ESC [`: it ends with its first byte from `@` to `~`, and
a mouse report only where it has its three numbers. -/
def isCompleteCsiSequence : SequenceStatus :=
  if data.length < 3 then .incomplete
  else
    let payload := data.drop 2
    match payload.getLast? with
    | none => .incomplete
    | some lastChar =>
      if 0x40 ≤ lastChar ∧ lastChar ≤ 0x7E then
        if payload.head? = some 0x3C then
          if isSgrMouse payload then .complete
          else if lastChar = 0x4D ∨ lastChar = 0x6D then
            let parts := payload.tail.dropLast.splitOn 0x3B
            if parts.length = 3 ∧ parts.all isDigits then .complete else .incomplete
          else .incomplete
        else .complete
      else .incomplete

/-- The string terminator, `ESC \`. -/
def stringTerminator : JsString := [ESC, 0x5C]

/-- A sequence that starts with `ESC ]`: it ends with the terminator or the bell. -/
def isCompleteOscSequence : SequenceStatus :=
  if stringTerminator <:+ data ∨ [0x07] <:+ data then .complete else .incomplete

/-- A sequence that starts with `ESC P` ends with the terminator. -/
def isCompleteDcsSequence : SequenceStatus :=
  if stringTerminator <:+ data then .complete else .incomplete

/-- A sequence that starts with `ESC _` ends with the terminator. -/
def isCompleteApcSequence : SequenceStatus :=
  if stringTerminator <:+ data then .complete else .incomplete

def isCompleteSequence : SequenceStatus :=
  if data.head? ≠ some ESC then .notEscape
  else if data.length = 1 then .incomplete
  else
    let afterEsc := data.tail
    let first := afterEsc.head?
    if first = some 0x5B then
      if [0x5B, 0x4D] <+: afterEsc then if 6 ≤ data.length then .complete else .incomplete
      else isCompleteCsiSequence data
    else if first = some 0x5D then isCompleteOscSequence data
    else if first = some 0x50 then isCompleteDcsSequence data
    else if first = some 0x5F then isCompleteApcSequence data
    else if first = some 0x4F then if 2 ≤ afterEsc.length then .complete else .incomplete
    else .complete

end

/-- The digits at the start of a text and what follows them. -/
def spanDigits (s : JsString) : JsString × JsString :=
  (s.takeWhile isDigit, s.dropWhile isDigit)

/-- What may follow the code point of a key event: `(?::\d*)?(?::\d+)?u$`. -/
def isKittyTail (s : JsString) : Bool :=
  s == js "u" ||
    (s.head? == some 0x3A &&
      let rest := (spanDigits s.tail).2
      rest == js "u" ||
        (rest.head? == some 0x3A && !(spanDigits rest.tail).1.isEmpty &&
          (spanDigits rest.tail).2 == js "u"))

/-- The character of a key event without modifiers. -/
def parseUnmodifiedKittyPrintableCodepoint (sequence : JsString) : Option Nat :=
  if [ESC, 0x5B] <+: sequence then
    let (digits, tail) := spanDigits (sequence.drop 2)
    if digits ≠ [] ∧ isKittyTail tail then
      let codepoint := digitsValue digits
      if 32 ≤ codepoint then some codepoint else none
    else none
  else none

/-- The length of the escape sequence at the start of a text, looked for from a length
on. -/
def sequenceEnd (remaining : JsString) (seqEnd : Nat) : Nat → Option Nat
  | 0 => none
  | fuel + 1 =>
    if seqEnd ≤ remaining.length then
      if isCompleteSequence (remaining.take seqEnd) = .incomplete then
        sequenceEnd remaining (seqEnd + 1) fuel
      else some seqEnd
    else none

/-- The length of the sequence at the start of a text: an escape sequence, or one
code unit. -/
def nextSequence (remaining : JsString) : Option Nat :=
  if remaining.head? = some ESC then sequenceEnd remaining 1 remaining.length else some 1

structure ExtractResult where
  sequences : List JsString
  remainder : JsString
  deriving DecidableEq

/-- Takes sequences from a text, as many as the fuel allows. -/
def extractSequences : Nat → JsString → ExtractResult
  | 0, buffer => ⟨[], buffer⟩
  | fuel + 1, buffer =>
    if buffer = [] then ⟨[], []⟩
    else
      match nextSequence buffer with
      | none => ⟨[], buffer⟩
      | some seqEnd =>
        let rest := extractSequences fuel (buffer.drop seqEnd)
        ⟨buffer.take seqEnd :: rest.sequences, rest.remainder⟩

def extractCompleteSequences (buffer : JsString) : ExtractResult :=
  extractSequences buffer.length buffer

structure StdinBuffer where
  buffer : JsString
  /-- A timer is running. -/
  timeout : Bool
  pasteMode : Bool
  pasteBuffer : JsString
  pendingKittyPrintableCodepoint : Option Nat
  deriving DecidableEq

/-- What the buffer emits, and the characters it drops. -/
inductive Emission where
  | data (sequence : JsString)
  | paste (content : JsString)
  | dropped (sequence : JsString)
  deriving DecidableEq

/-- What `process` is given. -/
inductive StdinChunk where
  | string (data : JsString)
  | buffer (data : List UInt8)
  deriving DecidableEq

/-- The text of a chunk: one high byte is an escape and the byte without its high bit. -/
def StdinChunk.text : StdinChunk → JsString
  | .string data => data
  | .buffer [byte] =>
    if 127 < byte then [ESC, UInt16.ofNat (byte.toNat - 128)]
    else [UInt16.ofNat byte.toNat]
  | .buffer data =>
    let (decoder, text) := TextDecoder.transducer.feed ⟨none, true⟩ data
    text ++ decoder.flush

namespace StdinBuffer

def new : StdinBuffer := ⟨[], false, false, [], none⟩

def rawCodepoint (sequence : JsString) : Option Nat :=
  if sequence.length = 1 then sequence.head?.map UInt16.toNat else none

/-- Emits a sequence, or drops it where it repeats the key event before it. -/
def emitDataSequence (sequence : JsString) (s : StdinBuffer) : StdinBuffer × List Emission :=
  if (rawCodepoint sequence).isSome ∧
      rawCodepoint sequence = s.pendingKittyPrintableCodepoint then
    ({ s with pendingKittyPrintableCodepoint := none }, [.dropped sequence])
  else
    ({ s with
        pendingKittyPrintableCodepoint := parseUnmodifiedKittyPrintableCodepoint sequence },
      [.data sequence])

def emitAll (s : StdinBuffer) : List JsString → StdinBuffer × List Emission
  | [] => (s, [])
  | sequence :: sequences =>
    ((emitAll (emitDataSequence sequence s).1 sequences).1,
      (emitDataSequence sequence s).2 ++ (emitAll (emitDataSequence sequence s).1 sequences).2)

section

variable (next : JsString → StdinBuffer → StdinBuffer × List Emission)

/-- Looks for the end of a paste; `next` processes the text behind it. -/
def continuePaste (s : StdinBuffer) : StdinBuffer × List Emission :=
  match indexOf? BRACKETED_PASTE_END s.pasteBuffer with
  | none => (s, [])
  | some endIndex =>
    let pastedContent := s.pasteBuffer.take endIndex
    let remaining := s.pasteBuffer.drop (endIndex + BRACKETED_PASTE_END.length)
    let s := { s with
      pasteMode := false
      pasteBuffer := []
      pendingKittyPrintableCodepoint := none }
    if 0 < remaining.length then
      ((next remaining s).1, .paste pastedContent :: (next remaining s).2)
    else (s, [.paste pastedContent])

def processKeys (s : StdinBuffer) : StdinBuffer × List Emission :=
  let result := extractCompleteSequences s.buffer
  let (s, emissions) := emitAll { s with buffer := result.remainder } result.sequences
  ({ s with timeout := decide (0 < s.buffer.length) }, emissions)

/-- Processes a text; `next` processes the text behind a paste. -/
def processWith (str : JsString) (s : StdinBuffer) : StdinBuffer × List Emission :=
  let s := { s with timeout := false }
  if str.length = 0 ∧ s.buffer.length = 0 then emitDataSequence [] s
  else
    let s := { s with buffer := s.buffer ++ str }
    if s.pasteMode then
      continuePaste next { s with pasteBuffer := s.pasteBuffer ++ s.buffer, buffer := [] }
    else
      match indexOf? BRACKETED_PASTE_START s.buffer with
      | some startIndex =>
        let (s, before) :=
          if 0 < startIndex then
            emitAll s (extractCompleteSequences (s.buffer.take startIndex)).sequences
          else (s, [])
        let (s, emissions) := continuePaste next { s with
          pendingKittyPrintableCodepoint := none
          buffer := []
          pasteMode := true
          pasteBuffer := s.buffer.drop (startIndex + BRACKETED_PASTE_START.length) }
        (s, before ++ emissions)
      | none => processKeys s

end

/-- Processes a text; the fuel bounds the pastes that end in it. -/
def processText : Nat → JsString → StdinBuffer → StdinBuffer × List Emission
  | 0, _, s => (s, [])
  | fuel + 1, str, s => processWith (processText fuel) str s

/-- Processes a text, with fuel for every paste it can hold. -/
def processString (str : JsString) (s : StdinBuffer) : StdinBuffer × List Emission :=
  processText (s.buffer.length + s.pasteBuffer.length + str.length + 1) str s

def process (data : StdinChunk) (s : StdinBuffer) : StdinBuffer × List Emission :=
  processString data.text s

section

variable (s : StdinBuffer)

def flush : StdinBuffer × List JsString :=
  if s.buffer.length = 0 then ({ s with timeout := false }, [])
  else
    ({ s with timeout := false, buffer := [], pendingKittyPrintableCodepoint := none }, [s.buffer])

/-- The timer fires: what is left in the buffer is emitted. -/
def onTimeout : StdinBuffer × List Emission := emitAll s.flush.1 s.flush.2

/-- The text that is still buffered; the start marker of a paste is part of it. -/
def bufferedText : JsString :=
  if s.pasteMode then BRACKETED_PASTE_START ++ s.pasteBuffer else s.buffer

end

end StdinBuffer

end AcademicAgent

/-!
# What becomes of the input

Every emission stands for a part of the input.
-/

namespace AcademicAgent

open List StdinBuffer

variable {i : Nat} {s : StdinBuffer}

/-- The part of the input that an emission stands for. -/
def Emission.text : Emission → JsString
  | .data sequence => sequence
  | .paste content => BRACKETED_PASTE_START ++ content ++ BRACKETED_PASTE_END
  | .dropped sequence => sequence

def emissionsText (emissions : List Emission) : JsString := emissions.flatMap Emission.text

/-- The stretches of keys that a start marker ends; `pasting` when the text starts
inside a paste. The fuel bounds the markers. -/
def keyStretches : Nat → Bool → JsString → List JsString
  | 0, _, _ => []
  | fuel + 1, true, text =>
    match indexOf? BRACKETED_PASTE_END text with
    | none => []
    | some endIndex =>
      keyStretches fuel false (text.drop (endIndex + BRACKETED_PASTE_END.length))
  | fuel + 1, false, text =>
    match indexOf? BRACKETED_PASTE_START text with
    | none => []
    | some startIndex =>
      text.take startIndex ::
        keyStretches fuel true (text.drop (startIndex + BRACKETED_PASTE_START.length))

/-- The stretches of keys of a text that a start marker ends. -/
def stretchesOf (pasting : Bool) (text : JsString) : List JsString :=
  keyStretches (text.length + 1) pasting text

theorem keyStretches_fuel {fuel more : Nat} {pasting : Bool} {text : JsString}
    (hfuel : text.length < fuel) (hmore : text.length < more) :
    keyStretches fuel pasting text = keyStretches more pasting text := by
  induction fuel generalizing more pasting text with
  | zero => contradiction
  | succ fuel ih =>
    cases more with
    | zero => contradiction
    | succ more =>
      have hbehind (marker : JsString) (hmarker : 0 < marker.length) (i : Nat)
          (hfind : indexOf? marker text = some i) :
          (text.drop (i + marker.length)).length < text.length := by
        have hbound := (indexOf?_eq_some hfind).1.add_length_le
        rw [length_drop]
        omega
      cases pasting with
      | true =>
        rw [keyStretches, keyStretches]
        cases hfind : indexOf? BRACKETED_PASTE_END text with
        | none => rfl
        | some i =>
          have hlength := hbehind _ (by decide) i hfind
          exact ih (by omega) (by omega)
      | false =>
        rw [keyStretches, keyStretches]
        cases hfind : indexOf? BRACKETED_PASTE_START text with
        | none => rfl
        | some i =>
          have hlength := hbehind _ (by decide) i hfind
          exact congrArg _ (ih (by omega) (by omega))

section

variable {text : JsString}

theorem stretchesOf_open (h : indexOf? BRACKETED_PASTE_END text = none) :
    stretchesOf true text = [] := by
  rw [stretchesOf, keyStretches, h]

theorem stretchesOf_keys (h : indexOf? BRACKETED_PASTE_START text = none) :
    stretchesOf false text = [] := by
  rw [stretchesOf, keyStretches, h]

theorem stretchesOf_end (h : indexOf? BRACKETED_PASTE_END text = some i) :
    stretchesOf true text = stretchesOf false (text.drop (i + BRACKETED_PASTE_END.length)) := by
  have hbound := (indexOf?_eq_some h).1.add_length_le
  have hend : BRACKETED_PASTE_END.length = 6 := by decide
  rw [stretchesOf, keyStretches, h]
  refine keyStretches_fuel ?_ (Nat.lt_succ_self _)
  rw [length_drop]
  omega

theorem stretchesOf_start (h : indexOf? BRACKETED_PASTE_START text = some i) :
    stretchesOf false text =
      text.take i :: stretchesOf true (text.drop (i + BRACKETED_PASTE_START.length)) := by
  have hbound := (indexOf?_eq_some h).1.add_length_le
  have hstart : BRACKETED_PASTE_START.length = 6 := by decide
  rw [stretchesOf, keyStretches, h]
  refine congrArg _ (keyStretches_fuel ?_ (Nat.lt_succ_self _))
  rw [length_drop]
  omega

end

theorem sequenceEnd_bounds {remaining : JsString} {seqEnd fuel n : Nat}
    (h : sequenceEnd remaining seqEnd fuel = some n) : seqEnd ≤ n ∧ n ≤ remaining.length := by
  induction fuel generalizing seqEnd with
  | zero => contradiction
  | succ fuel ih =>
    rw [sequenceEnd] at h
    split at h
    · rename_i hle
      split at h
      · have hbounds := ih h
        omega
      · cases h
        exact ⟨Nat.le_refl _, hle⟩
    · contradiction

theorem nextSequence_bounds {remaining : JsString} {n : Nat} (hne : remaining ≠ [])
    (h : nextSequence remaining = some n) : 1 ≤ n ∧ n ≤ remaining.length := by
  rw [nextSequence] at h
  split at h
  · exact sequenceEnd_bounds h
  · cases h
    exact ⟨Nat.le_refl _, length_pos_of_ne_nil hne⟩

theorem extractSequences_fuel {fuel more : Nat} {buffer : JsString}
    (hfuel : buffer.length ≤ fuel) (hmore : buffer.length ≤ more) :
    extractSequences fuel buffer = extractSequences more buffer := by
  induction fuel generalizing more buffer with
  | zero =>
    have hnil : buffer = [] := length_eq_zero_iff.mp (Nat.le_zero.mp hfuel)
    subst hnil
    cases more with
    | zero => rfl
    | succ more => rw [extractSequences, extractSequences, if_pos rfl]
  | succ fuel ih =>
    cases more with
    | zero =>
      have hnil : buffer = [] := length_eq_zero_iff.mp (Nat.le_zero.mp hmore)
      subst hnil
      rw [extractSequences, extractSequences, if_pos rfl]
    | succ more =>
      rw [extractSequences, extractSequences]
      split
      · rfl
      · rename_i hne
        cases hnext : nextSequence buffer with
        | none => rfl
        | some seqEnd =>
          have hbounds := nextSequence_bounds hne hnext
          have hlength : (buffer.drop seqEnd).length ≤ fuel := by
            rw [length_drop]
            omega
          have hlength' : (buffer.drop seqEnd).length ≤ more := by
            rw [length_drop]
            omega
          dsimp only
          rw [ih hlength hlength']

theorem extract_eq {buffer : JsString} (hne : buffer ≠ []) :
    extractCompleteSequences buffer = match nextSequence buffer with
      | none => ⟨[], buffer⟩
      | some seqEnd =>
        ⟨buffer.take seqEnd :: (extractCompleteSequences (buffer.drop seqEnd)).sequences,
          (extractCompleteSequences (buffer.drop seqEnd)).remainder⟩ := by
  have hpos := length_pos_of_ne_nil hne
  obtain ⟨fuel, hfuel⟩ := Nat.exists_eq_succ_of_ne_zero (Nat.ne_of_gt hpos)
  rw [extractCompleteSequences, hfuel, extractSequences, if_neg hne]
  cases hnext : nextSequence buffer with
  | none => rfl
  | some seqEnd =>
    have hbounds := nextSequence_bounds hne hnext
    have hlength : (buffer.drop seqEnd).length ≤ fuel := by
      rw [length_drop]
      omega
    dsimp only
    rw [extractSequences_fuel hlength (Nat.le_refl _)]
    rfl

@[simp] theorem extract_nil : extractCompleteSequences [] = ⟨[], []⟩ := rfl

theorem extract_text (buffer : JsString) : (extractCompleteSequences buffer).sequences.flatten ++
      (extractCompleteSequences buffer).remainder = buffer := by
  induction hlength : buffer.length using Nat.strong_induction_on generalizing buffer with
  | _ n ih =>
    by_cases hne : buffer = []
    · subst hne
      rfl
    · rw [extract_eq hne]
      cases hnext : nextSequence buffer with
      | none => rfl
      | some seqEnd =>
        have hbounds := nextSequence_bounds hne hnext
        have hdrop : (buffer.drop seqEnd).length < n := by
          rw [length_drop]
          omega
        rw [flatten_cons, append_assoc, ih _ hdrop _ rfl, take_append_drop]

namespace StdinBuffer

theorem emitDataSequence_spec (sequence : JsString) (s : StdinBuffer) :
    (∃ pending, (emitDataSequence sequence s).1 =
        { s with pendingKittyPrintableCodepoint := pending }) ∧
      emissionsText (emitDataSequence sequence s).2 = sequence := by
  rw [emitDataSequence]
  split
  all_goals exact ⟨⟨_, rfl⟩, append_nil _⟩

theorem emitAll_spec (s : StdinBuffer) (sequences : List JsString) :
    (∃ pending, (emitAll s sequences).1 = { s with pendingKittyPrintableCodepoint := pending }) ∧
      emissionsText (emitAll s sequences).2 = sequences.flatten := by
  induction sequences generalizing s with
  | nil => exact ⟨⟨s.pendingKittyPrintableCodepoint, rfl⟩, rfl⟩
  | cons sequence sequences ih =>
    obtain ⟨⟨pending, hstate⟩, htext⟩ := emitDataSequence_spec sequence s
    obtain ⟨⟨pending', hstate'⟩, htext'⟩ := ih (emitDataSequence sequence s).1
    refine ⟨⟨pending', ?_⟩, ?_⟩
    · rw [emitAll, hstate', hstate]
    · rw [emitAll, emissionsText, flatMap_append, ← emissionsText, ← emissionsText, htext,
        htext', flatten_cons]

/-- A buffer between two calls: it holds no end of a paste, and while pasting nothing
but the paste. -/
structure Tidy (s : StdinBuffer) : Prop where
  keys : s.pasteMode = true → s.buffer = []
  paste : s.pasteMode = false → s.pasteBuffer = []
  unended : indexOf? BRACKETED_PASTE_END s.pasteBuffer = none

theorem tidy_new : Tidy new := ⟨fun _ => rfl, fun _ => rfl, by decide⟩

/-- The text that is read together with the next chunk. -/
def unread (s : StdinBuffer) : JsString := s.pasteBuffer ++ s.buffer

theorem start_length : BRACKETED_PASTE_START.length = 6 := by decide

theorem end_length : BRACKETED_PASTE_END.length = 6 := by decide

theorem length_behind {marker text : JsString} (h : indexOf? marker text = some i) :
    (text.drop (i + marker.length)).length + marker.length ≤ text.length := by
  have hbound := (indexOf?_eq_some h).1.add_length_le
  rw [length_drop]
  omega

def pasting (content : JsString) (pending : Option Nat) : StdinBuffer :=
  ⟨[], false, true, content, pending⟩

def keys (text : JsString) (pending : Option Nat) : StdinBuffer := ⟨text, false, false, [], pending⟩

theorem keys_eq (hmode : s.pasteMode = false) (hpaste : s.pasteBuffer = []) (text : JsString) :
    (⟨text, false, s.pasteMode, s.pasteBuffer, s.pendingKittyPrintableCodepoint⟩ : StdinBuffer) =
      keys text s.pendingKittyPrintableCodepoint := by
  rw [hmode, hpaste, keys]

theorem processKeys_eq (text : JsString) (pending : Option Nat) :
    ∃ pending', processKeys (keys text pending) = (⟨(extractCompleteSequences text).remainder,
          decide (0 < (extractCompleteSequences text).remainder.length), false, [], pending'⟩,
        (emitAll (keys (extractCompleteSequences text).remainder pending)
          (extractCompleteSequences text).sequences).2) := by
  obtain ⟨⟨pending', hstate⟩, -⟩ := emitAll_spec
    (keys (extractCompleteSequences text).remainder pending)
    (extractCompleteSequences text).sequences
  refine ⟨pending', ?_⟩
  rw [keys] at hstate
  rw [processKeys, keys, keys]
  dsimp only
  rw [hstate]

section Process

variable (next : JsString → StdinBuffer → StdinBuffer × List Emission)

section

variable {content : JsString} {pending : Option Nat}

theorem continuePaste_none (h : indexOf? BRACKETED_PASTE_END content = none) :
    continuePaste next (pasting content pending) = (pasting content pending, []) := by
  rw [continuePaste, pasting]
  rw [h]

theorem continuePaste_end (h : indexOf? BRACKETED_PASTE_END content = some i)
    (hrest : content.drop (i + BRACKETED_PASTE_END.length) = []) :
    continuePaste next (pasting content pending) = (new, [.paste (content.take i)]) := by
  rw [continuePaste, pasting]
  rw [h]
  dsimp only
  rw [hrest]
  rfl

theorem continuePaste_some {i : Nat} (h : indexOf? BRACKETED_PASTE_END content = some i)
    (hrest : content.drop (i + BRACKETED_PASTE_END.length) ≠ []) :
    continuePaste next (pasting content pending) =
      ((next (content.drop (i + BRACKETED_PASTE_END.length)) new).1, .paste (content.take i) ::
          (next (content.drop (i + BRACKETED_PASTE_END.length)) new).2) := by
  rw [continuePaste, pasting]
  rw [h]
  dsimp only
  rw [if_pos (length_pos_of_ne_nil hrest)]
  rfl

end

variable {str : JsString} {s : StdinBuffer}

theorem processWith_nothing (hstr : str = []) (hbuffer : s.buffer = []) :
    processWith next str s = emitDataSequence [] { s with timeout := false } := by
  rw [processWith]
  exact if_pos ⟨by rw [hstr]; rfl, by rw [hbuffer]; rfl⟩

section

variable (hne : ¬ (str = [] ∧ s.buffer = []))
include hne

theorem processWith_pasting (hmode : s.pasteMode = true) :
    processWith next str s = continuePaste next
      (pasting (s.pasteBuffer ++ (s.buffer ++ str)) s.pendingKittyPrintableCodepoint) := by
  have hlength : ¬ (str.length = 0 ∧ s.buffer.length = 0) := by
    rwa [length_eq_zero_iff, length_eq_zero_iff]
  rw [processWith]
  rw [if_neg hlength, if_pos hmode, pasting, hmode]

theorem processWith_start (hmode : s.pasteMode = false) (hpaste : s.pasteBuffer = [])
    (h : indexOf? BRACKETED_PASTE_START (s.buffer ++ str) = some i) : processWith next str s =
      ((continuePaste next
          (pasting ((s.buffer ++ str).drop (i + BRACKETED_PASTE_START.length)) none)).1,
        (emitAll (keys (s.buffer ++ str) s.pendingKittyPrintableCodepoint)
          (extractCompleteSequences ((s.buffer ++ str).take i)).sequences).2 ++
        (continuePaste next
          (pasting ((s.buffer ++ str).drop (i + BRACKETED_PASTE_START.length)) none)).2) := by
  have hlength : ¬ (str.length = 0 ∧ s.buffer.length = 0) := by
    rwa [length_eq_zero_iff, length_eq_zero_iff]
  have hkeys := keys_eq hmode hpaste (s.buffer ++ str)
  have hbefore : (if 0 < i then
      emitAll (keys (s.buffer ++ str) s.pendingKittyPrintableCodepoint)
        (extractCompleteSequences ((s.buffer ++ str).take i)).sequences
      else (keys (s.buffer ++ str) s.pendingKittyPrintableCodepoint, [])) =
      emitAll (keys (s.buffer ++ str) s.pendingKittyPrintableCodepoint)
        (extractCompleteSequences ((s.buffer ++ str).take i)).sequences := by
    split
    · rfl
    · rename_i hzero
      have hnil : (s.buffer ++ str).take i = [] := by
        rw [Nat.eq_zero_of_not_pos hzero, take_zero]
      rw [hnil, extract_nil]
      rfl
  have hmode' : ¬ s.pasteMode = true := by
    rw [hmode]
    exact Bool.false_ne_true
  obtain ⟨⟨pending, hstate⟩, -⟩ := emitAll_spec
    (keys (s.buffer ++ str) s.pendingKittyPrintableCodepoint)
    (extractCompleteSequences ((s.buffer ++ str).take i)).sequences
  rw [processWith]
  rw [if_neg hlength, if_neg hmode', h]
  dsimp only
  rw [hkeys, hbefore, hstate]
  rfl

theorem processWith_keys (hmode : s.pasteMode = false)
    (hpaste : s.pasteBuffer = []) (h : indexOf? BRACKETED_PASTE_START (s.buffer ++ str) = none) :
    processWith next str s =
      processKeys (keys (s.buffer ++ str) s.pendingKittyPrintableCodepoint) := by
  have hkeys := keys_eq hmode hpaste (s.buffer ++ str)
  have hlength : ¬ (str.length = 0 ∧ s.buffer.length = 0) := by
    rwa [length_eq_zero_iff, length_eq_zero_iff]
  have hmode' : ¬ s.pasteMode = true := by
    rw [hmode]
    exact Bool.false_ne_true
  rw [processWith]
  rw [if_neg hlength, if_neg hmode', h, hkeys]

end

end Process

section

variable {next next' : JsString → StdinBuffer → StdinBuffer × List Emission}

theorem continuePaste_congr {content : JsString} {pending : Option Nat}
    (h : ∀ str, str.length < content.length → next str new = next' str new) :
    continuePaste next (pasting content pending) =
      continuePaste next' (pasting content pending) := by
  cases hfind : indexOf? BRACKETED_PASTE_END content with
  | none => rw [continuePaste_none next hfind, continuePaste_none next' hfind]
  | some i =>
    by_cases hrest : content.drop (i + BRACKETED_PASTE_END.length) = []
    · rw [continuePaste_end next hfind hrest, continuePaste_end next' hfind hrest]
    · have hlength := length_behind hfind
      rw [end_length] at hlength
      rw [continuePaste_some next hfind hrest, continuePaste_some next' hfind hrest]
      rw [end_length, h _ (by omega)]

def total (str : JsString) (s : StdinBuffer) : Nat :=
  s.buffer.length + s.pasteBuffer.length + str.length

theorem processWith_congr {str : JsString} (hs : Tidy s)
    (h : ∀ str', str'.length < total str s → next str' new = next' str' new) :
    processWith next str s = processWith next' str s := by
  by_cases hne : str = [] ∧ s.buffer = []
  · rw [processWith_nothing next hne.1 hne.2, processWith_nothing next' hne.1 hne.2]
  cases hmode : s.pasteMode with
  | true =>
    rw [processWith_pasting next hne hmode, processWith_pasting next' hne hmode]
    refine continuePaste_congr fun str' hlength => h str' ?_
    simp only [length_append, total] at hlength ⊢
    omega
  | false =>
    have hpaste := hs.paste hmode
    cases hfind : indexOf? BRACKETED_PASTE_START (s.buffer ++ str) with
    | none => rw [processWith_keys next hne hmode hpaste hfind,
        processWith_keys next' hne hmode hpaste hfind]
    | some i =>
      have hlength := length_behind hfind
      rw [processWith_start next hne hmode hpaste hfind,
        processWith_start next' hne hmode hpaste hfind]
      rw [continuePaste_congr fun str' hstr => h str' ?_]
      rw [length_append] at hlength
      rw [total]
      omega

end

theorem processText_fuel {fuel more : Nat} {str : JsString} (hs : Tidy s)
    (hfuel : total str s < fuel) (hmore : total str s < more) :
    processText fuel str s = processText more str s := by
  induction fuel generalizing more str s with
  | zero => contradiction
  | succ fuel ih =>
    cases more with
    | zero => contradiction
    | succ more =>
      rw [processText, processText]
      refine processWith_congr hs fun str' hlength => ih tidy_new ?_ ?_
      all_goals
        simp only [total, new, length_nil] at hfuel hmore hlength ⊢
        omega

theorem processString_eq (str : JsString) (hs : Tidy s) :
    processString str s = processWith processString str s := by
  rw [processString, processText]
  refine processWith_congr hs fun str' hlength => processText_fuel tidy_new ?_ ?_
  · simp only [total, new, length_nil] at hlength ⊢
    omega
  · simp only [total, new, length_nil]
    omega

/-- How much of the stretches is left over when their sequences are taken. -/
def leftOver (stretches : List JsString) : Nat :=
  (stretches.map fun x => (extractCompleteSequences x).remainder.length).sum

def AllComplete (stretches : List JsString) : Prop :=
  ∀ x ∈ stretches, (extractCompleteSequences x).remainder = []

theorem leftOver_eq_zero_iff {stretches : List JsString} :
    leftOver stretches = 0 ↔ AllComplete stretches := by
  induction stretches with
  | nil => exact iff_of_true rfl fun x hx => absurd hx not_mem_nil
  | cons x stretches ih =>
    rw [leftOver, map_cons, sum_cons, ← leftOver, AllComplete, forall_mem_cons,
      ← AllComplete, ← ih, Nat.add_eq_zero_iff, length_eq_zero_iff]

/-- What a call has emitted and still buffers, of the text that it read: all of it, but
for what is left over of the stretches. -/
structure Keeps (s : StdinBuffer) (emissions : List Emission) (read : JsString)
    (stretches : List JsString) : Prop where
  tidy : Tidy s
  text : AllComplete stretches → emissionsText emissions ++ s.bufferedText = read
  length : (emissionsText emissions).length + s.bufferedText.length + leftOver stretches =
    read.length

theorem Keeps.cons {s : StdinBuffer} {emissions : List Emission} {text : JsString}
    {stretches : List JsString} (h : Keeps s emissions text stretches) (emission : Emission) :
    Keeps s (emission :: emissions) (emission.text ++ text) stretches where
  tidy := h.tidy
  text hcomplete := by
    rw [emissionsText, flatMap_cons, append_assoc, ← emissionsText, h.text hcomplete]
  length := by
    have hlength := h.length
    rw [emissionsText, flatMap_cons, length_append, length_append, ← emissionsText]
    omega

theorem Keeps.stretch {emissions before : List Emission} {text x : JsString}
    {stretches : List JsString} (h : Keeps s emissions text stretches)
    (hbefore : emissionsText before = (extractCompleteSequences x).sequences.flatten) :
    Keeps s (before ++ emissions) (x ++ text) (x :: stretches) where
  tidy := h.tidy
  text hcomplete := by
    obtain ⟨hx, hrest⟩ := forall_mem_cons.mp hcomplete
    have hsequences := extract_text x
    rw [hx, append_nil] at hsequences
    rw [emissionsText, flatMap_append, ← emissionsText, ← emissionsText, hbefore, hsequences,
      append_assoc, h.text hrest]
  length := by
    have hlength := h.length
    have hx := congrArg List.length (extract_text x)
    rw [length_append] at hx
    rw [emissionsText, flatMap_append, ← emissionsText, ← emissionsText, hbefore,
      length_append, length_append, leftOver, map_cons, sum_cons, ← leftOver]
    omega

theorem Keeps.buffered (h : Tidy s) : Keeps s [] s.bufferedText [] where
  tidy := h
  text _ := rfl
  length := Nat.zero_add _

theorem text_of_indexOf {marker text : JsString} (h : indexOf? marker text = some i) :
    text = text.take i ++ (marker ++ text.drop (i + marker.length)) := by
  obtain ⟨rest, hrest⟩ := (indexOf?_eq_some h).1.2
  have hbehind : text.drop (i + marker.length) = rest := by
    rw [← drop_drop, ← hrest, drop_left]
  rw [hbehind, hrest, take_append_drop]

theorem continuePaste_keeps {content : JsString} {pending : Option Nat}
    (ih : ∀ str, str.length < content.length →
      Keeps (processString str new).1 (processString str new).2 str (stretchesOf false str)) :
    Keeps (continuePaste processString (pasting content pending)).1
      (continuePaste processString (pasting content pending)).2
        (BRACKETED_PASTE_START ++ content) (stretchesOf true content) := by
  cases hfind : indexOf? BRACKETED_PASTE_END content with
  | none =>
    rw [continuePaste_none _ hfind, stretchesOf_open hfind]
    exact .buffered ⟨fun _ => rfl, fun h => by contradiction, hfind⟩
  | some i =>
    have htext := text_of_indexOf hfind
    have hlength := length_behind hfind
    rw [end_length] at hlength
    have hwhole : BRACKETED_PASTE_START ++ content = (Emission.paste (content.take i)).text ++
          content.drop (i + BRACKETED_PASTE_END.length) := by
      conv_lhs => rw [htext]
      simp only [Emission.text, append_assoc]
    rw [stretchesOf_end hfind, hwhole]
    by_cases hrest : content.drop (i + BRACKETED_PASTE_END.length) = []
    · rw [continuePaste_end _ hfind hrest, hrest]
      exact Keeps.cons (.buffered tidy_new) _
    · rw [continuePaste_some _ hfind hrest]
      refine Keeps.cons (ih _ ?_) _
      rw [end_length]
      omega

theorem processKeys_keeps (text : JsString) (pending : Option Nat) :
    Keeps (processKeys (keys text pending)).1 (processKeys (keys text pending)).2 text [] := by
  obtain ⟨pending', hkeys⟩ := processKeys_eq text pending
  obtain ⟨-, htext⟩ := emitAll_spec (keys (extractCompleteSequences text).remainder pending)
    (extractCompleteSequences text).sequences
  have hresult := extract_text text
  have hlength := congrArg List.length hresult
  rw [length_append] at hlength
  rw [hkeys]
  refine ⟨⟨fun h => by contradiction, fun _ => rfl, tidy_new.unended⟩, fun _ => ?_, ?_⟩
  · rw [htext]
    exact hresult
  · rw [htext]
    exact hlength

theorem processString_keeps (str : JsString) (hs : Tidy s) :
    Keeps (processString str s).1 (processString str s).2 (s.bufferedText ++ str)
      (stretchesOf s.pasteMode (s.unread ++ str)) := by
  induction hlength : total str s using Nat.strong_induction_on generalizing str s with
  | _ n ih =>
    have hnext (str' : JsString) (hstr' : str'.length < n) :
        Keeps (processString str' new).1 (processString str' new).2 str' (stretchesOf false str') :=
      ih _ (by simpa [total, new] using hstr') str' tidy_new rfl
    rw [processString_eq str hs]
    by_cases hne : str = [] ∧ s.buffer = []
    · obtain ⟨rfl, hbuffer⟩ := hne
      have hstretches : stretchesOf s.pasteMode (s.unread ++ []) = [] := by
        rw [unread, hbuffer, append_nil, append_nil]
        cases hmode : s.pasteMode with
        | true => exact stretchesOf_open hs.unended
        | false =>
          rw [hs.paste hmode]
          exact stretchesOf_keys (by decide)
      obtain ⟨⟨pending, hstate⟩, htext⟩ := emitDataSequence_spec [] { s with timeout := false }
      have hkeeps : Keeps { s with timeout := false, pendingKittyPrintableCodepoint := pending } []
          s.bufferedText [] := .buffered ⟨hs.keys, hs.paste, hs.unended⟩
      rw [processWith_nothing _ rfl hbuffer, hstretches, append_nil, hstate]
      refine ⟨hkeeps.tidy, fun hcomplete => ?_, ?_⟩
      · rw [htext]
        exact hkeeps.text hcomplete
      · rw [htext]
        exact hkeeps.length
    cases hmode : s.pasteMode with
    | true =>
      have hbuffer := hs.keys hmode
      have hread : s.bufferedText ++ str =
          BRACKETED_PASTE_START ++ (s.pasteBuffer ++ (s.buffer ++ str)) := by
        rw [bufferedText, if_pos hmode, hbuffer, append_assoc, nil_append]
      have hunread : s.unread ++ str = s.pasteBuffer ++ (s.buffer ++ str) :=
        append_assoc _ _ _
      rw [processWith_pasting _ hne hmode, hread, hunread]
      refine continuePaste_keeps fun str' hstr' => hnext str' ?_
      simp only [length_append, total] at hstr' hlength
      omega
    | false =>
      have hpaste := hs.paste hmode
      have hread : s.bufferedText = s.buffer := if_neg (by rw [hmode]; exact Bool.false_ne_true)
      have hunread : s.unread = s.buffer := by rw [unread, hpaste, nil_append]
      rw [hread, hunread]
      cases hfind : indexOf? BRACKETED_PASTE_START (s.buffer ++ str) with
      | none =>
        rw [processWith_keys _ hne hmode hpaste hfind, stretchesOf_keys hfind]
        exact processKeys_keeps _ _
      | some i =>
        have hbehind := length_behind hfind
        have htext := text_of_indexOf hfind
        obtain ⟨-, hbefore⟩ := emitAll_spec
          (keys (s.buffer ++ str) s.pendingKittyPrintableCodepoint)
          (extractCompleteSequences ((s.buffer ++ str).take i)).sequences
        have hpasted := @continuePaste_keeps
          ((s.buffer ++ str).drop (i + BRACKETED_PASTE_START.length)) none fun str' hstr' =>
            hnext str' (by
              rw [length_append] at hbehind
              rw [total] at hlength
              omega)
        have hkeeps := hpasted.stretch hbefore
        rw [← htext] at hkeeps
        rw [processWith_start _ hne hmode hpaste hfind, stretchesOf_start hfind]
        exact hkeeps

end StdinBuffer

/-- What can happen to the buffer: a chunk arrives, the timer fires, the owner takes
what is left. -/
inductive StdinInput where
  | process (data : StdinChunk)
  | timeout
  | flush
  deriving DecidableEq

/-- A buffer with the text it was given and what it has given back. -/
structure StdinRun where
  buffer : StdinBuffer
  received : JsString
  emitted : List Emission
  deriving DecidableEq

namespace StdinRun

def initial : StdinRun := ⟨.new, [], []⟩

section

variable (r : StdinRun)

/-- The timer fires only while it runs; what `flush` takes is given back as data. -/
def step : StdinInput → Option StdinRun
  | .process data =>
    some ⟨(r.buffer.process data).1, r.received ++ data.text,
      r.emitted ++ (r.buffer.process data).2⟩
  | .timeout =>
    if r.buffer.timeout then
      some ⟨r.buffer.onTimeout.1, r.received, r.emitted ++ r.buffer.onTimeout.2⟩
    else none
  | .flush => some ⟨r.buffer.flush.1, r.received, r.emitted ++ r.buffer.flush.2.map .data⟩

/-- The emissions and the buffered text are the text received. -/
def LosesNothing : Prop :=
  emissionsText r.emitted ++ r.buffer.bufferedText = r.received

/-- No paste starts in the middle of an escape sequence. -/
def StartsBetweenSequences : StdinInput → Prop
  | .process data => StdinBuffer.AllComplete (stretchesOf r.buffer.pasteMode (r.buffer.unread ++ data.text))
  | _ => True

end

/-- Emissions and buffered text are never longer than what was received. -/
structure Accounted (r : StdinRun) : Prop where
  tidy : r.buffer.Tidy
  length : (emissionsText r.emitted).length + r.buffer.bufferedText.length ≤ r.received.length

end StdinRun

theorem StdinBuffer.flush_spec (hs : s.Tidy) :
    s.flush.1.Tidy ∧ s.flush.2.flatten ++ s.flush.1.bufferedText = s.bufferedText := by
  rw [flush]
  split
  · exact ⟨⟨hs.keys, hs.paste, hs.unended⟩, rfl⟩
  · rename_i hne
    refine ⟨⟨fun _ => rfl, hs.paste, hs.unended⟩, ?_⟩
    have hmode : ¬ s.pasteMode = true := by
      intro hmode
      rw [hs.keys hmode] at hne
      exact hne rfl
    rw [bufferedText, bufferedText, if_neg hmode, if_neg hmode]
    simp only [flatten_cons, flatten_nil, append_nil]

theorem StdinBuffer.onTimeout_spec (hs : s.Tidy) :
    s.onTimeout.1.Tidy ∧ emissionsText s.onTimeout.2 ++ s.onTimeout.1.bufferedText =
      s.bufferedText := by
  obtain ⟨htidy, hflush⟩ := flush_spec hs
  obtain ⟨⟨pending, hstate⟩, htext⟩ := emitAll_spec s.flush.1 s.flush.2
  rw [onTimeout, hstate, htext]
  exact ⟨⟨htidy.keys, htidy.paste, htidy.unended⟩, hflush⟩

namespace StdinRun

theorem emissionsText_append (xs ys : List Emission) :
    emissionsText (xs ++ ys) = emissionsText xs ++ emissionsText ys := flatMap_append

theorem emissionsText_map_data (sequences : List JsString) :
    emissionsText (sequences.map .data) = sequences.flatten := by
  rw [emissionsText, flatMap_map, flatten_eq_flatMap]
  rfl

theorem Accounted.step {r t : StdinRun} (h : r.Accounted) {input : StdinInput}
    (hstep : r.step input = some t) :
    t.Accounted ∧ (t.LosesNothing ↔ r.LosesNothing ∧ r.StartsBetweenSequences input) := by
  obtain ⟨htidy, hle⟩ := h
  have hmoved (s : StdinBuffer) (emissions : List Emission) (hs : s.Tidy)
      (htext : emissionsText emissions ++ s.bufferedText = r.buffer.bufferedText) :
      Accounted ⟨s, r.received, r.emitted ++ emissions⟩ ∧
        (LosesNothing ⟨s, r.received, r.emitted ++ emissions⟩ ↔ r.LosesNothing) := by
    have hlength := congrArg List.length htext
    rw [length_append] at hlength
    refine ⟨⟨hs, ?_⟩, ?_⟩
    · rw [emissionsText_append, length_append]
      dsimp only
      omega
    · rw [LosesNothing, LosesNothing, emissionsText_append, append_assoc, htext]
  cases input with
  | process data =>
    cases hstep
    have hkeeps := processString_keeps data.text htidy
    rw [← process] at hkeeps
    obtain ⟨htidy', htext, hlength⟩ := hkeeps
    rw [length_append] at hlength
    refine ⟨⟨htidy', ?_⟩, fun h => ?_, fun ⟨hr, hcomplete⟩ => ?_⟩
    · rw [emissionsText_append, length_append, length_append]
      dsimp only
      omega
    · have hsame := congrArg List.length h
      rw [emissionsText_append] at hsame
      simp only [length_append] at hsame
      have hzero : leftOver
          (stretchesOf r.buffer.pasteMode (r.buffer.unread ++ data.text)) = 0 := by
        omega
      have hcomplete := leftOver_eq_zero_iff.mp hzero
      rw [LosesNothing, emissionsText_append, append_assoc, htext hcomplete, ← append_assoc] at h
      exact ⟨append_cancel_right h, hcomplete⟩
    · rw [LosesNothing, emissionsText_append, append_assoc, htext hcomplete, ← append_assoc, hr]
  | timeout =>
    rw [StdinRun.step] at hstep
    split at hstep
    · cases hstep
      obtain ⟨hs, htext⟩ := onTimeout_spec htidy
      obtain ⟨haccounted, hiff⟩ := hmoved _ _ hs htext
      exact ⟨haccounted, hiff.trans (and_iff_left trivial).symm⟩
    · contradiction
  | flush =>
    cases hstep
    obtain ⟨hs, htext⟩ := flush_spec htidy
    rw [← emissionsText_map_data] at htext
    obtain ⟨haccounted, hiff⟩ := hmoved _ _ hs htext
    exact ⟨haccounted, hiff.trans (and_iff_left trivial).symm⟩

theorem Accounted.run {r t : StdinRun} (h : r.Accounted) {inputs : List StdinInput}
    (hrun : AcademicAgent.run StdinRun.step r inputs = some t) :
    t.LosesNothing ↔ r.LosesNothing ∧ Along StdinRun.step StartsBetweenSequences r inputs := by
  induction inputs generalizing r with
  | nil =>
    cases hrun
    exact (and_iff_left trivial).symm
  | cons input inputs ih =>
    obtain ⟨u, hstep, hrun⟩ := run_cons_eq_some.mp hrun
    obtain ⟨hu, hiff⟩ := h.step hstep
    have halong : Along StdinRun.step StartsBetweenSequences r (input :: inputs) ↔
        r.StartsBetweenSequences input ∧ Along StdinRun.step StartsBetweenSequences u inputs := by
      refine and_congr_right fun _ => ⟨fun h => h u hstep, fun h v hv => ?_⟩
      cases hstep.symm.trans hv
      exact h
    rw [ih hu hrun, hiff, halong, and_assoc]

/-- Whatever arrives, and whenever the timer fires, nothing is made up: what was emitted and what is
buffered are never longer than what was received, and no end of a paste stays in the buffer. -/
theorem accounted {r : StdinRun} (h : Reachable step initial r) : r.Accounted :=
  h.invariant (fun _ _ _ hr hstep => (hr.step hstep).1) ⟨tidy_new, Nat.le_refl _⟩

theorem accounted_escape : ∃ r, run step initial
    [.process (.string [ESC]), .timeout, .process (.string BRACKETED_PASTE_START)] = some r ∧
      r.Accounted :=
  ⟨_, rfl, accounted ⟨[.process (.string [ESC]), .timeout,
    .process (.string BRACKETED_PASTE_START)], rfl⟩⟩

/-- The text of the emissions and of the buffer is the text received exactly when no
paste has started in the middle of an escape sequence. -/
theorem losesNothing_iff {inputs : List StdinInput} {r : StdinRun}
    (hrun : run step initial inputs = some r) :
    r.LosesNothing ↔ Along step StartsBetweenSequences initial inputs := by
  have haccounted : initial.Accounted := ⟨StdinBuffer.tidy_new, Nat.le_refl _⟩
  have hinitial : initial.LosesNothing := rfl
  exact (haccounted.run hrun).trans (and_iff_right hinitial)

/-- A key before a paste is kept. -/
theorem losesNothing_iff_key :
    LosesNothing ⟨⟨[], false, true, [], none⟩, js "a" ++ BRACKETED_PASTE_START, [.data (js "a")]⟩ ↔
      Along step StartsBetweenSequences initial
        [.process (.string (js "a" ++ BRACKETED_PASTE_START))] :=
  losesNothing_iff (by decide)

/-- An escape that arrives just before a paste is lost. -/
theorem losesNothing_fails :
    run step initial [.process (.string [ESC]), .process (.string (BRACKETED_PASTE_START ++
        BRACKETED_PASTE_END))] =
      some ⟨.new, ESC :: BRACKETED_PASTE_START ++ BRACKETED_PASTE_END, [.paste []]⟩ ∧ ¬ LosesNothing
      ⟨.new, ESC :: BRACKETED_PASTE_START ++ BRACKETED_PASTE_END, [.paste []]⟩ := by
  refine ⟨by decide, ?_⟩
  rw [LosesNothing]
  decide

end StdinRun

end AcademicAgent
