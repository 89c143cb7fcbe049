import AcademicAgent.CodingAgent.Tools.OutputRuns

/-!
# The output accumulator and truncation of the whole output

After any calls up to its end, a snapshot is that of all the output truncated at
once, but for the reason where the rolling tail hides it, and the temporary file is
the output.
-/

namespace AcademicAgent

open Truncate List TextDecoder


namespace OutputAccumulator

/-- The bytes so far are in the temporary file, or held back for it. -/
def Saved (acc : OutputAccumulator) (stream : List UInt8) : Prop :=
  match acc.tempFile with
  | some file => file.flatten = stream
  | none => acc.rawChunks.flatten = stream

theorem ensureTempFile_eq (acc : OutputAccumulator) :
    ∃ rawChunks file, acc.ensureTempFile = { acc with rawChunks, tempFile := some file } := by
  rw [ensureTempFile]
  split
  · rename_i file hfile
    refine ⟨acc.rawChunks, file, ?_⟩
    rw [← hfile]
  · exact ⟨_, _, rfl⟩

theorem Saved.ensureTempFile {acc : OutputAccumulator} {stream : List UInt8}
    (h : Saved acc stream) : Saved acc.ensureTempFile stream := by
  rw [OutputAccumulator.ensureTempFile]
  split
  · exact h
  · rename_i hnone
    rw [Saved, hnone] at h
    exact h

theorem appendDecodedText_frame (acc : OutputAccumulator) (text : JsString) :
    (acc.appendDecodedText text).decoder = acc.decoder ∧
      (acc.appendDecodedText text).finished = acc.finished ∧
        (acc.appendDecodedText text).tempFile = acc.tempFile ∧
          (acc.appendDecodedText text).rawChunks = acc.rawChunks := by
  by_cases hnil : text = []
  · subst hnil
    exact ⟨rfl, rfl, rfl, rfl⟩
  · obtain ⟨tailText, tailBytes, boundary, hrolled⟩ := rolled_eq acc text
    rw [appendDecodedText_of_ne_nil acc hnil, hrolled]
    split <;> exact ⟨rfl, rfl, rfl, rfl⟩

/-- The accumulator after some parts of text, from some bytes. -/
structure Tracks (maxLines maxBytes : Nat) (acc : OutputAccumulator) (parts : List JsString)
    (stream : List UInt8) : Prop where
  counts : Counts maxLines maxBytes acc parts.flatten
  kept : ∃ front, Kept maxBytes acc parts.flatten front ∧
    Utf8.byteLength front = (progress maxBytes parts).2
  short : Utf8.byteLength acc.tailText ≤ 4 * maxBytes
  saved : Saved acc stream

structure Open (maxLines maxBytes : Nat) (acc : OutputAccumulator) (chunks : List (List UInt8)) :
    Prop where
  tracks : Tracks maxLines maxBytes acc (TextDecoder.transducer.feedChunks .new chunks).2
    chunks.flatten
  decoder_eq : acc.decoder = (TextDecoder.transducer.feedChunks .new chunks).1
  sound : Utf8.Sound acc.decoder
  not_finished : acc.finished = false

structure Ended (maxLines maxBytes : Nat) (acc : OutputAccumulator) (chunks : List (List UInt8)) :
    Prop where
  tracks : Tracks maxLines maxBytes acc (decodeChunks chunks) chunks.flatten
  is_finished : acc.finished = true

section

variable {maxLines maxBytes : Nat} {acc acc' : OutputAccumulator} {parts : List JsString}
  {stream : List UInt8} {chunks : List (List UInt8)}

section

variable (h : Tracks maxLines maxBytes acc parts stream)
include h

theorem Tracks.of_eq (heq : { acc' with
      decoder := acc.decoder
      totalRawBytes := acc.totalRawBytes
      finished := acc.finished
      rawChunks := acc.rawChunks
      tempFile := acc.tempFile } = acc) {stream' : List UInt8} (hsaved : Saved acc' stream') :
    Tracks maxLines maxBytes acc' parts stream' := by
  obtain ⟨⟨h1, h2, h3, h4, h5, h6⟩, ⟨front, ⟨h7, h8, h9, h10, h11⟩, hcut⟩, hshort, -⟩ := h
  rw [← heq] at h1 h2 h3 h4 h5 h6 h7 h8 h9 h10 h11 hshort
  exact ⟨⟨h1, h2, h3, h4, h5, h6⟩, ⟨front, ⟨h7, h8, h9, h10, h11⟩, hcut⟩, hshort, hsaved⟩

theorem Tracks.ensureTempFile : Tracks maxLines maxBytes acc.ensureTempFile parts stream := by
  obtain ⟨rawChunks, file, hopened⟩ := ensureTempFile_eq acc
  exact h.of_eq (by rw [hopened]) h.saved.ensureTempFile

theorem Tracks.appendDecodedText
    (hbytes : 4 ≤ maxBytes) {text : JsString} (hwhole : Utf8.Whole text) :
    Tracks maxLines maxBytes (acc.appendDecodedText text) (parts ++ [text]) stream := by
  obtain ⟨front, hkept, hcut⟩ := h.kept
  obtain ⟨front', hkept', hcut', hshort⟩ :=
    hkept.appendDecodedText hbytes h.counts.rolling_eq h.short hwhole
  obtain ⟨-, -, hfile, hraw⟩ := appendDecodedText_frame acc text
  have hflatten : (parts ++ [text]).flatten = parts.flatten ++ text := by
    rw [flatten_append, flatten_singleton]
  refine ⟨?_, ⟨front', ?_, ?_⟩, hshort, ?_⟩
  · rw [hflatten]
    exact h.counts.appendDecodedText hwhole
  · rw [hflatten]
    exact hkept'
  · rw [hcut', hcut, progress_concat, ← progress_text maxBytes parts]
  · have hsaved := h.saved
    rw [Saved] at hsaved ⊢
    rw [hfile, hraw]
    exact hsaved

end

theorem open_new (maxLines maxBytes : Nat) (hbytes : 4 ≤ maxBytes) :
    Open maxLines maxBytes (new ⟨some maxLines, some maxBytes⟩) [] := by
  have hrolling : max (maxBytes * 2) 1 = 2 * maxBytes := by omega
  refine ⟨⟨⟨rfl, rfl, hrolling, rfl, rfl, rfl⟩, ⟨[], ⟨rfl, Utf8.whole_nil, ?_, .inl rfl, rfl⟩, rfl⟩,
    Nat.zero_le _, rfl⟩, rfl, Utf8.sound_new, rfl⟩
  exact iff_of_true rfl (.inl rfl)

def decoded (acc : OutputAccumulator) (data : List UInt8) : OutputAccumulator :=
  { acc with
    totalRawBytes := acc.totalRawBytes + data.length
    decoder := (TextDecoder.transducer.feed acc.decoder data).1 }.appendDecodedText
      (TextDecoder.transducer.feed acc.decoder data).2

def stored (acc : OutputAccumulator) (data : List UInt8) : OutputAccumulator :=
  if acc.tempFile.isSome || acc.shouldUseTempFile then
    { acc.ensureTempFile with tempFile := acc.ensureTempFile.tempFile.map (· ++ [data]) }
  else if data.length > 0 then { acc with rawChunks := acc.rawChunks ++ [data] }
  else acc

theorem call_append (h : acc.finished = false) (data : List UInt8) :
    acc.call (.append data) = (acc.decoded data).stored data := by
  have hopen : ¬ acc.finished = true := by
    rw [h]
    decide
  rw [call, append, if_neg hopen, stored]
  dsimp only
  rw [← decoded]
  split_ifs <;> rfl

theorem Tracks.stored (h : Tracks maxLines maxBytes acc parts stream) (data : List UInt8) :
    Tracks maxLines maxBytes (acc.stored data) parts (stream ++ data) := by
  rw [OutputAccumulator.stored]
  split
  · obtain ⟨rawChunks, file, hopened⟩ := ensureTempFile_eq acc
    have hopen := h.ensureTempFile
    have hsaved := hopen.saved
    rw [hopened] at hopen hsaved ⊢
    refine hopen.of_eq ?_ ?_
    · rfl
    · rw [Saved] at hsaved ⊢
      dsimp only [Option.map_some] at hsaved ⊢
      rw [flatten_append, flatten_singleton, hsaved]
  · rename_i hno
    rw [Bool.or_eq_true, not_or, Bool.not_eq_true, Option.isSome_eq_false_iff,
      Option.isNone_iff_eq_none] at hno
    have hsaved := h.saved
    rw [Saved, hno.1] at hsaved
    split
    · refine h.of_eq ?_ ?_
      · rfl
      · rw [Saved, hno.1]
        rw [flatten_append, flatten_singleton, hsaved]
    · rename_i hempty
      have hdata : data = [] := eq_nil_of_length_eq_zero (by omega)
      rw [hdata, append_nil]
      exact h

theorem stored_frame (acc : OutputAccumulator) (data : List UInt8) :
    (acc.stored data).decoder = acc.decoder ∧ (acc.stored data).finished = acc.finished := by
  obtain ⟨rawChunks, file, hopened⟩ := ensureTempFile_eq acc
  rw [stored, hopened]
  split_ifs <;> exact ⟨rfl, rfl⟩

theorem Open.append (h : Open maxLines maxBytes acc chunks) (hbytes : 4 ≤ maxBytes)
    (data : List UInt8) : Open maxLines maxBytes (acc.call (.append data)) (chunks ++ [data]) := by
  obtain ⟨hsound, hwhole⟩ := Utf8.feed_whole h.sound data
  have hfeed : transducer.feedChunks .new (chunks ++ [data]) =
      ((transducer.feed acc.decoder data).1,
        (transducer.feedChunks .new chunks).2 ++
          [(transducer.feed acc.decoder data).2]) := by
    rw [Transducer.feedChunks_concat, ← h.decoder_eq]
  have hflatten : (chunks ++ [data]).flatten = chunks.flatten ++ data := by
    rw [flatten_append, flatten_singleton]
  have htracks : Tracks maxLines maxBytes (acc.decoded data)
      (transducer.feedChunks .new (chunks ++ [data])).2 chunks.flatten := by
    rw [hfeed]
    refine Tracks.appendDecodedText ?_ hbytes hwhole
    refine h.tracks.of_eq ?_ h.tracks.saved
    rfl
  obtain ⟨hnext, hfin, -, -⟩ := appendDecodedText_frame { acc with
    totalRawBytes := acc.totalRawBytes + data.length
    decoder := (transducer.feed acc.decoder data).1 }
    (transducer.feed acc.decoder data).2
  obtain ⟨hnext', hfin'⟩ := stored_frame (acc.decoded data) data
  have hdecoder : ((acc.decoded data).stored data).decoder =
      (transducer.feed acc.decoder data).1 := hnext'.trans hnext
  rw [call_append h.not_finished]
  refine ⟨?_, ?_, ?_, hfin'.trans (hfin.trans h.not_finished)⟩
  · rw [hflatten]
    exact htracks.stored data
  · rw [hdecoder, hfeed]
  · rw [hdecoder]
    exact hsound

theorem snapshot_eq (acc : OutputAccumulator) (persistIfTruncated : Bool) :
    (acc.snapshot persistIfTruncated).2 = acc.ensureTempFile ∨
      (acc.snapshot persistIfTruncated).2 = acc := by
  rw [snapshot]
  dsimp only
  split
  · exact .inl rfl
  · exact .inr rfl

theorem Tracks.snapshot (h : Tracks maxLines maxBytes acc parts stream)
    (persistIfTruncated : Bool) :
    Tracks maxLines maxBytes (acc.snapshot persistIfTruncated).2 parts stream := by
  rcases snapshot_eq acc persistIfTruncated with hopened | hsame
  · rw [hopened]
    exact h.ensureTempFile
  · rw [hsame]
    exact h

theorem snapshot_frame (acc : OutputAccumulator) (persistIfTruncated : Bool) :
    (acc.snapshot persistIfTruncated).2.decoder = acc.decoder ∧
      (acc.snapshot persistIfTruncated).2.finished = acc.finished := by
  rcases snapshot_eq acc persistIfTruncated with hopened | hsame
  · obtain ⟨rawChunks, file, heq⟩ := ensureTempFile_eq acc
    rw [hopened, heq]
    exact ⟨rfl, rfl⟩
  · rw [hsame]
    exact ⟨rfl, rfl⟩

theorem Open.snapshot (h : Open maxLines maxBytes acc chunks) (persistIfTruncated : Bool) :
    Open maxLines maxBytes (acc.call (.snapshot persistIfTruncated)) chunks := by
  obtain ⟨hdecoder, hfinished⟩ := snapshot_frame acc persistIfTruncated
  refine ⟨h.tracks.snapshot persistIfTruncated, hdecoder.trans h.decoder_eq, ?_,
    hfinished.trans h.not_finished⟩
  rw [call, hdecoder]
  exact h.sound

theorem Open.finish (h : Open maxLines maxBytes acc chunks) (hbytes : 4 ≤ maxBytes) :
    Ended maxLines maxBytes (acc.call .finish) chunks := by
  have hdecoded : Tracks maxLines maxBytes
      ({ acc with finished := true }.appendDecodedText acc.decoder.flush)
      (decodeChunks chunks) chunks.flatten := by
    rw [decodeChunks]
    dsimp only
    rw [← h.decoder_eq]
    refine Tracks.appendDecodedText ?_ hbytes (Utf8.flush_whole acc.decoder)
    refine h.tracks.of_eq ?_ h.tracks.saved
    rfl
  obtain ⟨-, hfin, -, -⟩ := appendDecodedText_frame { acc with finished := true } acc.decoder.flush
  rw [call, OutputAccumulator.finish, h.not_finished, if_neg (by decide)]
  dsimp only
  split
  · obtain ⟨rawChunks, file, hopened⟩ := ensureTempFile_eq
      ({ acc with finished := true }.appendDecodedText acc.decoder.flush)
    exact ⟨hdecoded.ensureTempFile, by rw [hopened]; exact hfin⟩
  · exact ⟨hdecoded, hfin⟩

theorem Ended.call (h : Ended maxLines maxBytes acc chunks) (c : Call) :
    Ended maxLines maxBytes (acc.call c) chunks := by
  cases c with
  | append data =>
    rw [OutputAccumulator.call, OutputAccumulator.append, h.is_finished]
    exact h
  | snapshot persistIfTruncated =>
    exact ⟨h.tracks.snapshot persistIfTruncated,
      (snapshot_frame acc persistIfTruncated).2.trans h.is_finished⟩
  | finish =>
    rw [OutputAccumulator.call, OutputAccumulator.finish, h.is_finished]
    exact h

variable {calls : List Call}

theorem Open.run (hbytes : 4 ≤ maxBytes) (hopen : .finish ∉ calls)
    (h : Open maxLines maxBytes acc chunks) :
    Open maxLines maxBytes (calls.foldl call acc) (chunks ++ OutputAccumulator.chunks calls) := by
  induction calls generalizing acc chunks with
  | nil =>
    rw [OutputAccumulator.chunks, append_nil]
    exact h
  | cons c calls ih =>
    rw [mem_cons, not_or] at hopen
    cases c with
    | append data =>
      have hrun := ih hopen.2 (h.append hbytes data)
      rwa [append_assoc] at hrun
    | snapshot persistIfTruncated => exact ih hopen.2 (h.snapshot persistIfTruncated)
    | finish => exact absurd rfl hopen.1

theorem Ended.run (h : Ended maxLines maxBytes acc chunks) (calls : List Call) :
    Ended maxLines maxBytes (calls.foldl OutputAccumulator.call acc) chunks := by
  induction calls generalizing acc with
  | nil => exact h
  | cons c calls ih => exact ih (h.call c)

theorem chunks_append_finish (hopen : .finish ∉ calls) (after : List Call) :
    OutputAccumulator.chunks (calls ++ .finish :: after) = OutputAccumulator.chunks calls := by
  induction calls with
  | nil => rfl
  | cons c calls ih =>
    rw [mem_cons, not_or] at hopen
    cases c with
    | append data => exact congrArg (data :: ·) (ih hopen.2)
    | snapshot persistIfTruncated => exact ih hopen.2
    | finish => exact absurd rfl hopen.1

theorem ended_run (hbytes : 4 ≤ maxBytes) (hend : .finish ∈ calls) :
    Ended maxLines maxBytes (run ⟨some maxLines, some maxBytes⟩ calls)
      (OutputAccumulator.chunks calls) := by
  obtain ⟨before, after, rfl, hopen⟩ := eq_append_cons_of_mem hend
  rw [chunks_append_finish hopen, run, foldl_append, foldl_cons]
  exact (((open_new maxLines maxBytes hbytes).run hbytes hopen).finish hbytes).run after

end

/-- A snapshot is the whole output truncated at once, and the temporary file, if there
is one, is the output. -/
structure Agrees (acc : OutputAccumulator) (persistIfTruncated : Bool) (stream : List UInt8)
    (options : TruncationOptions) : Prop where
  content : (acc.snapshot persistIfTruncated).1.content =
    (truncateTail (decode stream) options).content
  totalLines : (acc.snapshot persistIfTruncated).1.truncation.totalLines =
    (truncateTail (decode stream) options).totalLines
  totalBytes : (acc.snapshot persistIfTruncated).1.truncation.totalBytes =
    (truncateTail (decode stream) options).totalBytes
  lastLineBytes : (acc.snapshot persistIfTruncated).2.getLastLineBytes =
    Utf8.byteLength (lastLine (decode stream))
  truncatedBy : (acc.snapshot persistIfTruncated).1.truncation.truncatedBy =
    (truncateTail (decode stream) options).truncatedBy
  tempFile : ∀ file ∈ (acc.snapshot persistIfTruncated).2.tempFile, file.flatten = stream

/-- After its end the accumulator agrees with truncation of the whole output, unless the
rolling tail hides why it was truncated. -/
theorem agrees_iff {maxLines maxBytes : Nat} (hlines : 1 ≤ maxLines) (hbytes : 4 ≤ maxBytes)
    {calls : List Call} (hend : .finish ∈ calls) (persistIfTruncated : Bool) :
    Agrees (run ⟨some maxLines, some maxBytes⟩ calls) persistIfTruncated (chunks calls).flatten
        ⟨some maxLines, some maxBytes⟩ ↔
      ¬ Masked maxLines maxBytes (decode (chunks calls).flatten)
        (keptBytes maxBytes (decodeChunks (chunks calls))) := by
  have hended : Ended maxLines maxBytes _ _ := ended_run hbytes hend
  generalize run ⟨some maxLines, some maxBytes⟩ calls = acc at hended ⊢
  have htracks := hended.tracks
  have hafter := htracks.snapshot persistIfTruncated
  obtain ⟨front, hkept, hcut⟩ := htracks.kept
  have hcounts := htracks.counts
  rw [flatten_decodeChunks] at hcounts hkept
  have hlast := hafter.counts.currentLineBytes
  rw [flatten_decodeChunks] at hlast
  have hbytesKept : keptBytes maxBytes (decodeChunks (chunks calls)) =
      Utf8.byteLength acc.tailText := by
    rw [keptBytes, flatten_decodeChunks, ← hcut, hkept.text_eq,
      Utf8.byteLength_append hkept.whole.head, Nat.add_sub_cancel_left]
  have hsaved (file : List (List UInt8))
      (hfile : file ∈ (acc.snapshot persistIfTruncated).2.tempFile) :
      file.flatten = (chunks calls).flatten := by
    have h := hafter.saved
    rw [Saved, Option.mem_def.mp hfile] at h
    exact h
  obtain ⟨hcontent, hreason⟩ := snapshot_tail hlines hkept.text_eq hkept.whole hkept.boundary
    hkept.long
  obtain ⟨htotalLines, htotalBytes⟩ := truncateTail_totals maxLines maxBytes
    (decode (chunks calls).flatten)
  have htruncatedBy : (acc.snapshot persistIfTruncated).1.truncation.truncatedBy =
      reason maxLines maxBytes (splitLines (decode (chunks calls).flatten)).length
        (Utf8.byteLength (decode (chunks calls).flatten))
        (truncateTail acc.getSnapshotText ⟨some maxLines, some maxBytes⟩).truncatedBy := by
    rw [← hcounts.totalLines, ← hcounts.totalDecodedBytes, ← hcounts.maxLines_eq,
      ← hcounts.maxBytes_eq]
    rfl
  have hshown : (acc.snapshot persistIfTruncated).1.content =
      (truncateTail acc.getSnapshotText ⟨some maxLines, some maxBytes⟩).content := by
    rw [← hcounts.maxLines_eq, ← hcounts.maxBytes_eq]
    rfl
  rw [hbytesKept, ← hreason]
  constructor
  · intro h
    rw [← htruncatedBy]
    exact h.truncatedBy
  · intro h
    exact
      { content := hshown.trans hcontent
        totalLines := hcounts.totalLines.trans htotalLines.symm
        totalBytes := hcounts.totalDecodedBytes.trans htotalBytes.symm
        lastLineBytes := hlast
        truncatedBy := htruncatedBy.trans h
        tempFile := hsaved }

/-- The condition for output of one byte. -/
theorem agrees_iff_short :
    Agrees (run ⟨some 1, some 4⟩ [.append [0x61], .finish]) true [0x61] ⟨some 1, some 4⟩ ↔
      ¬ Masked 1 4 (decode [0x61]) (keptBytes 4 (decodeChunks [[0x61]])) :=
  agrees_iff (by decide) (by decide) (.tail _ (.head _)) true

/-- One line may be shown and one line is kept whole: the reason is the lines, but the
accumulator says bytes. -/
theorem not_agrees : ¬ ∀ (maxLines maxBytes : Nat) (calls : List Call) (persistIfTruncated : Bool),
    1 ≤ maxLines → 4 ≤ maxBytes → .finish ∈ calls →
      Agrees (run ⟨some maxLines, some maxBytes⟩ calls) persistIfTruncated
        (chunks calls).flatten ⟨some maxLines, some maxBytes⟩ := by
  intro h
  have hagrees := h 1 4 [.append (.replicate 18 0x61 ++ [0x0A, 0x62]), .finish] true (by decide)
    (by decide) (.tail _ (.head _))
  exact absurd hagrees.truncatedBy (by decide)

end OutputAccumulator

end AcademicAgent
