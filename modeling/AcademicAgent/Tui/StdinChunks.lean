import AcademicAgent.Tui.StdinText

/-!
# Chunks of input

The sequences at the start of a text do not depend on what follows, so it does not matter how
keys are cut into chunks.
-/

namespace AcademicAgent

open List

variable {text y : JsString} {s : StdinBuffer}

/-- A text starts with a complete sequence of a length. -/
structure FirstSequence (text : JsString) (n : Nat) : Prop where
  pos : 1 ≤ n
  le_length : n ≤ text.length
  complete : text.head? = some ESC → isCompleteSequence (text.take n) ≠ .incomplete
  first : text.head? = some ESC → ∀ j, 1 ≤ j → j < n → isCompleteSequence (text.take j) = .incomplete
  single : text.head? ≠ some ESC → n = 1

theorem sequenceEnd_eq_some_iff {remaining : JsString} {seqEnd fuel n : Nat}
    (hfuel : remaining.length < seqEnd + fuel) : sequenceEnd remaining seqEnd fuel = some n ↔
      (seqEnd ≤ n ∧ n ≤ remaining.length ∧ isCompleteSequence (remaining.take n) ≠ .incomplete ∧
        ∀ j, seqEnd ≤ j → j < n → isCompleteSequence (remaining.take j) = .incomplete) := by
  induction fuel generalizing seqEnd with
  | zero =>
    refine iff_of_false (fun h => by contradiction) ?_
    rintro ⟨hlow, hhigh, -, -⟩
    omega
  | succ fuel ih =>
    rw [sequenceEnd]
    by_cases hle : seqEnd ≤ remaining.length
    · rw [if_pos hle]
      by_cases hstatus : isCompleteSequence (remaining.take seqEnd) = .incomplete
      · rw [if_pos hstatus, ih (by omega)]
        constructor
        · rintro ⟨hlow, hhigh, hcomplete, hfirst⟩
          refine ⟨by omega, hhigh, hcomplete, fun j hj hjn => ?_⟩
          rcases Nat.eq_or_lt_of_le hj with rfl | hlt
          · exact hstatus
          · exact hfirst j hlt hjn
        · rintro ⟨hlow, hhigh, hcomplete, hfirst⟩
          have hne : seqEnd ≠ n := by
            rintro rfl
            exact hcomplete hstatus
          exact ⟨by omega, hhigh, hcomplete, fun j hj hjn => hfirst j (by omega) hjn⟩
      · rw [if_neg hstatus, Option.some.injEq]
        constructor
        · rintro rfl
          exact ⟨Nat.le_refl _, hle, hstatus, fun j hj hjn => by omega⟩
        · rintro ⟨hlow, hhigh, hcomplete, hfirst⟩
          by_contra hne
          exact hstatus (hfirst seqEnd (Nat.le_refl _) (by omega))
    · rw [if_neg hle]
      refine iff_of_false (fun h => by contradiction) ?_
      rintro ⟨hlow, hhigh, -, -⟩
      omega

theorem nextSequence_eq_some_iff (hne : text ≠ []) {n : Nat} :
    nextSequence text = some n ↔ FirstSequence text n := by
  rw [nextSequence]
  by_cases hesc : text.head? = some ESC
  · rw [if_pos hesc, sequenceEnd_eq_some_iff (by omega)]
    constructor
    · rintro ⟨hpos, hle, hcomplete, hfirst⟩
      exact ⟨hpos, hle, fun _ => hcomplete, fun _ => hfirst, fun h => absurd hesc h⟩
    · rintro ⟨hpos, hle, hcomplete, hfirst, -⟩
      exact ⟨hpos, hle, hcomplete hesc, hfirst hesc⟩
  · rw [if_neg hesc, Option.some.injEq]
    constructor
    · rintro rfl
      exact ⟨Nat.le_refl _, length_pos_of_ne_nil hne, fun h => absurd h hesc,
        fun h => absurd h hesc, fun _ => rfl⟩
    · exact fun h => (h.single hesc).symm

theorem FirstSequence.of_take_eq {other : JsString} {n : Nat} (h : FirstSequence text n)
    (htake : other.take n = text.take n) : FirstSequence other n := by
  have hle : n ≤ other.length := by
    have hlength := congrArg List.length htake
    rw [length_take, length_take] at hlength
    have := h.le_length
    omega
  have hhead : other.head? = text.head? := by
    have hother : (other.take n).head? = other.head? := by
      rw [head?_take, if_neg (by have := h.pos; omega)]
    have htext : (text.take n).head? = text.head? := by
      rw [head?_take, if_neg (by have := h.pos; omega)]
    rw [← hother, htake, htext]
  refine ⟨h.pos, hle, fun hesc => ?_, fun hesc j hj hjn => ?_, fun hesc => ?_⟩
  · rw [htake]
    exact h.complete (hhead ▸ hesc)
  · have hshort : other.take j = text.take j := by
      have hcut := congrArg (List.take j) htake
      rwa [take_take, take_take, Nat.min_eq_left (by omega)] at hcut
    rw [hshort]
    exact h.first (hhead ▸ hesc) j hj hjn
  · exact h.single (hhead ▸ hesc)

theorem extract_of_none (h : ∀ n, ¬ FirstSequence text n) :
    extractCompleteSequences text = ⟨[], text⟩ := by
  by_cases hne : text = []
  · subst hne
    rfl
  · rw [extract_eq hne]
    cases hnext : nextSequence text with
    | none => rfl
    | some n => exact absurd ((nextSequence_eq_some_iff hne).mp hnext) (h n)

theorem extract_of_first {n : Nat} (h : FirstSequence text n) : extractCompleteSequences text =
      ⟨text.take n :: (extractCompleteSequences (text.drop n)).sequences,
        (extractCompleteSequences (text.drop n)).remainder⟩ := by
  have hne : text ≠ [] := by
    have := h.pos
    have := h.le_length
    rintro rfl
    rw [length_nil] at *
    omega
  rw [extract_eq hne, (nextSequence_eq_some_iff hne).mpr h]

theorem not_firstSequence_remainder (text : JsString) (n : Nat) :
    ¬ FirstSequence (extractCompleteSequences text).remainder n := by
  induction hlength : text.length using Nat.strong_induction_on generalizing text with
  | _ m ih =>
    by_cases hfirst : ∃ k, FirstSequence text k
    · obtain ⟨k, hk⟩ := hfirst
      rw [extract_of_first hk]
      refine ih _ ?_ (text.drop k) rfl
      have := hk.pos
      have := hk.le_length
      rw [length_drop]
      omega
    · have hnone : ∀ k, ¬ FirstSequence text k := not_exists.mp hfirst
      rw [extract_of_none hnone]
      exact hnone n

theorem extract_append (text more : JsString) :
    extractCompleteSequences ((extractCompleteSequences text).sequences.flatten ++ more) =
      ⟨(extractCompleteSequences text).sequences ++ (extractCompleteSequences more).sequences,
        (extractCompleteSequences more).remainder⟩ := by
  induction hlength : text.length using Nat.strong_induction_on generalizing text with
  | _ m ih =>
    by_cases hfirst : ∃ k, FirstSequence text k
    · obtain ⟨k, hk⟩ := hfirst
      have hpos := hk.pos
      have hle := hk.le_length
      have hshort : (text.drop k).length < m := by
        rw [length_drop]
        omega
      have hrest := ih _ hshort (text.drop k) rfl
      have htaken : (text.take k).length = k := by
        rw [length_take]
        omega
      rw [extract_of_first hk]
      rw [flatten_cons, append_assoc]
      have hk' : FirstSequence (text.take k ++
          ((extractCompleteSequences (text.drop k)).sequences.flatten ++ more)) k := by
        refine hk.of_take_eq ?_
        rw [take_append_of_le_length (by omega), take_take, Nat.min_self]
      rw [extract_of_first hk', take_append_of_le_length (by omega),
        drop_append_of_le_length (by omega), take_take, Nat.min_self,
        drop_eq_nil_of_le (by omega), nil_append, hrest]
      rfl
    · rw [extract_of_none (not_exists.mp hfirst)]
      rfl

theorem extract_parts (text more : JsString) : extractCompleteSequences (text ++ more) =
      ⟨(extractCompleteSequences text).sequences ++ (extractCompleteSequences
            ((extractCompleteSequences text).remainder ++ more)).sequences,
        (extractCompleteSequences
          ((extractCompleteSequences text).remainder ++ more)).remainder⟩ := by
  have hsplit := extract_append text ((extractCompleteSequences text).remainder ++ more)
  rwa [← append_assoc, extract_text] at hsplit

namespace StdinBuffer

/-- What emitting sequences leaves pending, and the emissions. -/
def emitted (pending : Option Nat) (sequences : List JsString) : Option Nat × List Emission :=
  ((emitAll (keys [] pending) sequences).1.pendingKittyPrintableCodepoint,
    (emitAll (keys [] pending) sequences).2)

theorem emitDataSequence_eq (sequence : JsString) (s : StdinBuffer) : emitDataSequence sequence s =
      ({ s with pendingKittyPrintableCodepoint :=
          (emitted s.pendingKittyPrintableCodepoint [sequence]).1 },
        (emitted s.pendingKittyPrintableCodepoint [sequence]).2) := by
  rw [emitted, emitAll, emitAll, emitDataSequence, emitDataSequence, keys]
  split <;> rfl

theorem emitAll_eq (s : StdinBuffer) (sequences : List JsString) : emitAll s sequences =
      ({ s with pendingKittyPrintableCodepoint :=
          (emitted s.pendingKittyPrintableCodepoint sequences).1 },
        (emitted s.pendingKittyPrintableCodepoint sequences).2) := by
  induction sequences generalizing s with
  | nil => rfl
  | cons sequence sequences ih =>
    have hkeys := emitDataSequence_eq sequence (keys [] s.pendingKittyPrintableCodepoint)
    rw [emitted, emitAll, emitAll, ih, emitDataSequence_eq, hkeys]
    rw [ih]
    rfl

theorem emitted_append (pending : Option Nat) (xs ys : List JsString) :
    emitted pending (xs ++ ys) = ((emitted (emitted pending xs).1 ys).1,
      (emitted pending xs).2 ++ (emitted (emitted pending xs).1 ys).2) := by
  induction xs generalizing pending with
  | nil => rfl
  | cons x xs ih =>
    have hcons (pending : Option Nat) (zs : List JsString) : emitted pending (x :: zs) =
        ((emitted (emitted pending [x]).1 zs).1,
          (emitted pending [x]).2 ++ (emitted (emitted pending [x]).1 zs).2) := by
      rw [emitted, emitAll, emitDataSequence_eq, emitAll_eq]
      rfl
    rw [cons_append, hcons, ih, hcons pending xs]
    simp only [append_assoc]

/-- Reads the text of a paste and what is behind it. -/
def readPaste (content : JsString) (pending : Option Nat) : StdinBuffer × List Emission :=
  continuePaste processString (pasting content pending)

def readKeys (text : JsString) (pending : Option Nat) : StdinBuffer × List Emission :=
  match indexOf? BRACKETED_PASTE_START text with
  | some i =>
    ((readPaste (text.drop (i + BRACKETED_PASTE_START.length)) none).1,
      (emitted pending (extractCompleteSequences (text.take i)).sequences).2 ++
        (readPaste (text.drop (i + BRACKETED_PASTE_START.length)) none).2)
  | none =>
    (⟨(extractCompleteSequences text).remainder,
        decide (0 < (extractCompleteSequences text).remainder.length), false, [],
        (emitted pending (extractCompleteSequences text).sequences).1⟩,
      (emitted pending (extractCompleteSequences text).sequences).2)

section

variable {str : JsString} (hstr : str ≠ [])
include hstr

theorem processString_pasting (hs : Tidy s) (hmode : s.pasteMode = true) : processString str s =
      readPaste (s.pasteBuffer ++ str) s.pendingKittyPrintableCodepoint := by
  rw [processString_eq str hs, processWith_pasting _ (fun h => hstr h.1) hmode, hs.keys hmode]
  rfl

theorem processString_keys (hs : Tidy s) (hmode : s.pasteMode = false) :
    processString str s = readKeys (s.buffer ++ str) s.pendingKittyPrintableCodepoint := by
  have hpaste := hs.paste hmode
  have hne : ¬ (str = [] ∧ s.buffer = []) := fun h => hstr h.1
  rw [processString_eq str hs, readKeys]
  cases hfind : indexOf? BRACKETED_PASTE_START (s.buffer ++ str) with
  | some i =>
    rw [processWith_start _ hne hmode hpaste hfind, emitAll_eq]
    rfl
  | none =>
    rw [processWith_keys _ hne hmode hpaste hfind, processKeys, emitAll_eq]
    rfl

theorem processString_new :
    processString str new = readKeys str none := processString_keys hstr tidy_new rfl

end

/-- The first characters of a start marker stay behind the text before it: they
complete no sequence that was begun there. -/
def Kept (before : JsString) : Prop :=
  ∀ k < 6, k ≤ (extractCompleteSequences (before ++ BRACKETED_PASTE_START.take k)).remainder.length

instance (before : JsString) : Decidable (Kept before) :=
  inferInstanceAs (Decidable (∀ k < 6, _))

def AllKept (stretches : List JsString) : Prop := ∀ x ∈ stretches, Kept x

/-- A text is read as its first part is and then, from there, its second. -/
structure Resumes (whole first : StdinBuffer × List Emission) (y : JsString) : Prop where
  tidy : Tidy first.1
  eq : whole = ((processString y first.1).1, first.2 ++ (processString y first.1).2)
  kept : AllKept (stretchesOf first.1.pasteMode (first.1.unread ++ y))

theorem Resumes.prepend {whole first : StdinBuffer × List Emission} (h : Resumes whole first y)
    (emissions : List Emission) :
    Resumes (whole.1, emissions ++ whole.2) (first.1, emissions ++ first.2) y where
  tidy := h.tidy
  eq := by rw [h.eq, append_assoc]
  kept := h.kept

theorem readPaste_resumes {content : JsString} (hy : y ≠ []) (pending : Option Nat)
    (ih : ∀ x, x.length < content.length → x ≠ [] → AllKept (stretchesOf false (x ++ y)) → Resumes (processString (x ++ y) new) (processString x new) y)
    (hkept : AllKept (stretchesOf true (content ++ y))) :
    Resumes (readPaste (content ++ y) pending) (readPaste content pending) y := by
  cases hfind : indexOf? BRACKETED_PASTE_END content with
  | none =>
    have htidy : Tidy (pasting content pending) :=
      ⟨fun _ => rfl, fun h => by contradiction, hfind⟩
    have hfirst : readPaste content pending = (pasting content pending, []) :=
      continuePaste_none _ hfind
    rw [hfirst]
    refine ⟨htidy, ?_, ?_⟩
    · rw [processString_pasting hy htidy rfl]
      rfl
    · rw [unread, pasting, append_nil]
      exact hkept
  | some i =>
    have hwhole := @indexOf?_append_of_some _ _ _ _ y _ hfind
    have hbound := (indexOf?_eq_some hfind).1.add_length_le
    have hdrop : (content ++ y).drop (i + BRACKETED_PASTE_END.length) =
        content.drop (i + BRACKETED_PASTE_END.length) ++ y :=
      drop_append_of_le_length hbound
    have htake : (content ++ y).take i = content.take i :=
      take_append_of_le_length (by omega)
    have hne : (content ++ y).drop (i + BRACKETED_PASTE_END.length) ≠ [] := by
      rw [hdrop]
      exact append_ne_nil_of_right_ne_nil _ hy
    rw [stretchesOf_end hwhole, hdrop] at hkept
    have hread : readPaste (content ++ y) pending = _ := continuePaste_some _ hwhole hne
    rw [hread, hdrop, htake]
    by_cases hrest : content.drop (i + BRACKETED_PASTE_END.length) = []
    · have hfirst : readPaste content pending = _ := continuePaste_end _ hfind hrest
      rw [hfirst, hrest, nil_append]
      rw [hrest, nil_append] at hkept
      exact ⟨tidy_new, rfl, hkept⟩
    · have hfirst : readPaste content pending = _ := continuePaste_some _ hfind hrest
      have hshort : (content.drop (i + BRACKETED_PASTE_END.length)).length < content.length := by
        rw [length_drop, end_length] at *
        omega
      rw [hfirst]
      exact (ih _ hshort hrest hkept).prepend [.paste (content.take i)]

theorem flatten_le_of_kept {i : Nat} (hfind : indexOf? BRACKETED_PASTE_START (text ++ y) = some i)
    (hnone : indexOf? BRACKETED_PASTE_START text = none) (hkept : Kept ((text ++ y).take i))
    {sequences : List JsString} (hsequences : (extractCompleteSequences text).sequences = sequences)
    : sequences.flatten.length ≤ i := by
  have hlength := congrArg List.length (extract_text text)
  rw [length_append, hsequences] at hlength
  by_cases hin : text.length ≤ i
  · omega
  · have hlt := length_lt_of_indexOf?_none hfind hnone
    rw [start_length] at hlt
    have hsplit := text_of_indexOf hfind
    have htext : (text ++ y).take i ++ BRACKETED_PASTE_START.take (text.length - i) = text := by
      have hcut := congrArg (List.take text.length) hsplit
      rw [take_left, take_append, take_of_length_le (by
        rw [length_take, length_append]
        omega)] at hcut
      have htake : ((text ++ y).take i).length = i := by
        rw [length_take, length_append]
        omega
      have hstart (rest : JsString) : (BRACKETED_PASTE_START ++ rest).take (text.length - i) =
          BRACKETED_PASTE_START.take (text.length - i) := by
        refine take_append_of_le_length ?_
        rw [start_length]
        omega
      rw [htake, hstart] at hcut
      exact hcut.symm
    have hback := hkept (text.length - i) (by omega)
    rw [htext] at hback
    omega

theorem readKeys_resumes (hy : y ≠ []) (pending : Option Nat)
    (hnone : indexOf? BRACKETED_PASTE_START text = none)
    (hkept : AllKept (stretchesOf false (text ++ y))) :
    Resumes (readKeys (text ++ y) pending) (readKeys text pending) y := by
  have hparts := extract_text text
  generalize hresult : extractCompleteSequences text = result at hparts
  obtain ⟨sequences, remainder⟩ := result
  have hfirst : readKeys text pending = (⟨remainder, decide (0 < remainder.length), false, [],
      (emitted pending sequences).1⟩, (emitted pending sequences).2) := by
    rw [readKeys, hnone, hresult]
  have htidy : Tidy ⟨remainder, decide (0 < remainder.length), false, [],
      (emitted pending sequences).1⟩ :=
    ⟨fun h => by contradiction, fun _ => rfl, tidy_new.unended⟩
  have hsecond : processString y ⟨remainder, decide (0 < remainder.length), false, [],
      (emitted pending sequences).1⟩ = readKeys (remainder ++ y) (emitted pending sequences).1 :=
    processString_keys hy htidy rfl
  have hunread : unread ⟨remainder, decide (0 < remainder.length), false, [],
      (emitted pending sequences).1⟩ = remainder := rfl
  have hwhole : text ++ y = sequences.flatten ++ (remainder ++ y) := by
    rw [← append_assoc, hparts]
  rw [hfirst]
  cases hfind : indexOf? BRACKETED_PASTE_START (text ++ y) with
  | none =>
    have hrest : indexOf? BRACKETED_PASTE_START (remainder ++ y) = none :=
      indexOf?_none_of_append (hwhole ▸ hfind)
    have hboth := extract_parts text y
    rw [hresult] at hboth
    refine ⟨htidy, ?_, ?_⟩
    · rw [hsecond, readKeys, hfind, readKeys, hrest]
      rw [hboth, emitted_append]
    · rw [hunread, stretchesOf_keys hrest]
      exact fun x hx => absurd hx not_mem_nil
  | some i =>
    rw [stretchesOf_start hfind, AllKept, forall_mem_cons] at hkept
    obtain ⟨hbefore, hkept⟩ := hkept
    have hflat : sequences.flatten.length ≤ i :=
      flatten_le_of_kept hfind hnone hbefore (by rw [hresult])
    have htaken := extract_append text ((remainder ++ y).take (i - sequences.flatten.length))
    have hback (k : Nat) := extract_append text
      ((remainder ++ y).take (i - sequences.flatten.length) ++ BRACKETED_PASTE_START.take k)
    rw [hresult] at htaken
    rw [hwhole] at hfind hbefore hkept ⊢
    have hrest := indexOf?_append_right hfind hflat
    have htake : (sequences.flatten ++ (remainder ++ y)).take i =
        sequences.flatten ++ (remainder ++ y).take (i - sequences.flatten.length) := by
      rw [take_append, take_of_length_le hflat]
    have hdrop : (sequences.flatten ++ (remainder ++ y)).drop (i + BRACKETED_PASTE_START.length) =
        (remainder ++ y).drop (i - sequences.flatten.length + BRACKETED_PASTE_START.length) := by
      rw [drop_append, drop_eq_nil_of_le (by omega), nil_append]
      congr 1
      omega
    rw [htake] at hbefore
    rw [hdrop] at hkept
    refine ⟨htidy, ?_, ?_⟩
    · rw [hsecond, readKeys, hfind, readKeys, hrest]
      dsimp only
      rw [htake, htaken, hdrop, emitted_append]
      simp only [append_assoc]
    · rw [hunread, stretchesOf_start hrest, AllKept, forall_mem_cons]
      refine ⟨fun k hk => ?_, hkept⟩
      have hkeptAt := hbefore k hk
      have hsame := hback k
      rw [hresult] at hsame
      rw [append_assoc, hsame] at hkeptAt
      exact hkeptAt

theorem processString_resumes {x : JsString} (hx : x ≠ []) (hy : y ≠ []) (hs : Tidy s)
    (hkept : AllKept (stretchesOf s.pasteMode (s.unread ++ (x ++ y)))) :
    Resumes (processString (x ++ y) s) (processString x s) y := by
  induction hlength : total x s using Nat.strong_induction_on generalizing x s with
  | _ n ih =>
    have hnext (x' : JsString) (hshort : x'.length < n) (hx' : x' ≠ [])
        (hkept : AllKept (stretchesOf false (x' ++ y))) :
        Resumes (processString (x' ++ y) new) (processString x' new) y :=
      ih _ (by simpa [total, new] using hshort) hx' tidy_new hkept rfl
    have hxy : x ++ y ≠ [] := append_ne_nil_of_left_ne_nil hx y
    cases hmode : s.pasteMode with
    | true =>
      rw [unread, hs.keys hmode, append_nil, hmode, ← append_assoc] at hkept
      rw [processString_pasting hxy hs hmode, processString_pasting hx hs hmode, ← append_assoc]
      refine readPaste_resumes hy _ (fun x' hshort => hnext x' ?_) hkept
      rw [length_append] at hshort
      rw [total] at hlength
      omega
    | false =>
      rw [unread, hs.paste hmode, nil_append, hmode, ← append_assoc] at hkept
      rw [processString_keys hxy hs hmode, processString_keys hx hs hmode, ← append_assoc]
      cases hfind : indexOf? BRACKETED_PASTE_START (s.buffer ++ x) with
      | none => exact readKeys_resumes hy _ hfind hkept
      | some i =>
        have hwhole := @indexOf?_append_of_some _ _ _ _ y _ hfind
        have hbound := (indexOf?_eq_some hfind).1.add_length_le
        have hdrop : (s.buffer ++ x ++ y).drop (i + BRACKETED_PASTE_START.length) =
            (s.buffer ++ x).drop (i + BRACKETED_PASTE_START.length) ++ y :=
          drop_append_of_le_length hbound
        have htake : (s.buffer ++ x ++ y).take i = (s.buffer ++ x).take i :=
          take_append_of_le_length (by omega)
        rw [stretchesOf_start hwhole, hdrop, AllKept, forall_mem_cons] at hkept
        rw [readKeys, hwhole, readKeys, hfind]
        dsimp only
        rw [hdrop, htake]
        refine (readPaste_resumes hy none (fun x' hshort => hnext x' ?_) hkept.2).prepend _
        have hbehind := length_behind hfind
        rw [length_append] at hbehind
        rw [total] at hlength
        omega

def feedAll (s : StdinBuffer) : List JsString → StdinBuffer × List Emission
  | [] => (s, [])
  | chunk :: chunks =>
    ((feedAll (process (.string chunk) s).1 chunks).1,
      (process (.string chunk) s).2 ++ (feedAll (process (.string chunk) s).1 chunks).2)

theorem feedAll_eq (hs : Tidy s) {chunks : List JsString} (hne : ∀ chunk ∈ chunks, chunk ≠ [])
    (hsome : chunks ≠ []) (hkept : AllKept (stretchesOf s.pasteMode (s.unread ++ chunks.flatten))) :
    feedAll s chunks = processString chunks.flatten s := by
  induction chunks generalizing s with
  | nil => contradiction
  | cons chunk chunks ih =>
    rw [forall_mem_cons] at hne
    by_cases hlast : chunks = []
    · subst hlast
      rw [feedAll, feedAll, append_nil, flatten_singleton]
      rfl
    · have hrest : chunks.flatten ≠ [] := by
        obtain ⟨c, hc⟩ := exists_mem_of_ne_nil _ hlast
        intro hnil
        exact hne.2 c hc (flatten_eq_nil_iff.mp hnil c hc)
      rw [flatten_cons] at hkept ⊢
      have hresumes := processString_resumes hne.1 hrest hs hkept
      rw [hresumes.eq, ← ih hresumes.tidy hne.2 hlast hresumes.kept]
      rfl

def events (emissions : List Emission) : List Emission :=
  emissions.filter fun
    | .dropped _ => false
    | _ => true

theorem events_append (xs ys : List Emission) : events (xs ++ ys) = events xs ++ events ys :=
  filter_append _ _

theorem readPaste_head {content : JsString} {pending : Option Nat} {sequence : JsString}
    {emissions : List Emission} :
    events (readPaste content pending).2 ≠ .data sequence :: emissions := by
  intro h
  cases hfind : indexOf? BRACKETED_PASTE_END content with
  | none =>
    rw [readPaste, continuePaste_none _ hfind] at h
    contradiction
  | some i =>
    by_cases hrest : content.drop (i + BRACKETED_PASTE_END.length) = []
    · rw [readPaste, continuePaste_end _ hfind hrest] at h
      exact absurd (List.cons.inj h).1 (by simp)
    · rw [readPaste, continuePaste_some _ hfind hrest] at h
      exact absurd (List.cons.inj h).1 (by simp)

theorem first_of_not_kept {before : JsString} {k : Nat} (hk : k < 6)
    (hlost : (extractCompleteSequences (before ++ BRACKETED_PASTE_START.take k)).remainder.length < k) :
    ∃ sequence rest, 2 ≤ sequence.length ∧
      (extractCompleteSequences (before ++ BRACKETED_PASTE_START.take k)).sequences =
        (extractCompleteSequences before).sequences ++ sequence :: rest := by
  have hparts := extract_parts before (BRACKETED_PASTE_START.take k)
  have hmarker : ∀ k < 6, (extractCompleteSequences (BRACKETED_PASTE_START.take k)).remainder.length = k := by
    decide
  have htaken : (BRACKETED_PASTE_START.take k).length = k := by
    rw [length_take, start_length]
    omega
  rw [hparts] at hlost ⊢
  generalize hremainder : (extractCompleteSequences before).remainder = remainder at hlost ⊢
  have hne : remainder ≠ [] := by
    rintro rfl
    rw [nil_append, hmarker k hk] at hlost
    omega
  by_cases hfirst : ∃ n, FirstSequence (remainder ++ BRACKETED_PASTE_START.take k) n
  · obtain ⟨n, hn⟩ := hfirst
    have hlong : remainder.length < n := by
      by_contra hshort
      have hinside : FirstSequence remainder n := by
        refine hn.of_take_eq ?_
        rw [take_append_of_le_length (by omega)]
      rw [← hremainder] at hinside
      exact not_firstSequence_remainder before n hinside
    have hpos := length_pos_of_ne_nil hne
    have hle := hn.le_length
    rw [extract_of_first hn]
    refine ⟨_, _, ?_, rfl⟩
    rw [length_take]
    omega
  · rw [extract_of_none (not_exists.mp hfirst), length_append] at hlost
    omega

theorem events_emitted_cons {pending : Option Nat} {sequence : JsString}
    (hlength : 2 ≤ sequence.length) (rest : List JsString) :
    ∃ emissions, events (emitted pending (sequence :: rest)).2 = .data sequence :: emissions := by
  have hraw : rawCodepoint sequence = none := if_neg (by omega)
  rw [emitted, emitAll, emitDataSequence, hraw]
  exact ⟨_, rfl⟩

theorem indexOf?_marker {marker before rest other : JsString} {i : Nat}
    (h : indexOf? marker (before ++ (marker ++ rest)) = some i) (hbefore : before.length = i) :
    indexOf? marker (before ++ (marker ++ other)) = some i ∧
      (before ++ (marker ++ other)).take i = before ∧
      (before ++ (marker ++ other)).drop (i + marker.length) = other := by
  subst hbefore
  refine ⟨?_, take_left, ?_⟩
  · rw [← append_assoc] at h ⊢
    refine indexOf?_append_of_some (indexOf?_of_append h ?_)
    rw [length_append]
  · rw [← append_assoc, ← length_append, drop_left]

theorem processString_behind_paste {before content rest : JsString} {i j : Nat}
    (hstart : indexOf? BRACKETED_PASTE_START
      (before ++ (BRACKETED_PASTE_START ++ (content ++ (BRACKETED_PASTE_END ++ rest)))) = some i)
    (hend : indexOf? BRACKETED_PASTE_END (content ++ (BRACKETED_PASTE_END ++ rest)) = some j)
    (hbefore : before.length = i) (hcontent : content.length = j) {other : JsString}
    (hother : other ≠ []) : processString
        (before ++ (BRACKETED_PASTE_START ++ (content ++ (BRACKETED_PASTE_END ++ other)))) new =
      ((processString other new).1, (emitted none (extractCompleteSequences before).sequences).2 ++
          .paste content :: (processString other new).2) := by
  obtain ⟨hfind, htake, hdrop⟩ := @indexOf?_marker _ _ _
    (content ++ (BRACKETED_PASTE_END ++ other)) _ hstart hbefore
  obtain ⟨hfind', htake', hdrop'⟩ := @indexOf?_marker _ _ _ other _ hend hcontent
  have hne : before ++ (BRACKETED_PASTE_START ++ (content ++ (BRACKETED_PASTE_END ++ other))) ≠ [] := by
    refine append_ne_nil_of_right_ne_nil _ (append_ne_nil_of_left_ne_nil ?_ _)
    decide
  have hpaste : readPaste (content ++ (BRACKETED_PASTE_END ++ other)) none =
      ((processString other new).1, .paste content :: (processString other new).2) := by
    have hread := @continuePaste_some processString _ none _ hfind' (by rw [hdrop']; exact hother)
    rw [hdrop', htake'] at hread
    exact hread
  rw [processString_new hne, readKeys, hfind]
  dsimp only
  rw [hdrop, htake, hpaste]

theorem exists_cut_of_not_kept (hbad : ∃ x ∈ stretchesOf false text, ¬ Kept x) :
    ∃ u v, u ≠ [] ∧ v ≠ [] ∧ text = u ++ v ∧
      events ((processString u new).2 ++ (processString v (processString u new).1).2) ≠
        events (processString text new).2 := by
  induction hlength : text.length using Nat.strong_induction_on generalizing text with
  | _ n ih =>
    obtain ⟨x, hx, hlost⟩ := hbad
    cases hstart : indexOf? BRACKETED_PASTE_START text with
    | none =>
      rw [stretchesOf_keys hstart] at hx
      contradiction
    | some i =>
      have htext := text_of_indexOf hstart
      have hbound := (indexOf?_eq_some hstart).1.add_length_le
      rw [start_length] at hbound
      have hbefore : (text.take i).length = i := by
        rw [length_take]
        omega
      have hne : text ≠ [] := by
        rintro rfl
        rw [length_nil] at hbound
        omega
      rw [stretchesOf_start hstart, mem_cons] at hx
      generalize hcontent : text.drop (i + BRACKETED_PASTE_START.length) = content at htext hx
      generalize hfront : text.take i = before at htext hbefore hx
      by_cases hkept : Kept before
      · -- the first marker is kept, so it is a later one: behind the end of the paste
        rcases hx with rfl | hx
        · exact absurd hkept hlost
        cases hend : indexOf? BRACKETED_PASTE_END content with
        | none =>
          rw [stretchesOf_open hend] at hx
          contradiction
        | some j =>
          have hcontentText := text_of_indexOf hend
          have hcontentBound := (indexOf?_eq_some hend).1.add_length_le
          have htaken : (content.take j).length = j := by
            rw [length_take]
            omega
          have hrestLength := congrArg List.length hcontent
          rw [length_drop] at hrestLength
          rw [stretchesOf_end hend] at hx
          generalize hbehind : content.drop (j + BRACKETED_PASTE_END.length) = rest
            at hcontentText hx
          have hshort : rest.length < n := by
            rw [← hbehind, length_drop]
            rw [end_length] at hcontentBound ⊢
            omega
          obtain ⟨u, v, hu, hv, huv, hdiffer⟩ := ih _ hshort ⟨x, hx, hlost⟩ rfl
          rw [hcontentText] at htext hend
          rw [htext] at hstart
          have hread (other : JsString) (hother : other ≠ []) :=
            processString_behind_paste hstart hend hbefore htaken hother
          have hwhole := hread rest (by
            rw [huv]
            exact append_ne_nil_of_left_ne_nil hu v)
          refine ⟨before ++ (BRACKETED_PASTE_START ++ (content.take j ++
            (BRACKETED_PASTE_END ++ u))), v, ?_, hv, ?_, fun hsame => hdiffer ?_⟩
          · refine append_ne_nil_of_right_ne_nil _ (append_ne_nil_of_left_ne_nil ?_ _)
            decide
          · rw [htext, huv]
            simp only [append_assoc]
          · rw [htext, hread u hu, hwhole] at hsame
            rw [append_assoc, cons_append, events_append, events_append] at hsame
            exact (List.cons.inj (append_cancel_left hsame)).2
      · -- cut behind the part of the marker that is taken
        simp only [Kept, not_forall, Nat.not_le] at hkept
        obtain ⟨k, hk, hshort⟩ := hkept
        obtain ⟨sequence, rest, hlong, hsequences⟩ := first_of_not_kept hk hshort
        have hcut : before ++ BRACKETED_PASTE_START.take k ++
            (BRACKETED_PASTE_START.drop k ++ content) = text := by
          conv_rhs => rw [htext]
          rw [append_assoc, ← append_assoc (BRACKETED_PASTE_START.take k), take_append_drop]
        have hmarker : (BRACKETED_PASTE_START.take k).length = k := by
          rw [length_take, start_length]
          omega
        have hnone : indexOf? BRACKETED_PASTE_START (before ++ BRACKETED_PASTE_START.take k) =
            none := by
          cases hfind : indexOf? BRACKETED_PASTE_START (before ++ BRACKETED_PASTE_START.take k) with
          | none => rfl
          | some j =>
            have hinside := (indexOf?_eq_some hfind).1.add_length_le
            have hfirst := @indexOf?_append_of_some _ _ _ _
              (BRACKETED_PASTE_START.drop k ++ content) _ hfind
            rw [hcut, hstart] at hfirst
            cases hfirst
            rw [length_append, hmarker, start_length] at hinside
            omega
        have hpos : 0 < k := by omega
        refine ⟨before ++ BRACKETED_PASTE_START.take k, BRACKETED_PASTE_START.drop k ++ content,
          ?_, ?_, hcut.symm, fun hsame => ?_⟩
        · refine append_ne_nil_of_right_ne_nil _ (ne_nil_of_length_pos ?_)
          omega
        · refine append_ne_nil_of_left_ne_nil (ne_nil_of_length_pos ?_) _
          rw [length_drop, start_length]
          omega
        · have hne' : before ++ BRACKETED_PASTE_START.take k ≠ [] := by
            refine append_ne_nil_of_right_ne_nil _ (ne_nil_of_length_pos ?_)
            omega
          have hfirst : (processString (before ++ BRACKETED_PASTE_START.take k) new).2 =
              (emitted none (extractCompleteSequences before).sequences).2 ++
                (emitted (emitted none (extractCompleteSequences before).sequences).1
                  (sequence :: rest)).2 := by
            rw [processString_new hne', readKeys, hnone]
            rw [hsequences, emitted_append]
          have hsecond : (processString text new).2 =
              (emitted none (extractCompleteSequences before).sequences).2 ++
                (readPaste content none).2 := by
            rw [processString_new hne, readKeys, hstart]
            dsimp only
            rw [hcontent, hfront]
          obtain ⟨emissions, hemitted⟩ := @events_emitted_cons
            (emitted none (extractCompleteSequences before).sequences).1 _ hlong rest
          rw [hfirst, hsecond, events_append, events_append, events_append, append_assoc,
            hemitted] at hsame
          exact readPaste_head (append_cancel_left hsame).symm

end StdinBuffer

/-- The events and the buffered text of an input do not depend on how it is cut into
chunks exactly when no sequence that was begun before a paste start marker is
completed by the first characters of the marker. -/
theorem feedAll_independent_iff (input : JsString) :
    (∀ chunks others : List JsString, (∀ chunk ∈ chunks, chunk ≠ []) → (∀ chunk ∈ others, chunk ≠ []) →
        chunks.flatten = input → others.flatten = input →
          StdinBuffer.events (StdinBuffer.feedAll .new chunks).2 =
              StdinBuffer.events (StdinBuffer.feedAll .new others).2 ∧
            (StdinBuffer.feedAll .new chunks).1.bufferedText =
              (StdinBuffer.feedAll .new others).1.bufferedText) ↔
      ∀ before ∈ stretchesOf false input, StdinBuffer.Kept before := by
  constructor
  · intro hsame
    by_contra hbad
    simp only [not_forall] at hbad
    obtain ⟨x, hx, hlost⟩ := hbad
    obtain ⟨u, v, hu, hv, huv, hdiffer⟩ := StdinBuffer.exists_cut_of_not_kept ⟨x, hx, hlost⟩
    have hne : input ≠ [] := by
      rw [huv]
      exact append_ne_nil_of_left_ne_nil hu v
    have hevents := (hsame [u, v] [input] (by simp [hu, hv]) (by simp [hne])
      (by rw [huv, flatten_cons, flatten_singleton]) flatten_singleton).1
    simp only [StdinBuffer.feedAll, append_nil] at hevents
    exact hdiffer hevents
  · intro hkept chunks others hchunks hothers hinput hinput'
    have hread (chunks : List JsString) (hne : ∀ chunk ∈ chunks, chunk ≠ [])
        (hflatten : chunks.flatten = input) : StdinBuffer.feedAll .new chunks =
          if input = [] then (.new, []) else StdinBuffer.processString input .new := by
      by_cases hnil : input = []
      · rw [if_pos hnil]
        have hempty : chunks = [] := by
          rw [eq_nil_iff_forall_not_mem]
          intro chunk hmem
          rw [hnil] at hflatten
          exact hne chunk hmem (flatten_eq_nil_iff.mp hflatten chunk hmem)
        rw [hempty]
        rfl
      · rw [if_neg hnil, ← hflatten]
        refine StdinBuffer.feedAll_eq StdinBuffer.tidy_new hne ?_ ?_
        · rintro rfl
          exact hnil hflatten.symm
        · rw [hflatten]
          exact hkept
    rw [hread chunks hchunks hinput, hread others hothers hinput']
    exact ⟨rfl, rfl⟩

/-- An escape before a paste, with a cut behind the escape that the marker starts with. -/
theorem feedAll_cut_in_marker : (StdinBuffer.feedAll .new [ESC :: BRACKETED_PASTE_START]).2 = [] ∧
      (StdinBuffer.feedAll .new [[ESC, ESC], js "[200~"]).2 =
        [.data [ESC, ESC], .data (js "["), .data (js "2"), .data (js "0"), .data (js "0"),
          .data (js "~")] := by
  exact ⟨by decide, by decide⟩

end AcademicAgent
