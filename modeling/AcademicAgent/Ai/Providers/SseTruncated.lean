import AcademicAgent.Ai.Providers.SseChunks

/-!
# Server-sent event bodies that are cut

A beginning of a body has the lines of the whole up to the one in which it ends.
-/

namespace AcademicAgent

open List

variable {line : JsString}

variable {value : JsString}

/-- The replacement character, which stands at the end of a text that is cut inside a code
point. -/
def REPLACEMENT : CodeUnit := 0xFFFD

/-- What a line can become when the text ends inside it. -/
inductive CutKind : LineKind → LineKind → Prop where
  | other (k : LineKind) : CutKind k .other
  | event (value cut : JsString) : CutKind (.event value) (.event cut)
  | data {value more tail : JsString}
      (h : tail = [] ∧ (value ++ more ≠ [] → more ≠ []) ∨ tail = [REPLACEMENT]) :
      CutKind (.data (value ++ more)) (.data (value ++ tail))

/-- The lines of a body that is cut: as those of the whole up to a line, which may be cut
itself, then the end of the body; anywhere, empty lines may have been added. -/
inductive Truncated : List LineKind → List LineKind → Prop where
  | stop {ks : List LineKind} (h : ks ≠ []) : Truncated ks [.blank]
  | line {k cut : LineKind} (ks : List LineKind) (h : CutKind k cut) :
      Truncated (k :: ks) [cut, .blank]
  | keep {ks cut : List LineKind} (k : LineKind) (h : Truncated ks cut) :
      Truncated (k :: ks) (k :: cut)
  | add {ks cut : List LineKind} (h : Truncated ks cut) : Truncated ks (.blank :: cut)

theorem Truncated.ne_nil {ks cut : List LineKind} (h : Truncated ks cut) : ks ≠ [] := by
  induction h with
  | stop h => exact h
  | line ks h | keep k h ih => exact cons_ne_nil _ _
  | add h ih => exact ih

def fieldValue (text : JsString) : JsString :=
  if text.head? = some 0x20 then text.tail else text

def IsField (name line value : JsString) : Prop :=
  line = name ∧ value = [] ∨ ∃ text, line = name ++ 0x3A :: text ∧ value = fieldValue text

theorem IsField.starts {name : JsString} (h : IsField name line value) : name <+: line := by
  rcases h with ⟨rfl, -⟩ | ⟨text, rfl, -⟩
  · exact prefix_rfl
  · exact prefix_append _ _

theorem isField_sseField (line : JsString) : IsField (sseField line).1 line (sseField line).2 := by
  have hfield : sseField line = ((indexOf? [0x3A] line).elim (line, []) fun i =>
      (line.take i, line.drop (i + 1))).map id fieldValue := by
    rw [sseField]
    cases indexOf? [0x3A] line <;> rfl
  rw [hfield]
  cases hindex : indexOf? [0x3A] line with
  | none => exact .inl ⟨rfl, rfl⟩
  | some i =>
    refine .inr ⟨line.drop (i + 1), ?_, rfl⟩
    obtain ⟨⟨-, hcolon⟩, -⟩ := indexOf?_eq_some hindex
    obtain ⟨rest, hrest⟩ := hcolon
    have htail : line.drop (i + 1) = rest := by
      rw [← tail_drop, ← hrest]
      rfl
    calc
      line = line.take i ++ line.drop i := (take_append_drop i line).symm
      _ = line.take i ++ 0x3A :: line.drop (i + 1) := by rw [← hrest, htail]; rfl

theorem isField_of_event (h : lineKind line = .event value) : IsField (js "event") line value := by
  have hfield := isField_sseField line
  unfold lineKind at h
  split_ifs at h with _ _ hevent
  cases h
  rwa [hevent] at hfield

theorem isField_of_data (h : lineKind line = .data value) : IsField (js "data") line value := by
  have hfield := isField_sseField line
  unfold lineKind at h
  split_ifs at h with _ _ _ hdata
  cases h
  rwa [hdata] at hfield

theorem not_event_and_data (hevent : js "event" <+: line) : ¬ js "data" <+: line := by
  intro hdata
  obtain ⟨x, rfl⟩ := hevent
  exact absurd (cons_prefix_cons.mp hdata).1 (by decide)

/-- A line that begins with the name of a field that matters is one of it. -/
def FieldsWhole (line : JsString) : Prop :=
  lineKind line = .other → ¬ js "event" <+: line ∧ ¬ js "data" <+: line

instance (line : JsString) : Decidable (FieldsWhole line) :=
  inferInstanceAs (Decidable (_ → _))

theorem lineKind_ne_blank (h : line ≠ []) : lineKind line ≠ .blank := by
  rw [lineKind, if_neg h]
  split_ifs <;> rintro ⟨⟩

theorem lineKind_of_event (h : FieldsWhole line) (hevent : js "event" <+: line) :
    ∃ value, lineKind line = .event value := by
  have hne : line ≠ [] := by
    rintro rfl
    exact absurd (prefix_nil.mp hevent) (by decide)
  cases hkind : lineKind line with
  | blank => exact absurd hkind (lineKind_ne_blank hne)
  | event value => exact ⟨value, rfl⟩
  | data value => exact absurd (isField_of_data hkind).starts (not_event_and_data hevent)
  | other => exact absurd hevent (h hkind).1

theorem lineKind_of_data (h : FieldsWhole line) (hdata : js "data" <+: line) :
    ∃ value, lineKind line = .data value := by
  have hne : line ≠ [] := by
    rintro rfl
    exact absurd (prefix_nil.mp hdata) (by decide)
  cases hkind : lineKind line with
  | blank => exact absurd hkind (lineKind_ne_blank hne)
  | event value => exact absurd hdata (not_event_and_data (isField_of_event hkind).starts)
  | data value => exact ⟨value, rfl⟩
  | other => exact absurd hdata (h hkind).2

theorem prefix_of_prefix_append {name cut tail : JsString} (hname : REPLACEMENT ∉ name)
    (htail : tail = [] ∨ tail = [REPLACEMENT]) (h : name <+: cut ++ tail) : name <+: cut := by
  rcases htail with rfl | rfl
  · rwa [append_nil] at h
  · rcases prefix_concat_iff.mp h with rfl | h
    · exact absurd (mem_append_right cut (mem_singleton_self _)) hname
    · exact h

theorem fieldValue_append {text : JsString} (h : text ≠ []) (more : JsString) :
    fieldValue (text ++ more) = fieldValue text ++ more := by
  obtain ⟨c, text, rfl⟩ := exists_cons_of_ne_nil h
  by_cases hc : (c :: text).head? = some 0x20
  · have hc' : (c :: text ++ more).head? = some 0x20 := hc
    rw [fieldValue, fieldValue, if_pos hc, if_pos hc']
    rfl
  · have hc' : (c :: text ++ more).head? ≠ some 0x20 := hc
    rw [fieldValue, fieldValue, if_neg hc, if_neg hc']

theorem cutKind_data {cut more tail value' : JsString}
    (htail : tail = [] ∧ more ≠ [] ∨ tail = [REPLACEMENT])
    (hline : IsField (js "data") (cut ++ more) value)
    (hcut : IsField (js "data") (cut ++ tail) value') : CutKind (.data value) (.data value') := by
  rcases hcut with ⟨hcut, rfl⟩ | ⟨text', hcut, rfl⟩
  · exact @CutKind.data [] value [] (.inl ⟨rfl, id⟩)
  · have hname : js "data" ++ [0x3A] <+: cut := by
      refine prefix_of_prefix_append (by decide) (htail.imp_left And.left) ?_
      rw [hcut, ← singleton_append, ← append_assoc]
      exact prefix_append _ _
    obtain ⟨front, rfl⟩ := hname
    have htext' : text' = front ++ tail := by
      simpa using hcut.symm
    subst htext'
    rcases hline with ⟨hline, -⟩ | ⟨text, hline, rfl⟩
    · have hlength := congrArg length hline
      simp at hlength
    · have htext : text = front ++ more := by
        simpa using hline.symm
      subst htext
      by_cases hfront : front = []
      · subst hfront
        have hvalue : fieldValue ([] ++ tail) = tail := by
          rcases htail with ⟨rfl, -⟩ | rfl <;> rfl
        rw [hvalue, nil_append]
        exact @CutKind.data [] (fieldValue more) tail (htail.imp_left fun h => ⟨h.1, id⟩)
      · rw [fieldValue_append hfront, fieldValue_append hfront]
        exact .data (htail.imp_left fun h => ⟨h.1, fun _ => h.2⟩)

theorem cutKind_of_cut {cut more tail : JsString} (hfields : FieldsWhole (cut ++ more))
    (hne : cut ++ tail ≠ []) (htail : tail = [] ∧ more ≠ [] ∨ tail = [REPLACEMENT]) :
    CutKind (lineKind (cut ++ more)) (lineKind (cut ++ tail)) := by
  have htail' : tail = [] ∨ tail = [REPLACEMENT] := htail.imp_left And.left
  cases hkind : lineKind (cut ++ tail) with
  | blank => exact absurd hkind (lineKind_ne_blank hne)
  | event value =>
    have hstarts : js "event" <+: cut :=
      prefix_of_prefix_append (by decide) htail' (isField_of_event hkind).starts
    obtain ⟨whole, hwhole⟩ :=
      lineKind_of_event hfields (hstarts.trans (prefix_append cut more))
    rw [hwhole]
    exact .event _ _
  | data value =>
    have hstarts : js "data" <+: cut :=
      prefix_of_prefix_append (by decide) htail' (isField_of_data hkind).starts
    obtain ⟨whole, hwhole⟩ :=
      lineKind_of_data hfields (hstarts.trans (prefix_append cut more))
    rw [hwhole]
    exact cutKind_data htail (isField_of_data hwhole) (isField_of_data hkind)
  | other => exact .other _

/-- The lines that the end of a body makes of an open line. -/
def lastLines (line : JsString) : List JsString := if line = [] then [[]] else [line, []]

theorem markedLines_split (line : JsString) (ps : List Piece) : ∃ marked, markedLines line ps =
        marked ++ (lastLines (pieceLines line ps).2).map (·, false) ∧
      marked.map Prod.fst = (pieceLines line ps).1 := by
  induction ps generalizing line with
  | nil =>
    refine ⟨[], ?_, rfl⟩
    rw [markedLines, pieceLines, lastLines]
    split <;> rfl
  | cons piece ps ih =>
    rw [markedLines, pieceLines]
    split
    · obtain ⟨marked, hmarked, hfirst⟩ := ih []
      refine ⟨(line, decide (piece = .crlf)) :: marked, ?_, ?_⟩
      · rw [hmarked]
        rfl
      · rw [map_cons, hfirst]
    · exact ih _

theorem Added.split {α : Type} {blank : α} {ms : List (α × Bool)} {ends ls : List α}
    (h : Added blank (ms ++ ends.map (·, false)) ls) :
    ∃ front, ls = front ++ ends ∧ Added blank ms front := by
  induction ms generalizing ls with
  | nil =>
    refine ⟨[], ?_, .nil⟩
    rw [nil_append] at h ⊢
    induction ends generalizing ls with
    | nil =>
      cases h
      rfl
    | cons line ends ih =>
      rw [map_cons] at h
      cases h with
      | keep _ _ hrest => rw [ih hrest]
  | cons m ms ih =>
    rw [cons_append] at h
    cases h with
    | keep line mark hrest =>
      obtain ⟨front, rfl, hfront⟩ := ih hrest
      exact ⟨line :: front, rfl, .keep line mark hfront⟩
    | add line hrest =>
      obtain ⟨front, rfl, hfront⟩ := ih hrest
      exact ⟨line :: blank :: front, rfl, .add line hfront⟩

theorem Truncated.prepend {ms : List (LineKind × Bool)} {front ks cut : List LineKind}
    (h : Added .blank ms front) (hrest : Truncated ks cut) :
    Truncated (ms.map Prod.fst ++ ks) (front ++ cut) := by
  induction h with
  | nil => exact hrest
  | keep k mark _ ih => exact .keep k ih
  | add k _ ih => exact .keep k (.add ih)

theorem closedLines_open (line : JsString) {ps : List Piece} (hps : ps ≠ []) :
    ∃ more rest, closedLines line ps = (line ++ more) :: rest ∧ (more ≠ [] ∨ rest ≠ []) := by
  obtain ⟨piece, ps, rfl⟩ := exists_cons_of_ne_nil hps
  have hclosed (line : JsString) (ps : List Piece) :
      ∃ more rest, closedLines line ps = (line ++ more) :: rest := by
    induction ps generalizing line with
    | nil => exact ⟨[], [], by rw [append_nil]; rfl⟩
    | cons piece ps ih =>
      rw [closedLines_cons]
      split
      · exact ⟨[], closedLines [] ps, by rw [append_nil]⟩
      · obtain ⟨more, rest, h⟩ := ih (line ++ piece.text)
        exact ⟨piece.text ++ more, rest, by rw [h, append_assoc]⟩
  rw [closedLines_cons]
  split
  · refine ⟨[], closedLines [] ps, by rw [append_nil], .inr ?_⟩
    obtain ⟨more, rest, h⟩ := hclosed [] ps
    rw [h]
    exact cons_ne_nil _ _
  · obtain ⟨more, rest, h⟩ := hclosed (line ++ piece.text) ps
    refine ⟨piece.text ++ more, rest, by rw [h, append_assoc], .inl ?_⟩
    cases piece <;> exact cons_ne_nil _ _

theorem closedLines_append (line : JsString) (ps qs : List Piece) : closedLines line (ps ++ qs) =
      (pieceLines line ps).1 ++ closedLines (pieceLines line ps).2 qs := by
  rw [closedLines, pieceLines_append, closedLines, append_assoc]

theorem closedLines_cut {cut more : JsString} (hmore : more ≠ [])
    (hlast : (closedLines [] (pieces (cut ++ more))).getLast? ≠ some []) :
    ∃ rest lines, closedLines [] (pieces (cut ++ more)) =
        (pieceLines [] (pieces cut)).1 ++ ((pieceLines [] (pieces cut)).2 ++ rest) :: lines ∧
      (rest ≠ [] ∨ lines ≠ []) := by
  by_cases hcrlf : cut.getLast? = some cr ∧ more.head? = some lf
  · -- the cut is inside a line end, whose line is closed all the same
    obtain ⟨front, rfl⟩ := getLast?_eq_some_iff.mp hcrlf.1
    obtain ⟨behind, rfl⟩ := head?_eq_some_iff.mp hcrlf.2
    have hwhole : pieces (front ++ [cr] ++ lf :: behind) =
        (pieces front ++ [.crlf]) ++ pieces behind := by
      rw [append_assoc, append_assoc]
      exact pieces_append_crlf front behind
    have hsame : pieceLines [] (pieces front ++ [.crlf]) =
        pieceLines [] (pieces (front ++ [cr])) := by
      rw [pieces_append_cr, pieceLines_append, pieceLines_append]
      rfl
    have hopen : (pieceLines [] (pieces front ++ [.crlf])).2 = [] := by
      rw [pieceLines_append]
      rfl
    rw [hwhole, closedLines_append] at hlast ⊢
    have hbehind : pieces behind ≠ [] := by
      intro hnil
      apply hlast
      rw [hnil, closedLines, pieceLines, hopen, nil_append, getLast?_concat]
    rw [← hsame]
    obtain ⟨rest, lines, h, hne⟩ := closedLines_open
      (pieceLines [] (pieces front ++ [.crlf])).2 hbehind
    exact ⟨rest, lines, by rw [h], hne⟩
  · have hpieces : pieces more ≠ [] := by
      intro hnil
      apply hmore
      rw [← piecesText_pieces more, hnil]
      rfl
    rw [pieces_append hcrlf, closedLines_append]
    obtain ⟨rest, lines, h, hne⟩ := closedLines_open (pieceLines [] (pieces cut)).2 hpieces
    exact ⟨rest, lines, by rw [h], hne⟩

theorem pieceLines_tail (cut : JsString) {tail : JsString}
    (htail : tail = [] ∨ tail = [REPLACEMENT]) : pieceLines [] (pieces (cut ++ tail)) =
      ((pieceLines [] (pieces cut)).1, (pieceLines [] (pieces cut)).2 ++ tail) := by
  rcases htail with rfl | rfl
  · rw [append_nil, append_nil]
  · have hlf : ¬ (cut.getLast? = some cr ∧ [REPLACEMENT].head? = some lf) := by
      rintro ⟨-, h⟩
      exact absurd h (by decide)
    rw [pieces_append hlf, pieceLines_append]
    exact Prod.ext (append_nil _) rfl

def textKinds (text : JsString) : List LineKind := (closedLines [] (pieces text)).map lineKind

/-- The kinds of the lines that a body in chunks is read in. -/
def chunkKinds (chunks : List (List UInt8)) : List LineKind :=
  (bodyLines [] ((TextDecoder.decodeChunks chunks).flatMap pieces)).map lineKind

theorem truncated_chunkKinds {cut more tail : JsString} {chunks : List (List UInt8)}
    (hmore : more ≠ []) (hlast : (closedLines [] (pieces (cut ++ more))).getLast? ≠ some [])
    (hfields : ∀ line ∈ closedLines [] (pieces (cut ++ more)), FieldsWhole line)
    (htail : tail = [] ∨ tail = [REPLACEMENT])
    (htext : TextDecoder.decode chunks.flatten = cut ++ tail) :
    Truncated (textKinds (cut ++ more)) (chunkKinds chunks) := by
  have hadded := (cuts_flatten (TextDecoder.decodeChunks chunks)).added []
  rw [TextDecoder.flatten_decodeChunks, htext] at hadded
  obtain ⟨marked, hmarked, hlines⟩ := markedLines_split [] (pieces (cut ++ tail))
  rw [pieceLines_tail cut htail] at hmarked hlines
  rw [hmarked] at hadded
  obtain ⟨front, hfront, hadded⟩ := hadded.split
  obtain ⟨rest, lines, hwhole, hne⟩ := closedLines_cut hmore hlast
  have hline := hfields _ (hwhole ▸ mem_append_right _ mem_cons_self)
  have hfirst : (marked.map (Prod.map lineKind id)).map Prod.fst =
      (pieceLines [] (pieces cut)).1.map lineKind := by
    rw [← hlines, map_map, map_map]
    rfl
  rw [textKinds, hwhole, chunkKinds, hfront, map_append, map_append, map_cons, ← hfirst]
  refine Truncated.prepend (hadded.map lineKind) ?_
  by_cases hopen : (pieceLines [] (pieces cut)).2 ++ tail = []
  · rw [hopen]
    exact .stop (cons_ne_nil _ _)
  · rw [lastLines, if_neg hopen]
    rcases htail with rfl | rfl
    · by_cases hrest : rest = []
      · subst hrest
        rw [append_nil]
        refine .keep _ (.stop ?_)
        have hmap := hne.resolve_left fun h => h rfl
        simpa using hmap
      · exact .line _ (cutKind_of_cut hline hopen (.inl ⟨rfl, hrest⟩))
    · exact .line _ (cutKind_of_cut hline hopen (.inr rfl))

end AcademicAgent
