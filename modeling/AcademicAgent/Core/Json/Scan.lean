import AcademicAgent.Core.Json.Text

/-!
# Brackets and strings of a JSON text

Scanned for its brackets and strings alone, a text that parses is at its end either behind the
last closing bracket or in a value without brackets.
-/

namespace AcademicAgent

open List Option Numeral

variable {text : JsString} {c : CodeUnit} {p : JsString × JsString}

variable {rest : JsString}

namespace Json

/-- Where a scan stands: before a value, in one without brackets, inside so many further
brackets, in a string there, behind a backslash of it, behind the last bracket, or behind
something that can follow none of these. -/
inductive Scan where
  | start
  | scalar
  | inside (depth : Nat)
  | string (depth : Nat)
  | escaped (depth : Nat)
  | finished
  | failed
  deriving DecidableEq

/-- The code units that a value without brackets can start with. -/
def isScalarStart (c : CodeUnit) : Bool :=
  c == 0x22 || c == 0x2D || isDigit c || c == 0x6E || c == 0x74 || c == 0x66

namespace Scan

def closed : Nat → Scan
  | 0 => .finished
  | depth + 1 => .inside depth

def step : Scan → CodeUnit → Scan
  | .start, c =>
    if isJsonWhitespace c then .start
    else if c = 0x5B ∨ c = 0x7B then .inside 0
    else if isScalarStart c then .scalar
    else .failed
  | .scalar, _ => .scalar
  | .inside depth, c =>
    if c = 0x22 then .string depth
    else if c = 0x5B ∨ c = 0x7B then .inside (depth + 1)
    else if c = 0x5D ∨ c = 0x7D then closed depth
    else .inside depth
  | .string depth, c =>
    if c = 0x22 then .inside depth
    else if c = 0x5C then .escaped depth
    else .string depth
  | .escaped depth, _ => .string depth
  | .finished, c => if isJsonWhitespace c then .finished else .failed
  | .failed, _ => .failed

def Whole (s : Scan) : Prop := s = .finished ∨ s = .scalar

instance (s : Scan) : Decidable s.Whole := inferInstanceAs (Decidable (_ ∨ _))

end Scan

def scan (s : Scan) (text : JsString) : Scan := text.foldl Scan.step s

theorem scan_cons (s : Scan) (c : CodeUnit) (text : JsString) :
    scan s (c :: text) = scan (s.step c) text := rfl

theorem scan_append (s : Scan) (x y : JsString) : scan s (x ++ y) = scan (scan s x) y :=
  foldl_append

theorem scan_scalar (text : JsString) : scan .scalar text = .scalar := by
  induction text with
  | nil => rfl
  | cons c text ih => exact ih

theorem scan_failed (text : JsString) : scan .failed text = .failed := by
  induction text with
  | nil => rfl
  | cons c text ih => exact ih

theorem scan_finished (h : scan .finished text = .finished) :
    ∀ c ∈ text, isJsonWhitespace c = true := by
  induction text with
  | nil => exact fun c hc => by contradiction
  | cons c text ih =>
    rw [scan_cons, Scan.step] at h
    split at h
    · rename_i hc
      intro d hd
      rcases mem_cons.mp hd with rfl | hd
      · exact hc
      · exact ih h d hd
    · rw [scan_failed] at h
      contradiction

theorem scan_whitespace {s : Scan} (hs : s = .start ∨ s = .finished)
    (h : ∀ c ∈ text, isJsonWhitespace c = true) : scan s text = s := by
  induction text with
  | nil => rfl
  | cons c text ih =>
    have hstep : s.step c = s := by
      rcases hs with rfl | rfl
      · exact if_pos (h c mem_cons_self)
      · exact if_pos (h c mem_cons_self)
    rw [scan_cons, hstep]
    exact ih fun d hd => h d (mem_cons_of_mem c hd)

/-- What is consumed of a text leads from one place to another, at every depth. -/
def Consumes (f g : Nat → Scan) (text rest : JsString) : Prop :=
  ∃ consumed, text = consumed ++ rest ∧ ∀ depth, scan (f depth) consumed = g depth

theorem Consumes.refl (f : Nat → Scan) (text : JsString) : Consumes f f text text :=
  ⟨[], rfl, fun _ => rfl⟩

theorem Consumes.trans {f g h : Nat → Scan} {x y z : JsString} (hxy : Consumes f g x y)
    (hyz : Consumes g h y z) : Consumes f h x z := by
  obtain ⟨c, rfl, hc⟩ := hxy
  obtain ⟨d, rfl, hd⟩ := hyz
  refine ⟨c ++ d, (append_assoc ..).symm, fun depth => ?_⟩
  rw [scan_append, hc, hd]

theorem Consumes.cons {f g h : Nat → Scan} {c : CodeUnit} {text rest : JsString}
    (hc : ∀ depth, (f depth).step c = g depth) (hrest : Consumes g h text rest) :
    Consumes f h (c :: text) rest := by
  obtain ⟨d, rfl, hd⟩ := hrest
  refine ⟨c :: d, rfl, fun depth => ?_⟩
  rw [scan_cons, hc, hd]

theorem Consumes.deeper {f g : Nat → Scan} (h : Consumes f g text rest) :
    Consumes (fun depth => f (depth + 1)) (fun depth => g (depth + 1)) text rest := by
  obtain ⟨c, htext, hc⟩ := h
  exact ⟨c, htext, fun depth => hc (depth + 1)⟩

/-- A code unit that is neither a bracket nor a quotation mark. -/
def IsPlain (c : CodeUnit) : Prop :=
  c ≠ 0x22 ∧ ¬ (c = 0x5B ∨ c = 0x7B) ∧ ¬ (c = 0x5D ∨ c = 0x7D)

instance (c : CodeUnit) : Decidable (IsPlain c) := inferInstanceAs (Decidable (_ ∧ _))

theorem IsPlain.step (h : IsPlain c) (depth : Nat) :
    (Scan.inside depth).step c = .inside depth := by
  rw [Scan.step, if_neg h.1, if_neg h.2.1, if_neg h.2.2]

/-- A beginning of the text without brackets and quotation marks. -/
def PlainRun (text rest : JsString) : Prop :=
  ∃ run, text = run ++ rest ∧ ∀ c ∈ run, IsPlain c

theorem PlainRun.refl (text : JsString) : PlainRun text text := ⟨[], rfl, forall_mem_nil _⟩

theorem PlainRun.trans {x y z : JsString} (hxy : PlainRun x y) (hyz : PlainRun y z) :
    PlainRun x z := by
  obtain ⟨c, rfl, hc⟩ := hxy
  obtain ⟨d, rfl, hd⟩ := hyz
  exact ⟨c ++ d, (append_assoc ..).symm, forall_mem_append.mpr ⟨hc, hd⟩⟩

theorem PlainRun.cons {c : CodeUnit} {text rest : JsString} (hc : IsPlain c)
    (hrest : PlainRun text rest) : PlainRun (c :: text) rest := by
  obtain ⟨d, rfl, hd⟩ := hrest
  exact ⟨c :: d, rfl, forall_mem_cons.mpr ⟨hc, hd⟩⟩

theorem PlainRun.consumes (h : PlainRun text rest) : Consumes .inside .inside text rest := by
  obtain ⟨run, rfl, hrun⟩ := h
  refine ⟨run, rfl, fun depth => ?_⟩
  induction run with
  | nil => rfl
  | cons c run ih =>
    rw [scan_cons, (hrun c mem_cons_self).step]
    exact ih fun d hd => hrun d (mem_cons_of_mem c hd)

theorem isPlain_of_isJsonWhitespace (h : isJsonWhitespace c = true) : IsPlain c := by
  simp only [isJsonWhitespace, Bool.or_eq_true, beq_iff_eq] at h
  rcases h with ((rfl | rfl) | rfl) | rfl <;> decide

theorem isPlain_of_numeral_head (h : c = 0x2D ∨ isDigit c = true) : IsPlain c := by
  obtain ⟨_, hquote, hopen, hclose, hopen', hclose', _⟩ := ne_of_numeral_head h
  exact ⟨hquote, not_or.mpr ⟨hopen, hopen'⟩, not_or.mpr ⟨hclose, hclose'⟩⟩

theorem isPlain_of_isDigit (h : isDigit c = true) : IsPlain c :=
  isPlain_of_numeral_head (.inr h)

theorem plainRun_skipWhitespace (text : JsString) : PlainRun text (skipWhitespace text) :=
  ⟨text.takeWhile isJsonWhitespace, (takeWhile_append_dropWhile ..).symm,
    fun _ hc => isPlain_of_isJsonWhitespace (mem_takeWhile_imp hc)⟩

theorem plainRun_digits (text : JsString) : PlainRun text (text.dropWhile isDigit) :=
  ⟨text.takeWhile isDigit, (takeWhile_append_dropWhile ..).symm,
    fun _ hc => isPlain_of_isDigit (mem_takeWhile_imp hc)⟩

theorem plainRun_parseFraction (h : parseFraction text = some p) : PlainRun text p.2 := by
  unfold parseFraction at h
  split at h
  · split at h
    · contradiction
    · cases h
      exact .cons (by decide) (plainRun_digits _)
  · cases h
    exact .refl _

theorem plainRun_parseSign (text : JsString) : PlainRun text (parseSign text).2 := by
  unfold parseSign
  split
  · exact .cons (by decide) (.refl _)
  · exact .cons (by decide) (.refl _)
  · exact .refl _

theorem plainRun_parseExp {p : Option Int × JsString} (h : parseExp text = some p) :
    PlainRun text p.2 := by
  unfold parseExp at h
  split at h
  · rename_i c rest
    split at h
    · rename_i hc
      have hplain : IsPlain c := by rcases hc with rfl | rfl <;> decide
      rw [parseExpDigits] at h
      split at h
      · contradiction
      · cases h
        exact .cons hplain ((plainRun_parseSign rest).trans (plainRun_digits _))
    · cases h
      exact .refl _
  · cases h
    exact .refl _

theorem plainRun_parseUnsigned {neg : Bool} {p : Numeral × JsString}
    (h : parseUnsigned neg text = some p) : PlainRun text p.2 := by
  obtain ⟨int, hint, h⟩ := bind_eq_some_iff.mp h
  obtain ⟨frac, hfrac, h⟩ := bind_eq_some_iff.mp h
  obtain ⟨exp, hexp, h⟩ := bind_eq_some_iff.mp h
  cases h
  have hdigits : PlainRun text int.2 := by
    rw [parseInt] at hint
    split at hint
    · contradiction
    · cases hint
      exact plainRun_digits text
  exact (hdigits.trans (plainRun_parseFraction hfrac)).trans (plainRun_parseExp hexp)

theorem plainRun_parseDecimal {p : Decimal × JsString} (h : Decimal.parse text = some p) :
    PlainRun text p.2 := by
  obtain ⟨q, hq, rfl⟩ := map_eq_some_iff.mp h
  unfold Numeral.parse at hq
  split at hq
  · exact .cons (by decide) (plainRun_parseUnsigned hq)
  · exact plainRun_parseUnsigned hq

theorem plainRun_afterLiteral {literal : JsString} (hliteral : ∀ c ∈ literal, IsPlain c)
    (h : afterLiteral literal text = some rest) : PlainRun text rest := by
  rw [afterLiteral] at h
  split at h
  · rename_i htake
    cases h
    refine ⟨literal, ?_, hliteral⟩
    calc
      text = text.take literal.length ++ text.drop literal.length :=
        (take_append_drop _ _).symm
      _ = literal ++ text.drop literal.length := by rw [htake]
  · contradiction

theorem plainRun_parseScalar {p : Tree × JsString} (h : parseScalar text = some p) :
    PlainRun text p.2 := by
  simp only [parseScalar, or_eq_some_iff, map_eq_some_iff] at h
  rcases h with ⟨_, hnull, rfl⟩ | ⟨_, ⟨_, htrue, rfl⟩ | ⟨_, ⟨_, hfalse, rfl⟩ | ⟨_, q, hq, rfl⟩⟩⟩
  · exact plainRun_afterLiteral (forall_mem_of_all (by decide)) hnull
  · exact plainRun_afterLiteral (forall_mem_of_all (by decide)) htrue
  · exact plainRun_afterLiteral (forall_mem_of_all (by decide)) hfalse
  · exact plainRun_parseDecimal hq

theorem step_string_of_hexValue {n : Nat} (h : hexValue c = some n) (depth : Nat) :
    (Scan.string depth).step c = .string depth := by
  have hquote : c ≠ 0x22 := by
    rintro rfl
    simp [hexValue] at h
  have hslash : c ≠ 0x5C := by
    rintro rfl
    simp [hexValue] at h
  rw [Scan.step, if_neg hquote, if_neg hslash]

/-- What is read of a string literal leads behind its closing quotation mark. -/
theorem consumes_parseString (h : parseString text = some p) :
    Consumes .string .inside text p.2 := by
  fun_induction parseString text generalizing p with
  | case1 => contradiction
  | case2 s =>
    cases h
    exact .cons (fun depth => rfl) (.refl _ _)
  | case3 a b c d s ih =>
    obtain ⟨u, hu, h⟩ := bind_eq_some_iff.mp h
    obtain ⟨q, hq, rfl⟩ := map_eq_some_iff.mp h
    obtain ⟨_, ha, hu⟩ := bind_eq_some_iff.mp hu
    obtain ⟨_, hb, hu⟩ := bind_eq_some_iff.mp hu
    obtain ⟨_, hc, hu⟩ := bind_eq_some_iff.mp hu
    obtain ⟨_, hd, hu⟩ := bind_eq_some_iff.mp hu
    refine .cons (g := .escaped) (fun depth => rfl) (.cons (g := .string) (fun depth => rfl) ?_)
    exact .cons (step_string_of_hexValue ha) (.cons (step_string_of_hexValue hb)
      (.cons (step_string_of_hexValue hc) (.cons (step_string_of_hexValue hd) (ih (p := q) hq))))
  | case4 c s hc ih =>
    obtain ⟨u, hu, h⟩ := bind_eq_some_iff.mp h
    obtain ⟨q, hq, rfl⟩ := map_eq_some_iff.mp h
    exact .cons (g := .escaped) (fun depth => rfl) (.cons (g := .string) (fun depth => rfl) (ih (p := q) hq))
  | case5 c s hquote huni hslash hcontrol =>
    contradiction
  | case6 c s hquote huni hslash hcontrol ih =>
    obtain ⟨q, hq, rfl⟩ := map_eq_some_iff.mp h
    have hstep (depth : Nat) : (Scan.string depth).step c = .string depth := by
      rw [Scan.step, if_neg hquote, if_neg fun h => hcontrol (.inr h)]
    exact .cons hstep (ih (p := q) hq)

/-- What is read behind an opening bracket, up to and with the one that closes it. -/
inductive ReadsInside (fuel : Nat) (text : JsString) : JsString → Prop where
  | empty {d : CodeUnit} {rest : JsString} (hnext : skipWhitespace text = d :: rest)
      (hd : d = 0x5D ∨ d = 0x7D) : ReadsInside fuel text rest
  | elements {x : Tree × JsString} {xs : List Tree × JsString}
      (hx : parseValue fuel (skipWhitespace text) = some x)
      (hxs : parseElements fuel x.2 = some xs) : ReadsInside fuel text xs.2
  | members {k : JsString × JsString} {x : Tree × JsString}
      {ms : List (JsString × Tree) × JsString}
      (hk : parseKey (skipWhitespace text) = some k) (hx : parseValue fuel k.2 = some x)
      (hms : parseMembers fuel [(k.1, x.1)] x.2 = some ms) : ReadsInside fuel text ms.2

theorem parseValue_cases {fuel : Nat} {p : Tree × JsString}
    (h : parseValue (fuel + 1) text = some p) : ∃ c s, skipWhitespace text = c :: s ∧
      ((c = 0x22 ∧ ∃ q, parseString s = some q ∧ p = (.str q.1, q.2)) ∨
        ((c = 0x5B ∨ c = 0x7B) ∧ ReadsInside fuel s p.2) ∨
          (¬ (c = 0x5B ∨ c = 0x7B) ∧ parseScalar (c :: s) = some p)) := by
  rw [parseValue] at h
  split at h
  · contradiction
  · rename_i c s hskip
    refine ⟨c, s, hskip, ?_⟩
    split_ifs at h with hquote hbracket hbrace
    · obtain ⟨q, hq, rfl⟩ := map_eq_some_iff.mp h
      exact .inl ⟨hquote, q, hq, rfl⟩
    · refine .inr (.inl ⟨.inl hbracket, ?_⟩)
      split at h
      · contradiction
      · rename_i d t hnext
        split_ifs at h with hclose
        · cases h
          exact .empty hnext (.inl hclose)
        · obtain ⟨x, hx, h⟩ := bind_eq_some_iff.mp h
          obtain ⟨xs, hxs, rfl⟩ := map_eq_some_iff.mp h
          exact .elements (hnext ▸ hx) hxs
    · refine .inr (.inl ⟨.inr hbrace, ?_⟩)
      split at h
      · contradiction
      · rename_i d t hnext
        split_ifs at h with hclose
        · cases h
          exact .empty hnext (.inr hclose)
        · obtain ⟨k, hk, h⟩ := bind_eq_some_iff.mp h
          obtain ⟨x, hx, h⟩ := bind_eq_some_iff.mp h
          obtain ⟨ms, hms, rfl⟩ := map_eq_some_iff.mp h
          exact .members (hnext ▸ hk) hx hms
    · exact .inr (.inr ⟨not_or.mpr ⟨hbracket, hbrace⟩, h⟩)

/-- Relations that the reading of a value keeps to: `Passes` holds between places in a value,
`Closes` up to behind the closing bracket. -/
structure ValueReader (Passes Closes : JsString → JsString → Prop) : Prop where
  trans {x y z : JsString} : Passes x y → Passes y z → Passes x z
  closes {x y z : JsString} : Passes x y → Closes y z → Closes x z
  plain {text rest : JsString} : PlainRun text rest → Passes text rest
  literal {text : JsString} {p : JsString × JsString} :
    parseString text = some p → Passes (0x22 :: text) p.2
  opened {c : CodeUnit} {text rest : JsString} :
    c = 0x5B ∨ c = 0x7B → Closes text rest → Passes (c :: text) rest
  closed {c : CodeUnit} (text : JsString) : c = 0x5D ∨ c = 0x7D → Closes (c :: text) text

section

variable {Passes Closes : JsString → JsString → Prop} (hr : ValueReader Passes Closes)
include hr

theorem ValueReader.skips (text : JsString) : Passes text (skipWhitespace text) :=
  hr.plain (plainRun_skipWhitespace text)

theorem ValueReader.plainUnit {c : CodeUnit} (hc : IsPlain c) (text : JsString) :
    Passes (c :: text) text :=
  hr.plain (.cons hc (.refl text))

theorem ValueReader.parseKey {p : JsString × JsString} (h : Json.parseKey text = some p) :
    Passes text p.2 := by
  refine hr.trans (hr.skips text) ?_
  rw [Json.parseKey] at h
  split at h
  · contradiction
  · rename_i c s hskip
    rw [hskip]
    split at h
    · contradiction
    · rename_i hquote
      obtain ⟨q, hq, h⟩ := bind_eq_some_iff.mp h
      rw [not_not.mp hquote]
      refine hr.trans (hr.trans (hr.literal hq) (hr.skips q.2)) ?_
      split at h
      · contradiction
      · rename_i d t hcolon
        rw [hcolon]
        split at h
        · rename_i hd
          cases h
          exact hr.plainUnit (hd ▸ by decide) t
        · contradiction

theorem ValueReader.inside {fuel : Nat} (h : ReadsInside fuel text rest)
    (hvalue : ∀ text p, Json.parseValue fuel text = some p → Passes text p.2)
    (helements : ∀ text p, Json.parseElements fuel text = some p → Closes text p.2)
    (hmembers : ∀ ms text p, Json.parseMembers fuel ms text = some p → Closes text p.2) :
    Closes text rest := by
  refine hr.closes (hr.skips text) ?_
  cases h with
  | @empty d rest hnext hd =>
    rw [hnext]
    exact hr.closed rest hd
  | elements hx hxs => exact hr.closes (hvalue _ _ hx) (helements _ _ hxs)
  | members hk hx hms =>
    exact hr.closes (hr.trans (hr.parseKey hk) (hvalue _ _ hx)) (hmembers _ _ _ hms)

end

mutual

theorem ValueReader.parseValue {Passes Closes : JsString → JsString → Prop}
    (hr : ValueReader Passes Closes) : (fuel : Nat) → (text : JsString) → (p : Tree × JsString) →
    Json.parseValue fuel text = some p → Passes text p.2
  | 0, _, _, h => absurd h (by simp [Json.parseValue])
  | fuel + 1, text, p, h => by
    refine hr.trans (hr.skips text) ?_
    obtain ⟨c, s, hskip, hcases⟩ := parseValue_cases h
    rw [hskip]
    rcases hcases with ⟨rfl, q, hq, rfl⟩ | ⟨hc, hinside⟩ | ⟨-, hscalar⟩
    · exact hr.literal hq
    · exact hr.opened hc (hr.inside hinside (fun text p h => hr.parseValue fuel text p h)
        (fun text p h => hr.parseElements fuel text p h)
        (fun ms text p h => hr.parseMembers fuel ms text p h))
    · exact hr.plain (plainRun_parseScalar hscalar)

theorem ValueReader.parseElements {Passes Closes : JsString → JsString → Prop}
    (hr : ValueReader Passes Closes) : (fuel : Nat) → (text : JsString) →
    (p : List Tree × JsString) → Json.parseElements fuel text = some p → Closes text p.2
  | 0, _, _, h => absurd h (by simp [Json.parseElements])
  | fuel + 1, text, p, h => by
    refine hr.closes (hr.skips text) ?_
    rw [Json.parseElements] at h
    split at h
    · contradiction
    · rename_i c s hskip
      rw [hskip]
      split_ifs at h with hclose hcomma
      · cases h
        exact hr.closed s (.inl hclose)
      · obtain ⟨x, hx, h⟩ := bind_eq_some_iff.mp h
        obtain ⟨xs, hxs, rfl⟩ := map_eq_some_iff.mp h
        exact hr.closes (hr.trans (hr.plainUnit (hcomma ▸ by decide) s)
          (hr.parseValue fuel _ x hx)) (hr.parseElements fuel _ xs hxs)

theorem ValueReader.parseMembers {Passes Closes : JsString → JsString → Prop}
    (hr : ValueReader Passes Closes) : (fuel : Nat) → (ms : List (JsString × Tree)) →
    (text : JsString) → (p : List (JsString × Tree) × JsString) →
      Json.parseMembers fuel ms text = some p → Closes text p.2
  | 0, _, _, _, h => absurd h (by simp [Json.parseMembers])
  | fuel + 1, ms, text, p, h => by
    refine hr.closes (hr.skips text) ?_
    rw [Json.parseMembers] at h
    split at h
    · contradiction
    · rename_i c s hskip
      rw [hskip]
      split_ifs at h with hclose hcomma
      · cases h
        exact hr.closed s (.inr hclose)
      · obtain ⟨k, hk, h⟩ := bind_eq_some_iff.mp h
        obtain ⟨x, hx, h⟩ := bind_eq_some_iff.mp h
        exact hr.closes (hr.trans (hr.trans (hr.plainUnit (hcomma ▸ by decide) s)
          (hr.parseKey hk)) (hr.parseValue fuel _ x hx)) (hr.parseMembers fuel _ _ p h)

end

theorem consumes_reader :
    ValueReader (Consumes .inside .inside) (Consumes .inside Scan.closed) where
  trans := .trans
  closes := .trans
  plain := PlainRun.consumes
  literal h := .cons (fun depth => rfl) (consumes_parseString h)
  opened hc h := .cons (fun depth => by rcases hc with rfl | rfl <;> rfl) h.deeper
  closed _ hd := .cons (fun depth => by rcases hd with rfl | rfl <;> rfl) (.refl _ _)

theorem scan_of_consumes {white : JsString} (hwhite : ∀ d ∈ white, isJsonWhitespace d = true)
    (hc : c = 0x5B ∨ c = 0x7B) (h : Consumes .inside Scan.closed text rest)
    (hrest : skipWhitespace rest = []) : scan .start (white ++ c :: text) = .finished := by
  obtain ⟨consumed, rfl, hconsumed⟩ := h
  have hopen : Scan.start.step c = .inside 0 := by
    rcases hc with rfl | rfl <;> rfl
  have hblank : ∀ d ∈ rest, isJsonWhitespace d = true := by
    rw [skipWhitespace, dropWhile_eq_nil_iff] at hrest
    exact hrest
  rw [scan_append, scan_whitespace (.inl rfl) hwhite, scan_cons, hopen, scan_append, hconsumed]
  exact scan_whitespace (.inr rfl) hblank

theorem isScalarStart_of_parseScalar {p : Tree × JsString} (h : parseScalar (c :: text) = some p) :
    isScalarStart c = true := by
  by_contra hstart
  simp only [isScalarStart, Bool.or_eq_true, beq_iff_eq, not_or, Bool.not_eq_true] at hstart
  obtain ⟨⟨⟨⟨⟨_, hminus⟩, hdigit⟩, hn⟩, ht⟩, hf⟩ := hstart
  have hnull : afterLiteral (js "null") (c :: text) = none := afterLiteral_of_head hn _ _
  have htrue : afterLiteral (js "true") (c :: text) = none := afterLiteral_of_head ht _ _
  have hfalse : afterLiteral (js "false") (c :: text) = none := afterLiteral_of_head hf _ _
  have hint : parseInt (c :: text) = none := by
    have hdigits : (c :: text).takeWhile isDigit = [] := by
      rw [takeWhile_cons, hdigit]
      rfl
    rw [parseInt, hdigits]
    exact if_pos (.inl rfl)
  have hnumber : Decimal.parse (c :: text) = none := by
    rw [Decimal.parse, map_eq_none_iff]
    unfold Numeral.parse
    split
    · rename_i heq
      exact absurd (List.cons.inj heq).1 hminus
    · rw [parseUnsigned, hint]
      rfl
  rw [parseScalar, hnull, htrue, hfalse, hnumber] at h
  contradiction

/-- The scan of a text that parses ends behind the last bracket, or in a value without
brackets. -/
theorem scan_of_parseTree {t : Tree} (h : parseTree text = some t) :
    scan .start text = .finished ∨ scan .start text = .scalar ∧ ∀ ms, t ≠ .obj ms := by
  obtain ⟨p, hp, h⟩ := bind_eq_some_iff.mp h
  split at h
  · rename_i hrest
    cases h
    have hwhite : ∀ d ∈ text.takeWhile isJsonWhitespace, isJsonWhitespace d = true :=
      fun d hd => mem_takeWhile_imp hd
    have htext : text = text.takeWhile isJsonWhitespace ++ skipWhitespace text :=
      takeWhile_append_dropWhile.symm
    obtain ⟨c, s, hskip, hcases⟩ := parseValue_cases hp
    have hc : isJsonWhitespace c = false := by
      have hhead := head?_dropWhile_not isJsonWhitespace text
      rw [← skipWhitespace, hskip] at hhead
      exact Bool.eq_false_iff.mpr (by simpa using hhead)
    have hscalar (hbracket : ¬ (c = 0x5B ∨ c = 0x7B)) (hstart : isScalarStart c = true) :
        scan .start text = .scalar := by
      have hstep : Scan.start.step c = .scalar := by
        rw [Scan.step, hc, if_neg Bool.false_ne_true, if_neg hbracket, if_pos hstart]
      rw [htext, hskip, scan_append, scan_whitespace (.inl rfl) hwhite, scan_cons, hstep]
      exact scan_scalar s
    rcases hcases with ⟨rfl, q, -, rfl⟩ | ⟨hbracket, hinside⟩ | ⟨hbracket, hp⟩
    · exact .inr ⟨hscalar (by decide) (by decide), fun ms => by rintro ⟨⟩⟩
    · left
      rw [htext, hskip]
      exact scan_of_consumes hwhite hbracket (consumes_reader.inside hinside
        (consumes_reader.parseValue _) (consumes_reader.parseElements _)
        (consumes_reader.parseMembers _)) hrest
    · refine .inr ⟨hscalar hbracket (isScalarStart_of_parseScalar hp), ?_⟩
      simp only [parseScalar, or_eq_some_iff, map_eq_some_iff] at hp
      rcases hp with ⟨_, _, rfl⟩ | ⟨_, ⟨_, _, rfl⟩ | ⟨_, ⟨_, _, rfl⟩ | ⟨_, _, _, rfl⟩⟩⟩ <;>
        exact fun ms => by rintro ⟨⟩
  · contradiction

/-- A text is left open: a beginning of it at which the value has not ended. -/
def Scan.Open : Scan → Prop
  | .start | .inside _ | .string _ | .escaped _ => True
  | _ => False

/-- Cut before its last code unit, the text of a value in brackets is left open. -/
theorem open_of_cut {cut more : JsString} (h : scan .start (cut ++ more) = .finished)
    (hlast : ∀ c, (cut ++ more).getLast? = some c → isJsonWhitespace c = false)
    (hmore : more ≠ []) : (scan .start cut).Open := by
  rw [scan_append] at h
  cases hcut : scan .start cut with
  | scalar =>
    rw [hcut, scan_scalar] at h
    contradiction
  | failed =>
    rw [hcut, scan_failed] at h
    contradiction
  | finished =>
    -- white space alone cannot end the text
    rw [hcut] at h
    have hwhite := scan_finished h _ (getLast_mem hmore)
    have hend : (cut ++ more).getLast? = some (more.getLast hmore) := by
      rw [getLast?_append_of_ne_nil _ hmore, getLast?_eq_some_getLast hmore]
    rw [hlast _ hend] at hwhite
    contradiction
  | start => trivial
  | inside depth => trivial
  | string depth => trivial
  | escaped depth => trivial

/-- A code unit that no value starts with makes no beginning of a text a whole value. -/
theorem Scan.not_whole_step {s : Scan} (hs : s ≠ .scalar) : ¬ (s.step 0xFFFD).Whole := by
  cases s with
  | scalar => contradiction
  | start => decide
  | finished => decide
  | failed => decide
  | inside depth | string depth | escaped depth => exact fun h => by rcases h with h | h <;> cases h

/-- Where the text of a value in brackets is cut, or broken off with a replacement
character, there is no whole value. -/
theorem not_whole_of_cut {cut more : JsString} (h : scan .start (cut ++ more) = .finished)
    (hlast : ∀ c, (cut ++ more).getLast? = some c → isJsonWhitespace c = false)
    (htext : text = cut ∧ more ≠ [] ∨ text = cut ++ [0xFFFD]) : ¬ (scan .start text).Whole := by
  rcases htext with ⟨rfl, hmore⟩ | rfl
  · have hopen := open_of_cut h hlast hmore
    rintro (hfinished | hscalar)
    · rw [hfinished] at hopen
      exact hopen
    · rw [hscalar] at hopen
      exact hopen
  · rw [scan_append]
    refine Scan.not_whole_step fun hscalar => ?_
    rw [scan_append, hscalar, scan_scalar] at h
    contradiction

end Json

end AcademicAgent
