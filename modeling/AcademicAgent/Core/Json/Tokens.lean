import AcademicAgent.Core.Json.Scan

/-!
# The string literals of a JSON text

What is read of a JSON text are string literals, and code units between them that are no
quotation marks.
-/

namespace AcademicAgent

namespace Json

/-- String literals and other code units are read from a text up to the rest. -/
inductive Tokens : JsString → JsString → Prop where
  | done (text : JsString) : Tokens text text
  | other {c : CodeUnit} {text rest : JsString} (hc : c ≠ 0x22) (htext : Tokens text rest) :
    Tokens (c :: text) rest
  | literal {text rest : JsString} {p : JsString × JsString} (hp : parseString text = some p)
    (htext : Tokens p.2 rest) : Tokens (0x22 :: text) rest

theorem Tokens.trans {x y z : JsString} (hxy : Tokens x y) (hyz : Tokens y z) : Tokens x z := by
  induction hxy with
  | done => exact hyz
  | other hc _ ih => exact .other hc (ih hyz)
  | literal hp _ ih => exact .literal hp (ih hyz)

theorem PlainRun.tokens {text rest : JsString} (h : PlainRun text rest) : Tokens text rest := by
  obtain ⟨run, rfl, hrun⟩ := h
  induction run with
  | nil => exact .done rest
  | cons c run ih =>
    obtain ⟨hc, hrun⟩ := List.forall_mem_cons.mp hrun
    exact .other hc.1 (ih hrun)

theorem tokens_skipWhitespace (text : JsString) : Tokens text (skipWhitespace text) :=
  (plainRun_skipWhitespace text).tokens

theorem tokens_reader : ValueReader Tokens Tokens where
  trans := .trans
  closes := .trans
  plain := PlainRun.tokens
  literal h := .literal h (.done _)
  opened hc h := .other (by rcases hc with rfl | rfl <;> decide) h
  closed text hd := .other (by rcases hd with rfl | rfl <;> decide) (.done text)

theorem tokens_of_parse {text : JsString} {value : Json} (h : parse text = some value) :
    Tokens text [] := by
  rw [parse] at h
  split at h
  · rename_i t htree
    obtain ⟨p, hp, hrest⟩ := Option.bind_eq_some_iff.mp htree
    split at hrest
    · rename_i hend
      have hskip := tokens_skipWhitespace p.2
      rw [hend] at hskip
      exact (tokens_reader.parseValue _ _ p hp).trans hskip
    · contradiction
  · contradiction

end Json

end AcademicAgent
