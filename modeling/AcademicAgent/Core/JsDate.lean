import AcademicAgent.Core.JsString

/-!
# Date time strings

`new Date(s).getTime()` for the date time string format of the language, the
one `toISOString` writes: `YYYY-MM-DDTHH:mm:ss.sssZ`.
-/

namespace AcademicAgent.Date

/-- Milliseconds since the epoch, or no value for an invalid date. -/
abbrev Time := Option Int

def digits (s : JsString) : Option Nat :=
  s.foldl (fun acc c => acc.bind fun n =>
    if 0x30 ≤ c ∧ c ≤ 0x39 then some (10 * n + (c.toNat - 0x30)) else none) (some 0)

/-- Days from the epoch to a civil date, the year starting in March. -/
def daysFromCivil (y m d : Int) : Int :=
  let y' := if m ≤ 2 then y - 1 else y
  let era := y' / 400
  let yoe := y' - era * 400
  let doy := (153 * (if m > 2 then m - 3 else m + 9) + 2) / 5 + d - 1
  let doe := yoe * 365 + yoe / 4 - yoe / 100 + doy
  era * 146097 + doe - 719468

def field (s : JsString) (start len : Nat) : Option Nat := digits ((s.drop start).take len)

/-- `new Date(s).getTime()`. -/
def getTime (s : JsString) : Time := do
  if s.length ≠ 24 then none
  else if [4, 7, 10, 13, 16, 19, 23].map (fun i => s[i]?) ≠ (js "--T::.Z").map some then none
  else
    let y ← field s 0 4
    let mo ← field s 5 2
    let d ← field s 8 2
    let h ← field s 11 2
    let mi ← field s 14 2
    let sec ← field s 17 2
    let ms ← field s 20 3
    if 1 ≤ mo ∧ mo ≤ 12 ∧ 1 ≤ d ∧ d ≤ 31 ∧ h < 24 ∧ mi < 60 ∧ sec < 60 then
      some ((((daysFromCivil y mo d * 24 + h) * 60 + mi) * 60 + sec) * 1000 + ms)
    else none

end AcademicAgent.Date
