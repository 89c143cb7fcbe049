import AcademicAgent.AgentHost.Compaction.CutSafety

/-!
# Split turns

Where the cut of a range falls, told from the entries alone, and when `isSplitTurn` says of
it whether the kept part begins in the middle of a turn.
-/

namespace AcademicAgent

open List Option SessionEntry

variable {entries : List SessionEntry} {startIndex endIndex : Nat} {keepRecentTokens : Rat}

variable (entries) in
/-- The first entry from `c` on that adds a message to the context. -/
structure FirstEmitted (c f : Nat) : Prop where
  le : c ≤ f
  emits : entryIs entries (fun e => (appendMessage e).isSome) f = true
  first : ∀ i, c ≤ i → i < f → entryIs entries (fun e => (appendMessage e).isSome) i = false

variable (entries) in
/-- The first message from `c` on starts no turn. -/
def StartsMidTurn (c : Nat) : Prop :=
  ∃ f, FirstEmitted entries c f ∧ entryIs entries SessionEntry.isTurnStart f = false

variable (entries) in
/-- A turn starts in the range at or before `c`. -/
def TurnStartsBy (startIndex endIndex c : Nat) : Prop :=
  ∃ t, startIndex ≤ t ∧ t < endIndex ∧ t ≤ c ∧ entryIs entries SessionEntry.isTurnStart t = true

variable (entries) in
/-- The valid cut point that the budget selects: the first one at or behind the message at
which it is reached, or else the first one. -/
def Selects (startIndex endIndex : Nat) (keepRecentTokens : Rat) (p : Nat) : Prop :=
  (∃ i, BudgetReachedAt entries startIndex endIndex keepRecentTokens i ∧
    i ≤ p ∧ p ∈ findValidCutPoints entries startIndex endIndex ∧
    ∀ q ∈ findValidCutPoints entries startIndex endIndex, i ≤ q → p ≤ q) ∨
  ((∀ i, BudgetReachedAt entries startIndex endIndex keepRecentTokens i →
      ∀ q ∈ findValidCutPoints entries startIndex endIndex, q < i) ∧
    p ∈ findValidCutPoints entries startIndex endIndex ∧
    ∀ q ∈ findValidCutPoints entries startIndex endIndex, p ≤ q)

variable (entries) in
/-- From `p` back to `c` stand only entries that are neither messages nor compactions, and
before `c` stands such an entry or the start of the range. -/
structure MovesBack (startIndex p c : Nat) : Prop where
  start : startIndex ≤ c
  le : c ≤ p
  skips : ∀ i, c ≤ i → i < p → entryIs entries (fun e => e.isCompaction || e.isMessage) i = false
  stops : c = startIndex ∨ entryIs entries (fun e => e.isCompaction || e.isMessage) (c - 1) = true

variable (entries) in
def CutFallsAt (startIndex endIndex : Nat) (keepRecentTokens : Rat) (c : Nat) : Prop :=
  (findValidCutPoints entries startIndex endIndex = [] ∧ c = startIndex) ∨
  ∃ p, Selects entries startIndex endIndex keepRecentTokens p ∧ MovesBack entries startIndex p c

theorem BudgetReachedAt.unique {i j : Nat}
    (hi : BudgetReachedAt entries startIndex endIndex keepRecentTokens i)
    (hj : BudgetReachedAt entries startIndex endIndex keepRecentTokens j) : i = j := by
  rw [← findBudgetIndex_range_iff] at hi hj
  exact some.inj (hi.symm.trans hj)

theorem Selects.unique {p q : Nat} (hp : Selects entries startIndex endIndex keepRecentTokens p)
    (hq : Selects entries startIndex endIndex keepRecentTokens q) : p = q := by
  rcases hp with ⟨i, hi, hip, hmem, hleast⟩ | ⟨hnone, hmem, hleast⟩
  · rcases hq with ⟨j, hj, hjq, hmem', hleast'⟩ | ⟨hnone', -, -⟩
    · cases hi.unique hj
      exact le_antisymm (hleast q hmem' hjq) (hleast' p hmem hip)
    · exact absurd hip (Nat.not_le.mpr (hnone' i hi p hmem))
  · rcases hq with ⟨j, hj, hjq, hmem', -⟩ | ⟨-, hmem', hleast'⟩
    · exact absurd hjq (Nat.not_le.mpr (hnone j hj q hmem'))
    · exact le_antisymm (hleast q hmem') (hleast' p hmem)

theorem findValidCutPoints_sorted :
    (findValidCutPoints entries startIndex endIndex).Pairwise (· < ·) :=
  List.Pairwise.filter _ (pairwise_lt_range' ..)

theorem find?_sorted_least {l : List Nat} (hsorted : l.Pairwise (· < ·)) {i p : Nat}
    (h : l.find? (fun q => decide (i ≤ q)) = some p) : ∀ q ∈ l, i ≤ q → p ≤ q := by
  obtain ⟨-, before, after, rfl, hbefore⟩ := find?_eq_some_iff_append.mp h
  intro q hq hle
  rcases mem_append.mp hq with hq | hq
  · have hnot := hbefore q hq
    simp only [hle, decide_true, Bool.not_true] at hnot
    cases hnot
  · rcases mem_cons.mp hq with rfl | hq
    · exact le_refl q
    · exact ((pairwise_cons.mp (pairwise_append.mp hsorted).2.1).1 q hq).le

theorem selects_cutIndex {first : Nat} {rest : List Nat}
    (hpoints : findValidCutPoints entries startIndex endIndex = first :: rest) :
    Selects entries startIndex endIndex keepRecentTokens
      (((findBudgetIndex entries keepRecentTokens startIndex endIndex 0).bind fun i =>
        (first :: rest).find? fun cutPoint => decide (i ≤ cutPoint)).getD first) := by
  have hsorted := @findValidCutPoints_sorted entries startIndex endIndex
  have hleast : ∀ q ∈ first :: rest, first ≤ q := by
    rw [hpoints] at hsorted
    intro q hq
    rcases mem_cons.mp hq with rfl | hq
    · exact le_refl q
    · exact ((pairwise_cons.mp hsorted).1 q hq).le
  cases hfound : (findBudgetIndex entries keepRecentTokens startIndex endIndex 0).bind fun i =>
      (first :: rest).find? fun cutPoint => decide (i ≤ cutPoint) with
  | some p =>
    obtain ⟨i, hi, hfind⟩ := bind_eq_some_iff.mp hfound
    rw [← hpoints] at hfind
    exact .inl ⟨i, findBudgetIndex_range_iff.mp hi, by simpa using find?_some hfind,
      mem_of_find?_eq_some hfind, find?_sorted_least hsorted hfind⟩
  | none =>
    refine .inr ⟨fun i hi q hq => ?_, ?_, ?_⟩
    · rw [findBudgetIndex_range_iff.mpr hi, bind_some] at hfound
      rw [hpoints] at hq
      simpa using find?_eq_none.mp hfound q hq
    · rw [hpoints]
      exact mem_cons_self
    · rw [hpoints]
      exact hleast

theorem movesBack_slideBack {p : Nat} (h : startIndex ≤ p) :
    MovesBack entries startIndex p (slideBack entries startIndex p) := by
  obtain ⟨hlow, hhigh⟩ := @slideBack_bounds entries _ _ h
  refine ⟨hlow, hhigh, fun i hle hlt => slideBack_skips hle hlt, ?_⟩
  clear hlow hhigh
  induction p with
  | zero => exact .inl (Nat.le_zero.mp h).symm
  | succ p ih =>
    unfold slideBack
    split
    · rename_i hle
      exact .inl (le_antisymm hle h)
    · split
      · rename_i hmessage
        exact .inr hmessage
      · exact ih (by omega)

theorem MovesBack.unique {p c d : Nat} (hc : MovesBack entries startIndex p c)
    (hd : MovesBack entries startIndex p d) : c = d := by
  have hle : ∀ {c d : Nat}, MovesBack entries startIndex p c → MovesBack entries startIndex p d →
      ¬ c < d := by
    intro c d hc hd hlt
    rcases hd.stops with rfl | hstop
    · exact absurd hc.start (Nat.not_le.mpr hlt)
    · have hle := hd.le
      rw [hc.skips (d - 1) (by omega) (by omega)] at hstop
      cases hstop
  exact le_antisymm (Nat.not_lt.mp (hle hd hc)) (Nat.not_lt.mp (hle hc hd))

theorem cutFallsAt_iff {c : Nat} : CutFallsAt entries startIndex endIndex keepRecentTokens c ↔
      c = (findCutPoint entries startIndex endIndex keepRecentTokens).firstKeptEntryIndex := by
  cases hpoints : findValidCutPoints entries startIndex endIndex with
  | nil =>
    rw [findCutPoint_of_no_cutPoints hpoints, CutFallsAt, hpoints]
    constructor
    · rintro (⟨-, hc⟩ | ⟨p, ⟨i, -, -, hmem, -⟩ | ⟨-, hmem, -⟩, -⟩)
      · exact hc
      all_goals
        rw [hpoints] at hmem
        cases hmem
    · exact fun hc => .inl ⟨rfl, hc⟩
  | cons first rest =>
    have hselects := @selects_cutIndex entries _ _ keepRecentTokens _ _ hpoints
    rw [findCutPoint_eq hpoints]
    revert hselects
    generalize ((findBudgetIndex entries keepRecentTokens startIndex endIndex 0).bind fun i =>
      (first :: rest).find? fun cutPoint => decide (i ≤ cutPoint)).getD first = p
    intro hselects
    have hstart : startIndex ≤ p := by
      rcases hselects with ⟨-, -, -, hmem, -⟩ | ⟨-, hmem, -⟩ <;>
        exact (mem_findValidCutPoints.mp hmem).1
    constructor
    · rintro (⟨hnone, -⟩ | ⟨q, hq, hmoves⟩)
      · rw [hpoints] at hnone
        cases hnone
      · cases hq.unique hselects
        exact hmoves.unique (movesBack_slideBack hstart)
    · rintro rfl
      exact .inr ⟨p, hselects, movesBack_slideBack hstart⟩

theorem findTurnStartBelow_isSome_iff {n : Nat} :
    (findTurnStartBelow entries startIndex n).isSome = true ↔
      ∃ t, startIndex ≤ t ∧ t < n ∧ entryIs entries isTurnStart t = true := by
  induction n with
  | zero =>
    refine ⟨fun h => absurd h (by simp [findTurnStartBelow]), ?_⟩
    rintro ⟨t, -, hlt, -⟩
    exact absurd hlt (Nat.not_lt_zero t)
  | succ n ih =>
    unfold findTurnStartBelow
    split
    · refine ⟨fun h => absurd h (by simp), ?_⟩
      rintro ⟨t, hstart, hlt, -⟩
      omega
    · rename_i hlow
      split
      · rename_i hturn
        exact ⟨fun _ => ⟨n, Nat.not_lt.mp hlow, Nat.lt_succ_self n, hturn⟩, fun _ => rfl⟩
      · rename_i hturn
        rw [ih]
        constructor
        · rintro ⟨t, hstart, hlt, hat⟩
          exact ⟨t, hstart, Nat.lt_succ_of_lt hlt, hat⟩
        · rintro ⟨t, hstart, hlt, hat⟩
          rcases Nat.lt_succ_iff_lt_or_eq.mp hlt with hbefore | rfl
          · exact ⟨t, hstart, hbefore, hat⟩
          · exact absurd hat hturn

theorem isSplitTurn_iff :
    (findCutPoint entries startIndex endIndex keepRecentTokens).isSplitTurn = true ↔
      entryIs entries isUserMessage
          (findCutPoint entries startIndex endIndex keepRecentTokens).firstKeptEntryIndex = false ∧
        TurnStartsBy entries startIndex endIndex
          (findCutPoint entries startIndex endIndex keepRecentTokens).firstKeptEntryIndex := by
  cases hpoints : findValidCutPoints entries startIndex endIndex with
  | nil =>
    rw [findCutPoint_of_no_cutPoints hpoints]
    refine ⟨fun h => absurd h Bool.false_ne_true, ?_⟩
    rintro ⟨-, t, hstart, hend, -, hturn⟩
    obtain ⟨e, he, hturn⟩ := entryIs_eq_true.mp hturn
    have hmem : t ∈ findValidCutPoints entries startIndex endIndex :=
      mem_findValidCutPoints.mpr ⟨hstart, hend,
        entryIs_eq_true.mpr ⟨e, he, isCutPoint_of_turnStart hturn⟩⟩
    rw [hpoints] at hmem
    cases hmem
  | cons first rest =>
    have hpoints' : findValidCutPoints entries startIndex endIndex ≠ [] := by
      rw [hpoints]
      exact cons_ne_nil _ _
    obtain ⟨p, hmem, hcut⟩ := @exists_cutPoint entries _ _ keepRecentTokens hpoints'
    obtain ⟨hstart, hend, -⟩ := mem_findValidCutPoints.mp hmem
    obtain ⟨-, hhigh⟩ := @slideBack_bounds entries _ _ hstart
    rw [← hcut] at hhigh
    have hsplit : (findCutPoint entries startIndex endIndex keepRecentTokens).isSplitTurn =
        (!entryIs entries isUserMessage
            (findCutPoint entries startIndex endIndex keepRecentTokens).firstKeptEntryIndex &&
          (findTurnStartIndex entries
            (findCutPoint entries startIndex endIndex keepRecentTokens).firstKeptEntryIndex
            startIndex).isSome) := by
      rw [findCutPoint, hpoints]
      dsimp only
      split
      · rename_i huser
        rw [huser]
        rfl
      · rfl
    rw [hsplit, Bool.and_eq_true, Bool.not_eq_true', findTurnStartIndex,
      findTurnStartBelow_isSome_iff]
    refine and_congr_right fun _ => ⟨?_, ?_⟩
    · rintro ⟨t, hlow, hlt, hturn⟩
      exact ⟨t, hlow, by omega, Nat.le_of_lt_succ hlt, hturn⟩
    · rintro ⟨t, hlow, -, hle, hturn⟩
      exact ⟨t, hlow, Nat.lt_succ_of_le hle, hturn⟩

theorem SessionEntry.appendMessage_of_isUserMessage {e : SessionEntry}
    (h : e.isUserMessage = true) : (appendMessage e).isSome = true ∧ e.isTurnStart = true := by
  obtain ⟨id, parentId, timestamp, body⟩ := e
  cases body with
  | message m => cases m <;> first | exact ⟨rfl, rfl⟩ | cases h
  | _ => cases h

theorem not_startsMidTurn_of_user {c : Nat}
    (h : entryIs entries isUserMessage c = true) : ¬ StartsMidTurn entries c := by
  rintro ⟨f, hfirst, hturn⟩
  obtain ⟨e, he, huser⟩ := entryIs_eq_true.mp h
  obtain ⟨hemits, hstarts⟩ := appendMessage_of_isUserMessage huser
  have heq : f = c := by
    by_contra hne
    have hnot := hfirst.first c (le_refl c) (lt_of_le_of_ne hfirst.le (Ne.symm hne))
    rw [entryIs, he, any_some, hemits] at hnot
    cases hnot
  rw [heq, entryIs, he, any_some, hstarts] at hturn
  cases hturn

/-- A cut is classified by its first message exactly when it falls at a prompt of the user,
or the first message kept starts no turn just when one starts in the range by then. -/
theorem isSplitTurn_exact_iff (entries : List SessionEntry) (startIndex endIndex : Nat)
    (keepRecentTokens : Rat) :
    ((findCutPoint entries startIndex endIndex keepRecentTokens).isSplitTurn = true ↔
        StartsMidTurn entries
          (findCutPoint entries startIndex endIndex keepRecentTokens).firstKeptEntryIndex) ↔
      ∃ c, CutFallsAt entries startIndex endIndex keepRecentTokens c ∧
        (entryIs entries SessionEntry.isUserMessage c = true ∨
          (StartsMidTurn entries c ↔ TurnStartsBy entries startIndex endIndex c)) := by
  have hcut : (∃ c, CutFallsAt entries startIndex endIndex keepRecentTokens c ∧
        (entryIs entries SessionEntry.isUserMessage c = true ∨
          (StartsMidTurn entries c ↔ TurnStartsBy entries startIndex endIndex c))) ↔
      (entryIs entries SessionEntry.isUserMessage
          (findCutPoint entries startIndex endIndex keepRecentTokens).firstKeptEntryIndex = true ∨
        (StartsMidTurn entries
            (findCutPoint entries startIndex endIndex keepRecentTokens).firstKeptEntryIndex ↔
          TurnStartsBy entries startIndex endIndex
            (findCutPoint entries startIndex endIndex keepRecentTokens).firstKeptEntryIndex)) := by
    constructor
    · rintro ⟨c, hc, h⟩
      rw [cutFallsAt_iff] at hc
      rw [← hc]
      exact h
    · exact fun h => ⟨_, cutFallsAt_iff.mpr rfl, h⟩
  rw [hcut, isSplitTurn_iff]
  cases huser : entryIs entries SessionEntry.isUserMessage
      (findCutPoint entries startIndex endIndex keepRecentTokens).firstKeptEntryIndex with
  | true =>
    have hnot := not_startsMidTurn_of_user huser
    simp [hnot]
  | false =>
    simp only [true_and, Bool.false_eq_true, false_or]
    exact ⟨Iff.symm, Iff.symm⟩

/-- A prompt, an answer, a label and another prompt. -/
def labelledPath : List SessionEntry :=
  pathOf [prompt "aaaa", answer "bbbb", .label (js "0") none, prompt "cccc"]

/-- The cut before the second prompt is moved back to the label, and is said to split the
turn of the first one. -/
theorem findCutPoint_splits_at_label : (findCutPoint labelledPath 0 4 1).isSplitTurn = true ∧
      ¬ StartsMidTurn labelledPath (findCutPoint labelledPath 0 4 1).firstKeptEntryIndex := by
  refine ⟨by decide, ?_⟩
  have hcut : (findCutPoint labelledPath 0 4 1).firstKeptEntryIndex = 2 := by decide
  rw [hcut]
  rintro ⟨f, hfirst, hturn⟩
  have hle := hfirst.le
  match f with
  | 0 | 1 => omega
  | 2 => exact absurd hfirst.emits (by decide)
  | 3 => exact absurd hturn (by decide)
  | n + 4 => exact absurd (hfirst.first 3 (by omega) (by omega)) (by decide)

end AcademicAgent
