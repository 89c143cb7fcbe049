import Mathlib.Tactic.Linarith
import AcademicAgent.Core.JsString

/-!
# Thinking budgets of Anthropic requests

A reasoning level stands for a number of thinking tokens.
-/

namespace AcademicAgent

namespace Anthropic

inductive ThinkingLevel where
  | minimal
  | low
  | medium
  | high
  | xhigh
  deriving DecidableEq

/-- `Exclude<ThinkingLevel, "xhigh">`. -/
inductive BudgetLevel where
  | minimal
  | low
  | medium
  | high
  deriving DecidableEq

def clampReasoning : ThinkingLevel → BudgetLevel
  | .minimal => .minimal
  | .low => .low
  | .medium => .medium
  | .high | .xhigh => .high

structure ThinkingBudgets where
  minimal : Option ℚ := none
  low : Option ℚ := none
  medium : Option ℚ := none
  high : Option ℚ := none

/-- `budgets[level]`. -/
def ThinkingBudgets.get (budgets : ThinkingBudgets) : BudgetLevel → Option ℚ
  | .minimal => budgets.minimal
  | .low => budgets.low
  | .medium => budgets.medium
  | .high => budgets.high

def defaultBudgets : BudgetLevel → ℚ
  | .minimal => 1024
  | .low => 2048
  | .medium => 8192
  | .high => 16384

/-- `{ ...defaultBudgets, ...customBudgets }[level]`. -/
def budgetOf (customBudgets : Option ThinkingBudgets) (level : BudgetLevel) : ℚ :=
  (customBudgets.bind fun budgets => budgets.get level).getD (defaultBudgets level)

def minOutputTokens : ℚ := 1024

structure AdjustedTokens where
  maxTokens : ℚ
  thinkingBudget : ℚ

def adjustMaxTokensForThinking (baseMaxTokens modelMaxTokens : ℚ) (reasoningLevel : ThinkingLevel)
    (customBudgets : Option ThinkingBudgets) : AdjustedTokens :=
  let thinkingBudget := budgetOf customBudgets (clampReasoning reasoningLevel)
  let maxTokens := min (baseMaxTokens + thinkingBudget) modelMaxTokens
  { maxTokens
    thinkingBudget :=
      if maxTokens ≤ thinkingBudget then max 0 (maxTokens - minOutputTokens) else thinkingBudget }

structure ThinkingModel where
  id : JsString
  maxTokens : ℚ
  reasoning : Bool
  thinkingLevelMap : ThinkingLevel → Option JsString := fun _ => none

structure SimpleStreamOptions where
  temperature : Option ℚ := none
  maxTokens : Option ℚ := none
  reasoning : Option ThinkingLevel := none
  thinkingBudgets : Option ThinkingBudgets := none

inductive ThinkingDisplay where
  | summarized
  | omitted
  deriving DecidableEq

structure AnthropicOptions where
  temperature : Option ℚ
  maxTokens : Option ℚ
  thinkingEnabled : Option Bool := none
  thinkingBudgetTokens : Option ℚ := none
  effort : Option JsString := none
  thinkingDisplay : Option ThinkingDisplay := none

def buildBaseOptions (model : ThinkingModel) (options : SimpleStreamOptions) :
    AnthropicOptions where
  temperature := options.temperature
  maxTokens := options.maxTokens.or
    (if 0 < model.maxTokens then some (min model.maxTokens 32000) else none)

def supportsAdaptiveThinking (modelId : JsString) : Bool :=
  [js "opus-4-6", js "opus-4.6", js "opus-4-7", js "opus-4.7", js "sonnet-4-6",
    js "sonnet-4.6"].any fun part => part <:+: modelId

def mapThinkingLevelToEffort (model : ThinkingModel) (level : ThinkingLevel) : JsString :=
  (model.thinkingLevelMap level).getD
    (match level with
      | .minimal | .low => js "low"
      | .medium => js "medium"
      | .high | .xhigh => js "high")

inductive ThinkingConfig where
  | adaptive (display : ThinkingDisplay)
  | enabled (budgetTokens : ℚ) (display : ThinkingDisplay)
  | disabled

/-- The parameters of a request that its options decide. -/
structure MessageParams where
  model : JsString
  maxTokens : ℚ
  temperature : Option ℚ
  thinking : Option ThinkingConfig
  effort : Option JsString

def truthy (n : Option ℚ) : Option ℚ := n.filter fun n => n ≠ 0

/-- `x | 0`. -/
def toInt32 (x : ℚ) : Int := (x.num.tdiv x.den).bmod (2 ^ 32)

def buildParams (model : ThinkingModel) (options : AnthropicOptions) : MessageParams :=
  let thinks := model.reasoning && options.thinkingEnabled == some true
  { model := model.id
    maxTokens := (truthy options.maxTokens).getD (toInt32 (model.maxTokens / 3))
    -- the temperature is incompatible with extended thinking
    temperature := if options.thinkingEnabled = some true then none else options.temperature
    thinking :=
      if thinks then
        let display := options.thinkingDisplay.getD .summarized
        some (if supportsAdaptiveThinking model.id then .adaptive display
          else .enabled ((truthy options.thinkingBudgetTokens).getD 1024) display)
      else if model.reasoning && options.thinkingEnabled == some false then some .disabled
      else none
    effort := if thinks && supportsAdaptiveThinking model.id then nonEmpty options.effort else none }

section

variable (model : ThinkingModel) (options : SimpleStreamOptions)

/-- The options that `streamSimpleAnthropic` streams with. -/
def simpleAnthropicOptions : AnthropicOptions :=
  let base := buildBaseOptions model options
  match options.reasoning with
  | none => { base with thinkingEnabled := some false }
  | some reasoning =>
    if supportsAdaptiveThinking model.id then
      { base with
        thinkingEnabled := some true
        effort := some (mapThinkingLevelToEffort model reasoning) }
    else
      let adjusted := adjustMaxTokensForThinking (base.maxTokens.getD 0) model.maxTokens reasoning
        options.thinkingBudgets
      { base with
        maxTokens := some adjusted.maxTokens
        thinkingEnabled := some true
        thinkingBudgetTokens := some adjusted.thinkingBudget }

/-- The request of `streamSimpleAnthropic`. -/
def streamSimpleAnthropic : MessageParams :=
  buildParams model (simpleAnthropicOptions model options)

end

/-- A request stays within a limit, thinks at least 1024 tokens and leaves as many. -/
def LeavesRoom (limit : ℚ) (params : MessageParams) : Prop :=
  params.maxTokens ≤ limit ∧ ∃ budgetTokens display,
    params.thinking = some (.enabled budgetTokens display) ∧ 1024 ≤ budgetTokens ∧
      1024 ≤ params.maxTokens - budgetTokens

theorem budgetOf_ge {customBudgets : Option ThinkingBudgets}
    (h : ∀ budgets ∈ customBudgets, ∀ level, ∀ n ∈ budgets.get level, 1024 ≤ n)
    (level : BudgetLevel) : 1024 ≤ budgetOf customBudgets level := by
  rw [budgetOf]
  cases hget : customBudgets.bind fun budgets => budgets.get level with
  | none => cases level <;> norm_num [defaultBudgets]
  | some n =>
    obtain ⟨budgets, hbudgets, hn⟩ := Option.bind_eq_some_iff.mp hget
    exact h budgets hbudgets level n hn

theorem buildBaseOptions_ge {model : ThinkingModel} {options : SimpleStreamOptions}
    (hlimit : 2048 ≤ model.maxTokens) (hrequested : ∀ n ∈ options.maxTokens, 1024 ≤ n) :
    1024 ≤ (buildBaseOptions model options).maxTokens.getD 0 := by
  have hpos : 0 < model.maxTokens := by linarith
  rw [buildBaseOptions]
  cases hmax : options.maxTokens with
  | none =>
    rw [Option.none_or, if_pos hpos, Option.getD_some, le_min_iff]
    exact ⟨by linarith, by norm_num⟩
  | some n => exact hrequested n hmax

section Adjusted

variable {baseMaxTokens modelMaxTokens : ℚ} {level : ThinkingLevel}
  {customBudgets : Option ThinkingBudgets} {adjusted : AdjustedTokens}

theorem adjustMaxTokensForThinking_bounds (hbase : 1024 ≤ baseMaxTokens)
    (hlimit : 2048 ≤ modelMaxTokens)
    (hbudget : 1024 ≤ budgetOf customBudgets (clampReasoning level))
    (h : adjustMaxTokensForThinking baseMaxTokens modelMaxTokens level customBudgets = adjusted) :
    2048 ≤ adjusted.maxTokens ∧ adjusted.maxTokens ≤ modelMaxTokens ∧
      1024 ≤ adjusted.thinkingBudget := by
  subst h
  dsimp only [adjustMaxTokensForThinking, minOutputTokens]
  generalize budgetOf customBudgets (clampReasoning level) = budget at hbudget
  have hmin : 2048 ≤ min (baseMaxTokens + budget) modelMaxTokens :=
    le_min (by linarith) hlimit
  refine ⟨hmin, min_le_right _ _, ?_⟩
  split
  · exact le_max_of_le_right (by linarith)
  · exact hbudget

theorem adjustMaxTokensForThinking_iff (hbase : 1024 ≤ baseMaxTokens)
    (hlimit : 2048 ≤ modelMaxTokens)
    (h : adjustMaxTokensForThinking baseMaxTokens modelMaxTokens level customBudgets = adjusted) :
    1024 ≤ adjusted.maxTokens - adjusted.thinkingBudget ↔
      modelMaxTokens ≤ budgetOf customBudgets (clampReasoning level) ∨
        budgetOf customBudgets (clampReasoning level) + 1024 ≤ modelMaxTokens := by
  subst h
  dsimp only [adjustMaxTokensForThinking, minOutputTokens]
  generalize budgetOf customBudgets (clampReasoning level) = budget
  rcases le_total modelMaxTokens (baseMaxTokens + budget) with hcap | hfits
  · rw [min_eq_right hcap]
    split
    · rename_i hnoRoom
      rw [max_eq_right (by linarith)]
      exact iff_of_true (by linarith) (.inl hnoRoom)
    · rename_i hroom
      constructor
      · exact fun h => .inr (by linarith)
      · rintro (h | h)
        · exact absurd h hroom
        · linarith
  · rw [min_eq_left hfits, if_neg (by linarith)]
    exact iff_of_true (by linarith) (.inr (by linarith))

end Adjusted

theorem truthy_of_pos {n : ℚ} (h : 0 < n) : truthy (some n) = some n :=
  Option.filter_eq_some_iff.mpr ⟨rfl, decide_eq_true h.ne'⟩

section

variable {model : ThinkingModel} {options : SimpleStreamOptions} {level : ThinkingLevel}

theorem streamSimpleAnthropic_request
    {adjusted : AdjustedTokens} (hreasons : model.reasoning = true)
    (hbased : supportsAdaptiveThinking model.id = false) (hlevel : options.reasoning = some level)
    (hadjusted : adjustMaxTokensForThinking ((buildBaseOptions model options).maxTokens.getD 0)
      model.maxTokens level options.thinkingBudgets = adjusted)
    (hmax : 0 < adjusted.maxTokens) (hthinks : 0 < adjusted.thinkingBudget) :
    (streamSimpleAnthropic model options).maxTokens = adjusted.maxTokens ∧
      (streamSimpleAnthropic model options).thinking =
        some (.enabled adjusted.thinkingBudget .summarized) := by
  have hoptions : simpleAnthropicOptions model options =
      { buildBaseOptions model options with
        maxTokens := some adjusted.maxTokens
        thinkingEnabled := some true
        thinkingBudgetTokens := some adjusted.thinkingBudget } := by
    simp only [simpleAnthropicOptions, hlevel, hbased, Bool.false_eq_true, if_false, hadjusted]
  rw [streamSimpleAnthropic, hoptions]
  dsimp only [buildParams, buildBaseOptions]
  rw [hreasons, hbased, truthy_of_pos hmax, truthy_of_pos hthinks]
  exact ⟨rfl, rfl⟩

end

/-- A model with a limit of 8192 tokens, asked for 4096 with a budget of its own. -/
def smallModel : ThinkingModel where
  id := js "m"
  maxTokens := 8192
  reasoning := true

def budgetOptions (budget : ℚ) : SimpleStreamOptions where
  maxTokens := some 4096
  reasoning := some .medium
  thinkingBudgets := some { medium := some budget }

end Anthropic

end AcademicAgent
