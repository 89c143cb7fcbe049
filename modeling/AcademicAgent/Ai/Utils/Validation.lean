import AcademicAgent.Ai.Types
import AcademicAgent.Core.JsMap
import AcademicAgent.Core.Json.Text

/-!
# Arguments of tool calls

The arguments of a call are coerced to the schema of the tool, then validated.
-/

namespace AcademicAgent

namespace Validation

open Json List

/-- A JSON schema as the coercion reads it. The types are those of `getSchemaTypes`, an array of
items is `tupleItems`, and `keywords` holds what only the validator reads. -/
inductive JsonSchema where
  | boolean (b : Bool)
  | object (types : List JsString) (properties : List (JsString × JsonSchema))
      (additionalProperties items : Option JsonSchema)
      (tupleItems allOf anyOf oneOf : List JsonSchema) (keywords : Tree)

def JsonSchema.isObject : JsonSchema → Bool
  | .boolean _ => false
  | .object _ _ _ _ _ _ _ _ _ => true

def isRecord : Tree → Bool
  | .obj _ | .arr _ => true
  | .null | .bool _ | .num _ | .str _ => false

def matchesJsonType (value : Tree) (type : JsString) : Bool :=
  match value with
  | .num n => type = js "number" || (type = js "integer" && decide (0 ≤ n.exponent))
  | .bool _ => type = js "boolean"
  | .str _ => type = js "string"
  | .null => type = js "null"
  | .arr _ => type = js "array"
  | .obj _ => type = js "object"

def objectPrototypeKeys : List JsString :=
  [js "constructor", js "__defineGetter__", js "__defineSetter__", js "hasOwnProperty",
    js "__lookupGetter__", js "__lookupSetter__", js "isPrototypeOf", js "propertyIsEnumerable",
    js "toString", js "valueOf", js "__proto__", js "toLocaleString"]

/-- A coerced value, and whether it is another object or value in the place of the old one. -/
structure Coerced where
  value : Tree
  replaced : Bool

section Primitives

variable (number : JsString → Option Decimal)

/-- The coercion to a number that passes a check. `number` is `Number` of a text, where that is
finite. -/
def coerceToNumber (check : Decimal → Bool) : Tree → Tree
  | .null => .num (.ofInt 0)
  | .str s =>
    if trim s = [] then .str s
    else
      match number s with
      | some parsed => if check parsed then .num parsed else .str s
      | none => .str s
  | .bool b => .num (.ofInt (if b then 1 else 0))
  | value => value

def coerceToBoolean : Tree → Tree
  | .null => .bool false
  | .str s =>
    if s = js "true" then .bool true else if s = js "false" then .bool false else .str s
  | .num n =>
    if n = .ofInt 1 then .bool true else if n = .ofInt 0 then .bool false else .num n
  | value => value

def coerceToString : Tree → Tree
  | .null => .str []
  | .num n => .str n.toString
  | .bool b => .str (if b then js "true" else js "false")
  | value => value

def coerceToNull : Tree → Tree
  | .str s => if s = [] then .null else .str s
  | .num n => if n = .ofInt 0 then .null else .num n
  | .bool b => if b then .bool b else .null
  | value => value

def coercePrimitiveByType (value : Tree) (type : JsString) : Tree :=
  if type = js "number" then coerceToNumber number (fun _ => true) value
  else if type = js "integer" then coerceToNumber number (fun parsed => 0 ≤ parsed.exponent) value
  else if type = js "boolean" then coerceToBoolean value
  else if type = js "string" then coerceToString value
  else if type = js "null" then coerceToNull value
  else value

/-- The first coercion to one of the types that changes the value, unless there are several types
and the value has one of them. -/
def coerceTypes (types : List JsString) (value : Tree) : Tree :=
  let matchesUnionMember := 1 < types.length && types.any (matchesJsonType value)
  if types ≠ [] && !matchesUnionMember then
    ((types.map (coercePrimitiveByType number value)).find? fun candidate => candidate ≠ value).getD
      value
  else value

end Primitives

section Coercion

variable (number : JsString → Option Decimal) (compile : JsonSchema → Option (Tree → Bool))

/-- The validator of a schema; none when the schema is no object or does not compile. -/
def getSubSchemaValidator (schema : JsonSchema) : Option (Tree → Bool) :=
  if schema.isObject then compile schema else none

def branchAccepts (schema : JsonSchema) (value : Tree) : Bool :=
  (getSubSchemaValidator compile schema).any fun check => check value

mutual

/-- The coercion of a value. The error is a member that the value inherits: the coercion makes a
member of its own of it, and what that holds is no JSON value. -/
def coerceWithJsonSchema : JsonSchema → Tree → Except JsString Coerced
  | .boolean _, value => .ok ⟨value, false⟩
  | .object types properties additionalProperties items tupleItems allOf anyOf oneOf _, value => do
    let nextValue ← coerceAllOf allOf ⟨value, false⟩
    let nextValue ← coerceWithUnionSchema anyOf nextValue
    let nextValue ← coerceWithUnionSchema oneOf nextValue
    match coerceTypes number types nextValue.value with
    | .obj members =>
      if js "object" ∈ types then
        let members ← coerceProperties properties members
        let members ← coerceAdditional additionalProperties (properties.map Prod.fst) members
        .ok { nextValue with value := .obj members }
      else .ok { nextValue with value := .obj members }
    | .arr elements =>
      if js "array" ∈ types then
        let elements ←
          if tupleItems = [] then coerceItems items elements
          else coerceTuple tupleItems elements
        .ok { nextValue with value := .arr elements }
      else .ok { nextValue with value := .arr elements }
    | primitive => .ok { nextValue with value := primitive }

/-- The coercion for every schema of `allOf`, one after the other. -/
def coerceAllOf : List JsonSchema → Coerced → Except JsString Coerced
  | [], value => .ok value
  | nested :: schemas, value => do
    let nextValue ← coerceWithJsonSchema nested value.value
    coerceAllOf schemas ⟨nextValue.value, value.replaced || nextValue.replaced⟩

/-- The coercion of a copy for the first branch that accepts what it becomes. -/
def coerceWithUnionSchema : List JsonSchema → Coerced → Except JsString Coerced
  | [], value => .ok value
  | schema :: schemas, value => do
    let coerced ← coerceWithJsonSchema schema value.value
    if branchAccepts compile schema coerced.value then .ok ⟨coerced.value, true⟩
    else coerceWithUnionSchema schemas value

/-- The coercion of the declared members. A member that is not there may be inherited. -/
def coerceProperties : List (JsString × JsonSchema) → List (JsString × Tree) →
    Except JsString (List (JsString × Tree))
  | [], members => .ok members
  | (key, propertySchema) :: properties, members =>
    match assocGet key members with
    | some member => do
      let coerced ← coerceWithJsonSchema propertySchema member
      coerceProperties properties (assocSet key coerced.value members)
    | none =>
      if key ∈ objectPrototypeKeys then .error key else coerceProperties properties members

/-- The coercion of the members that are not declared. -/
def coerceAdditional : Option JsonSchema → List JsString → List (JsString × Tree) →
    Except JsString (List (JsString × Tree))
  | none, _, members => .ok members
  | some schema, definedKeys, members =>
    members.mapM fun member =>
      if member.1 ∈ definedKeys then .ok member
      else do
        let coerced ← coerceWithJsonSchema schema member.2
        .ok (member.1, coerced.value)

def coerceItems : Option JsonSchema → List Tree → Except JsString (List Tree)
  | none, elements => .ok elements
  | some schema, elements =>
    elements.mapM fun element => do
      let coerced ← coerceWithJsonSchema schema element
      .ok coerced.value

/-- The coercion of the elements for a schema each. -/
def coerceTuple : List JsonSchema → List Tree → Except JsString (List Tree)
  | [], elements => .ok elements
  | _, [] => .ok []
  | itemSchema :: schemas, element :: elements => do
    let coerced ← coerceWithJsonSchema itemSchema element
    let elements ← coerceTuple schemas elements
    .ok (coerced.value :: elements)

end

end Coercion

structure ValidationError where
  keyword : JsString
  instancePath : JsString
  requiredProperties : List JsString
  message : JsString

/-- `instancePath.replace(/^\//, "").replace(/\//g, ".")`. -/
def dottedPath (instancePath : JsString) : JsString :=
  let relative := if instancePath.head? = some 0x2F then instancePath.tail else instancePath
  relative.map fun c => if c = 0x2F then 0x2E else c

def formatValidationPath (error : ValidationError) : JsString :=
  let path := dottedPath error.instancePath
  match if error.keyword = js "required" then nonEmpty error.requiredProperties.head? else none with
  | some requiredProperty =>
    if path ≠ [] then path ++ js "." ++ requiredProperty else requiredProperty
  | none => if path ≠ [] then path else js "root"

def newline (depth : Nat) : JsString := lf :: replicate (2 * depth) 0x20

mutual

/-- `JSON.stringify(value, null, 2)`, from a depth on. -/
def printIndented (depth : Nat) : Tree → JsString
  | .arr [] => js "[]"
  | .arr (x :: xs) =>
    js "[" ++ newline (depth + 1) ++ printIndented (depth + 1) x ++ printIndentedElements depth xs
  | .obj [] => js "\x7b\x7d"
  | .obj ((k, x) :: ms) =>
    js "\x7b" ++ newline (depth + 1) ++ quote k ++ js ": " ++ printIndented (depth + 1) x ++
      printIndentedMembers depth ms
  | value => value.print

def printIndentedElements (depth : Nat) : List Tree → JsString
  | [] => newline depth ++ js "]"
  | x :: xs =>
    js "," ++ newline (depth + 1) ++ printIndented (depth + 1) x ++ printIndentedElements depth xs

def printIndentedMembers (depth : Nat) : List (JsString × Tree) → JsString
  | [] => newline depth ++ js "\x7d"
  | (k, x) :: ms =>
    js "," ++ newline (depth + 1) ++ quote k ++ js ": " ++ printIndented (depth + 1) x ++
      printIndentedMembers depth ms

end

structure Tool where
  name : JsString
  parameters : JsonSchema
  /-- The schema has the symbol `TypeBox.Kind`. -/
  hasTypeBoxMetadata : Bool

inductive Failure where
  | toolNotFound (message : JsString)
  | compile
  | inherited (key : JsString)
  | invalid (message : JsString)

/-- The members of an object that are assigned to another one. Assigning to `__proto__` makes no
member. -/
def assign : Tree → Tree
  | .obj members => .obj (members.filter fun member => member.1 ≠ js "__proto__")
  | value => value

section Arguments

variable (number : JsString → Option Decimal) (compile : JsonSchema → Option (Tree → Bool))
  (convert : JsonSchema → Tree → Tree) (validationErrors : JsonSchema → Tree → List ValidationError)

section

variable (tool : Tool) (toolCall : ToolCall)

/-- The text of the error for arguments that are not valid. -/
def validationMessage (args : Tree) : JsString :=
  let lines := (validationErrors tool.parameters args).map fun error =>
    js "  - " ++ formatValidationPath error ++ js ": " ++ error.message
  let errors := [lf].intercalate lines
  js "Validation failed for tool \"" ++ toolCall.name ++ js "\":\n" ++
    (if errors ≠ [] then errors else js "Unknown validation error") ++
    js "\n\nReceived arguments:\n" ++ printIndented 0 toolCall.arguments.tree

def checkArguments (check : Tree → Bool) (args : Tree) : Except Failure Tree :=
  if check args then .ok args
  else .error (.invalid (validationMessage validationErrors tool toolCall args))

/-- `compile` makes the validator of a schema, `convert` is `Value.Convert`, and
`validationErrors` are the errors of the validator. -/
def validateToolArguments : Except Failure Tree :=
  let args := convert tool.parameters toolCall.arguments.tree
  match compile tool.parameters with
  | none => .error .compile
  | some check =>
    if !tool.hasTypeBoxMetadata && tool.parameters.isObject then
      match coerceWithJsonSchema number compile tool.parameters args with
      | .error key => .error (.inherited key)
      | .ok coerced =>
        -- objects and arrays are compared by identity, other values by what they are
        if if isRecord args then coerced.replaced else coerced.value ≠ args then
          if isRecord args && isRecord coerced.value then
            checkArguments validationErrors tool toolCall check (assign coerced.value)
          else .ok (if check coerced.value then coerced.value else args)
        else checkArguments validationErrors tool toolCall check coerced.value
    else checkArguments validationErrors tool toolCall check args

end

def validateToolCall (tools : List Tool) (toolCall : ToolCall) : Except Failure Tree :=
  match tools.find? fun tool => tool.name = toolCall.name with
  | none => .error (.toolNotFound (js "Tool \"" ++ toolCall.name ++ js "\" not found"))
  | some tool => validateToolArguments number compile convert validationErrors tool toolCall

end Arguments

section Kept

variable (number : JsString → Option Decimal) (compile : JsonSchema → Option (Tree → Bool))

mutual

/-- What every schema asks of its values: one of the types, and the same for the schemas of
`allOf`, for some branch of a union, and for the declared members and elements. -/
def fits : JsonSchema → Tree → Bool
  | .boolean b, _ => b
  | .object types properties _ _ tupleItems allOf anyOf oneOf _, value =>
    (types = [] || types.any (matchesJsonType value)) && fitsAll allOf value &&
      (anyOf = [] || fitsSome anyOf value) && (oneOf = [] || fitsSome oneOf value) &&
      match value with
      | .obj members => fitsMembers properties members
      | .arr elements => fitsElements tupleItems elements
      | _ => true

def fitsAll : List JsonSchema → Tree → Bool
  | [], _ => true
  | schema :: schemas, value => fits schema value && fitsAll schemas value

def fitsSome : List JsonSchema → Tree → Bool
  | [], _ => false
  | schema :: schemas, value => fits schema value || fitsSome schemas value

def fitsMembers : List (JsString × JsonSchema) → List (JsString × Tree) → Bool
  | [], _ => true
  | (key, schema) :: properties, members =>
    (assocGet key members).all (fits schema) && fitsMembers properties members

def fitsElements : List JsonSchema → List Tree → Bool
  | [], _ => true
  | _, [] => true
  | schema :: schemas, element :: elements => fits schema element && fitsElements schemas elements

end

def AcceptsFitting : Prop :=
  ∀ schema check value, compile schema = some check → check value = true → fits schema value = true

/-- The coercion makes the value itself of the value. -/
def Unchanged (schema : JsonSchema) (value : Tree) : Prop :=
  ∃ coerced, coerceWithJsonSchema number compile schema value = .ok coerced ∧ coerced.value = value

/-- The coercion makes nothing of the value that the branch accepts. -/
def PassesOver (schema : JsonSchema) (value : Tree) : Prop :=
  ∃ coerced, coerceWithJsonSchema number compile schema value = .ok coerced ∧
    branchAccepts compile schema coerced.value = false

mutual

/-- No branch of a union takes the value, or a part of it, for another one; a declared member that
is not there is not inherited; and what goes with `additionalProperties` or `items` fits there, or
is not changed for it. -/
def Keeps : JsonSchema → Tree → Prop
  | .boolean _, _ => True
  | .object types properties additionalProperties items tupleItems allOf anyOf oneOf _, value =>
    KeepsAll allOf value ∧ KeepsUnion anyOf value ∧ KeepsUnion oneOf value ∧
      match value with
      | .obj members => js "object" ∈ types →
        KeepsMembers properties members ∧
          KeepsAdditional additionalProperties (properties.map Prod.fst) members
      | .arr elements => js "array" ∈ types →
        if tupleItems = [] then KeepsItems items elements else KeepsElements tupleItems elements
      | _ => True

def KeepsAll : List JsonSchema → Tree → Prop
  | [], _ => True
  | schema :: schemas, value => Keeps schema value ∧ KeepsAll schemas value

/-- The first branch that accepts something keeps the value, which it accepts as it is. -/
def KeepsUnion : List JsonSchema → Tree → Prop
  | [], _ => True
  | schema :: schemas, value =>
    (branchAccepts compile schema value = true ∧ Keeps schema value) ∨
      (PassesOver number compile schema value ∧ KeepsUnion schemas value)

def KeepsMembers : List (JsString × JsonSchema) → List (JsString × Tree) → Prop
  | [], _ => True
  | (key, schema) :: properties, members =>
    (match assocGet key members with
      | some member => Keeps schema member
      | none => key ∉ objectPrototypeKeys) ∧ KeepsMembers properties members

def KeepsAdditional : Option JsonSchema → List JsString → List (JsString × Tree) → Prop
  | none, _, _ => True
  | some schema, definedKeys, members => ∀ member ∈ members, member.1 ∉ definedKeys →
    (fits schema member.2 = true ∧ Keeps schema member.2) ∨
      Unchanged number compile schema member.2

def KeepsItems : Option JsonSchema → List Tree → Prop
  | none, _ => True
  | some schema, elements => ∀ element ∈ elements,
    (fits schema element = true ∧ Keeps schema element) ∨ Unchanged number compile schema element

def KeepsElements : List JsonSchema → List Tree → Prop
  | [], _ => True
  | _, [] => True
  | schema :: schemas, element :: elements => Keeps schema element ∧ KeepsElements schemas elements

end

mutual

/-- A branch of a union of the schema itself accepts the value. -/
def takesBranch : JsonSchema → Tree → Bool
  | .boolean _, _ => false
  | .object _ _ _ _ _ allOf anyOf oneOf _, value =>
    takesBranchOf allOf value || anyOf.any (fun schema => branchAccepts compile schema value) ||
      oneOf.any fun schema => branchAccepts compile schema value

def takesBranchOf : List JsonSchema → Tree → Bool
  | [], _ => false
  | schema :: schemas, value => takesBranch schema value || takesBranchOf schemas value

end

/-- The arguments are kept, and when a branch is taken for them, no member is named `__proto__`. -/
structure KeepsArguments (schema : JsonSchema) (args : Tree) : Prop where
  keeps : Keeps number compile schema args
  assigned : takesBranch compile schema args = true →
    ∀ members, args = .obj members → ∀ member ∈ members, member.1 ≠ js "__proto__"

theorem coercePrimitiveByType_of_matches {value : Tree} {type : JsString}
    (h : matchesJsonType value type = true) : coercePrimitiveByType number value type = value := by
  cases value with
  | null | bool b | str s | arr elements | obj members =>
    obtain rfl := of_decide_eq_true h
    rfl
  | num n =>
    rcases (Bool.or_eq_true _ _).mp h with h | h
    · obtain rfl := of_decide_eq_true h
      rfl
    · obtain rfl := of_decide_eq_true (Bool.and_eq_true_iff.mp h).1
      rfl

theorem coerceTypes_of_fits {types : List JsString} {value : Tree}
    (h : (types = [] || types.any (matchesJsonType value)) = true) :
    coerceTypes number types value = value := by
  cases types with
  | nil => rfl
  | cons type types =>
    have hany : (type :: types).any (matchesJsonType value) = true := by simpa using h
    cases types with
    | nil =>
      have hmatch : matchesJsonType value type = true := by simpa using hany
      have hsame := coercePrimitiveByType_of_matches number hmatch
      simp [coerceTypes, hsame]
    | cons second types =>
      rw [coerceTypes, hany]
      rfl

theorem assocSet_of_assocGet {key : JsString} {member : Tree} {members : List (JsString × Tree)}
    (h : assocGet key members = some member) : assocSet key member members = members := by
  induction members with
  | nil => cases h
  | cons first members ih =>
    obtain ⟨k, v⟩ := first
    rw [assocGet] at h
    rw [assocSet]
    by_cases hk : k = key
    · rw [if_pos hk] at h
      rw [if_pos hk, ← hk, Option.some.inj h]
    · rw [if_neg hk] at h
      rw [if_neg hk, ih h]

theorem ok_bind {ε α β : Type} (x : α) (f : α → Except ε β) : (Except.ok x >>= f) = f x := rfl

theorem mapM_eq_self {ε α : Type} {f : α → Except ε α} {xs : List α} (h : ∀ x ∈ xs, f x = .ok x) :
    xs.mapM f = .ok xs := by
  induction xs with
  | nil => rfl
  | cons x xs ih =>
    obtain ⟨hx, hxs⟩ := forall_mem_cons.mp h
    rw [mapM_cons, hx, ih hxs]
    rfl

section Sound

variable {number compile}
  (hcompile : AcceptsFitting compile)

include hcompile

set_option linter.unusedSectionVars false

theorem fits_of_branchAccepts {schema : JsonSchema} {value : Tree}
    (h : branchAccepts compile schema value = true) : fits schema value = true := by
  rw [branchAccepts, getSubSchemaValidator] at h
  split at h
  · obtain ⟨check, hcheck, hvalue⟩ := (Option.any_eq_true _ _).mp h
    exact hcompile schema check value hcheck hvalue
  · contradiction

mutual

theorem coerceWithJsonSchema_eq : (schema : JsonSchema) → (value : Tree) →
    fits schema value = true → Keeps number compile schema value →
    ∃ replaced, coerceWithJsonSchema number compile schema value = .ok ⟨value, replaced⟩ ∧
      (replaced = true → takesBranch compile schema value = true)
  | .boolean b, value, _, _ => ⟨false, rfl, fun h => nomatch h⟩
  | .object types properties additionalProperties items tupleItems allOf anyOf oneOf keywords,
      value, hfits, hkeeps => by
    simp only [fits, Bool.and_eq_true] at hfits
    obtain ⟨⟨⟨⟨htypes, hall⟩, -⟩, -⟩, hparts⟩ := hfits
    obtain ⟨hkeepsAll, hkeepsAny, hkeepsOne, hkeepsParts⟩ := hkeeps
    obtain ⟨r₁, hallOf, ht₁⟩ := coerceAllOf_eq allOf value false hall hkeepsAll
    obtain ⟨r₂, hanyOf, ht₂⟩ := coerceWithUnionSchema_eq anyOf value r₁ hkeepsAny
    obtain ⟨r₃, honeOf, ht₃⟩ := coerceWithUnionSchema_eq oneOf value r₂ hkeepsOne
    refine ⟨r₃, ?_, ?_⟩
    · have hsame := coerceTypes_of_fits number htypes
      rw [coerceWithJsonSchema, hallOf, ok_bind, hanyOf, ok_bind, honeOf, ok_bind, hsame]
      cases value with
      | obj members =>
        dsimp only
        by_cases hobject : js "object" ∈ types
        · obtain ⟨hkeepsMembers, hkeepsAdditional⟩ := hkeepsParts hobject
          rw [if_pos hobject, coerceProperties_eq properties members hparts hkeepsMembers]
          rw [ok_bind, coerceAdditional_eq additionalProperties _ members hkeepsAdditional]
          rfl
        · exact if_neg hobject
      | arr elements =>
        dsimp only
        by_cases harray : js "array" ∈ types
        · have hkeepsElements := hkeepsParts harray
          rw [if_pos harray]
          by_cases htuple : tupleItems = []
          · rw [if_pos htuple] at hkeepsElements ⊢
            rw [coerceItems_eq items elements hkeepsElements]
            rfl
          · rw [if_neg htuple] at hkeepsElements ⊢
            rw [coerceTuple_eq tupleItems elements hparts hkeepsElements]
            rfl
        · exact if_neg harray
      | null => rfl
      | bool b => rfl
      | num n => rfl
      | str s => rfl
    · intro h
      rw [takesBranch, Bool.or_eq_true, Bool.or_eq_true]
      rcases ht₃ h with h | h
      · rcases ht₂ h with h | h
        · exact .inl (.inl ((ht₁ h).resolve_left Bool.false_ne_true))
        · exact .inl (.inr h)
      · exact .inr h

theorem coerceAllOf_eq : (schemas : List JsonSchema) → (value : Tree) → (replaced : Bool) →
    fitsAll schemas value = true → KeepsAll number compile schemas value →
    ∃ replaced', coerceAllOf number compile schemas ⟨value, replaced⟩ = .ok ⟨value, replaced'⟩ ∧
      (replaced' = true → replaced = true ∨ takesBranchOf compile schemas value = true)
  | [], value, replaced, _, _ => ⟨replaced, rfl, .inl⟩
  | schema :: schemas, value, replaced, hfits, hkeeps => by
    obtain ⟨hfits, hfitsAll⟩ := Bool.and_eq_true_iff.mp hfits
    obtain ⟨r₁, hfirst, ht₁⟩ := coerceWithJsonSchema_eq schema value hfits hkeeps.1
    obtain ⟨r₂, hrest, ht₂⟩ := coerceAllOf_eq schemas value (replaced || r₁) hfitsAll hkeeps.2
    refine ⟨r₂, ?_, fun h => ?_⟩
    · rw [coerceAllOf, hfirst]
      exact hrest
    · rw [takesBranchOf, Bool.or_eq_true]
      rcases ht₂ h with h | h
      · exact ((Bool.or_eq_true _ _).mp h).imp_right fun h => .inl (ht₁ h)
      · exact .inr (.inr h)

theorem coerceWithUnionSchema_eq : (schemas : List JsonSchema) → (value : Tree) →
    (replaced : Bool) → KeepsUnion number compile schemas value →
    ∃ replaced', coerceWithUnionSchema number compile schemas ⟨value, replaced⟩ =
        .ok ⟨value, replaced'⟩ ∧
      (replaced' = true → replaced = true ∨
        schemas.any (fun schema => branchAccepts compile schema value) = true)
  | [], value, replaced, _ => ⟨replaced, rfl, .inl⟩
  | schema :: schemas, value, replaced, hkeeps => by
    rw [any_cons]
    rcases hkeeps with ⟨haccepts, hkeeps⟩ | ⟨⟨coerced, hcoerced, hpasses⟩, hkeeps⟩
    · obtain ⟨r, hfirst, -⟩ := coerceWithJsonSchema_eq schema value
        (fits_of_branchAccepts hcompile haccepts) hkeeps
      refine ⟨true, ?_, fun _ => .inr ?_⟩
      · rw [coerceWithUnionSchema, hfirst]
        exact if_pos haccepts
      · rw [haccepts, Bool.true_or]
    · obtain ⟨r, hrest, ht⟩ := coerceWithUnionSchema_eq schemas value replaced hkeeps
      refine ⟨r, ?_, fun h => ?_⟩
      · rw [coerceWithUnionSchema, hcoerced]
        exact (if_neg (by rw [hpasses]; decide)).trans hrest
      · exact (ht h).imp_right fun h => by rw [h, Bool.or_true]

theorem coerceProperties_eq : (properties : List (JsString × JsonSchema)) →
    (members : List (JsString × Tree)) → fitsMembers properties members = true →
    KeepsMembers number compile properties members →
    coerceProperties number compile properties members = .ok members
  | [], members, _, _ => rfl
  | (key, schema) :: properties, members, hfits, hkeeps => by
    obtain ⟨hfits, hfitsMembers⟩ := Bool.and_eq_true_iff.mp hfits
    obtain ⟨hkeeps, hkeepsMembers⟩ := hkeeps
    have hrest := coerceProperties_eq properties members hfitsMembers hkeepsMembers
    rw [coerceProperties]
    cases hget : assocGet key members with
    | none =>
      rw [hget] at hkeeps
      exact (if_neg hkeeps).trans hrest
    | some member =>
      rw [hget] at hfits hkeeps
      obtain ⟨r, hmember, -⟩ := coerceWithJsonSchema_eq schema member hfits hkeeps
      dsimp only
      rw [hmember]
      have hsame := assocSet_of_assocGet hget
      exact (congrArg (coerceProperties number compile properties) hsame).trans hrest

theorem coerceAdditional_eq : (additionalProperties : Option JsonSchema) →
    (definedKeys : List JsString) → (members : List (JsString × Tree)) →
    KeepsAdditional number compile additionalProperties definedKeys members →
    coerceAdditional number compile additionalProperties definedKeys members = .ok members
  | none, definedKeys, members, _ => rfl
  | some schema, definedKeys, members, hkeeps => by
    rw [coerceAdditional]
    refine mapM_eq_self fun member hmember => ?_
    by_cases hdefined : member.1 ∈ definedKeys
    · exact if_pos hdefined
    · rw [if_neg hdefined]
      rcases hkeeps member hmember hdefined with ⟨hfits, hkeeps⟩ | ⟨coerced, hcoerced, hsame⟩
      · obtain ⟨r, hcoerced, -⟩ := coerceWithJsonSchema_eq schema member.2 hfits hkeeps
        rw [hcoerced]
        rfl
      · rw [hcoerced]
        exact congrArg (fun x => Except.ok (member.1, x)) hsame

theorem coerceItems_eq : (items : Option JsonSchema) → (elements : List Tree) →
    KeepsItems number compile items elements →
    coerceItems number compile items elements = .ok elements
  | none, elements, _ => rfl
  | some schema, elements, hkeeps => by
    rw [coerceItems]
    refine mapM_eq_self fun element helement => ?_
    rcases hkeeps element helement with ⟨hfits, hkeeps⟩ | ⟨coerced, hcoerced, hsame⟩
    · obtain ⟨r, hcoerced, -⟩ := coerceWithJsonSchema_eq schema element hfits hkeeps
      rw [hcoerced]
      rfl
    · rw [hcoerced]
      exact congrArg Except.ok hsame

theorem coerceTuple_eq : (schemas : List JsonSchema) → (elements : List Tree) →
    fitsElements schemas elements = true → KeepsElements number compile schemas elements →
    coerceTuple number compile schemas elements = .ok elements
  | [], elements, _, _ => by
    rw [coerceTuple]
  | schema :: schemas, [], _, _ => rfl
  | schema :: schemas, element :: elements, hfits, hkeeps => by
    obtain ⟨hfits, hfitsElements⟩ := Bool.and_eq_true_iff.mp hfits
    obtain ⟨r, hfirst, -⟩ := coerceWithJsonSchema_eq schema element hfits hkeeps.1
    have hrest := coerceTuple_eq schemas elements hfitsElements hkeeps.2
    rw [coerceTuple, hfirst, ok_bind, hrest]
    rfl

end

end Sound

end Kept

section Arguments

variable (number : JsString → Option Decimal) (compile : JsonSchema → Option (Tree → Bool))
  (convert : JsonSchema → Tree → Tree) (validationErrors : JsonSchema → Tree → List ValidationError)

theorem assign_eq_self {args : Tree}
    (h : ∀ members, args = .obj members → ∀ member ∈ members, member.1 ≠ js "__proto__") :
    assign args = args := by
  cases args with
  | obj members =>
    have hfilter : members.filter (fun member => member.1 ≠ js "__proto__") = members :=
      filter_eq_self.mpr fun member hmember => decide_eq_true (h members rfl member hmember)
    rw [assign, hfilter]
  | null => rfl
  | bool b => rfl
  | num n => rfl
  | str s => rfl
  | arr elements => rfl

end Arguments

def typeSchema (type : JsString) : JsonSchema := .object [type] [] none none [] [] [] [] (.obj [])

def textOrNumber : JsonSchema :=
  .object [] [] none none [] [] [typeSchema (js "string"), typeSchema (js "number")] [] (.obj [])

def echoTool (schema : JsonSchema) : Tool where
  name := js "echo"
  parameters := .object [js "object"] [(js "value", schema)] none none [] [] [] [] (.obj [])
  hasTypeBoxMetadata := false

def echoCall (value : Tree) (h : Tree.ordered (.obj [(js "value", value)]) = true) : ToolCall where
  id := js "tool-1"
  name := js "echo"
  arguments := ⟨.obj [(js "value", value)], h⟩

/-- For schemas of these keywords only, the validator asks what every schema asks. -/
def compileFits (schema : JsonSchema) : Option (Tree → Bool) := some (fits schema)

theorem acceptsFitting_compileFits : AcceptsFitting compileFits := by
  intro schema check value hcheck hvalue
  obtain rfl := Option.some.inj hcheck
  exact hvalue

end Validation

end AcademicAgent
