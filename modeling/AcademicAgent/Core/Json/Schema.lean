import AcademicAgent.Core.Json.Value
import AcademicAgent.Core.JsMap

/-!
# Schemas of JSON values

The part of JSON schema that describes records: texts, numbers, booleans, enumerations of
texts, arrays of one kind of element, and objects with required and described properties that
may or may not be the only ones.
-/

namespace AcademicAgent

namespace Json

/-- A schema. The last component of an object is its `additionalProperties`. -/
inductive Schema where
  | string
  | number
  | boolean
  | enum (values : List String)
  | array (items : Schema)
  | object (required : List String) (properties : List (String × Schema))
      (additionalProperties : Bool)

namespace Schema

/-- Whether every member of an object is one of the described properties. -/
def declaresAll (properties : List (String × Schema)) (ms : List (JsString × Tree)) : Bool :=
  ms.all fun m => properties.any fun p => js p.1 == m.1

mutual

def validates : Schema → Tree → Bool
  | string, .str _ => true
  | number, .num _ => true
  | boolean, .bool _ => true
  | enum values, .str s => values.any fun value => js value == s
  | array items, .arr xs => xs.all (validates items)
  | object required properties additionalProperties, .obj ms =>
    required.all (fun key => (assocGet (js key) ms).isSome) &&
      validatesMembers properties ms && (additionalProperties || declaresAll properties ms)
  | _, _ => false

/-- Whether every described member that is present validates. -/
def validatesMembers : List (String × Schema) → List (JsString × Tree) → Bool
  | [], _ => true
  | (key, schema) :: properties, ms =>
    (assocGet (js key) ms).all (validates schema) && validatesMembers properties ms

end

mutual

/-- The schema with every object open to members it does not declare. -/
def opened : Schema → Schema
  | string => string
  | number => number
  | boolean => boolean
  | enum values => enum values
  | array items => array (opened items)
  | object required properties _ => object required (openedMembers properties) true

def openedMembers : List (String × Schema) → List (String × Schema)
  | [] => []
  | (key, schema) :: properties => (key, opened schema) :: openedMembers properties

end

mutual

/-- Whether no closed object of the value, as far as the schema describes the
value, has an undeclared member. -/
def closed : Schema → Tree → Bool
  | array items, .arr xs => xs.all (closed items)
  | object _ properties additionalProperties, .obj ms =>
    (additionalProperties || declaresAll properties ms) && closedMembers properties ms
  | _, _ => true

/-- Whether every described member that is present is closed. -/
def closedMembers : List (String × Schema) → List (JsString × Tree) → Bool
  | [], _ => true
  | (key, schema) :: properties, ms =>
    (assocGet (js key) ms).all (closed schema) && closedMembers properties ms

end

mutual

/-- A value validates exactly when its declared part has the declared types
and it has no undeclared member. -/
theorem validates_iff : (schema : Schema) → (value : Tree) → (schema.validates value = true ↔
      schema.opened.validates value = true ∧ schema.closed value = true)
  | string, value => by cases value <;> simp [validates, opened, closed]
  | number, value => by cases value <;> simp [validates, opened, closed]
  | boolean, value => by cases value <;> simp [validates, opened, closed]
  | enum values, value => by cases value <;> simp [validates, opened, closed]
  | array items, value => by
    cases value with
    | arr xs =>
      have hitems : ∀ x : Tree, items.validates x = true ↔
          items.opened.validates x = true ∧ items.closed x = true := validates_iff items
      simp only [validates, opened, closed, List.all_eq_true, hitems]
      exact ⟨fun h => ⟨fun x hx => (h x hx).1, fun x hx => (h x hx).2⟩,
        fun h x hx => ⟨h.1 x hx, h.2 x hx⟩⟩
    | _ => simp [validates, opened]
  | object required properties additionalProperties, value => by
    cases value with
    | obj ms =>
      have hmembers := validatesMembers_iff properties ms
      simp only [validates, opened, closed, Bool.and_eq_true, hmembers, Bool.true_or, and_true]
      tauto
    | _ => simp [validates, opened]

theorem validatesMembers_iff : (properties : List (String × Schema)) →
    (ms : List (JsString × Tree)) →
    (validatesMembers properties ms = true ↔ validatesMembers (openedMembers properties) ms = true ∧
        closedMembers properties ms = true)
  | [], ms => by simp [validatesMembers, openedMembers, closedMembers]
  | (key, schema) :: properties, ms => by
    have hrest := validatesMembers_iff properties ms
    have hmember : (assocGet (js key) ms).all schema.validates = true ↔
        (assocGet (js key) ms).all schema.opened.validates = true ∧
          (assocGet (js key) ms).all schema.closed = true := by
      cases assocGet (js key) ms with
      | none => simp
      | some value => simpa using validates_iff schema value
    simp only [validatesMembers, openedMembers, closedMembers, Bool.and_eq_true, hmember, hrest]
    tauto

end

end Schema

end Json

end AcademicAgent
