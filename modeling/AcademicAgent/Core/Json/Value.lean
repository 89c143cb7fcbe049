import AcademicAgent.Core.Json.Number

/-!
# JSON values

The values `JSON.parse` builds and `JSON.stringify` prints.
-/

namespace AcademicAgent

open List

namespace Json

/-- A value before the order of its members is checked. -/
inductive Tree where
  | null
  | bool (b : Bool)
  | num (n : Decimal)
  | str (s : JsString)
  | arr (xs : List Tree)
  | obj (ms : List (JsString × Tree))

namespace Tree

mutual

def beq : Tree → Tree → Bool
  | null, null => true
  | bool a, bool b => a == b
  | num a, num b => a == b
  | str a, str b => a == b
  | arr xs, arr ys => beqList xs ys
  | obj ms, obj ns => beqMembers ms ns
  | _, _ => false

def beqList : List Tree → List Tree → Bool
  | [], [] => true
  | x :: xs, y :: ys => beq x y && beqList xs ys
  | _, _ => false

/-- Structural equality of two objects, member order included. -/
def beqMembers : List (JsString × Tree) → List (JsString × Tree) → Bool
  | [], [] => true
  | (k, x) :: ms, (l, y) :: ns => k == l && beq x y && beqMembers ms ns
  | _, _ => false

end

mutual

theorem beq_iff : (a b : Tree) → (beq a b = true ↔ a = b)
  | null, b => by cases b <;> simp [beq]
  | bool _, b => by cases b <;> simp [beq]
  | num _, b => by cases b <;> simp [beq]
  | str _, b => by cases b <;> simp [beq]
  | arr xs, b => by cases b <;> simp [beq, beqList_iff xs]
  | obj ms, b => by cases b <;> simp [beq, beqMembers_iff ms]

theorem beqList_iff : (xs ys : List Tree) → (beqList xs ys = true ↔ xs = ys)
  | [], ys => by cases ys <;> simp [beqList]
  | x :: xs, ys => by
    cases ys with
    | nil => simp [beqList]
    | cons y ys => simp [beqList, beq_iff x y, beqList_iff xs ys]

theorem beqMembers_iff : (ms ns : List (JsString × Tree)) → (beqMembers ms ns = true ↔ ms = ns)
  | [], ns => by cases ns <;> simp [beqMembers]
  | (k, x) :: ms, ns => by
    cases ns with
    | nil => simp [beqMembers]
    | cons n ns =>
      obtain ⟨l, y⟩ := n
      simp [beqMembers, beq_iff x y, beqMembers_iff ms ns, and_assoc]

end

instance : DecidableEq Tree := fun a b => decidable_of_iff (beq a b = true) (beq_iff a b)

end Tree

/-- The number that a key names as an array index: a canonical numeral below `2 ^ 32 - 1`. -/
def arrayIndex? (k : JsString) : Option Nat :=
  if k = decimalText (digitsValue k) && Nat.blt (digitsValue k) 4294967295 then
    some (digitsValue k)
  else none

/-- Whether the first key may precede the second in an object. -/
def keyBefore (k l : JsString) : Bool :=
  match arrayIndex? k, arrayIndex? l with
  | some i, some j => decide (i < j)
  | some _, none => true
  | none, some _ => false
  | none, none => decide (k ≠ l)

/-- Define a member: a present key keeps its place, a new index is sorted in,
and any other new key comes last. -/
def setMember {β : Type} (k : JsString) (v : β) :
    List (JsString × β) → List (JsString × β)
  | [] => [(k, v)]
  | (l, w) :: ms =>
    if l = k then (k, v) :: ms
    else if (arrayIndex? k).isSome && keyBefore k l then (k, v) :: (l, w) :: ms
    else (l, w) :: setMember k v ms

def KeysOrdered (ks : List JsString) : Prop := ks.Pairwise fun k l => keyBefore k l = true

instance (ks : List JsString) : Decidable (KeysOrdered ks) :=
  inferInstanceAs (Decidable (ks.Pairwise _))

theorem keyBefore_irrefl (k : JsString) : keyBefore k k = false := by
  unfold keyBefore
  cases arrayIndex? k <;> simp

section

variable {k l : JsString}

theorem keyBefore_ne (h : keyBefore k l = true) : k ≠ l := by
  rintro rfl
  rw [keyBefore_irrefl] at h
  contradiction

theorem arrayIndex?_injective {i : Nat} (hk : arrayIndex? k = some i)
    (hl : arrayIndex? l = some i) : k = l := by
  unfold arrayIndex? at hk hl
  split at hk
  · split at hl
    · rename_i h h'
      cases hk
      rw [Bool.and_eq_true, decide_eq_true_eq] at h h'
      rw [h.1, h'.1, Option.some.inj hl]
    · contradiction
  · contradiction

/-- Two different keys are in order one way or the other when the first is an index. -/
theorem keyBefore_or (hne : l ≠ k) (hk : (arrayIndex? k).isSome = true) :
    keyBefore k l = true ∨ keyBefore l k = true := by
  obtain ⟨i, hi⟩ := Option.isSome_iff_exists.mp hk
  unfold keyBefore
  cases hl : arrayIndex? l with
  | none => exact .inl (by simp [hi])
  | some j =>
    have hij : i ≠ j := fun heq => hne (arrayIndex?_injective hl (heq ▸ hi))
    simp only [hi, decide_eq_true_eq]
    omega

end

theorem keyBefore_trans {k l m : JsString} (hkl : keyBefore k l = true)
    (hlm : keyBefore l m = true) (hk : (arrayIndex? k).isSome = true) : keyBefore k m = true := by
  obtain ⟨i, hi⟩ := Option.isSome_iff_exists.mp hk
  unfold keyBefore at *
  cases hl : arrayIndex? l <;> cases hm : arrayIndex? m <;> simp_all
  omega

theorem keyBefore_of_not_index {k l : JsString} (hne : l ≠ k)
    (hk : (arrayIndex? k).isSome = false) : keyBefore l k = true := by
  have hnone : arrayIndex? k = none := by simpa using hk
  unfold keyBefore
  cases hl : arrayIndex? l <;> simp [hnone, hne]

theorem mem_keys_setMember {β : Type} {k k' : JsString} {v : β} {ms : List (JsString × β)}
    (h : k' ∈ (setMember k v ms).map Prod.fst) : k' = k ∨ k' ∈ ms.map Prod.fst := by
  induction ms with
  | nil => simpa [setMember] using h
  | cons m ms ih =>
    obtain ⟨l, w⟩ := m
    unfold setMember at h
    split at h
    · rename_i hlk
      simp only [map_cons, mem_cons] at h ⊢
      tauto
    · split at h
      · simpa using h
      · simp only [map_cons, mem_cons] at h ⊢
        rcases h with h | h
        · exact .inr (.inl h)
        · have := ih h
          tauto

section

variable {β : Type} {k : JsString} {v : β} {ms : List (JsString × β)}

theorem keysOrdered_setMember
    (h : KeysOrdered (ms.map Prod.fst)) : KeysOrdered ((setMember k v ms).map Prod.fst) := by
  induction ms with
  | nil => simp [setMember, KeysOrdered]
  | cons m ms ih =>
    obtain ⟨l, w⟩ := m
    simp only [KeysOrdered, map_cons, pairwise_cons] at h
    unfold setMember
    split
    · rename_i hlk
      subst hlk
      simpa only [KeysOrdered, map_cons, pairwise_cons] using h
    · rename_i hlk
      split
      · rename_i hbefore
        rw [Bool.and_eq_true] at hbefore
        simp only [KeysOrdered, map_cons, pairwise_cons, mem_cons, forall_eq_or_imp]
        exact ⟨⟨hbefore.2, fun m hm => keyBefore_trans hbefore.2 (h.1 m hm) hbefore.1⟩, h⟩
      · rename_i hbefore
        simp only [KeysOrdered, map_cons, pairwise_cons]
        refine ⟨?_, ih h.2⟩
        intro m hm
        rcases mem_keys_setMember hm with rfl | hm
        · cases hindex : (arrayIndex? m).isSome with
          | false => exact keyBefore_of_not_index hlk hindex
          | true =>
            rw [hindex, Bool.true_and] at hbefore
            exact (keyBefore_or hlk hindex).resolve_left hbefore
        · exact h.1 m hm

theorem setMember_eq_append
    (h : ∀ l ∈ ms.map Prod.fst, keyBefore l k = true) : setMember k v ms = ms ++ [(k, v)] := by
  induction ms with
  | nil => rfl
  | cons m ms ih =>
    obtain ⟨l, w⟩ := m
    simp only [map_cons, mem_cons, forall_eq_or_imp] at h
    have hnot : ((arrayIndex? k).isSome && keyBefore k l) = false := by
      rw [Bool.and_eq_false_iff]
      by_contra hno
      rw [not_or, Bool.not_eq_false, Bool.not_eq_false] at hno
      have := keyBefore_trans hno.2 h.1 hno.1
      rw [keyBefore_irrefl] at this
      contradiction
    rw [setMember, if_neg (keyBefore_ne h.1), hnot, if_neg Bool.false_ne_true, ih h.2, cons_append]

end

namespace Tree

mutual

/-- Every object of the value has its members in order. -/
def ordered : Tree → Bool
  | null | bool _ | num _ | str _ => true
  | arr xs => orderedList xs
  | obj ms => decide (KeysOrdered (ms.map Prod.fst)) && orderedMembers ms

def orderedList : List Tree → Bool
  | [] => true
  | x :: xs => ordered x && orderedList xs

def orderedMembers : List (JsString × Tree) → Bool
  | [] => true
  | (_, x) :: ms => ordered x && orderedMembers ms

end

theorem orderedMembers_iff {ms : List (JsString × Tree)} :
    orderedMembers ms = true ↔ ∀ m ∈ ms, m.2.ordered = true := by
  induction ms with
  | nil => simp [orderedMembers]
  | cons m ms ih =>
    obtain ⟨k, x⟩ := m
    simp [orderedMembers, ih]

theorem mem_setMember {β : Type} {k : JsString} {v : β} {ms : List (JsString × β)}
    {m : JsString × β} (h : m ∈ setMember k v ms) : m = (k, v) ∨ m ∈ ms := by
  induction ms with
  | nil => simpa [setMember] using h
  | cons n ms ih =>
    obtain ⟨l, w⟩ := n
    unfold setMember at h
    split at h
    · rcases mem_cons.mp h with h | h
      · exact .inl h
      · exact .inr (mem_cons_of_mem _ h)
    · split at h
      · exact mem_cons.mp h
      · rcases mem_cons.mp h with h | h
        · exact .inr (h ▸ mem_cons_self)
        · exact (ih h).imp_right (mem_cons_of_mem _)

theorem ordered_setMember {k : JsString} {x : Tree} {ms : List (JsString × Tree)}
    (hms : (obj ms).ordered = true) (hx : x.ordered = true) :
    (obj (setMember k x ms)).ordered = true := by
  simp only [ordered, Bool.and_eq_true, decide_eq_true_eq, orderedMembers_iff] at hms ⊢
  refine ⟨keysOrdered_setMember hms.1, fun m hm => ?_⟩
  rcases mem_setMember hm with rfl | hm
  · exact hx
  · exact hms.2 m hm

end Tree

end Json

structure Json where
  tree : Json.Tree
  /-- The members of its objects are in order. -/
  ordered : tree.ordered = true
  deriving DecidableEq

namespace Json

def emptyObject : Json := ⟨.obj [], rfl⟩

/-- `value ?? undefined`: the value, unless it is `null`. -/
def notNull (value : Json) : Option Json :=
  if value.tree = .null then none else some value

end Json

end AcademicAgent
