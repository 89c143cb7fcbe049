import AcademicAgent.Core.Json.Lines
import AcademicAgent.Core.JsMap

/-!
# Records as JSON

Codecs between a type and JSON values, built from those of its parts: fields of an object,
required or optional, and unions that one member tells apart.
-/

namespace AcademicAgent

open List Json

/-- Writing and reading the values of a type as JSON values. -/
structure JsonCodec (α : Type) where
  encode : α → Json
  decode : Json → Option α
  decode_encode : ∀ a, decode (encode a) = some a

namespace JsonCodec

variable {α β : Type}

def json : JsonCodec Json := ⟨fun j => j, some, fun _ => rfl⟩

def string : JsonCodec JsString where
  encode s := ⟨.str s, rfl⟩
  decode j :=
    match j.tree with
    | .str s => some s
    | _ => none
  decode_encode _ := rfl

def bool : JsonCodec Bool where
  encode b := ⟨.bool b, rfl⟩
  decode j :=
    match j.tree with
    | .bool b => some b
    | _ => none
  decode_encode _ := rfl

def decimal : JsonCodec Decimal where
  encode n := ⟨.num n, rfl⟩
  decode j :=
    match j.tree with
    | .num n => some n
    | _ => none
  decode_encode _ := rfl

/-- The codec of a type with another representation. -/
def map (c : JsonCodec α) (build : α → β) (parts : β → α) (h : ∀ b, build (parts b) = b) :
    JsonCodec β where
  encode b := c.encode (parts b)
  decode j := (c.decode j).map build
  decode_encode b := by rw [c.decode_encode, Option.map_some, h]

/-- The codec of a type whose representation some values do not use. -/
def filterMap (c : JsonCodec α) (build : α → Option β) (parts : β → α)
    (h : ∀ b, build (parts b) = some b) : JsonCodec β where
  encode b := c.encode (parts b)
  decode j := (c.decode j).bind build
  decode_encode b := by rw [c.decode_encode, Option.bind_some, h]

end JsonCodec

def Decimal.toInt? (x : Decimal) : Option Int :=
  if 0 ≤ x.exponent then some (x.mantissa * 10 ^ x.exponent.toNat) else none

theorem Decimal.strip_value (fuel m : Nat) (e : Nat) :
    ∃ k : Nat, (strip fuel m e).2 = (e + k : Nat) ∧ (strip fuel m e).1 * 10 ^ k = m := by
  induction fuel generalizing m e with
  | zero => exact ⟨0, by simp [strip], by simp [strip]⟩
  | succ fuel ih =>
    by_cases hz : m % 10 = 0
    · obtain ⟨k, hk, hm⟩ := ih (m / 10) (e + 1)
      refine ⟨k + 1, ?_, ?_⟩
      · rw [strip, if_pos hz]
        push_cast at hk ⊢
        rw [hk]
        ring
      · rw [strip, if_pos hz]
        push_cast at hm
        rw [pow_succ, ← mul_assoc, hm]
        omega
    · exact ⟨0, by simp [strip, hz], by simp [strip, hz]⟩

theorem Decimal.toInt?_ofInt (n : Int) : (ofInt n).toInt? = some n := by
  unfold ofInt make
  split
  · rename_i h
    have hn : n = 0 := Int.natAbs_eq_zero.mp h
    subst hn
    rfl
  · obtain ⟨k, hk, hm⟩ := strip_value n.natAbs n.natAbs 0
    simp only [Nat.cast_zero, Nat.zero_add] at hk hm
    have hvalue : ((strip n.natAbs n.natAbs 0).1 : Int) * 10 ^ k = n.natAbs := by
      exact_mod_cast hm
    split
    · rename_i hneg
      have hlt : n < 0 := by simpa using hneg
      simp only [toInt?, hk, Int.natCast_nonneg, ite_true, Int.toNat_natCast, Option.some.injEq]
      rw [Int.neg_mul, hvalue]
      omega
    · rename_i hneg
      have hle : ¬ n < 0 := by simpa using hneg
      simp only [toInt?, hk, Int.natCast_nonneg, ite_true, Int.toNat_natCast, Option.some.injEq]
      rw [hvalue]
      omega

namespace JsonCodec

variable {α β : Type}

def int : JsonCodec Int := decimal.filterMap Decimal.toInt? Decimal.ofInt Decimal.toInt?_ofInt

def nat : JsonCodec Nat :=
  int.filterMap (fun n => if 0 ≤ n then some n.toNat else none) Int.ofNat fun n => by simp

/-- A value of one of two kinds; the second is read when the first rejects. -/
def either (c : JsonCodec α) (d : JsonCodec β) (h : ∀ b, c.decode (d.encode b) = none) :
    JsonCodec (α ⊕ β) where
  encode := Sum.elim c.encode d.encode
  decode j := ((c.decode j).map .inl).or ((d.decode j).map .inr)
  decode_encode
    | .inl a => by rw [Sum.elim_inl, c.decode_encode]; rfl
    | .inr b => by rw [Sum.elim_inr, h b, d.decode_encode]; rfl

/-- A value that may be absent, as `null`. -/
def nullable (c : JsonCodec α) (h : ∀ a, (c.encode a).tree ≠ .null) : JsonCodec (Option α) where
  encode a :=
    match a with
    | some a => c.encode a
    | none => ⟨.null, rfl⟩
  decode j := if j.tree = .null then some none else (c.decode j).map some
  decode_encode a := by
    cases a with
    | none => rfl
    | some a =>
      dsimp only
      rw [if_neg (h a), c.decode_encode, Option.map_some]

theorem orderedList_map (f : α → Json) (as : List α) :
    Json.Tree.orderedList (as.map fun a => (f a).tree) = true := by
  induction as with
  | nil => rfl
  | cons a as ih =>
    rw [map_cons, Json.Tree.orderedList, (f a).ordered, ih]
    rfl

/-- Decode each element, with the proof that it is ordered. -/
def decodeElements (c : JsonCodec α) : List Json.Tree → Option (List α)
  | [] => some []
  | t :: ts =>
    if h : t.ordered = true then
      (c.decode ⟨t, h⟩).bind fun a => (decodeElements c ts).map (a :: ·)
    else none

theorem decodeElements_map (c : JsonCodec α) (as : List α) :
    c.decodeElements (as.map fun a => (c.encode a).tree) = some as := by
  induction as with
  | nil => rfl
  | cons a as ih =>
    rw [map_cons, decodeElements, dif_pos (c.encode a).ordered, c.decode_encode,
      Option.bind_some, ih, Option.map_some]

def list (c : JsonCodec α) : JsonCodec (List α) where
  encode as := ⟨.arr (as.map fun a => (c.encode a).tree), orderedList_map c.encode as⟩
  decode j :=
    match j.tree with
    | .arr ts => c.decodeElements ts
    | _ => none
  decode_encode as := c.decodeElements_map as

end JsonCodec

theorem assocGet_append {κ υ : Type} [DecidableEq κ] (k : κ) (xs ys : List (κ × υ)) :
    assocGet k (xs ++ ys) = (assocGet k xs).or (assocGet k ys) := by
  induction xs with
  | nil => rfl
  | cons x xs ih =>
    obtain ⟨l, v⟩ := x
    by_cases hl : l = k
    · simp [assocGet, hl]
    · simp [assocGet, hl, ih]

structure Fields (α : Type) where
  /-- The keys the members may have. -/
  keys : List JsString
  encode : α → List (JsString × Json)
  decode : (JsString → Option Json) → Option α
  /-- No key is an array index, so members keep the order they are written in. -/
  plain : ∀ k ∈ keys, Json.arrayIndex? k = none
  mem_keys : ∀ a, ∀ k ∈ (encode a).map Prod.fst, k ∈ keys
  nodup : ∀ a, ((encode a).map Prod.fst).Nodup
  /-- Members that agree on the keys decode to what was encoded. -/
  decode_encode : ∀ a get, (∀ k ∈ keys, get k = assocGet k (encode a)) → decode get = some a

namespace Fields

variable {α β : Type}

section

variable (k : JsString) (c : JsonCodec α)

def required (hk : Json.arrayIndex? k = none := by decide) :
    Fields α where
  keys := [k]
  encode a := [(k, c.encode a)]
  decode get := (get k).bind c.decode
  plain := by simpa using hk
  mem_keys := by simp
  nodup := by simp
  decode_encode a get h := by
    rw [h k mem_cons_self]
    simp [assocGet, c.decode_encode]

/-- A member that is left out when its value is `undefined`. -/
def optional (hk : Json.arrayIndex? k = none := by decide) :
    Fields (Option α) where
  keys := [k]
  encode a :=
    match a with
    | some a => [(k, c.encode a)]
    | none => []
  decode get :=
    match get k with
    | some j => (c.decode j).map some
    | none => some none
  plain := by simpa using hk
  mem_keys a := by cases a <;> simp
  nodup a := by cases a <;> simp
  decode_encode a get h := by
    rw [h k mem_cons_self]
    cases a with
    | none => rfl
    | some a => simp [assocGet, c.decode_encode]

/-- A member that is always written; older texts may lack it. -/
def withDefault (default : α) (hk : Json.arrayIndex? k = none := by decide) : Fields α where
  keys := [k]
  encode a := [(k, c.encode a)]
  decode get :=
    match get k with
    | some j => c.decode j
    | none => some default
  plain := by simpa using hk
  mem_keys := by simp
  nodup := by simp
  decode_encode a get h := by
    rw [h k mem_cons_self]
    simp [assocGet, c.decode_encode]

end

def none : Fields Unit where
  keys := []
  encode _ := []
  decode _ := some ()
  plain := by simp
  mem_keys := by simp
  nodup := by simp
  decode_encode _ _ _ := rfl

/-- The members of one part followed by those of another. -/
def both (f : Fields α) (g : Fields β) (h : ∀ k ∈ f.keys, k ∉ g.keys := by decide) :
    Fields (α × β) where
  keys := f.keys ++ g.keys
  encode p := f.encode p.1 ++ g.encode p.2
  decode get := (f.decode get).bind fun a => (g.decode get).map (a, ·)
  plain k hk := by
    rcases mem_append.mp hk with hk | hk
    · exact f.plain k hk
    · exact g.plain k hk
  mem_keys p k hk := by
    rw [map_append] at hk
    rcases mem_append.mp hk with hk | hk
    · exact mem_append_left _ (f.mem_keys p.1 k hk)
    · exact mem_append_right _ (g.mem_keys p.2 k hk)
  nodup p := by
    rw [map_append, nodup_append]
    refine ⟨f.nodup p.1, g.nodup p.2, ?_⟩
    rintro k hk l hl rfl
    exact h k (f.mem_keys p.1 k hk) (g.mem_keys p.2 k hl)
  decode_encode p get hget := by
    have hf : ∀ k ∈ f.keys, get k = assocGet k (f.encode p.1) := by
      intro k hk
      have hnone : assocGet k (g.encode p.2) = Option.none :=
        (assocGet_eq_none_iff _ _).mpr fun hmem => h k hk (g.mem_keys p.2 k hmem)
      rw [hget k (mem_append_left _ hk), assocGet_append, hnone, Option.or_none]
    have hg : ∀ k ∈ g.keys, get k = assocGet k (g.encode p.2) := by
      intro k hk
      have hnone : assocGet k (f.encode p.1) = Option.none :=
        (assocGet_eq_none_iff _ _).mpr fun hmem => h k (f.mem_keys p.1 k hmem) hk
      rw [hget k (mem_append_right _ hk), assocGet_append, hnone, Option.none_or]
    rw [f.decode_encode p.1 get hf, Option.bind_some, g.decode_encode p.2 get hg, Option.map_some]

/-- The fields of a type with another representation. -/
def map (f : Fields α) (build : α → β) (parts : β → α) (h : ∀ b, build (parts b) = b) :
    Fields β where
  keys := f.keys
  encode b := f.encode (parts b)
  decode get := (f.decode get).map build
  plain := f.plain
  mem_keys b := f.mem_keys (parts b)
  nodup b := f.nodup (parts b)
  decode_encode b get hget := by rw [f.decode_encode (parts b) get hget, Option.map_some, h]

section

variable (f : Fields α) (a : α)

theorem keysOrdered_encode : Json.KeysOrdered ((f.encode a).map Prod.fst) := by
  refine (f.nodup a).imp_of_mem fun {k l} hk hl hne => ?_
  simp only [keyBefore, f.plain k (f.mem_keys a k hk), f.plain l (f.mem_keys a l hl),
    decide_eq_true_eq]
  exact hne

def members : List (JsString × Json.Tree) :=
  (f.encode a).map fun m => (m.1, m.2.tree)

theorem ordered_members : Json.Tree.ordered (.obj (f.members a)) = true := by
  have hkeys : (f.members a).map Prod.fst = (f.encode a).map Prod.fst := by
    rw [members, map_map]
    rfl
  rw [Json.Tree.ordered, hkeys, decide_eq_true (f.keysOrdered_encode a), Bool.true_and,
    Json.Tree.orderedMembers_iff]
  intro m hm
  obtain ⟨n, _, rfl⟩ := mem_map.mp hm
  exact n.2.ordered

def getMember (ms : List (JsString × Json.Tree)) (k : JsString) : Option Json :=
  (assocGet k ms).bind fun t =>
    if h : t.ordered = true then some ⟨t, h⟩ else Option.none

theorem getMember_members (k : JsString) : getMember (f.members a) k = assocGet k (f.encode a) := by
  unfold members getMember
  induction f.encode a with
  | nil => rfl
  | cons m ms ih =>
    obtain ⟨l, j⟩ := m
    by_cases hl : l = k
    · simp [assocGet, hl, j.ordered]
    · simpa [assocGet, hl] using ih

end

def object (f : Fields α) : JsonCodec α where
  encode a := ⟨.obj (f.members a), f.ordered_members a⟩
  decode j :=
    match j.tree with
    | .obj ms => f.decode (getMember ms)
    | _ => Option.none
  decode_encode a := f.decode_encode a _ fun k _ => f.getMember_members a k

end Fields

structure Union (α : Type) where
  tags : List JsString
  keys : List JsString
  tag : α → JsString
  tag_mem : ∀ a, tag a ∈ tags
  encode : α → List (JsString × Json)
  decode : JsString → (JsString → Option Json) → Option α
  plain : ∀ k ∈ keys, Json.arrayIndex? k = none
  mem_keys : ∀ a, ∀ k ∈ (encode a).map Prod.fst, k ∈ keys
  nodup : ∀ a, ((encode a).map Prod.fst).Nodup
  decode_encode : ∀ a get, (∀ k ∈ keys, get k = assocGet k (encode a)) →
    decode (tag a) get = some a

namespace Union

variable {α β : Type}

def variant (t : JsString) (f : Fields α) : Union α where
  tags := [t]
  keys := f.keys
  tag _ := t
  tag_mem _ := mem_cons_self
  encode := f.encode
  decode _ := f.decode
  plain := f.plain
  mem_keys := f.mem_keys
  nodup := f.nodup
  decode_encode := f.decode_encode

def or (u : Union α) (v : Union β) (h : ∀ t ∈ v.tags, t ∉ u.tags := by decide) :
    Union (α ⊕ β) where
  tags := u.tags ++ v.tags
  keys := u.keys ++ v.keys
  tag := Sum.elim u.tag v.tag
  tag_mem
    | .inl a => mem_append_left _ (u.tag_mem a)
    | .inr b => mem_append_right _ (v.tag_mem b)
  encode := Sum.elim u.encode v.encode
  decode t get :=
    if t ∈ u.tags then (u.decode t get).map .inl else (v.decode t get).map .inr
  plain k hk := by
    rcases mem_append.mp hk with hk | hk
    · exact u.plain k hk
    · exact v.plain k hk
  mem_keys
    | .inl a => fun k hk => mem_append_left _ (u.mem_keys a k hk)
    | .inr b => fun k hk => mem_append_right _ (v.mem_keys b k hk)
  nodup
    | .inl a => u.nodup a
    | .inr b => v.nodup b
  decode_encode
    | .inl a => fun get hget => by
      have hu := u.decode_encode a get fun k hk => hget k (mem_append_left _ hk)
      simp only [Sum.elim_inl, if_pos (u.tag_mem a), hu, Option.map_some]
    | .inr b => fun get hget => by
      have hv := v.decode_encode b get fun k hk => hget k (mem_append_right _ hk)
      simp only [Sum.elim_inr, if_neg (h _ (v.tag_mem b)), hv, Option.map_some]

/-- The union of a type with another representation. -/
def map (u : Union α) (build : α → β) (parts : β → α) (h : ∀ b, build (parts b) = b) : Union β where
  tags := u.tags
  keys := u.keys
  tag b := u.tag (parts b)
  tag_mem b := u.tag_mem (parts b)
  encode b := u.encode (parts b)
  decode t get := (u.decode t get).map build
  plain := u.plain
  mem_keys b := u.mem_keys (parts b)
  nodup b := u.nodup (parts b)
  decode_encode b get hget := by rw [u.decode_encode (parts b) get hget, Option.map_some, h]

/-- The fields of a union: the tag and those of the variant. -/
def fields (u : Union α) (key : JsString)
    (hkey : Json.arrayIndex? key = Option.none := by decide) (hu : key ∉ u.keys := by decide) :
    Fields α where
  keys := key :: u.keys
  encode a := (key, JsonCodec.string.encode (u.tag a)) :: u.encode a
  decode get := ((get key).bind JsonCodec.string.decode).bind fun t => u.decode t get
  plain k hk := by
    rcases mem_cons.mp hk with rfl | hk
    · exact hkey
    · exact u.plain k hk
  mem_keys a k hk := by
    rcases mem_cons.mp hk with rfl | hk
    · exact mem_cons_self
    · exact mem_cons_of_mem _ (u.mem_keys a k hk)
  nodup a := by
    rw [map_cons, nodup_cons]
    exact ⟨fun hmem => hu (u.mem_keys a key hmem), u.nodup a⟩
  decode_encode a get hget := by
    have htag : get key = some (JsonCodec.string.encode (u.tag a)) := by
      rw [hget key mem_cons_self, assocGet, if_pos rfl]
    have hvariant : ∀ k ∈ u.keys, get k = assocGet k (u.encode a) := by
      intro k hk
      have hne : key ≠ k := by
        rintro rfl
        exact hu hk
      rw [hget k (mem_cons_of_mem _ hk), assocGet, if_neg hne]
    rw [htag, Option.bind_some, JsonCodec.string.decode_encode, Option.bind_some,
      u.decode_encode a get hvariant]

end Union

def Fields.lineCodec {α : Type} (f : Fields α) : LineCodec α where
  stringify a := (f.object.encode a).stringify
  parse s := (Json.parse s).bind f.object.decode
  parse_stringify a := by
    rw [Json.parse_stringify, Option.bind_some, f.object.decode_encode]
  stringify_ne_nil a := Json.print_ne_nil _
  lf_notMem a := Json.lf_notMem_stringify _
  head_stringify a := by
    have hhead := (Json.print_obj_ends (f.members a)).1
    rw [head?_eq_some_head (Json.print_ne_nil _)] at hhead
    have : (f.object.encode a).stringify.head (Json.print_ne_nil _) = 0x7B := Option.some.inj hhead
    rw [this]
    decide
  getLast_stringify a := by
    have hlast := (Json.print_obj_ends (f.members a)).2
    rw [getLast?_eq_some_getLast (Json.print_ne_nil _)] at hlast
    have : (f.object.encode a).stringify.getLast (Json.print_ne_nil _) = 0x7D :=
      Option.some.inj hlast
    rw [this]
    decide

def Json.array (values : List Json) : Json where
  tree := .arr (values.map Json.tree)
  ordered := JsonCodec.orderedList_map id values

theorem Json.array_injective : Function.Injective array := by
  intro as bs h
  have htrees : as.map tree = bs.map tree := Json.Tree.arr.inj (congrArg tree h)
  have htree : Function.Injective tree := by
    rintro ⟨a, ha⟩ ⟨b, hb⟩ rfl
    rfl
  exact map_injective_iff.mpr htree htrees

end AcademicAgent
