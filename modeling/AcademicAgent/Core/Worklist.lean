import Mathlib.Data.Set.Finite.Basic
import Mathlib.Order.WellFounded

/-!
# Worklists

A loop that pops an element from a stack, visits it and pushes the successors the visit
returns.
-/

namespace AcademicAgent

open List

variable {σ α : Type}

variable {a : α} {stack : List α}

/-- Pop, visit and push until the stack is empty; no value when the steps run out. -/
def drain (visit : σ → α → σ × List α) : Nat → σ → List α → Option σ
  | _, s, [] => some s
  | 0, _, _ :: _ => none
  | fuel + 1, s, a :: stack =>
    drain visit fuel (visit s a).1 ((visit s a).2 ++ stack)

def Drains (visit : σ → α → σ × List α) (s : σ) (stack : List α) : Prop :=
  ∃ fuel, (drain visit fuel s stack).isSome

theorem Drains.nil (visit : σ → α → σ × List α) (s : σ) : Drains visit s [] := ⟨0, rfl⟩

theorem drains_cons_iff {visit : σ → α → σ × List α} {s : σ} :
    Drains visit s (a :: stack) ↔ Drains visit (visit s a).1 ((visit s a).2 ++ stack) := by
  constructor
  · rintro ⟨fuel, h⟩
    cases fuel with
    | zero => cases h
    | succ fuel => exact ⟨fuel, h⟩
  · rintro ⟨fuel, h⟩
    exact ⟨fuel + 1, h⟩

section Edges

variable {visit : σ → α → σ × List α} {inv : σ → Prop} {edge : α → α → Prop}

section

variable (hinv : ∀ s a, inv s → inv (visit s a).1)
  (hedge : ∀ s a, inv s → ∀ b, b ∈ (visit s a).2 ↔ edge a b)
include hinv hedge

theorem Drains.acc {s : σ} (hs : inv s) (h : Drains visit s stack) :
    ∀ a ∈ stack, Acc (fun b a => edge a b) a := by
  obtain ⟨fuel, h⟩ := h
  induction fuel generalizing s stack with
  | zero =>
    cases stack with
    | nil => simp
    | cons a stack => cases h
  | succ fuel ih =>
    cases stack with
    | nil => simp
    | cons a stack =>
      have hrest := ih (hinv s a hs) h
      intro b hb
      rcases mem_cons.mp hb with rfl | hb
      · refine ⟨b, fun c hc => hrest c ?_⟩
        exact mem_append_left _ ((hedge s b hs c).mpr hc)
      · exact hrest b (mem_append_right _ hb)

theorem drains_cons_of_acc (ha : Acc (fun b a => edge a b) a) :
    ∀ stack, (∀ s, inv s → Drains visit s stack) → ∀ s, inv s → Drains visit s (a :: stack) := by
  induction ha with
  | intro a _ ih =>
    intro stack hstack s hs
    rw [drains_cons_iff]
    have hpush : ∀ bs : List α, (∀ b ∈ bs, edge a b) →
        ∀ t, inv t → Drains visit t (bs ++ stack) := by
      intro bs
      induction bs with
      | nil => intro _ t ht; exact hstack t ht
      | cons b bs ihbs =>
        intro hbs t ht
        exact ih b (hbs b (by simp)) (bs ++ stack)
          (ihbs fun c hc => hbs c (mem_cons_of_mem _ hc)) t ht
    exact hpush _ (fun b hb => (hedge s a hs b).mp hb) _ (hinv s a hs)

theorem drains_iff {s : σ} (hs : inv s) :
    Drains visit s stack ↔ ∀ a ∈ stack, Acc (fun b a => edge a b) a := by
  refine ⟨Drains.acc hinv hedge hs, fun hacc => ?_⟩
  suffices hall : ∀ t, inv t → Drains visit t stack from hall s hs
  induction stack with
  | nil => exact fun t _ => .nil visit t
  | cons a stack ih =>
    exact drains_cons_of_acc hinv hedge (hacc a (by simp)) stack
      (ih fun b hb => hacc b (mem_cons_of_mem _ hb))

end

end Edges

/-- With finitely many targets, an element is accessible exactly when no cycle is
reachable from it. -/
theorem acc_iff_no_cycle {edge : α → α → Prop} {targets : List α}
    (htargets : ∀ a b, edge a b → b ∈ targets) (a : α) : Acc (fun b a => edge a b) a ↔
      ∀ b, Relation.ReflTransGen edge a b → ¬ Relation.TransGen edge b b := by
  constructor
  · intro hacc b hreach hcycle
    have hb : Acc (fun b a => edge a b) b := by
      clear hcycle
      induction hreach with
      | refl => exact hacc
      | tail _ hedge ih => exact ih.inv hedge
    have htrans := hb.transGen
    have hback : Relation.TransGen (fun b a => edge a b) b b := Relation.transGen_swap.mpr hcycle
    clear hcycle hreach hb
    induction htrans with
    | intro x _ ih => exact ih x hback hback
  · intro hno
    -- Along the reachable elements the edges are transitively irreflexive and finite.
    let reachable := {b : α // b ∈ a :: targets ∧ Relation.ReflTransGen edge a b}
    have hfinite : Finite reachable :=
      Set.Finite.subset (finite_toSet (a :: targets)) fun b hb => hb.1
    let below : reachable → reachable → Prop := fun y x => Relation.TransGen edge x.1 y.1
    have htrans : IsTrans reachable below := ⟨fun x y z hxy hyz => hyz.trans hxy⟩
    have hirrefl : Std.Irrefl below := ⟨fun x hx => hno x.1 x.2.2 hx⟩
    have hwf : WellFounded below := Finite.wellFounded_of_trans_of_irrefl below
    have hall : ∀ x : reachable, Acc (fun b a => edge a b) x.1 := by
      intro x
      induction x using hwf.induction with
      | _ x ih =>
        refine ⟨x.1, fun y hy => ?_⟩
        exact ih ⟨y, mem_cons_of_mem _ (htargets _ _ hy), x.2.2.tail hy⟩ (.single hy)
    exact hall ⟨a, by simp, .refl⟩

section DepthFirst

open Relation

variable {κ : Type} (get : κ → Option α) (key : α → κ) (next : α → List κ)

variable {k : κ}

/-- Visit a key with calls nested at most so deep. -/
def visitFrom [DecidableEq κ] : Nat → List α → κ → Option (List α)
  | fuel, seen, k =>
    match get k with
    | none => some seen
    | some current =>
      if seen.any (key · = key current) then some seen
      else match fuel with
        | 0 => none
        | fuel + 1 => (next current).foldlM (visitFrom fuel) (seen ++ [current])

def Names (a b : α) : Prop := ∃ k ∈ next a, get k = some b

/-- What is recorded can be looked up, and is recorded once. -/
structure Recorded (seen : List α) : Prop where
  get_key : ∀ a ∈ seen, get (key a) = some a
  nodup : (seen.map key).Nodup

/-- What a visit of some keys adds to what is recorded. -/
structure Visits (seen : List α) (ks : List κ) (last : List α) : Prop where
  recorded : Recorded get key last
  grows : seen <+: last
  visited : ∀ k ∈ ks, ∀ a, get k = some a → a ∈ last
  reached : ∀ a ∈ last, a ∉ seen → ∃ k ∈ ks, ∃ b, get k = some b ∧ ReflTransGen (Names get next) b a
  closed : ∀ a ∈ last, a ∉ seen → ∀ b, Names get next a b → b ∈ last

def unseen [DecidableEq κ] (all seen : List α) : List α := all.filter fun a => !seen.any (key · = key a)

variable {get key next} {seen middle last all : List α}

theorem Visits.nil (h : Recorded get key seen) : Visits get key next seen [] seen :=
  ⟨h, prefix_rfl, nofun, fun _ ha hn => absurd ha hn, fun _ ha hn => absurd ha hn⟩

theorem Visits.cons {k : κ} {ks : List κ} (h : Visits get key next seen [k] middle)
    (hrest : Visits get key next middle ks last) : Visits get key next seen (k :: ks) last where
  recorded := hrest.recorded
  grows := h.grows.trans hrest.grows
  visited := forall_mem_cons.mpr
    ⟨fun a ha => hrest.grows.subset (h.visited k mem_cons_self a ha), hrest.visited⟩
  reached a ha hnew := by
    by_cases hm : a ∈ middle
    · obtain ⟨k', hk', hb⟩ := h.reached a hm hnew
      exact ⟨k', mem_cons.mpr (.inl (mem_singleton.mp hk')), hb⟩
    · obtain ⟨k', hk', hb⟩ := hrest.reached a ha hm
      exact ⟨k', mem_cons_of_mem _ hk', hb⟩
  closed a ha hnew b hb := by
    by_cases hm : a ∈ middle
    · exact hrest.grows.subset (h.closed a hm hnew b hb)
    · exact hrest.closed a ha hm b hb

/-- Visits from the start record what the keys reach. -/
theorem Visits.mem_iff {ks : List κ} (h : Visits get key next [] ks last) (a : α) :
    a ∈ last ↔ ∃ k ∈ ks, ∃ b, get k = some b ∧ ReflTransGen (Names get next) b a := by
  refine ⟨fun ha => h.reached a ha not_mem_nil, ?_⟩
  rintro ⟨k, hk, b, hb, hreach⟩
  induction hreach with
  | refl => exact h.visited k hk b hb
  | tail _ hnames ih => exact h.closed _ ih not_mem_nil _ hnames

variable [DecidableEq κ]

theorem length_unseen_le (h : seen <+: last) :
    (unseen key all last).length ≤ (unseen key all seen).length := by
  refine (monotone_filter_right all fun a ha => ?_).length_le
  obtain ⟨more, rfl⟩ := h
  simp_all

theorem length_unseen_concat_lt (ha : a ∈ all) (hnew : seen.any (key · = key a) = false) :
    (unseen key all (seen ++ [a])).length < (unseen key all seen).length := by
  have hsplit : unseen key all (seen ++ [a]) = (unseen key all seen).filter (key a ≠ key ·) := by
    rw [unseen, unseen, filter_filter]
    refine filter_congr fun b _ => ?_
    simp [Bool.and_comm]
  rw [hsplit, length_filter_lt_length_iff_exists]
  exact ⟨a, mem_filter.mpr ⟨ha, by rw [hnew]; rfl⟩, by simp⟩

theorem Recorded.concat (h : Recorded get key seen) (ha : get (key a) = some a)
    (hnew : seen.any (key · = key a) = false) : Recorded get key (seen ++ [a]) := by
  refine ⟨fun b hb => ?_, ?_⟩
  · rcases mem_append.mp hb with hb | hb
    · exact h.get_key b hb
    · rwa [mem_singleton.mp hb]
  · rw [map_append, nodup_append]
    refine ⟨h.nodup, nodup_singleton _, fun x hx y hy => ?_⟩
    obtain ⟨b, hb, rfl⟩ := mem_map.mp hx
    rw [mem_singleton.mp hy]
    simpa using any_eq_false.mp hnew b hb

variable (hkey : ∀ k a, get k = some a → key a = k)
include hkey

/-- There is nothing to visit behind a key that is missing or recorded. -/
theorem Visits.stop (h : Recorded get key seen)
    (hk : ∀ a, get k = some a → seen.any (key · = key a) = true) :
    Visits get key next seen [k] seen := by
  refine ⟨h, prefix_rfl, fun k' hk' a ha => ?_, fun _ ha hn => absurd ha hn,
    fun _ ha hn => absurd ha hn⟩
  rw [mem_singleton.mp hk'] at ha
  obtain ⟨b, hb, hsame⟩ := any_eq_true.mp (hk a ha)
  have hget := h.get_key b hb
  rw [of_decide_eq_true hsame, hkey k a ha, ha] at hget
  exact Option.some.inj hget ▸ hb

omit [DecidableEq κ] hkey in
/-- The element of a key is recorded before what it names is visited. -/
theorem Visits.enter (hk : get k = some a) (h : Visits get key next (seen ++ [a]) (next a) last) :
    Visits get key next seen [k] last := by
  refine ⟨h.recorded, (prefix_append _ _).trans h.grows, fun k' hk' b hb => ?_,
    fun b hb hnew => ?_, fun b hb hnew c hc => ?_⟩
  · rw [mem_singleton.mp hk', hk] at hb
    exact h.grows.subset (mem_append_right _ (mem_singleton.mpr (Option.some.inj hb).symm))
  · refine ⟨k, mem_cons_self, a, hk, ?_⟩
    by_cases hba : b = a
    · rw [hba]
    · obtain ⟨k', hk', c, hc, hreach⟩ := h.reached b hb (by simp [hnew, hba])
      exact .head ⟨k', hk', hc⟩ hreach
  · by_cases hba : b = a
    · obtain ⟨k', hk', hc⟩ := hc
      exact h.visited k' (hba ▸ hk') c hc
    · exact h.closed b hb (by simp [hnew, hba]) c hc

omit hkey in
/-- Visits of single keys that end make one of all of them. -/
theorem exists_visits_foldlM {visit : List α → κ → Option (List α)} {n : Nat}
    (hvisit : ∀ seen k, Recorded get key seen → (unseen key all seen).length ≤ n →
      ∃ last, visit seen k = some last ∧ Visits get key next seen [k] last)
    (h : Recorded get key seen) (hn : (unseen key all seen).length ≤ n) (ks : List κ) :
    ∃ last, ks.foldlM visit seen = some last ∧ Visits get key next seen ks last := by
  induction ks generalizing seen with
  | nil => exact ⟨seen, rfl, .nil h⟩
  | cons k ks ih =>
    obtain ⟨middle, hmiddle, hfirst⟩ := hvisit seen k h hn
    obtain ⟨last, hlast, hrest⟩ := ih hfirst.recorded (Nat.le_trans (length_unseen_le hfirst.grows) hn)
    exact ⟨last, by simp [foldlM_cons, hmiddle, hlast], hfirst.cons hrest⟩

omit hkey in
theorem visitFrom_stop (hk : ∀ a, get k = some a → seen.any (key · = key a) = true) (fuel : Nat) :
    visitFrom get key next fuel seen k = some seen := by
  unfold visitFrom
  cases hget : get k with
  | none => rfl
  | some a => simp only [hk a hget, ite_true]

omit hkey in
theorem visitFrom_enter (hget : get k = some a) (hnew : seen.any (key · = key a) = false)
    (fuel : Nat) : visitFrom get key next (fuel + 1) seen k =
      (next a).foldlM (visitFrom get key next fuel) (seen ++ [a]) := by
  rw [visitFrom, hget]
  exact if_neg (Bool.eq_false_iff.mp hnew)

variable (hall : ∀ k a, get k = some a → a ∈ all)
include hall

/-- A visit that may be nested as deep as there are elements ends. -/
theorem exists_visits {fuel : Nat} (h : Recorded get key seen)
    (hfuel : (unseen key all seen).length ≤ fuel) (k : κ) :
    ∃ last, visitFrom get key next fuel seen k = some last ∧ Visits get key next seen [k] last := by
  induction fuel generalizing seen k with
  | zero =>
    have hk : ∀ a, get k = some a → seen.any (key · = key a) = true := by
      intro a ha
      by_contra hnew
      have hlt := length_unseen_concat_lt (hall k a ha) (Bool.eq_false_iff.mpr hnew)
      omega
    exact ⟨seen, visitFrom_stop hk 0, .stop hkey h hk⟩
  | succ fuel ih =>
    by_cases hk : ∀ a, get k = some a → seen.any (key · = key a) = true
    · exact ⟨seen, visitFrom_stop hk _, .stop hkey h hk⟩
    · obtain ⟨a, hget, hnew⟩ : ∃ a, get k = some a ∧ seen.any (key · = key a) = false := by
        simpa using hk
      have hlt := length_unseen_concat_lt (hall k a hget) hnew
      have ha : get (key a) = some a := by rw [hkey k a hget, hget]
      obtain ⟨last, hlast, hvisits⟩ := exists_visits_foldlM (fun seen k h hn => ih h hn k)
        (h.concat ha hnew) (by omega) (next a)
      exact ⟨last, by rw [visitFrom_enter hget hnew, hlast], .enter hget hvisits⟩

end DepthFirst

end AcademicAgent
