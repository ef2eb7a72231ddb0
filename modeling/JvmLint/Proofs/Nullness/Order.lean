import JvmLint.Nullness.Flow
import Mathlib.Order.Basic

/-!
# The orders on nullness values, stores and flows

`Nullness`, `Store` and `Flow` are partially ordered, and what joins two of them
is their least upper bound. In the order on stores a path that is not recorded
is above every value; in the order on flows a side that is not reached is below
every store.

The operations of an analysis respect these orders: `Store.update_le_update`,
`Flow.merged_le_merged`, `Flow.route_le_route` and their like.
-/
namespace JvmLint

/-! ## Values -/

namespace Nullness

instance : PartialOrder Nullness where
  le := (· ≤ ·)
  le_refl a := by cases a <;> rfl
  le_trans a b c := by cases a <;> cases b <;> cases c <;> decide
  le_antisymm a b := by cases a <;> cases b <;> decide

theorem le_nullable (a : Nullness) : a ≤ .nullable := by cases a <;> rfl

theorem le_join_left (a b : Nullness) : a ≤ a.join b := by cases a <;> cases b <;> decide

theorem le_join_right (a b : Nullness) : b ≤ a.join b := by cases a <;> cases b <;> decide

theorem join_le {a b c : Nullness} : a ≤ c → b ≤ c → a.join b ≤ c := by
  cases a <;> cases b <;> cases c <;> decide

theorem join_le_join {a b c d : Nullness} (hac : a ≤ c) (hbd : b ≤ d) : a.join b ≤ c.join d :=
  join_le (hac.trans (le_join_left c d)) (hbd.trans (le_join_right c d))

theorem meet_le_left (a b : Nullness) : a.meet b ≤ a := by cases a <;> cases b <;> decide

theorem meet_le_right (a b : Nullness) : a.meet b ≤ b := by cases a <;> cases b <;> decide

theorem le_meet {a b c : Nullness} : c ≤ a → c ≤ b → c ≤ a.meet b := by
  cases a <;> cases b <;> cases c <;> decide

theorem meet_le_meet {a b c d : Nullness} (hac : a ≤ c) (hbd : b ≤ d) : a.meet b ≤ c.meet d :=
  le_meet ((meet_le_left a b).trans hac) ((meet_le_right a b).trans hbd)

theorem whenNotEqual_le_whenNotEqual {a b : Nullness} :
    a ≤ b → a.whenNotEqual ≤ b.whenNotEqual := by
  cases a <;> cases b <;> decide

end Nullness

/-! ## Stores -/

namespace Store

instance : PartialOrder Store where
  le := (· ≤ ·)
  le_refl _ _ b h := ⟨b, h, le_refl b⟩
  le_trans s t u hst htu path c hc := by
    obtain ⟨b, hb, hbc⟩ := htu path c hc
    obtain ⟨a, ha, hab⟩ := hst path b hb
    exact ⟨a, ha, hab.trans hbc⟩
  le_antisymm s t hst hts := by
    ext path : 1
    cases ht : t.get? path with
    | none =>
      cases hs : s.get? path with
      | none => rfl
      | some a =>
        obtain ⟨b, hb, -⟩ := hts path a hs
        rw [ht] at hb
        cases hb
    | some b =>
      obtain ⟨a, ha, hab⟩ := hst path b ht
      obtain ⟨b', hb', hba⟩ := hts path a ha
      rw [ht] at hb'
      cases hb'
      rw [ha, le_antisymm hab hba]

theorem le_join_left (s t : Store) : s ≤ s.join t := by
  intro path c hc
  rw [get?_join, Option.bind_eq_some_iff] at hc
  obtain ⟨a, ha, hc⟩ := hc
  obtain ⟨b, -, rfl⟩ := Option.map_eq_some_iff.1 hc
  exact ⟨a, ha, Nullness.le_join_left a b⟩

theorem le_join_right (s t : Store) : t ≤ s.join t := by
  intro path c hc
  rw [get?_join, Option.bind_eq_some_iff] at hc
  obtain ⟨a, -, hc⟩ := hc
  obtain ⟨b, hb, rfl⟩ := Option.map_eq_some_iff.1 hc
  exact ⟨b, hb, Nullness.le_join_right a b⟩

theorem join_le {s t u : Store} (hs : s ≤ u) (ht : t ≤ u) : s.join t ≤ u := by
  intro path c hc
  obtain ⟨a, ha, hac⟩ := hs path c hc
  obtain ⟨b, hb, hbc⟩ := ht path c hc
  exact ⟨a.join b, by simp [get?_join, ha, hb], Nullness.join_le hac hbc⟩

theorem join_self (s : Store) : s.join s = s :=
  le_antisymm (join_le (le_refl s) (le_refl s)) (le_join_left s s)

theorem insert_le_insert {s t : Store} (h : s ≤ t) (path : AccessPath) {a b : Nullness}
    (hab : a ≤ b) : s.insert path a ≤ t.insert path b := by
  intro other c hc
  rw [get?_insert] at hc
  rw [get?_insert]
  by_cases hp : other = path
  · rw [if_pos hp] at hc ⊢
    cases hc
    exact ⟨a, rfl, hab⟩
  · rw [if_neg hp] at hc ⊢
    exact h other c hc

/-- Of two batches for the same paths the one with the smaller values leaves the
smaller store. -/
theorem update_le_update {α : Type} {s t : Store} (h : s ≤ t) (path : α → AccessPath)
    {low high : α → Nullness} : ∀ {batch : List α}, (∀ x ∈ batch, low x ≤ high x) →
      s.update (batch.map fun x => (path x, low x)) ≤
        t.update (batch.map fun x => (path x, high x))
  | [], _ => h
  | x :: _, hle =>
    update_le_update (insert_le_insert h (path x) (hle x List.mem_cons_self)) path
      fun y hy => hle y (List.mem_cons_of_mem x hy)

/-- What is read of a path that may not be recorded: without an entry it can be
anything. -/
theorem getD_get?_le {s t : Store} (h : s ≤ t) (path : AccessPath) :
    (s.get? path).getD .nullable ≤ (t.get? path).getD .nullable := by
  cases ht : t.get? path with
  | none => exact Nullness.le_nullable _
  | some b =>
    obtain ⟨a, ha, hab⟩ := h path b ht
    rw [ha]
    exact hab

end Store

/-! ## Sides -/

/-- A side that may be missing is below another one. -/
def SideLE (a b : Option Store) : Prop := ∀ s ∈ a, ∃ t ∈ b, s ≤ t

namespace SideLE

theorem refl (a : Option Store) : SideLE a a := fun s hs => ⟨s, hs, le_refl s⟩

theorem none_left (b : Option Store) : SideLE none b := by
  rintro s ⟨⟩

theorem some_some {s t : Store} : SideLE (some s) (some t) ↔ s ≤ t := by
  constructor
  · intro h
    obtain ⟨t', ht, hle⟩ := h s rfl
    cases ht
    exact hle
  · rintro h s' ⟨⟩
    exact ⟨t, rfl, h⟩

theorem not_some_none (s : Store) : ¬ SideLE (some s) none := by
  intro h
  obtain ⟨t, ht, -⟩ := h s rfl
  cases ht

theorem trans {a b c : Option Store} (hab : SideLE a b) (hbc : SideLE b c) : SideLE a c := by
  intro s hs
  obtain ⟨t, ht, hst⟩ := hab s hs
  obtain ⟨u, hu, htu⟩ := hbc t ht
  exact ⟨u, hu, hst.trans htu⟩

theorem antisymm {a b : Option Store} (hab : SideLE a b) (hba : SideLE b a) : a = b := by
  cases a with
  | none =>
    cases b with
    | none => rfl
    | some t => exact absurd hba (not_some_none t)
  | some s =>
    cases b with
    | none => exact absurd hab (not_some_none s)
    | some t => rw [le_antisymm (some_some.1 hab) (some_some.1 hba)]

theorem join_left (a b : Option Store) : SideLE a (joinOption a b) := by
  cases a with
  | none => exact none_left _
  | some s =>
    cases b with
    | none => exact refl _
    | some t => exact some_some.2 (Store.le_join_left s t)

theorem join_right (a b : Option Store) : SideLE b (joinOption a b) := by
  cases b with
  | none => exact none_left _
  | some t =>
    cases a with
    | none => exact refl _
    | some s => exact some_some.2 (Store.le_join_right s t)

theorem join_le {a b c : Option Store} (ha : SideLE a c) (hb : SideLE b c) :
    SideLE (joinOption a b) c := by
  cases a with
  | none => exact hb
  | some s =>
    cases b with
    | none => exact ha
    | some t =>
      obtain ⟨u, hu, hsu⟩ := ha s rfl
      obtain ⟨u', hu', htu⟩ := hb t rfl
      rw [Option.mem_unique hu' hu] at htu
      rintro _ ⟨⟩
      exact ⟨u, hu, Store.join_le hsu htu⟩

theorem join_le_join {a b c d : Option Store} (hac : SideLE a c) (hbd : SideLE b d) :
    SideLE (joinOption a b) (joinOption c d) :=
  join_le (hac.trans (join_left c d)) (hbd.trans (join_right c d))

end SideLE

/-! ## Flows -/

namespace Flow

theorem le_def {f g : Flow} :
    f ≤ g ↔ SideLE f.thenSide g.thenSide ∧ SideLE f.elseSide g.elseSide := Iff.rfl

theorem thenSide_le {f g : Flow} (h : f ≤ g) : SideLE f.thenSide g.thenSide := h.1

theorem elseSide_le {f g : Flow} (h : f ≤ g) : SideLE f.elseSide g.elseSide := h.2

instance : PartialOrder Flow where
  le := (· ≤ ·)
  le_refl f := le_def.2 ⟨.refl _, .refl _⟩
  le_trans _ _ _ hfg hgh :=
    le_def.2 ⟨(thenSide_le hfg).trans (thenSide_le hgh), (elseSide_le hfg).trans (elseSide_le hgh)⟩
  le_antisymm f g hfg hgf := by
    have hthen := (thenSide_le hfg).antisymm (thenSide_le hgf)
    have helse := (elseSide_le hfg).antisymm (elseSide_le hgf)
    cases f
    cases g
    cases hthen
    cases helse
    rfl

theorem unreached_le (f : Flow) : unreached ≤ f :=
  le_def.2 ⟨.none_left _, .none_left _⟩

theorem le_merge_left (f g : Flow) : f ≤ f.merge g :=
  le_def.2 ⟨.join_left _ _, .join_left _ _⟩

theorem le_merge_right (f g : Flow) : g ≤ f.merge g :=
  le_def.2 ⟨.join_right _ _, .join_right _ _⟩

theorem merge_le {f g h : Flow} (hf : f ≤ h) (hg : g ≤ h) : f.merge g ≤ h :=
  le_def.2 ⟨(thenSide_le hf).join_le (thenSide_le hg), (elseSide_le hf).join_le (elseSide_le hg)⟩

theorem swapped_le_swapped {f g : Flow} (h : f ≤ g) : f.swapped ≤ g.swapped :=
  le_def.2 ⟨h.2, h.1⟩

theorem regular_le_regular {s t : Store} (h : s ≤ t) : regular s ≤ regular t :=
  le_def.2 ⟨.some_some.2 h, .some_some.2 h⟩

theorem merged_regular (s : Store) : (regular s).merged = some s :=
  congrArg some s.join_self

theorem route_le_route {f g : Flow} (h : f ≤ g) (rule : FlowRule) :
    f.route rule ≤ g.route rule := by
  cases rule with
  | eachToEach => exact h
  | thenToBoth => exact le_def.2 ⟨h.1, h.1⟩
  | elseToBoth => exact le_def.2 ⟨h.2, h.2⟩
  | thenToThen => exact le_def.2 ⟨h.1, .none_left _⟩
  | elseToElse => exact le_def.2 ⟨.none_left _, h.2⟩

theorem merged_le_merged {f g : Flow} (h : f ≤ g) : SideLE f.merged g.merged :=
  (thenSide_le h).join_le_join (elseSide_le h)

theorem mapSides_le_mapSides {f g : Flow} (h : f ≤ g) {a b c d : Store → Store}
    (hac : ∀ s t, s ≤ t → a s ≤ c t) (hbd : ∀ s t, s ≤ t → b s ≤ d t) :
    f.mapSides a b ≤ g.mapSides c d := by
  constructor
  · intro s hs
    obtain ⟨s, hs', rfl⟩ := Option.map_eq_some_iff.1 hs
    obtain ⟨t, ht, hst⟩ := h.1 s hs'
    exact ⟨c t, Option.map_eq_some_iff.2 ⟨t, ht, rfl⟩, hac s t hst⟩
  · intro s hs
    obtain ⟨s, hs', rfl⟩ := Option.map_eq_some_iff.1 hs
    obtain ⟨t, ht, hst⟩ := h.2 s hs'
    exact ⟨d t, Option.map_eq_some_iff.2 ⟨t, ht, rfl⟩, hbd s t hst⟩

/-! ### What is reached -/

theorem not_isReached_iff {f : Flow} : f.isReached = false ↔ f = unreached := by
  cases f with
  | mk a b => cases a <;> cases b <;> simp [isReached, unreached]

theorem isReached_of_le {f g : Flow} (h : f ≤ g) (hf : f.isReached = true) :
    g.isReached = true := by
  by_contra hg
  rw [Bool.not_eq_true, not_isReached_iff] at hg
  subst hg
  have : f = unreached := le_antisymm h (unreached_le f)
  rw [this] at hf
  cases hf

/-- A flow that is reached has facts that hold on whichever side it came in. -/
theorem merged_ne_none {f : Flow} (h : f.isReached = true) : ∃ s, f.merged = some s := by
  cases f with
  | mk a b =>
    cases a with
    | none =>
      cases b with
      | none => cases h
      | some t => exact ⟨t, rfl⟩
    | some s =>
      cases b with
      | none => exact ⟨s, rfl⟩
      | some t => exact ⟨s.join t, rfl⟩

theorem exists_merged_le {f g : Flow} (h : f ≤ g) (hf : f.isReached = true) :
    ∃ s t, f.merged = some s ∧ g.merged = some t ∧ s ≤ t := by
  obtain ⟨s, hs⟩ := merged_ne_none hf
  obtain ⟨t, ht⟩ := merged_ne_none (isReached_of_le h hf)
  have hst := merged_le_merged h
  rw [hs, ht] at hst
  exact ⟨s, t, hs, ht, SideLE.some_some.1 hst⟩

/-- Whether both sides are reached. -/
def isFull (f : Flow) : Bool :=
  f.thenSide.isSome && f.elseSide.isSome

theorem isReached_route (f : Flow) (rule : FlowRule)
    (h : f.isFull = true ∨ rule = .eachToEach ∧ f.isReached = true) :
    (f.route rule).isReached = true := by
  rcases h with h | ⟨rfl, h⟩
  · rw [isFull, Bool.and_eq_true] at h
    cases rule <;> simp [route, isReached, h.1, h.2]
  · exact h

end Flow

end JvmLint
