import JvmLint.Nullness.Action
import JvmLint.Proofs.Nullness.Order

/-!
# What an action reads and how it moves

An action reads the store that comes in and the recorded values of some nodes
(`Action.reads`), and nothing else: on values that agree there it does the same
(`Action.run_congr`). A source that looks up no field cell is monotone, and an
action made of such sources is too (`Action.run_le_run`). No action ever turns a
reached flow into an unreached one.
-/
namespace JvmLint

/-! ## Recorded values -/

namespace NodeValues

theorem get?_record (values : NodeValues) (node other : NodeId) (value : Nullness)
    (h : node < values.cells.size) :
    (values.record node value).get? other =
      if other = node then some value else values.get? other := by
  unfold get? record
  rw [Array.getElem?_setIfInBounds]
  by_cases ho : other = node
  · subst ho
    simp [h]
  · rw [if_neg (Ne.symm ho), if_neg ho]

theorem get?_record_self (values : NodeValues) {node : NodeId} (value : Nullness)
    (h : node < values.cells.size) : (values.record node value).get? node = some value := by
  rw [get?_record values node node value h, if_pos rfl]

theorem get?_record_ne (values : NodeValues) {node other : NodeId} (value : Nullness)
    (h : other ≠ node) : (values.record node value).get? other = values.get? other := by
  unfold get? record
  rw [Array.getElem?_setIfInBounds, if_neg (Ne.symm h)]

@[simp]
theorem size_record (values : NodeValues) (node : NodeId) (value : Nullness) :
    (values.record node value).cells.size = values.cells.size := by
  simp [record]

/-- Recording the value that stands there already changes nothing. -/
theorem record_of_get? {values : NodeValues} {node : NodeId} {value : Nullness}
    (h : values.get? node = some value) : values.record node value = values := by
  obtain ⟨cells⟩ := values
  simp only [record, get?, Option.join_eq_some_iff] at h ⊢
  congr 1
  refine Array.ext (by simp) fun i _ hi => ?_
  rw [Array.getElem_setIfInBounds]
  by_cases hn : node = i
  · subst hn
    rw [Array.getElem?_eq_getElem hi] at h
    rw [if_pos rfl, Option.some.inj h]
  · rw [if_neg hn]

theorem get?_unset (count : Nat) (node : NodeId) : (unset count).get? node = none := by
  unfold get? unset
  by_cases h : node < count <;> simp [h]

theorem ext_get? {v w : NodeValues} (hsize : v.cells.size = w.cells.size)
    (h : ∀ node, v.get? node = w.get? node) : v = w := by
  obtain ⟨v⟩ := v
  obtain ⟨w⟩ := w
  congr 1
  refine Array.ext hsize fun i hv hw => ?_
  have hi := h i
  simp only [get?, Array.getElem?_eq_getElem hv, Array.getElem?_eq_getElem hw,
    Option.join_some] at hi
  exact hi

end NodeValues

/-! ## Sources -/

namespace Source

/-- The nodes whose recorded values a source reads. -/
def reads : Source → List NodeId
  | known _ | stored _ | storedField _ _ => []
  | operand node | arm node => [node]
  | either first second | both first second | unequal first second =>
    first.reads ++ second.reads

/-- Whether a source looks up no field cell. -/
def isPlain : Source → Bool
  | storedField _ _ => false
  | known _ | stored _ | operand _ | arm _ => true
  | either first second | both first second | unequal first second =>
    first.isPlain && second.isPlain

theorem eval_congr (store : Store) {v w : NodeValues} :
    ∀ source : Source, (∀ n ∈ source.reads, v.get? n = w.get? n) →
      source.eval store v = source.eval store w
  | known _, _ | stored _, _ | storedField _ _, _ => rfl
  | operand n, h | arm n, h => by simp only [eval, h n (List.mem_singleton_self n)]
  | either a b, h | both a b, h | unequal a b, h => by
    have ha := eval_congr store a fun n hn => h n (List.mem_append_left _ hn)
    have hb := eval_congr store b fun n hn => h n (List.mem_append_right _ hn)
    simp only [eval, ha, hb]

theorem getD_le_getD {a b : Option Nullness} (h : Option.Rel (· ≤ ·) a b) (default : Nullness) :
    a.getD default ≤ b.getD default := by
  cases h with
  | none => exact le_refl _
  | some h => exact h

/-- A plain source is monotone in the facts and in the values it reads. -/
theorem eval_le_eval {s t : Store} (hst : s ≤ t) {v w : NodeValues} :
    ∀ source : Source, source.isPlain = true →
      (∀ n ∈ source.reads, Option.Rel (· ≤ ·) (v.get? n) (w.get? n)) →
      source.eval s v ≤ source.eval t w
  | known _, _, _ => le_refl _
  | stored path, _, _ => Store.getD_get?_le hst path
  | operand n, _, h | arm n, _, h => getD_le_getD (h n (List.mem_singleton_self n)) _
  | either a b, hp, h => by
    simp only [isPlain, Bool.and_eq_true] at hp
    exact Nullness.join_le_join
      (eval_le_eval hst a hp.1 fun n hn => h n (List.mem_append_left _ hn))
      (eval_le_eval hst b hp.2 fun n hn => h n (List.mem_append_right _ hn))
  | both a b, hp, h => by
    simp only [isPlain, Bool.and_eq_true] at hp
    exact Nullness.meet_le_meet
      (eval_le_eval hst a hp.1 fun n hn => h n (List.mem_append_left _ hn))
      (eval_le_eval hst b hp.2 fun n hn => h n (List.mem_append_right _ hn))
  | unequal a b, hp, h => by
    simp only [isPlain, Bool.and_eq_true] at hp
    exact Nullness.meet_le_meet
      (eval_le_eval hst a hp.1 fun n hn => h n (List.mem_append_left _ hn))
      (Nullness.whenNotEqual_le_whenNotEqual
        (eval_le_eval hst b hp.2 fun n hn => h n (List.mem_append_right _ hn)))

end Source

/-! ## Actions -/

namespace Effect

/-- Every entry that an effect may write. -/
def refinements : Effect → List Refinement
  | regular refinements => refinements
  | branch onThen onElse => onThen ++ onElse
  | pass | swap => []

@[simp]
theorem map_fst_updates (store : Store) (values : NodeValues) (batch : List Refinement) :
    (updates store values batch).map Prod.fst = batch.map Prod.fst := by
  simp only [updates, List.map_map]
  rfl

theorem updates_congr (store : Store) {v w : NodeValues} {batch : List Refinement}
    (h : ∀ r ∈ batch, ∀ n ∈ r.2.reads, v.get? n = w.get? n) :
    updates store v batch = updates store w batch := by
  apply List.map_congr_left
  rintro ⟨path, source⟩ hr
  simp only [Source.eval_congr store source (h _ hr)]

theorem apply_congr {effect : Effect} {v w : NodeValues} (store : Store) (input : Flow)
    (h : ∀ r ∈ effect.refinements, ∀ n ∈ r.2.reads, v.get? n = w.get? n) :
    effect.apply store input v = effect.apply store input w := by
  cases effect with
  | regular batch =>
    have hall : updates store v batch = updates store w batch := updates_congr store h
    simp only [apply, hall]
  | branch onThen onElse =>
    have hthen : updates store v onThen = updates store w onThen :=
      updates_congr store fun r hr => h r (List.mem_append_left _ hr)
    have helse : updates store v onElse = updates store w onElse :=
      updates_congr store fun r hr => h r (List.mem_append_right _ hr)
    simp only [apply, hthen, helse]
  | pass => rfl
  | swap => rfl

theorem update_updates_le {s t u u' : Store} (hst : s ≤ t) (huu : u ≤ u') {v w : NodeValues}
    {batch : List Refinement} (hp : ∀ r ∈ batch, r.2.isPlain = true)
    (h : ∀ r ∈ batch, ∀ n ∈ r.2.reads, Option.Rel (· ≤ ·) (v.get? n) (w.get? n)) :
    u.update (updates s v batch) ≤ u'.update (updates t w batch) :=
  Store.update_le_update huu Prod.fst fun r hr => r.2.eval_le_eval hst (hp r hr) (h r hr)

theorem apply_le_apply {effect : Effect} {s t : Store} (hst : s ≤ t) {f g : Flow} (hfg : f ≤ g)
    {v w : NodeValues} (hp : ∀ r ∈ effect.refinements, r.2.isPlain = true)
    (h : ∀ r ∈ effect.refinements, ∀ n ∈ r.2.reads, Option.Rel (· ≤ ·) (v.get? n) (w.get? n)) :
    effect.apply s f v ≤ effect.apply t g w := by
  cases effect with
  | regular batch => exact Flow.regular_le_regular (update_updates_le hst hst hp h)
  | branch onThen onElse =>
    refine Flow.mapSides_le_mapSides hfg (fun a b hab => ?_) (fun a b hab => ?_)
    · exact update_updates_le hst hab (fun r hr => hp r (List.mem_append_left _ hr))
        fun r hr => h r (List.mem_append_left _ hr)
    · exact update_updates_le hst hab (fun r hr => hp r (List.mem_append_right _ hr))
        fun r hr => h r (List.mem_append_right _ hr)
  | pass => exact hfg
  | swap => exact Flow.swapped_le_swapped hfg

theorem isReached_apply (effect : Effect) (store : Store) {input : Flow} (values : NodeValues)
    (h : input.isReached = true) : (effect.apply store input values).isReached = true := by
  cases effect with
  | regular batch => rfl
  | branch onThen onElse => simpa [apply, Flow.mapSides, Flow.isReached] using h
  | pass => exact h
  | swap => simpa [apply, Flow.swapped, Flow.isReached, Bool.or_comm] using h

theorem isFull_apply (effect : Effect) (store : Store) {input : Flow} (values : NodeValues)
    (h : input.isFull = true ∨ ∃ batch, effect = .regular batch) :
    (effect.apply store input values).isFull = true := by
  cases effect with
  | regular batch => rfl
  | branch onThen onElse => simpa [apply, Flow.mapSides, Flow.isFull] using h
  | pass => simpa [apply] using h
  | swap => simpa [apply, Flow.swapped, Flow.isFull, and_comm] using h

end Effect

namespace Action

/-- The nodes whose recorded values an action reads. -/
def reads (action : Action) : List NodeId :=
  action.value.reads ++ action.effect.refinements.flatMap fun r => r.2.reads

/-- Whether an action looks up no field cell. -/
def isPlain (action : Action) : Bool :=
  action.value.isPlain && action.effect.refinements.all fun r => r.2.isPlain

theorem mem_reads_of_value {action : Action} {n : NodeId} (h : n ∈ action.value.reads) :
    n ∈ action.reads := List.mem_append_left _ h

theorem mem_reads_of_refinement {action : Action} {r : Refinement} {n : NodeId}
    (hr : r ∈ action.effect.refinements) (h : n ∈ r.2.reads) : n ∈ action.reads :=
  List.mem_append_right _ (List.mem_flatMap.2 ⟨r, hr, h⟩)

theorem run_conditional (action : Action) (t e : Store) (values : NodeValues) :
    action.run (.conditional t e) values = (action.value.eval (t.join e) values,
      action.effect.apply (t.join e) (.conditional t e) values) := rfl

theorem run_of_regular (action : Action) (store : Store) (values : NodeValues) :
    action.run (.regular store) values =
      (action.value.eval store values, action.effect.apply store (.regular store) values) := by
  simp only [run, Flow.merged_regular, Option.getD_some]

theorem run_regular (value : Source) (batch : List Refinement) (store : Store)
    (values : NodeValues) : run ⟨value, .regular batch⟩ (.regular store) values =
      (value.eval store values, .regular (store.update (Effect.updates store values batch))) := by
  rw [run_of_regular, Effect.apply]

/-- An action depends on the values only through those it reads. -/
theorem run_congr {action : Action} (input : Flow) {v w : NodeValues}
    (h : ∀ n ∈ action.reads, v.get? n = w.get? n) : action.run input v = action.run input w := by
  have hvalue := Source.eval_congr (input.merged.getD .empty) action.value fun n hn =>
    h n (mem_reads_of_value hn)
  have heffect := Effect.apply_congr (input.merged.getD .empty) input fun r hr n hn =>
    h n (mem_reads_of_refinement hr hn)
  simp only [run, hvalue, heffect]

/-- A plain action is monotone on reached flows. -/
theorem run_le_run {action : Action} (hp : action.isPlain = true) {f g : Flow} (hfg : f ≤ g)
    (hf : f.isReached = true) {v w : NodeValues}
    (h : ∀ n ∈ action.reads, Option.Rel (· ≤ ·) (v.get? n) (w.get? n)) :
    (action.run f v).1 ≤ (action.run g w).1 ∧ (action.run f v).2 ≤ (action.run g w).2 := by
  obtain ⟨s, t, hs, ht, hst⟩ := Flow.exists_merged_le hfg hf
  simp only [isPlain, Bool.and_eq_true, List.all_eq_true] at hp
  unfold run
  rw [hs, ht]
  exact ⟨action.value.eval_le_eval hst hp.1 fun n hn => h n (mem_reads_of_value hn),
    Effect.apply_le_apply hst hfg hp.2 fun r hr n hn => h n (mem_reads_of_refinement hr hn)⟩

/-- On smaller facts and smaller values the first action has a smaller value and
leaves smaller facts than the second. -/
def Below (low high : Action) : Prop :=
  ∀ ⦃f g : Flow⦄, f ≤ g → f.isReached = true → ∀ ⦃v w : NodeValues⦄,
    (∀ n ∈ low.reads, Option.Rel (· ≤ ·) (v.get? n) (w.get? n)) →
      (low.run f v).1 ≤ (high.run g w).1 ∧ (low.run f v).2 ≤ (high.run g w).2

theorem below_self {action : Action} (hp : action.isPlain = true) : action.Below action :=
  fun _ _ hfg hf _ _ h => run_le_run hp hfg hf h

theorem isReached_run (action : Action) {input : Flow} (values : NodeValues)
    (h : input.isReached = true) : (action.run input values).2.isReached = true :=
  action.effect.isReached_apply _ values h

end Action

end JvmLint
