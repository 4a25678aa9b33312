import Mathlib.Data.List.ProdSigma

/-!
# Fallible transition systems

A step of a modelled program either ends in a successor state or stops with a
fault.  A machine is a set of initial states together with such steps, each
guarded by the condition under which the environment may take it.  An
inductive invariant is established once, and gives both safety of every
reachable state and absence of faults along every run.
-/

namespace NvmeVirt.Transition

universe u

variable {σ : Type u} {α ε : Type*}

@[simp]
theorem ok_bind {β γ : Type u} (value : β) (next : β → Except ε γ) :
    (Except.ok value >>= next) = next value := rfl

@[simp]
theorem error_bind {β γ : Type u} (fault : ε) (next : β → Except ε γ) :
    ((Except.error fault : Except ε β) >>= next) = Except.error fault := rfl

/-- A bind that ends well has a first half that ends well. -/
theorem bind_eq_ok {β γ : Type u} {first : Except ε β} {next : β → Except ε γ}
    {result : γ} (h : (first >>= next) = .ok result) :
    ∃ value, first = .ok value ∧ next value = .ok result := by
  cases first with
  | error fault => cases h
  | ok value => exact ⟨value, rfl, h⟩

/-- A bind ends well when both of its halves do. -/
theorem bind_eq_ok_of {β γ : Type u} {first : Except ε β}
    {next : β → Except ε γ} {value : β} {result : γ}
    (hfirst : first = .ok value) (hnext : next value = .ok result) :
    (first >>= next) = .ok result := by
  rw [hfirst, ok_bind, hnext]

/-- A bind that faults has a half that faults. -/
theorem bind_eq_error {β γ : Type u} {first : Except ε β}
    {next : β → Except ε γ} {fault : ε}
    (h : (first >>= next) = .error fault) :
    first = .error fault ∨
      ∃ value, first = .ok value ∧ next value = .error fault := by
  cases first with
  | error fault' =>
      left
      cases h
      rfl
  | ok value => exact .inr ⟨value, rfl, h⟩

/-- Binds agree when their second halves agree on what the first one gives. -/
theorem bind_congr_ok {β γ : Type u} {first : Except ε β}
    {next next' : β → Except ε γ}
    (h : ∀ value, first = .ok value → next value = next' value) :
    (first >>= next) = (first >>= next') := by
  cases first with
  | error fault => rfl
  | ok value => exact h value rfl

/-- A loop over pairs is a loop of loops. -/
theorem foldlM_product {β : Type u} {γ δ : Type*} (rows : List γ)
    (cols : List δ) (step : β → γ → δ → Except ε β) (start : β) :
    (rows ×ˢ cols).foldlM (fun state pair => step state pair.1 pair.2) start =
      rows.foldlM (fun state row =>
        cols.foldlM (fun state col => step state row col) state) start := by
  induction rows generalizing start with
  | nil => rfl
  | cons row rows ih =>
      rw [List.product_cons, List.foldlM_append, List.foldlM_map,
        List.foldlM_cons]
      exact bind_congr_ok fun state _ => ih state

theorem exists_of_isOk {β : Type u} {result : Except ε β} (h : result.isOk) :
    ∃ value, result = .ok value := by
  cases result with
  | error fault => cases h
  | ok value => exact ⟨value, rfl⟩

/-- A loop none of whose iterations stops. -/
theorem foldlM_eq_ok {items : List α} {step : σ → α → Except ε σ}
    {next : σ → α → σ}
    (hstep : ∀ item ∈ items, ∀ state, step state item = .ok (next state item))
    (start : σ) : items.foldlM step start = .ok (items.foldl next start) := by
  induction items generalizing start with
  | nil => rfl
  | cons item items ih =>
      obtain ⟨hitem, hitems⟩ := List.forall_mem_cons.mp hstep
      rw [List.foldlM_cons, hitem, ok_bind, List.foldl_cons]
      exact ih hitems _

/-- In a loop that ends, the iteration of every item ends. -/
theorem foldlM_item_ok {step : σ → α → Except ε σ} {items : List α}
    {start final : σ} (hrun : items.foldlM step start = .ok final) {item : α}
    (hitem : item ∈ items) :
    ∃ state state', step state item = .ok state' := by
  induction items generalizing start with
  | nil => exact absurd hitem List.not_mem_nil
  | cons first items ih =>
      rw [List.foldlM_cons] at hrun
      obtain ⟨next, hfirst, hrest⟩ := bind_eq_ok hrun
      obtain rfl | hlater := List.mem_cons.mp hitem
      · exact ⟨start, next, hfirst⟩
      · exact ih hrest hlater

/-- Loop rule: an invariant indexed by the part of the list already visited. -/
theorem foldlM_invariant {step : σ → α → Except ε σ} {all : List α}
    (inv : List α → σ → Prop)
    (hstep : ∀ done item todo state, all = done ++ item :: todo →
      inv done state →
        ∃ state', step state item = .ok state' ∧ inv (done ++ [item]) state')
    {start : σ} (hstart : inv [] start) :
    ∃ final, all.foldlM step start = .ok final ∧ inv all final := by
  suffices hrest : ∀ (todo done : List α) (state : σ), all = done ++ todo →
      inv done state →
        ∃ final, todo.foldlM step state = .ok final ∧ inv all final from
    hrest all [] start (by simp) hstart
  intro todo
  induction todo with
  | nil =>
      intro done state hall hinv
      exact ⟨state, rfl, by simpa [hall] using hinv⟩
  | cons item todo ih =>
      intro done state hall hinv
      obtain ⟨state', hrun, hinv'⟩ := hstep done item todo state hall hinv
      obtain ⟨final, hfinal, hall'⟩ :=
        ih (done ++ [item]) state' (by simp [hall]) hinv'
      refine ⟨final, ?_, hall'⟩
      rw [List.foldlM_cons, hrun, ok_bind, hfinal]

/-- Loop rule for a counting loop. -/
theorem foldlM_range {step : σ → ℕ → Except ε σ} {count : ℕ}
    (inv : ℕ → σ → Prop)
    (hstep : ∀ k, k < count → ∀ state, inv k state →
      ∃ state', step state k = .ok state' ∧ inv (k + 1) state')
    {start : σ} (hstart : inv 0 start) :
    ∃ final, (List.range count).foldlM step start = .ok final ∧
      inv count final := by
  induction count with
  | zero => exact ⟨start, rfl, hstart⟩
  | succ count ih =>
      obtain ⟨state, hrun, hinv⟩ := ih fun k hk => hstep k (by omega)
      obtain ⟨final, hfinal, hinv'⟩ := hstep count (by omega) state hinv
      refine ⟨final, ?_, hinv'⟩
      rw [List.range_succ, List.foldlM_append, hrun, ok_bind,
        List.foldlM_cons, hfinal, ok_bind]
      rfl

/-- Loop rule for a counting loop that ends: each round starts where the
rounds before it ended. -/
theorem foldlM_range_of_ok {step : σ → ℕ → Except ε σ} {count : ℕ}
    {start final : σ} (inv : ℕ → σ → Prop)
    (hrun : (List.range count).foldlM step start = .ok final)
    (hstart : inv 0 start)
    (hstep : ∀ k, k < count → ∀ state state',
      (List.range k).foldlM step start = .ok state →
      step state k = .ok state' → inv k state → inv (k + 1) state') :
    inv count final := by
  induction count generalizing final with
  | zero =>
      cases hrun
      exact hstart
  | succ count ih =>
      rw [List.range_succ, List.foldlM_append] at hrun
      obtain ⟨state, hearlier, hrun⟩ := bind_eq_ok hrun
      obtain ⟨last, hlast, hrun⟩ := bind_eq_ok hrun
      cases hrun
      exact hstep count (Nat.lt_succ_self count) state _ hearlier hlast
        (ih hearlier fun k hk => hstep k (Nat.lt_succ_of_lt hk))

/-- The run ends in `post`, or it stops and `cond` is to blame. -/
def Meets {β : Type*} (cond : Prop) (post : β → Prop) : Except ε β → Prop
  | .ok value => post value
  | .error _ => ¬ cond

theorem Meets.bind {β γ : Type u} {cond : Prop} {post : β → Prop}
    {post' : γ → Prop} {first : Except ε β} {next : β → Except ε γ}
    (h : Meets cond post first)
    (hnext : ∀ value, post value → Meets cond post' (next value)) :
    Meets cond post' (first >>= next) := by
  cases first with
  | error fault => exact h
  | ok value => exact hnext value h

theorem Meets.mono {β : Type*} {cond : Prop} {post post' : β → Prop}
    {run : Except ε β} (h : Meets cond post run)
    (hpost : ∀ value, post value → post' value) : Meets cond post' run := by
  cases run with
  | error fault => exact h
  | ok value => exact hpost value h

theorem Meets.of_imp {β : Type*} {cond cond' : Prop} {post : β → Prop}
    {run : Except ε β} (h : Meets cond post run) (himp : cond' → cond) :
    Meets cond' post run := by
  cases run with
  | error fault => exact mt himp h
  | ok value => exact h

/-- Loop rule for a counting loop that may stop. -/
theorem Meets.foldlM_range {cond : Prop} {step : σ → ℕ → Except ε σ}
    {count : ℕ} (inv : ℕ → σ → Prop)
    (hstep : ∀ k, k < count → ∀ state, inv k state →
      Meets cond (inv (k + 1)) (step state k))
    {start : σ} (hstart : inv 0 start) :
    Meets cond (inv count) ((List.range count).foldlM step start) := by
  induction count with
  | zero => exact hstart
  | succ count ih =>
      rw [List.range_succ, List.foldlM_append]
      refine (ih fun k hk => hstep k (by omega)).bind fun state hinv => ?_
      rw [List.foldlM_cons]
      exact (hstep count (by omega) state hinv).bind fun _ hafter => hafter

/-- Where the end shows the condition, the condition decides about the end. -/
theorem Meets.exists_iff {β : Type*} {cond : Prop} {post : β → Prop}
    {run : Except ε β} (h : Meets cond post run)
    (hcond : ∀ value, post value → cond) :
    (∃ value, run = .ok value ∧ post value) ↔ cond := by
  cases run with
  | error fault => exact iff_of_false (fun ⟨_, hok, _⟩ => nomatch hok) h
  | ok value => exact iff_of_true ⟨value, rfl, h⟩ (hcond value h)

/-- What every iteration keeps, a loop that ends keeps. -/
theorem foldlM_keeps {β : Type*} (proj : σ → β) {step : σ → α → Except ε σ}
    (hstep : ∀ state item state', step state item = .ok state' →
      proj state' = proj state)
    {items : List α} {start final : σ}
    (hrun : items.foldlM step start = .ok final) : proj final = proj start := by
  induction items generalizing start with
  | nil =>
      cases hrun
      rfl
  | cons item items ih =>
      rw [List.foldlM_cons] at hrun
      obtain ⟨next, hnext, hrest⟩ := bind_eq_ok hrun
      exact (ih hrest).trans (hstep _ _ _ hnext)

/-- What relates the states around every iteration, and chains, relates the
states around a loop that ends. -/
theorem foldlM_rel (rel : σ → σ → Prop) (hrefl : ∀ state, rel state state)
    (htrans : ∀ first second third, rel first second → rel second third →
      rel first third)
    {step : σ → α → Except ε σ}
    (hstep : ∀ state item state', step state item = .ok state' →
      rel state state')
    {items : List α} {start final : σ}
    (hrun : items.foldlM step start = .ok final) : rel start final := by
  induction items generalizing start with
  | nil =>
      cases hrun
      exact hrefl _
  | cons item items ih =>
      rw [List.foldlM_cons] at hrun
      obtain ⟨next, hnext, hrest⟩ := bind_eq_ok hrun
      exact htrans _ _ _ (hstep _ _ _ hnext) (ih hrest)

/-- Initial states, guards and fallible steps. -/
structure Machine (σ : Type u) (α ε : Type*) where
  init : σ → Prop
  enabled : σ → α → Prop
  step : σ → α → Except ε σ

inductive Reachable (machine : Machine σ α ε) : σ → Prop
  | start {state : σ} (hinit : machine.init state) : Reachable machine state
  | next {state state' : σ} {action : α} (hreach : Reachable machine state)
      (henabled : machine.enabled state action)
      (hstep : machine.step state action = .ok state') :
      Reachable machine state'

/-- An invariant that holds initially and that every enabled step both
survives and preserves. -/
structure Inductive (machine : Machine σ α ε) (inv : σ → Prop) : Prop where
  init : ∀ state, machine.init state → inv state
  step : ∀ state action, inv state → machine.enabled state action →
    ∃ state', machine.step state action = .ok state' ∧ inv state'

theorem Inductive.reachable {machine : Machine σ α ε} {inv : σ → Prop}
    (hinv : Inductive machine inv) {state : σ}
    (hreach : Reachable machine state) : inv state := by
  induction hreach with
  | start hinit => exact hinv.init _ hinit
  | next _ henabled hstep ih =>
      obtain ⟨after, hrun, hafter⟩ := hinv.step _ _ ih henabled
      rw [hstep] at hrun
      cases hrun
      exact hafter

/-- No enabled step of a reachable state faults. -/
theorem Inductive.progress {machine : Machine σ α ε} {inv : σ → Prop}
    (hinv : Inductive machine inv) {state : σ}
    (hreach : Reachable machine state) {action : α}
    (henabled : machine.enabled state action) :
    ∃ state', machine.step state action = .ok state' := by
  obtain ⟨after, hrun, _⟩ :=
    hinv.step state action (hinv.reachable hreach) henabled
  exact ⟨after, hrun⟩

/-- Safety: what holds initially and survives every enabled step that does not
fault holds of every reachable state. -/
theorem Reachable.invariant {machine : Machine σ α ε} {state : σ}
    (hreach : Reachable machine state) (inv : σ → Prop)
    (hinit : ∀ start, machine.init start → inv start)
    (hstep : ∀ before action after, inv before →
      machine.enabled before action →
      machine.step before action = .ok after → inv after) : inv state := by
  induction hreach with
  | start hstart => exact hinit _ hstart
  | next _ henabled hrun ih => exact hstep _ _ _ ih henabled hrun

/-- Taking the given actions one after the other, while they are enabled. -/
def Machine.run (machine : Machine σ α ε)
    [∀ state action, Decidable (machine.enabled state action)] :
    List α → σ → Option σ
  | [], state => some state
  | action :: actions, state =>
      if machine.enabled state action then
        match machine.step state action with
        | .ok state' => machine.run actions state'
        | .error _ => none
      else none

/-- The first step of a run. -/
theorem Machine.of_run_cons {machine : Machine σ α ε}
    [∀ state action, Decidable (machine.enabled state action)]
    {action : α} {actions : List α} {state state' : σ}
    (hrun : machine.run (action :: actions) state = some state') :
    ∃ after, machine.enabled state action ∧
      machine.step state action = .ok after ∧
      machine.run actions after = some state' := by
  rw [Machine.run] at hrun
  split_ifs at hrun with henabled
  cases hstep : machine.step state action with
  | ok after =>
      rw [hstep] at hrun
      exact ⟨after, henabled, rfl, hrun⟩
  | error fault =>
      rw [hstep] at hrun
      cases hrun

/-- A run whose first step is known. -/
theorem Machine.run_cons_of {machine : Machine σ α ε}
    [∀ state action, Decidable (machine.enabled state action)]
    {action : α} {state after : σ} (henabled : machine.enabled state action)
    (hstep : machine.step state action = .ok after) (actions : List α) :
    machine.run (action :: actions) state = machine.run actions after := by
  rw [Machine.run, if_pos henabled, hstep]

theorem Reachable.run {machine : Machine σ α ε}
    [∀ state action, Decidable (machine.enabled state action)]
    {actions : List α} {state state' : σ} (hreach : Reachable machine state)
    (hrun : machine.run actions state = some state') :
    Reachable machine state' := by
  induction actions generalizing state with
  | nil =>
      cases hrun
      exact hreach
  | cons action actions ih =>
      obtain ⟨after, henabled, hstep, hrest⟩ := Machine.of_run_cons hrun
      exact ih (hreach.next henabled hstep) hrest

/-- What one more call gives after a run, both evaluated at once. -/
theorem Reachable.run_then {machine : Machine σ α ε}
    [∀ state action, Decidable (machine.enabled state action)]
    {actions : List α} {start : σ} (hreach : Reachable machine start)
    {φ β γ : Type*} {call : σ → Except φ β} {view : σ → β → γ} {value : γ}
    (hvalue : (machine.run actions start).bind
      (fun state => (call state).toOption.map (view state)) = some value) :
    ∃ state result, Reachable machine state ∧ call state = .ok result ∧
      view state result = value := by
  obtain ⟨state, hrun, hview⟩ := Option.bind_eq_some_iff.mp hvalue
  refine ⟨state, ?_⟩
  cases hcall : call state with
  | error fault =>
      rw [hcall] at hview
      cases hview
  | ok result =>
      rw [hcall] at hview
      exact ⟨result, hreach.run hrun, rfl, Option.some.inj hview⟩

end NvmeVirt.Transition
