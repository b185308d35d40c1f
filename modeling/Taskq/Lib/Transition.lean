import Mathlib.Data.List.Induction
import Mathlib.Data.Nat.Basic
import Mathlib.Logic.Function.Iterate
import Mathlib.Logic.Relation
import Mathlib.Tactic.Choose
import Mathlib.Tactic.SplitIfs

/-!
# Taskq.Lib.Transition

Labelled transition systems over arbitrary state and label types: reachability,
the induction rule for invariants, restriction to the steps that meet a
condition, termination by a measure, and simulation with stuttering.

Nothing here mentions a concrete system. An interleaving semantics instantiates
`Lts` with its own states and events, and then proves one fact per event; the
rules below carry that fact to whole runs.
-/

namespace Transition

universe u v w x

/-- A labelled transition system: where runs start, and which steps they take. -/
structure Lts (σ : Type u) (α : Type v) where
  init : σ → Prop
  step : σ → α → σ → Prop

namespace Lts

variable {σ : Type u} {α : Type v} (M : Lts σ α)

/-- The states that some run reaches. -/
inductive Reachable : σ → Prop
  | init {s : σ} : M.init s → Reachable s
  | step {s s' : σ} {a : α} : Reachable s → M.step s a s' → Reachable s'

/-- No step leaves `s`. -/
def Quiescent (s : σ) : Prop := ∀ a s', ¬ M.step s a s'

/-- An infinite run, as the sequence of its states. -/
def InfiniteRun (f : ℕ → σ) : Prop :=
  M.init (f 0) ∧ ∀ n, ∃ a, M.step (f n) a (f (n + 1))

/-- Every run is finite. -/
def Terminating : Prop := ∀ f, ¬ M.InfiniteRun f

/-- The system that takes only the steps of `M` that meet `ok`, a condition on the
label and on the state *before* the step. -/
def restrict (ok : σ → α → Prop) : Lts σ α where
  init := M.init
  step s a s' := M.step s a s' ∧ ok s a

variable {M}

/-- **Invariant rule.** What holds initially and is kept by every step holds of every
reachable state. The step may use that it starts in a reachable state. -/
theorem Reachable.invariant {I : σ → Prop} (hinit : ∀ s, M.init s → I s)
    (hstep : ∀ s a s', M.Reachable s → I s → M.step s a s' → I s') {s : σ}
    (h : M.Reachable s) : I s := by
  induction h with
  | init h => exact hinit _ h
  | step hr hs ih => exact hstep _ _ _ hr ih hs

/-- A restricted run is a run. -/
theorem Reachable.of_restrict {ok : σ → α → Prop} {s : σ} (h : (M.restrict ok).Reachable s) :
    M.Reachable s :=
  h.invariant (fun _ hs => .init hs) fun _ _ _ _ hr hstep => .step hr hstep.1

/-- The states of an infinite run are reachable. -/
theorem InfiniteRun.reachable {f : ℕ → σ} (h : M.InfiniteRun f) (n : ℕ) :
    M.Reachable (f n) := by
  induction n with
  | zero => exact .init h.1
  | succ n ih =>
      obtain ⟨a, ha⟩ := h.2 n
      exact .step ih ha

/-- **Termination rule.** A measure that every step from a reachable state decreases
leaves no infinite run. -/
theorem terminating_of_measure (μ : σ → ℕ)
    (hμ : ∀ s a s', M.Reachable s → M.step s a s' → μ s' < μ s) : M.Terminating := by
  intro f hf
  have hdec : ∀ n, μ (f n) + n ≤ μ (f 0) := by
    intro n
    induction n with
    | zero => simp
    | succ n ih =>
        obtain ⟨a, ha⟩ := hf.2 n
        have := hμ _ _ _ (hf.reachable n) ha
        omega
  have := hdec (μ (f 0) + 1)
  omega

/-- A system whose runs are all finite reaches a state that no step leaves. -/
theorem Terminating.exists_quiescent (h : M.Terminating) {s₀ : σ} (hinit : M.init s₀) :
    ∃ s, M.Reachable s ∧ M.Quiescent s := by
  by_contra hnone
  have hstep : ∀ s : {s // M.Reachable s}, ∃ t : {s // M.Reachable s}, ∃ a, M.step s a t := by
    intro ⟨s, hs⟩
    by_contra hstuck
    refine hnone ⟨s, hs, fun a s' hmove => hstuck ?_⟩
    exact ⟨⟨s', .step hs hmove⟩, a, hmove⟩
  choose succ hsucc using hstep
  let f : ℕ → {s // M.Reachable s} := fun n => succ^[n] ⟨s₀, .init hinit⟩
  refine h (fun n => (f n).1) ⟨hinit, fun n => ?_⟩
  have hnext : f (n + 1) = succ (f n) := Function.iterate_succ_apply' succ n _
  show ∃ a, M.step (f n).1 a (f (n + 1)).1
  rw [hnext]
  exact hsucc (f n)

/-! ### Systems given by a partial step function -/

/-- The system of a function that computes the state after a label, when there is one. -/
def ofNext (init : σ → Prop) (next : σ → α → Option σ) : Lts σ α where
  init := init
  step s a s' := next s a = some s'

/-- Replay a list of labels. -/
def exec (next : σ → α → Option σ) : σ → List α → Option σ
  | s, [] => some s
  | s, a :: as => (next s a).bind (exec next · as)

theorem Reachable.exec {init : σ → Prop} {next : σ → α → Option σ} {s s' : σ}
    (h : (ofNext init next).Reachable s) (as : List α) (has : Lts.exec next s as = some s') :
    (ofNext init next).Reachable s' := by
  induction as generalizing s with
  | nil =>
      obtain rfl : s = s' := Option.some.inj has
      exact h
  | cons a as ih =>
      obtain ⟨s₁, hs₁, has⟩ := Option.bind_eq_some_iff.mp has
      exact ih (.step h hs₁) has

theorem exec_append {next : σ → α → Option σ} (as bs : List α) (s : σ) :
    exec next s (as ++ bs) = (exec next s as).bind (exec next · bs) := by
  induction as generalizing s with
  | nil => rfl
  | cons a as ih =>
      rw [List.cons_append, exec, exec, Option.bind_assoc]
      exact congrArg _ (funext ih)

/-- **Trace rule.** What holds at the start of no labels, and is kept as one more is
replayed, holds of every replay and the labels it took. -/
theorem exec_trace {next : σ → α → Option σ} {I : List α → σ → Prop} {s₀ : σ} (hinit : I [] s₀)
    (hstep : ∀ as s a s', I as s → next s a = some s' → I (as ++ [a]) s') {as : List α} {s : σ}
    (has : exec next s₀ as = some s) : I as s := by
  induction as using List.reverseRecOn generalizing s with
  | nil =>
      obtain rfl : s₀ = s := Option.some.inj has
      exact hinit
  | append_singleton as a ih =>
      rw [exec_append] at has
      obtain ⟨s₁, hs₁, hlast⟩ := Option.bind_eq_some_iff.mp has
      obtain ⟨s₂, hs₂, hend⟩ := Option.bind_eq_some_iff.mp hlast
      obtain rfl : s₂ = s := Option.some.inj hend
      exact hstep as s₁ a s₂ (ih hs₁) hs₂

/-- Replay a list of labels, each of which meets the condition in its turn. -/
theorem Reachable.exec_restrict {init : σ → Prop} {next : σ → α → Option σ} {ok : σ → α → Prop}
    [∀ s a, Decidable (ok s a)] {s s' : σ} (h : ((ofNext init next).restrict ok).Reachable s)
    (as : List α)
    (has : Lts.exec (fun s a => if ok s a then next s a else none) s as = some s') :
    ((ofNext init next).restrict ok).Reachable s' := by
  induction as generalizing s with
  | nil =>
      obtain rfl : s = s' := Option.some.inj has
      exact h
  | cons a as ih =>
      obtain ⟨s₁, hs₁, has⟩ := Option.bind_eq_some_iff.mp has
      beta_reduce at hs₁
      split_ifs at hs₁ with hok
      exact ih (.step h ⟨hs₁, hok⟩) has

/-- The same, with labels that meet the condition whenever their turn is. -/
theorem Reachable.exec_of_forall {init : σ → Prop} {next : σ → α → Option σ} {ok : σ → α → Prop}
    {s s' : σ} (h : ((ofNext init next).restrict ok).Reachable s) (as : List α)
    (hok : ∀ a ∈ as, ∀ s, ok s a) (has : Lts.exec next s as = some s') :
    ((ofNext init next).restrict ok).Reachable s' := by
  induction as generalizing s with
  | nil =>
      obtain rfl : s = s' := Option.some.inj has
      exact h
  | cons a as ih =>
      obtain ⟨s₁, hs₁, has⟩ := Option.bind_eq_some_iff.mp has
      exact ih (.step h ⟨hs₁, hok a List.mem_cons_self s⟩)
        (fun b hb => hok b (List.mem_cons_of_mem a hb)) has

/-- One label of a restricted run. -/
theorem Reachable.next {init : σ → Prop} {next : σ → α → Option σ} {ok : σ → α → Prop} {s s' : σ}
    (h : ((ofNext init next).restrict ok).Reachable s) (a : α) (hok : ok s a)
    (hnext : next s a = some s') : ((ofNext init next).restrict ok).Reachable s' :=
  .step h ⟨hnext, hok⟩

end Lts

/-! ### Simulation -/

variable {σ : Type u} {α : Type v} {τ : Type w} {β : Type x}

/-- One step of `N` under any label. -/
def Lts.Move (N : Lts τ β) (t t' : τ) : Prop := ∃ b, N.step t b t'

/-- **Progress rule.** Where every state short of the goal has a step that keeps an
invariant and decreases a measure, the goal is reached. -/
theorem Lts.moves_to_goal {N : Lts τ β} {I goal : τ → Prop} (μ : τ → ℕ)
    (hstep : ∀ t, I t → ¬ goal t → ∃ b t', N.step t b t' ∧ I t' ∧ μ t' < μ t) {t : τ} (h : I t) :
    ∃ t', Relation.ReflTransGen N.Move t t' ∧ I t' ∧ goal t' := by
  induction hn : μ t using Nat.strong_induction_on generalizing t with
  | _ n ih =>
      by_cases hgoal : goal t
      · exact ⟨t, .refl, h, hgoal⟩
      · obtain ⟨b, t', hmove, hinv, hlt⟩ := hstep t h hgoal
        rw [hn] at hlt
        obtain ⟨t'', hmoves, hend⟩ := ih _ hlt hinv rfl
        exact ⟨t'', .head ⟨b, hmove⟩ hmoves, hend⟩

/-- `R` relates every state of `M` to a state of `N` that keeps up with it: a step of
`M` is answered by finitely many steps of `N`, possibly none. -/
structure Simulation (M : Lts σ α) (N : Lts τ β) (R : σ → τ → Prop) : Prop where
  init : ∀ s, M.init s → ∃ t, N.init t ∧ R s t
  step : ∀ s a s' t, M.Reachable s → R s t → M.step s a s' →
    ∃ t', Relation.ReflTransGen N.Move t t' ∧ R s' t'

theorem Lts.Reachable.moves {N : Lts τ β} {t t' : τ} (h : N.Reachable t)
    (hm : Relation.ReflTransGen N.Move t t') : N.Reachable t' := by
  induction hm with
  | refl => exact h
  | tail _ hb ih =>
      obtain ⟨b, hb⟩ := hb
      exact .step ih hb

/-- **Simulation rule.** A reachable state is related to a reachable one. -/
theorem Simulation.reachable {M : Lts σ α} {N : Lts τ β} {R : σ → τ → Prop}
    (h : Simulation M N R) {s : σ} (hs : M.Reachable s) :
    ∃ t, N.Reachable t ∧ R s t := by
  induction hs with
  | init hi =>
      obtain ⟨t, ht, hR⟩ := h.init _ hi
      exact ⟨t, .init ht, hR⟩
  | step hr hst ih =>
      obtain ⟨t, ht, hR⟩ := ih
      obtain ⟨t', hm, hR'⟩ := h.step _ _ _ t hr hR hst
      exact ⟨t', ht.moves hm, hR'⟩

end Transition
