import Mathlib.Data.List.Basic
import Mathlib.Tactic.Common

/-! Runs of a labelled transition system: what every step keeps holds of every
run, a quantity that every step lowers bounds the length of a run, and a system
that can always go on until it is done gets done within that bound. -/

namespace Lib

variable {σ τ ε δ : Type*}

/-- A run from `s₀`: the labels of its steps, in order, and the state it ends in. -/
inductive Run (step : σ → ε → σ → Prop) (s₀ : σ) : List ε → σ → Prop
  | nil : Run step s₀ [] s₀
  | snoc {es : List ε} {s : σ} {e : ε} {s' : σ} :
      Run step s₀ es s → step s e s' → Run step s₀ (es ++ [e]) s'

namespace Run

variable {step : σ → ε → σ → Prop} {s₀ s s' : σ} {es : List ε}

theorem invariant (I : σ → Prop) (h0 : I s₀)
    (hstep : ∀ s e s', I s → step s e s' → I s') (h : Run step s₀ es s) : I s := by
  induction h with
  | nil => exact h0
  | snoc _ hs ih => exact hstep _ _ _ ih hs

theorem mono {step' : σ → ε → σ → Prop} (hstep : ∀ s e s', step s e s' → step' s e s')
    (h : Run step s₀ es s) : Run step' s₀ es s := by
  induction h with
  | nil => exact .nil
  | snoc _ hs ih => exact .snoc ih (hstep _ _ _ hs)

theorem of_nil (h : Run step s₀ [] s) : s = s₀ := by
  generalize hes : ([] : List ε) = es' at h
  cases h with
  | nil => rfl
  | snoc _ _ => simp at hes

theorem of_concat {e : ε} (h : Run step s₀ (es ++ [e]) s') :
    ∃ s, Run step s₀ es s ∧ step s e s' := by
  generalize hes : es ++ [e] = es' at h
  cases h with
  | nil => simp at hes
  | snoc hr hs =>
    obtain ⟨rfl, rfl⟩ := List.append_singleton_inj.mp hes
    exact ⟨_, hr, hs⟩

/-- Forward simulation along `abs` on states and `lab` on labels. The invariant `I`
of the concrete system is at hand in each step that has to be matched. -/
theorem simulates {step' : τ → δ → τ → Prop} (abs : σ → τ) (lab : ε → δ) (I : σ → Prop)
    (h0 : I s₀) (hinv : ∀ s e s', I s → step s e s' → I s')
    (hsim : ∀ s e s', I s → step s e s' → step' (abs s) (lab e) (abs s'))
    (h : Run step s₀ es s) : Run step' (abs s₀) (es.map lab) (abs s) := by
  induction h with
  | nil => exact .nil
  | snoc hr hs ih =>
    rw [List.map_append]
    exact .snoc ih (hsim _ _ _ (hr.invariant I h0 hinv) hs)

/-- The converse: where each abstract step from `abs s` is matched by a step from `s`,
an abstract run is matched by a run. -/
theorem lifts {step' : τ → δ → τ → Prop} (abs : σ → τ) (lab : ε → δ) (I : σ → Prop)
    (h0 : I s₀) (hinv : ∀ s e s', I s → step s e s' → I s')
    (hsim : ∀ s d t', I s → step' (abs s) d t' → ∃ e s', lab e = d ∧ abs s' = t' ∧ step s e s')
    {ds : List δ} {t : τ} (h : Run step' (abs s₀) ds t) :
    ∃ es s, es.map lab = ds ∧ abs s = t ∧ Run step s₀ es s := by
  induction h with
  | nil => exact ⟨[], s₀, rfl, rfl, .nil⟩
  | snoc _ hs ih =>
    obtain ⟨es, s, rfl, rfl, hr⟩ := ih
    obtain ⟨e, s', rfl, rfl, hstep⟩ := hsim _ _ _ (hr.invariant I h0 hinv) hs
    exact ⟨es ++ [e], s', by rw [List.map_append]; rfl, rfl, .snoc hr hstep⟩

theorem length_add_le (I : σ → Prop) (variant : σ → ℕ) (h0 : I s₀)
    (hinv : ∀ s e s', I s → step s e s' → I s')
    (hdec : ∀ s e s', I s → step s e s' → variant s' < variant s)
    (h : Run step s₀ es s) : es.length + variant s ≤ variant s₀ := by
  induction h with
  | nil => simp
  | snoc hr hs ih =>
    have hlt := hdec _ _ _ (hr.invariant I h0 hinv) hs
    rw [List.length_append, List.length_singleton]
    omega

theorem exists_length_eq (I : σ → Prop) (variant : σ → ℕ) (h0 : I s₀)
    (hnext : ∀ s, I s → variant s ≠ 0 → ∃ e s', step s e s' ∧ I s' ∧ variant s = variant s' + 1) :
    ∃ es s, Run step s₀ es s ∧ I s ∧ es.length = variant s₀ := by
  suffices hmake : ∀ n, n ≤ variant s₀ → ∃ es s, Run step s₀ es s ∧ I s ∧ es.length = n ∧
      variant s + n = variant s₀ by
    obtain ⟨es, s, hrun, hi, hlen, -⟩ := hmake (variant s₀) (Nat.le_refl _)
    exact ⟨es, s, hrun, hi, hlen⟩
  intro n
  induction n with
  | zero => exact fun _ => ⟨[], s₀, .nil, h0, rfl, rfl⟩
  | succ n ih =>
    intro hn
    obtain ⟨es, s, hrun, hi, hlen, hvar⟩ := ih (by omega)
    obtain ⟨e, s', hs, hi', hone⟩ := hnext s hi (by omega)
    exact ⟨es ++ [e], s', .snoc hrun hs, hi', by simp [hlen], by omega⟩

/-- A system that can always go on within `I` has a stream of labels on which it never
stops and never leaves `I`. -/
theorem endless (I : σ → Prop) (h0 : I s₀) (hnext : ∀ s, I s → ∃ e s', step s e s' ∧ I s') :
    ∃ env : ℕ → ε, ∀ k, ∃ s, Run step s₀ ((List.range k).map env) s ∧ I s := by
  choose e s' hstep hinv using fun s : {s // I s} => hnext s.1 s.2
  let states : ℕ → {s // I s} := Nat.rec ⟨s₀, h0⟩ fun _ s => ⟨s' s, hinv s⟩
  refine ⟨fun k => e (states k), fun k => ⟨(states k).1, ?_, (states k).2⟩⟩
  induction k with
  | zero => exact .nil
  | succ k ih =>
    rw [List.range_succ, List.map_append]
    exact .snoc ih (hstep (states k))

/-- Fed by an endless stream of labels, a system whose runs are no longer than `n`
and which goes on as long as it is not `done` is `done` after at most `n` steps. -/
theorem reaches_done (done : σ → Prop) (n : ℕ) (env : ℕ → ε)
    (hlen : ∀ es s, Run step s₀ es s → es.length ≤ n)
    (hnext : ∀ k s, Run step s₀ ((List.range k).map env) s → ¬ done s → ∃ s', step s (env k) s') :
    ∃ k ≤ n, ∃ s, Run step s₀ ((List.range k).map env) s ∧ done s := by
  by_contra hnone
  push Not at hnone
  have hrun : ∀ k, k ≤ n + 1 → ∃ s, Run step s₀ ((List.range k).map env) s := by
    intro k
    induction k with
    | zero => exact fun _ => ⟨s₀, .nil⟩
    | succ k ih =>
      intro hk
      obtain ⟨s, hs⟩ := ih (by omega)
      obtain ⟨s', hs'⟩ := hnext k s hs (hnone k (by omega) s hs)
      refine ⟨s', ?_⟩
      rw [List.range_succ, List.map_append]
      exact .snoc hs hs'
  obtain ⟨s, hs⟩ := hrun (n + 1) (Nat.le_refl _)
  have hle := hlen _ _ hs
  rw [List.length_map, List.length_range] at hle
  omega

end Run

end Lib
