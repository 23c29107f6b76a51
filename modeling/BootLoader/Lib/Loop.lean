/-
Test-after loops: run the body, then decide whether to go round again.

Assembly loops whose backward jump stands at the bottom have this shape.
`doWhile` takes a bound on the rounds, so it is total; `doWhile_counted`
is the rule every counting loop uses, and it proves at the same time that
the loop leaves through its own test and not through the bound. `times` is the
loop that counts outside its body, as a `rep` does. `finish` has no result
when the bound runs out first, in its own loop or in one its body runs, so
what it says of nested loops includes that they end; `entered` lists where
its rounds started. `attempt` says in addition how a round stopped.
-/
import Mathlib.Tactic.Common

namespace Loop

variable {σ : Type _}

/-- Run `body`, then run again while `again` holds of the result, for at
most the given number of rounds. -/
def doWhile (again : σ → Bool) (body : σ → σ) : Nat → σ → σ
  | 0, s => s
  | fuel + 1, s =>
      let s' := body s
      if again s' then doWhile again body fuel s' else s'

/-- The rule for a counting loop. `P k` describes the state after `k`
rounds; the test holds after rounds `1 .. n - 1` and fails after round
`n`, so any bound of at least `n` rounds ends in `P n`. -/
theorem doWhile_counted {again : σ → Bool} {body : σ → σ}
    (P : Nat → σ → Prop) {n : Nat} (hn : 0 < n)
    (hbody : ∀ k s, k < n → P k s → P (k + 1) (body s))
    (hgo : ∀ k s, 0 < k → k < n → P k s → again s = true)
    (hstop : ∀ s, P n s → again s = false) :
    ∀ {fuel : Nat} {s : σ}, n ≤ fuel → P 0 s →
      P n (doWhile again body fuel s) := by
  -- induction on the rounds left, from an arbitrary round `k`
  have main : ∀ (d k : Nat) (fuel : Nat) (s : σ), k + d + 1 = n →
      d < fuel → P k s → P n (doWhile again body fuel s) := by
    intro d
    induction d with
    | zero =>
        intro k fuel s hk hfuel hP
        obtain ⟨fuel', rfl⟩ : ∃ f, fuel = f + 1 := ⟨fuel - 1, by omega⟩
        have hP' := hbody k s (by omega) hP
        rw [show k + 1 = n by omega] at hP'
        simp only [doWhile, hstop _ hP', Bool.false_eq_true, if_false]
        exact hP'
    | succ d ih =>
        intro k fuel s hk hfuel hP
        obtain ⟨fuel', rfl⟩ : ∃ f, fuel = f + 1 := ⟨fuel - 1, by omega⟩
        have hP' := hbody k s (by omega) hP
        simp only [doWhile, hgo (k + 1) _ (by omega) (by omega) hP', if_true]
        exact ih (k + 1) fuel' _ (by omega) (by omega) hP'
  intro fuel s hfuel hP
  exact main (n - 1) 0 fuel s (by omega) (by omega) hP

/-- A loop that leaves through its own test does not see its bound. -/
theorem doWhile_bound {again : σ → Bool} {body : σ → σ}
    (P : Nat → σ → Prop) {n : Nat}
    (hbody : ∀ k s, k < n → P k s → P (k + 1) (body s))
    (hstop : ∀ s, P n s → again s = false) :
    ∀ {k fuel fuel' : Nat} {s : σ}, k < n → n ≤ k + fuel → n ≤ k + fuel' →
      P k s → doWhile again body fuel s = doWhile again body fuel' s := by
  intro k fuel
  induction fuel generalizing k with
  | zero => intro fuel' s hk hfuel; omega
  | succ fuel ih =>
      intro fuel' s hk hfuel hfuel' hP
      obtain ⟨fuel', rfl⟩ : ∃ f, fuel' = f + 1 := ⟨fuel' - 1, by omega⟩
      have hP' := hbody k s hk hP
      simp only [doWhile]
      rcases Nat.lt_or_ge (k + 1) n with hlt | hge
      · have hrest : doWhile again body fuel (body s)
            = doWhile again body fuel' (body s) :=
          ih hlt (by omega) (by omega) hP'
        rw [hrest]
      · have hn : k + 1 = n := by omega
        rw [hn] at hP'
        rw [hstop _ hP', if_neg Bool.false_ne_true, if_neg Bool.false_ne_true]

/-- A property every round preserves survives the loop, however it
ends. -/
theorem doWhile_preserves {again : σ → Bool} {body : σ → σ}
    {P : σ → Prop} (hbody : ∀ s, P s → P (body s)) :
    ∀ (fuel : Nat) {s : σ}, P s → P (doWhile again body fuel s) := by
  intro fuel
  induction fuel with
  | zero => intro s hP; exact hP
  | succ fuel ih =>
      intro s hP
      simp only [doWhile]
      split
      · exact ih (hbody s hP)
      · exact hbody s hP

-- ======================================================== counted outside

/-- A given number of rounds (`rep`). -/
def times (body : σ → σ) : Nat → σ → σ
  | 0, s => s
  | n + 1, s => times body n (body s)

/-- `P k` after `k` rounds, so `P n` at the end. -/
theorem times_counted {body : σ → σ} (P : Nat → σ → Prop) {n : Nat}
    (hbody : ∀ k s, k < n → P k s → P (k + 1) (body s)) {s : σ}
    (hP : P 0 s) : P n (times body n s) := by
  -- induction on the rounds left, from an arbitrary round `k`
  have main : ∀ (d k : Nat) (s : σ), k + d = n → P k s →
      P n (times body d s) := by
    intro d
    induction d with
    | zero =>
        intro k s hk hP
        have hkn : k = n := hk
        exact hkn ▸ hP
    | succ d ih =>
        intro k s hk hP
        exact ih (k + 1) (body s) (by omega) (hbody k s (by omega) hP)
  exact main n 0 s (Nat.zero_add n) hP

-- =============================================================== finishing

/-- The test-after loop again, with a body that may not finish: no result
unless it leaves through its own test. -/
def finish (again : σ → Bool) (body : σ → Option σ) : Nat → σ → Option σ
  | 0, _ => none
  | fuel + 1, s =>
      match body s with
      | none => none
      | some s' => if again s' then finish again body fuel s' else some s'

/-- The rule for a counting loop whose rounds all finish. -/
theorem finish_counted {again : σ → Bool} {body : σ → Option σ}
    (P : Nat → σ → Prop) {n : Nat} (hn : 0 < n)
    (hbody : ∀ k s, k < n → P k s → ∃ s', body s = some s' ∧ P (k + 1) s')
    (hgo : ∀ k s, 0 < k → k < n → P k s → again s = true)
    (hstop : ∀ s, P n s → again s = false) :
    ∀ {fuel : Nat} {s : σ}, n ≤ fuel → P 0 s →
      ∃ s', finish again body fuel s = some s' ∧ P n s' := by
  -- induction on the rounds left, from an arbitrary round `k`
  have main : ∀ (d k : Nat) (fuel : Nat) (s : σ), k + d + 1 = n →
      d < fuel → P k s → ∃ s', finish again body fuel s = some s' ∧ P n s' := by
    intro d
    induction d with
    | zero =>
        intro k fuel s hk hfuel hP
        obtain ⟨fuel', rfl⟩ : ∃ f, fuel = f + 1 := ⟨fuel - 1, by omega⟩
        obtain ⟨s', hs', hP'⟩ := hbody k s (by omega) hP
        rw [show k + 1 = n by omega] at hP'
        refine ⟨s', ?_, hP'⟩
        simp only [finish, hs', hstop _ hP', Bool.false_eq_true, if_false]
    | succ d ih =>
        intro k fuel s hk hfuel hP
        obtain ⟨fuel', rfl⟩ : ∃ f, fuel = f + 1 := ⟨fuel - 1, by omega⟩
        obtain ⟨s', hs', hP'⟩ := hbody k s (by omega) hP
        simp only [finish, hs', hgo (k + 1) _ (by omega) (by omega) hP',
          if_true]
        exact ih (k + 1) fuel' s' (by omega) (by omega) hP'
  intro fuel s hfuel hP
  exact main (n - 1) 0 fuel s (by omega) (by omega) hP

/-- A result stays with a larger bound, here and in the body. -/
theorem finish_mono {again : σ → Bool} {body body' : σ → Option σ}
    (hbody : ∀ s s', body s = some s' → body' s = some s') :
    ∀ {fuel fuel' : Nat} {s s' : σ}, fuel ≤ fuel' →
      finish again body fuel s = some s' →
      finish again body' fuel' s = some s' := by
  intro fuel
  induction fuel with
  | zero =>
      intro fuel' s s' _ h
      cases h
  | succ fuel ih =>
      intro fuel' s s' hle h
      obtain ⟨fuel', rfl⟩ : ∃ f, fuel' = f + 1 := ⟨fuel' - 1, by omega⟩
      cases hb : body s with
      | none =>
          simp only [finish, hb, reduceCtorEq] at h
      | some r =>
          simp only [finish, hb] at h
          simp only [finish, hbody s r hb]
          split at h
          next hagain =>
            rw [if_pos hagain]
            exact ih (by omega) h
          next hagain =>
            rw [if_neg hagain]
            exact h

/-- The states the rounds of `finish` start from. -/
def entered (again : σ → Bool) (body : σ → Option σ) : Nat → σ → List σ
  | 0, _ => []
  | fuel + 1, s =>
      s :: match body s with
        | none => []
        | some s' => if again s' then entered again body fuel s' else []

variable {ε : Type _}

/-- The test-after loop with rounds that may stop for good. The bound that
runs out has an outcome of its own. -/
def attempt (late : ε) (again : σ → Bool) (body : σ → Except ε σ) :
    Nat → σ → Except ε σ
  | 0, _ => .error late
  | fuel + 1, s =>
      match body s with
      | .error e => .error e
      | .ok s' => if again s' then attempt late again body fuel s' else .ok s'

/-- A loop that finishes when its stops are forgotten made none. -/
theorem attempt_of_finish {late : ε} {again : σ → Bool}
    {body : σ → Except ε σ} : ∀ {fuel : Nat} {s s' : σ},
      finish again (fun s => (body s).toOption) fuel s = some s' →
      attempt late again body fuel s = .ok s' := by
  intro fuel
  induction fuel with
  | zero =>
      intro s s' h
      cases h
  | succ fuel ih =>
      intro s s' h
      cases hb : body s with
      | error e =>
          simp only [finish, hb, Except.toOption, reduceCtorEq] at h
      | ok r =>
          simp only [finish, hb, Except.toOption] at h
          simp only [attempt, hb]
          split at h
          next hagain =>
            rw [if_pos hagain]
            exact ih h
          next hagain =>
            rw [if_neg hagain]
            exact congrArg Except.ok (Option.some.inj h)

/-- The rule for a counting loop whose rounds all go through. -/
theorem attempt_counted {late : ε} {again : σ → Bool}
    {body : σ → Except ε σ} (P : Nat → σ → Prop) {n : Nat} (hn : 0 < n)
    (hbody : ∀ k s, k < n → P k s → ∃ s', body s = .ok s' ∧ P (k + 1) s')
    (hgo : ∀ k s, 0 < k → k < n → P k s → again s = true)
    (hstop : ∀ s, P n s → again s = false) {fuel : Nat} {s : σ}
    (hfuel : n ≤ fuel) (hP : P 0 s) :
    ∃ s', attempt late again body fuel s = .ok s' ∧ P n s' := by
  have hround : ∀ k s, k < n → P k s →
      ∃ s', (body s).toOption = some s' ∧ P (k + 1) s' := by
    intro k s hk hPk
    obtain ⟨s', hs', hP'⟩ := hbody k s hk hPk
    exact ⟨s', by rw [hs']; rfl, hP'⟩
  obtain ⟨s', hs', hP'⟩ :=
    finish_counted P hn hround hgo hstop hfuel hP
  exact ⟨s', attempt_of_finish hs', hP'⟩

/-- What every round that goes through preserves, the loop preserves. -/
theorem attempt_preserves {late : ε} {again : σ → Bool}
    {body : σ → Except ε σ} {P : σ → Prop}
    (hbody : ∀ s s', P s → body s = .ok s' → P s') :
    ∀ {fuel : Nat} {s s' : σ}, P s →
      attempt late again body fuel s = .ok s' → P s' := by
  intro fuel
  induction fuel with
  | zero =>
      intro s s' _ h
      cases h
  | succ fuel ih =>
      intro s s' hP h
      cases hb : body s with
      | error e =>
          simp only [attempt, hb, reduceCtorEq] at h
      | ok r =>
          have hr := hbody s r hP hb
          simp only [attempt, hb] at h
          split at h
          next => exact ih hr h
          next =>
            cases h
            exact hr

end Loop
