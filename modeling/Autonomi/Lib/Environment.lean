/-
Running programs in an environment.

An environment is a state and an answer to every request in each state, with the state
it leaves behind.  In it a program is a function: from the state it starts in to its
result and the state after.

A program need not get to its end.  `stopped` is the state in which it leaves the
environment if it makes only so many requests, so that what holds of `stopped` for every
number holds whenever a program is cut off.
-/
import Autonomi.Lib.Program

namespace Lib

/-- The answer to each request in each state, and the state after. -/
abbrev Environment (Req : Type) (Resp : Req → Type) (S : Type) := S → (q : Req) → Resp q × S

variable {Req : Type} {Resp : Req → Type} {ε ε' α β S : Type}

namespace Program

variable (env : Environment Req Resp S)

/-- The result of a program and the state after. -/
def runIn : Program Req Resp α → S → α × S
  | .done a, s => (a, s)
  | .ask q next, s => runIn (next (env s q).1) (env s q).2

/-- The state after at most so many requests. -/
def stopped : Nat → Program Req Resp α → S → S
  | 0, _, s => s
  | _ + 1, .done _, s => s
  | n + 1, .ask q next, s => stopped n (next (env s q).1) (env s q).2

variable (f : α → Program Req Resp β)

theorem runIn_bind :
    ∀ (p : Program Req Resp α) (s : S),
      runIn env (p >>= f) s = runIn env (f (runIn env p s).1) (runIn env p s).2 := by
  intro p
  induction p with
  | done a => intro s; rfl
  | ask q next ih => intro s; exact ih (env s q).1 (env s q).2

/-- A sequence is stopped in its first part, or in its second after all of the first. -/
theorem stopped_bind :
    ∀ (n : Nat) (p : Program Req Resp α) (s : S),
      stopped env n (p >>= f) s = stopped env n p s ∨
      ∃ m, stopped env n (p >>= f) s = stopped env m (f (runIn env p s).1) (runIn env p s).2 := by
  intro n
  induction n with
  | zero => intro p s; exact .inl rfl
  | succ n ih =>
    intro p s
    cases p with
    | done a => exact .inr ⟨n + 1, rfl⟩
    | ask q next => exact ih (next (env s q).1) (env s q).2

/-- Enough requests are a whole run. -/
theorem exists_stopped_eq_runIn :
    ∀ (p : Program Req Resp α) (s : S), ∃ n, stopped env n p s = (runIn env p s).2 := by
  intro p
  induction p with
  | done a => intro s; exact ⟨0, rfl⟩
  | ask q next ih =>
    intro s
    obtain ⟨n, hn⟩ := ih (env s q).1 (env s q).2
    exact ⟨n + 1, hn⟩

/-- After all of its first part a sequence can be stopped anywhere in the second. -/
theorem exists_stopped_bind (m : Nat) :
    ∀ (p : Program Req Resp α) (s : S), ∃ n, stopped env n (p >>= f) s
      = stopped env m (f (runIn env p s).1) (runIn env p s).2 := by
  intro p
  induction p with
  | done a => intro s; exact ⟨m, rfl⟩
  | ask q next ih =>
    intro s
    obtain ⟨n, hn⟩ := ih (env s q).1 (env s q).2
    exact ⟨n + 1, hn⟩

end Program

namespace Fallible

variable (env : Environment Req Resp S)

def runIn (p : Fallible Req Resp ε α) (s : S) : Except ε α × S := Program.runIn env p.run s

def stopped (n : Nat) (p : Fallible Req Resp ε α) (s : S) : S := Program.stopped env n p.run s

variable {env} {s s' : S}

/-! ### Taking a do-block apart -/

variable {a : α}

@[simp] theorem runIn_pure : runIn env (pure a : Fallible Req Resp ε α) s = (.ok a, s) := rfl

variable {p : Fallible Req Resp ε α} {f : α → Fallible Req Resp ε β}

/-- A sequence fails with its first part, or goes on with the value of it. -/
theorem runIn_bind :
    runIn env (p >>= f) s = match runIn env p s with
      | (.ok a, s') => runIn env (f a) s'
      | (.error e, s') => (.error e, s') := by
  rw [runIn, run_bind, Program.runIn_bind]
  unfold runIn
  rcases Program.runIn env p.run s with ⟨_ | _, _⟩ <;> rfl

theorem runIn_bind_of_ok {t : S} (h : runIn env p s = (.ok a, t)) :
    runIn env (p >>= f) s = runIn env (f a) t := by
  rw [runIn_bind, h]

theorem runIn_bind_of_error {e : ε} (h : runIn env p s = (.error e, s')) :
    runIn env (p >>= f) s = (.error e, s') := by
  rw [runIn_bind, h]

/-- A sequence that ends in a value has a value from each of its parts. -/
theorem runIn_bind_eq_ok {b : β} :
    runIn env (p >>= f) s = (.ok b, s') ↔
      ∃ a t, runIn env p s = (.ok a, t) ∧ runIn env (f a) t = (.ok b, s') := by
  rw [runIn_bind]
  rcases runIn env p s with ⟨_ | _, _⟩ <;> simp

variable {r : Except ε α}

theorem runIn_attempt (h : runIn env p s = (r, s')) :
    runIn env (attempt p : Fallible Req Resp ε' (Except ε α)) s = (.ok r, s') := by
  have hp : Program.runIn env p.run s = (r, s') := h
  rw [runIn, attempt, ExceptT.run_mk, Program.runIn_bind, hp]
  rfl

theorem runIn_of_attempt_ok
    (h : runIn env (attempt p : Fallible Req Resp ε' (Except ε α)) s = (.ok r, s')) :
    runIn env p s = (r, s') := by
  rcases hp : runIn env p s with ⟨r₁, s₁⟩
  rw [runIn_attempt hp] at h
  obtain ⟨hr, hs⟩ := Prod.mk.inj h
  rw [Except.ok.inj hr, hs]

theorem runIn_attempt_bind {f : Except ε α → Fallible Req Resp ε' β} (h : runIn env p s = (r, s')) :
    runIn env (attempt p >>= f) s = runIn env (f r) s' :=
  runIn_bind_of_ok (runIn_attempt h)

theorem runIn_mapError {f : ε → ε'} :
    runIn env (mapError f p) s = ((runIn env p s).1.mapError f, (runIn env p s).2) := by
  rw [runIn, mapError, ExceptT.run_mk, Program.runIn_bind]
  rfl

theorem runIn_mapError_of_ok {f : ε → ε'} (h : runIn env p s = (.ok a, s')) :
    runIn env (mapError f p) s = (.ok a, s') := by
  rw [runIn_mapError, h]
  rfl

theorem runIn_of_mapError_ok {f : ε → ε'} (h : runIn env (mapError f p) s = (.ok a, s')) :
    runIn env p s = (.ok a, s') := by
  rw [runIn_mapError] at h
  generalize runIn env p s = result at h ⊢
  rcases result with ⟨e | b, t⟩
  · cases congrArg Prod.fst h
  · obtain ⟨hok, rfl⟩ := Prod.mk.inj h
    rw [show b = a from Except.ok.inj hok]

theorem runIn_mapError_of_error {f : ε → ε'} {e : ε} (h : runIn env p s = (.error e, s')) :
    runIn env (mapError f p) s = (.error (f e), s') := by
  rw [runIn_mapError, h]
  rfl

/-! ### Stopping -/

/-- A sequence is stopped in its first part, or in its second after a value of the first. -/
theorem stopped_bind {I : S → Prop} (hfirst : ∀ n, I (stopped env n p s))
    (hsecond : ∀ a s', runIn env p s = (.ok a, s') → ∀ n, I (stopped env n (f a) s')) (n : Nat) :
    I (stopped env n (p >>= f) s) := by
  rcases Program.stopped_bind env (goOn f) n p.run s with h | ⟨m, hm⟩
  · exact Eq.subst h.symm (hfirst n)
  · rw [show stopped env n (p >>= f) s = _ from hm]
    rcases hrun : runIn env p s with ⟨e | a, s'⟩
    · -- after an error nothing is asked any more
      obtain ⟨k, hk⟩ := Program.exists_stopped_eq_runIn env p.run s
      have hlast := hfirst k
      rw [stopped, hk] at hlast
      rw [show (Program.runIn env p.run s).1 = .error e from congrArg Prod.fst hrun]
      cases m <;> exact hlast
    · have hrest := hsecond a s' hrun m
      rw [show Program.runIn env p.run s = (.ok a, s') from hrun]
      exact hrest

theorem exists_stopped_bind_of_ok (h : runIn env p s = (.ok a, s')) (m : Nat) :
    ∃ n, stopped env n (p >>= f) s = stopped env m (f a) s' := by
  obtain ⟨n, hn⟩ := Program.exists_stopped_bind env (goOn f) m p.run s
  rw [show Program.runIn env p.run s = (.ok a, s') from h] at hn
  exact ⟨n, hn⟩

/-! ### What is known of every execution -/

variable {P : Req → Prop} {I : S → Prop}

/-- What the requests a program can make preserve, the program preserves wherever it stops. -/
theorem stopped_invariant (hasks : Asks P p) (hstep : ∀ s q, I s → P q → I (env s q).2) (n : Nat)
    (hI : I s) : I (stopped env n p s) := by
  unfold Asks Obeys at hasks
  unfold stopped
  generalize p.run = tree at hasks
  induction n generalizing tree s with
  | zero => exact hI
  | succ n ih =>
    cases tree with
    | done a => exact hI
    | ask q next => exact ih (hstep s q hI hasks.1) _ (hasks.2 (env s q).1)

/-- A run in an environment is an execution. -/
theorem runs_runIn {R : Exchange Req Resp → Prop} (hasks : Asks P p)
    (hstep : ∀ s q, I s → P q → R ⟨q, (env s q).1⟩ ∧ I (env s q).2) (hI : I s) :
    ∃ es, Runs p es (runIn env p s).1 ∧ (∀ e ∈ es, R e) ∧ I (runIn env p s).2 := by
  unfold Asks Obeys at hasks
  unfold Runs runIn
  generalize p.run = tree at hasks
  induction tree generalizing s with
  | done a => exact ⟨[], .done a, fun e he => absurd he List.not_mem_nil, hI⟩
  | ask q next ih =>
    obtain ⟨hR, hI'⟩ := hstep s q hI hasks.1
    obtain ⟨es, hexecutes, hRs, hlast⟩ := ih (env s q).1 hI' (hasks.2 (env s q).1)
    exact ⟨⟨q, (env s q).1⟩ :: es, .ask _ hexecutes, List.forall_mem_cons.mpr ⟨hR, hRs⟩, hlast⟩

/-- What the requests a program can make preserve, a run preserves. -/
theorem runIn_invariant (hasks : Asks P p) (hstep : ∀ s q, I s → P q → I (env s q).2) (hI : I s) :
    I (runIn env p s).2 := by
  obtain ⟨n, hn⟩ := Program.exists_stopped_eq_runIn env p.run s
  have hstopped : I (stopped env n p s) := stopped_invariant hasks hstep n hI
  rwa [stopped, hn] at hstopped

end Fallible

end Lib
