/-
Programs that ask their environment.

Asynchronous code is a sequence of local computation and requests: each `.await` hands a
request to something else and goes on with whatever it answers.  A `Program` is the tree
of such requests.  What answers them is left open, so one definition serves three
readings:

  * `Executes` collects the exchanges of one complete execution, whatever the
    answers were;
  * a scheduler may answer the requests of many programs in any order, each from
    the state the world is in by then;
  * `Obeys` says of a program, without fixing any answers, that it follows a
    protocol: a monitor watches the exchanges and says which requests it allows.

`Fallible` programs return early with an error.
-/
import Mathlib.Data.List.Forall2

namespace Lib

open List

/-- A tree of requests, with a result at each leaf. -/
inductive Program (Req : Type) (Resp : Req → Type) (α : Type) : Type
  | done (result : α)
  | ask (request : Req) (next : Resp request → Program Req Resp α)

/-- A request and what was answered to it. -/
structure Exchange (Req : Type) (Resp : Req → Type) where
  request : Req
  response : Resp request

namespace Program

variable {Req : Type} {Resp : Req → Type} {α β S : Type}

def andThen : Program Req Resp α → (α → Program Req Resp β) → Program Req Resp β
  | .done a, f => f a
  | .ask request next, f => .ask request fun x => andThen (next x) f

instance : Monad (Program Req Resp) where
  pure := .done
  bind := andThen

@[simp] theorem ask_bind (request : Req) (next : Resp request → Program Req Resp α)
    (f : α → Program Req Resp β) :
    (.ask request next >>= f) = .ask request fun x => next x >>= f := rfl

/-! ### Executions -/

/-- The exchanges of one complete execution, and its result. -/
inductive Executes : Program Req Resp α → List (Exchange Req Resp) → α → Prop
  | done (a : α) : Executes (.done a) [] a
  | ask {request : Req} {next : Resp request → Program Req Resp α} (response : Resp request)
      {exchanges : List (Exchange Req Resp)} {a : α} (h : Executes (next response) exchanges a) :
      Executes (.ask request next) (⟨request, response⟩ :: exchanges) a

variable {es : List (Exchange Req Resp)}

theorem executes_done {a b : α} :
    Executes (.done a : Program Req Resp α) es b ↔ es = [] ∧ b = a := by
  constructor
  · intro h
    cases h
    exact ⟨rfl, rfl⟩
  · intro h
    obtain ⟨rfl, rfl⟩ := h
    exact .done b

theorem executes_ask {request : Req} {next : Resp request → Program Req Resp α} {a : α} :
    Executes (.ask request next) es a ↔
      ∃ response rest, es = ⟨request, response⟩ :: rest ∧ Executes (next response) rest a := by
  constructor
  · intro h
    cases h with
    | ask response h => exact ⟨response, _, rfl, h⟩
  · intro h
    obtain ⟨response, rest, rfl, h⟩ := h
    exact .ask response h

variable {f : α → Program Req Resp β}

/-- An execution of a sequence splits into an execution of each part. -/
theorem executes_bind {b : β} :
    ∀ {p : Program Req Resp α} {es : List (Exchange Req Resp)},
      Executes (p >>= f) es b ↔
        ∃ first second a, es = first ++ second ∧ Executes p first a ∧ Executes (f a) second b := by
  intro p
  induction p with
  | done a =>
    intro es
    constructor
    · intro h
      exact ⟨[], es, a, rfl, .done a, h⟩
    · intro h
      obtain ⟨first, second, a', rfl, hp, hf⟩ := h
      obtain ⟨rfl, rfl⟩ := executes_done.mp hp
      exact hf
  | ask request next ih =>
    intro es
    rw [ask_bind, executes_ask]
    constructor
    · intro h
      obtain ⟨response, rest, rfl, h⟩ := h
      obtain ⟨first, second, a, rfl, hp, hf⟩ := (ih response).mp h
      exact ⟨⟨request, response⟩ :: first, second, a, rfl, .ask response hp, hf⟩
    · intro h
      obtain ⟨first, second, a, rfl, hp, hf⟩ := h
      obtain ⟨response, rest, rfl, hnext⟩ := executes_ask.mp hp
      exact ⟨response, rest ++ second, rfl, (ih response).mpr ⟨rest, second, a, rfl, hnext, hf⟩⟩

theorem executes_map {g : α → β} {p : Program Req Resp α} {b : β} :
    Executes (p >>= fun a => .done (g a)) es b ↔ ∃ a, Executes p es a ∧ b = g a := by
  simp only [executes_bind, executes_done]
  constructor
  · intro h
    obtain ⟨first, second, a, rfl, hp, rfl, rfl⟩ := h
    exact ⟨a, by simpa using hp, rfl⟩
  · intro h
    obtain ⟨a, hp, rfl⟩ := h
    exact ⟨es, [], a, by simp, hp, rfl, rfl⟩

/-- The answers determine the result. -/
theorem executes_unique {p : Program Req Resp α} {a b : α} (ha : Executes p es a)
    (hb : Executes p es b) : a = b := by
  induction ha with
  | done a => exact (executes_done.mp hb).2.symm
  | ask response _ ih =>
    obtain ⟨response', rest, heq, hrest⟩ := executes_ask.mp hb
    obtain ⟨hexchange, rfl⟩ := List.cons.inj heq
    obtain rfl := eq_of_heq (Exchange.mk.inj hexchange).2
    exact ih hrest

/-- The execution against an environment that answers each request the same way every time. -/
def trace (answer : (q : Req) → Resp q) : Program Req Resp α → List (Exchange Req Resp) × α
  | .done a => ([], a)
  | .ask q next =>
    let rest := trace answer (next (answer q))
    (⟨q, answer q⟩ :: rest.1, rest.2)

theorem executes_trace (answer : (q : Req) → Resp q) :
    ∀ p : Program Req Resp α, Executes p (p.trace answer).1 (p.trace answer).2 := by
  intro p
  induction p with
  | done a => exact .done a
  | ask q next ih => exact .ask (answer q) (ih (answer q))

/-! ### Protocols -/

/-- A monitor: which requests it allows in a state, and how exchanges move it on. -/
structure Monitor (Req : Type) (Resp : Req → Type) (S : Type) where
  allows : S → Req → Prop
  next : S → (request : Req) → Resp request → S

/-- From the monitor state `s`, every request is allowed and every result satisfies `post`. -/
def Obeys (m : Monitor Req Resp S) (post : S → α → Prop) : S → Program Req Resp α → Prop
  | s, .done a => post s a
  | s, .ask request next =>
    m.allows s request ∧ ∀ x, Obeys m post (m.next s request x) (next x)

variable {m : Monitor Req Resp S}

theorem obeys_mono {post post' : S → α → Prop} (hpost : ∀ s a, post s a → post' s a) :
    ∀ {p : Program Req Resp α} {s : S}, Obeys m post s p → Obeys m post' s p := by
  intro p
  induction p with
  | done a => intro s h; exact hpost s a h
  | ask request next ih => intro s h; exact ⟨h.1, fun x => ih x (h.2 x)⟩

/-- The rule of sequence: the first part establishes what the second needs. -/
theorem obeys_bind {post : S → β → Prop} :
    ∀ {p : Program Req Resp α} {s : S},
      Obeys m (fun s a => Obeys m post s (f a)) s p → Obeys m post s (p >>= f) := by
  intro p
  induction p with
  | done a => intro s h; exact h
  | ask request next ih => intro s h; exact ⟨h.1, fun x => ih x (h.2 x)⟩

def Monitor.after (m : Monitor Req Resp S) (s : S) (es : List (Exchange Req Resp)) : S :=
  es.foldl (fun s e => m.next s e.request e.response) s

/-- In an execution of an obeying program the monitor allows every request. -/
theorem executes_obeys {post : S → α → Prop} {p : Program Req Resp α} {a : α}
    (h : Executes p es a) :
    ∀ {s : S}, Obeys m post s p →
      (∀ before e rest, es = before ++ e :: rest → m.allows (m.after s before) e.request) ∧
      post (m.after s es) a := by
  induction h with
  | done a =>
    intro s hobeys
    refine ⟨?_, hobeys⟩
    intro before e rest heq
    simp at heq
  | @ask q next response es a _ ih =>
    intro s hobeys
    obtain ⟨hallows, hpost⟩ := ih (hobeys.2 response)
    refine ⟨?_, hpost⟩
    intro before e rest heq
    cases before with
    | nil =>
      cases heq
      exact hobeys.1
    | cons b before =>
      obtain ⟨rfl, htail⟩ := List.cons.inj heq
      exact hallows before e rest htail

end Program

/-! ### Programs that can fail -/

/-- A program that may return early with an error. -/
abbrev Fallible (Req : Type) (Resp : Req → Type) (ε α : Type) := ExceptT ε (Program Req Resp) α

namespace Fallible

variable {Req : Type} {Resp : Req → Type} {ε ε' α β S : Type}

def request (r : Req) : Fallible Req Resp ε (Resp r) :=
  ExceptT.mk (.ask r fun x => .done (.ok x))

/-- Run a program and look at how it ended, without failing with it. -/
def attempt (p : Fallible Req Resp ε α) : Fallible Req Resp ε' (Except ε α) :=
  ExceptT.mk (p.run >>= fun r => .done (.ok r))

/-- Run a program and turn its errors into others. -/
def mapError (f : ε → ε') (p : Fallible Req Resp ε α) : Fallible Req Resp ε' α :=
  ExceptT.mk (p.run >>= fun r => .done (r.mapError f))

def fromExcept (x : Except ε α) : Fallible Req Resp ε α := ExceptT.mk (.done x)

def reject (bad : Prop) [Decidable bad] (e : ε) : Fallible Req Resp ε Unit :=
  fromExcept (if bad then .error e else .ok ())

/-- An execution of a fallible program, ending in a value or an error. -/
def Runs (p : Fallible Req Resp ε α) (es : List (Exchange Req Resp)) (r : Except ε α) : Prop :=
  Program.Executes p.run es r

/-- What a sequence does once its first part has ended. -/
def goOn (f : α → Fallible Req Resp ε β) : Except ε α → Program Req Resp (Except ε β)
  | .ok a => (f a).run
  | .error e => .done (.error e)

theorem run_bind (p : Fallible Req Resp ε α) (f : α → Fallible Req Resp ε β) :
    (p >>= f).run = p.run >>= goOn f := rfl

theorem fromExcept_bind (x : Except ε α) (f : α → Except ε β) :
    (fromExcept x >>= fun a => fromExcept (f a) : Fallible Req Resp ε β) = fromExcept (x >>= f) := by
  cases x <;> rfl

variable {es : List (Exchange Req Resp)} {r : Except ε α}

variable {a : α}

theorem runs_pure : Runs (pure a : Fallible Req Resp ε α) es r ↔ es = [] ∧ r = .ok a :=
  Program.executes_done

theorem runs_return : Runs (pure a : Fallible Req Resp ε α) [] (.ok a) := runs_pure.mpr ⟨rfl, rfl⟩

variable {e : ε}

theorem runs_throw : Runs (throw e : Fallible Req Resp ε α) es r ↔ es = [] ∧ r = .error e :=
  Program.executes_done

variable {x : Except ε α}

theorem runs_fromExcept : Runs (fromExcept x : Fallible Req Resp ε α) es r ↔ es = [] ∧ r = x :=
  Program.executes_done

variable {bad : Prop} [Decidable bad]

theorem runs_reject {r : Except ε Unit} :
    Runs (reject bad e : Fallible Req Resp ε Unit) es r ↔
      es = [] ∧ (bad ∧ r = .error e ∨ ¬ bad ∧ r = .ok ()) := by
  rw [reject, runs_fromExcept]
  by_cases h : bad
  · simp [h]
  · simp [h]

variable {q : Req}

theorem runs_request {r : Except ε (Resp q)} :
    Runs (request q : Fallible Req Resp ε (Resp q)) es r ↔
      ∃ x, es = [⟨q, x⟩] ∧ r = .ok x := by
  simp only [Runs, request, ExceptT.run_mk, Program.executes_ask, Program.executes_done]
  constructor
  · intro h
    obtain ⟨x, rest, rfl, rfl, rfl⟩ := h
    exact ⟨x, rfl, rfl⟩
  · intro h
    obtain ⟨x, rfl, rfl⟩ := h
    exact ⟨x, [], rfl, rfl, rfl⟩

variable {p : Fallible Req Resp ε α} {f : α → Fallible Req Resp ε β} {r : Except ε β}
  {g : Unit → Fallible Req Resp ε β} {next : Resp q → Fallible Req Resp ε β}
  {handle : Except ε α → Fallible Req Resp ε' β}

/-- A sequence fails with its first part, or goes on with the value of it. -/
theorem runs_bind :
    Runs (p >>= f) es r ↔
      (∃ e, Runs p es (.error e) ∧ r = .error e) ∨
      (∃ first second a, es = first ++ second ∧ Runs p first (.ok a) ∧ Runs (f a) second r) := by
  rw [Runs, run_bind, Program.executes_bind]
  constructor
  · intro h
    obtain ⟨first, second, x, rfl, hp, hf⟩ := h
    cases x with
    | error e =>
      obtain ⟨rfl, rfl⟩ := Program.executes_done.mp hf
      rw [append_nil]
      exact .inl ⟨e, hp, rfl⟩
    | ok a => exact .inr ⟨first, second, a, rfl, hp, hf⟩
  · intro h
    rcases h with ⟨e, hp, rfl⟩ | ⟨first, second, a, rfl, hp, hf⟩
    · exact ⟨es, [], .error e, by simp, hp, .done _⟩
    · exact ⟨first, second, .ok a, rfl, hp, hf⟩

theorem runs_bind_ok {first second : List (Exchange Req Resp)}
    (hp : Runs p first (.ok a)) (hf : Runs (f a) second r) : Runs (p >>= f) (first ++ second) r :=
  runs_bind.mpr (.inr ⟨first, second, a, rfl, hp, hf⟩)

theorem runs_fromExcept_bind_iff :
    Runs (fromExcept x >>= f) es r ↔
      (∃ e, x = .error e ∧ es = [] ∧ r = .error e) ∨ (∃ a, x = .ok a ∧ Runs (f a) es r) := by
  cases x with
  | error e =>
    have hrun : (fromExcept (.error e) >>= f : Fallible Req Resp ε β)
      = fromExcept (.error e) := rfl
    rw [hrun, runs_fromExcept]
    simp
  | ok a =>
    have hrun : (fromExcept (.ok a) >>= f : Fallible Req Resp ε β) = f a := rfl
    rw [hrun]
    simp

theorem runs_reject_bind_iff :
    Runs (reject bad e >>= g) es r ↔
      (bad ∧ es = [] ∧ r = .error e) ∨ (¬ bad ∧ Runs (g ()) es r) := by
  rw [reject, runs_fromExcept_bind_iff]
  by_cases h : bad
  · simp [h]
  · simp [h, Unique.exists_iff]

theorem runs_request_bind_iff :
    Runs (request q >>= next) es r ↔ ∃ x rest, es = ⟨q, x⟩ :: rest ∧ Runs (next x) rest r :=
  Program.executes_ask

/-! A sequence that ends in a value has a value from each of its parts. -/

theorem runs_bind_eq_ok {b : β} :
    Runs (p >>= f) es (.ok b) ↔
      ∃ first second a, es = first ++ second ∧ Runs p first (.ok a) ∧ Runs (f a) second (.ok b) := by
  rw [runs_bind]
  simp

theorem runs_fromExcept_bind_eq_ok {b : β} :
    Runs (fromExcept x >>= f) es (.ok b) ↔ ∃ a, x = .ok a ∧ Runs (f a) es (.ok b) := by
  rw [runs_fromExcept_bind_iff]
  simp

theorem runs_reject_bind_eq_ok {b : β} :
    Runs (reject bad e >>= g) es (.ok b) ↔ ¬ bad ∧ Runs (g ()) es (.ok b) := by
  rw [runs_reject_bind_iff]
  simp

theorem runs_fromExcept_bind (hf : Runs (f a) es r) :
    Runs (fromExcept (.ok a) >>= f) es r :=
  runs_fromExcept_bind_iff.mpr (.inr ⟨a, rfl, hf⟩)

theorem runs_reject_bind (hbad : ¬ bad) (hf : Runs (g ()) es r) :
    Runs (reject bad e >>= g) es r :=
  runs_reject_bind_iff.mpr (.inr ⟨hbad, hf⟩)

theorem runs_request_bind {x : Resp q} (hf : Runs (next x) es r) :
    Runs (request q >>= next) (⟨q, x⟩ :: es) r :=
  runs_request_bind_iff.mpr ⟨x, es, rfl, hf⟩

/-- A sequence whose second part asks nothing. -/
theorem runs_bind_last (hp : Runs p es (.ok a)) (hf : Runs (f a) [] r) :
    Runs (p >>= f) es r :=
  runs_bind.mpr (.inr ⟨es, [], a, (append_nil es).symm, hp, hf⟩)

theorem runs_attempt {r : Except ε' (Except ε α)} :
    Runs (attempt p : Fallible Req Resp ε' (Except ε α)) es r ↔
      ∃ x, Runs p es x ∧ r = .ok x :=
  Program.executes_map

/-- A program that goes on with how another one ended. -/
theorem runs_attempt_bind_iff {r : Except ε' β} :
    Runs (attempt p >>= handle) es r ↔
      ∃ first second x, es = first ++ second ∧ Runs p first x ∧ Runs (handle x) second r := by
  rw [runs_bind]
  simp only [runs_attempt, reduceCtorEq, and_false, exists_false, false_and, false_or,
    Except.ok.injEq, exists_eq_right']

/-- Two programs that go on alike, but for what they return. -/
theorem runs_attempt_bind_iff_exists {ε'' γ : Type}
    {g : Except ε α → Fallible Req Resp ε'' γ} {r : Except ε' β}
    {out : Except ε'' γ → Except ε' β}
    (h : ∀ x second, Runs (handle x) second r ↔ ∃ got, Runs (g x) second got ∧ r = out got) :
    Runs (attempt p >>= handle) es r ↔ ∃ got, Runs (attempt p >>= g) es got ∧ r = out got := by
  simp only [runs_attempt_bind_iff, h]
  constructor
  · intro h
    obtain ⟨first, second, x, hes, hp, got, hgot, hr⟩ := h
    exact ⟨got, ⟨first, second, x, hes, hp, hgot⟩, hr⟩
  · intro h
    obtain ⟨got, ⟨first, second, x, hes, hp, hgot⟩, hr⟩ := h
    exact ⟨first, second, x, hes, hp, got, hgot, hr⟩

/-- There is a run of a sequence if there is one of each part. -/
theorem exists_runs_bind (hp : ∃ first, Runs p first (.ok a))
    (hf : ∃ second, Runs (f a) second r) : ∃ es, Runs (p >>= f) es r := by
  obtain ⟨first, hp⟩ := hp
  obtain ⟨second, hf⟩ := hf
  exact ⟨first ++ second, runs_bind_ok hp hf⟩

theorem exists_runs_attempt_bind {r : Except ε' β}
    (hp : ∃ first, Runs p first x) (hf : ∃ second, Runs (handle x) second r) :
    ∃ es, Runs (attempt p >>= handle) es r := by
  obtain ⟨first, hp⟩ := hp
  obtain ⟨second, hf⟩ := hf
  exact ⟨first ++ second, runs_attempt_bind_iff.mpr ⟨first, second, x, rfl, hp, hf⟩⟩

theorem attempt_pure_bind :
    (attempt (pure a : Fallible Req Resp ε α) >>= handle) = handle (.ok a) := rfl

theorem runs_mapError {f : ε → ε'} {r : Except ε' α} :
    Runs (mapError f p) es r ↔ ∃ x, Runs p es x ∧ r = x.mapError f :=
  Program.executes_map

theorem runs_mapError_ok {f : ε → ε'} : Runs (mapError f p) es (.ok a) ↔ Runs p es (.ok a) := by
  rw [runs_mapError]
  constructor
  · intro h
    obtain ⟨x, hp, hx⟩ := h
    cases x with
    | ok b => rwa [Except.ok.inj hx]
    | error e => cases hx
  · intro h
    exact ⟨.ok a, h, rfl⟩

/-- Whatever it is answered, a program ends. -/
theorem exists_runs (answer : (q : Req) → Resp q) (p : Fallible Req Resp ε α) :
    ∃ es r, Runs p es r ∧ ∀ e ∈ es, e.response = answer e.request := by
  unfold Runs
  generalize p.run = tree
  induction tree with
  | done r => exact ⟨[], r, .done r, forall_mem_nil _⟩
  | ask q next ih =>
    obtain ⟨es, r, hrun, hes⟩ := ih (answer q)
    exact ⟨⟨q, answer q⟩ :: es, r, .ask (answer q) hrun, forall_mem_cons.mpr ⟨rfl, hes⟩⟩

/-! ### One program for each element of a list -/

/-- The results for the elements of a list, one after the other; the first error ends it. -/
def each (f : α → Fallible Req Resp ε β) : List α → Fallible Req Resp ε (List β)
  | [] => pure []
  | a :: l => do
    let b ← f a
    let bs ← each f l
    pure (b :: bs)

theorem runs_each_nil {r : Except ε (List β)} : Runs (each f []) es r ↔ es = [] ∧ r = .ok [] :=
  runs_pure

variable {l : List α} {bs : List β}

theorem runs_each_cons_ok :
    Runs (each f (a :: l)) es (.ok bs) ↔
      ∃ first second b rest, es = first ++ second ∧ bs = b :: rest ∧
        Runs (f a) first (.ok b) ∧ Runs (each f l) second (.ok rest) := by
  rw [each, runs_bind]
  constructor
  · intro h
    rcases h with ⟨e, -, he⟩ | ⟨first, second, b, rfl, ha, hl⟩
    · cases he
    · rcases runs_bind.mp hl with ⟨e, -, he⟩ | ⟨middle, last, rest, rfl, hrest, hpure⟩
      · cases he
      · obtain ⟨rfl, hbs⟩ := runs_pure.mp hpure
        rw [append_nil]
        exact ⟨first, middle, b, rest, rfl, Except.ok.inj hbs, ha, hrest⟩
  · intro h
    obtain ⟨first, second, b, rest, rfl, rfl, ha, hl⟩ := h
    exact .inr ⟨first, second, b, rfl, ha, runs_bind_last hl runs_return⟩

/-- Programs that do not fail do not fail one after the other. -/
theorem not_runs_each_error (hf : ∀ a es e, ¬ Runs (f a) es (.error e)) :
    ¬ Runs (each f l) es (.error e) := by
  induction l generalizing es e with
  | nil =>
    intro h
    cases (runs_each_nil.mp h).2
  | cons a l ih =>
    intro h
    rcases runs_bind.mp h with ⟨e, ha, -⟩ | ⟨first, second, b, rfl, -, hl⟩
    · exact hf a _ e ha
    · rcases runs_bind.mp hl with ⟨e, hrest, -⟩ | ⟨middle, last, rest, rfl, -, hpure⟩
      · exact ih hrest
      · cases (runs_pure.mp hpure).2

/-- Each result comes from a run for its element, within the exchanges of the whole. -/
theorem forall₂_of_runs_each (h : Runs (each f l) es (.ok bs)) :
    List.Forall₂ (fun a b => ∃ part, part.Sublist es ∧ Runs (f a) part (.ok b)) l bs := by
  induction l generalizing es bs with
  | nil =>
    obtain ⟨-, hbs⟩ := runs_each_nil.mp h
    rw [Except.ok.inj hbs]
    exact .nil
  | cons a l ih =>
    obtain ⟨first, second, b, rest, rfl, rfl, ha, hl⟩ := runs_each_cons_ok.mp h
    refine .cons ⟨first, sublist_append_left first second, ha⟩ ((ih hl).imp ?_)
    intro a b hpart
    obtain ⟨part, hsub, hrun⟩ := hpart
    exact ⟨part, hsub.trans (sublist_append_right first second), hrun⟩

/-- If results of one kind each take an exchange of another, there are as many of those. -/
theorem countP_le_of_runs_each {p : β → Bool} {q : Exchange Req Resp → Bool}
    (hone : ∀ {a part b}, Runs (f a) part (.ok b) → p b = true → 0 < part.countP q)
    (h : Runs (each f l) es (.ok bs)) : bs.countP p ≤ es.countP q := by
  induction l generalizing es bs with
  | nil =>
    obtain ⟨-, hbs⟩ := runs_each_nil.mp h
    rw [Except.ok.inj hbs]
    exact Nat.zero_le _
  | cons a l ih =>
    obtain ⟨first, second, b, rest, rfl, rfl, ha, hl⟩ := runs_each_cons_ok.mp h
    rw [countP_cons, countP_append]
    have hrest := ih hl
    by_cases hb : p b = true
    · have hfirst := hone ha hb
      rw [if_pos hb]
      omega
    · rw [if_neg hb]
      omega

/-- Of two related lists, each element on the right has one on the left. -/
theorem exists_left_of_forall₂ {R : α → β → Prop} (h : List.Forall₂ R l bs) {b : β} (hb : b ∈ bs) :
    ∃ a ∈ l, R a b := by
  induction h with
  | nil => cases hb
  | @cons a b' l bs hab _ ih =>
    rcases mem_cons.mp hb with rfl | hb
    · exact ⟨a, mem_cons_self, hab⟩
    · obtain ⟨a', ha', hab'⟩ := ih hb
      exact ⟨a', mem_cons_of_mem a ha', hab'⟩

/-- And each element on the left has one on the right. -/
theorem exists_right_of_forall₂ {R : α → β → Prop} (h : List.Forall₂ R l bs) (ha : a ∈ l) :
    ∃ b ∈ bs, R a b :=
  exists_left_of_forall₂ (R := fun b a => R a b) (List.Forall₂.flip h) ha

/-- There is a run for the list if there is one for each element. -/
theorem exists_runs_each {P : α → β → Prop} {Q : Exchange Req Resp → Prop}
    (h : ∀ a ∈ l, ∃ part b, Runs (f a) part (.ok b) ∧ P a b ∧ ∀ e ∈ part, Q e) :
    ∃ es bs, Runs (each f l) es (.ok bs) ∧ List.Forall₂ P l bs ∧ ∀ e ∈ es, Q e := by
  induction l with
  | nil => exact ⟨[], [], runs_each_nil.mpr ⟨rfl, rfl⟩, .nil, forall_mem_nil _⟩
  | cons a l ih =>
    obtain ⟨⟨part, b, hrun, hP, hQ⟩, hl⟩ := forall_mem_cons.mp h
    obtain ⟨es, bs, hruns, hPs, hQs⟩ := ih hl
    exact ⟨part ++ es, b :: bs, runs_each_cons_ok.mpr ⟨part, es, b, bs, rfl, rfl, hrun, hruns⟩,
      .cons hP hPs, forall_mem_append.mpr ⟨hQ, hQs⟩⟩

/-! ### Protocols of fallible programs -/

def Obeys (m : Program.Monitor Req Resp S) (post : S → Except ε α → Prop) (s : S)
    (p : Fallible Req Resp ε α) : Prop :=
  Program.Obeys m post s p.run

variable {m : Program.Monitor Req Resp S} {s : S}

variable {post : S → Except ε α → Prop}

theorem obeys_fromExcept (h : post s x) :
    Obeys m post s (fromExcept x) := h

theorem obeys_pure (h : post s (.ok a)) :
    Obeys m post s (pure a) := h

theorem obeys_throw (h : post s (.error e)) :
    Obeys m post s (throw e) := h

theorem obeys_request {post : S → Except ε (Resp q) → Prop} (hallowed : m.allows s q)
    (h : ∀ x, post (m.next s q x) (.ok x)) : Obeys m post s (request q) :=
  ⟨hallowed, h⟩

theorem obeys_bind {post : S → Except ε β → Prop} (h : Obeys m (fun s x => match x with
      | .ok a => Obeys m post s (f a)
      | .error e => post s (.error e)) s p) : Obeys m post s (p >>= f) := by
  refine Program.obeys_bind (Program.obeys_mono ?_ h)
  intro s x hx
  cases x with
  | ok a => exact hx
  | error e => exact hx

theorem obeys_ite {c : Prop} [Decidable c] {q : Fallible Req Resp ε α} (hp : c → Obeys m post s p)
    (hq : ¬ c → Obeys m post s q) : Obeys m post s (if c then p else q) := by
  by_cases h : c
  · rw [if_pos h]
    exact hp h
  · rw [if_neg h]
    exact hq h

theorem obeys_request_bind {post : S → Except ε β → Prop} (hallowed : m.allows s q)
    (h : ∀ x, Obeys m post (m.next s q x) (next x)) :
    Obeys m post s (request q >>= next) :=
  obeys_bind (obeys_request hallowed h)

theorem obeys_fromExcept_bind {post : S → Except ε β → Prop}
    (herror : ∀ e, x = .error e → post s (.error e)) (hok : ∀ a, x = .ok a → Obeys m post s (f a)) :
    Obeys m post s (fromExcept x >>= f) := by
  refine obeys_bind (obeys_fromExcept ?_)
  cases x with
  | ok a => exact hok a rfl
  | error e => exact herror e rfl

theorem obeys_reject_bind
    {post : S → Except ε β → Prop} (hbad : bad → post s (.error e))
    (hgood : ¬ bad → Obeys m post s (g ())) : Obeys m post s (reject bad e >>= g) := by
  refine obeys_bind (obeys_fromExcept ?_)
  by_cases h : bad
  · rw [if_pos h]
    exact hbad h
  · rw [if_neg h]
    exact hgood h

theorem obeys_attempt {post : S → Except ε' (Except ε α) → Prop}
    (h : Obeys m (fun s x => post s (.ok x)) s p) : Obeys m post s (attempt p) :=
  Program.obeys_bind h

theorem obeys_mono {post' : S → Except ε α → Prop} (hpost : ∀ s x, post s x → post' s x)
    (h : Obeys m post s p) : Obeys m post' s p :=
  Program.obeys_mono hpost h

theorem runs_obeys {r : Except ε α} (hobeys : Obeys m post s p) (h : Runs p es r) :
    (∀ before e rest, es = before ++ e :: rest → m.allows (m.after s before) e.request) ∧
    post (m.after s es) r :=
  Program.executes_obeys h hobeys

/-! ### What a program asks at all -/

/-- Every request the program can make satisfies `P`, whatever is answered. -/
def Asks (P : Req → Prop) (p : Fallible Req Resp ε α) : Prop :=
  Obeys (S := Unit) ⟨fun _ q => P q, fun _ _ _ => ()⟩ (fun _ _ => True) () p

variable {P : Req → Prop}

theorem asks_fromExcept : Asks P (fromExcept x : Fallible Req Resp ε α) :=
  trivial

theorem asks_pure : Asks P (pure a : Fallible Req Resp ε α) := trivial

theorem asks_throw : Asks P (throw e : Fallible Req Resp ε α) := trivial

theorem asks_reject :
    Asks P (reject bad e : Fallible Req Resp ε Unit) := trivial

theorem asks_request (h : P q) :
    Asks P (request q : Fallible Req Resp ε (Resp q)) := ⟨h, fun _ => trivial⟩

theorem asks_bind (hp : Asks P p) (hf : ∀ a, Asks P (f a)) : Asks P (p >>= f) := by
  refine obeys_bind (obeys_mono ?_ hp)
  intro s x _
  cases x with
  | ok a => exact hf a
  | error e => trivial

/-- A request whose answer may be an error. -/
theorem asks_call {g : Resp q → Except ε α} (h : P q) :
    Asks P (request q >>= fun x => fromExcept (g x)) := ⟨h, fun _ => trivial⟩

theorem asks_call_bind {g : Resp q → Except ε α} (h : P q) (hf : ∀ a, Asks P (f a)) :
    Asks P (request q >>= fun x => fromExcept (g x) >>= f) :=
  asks_bind (asks_request h) fun _ => asks_bind asks_fromExcept hf

theorem asks_attempt (hp : Asks P p) : Asks P (attempt p : Fallible Req Resp ε' (Except ε α)) :=
  obeys_attempt hp

theorem asks_ite {c : Prop} [Decidable c] {q : Fallible Req Resp ε α} (hp : Asks P p)
    (hq : Asks P q) : Asks P (if c then p else q) :=
  obeys_ite (fun _ => hp) (fun _ => hq)

theorem asks_mapError {f : ε → ε'} (hp : Asks P p) : Asks P (mapError f p) :=
  Program.obeys_bind (obeys_mono (fun _ _ _ => trivial) hp)

theorem asks_each (h : ∀ a ∈ l, Asks P (f a)) : Asks P (each f l) := by
  induction l with
  | nil => exact asks_pure
  | cons a l ih =>
    obtain ⟨ha, hl⟩ := forall_mem_cons.mp h
    exact asks_bind ha fun b => asks_bind (ih hl) fun bs => asks_pure

theorem asks_mono {Q : Req → Prop} (h : ∀ q, P q → Q q) (hp : Asks P p) : Asks Q p := by
  unfold Asks Obeys at hp ⊢
  generalize p.run = tree at hp ⊢
  induction tree with
  | done result => trivial
  | ask request next ih => exact ⟨h request hp.1, fun x => ih x (hp.2 x)⟩

theorem asks_true (p : Fallible Req Resp ε α) : Asks (fun _ => True) p := by
  unfold Asks Obeys
  generalize p.run = tree
  induction tree with
  | done result => trivial
  | ask request next ih => exact ⟨trivial, ih⟩

/-- The exchanges of an execution are among what the program asks. -/
theorem asks_runs {r : Except ε α} (hp : Asks P p) (hr : Runs p es r) :
    ∀ e ∈ es, P e.request := by
  unfold Asks Obeys at hp
  unfold Runs at hr
  generalize p.run = tree at hp hr
  induction hr with
  | done a => intro e he; cases he
  | ask response _ ih =>
    intro e he
    rcases mem_cons.mp he with rfl | he
    · exact hp.1
    · exact ih (hp.2 response) e he

/-- A request the first part of a sequence never makes comes from the second. -/
theorem runs_bind_of_mem (h : Runs (p >>= f) es r) (hp : Asks P p)
    {e : Exchange Req Resp} (he : e ∈ es) (hnot : ¬ P e.request) :
    ∃ first second a,
      es = first ++ second ∧ Runs p first (.ok a) ∧ Runs (f a) second r ∧ e ∈ second := by
  rcases runs_bind.mp h with ⟨_, hfail, -⟩ | ⟨first, second, a, rfl, hfirst, hsecond⟩
  · exact absurd (asks_runs hp hfail e he) hnot
  · refine ⟨first, second, a, rfl, hfirst, hsecond, ?_⟩
    rcases mem_append.mp he with he | he
    · exact absurd (asks_runs hp hfirst e he) hnot
    · exact he

/-- A request the second part of a sequence never makes comes from the first. -/
theorem runs_bind_of_mem_left (h : Runs (p >>= f) es r) (hf : ∀ a, Asks P (f a))
    {e : Exchange Req Resp} (he : e ∈ es) (hnot : ¬ P e.request) :
    ∃ first x, first <+: es ∧ Runs p first x ∧ e ∈ first := by
  rcases runs_bind.mp h with ⟨error, hfail, -⟩ | ⟨first, second, a, rfl, hfirst, hsecond⟩
  · exact ⟨es, .error error, prefix_rfl, hfail, he⟩
  · refine ⟨first, .ok a, prefix_append _ _, hfirst, ?_⟩
    rcases mem_append.mp he with he | he
    · exact he
    · exact absurd (asks_runs (hf a) hsecond e he) hnot

/-! ### What a program returns if it is answered well -/

/-- With answers that satisfy `R` the program does not fail, and its value satisfies `Q`. -/
def Returns (R : Exchange Req Resp → Prop) (Q : α → Prop) (p : Fallible Req Resp ε α) : Prop :=
  ∀ es r, Runs p es r → (∀ e ∈ es, R e) → ∃ a, r = .ok a ∧ Q a

variable {R : Exchange Req Resp → Prop} {Q : α → Prop}

theorem returns_pure (h : Q a) : Returns R Q (pure a : Fallible Req Resp ε α) :=
  fun _ _ hrun _ => ⟨a, (runs_pure.mp hrun).2, h⟩

theorem returns_fromExcept (hx : x = .ok a) (h : Q a) :
    Returns R Q (fromExcept x : Fallible Req Resp ε α) :=
  fun _ _ hrun _ => ⟨a, (runs_fromExcept.mp hrun).2.trans hx, h⟩

variable {Q' : β → Prop}

theorem returns_fromExcept_bind (hx : x = .ok a) (hf : Returns R Q' (f a)) :
    Returns R Q' (fromExcept x >>= f) := by
  rw [hx]
  exact hf

theorem returns_bind (hp : Returns R Q p) (hf : ∀ a, Q a → Returns R Q' (f a)) :
    Returns R Q' (p >>= f) := by
  intro es r hrun hR
  rcases runs_bind.mp hrun with ⟨e, hfail, -⟩ | ⟨first, second, a, rfl, hfirst, hsecond⟩
  · obtain ⟨a, ha, -⟩ := hp _ _ hfail hR
    cases ha
  · obtain ⟨hR₁, hR₂⟩ := forall_mem_append.mp hR
    obtain ⟨_, ha, hQ⟩ := hp _ _ hfirst hR₁
    cases ha
    exact hf a hQ _ _ hsecond hR₂

theorem returns_request_bind (hf : ∀ x, R ⟨q, x⟩ → Returns R Q' (next x)) :
    Returns R Q' (request q >>= next) := by
  intro es r hrun hR
  obtain ⟨x, rest, rfl, hrest⟩ := runs_request_bind_iff.mp hrun
  obtain ⟨hx, hR⟩ := forall_mem_cons.mp hR
  exact hf x hx _ _ hrest hR

theorem returns_reject_bind (hbad : ¬ bad) (hf : Returns R Q' (g ())) :
    Returns R Q' (reject bad e >>= g) := by
  rw [reject, if_neg hbad]
  exact hf

theorem returns_attempt (hp : Returns R Q p) :
    Returns R (fun x => ∃ a, x = .ok a ∧ Q a)
      (attempt p : Fallible Req Resp ε' (Except ε α)) := by
  intro es r hrun hR
  obtain ⟨x, hx, rfl⟩ := runs_attempt.mp hrun
  exact ⟨x, rfl, hp _ _ hx hR⟩

theorem returns_mapError {f : ε → ε'} (hp : Returns R Q p) : Returns R Q (mapError f p) := by
  intro es r hrun hR
  obtain ⟨x, hx, rfl⟩ := runs_mapError.mp hrun
  obtain ⟨a, rfl, hQ⟩ := hp _ _ hx hR
  exact ⟨a, rfl, hQ⟩

theorem returns_each {P : α → β → Prop} (h : ∀ a ∈ l, Returns R (P a) (f a)) :
    Returns R (List.Forall₂ P l) (each f l) := by
  induction l with
  | nil => exact returns_pure .nil
  | cons a l ih =>
    obtain ⟨ha, hl⟩ := forall_mem_cons.mp h
    exact returns_bind ha fun b hb => returns_bind (ih hl) fun bs hbs =>
      returns_pure (.cons hb hbs)

end Fallible

end Lib
