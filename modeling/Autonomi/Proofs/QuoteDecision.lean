/-
Whether a record has to be paid for, by the answers that came in.

`get_quotes` takes the answers of the peers as they arrive and stops as soon as it can
decide.  A majority of reports that the record exists decides that there is nothing to
pay; five quotes without any report decide that there is.  With all answers in, five
quotes decide as well, and that is tried first: if the very last answer makes up the
majority and there are five quotes, they are paid.
-/
import Autonomi.Proofs.Payments

namespace Autonomi.Client

open Lib Lib.Fallible List

/-- The result is the one that the collected answers call for. -/
structure Decides (answers : List QuoteAnswer)
    (result : Except NetworkError (Option (List (PeerId × PaymentQuote)))) : Prop where
  nothing : result = .ok none ↔ closeGroupMajority ≤ reportsIn (collected [] answers)
  quotes : (∃ quotes, result = .ok (some quotes) ∧ quotes.length = closeGroupSize) ↔
    reportsIn (collected [] answers) < closeGroupMajority ∧
      closeGroupSize ≤ (quotesIn (collected [] answers)).length
  error : (∃ e, result = .error e) ↔
    reportsIn (collected [] answers) < closeGroupMajority ∧
      (quotesIn (collected [] answers)).length < closeGroupSize

/-- The last of all answers is the report that makes up the majority; there are five quotes,
and a report came in before there were. -/
def TippedAtTheEnd (answers : List QuoteAnswer) : Prop :=
  ∃ before, answers = before ++ [.ok none] ∧ reportsIn before + 1 = closeGroupMajority ∧
    closeGroupSize ≤ (quotesIn before).length ∧
    ∀ first, first <+: before → closeGroupSize ≤ (quotesIn first).length → 0 < reportsIn first

variable {answers others : List QuoteAnswer}

/-! ### The loop -/

theorem collected_eq_append_iff (others : List QuoteAnswer) : ∀ {answers : List QuoteAnswer},
    collected answers others = answers ++ others ↔
      ∀ next rest, others = next ++ rest → next ≠ [] → rest ≠ [] →
        ¬ Stops (answers ++ next) rest := by
  induction others with
  | nil =>
    intro answers
    rw [append_nil]
    refine ⟨fun _ next rest hsplit hnext _ => ?_, fun _ => rfl⟩
    exact absurd (append_eq_nil_iff.mp hsplit.symm).1 hnext
  | cons answer others ih =>
    intro answers
    rw [collected]
    by_cases hstops : Stops (answers ++ [answer]) others
    · rw [if_pos hstops]
      constructor
      · intro hall next rest hsplit hnext hrest
        obtain rfl : others = [] := by simpa using hall
        have hlength := congrArg List.length hsplit
        have hpos := length_pos_of_ne_nil hnext
        have hpos' := length_pos_of_ne_nil hrest
        rw [length_append, length_singleton] at hlength
        omega
      · intro hgoes
        by_cases hothers : others = []
        · rw [hothers]
        · exact absurd hstops (hgoes [answer] others rfl (cons_ne_nil _ _) hothers)
    · rw [if_neg hstops, show answers ++ answer :: others = (answers ++ [answer]) ++ others by simp,
        ih]
      constructor
      · intro hgoes next rest hsplit hnext hrest
        obtain ⟨first, next, rfl⟩ := exists_cons_of_ne_nil hnext
        obtain ⟨rfl, hothers⟩ := List.cons.inj hsplit
        by_cases hnext' : next = []
        · subst hnext'
          rwa [show rest = others from hothers.symm]
        · have hgo := hgoes next rest hothers hnext' hrest
          rwa [append_assoc] at hgo
      · intro hgoes next rest hsplit hnext hrest
        have hgo := hgoes (answer :: next) rest (by rw [hsplit]; rfl) (cons_ne_nil _ _) hrest
        rwa [append_assoc]

/-! ### When it decides wrongly -/

/-- All answers were needed, and they hold five quotes as well as a majority of reports. -/
def BothInAll (answers : List QuoteAnswer) : Prop :=
  collected [] answers = answers ∧ closeGroupSize ≤ (quotesIn answers).length ∧
    closeGroupMajority ≤ reportsIn answers

theorem length_quotesIn_lt_of_undecided
    (hquotes : ¬ (closeGroupSize ≤ (quotesIn (collected [] answers)).length ∧
      (reportsIn (collected [] answers) = 0 ∨ collected [] answers = answers)))
    (hreports : ¬ closeGroupMajority ≤ reportsIn (collected [] answers)) :
    (quotesIn (collected [] answers)).length < closeGroupSize := by
  by_contra hmany
  -- With five quotes and no decision there has to be a report, and all answers are in.
  by_cases hall : collected [] answers = answers
  · exact hquotes ⟨not_lt.mp hmany, .inr hall⟩
  · obtain ⟨rest, hrest, hstops⟩ := stops_of_collected_ne answers hall
    rcases hstops with ⟨hlength, hnone | hlast⟩ | hmajority
    · exact hquotes ⟨hlength, .inl hnone⟩
    · exact hrest hlast
    · exact hreports hmajority

theorem decides_iff_not_bothInAll :
    Decides answers (countQuotes answers [] 0 0) ↔ ¬ BothInAll answers := by
  rw [countQuotes_eq]
  by_cases hquotes : closeGroupSize ≤ (quotesIn (collected [] answers)).length ∧
      (reportsIn (collected [] answers) = 0 ∨ collected [] answers = answers)
  · have hlength : ((quotesIn (collected [] answers)).take closeGroupSize).length
        = closeGroupSize := by
      rw [length_take, Nat.min_eq_left hquotes.1]
    rw [decision, if_pos hquotes]
    by_cases hreports : closeGroupMajority ≤ reportsIn (collected [] answers)
    · -- Quotes are returned in spite of the reports.
      have hall : collected [] answers = answers := by
        refine hquotes.2.resolve_left fun hnone => ?_
        rw [hnone] at hreports
        exact absurd hreports (by decide)
      constructor
      · intro h
        exact absurd (h.nothing.mpr hreports) (by simp)
      · intro hnot
        rw [hall] at hquotes hreports
        exact absurd ⟨hall, hquotes.1, hreports⟩ hnot
    · refine ⟨fun _ hboth => hreports (hboth.1.symm ▸ hboth.2.2), fun _ => ⟨?_, ?_, ?_⟩⟩
      · exact ⟨by simp, fun h => absurd h hreports⟩
      · exact ⟨fun _ => ⟨not_le.mp hreports, hquotes.1⟩, fun _ => ⟨_, rfl, hlength⟩⟩
      · exact ⟨by simp, fun h => absurd hquotes.1 (not_le.mpr h.2)⟩
  · have hnot : ¬ BothInAll answers := by
      rintro ⟨hall, henough, -⟩
      rw [hall] at hquotes
      exact hquotes ⟨henough, .inr rfl⟩
    refine ⟨fun _ => hnot, fun _ => ?_⟩
    rw [decision, if_neg hquotes]
    by_cases hreports : closeGroupMajority ≤ reportsIn (collected [] answers)
    · rw [if_pos hreports]
      refine ⟨⟨fun _ => hreports, fun _ => rfl⟩, ⟨by simp, fun h => ?_⟩, ⟨by simp, fun h => ?_⟩⟩
      · exact absurd hreports (not_le.mpr h.1)
      · exact absurd hreports (not_le.mpr h.1)
    · have hfew := length_quotesIn_lt_of_undecided hquotes hreports
      rw [if_neg hreports]
      refine ⟨⟨by simp, fun h => absurd h hreports⟩, ⟨by simp, fun h => ?_⟩,
        ⟨fun _ => ?_, fun _ => ?_⟩⟩
      · exact absurd h.2 (not_le.mpr hfew)
      · exact ⟨not_le.mp hreports, hfew⟩
      · exact ⟨_, rfl⟩

theorem reportsIn_le_of_initial {first before : List QuoteAnswer} (h : first <+: before) :
    reportsIn first ≤ reportsIn before := h.sublist.countP_le

/-- All answers come in exactly if no initial part of them is a reason to stop. -/
theorem bothInAll_iff_goes : BothInAll answers ↔
    (∀ next rest, answers = next ++ rest → next ≠ [] → rest ≠ [] → ¬ Stops next rest) ∧
      closeGroupSize ≤ (quotesIn answers).length ∧ closeGroupMajority ≤ reportsIn answers := by
  have hcollected := @collected_eq_append_iff answers []
  rw [nil_append] at hcollected
  rw [BothInAll, hcollected]
  rfl

theorem TippedAtTheEnd.of_bothInAll (h : BothInAll answers) : TippedAtTheEnd answers := by
  obtain ⟨hgoes, hquotes, hreports⟩ := bothInAll_iff_goes.mp h
  have hne : answers ≠ [] := by
    rintro rfl
    exact absurd hquotes (by decide)
  obtain ⟨before, last, rfl⟩ : ∃ before last, answers = before ++ [last] :=
    ⟨_, _, (dropLast_append_getLast hne).symm⟩
  have hgoes' : ∀ first, first <+: before → first ≠ [] →
      (closeGroupSize ≤ (quotesIn first).length → 0 < reportsIn first) ∧
        reportsIn first < closeGroupMajority := by
    rintro first ⟨later, rfl⟩ hfirst
    obtain ⟨hnotquotes, hnotreports⟩ := not_or.mp (hgoes first (later ++ [last])
      (append_assoc _ _ _) hfirst (by simp))
    refine ⟨fun henough => ?_, not_le.mp hnotreports⟩
    exact Nat.pos_of_ne_zero fun hnone => hnotquotes ⟨henough, .inl hnone⟩
  have hbefore : reportsIn before < closeGroupMajority := by
    by_cases hnil : before = []
    · rw [hnil]
      decide
    · exact (hgoes' before (prefix_refl _) hnil).2
  rw [reportsIn_append] at hreports
  -- The last answer is a report: without it there is no majority yet.
  match last with
  | .ok (some quote) | .error e => exact absurd hreports (not_le.mpr hbefore)
  | .ok none =>
    rw [quotesIn_append, show quotesIn [.ok none] = [] from rfl, append_nil] at hquotes
    have hone : reportsIn [.ok none] = 1 := rfl
    refine ⟨before, rfl, by omega, hquotes, ?_⟩
    intro first hfirst henough
    have hfirst' : first ≠ [] := by
      rintro rfl
      exact absurd henough (by decide)
    exact (hgoes' first hfirst hfirst').1 henough

theorem TippedAtTheEnd.bothInAll (h : TippedAtTheEnd answers) : BothInAll answers := by
  obtain ⟨before, rfl, hreports, hquotes, hearly⟩ := h
  refine bothInAll_iff_goes.mpr ⟨?_, ?_, ?_⟩
  · intro next rest hsplit hnext hrest hstops
    obtain ⟨later, rfl⟩ : ∃ later, rest = later ++ [.ok none] := by
      obtain ⟨later, last, rfl⟩ : ∃ later last, rest = later ++ [last] :=
        ⟨_, _, (dropLast_append_getLast hrest).symm⟩
      rw [← append_assoc] at hsplit
      obtain ⟨-, hlast⟩ := append_inj' hsplit rfl
      exact ⟨later, by rw [hlast]⟩
    rw [← append_assoc] at hsplit
    obtain ⟨rfl, -⟩ := append_inj' hsplit rfl
    have hinitial : next <+: next ++ later := prefix_append _ _
    rcases hstops with ⟨henough, hnone | hlast⟩ | hmajority
    · exact absurd hnone (Nat.pos_iff_ne_zero.mp (hearly next hinitial henough))
    · exact hrest hlast
    · have hle := reportsIn_le_of_initial hinitial
      omega
  · rw [quotesIn_append, length_append]
    exact Nat.le_add_right_of_le hquotes
  · rw [reportsIn_append, ← hreports]
    exact le_rfl

theorem bothInAll_iff : BothInAll answers ↔ TippedAtTheEnd answers :=
  ⟨TippedAtTheEnd.of_bothInAll, TippedAtTheEnd.bothInAll⟩

/-! ### Every run -/

/-- The part of `get_quotes` before the loop: the answers, in the order they come in. -/
def gatherAnswers (client : Client) (address : NetworkAddress) (dataType : UInt32)
    (dataSize : Nat) : ClientM NetworkError (List QuoteAnswer) := do
  let closestPeers ← getClosestPeersWithRetries address quotingCandidates
  let results ← each (fun peer => attempt (client.getQuote address dataType dataSize peer))
    closestPeers
  inAnyOrder results

theorem runs_getQuotes_of_gathered {client : Client} {address : NetworkAddress} {dataType : UInt32}
    {dataSize : Nat} {es : List ClientExchange}
    (h : Runs (client.gatherAnswers address dataType dataSize) es (.ok answers)) :
    Runs (client.getQuotes address dataType dataSize) es (countQuotes answers [] 0 0) := by
  obtain ⟨first, _, peers, rfl, hpeers, h₁⟩ := runs_bind_eq_ok.mp h
  obtain ⟨asked, _, results, rfl, hasked, h₂⟩ := runs_bind_eq_ok.mp h₁
  obtain ⟨order, rfl, hanswers⟩ := runs_inAnyOrder.mp h₂
  cases hanswers
  refine runs_bind_ok hpeers (runs_bind_ok hasked ?_)
  exact runs_inAnyOrder_bind_iff.mpr ⟨order, [], rfl, runs_fromExcept.mpr ⟨rfl, rfl⟩⟩

/--
**What `get_quotes` returns is what the answers it has collected call for, if and only if
the majority of reports is not made up by the very last answer**, in every run, for
every order in which the answers come in.
-/
theorem getQuotes_decides_iff (client : Client) (address : NetworkAddress) (dataType : UInt32)
    (dataSize : Nat) (es : List ClientExchange) (answers : List QuoteAnswer)
    (hgathered : Runs (client.gatherAnswers address dataType dataSize) es (.ok answers)) :
    (∀ result, Runs (client.getQuotes address dataType dataSize) es result →
      Decides answers result) ↔ ¬ TippedAtTheEnd answers := by
  have hrun := runs_getQuotes_of_gathered hgathered
  rw [← bothInAll_iff, ← decides_iff_not_bothInAll]
  constructor
  · intro h
    exact h _ hrun
  · intro h result hresult
    rwa [Program.executes_unique hresult hrun]

theorem exists_gathered {V : Type} (view : List QuoteAnswer → V) (v : V) (client : Client)
    (answer : (request : ClientRequest) → request.Response)
    (h : (((client.gatherAnswers (.chunkAddress (bytes32 0)) 0 0).run.trace answer).2.toOption.map
      view) = some v) :
    ∃ es answers, Runs (client.gatherAnswers (.chunkAddress (bytes32 0)) 0 0) es (.ok answers) ∧
      view answers = v := by
  have hrun := (client.gatherAnswers (.chunkAddress (bytes32 0)) 0 0).run.executes_trace answer
  obtain ⟨answers, hanswers, hview⟩ := Option.map_eq_some_iff.mp h
  cases hresult : ((client.gatherAnswers (.chunkAddress (bytes32 0)) 0 0).run.trace answer).2 with
  | error e =>
    rw [hresult] at hanswers
    cases hanswers
  | ok gathered =>
    rw [hresult] at hanswers hrun
    obtain rfl : gathered = answers := Option.some.inj hanswers
    exact ⟨_, gathered, hrun, hview⟩

theorem getQuotes_decides_sample :
    ∃ es answers, Runs (sampleClient.gatherAnswers (.chunkAddress (bytes32 0)) 0 0) es
        (.ok answers) ∧ (quotesIn answers).length = 5 ∧
      ∀ result, Runs (sampleClient.getQuotes (.chunkAddress (bytes32 0)) 0 0) es result →
        Decides answers result := by
  obtain ⟨es, answers, hgathered, hview⟩ := exists_gathered
    (fun answers => ((quotesIn answers).length, reportsIn answers)) (5, 0)
    sampleClient sampleAnswer (by decide)
  obtain ⟨hquotes, hreports⟩ := Prod.mk.inj hview
  refine ⟨es, answers, hgathered, hquotes, (getQuotes_decides_iff _ _ _ _ _ _ hgathered).mpr ?_⟩
  rintro ⟨before, rfl, htip, -, -⟩
  rw [reportsIn_append] at hreports
  have hone : reportsIn [.ok none] = 1 := rfl
  omega

def tippedAnswer : (request : ClientRequest) → request.Response
  | .getClosestPeers _ _ => .ok ((List.range 10).map fun i => [UInt8.ofNat i])
  | .getQuote _ peer _ _ =>
    if peer ∈ [[0], [1], [9]] then .ok ⟨.error .recordExists, .peerId peer⟩
    else .ok ⟨.ok (sampleQuote peer), .peerId peer⟩
  | request => sampleAnswer request

/-- Two reports, seven quotes and a last report: the quotes are returned to be paid. -/
theorem getQuotes_not_always_decides :
    ¬ ∀ (client : Client) (address : NetworkAddress) (dataType : UInt32) (dataSize : Nat)
        (es : List ClientExchange) (answers : List QuoteAnswer)
        (result : Except NetworkError (Option (List (PeerId × PaymentQuote)))),
      Runs (client.gatherAnswers address dataType dataSize) es (.ok answers) →
      Runs (client.getQuotes address dataType dataSize) es result → Decides answers result := by
  intro h
  obtain ⟨es, answers, hgathered, hview⟩ := exists_gathered
    (fun answers => (reportsIn (collected [] answers),
      (countQuotes answers [] 0 0).toOption.map Option.isSome)) (3, some true)
    sampleClient tippedAnswer (by decide)
  obtain ⟨hreports, hresult⟩ := Prod.mk.inj hview
  have hnothing := (h _ _ _ _ _ _ _ hgathered (runs_getQuotes_of_gathered hgathered)).nothing.mpr
    (by rw [hreports]; decide)
  rw [hnothing] at hresult
  cases hresult

end Autonomi.Client
