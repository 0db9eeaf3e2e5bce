/-
What the records a node keeps of its peers tell.

A correct answer to a storage challenge counts each time it is given, so a peer that has
one of the records can repeat it until it has answered for all of them.  And a challenge
that expects nothing has no score: it divides by zero.  Reports of being shunned are
removed by their index, which is wrong once an earlier one has been removed.
-/
import Autonomi.Lib.Transition
import Autonomi.Node.PeerTracking

namespace Autonomi

open Lib List

/-! ### Storage challenges -/

section

variable {A P : Type} [DecidableEq A] [DecidableEq P] {expected : Table A P}
  {answers : List (A × P)} {a : A × P} {k : Nat}

/-- The answer is the expected proof. -/
def Proves (expected : Table A P) (a : A × P) : Bool := expected.lookup a.1 = some a.2

/-- Another proof is expected. -/
def Contradicts (expected : Table A P) (a : A × P) : Bool :=
  (expected.lookup a.1).any (· ≠ a.2)

/-- The expected addresses that are proven. -/
def proven (expected : Table A P) (answers : List (A × P)) : Finset A :=
  ((answers.filter (Proves expected)).map Prod.fst).toFinset

/-- What the score is meant to be. -/
def challengeScore (expected : Table A P) (answers : List (A × P)) : Nat :=
  if answers.any (Contradicts expected) ∨ expected.keys.length = 0 then 0
  else highestScore * (proven expected answers).card / expected.keys.length

theorem challengeScoreScheme_eq :
    challengeScoreScheme expected k answers =
      bif answers.any (Contradicts expected) then some 0
      else challengeScoreScheme expected (k + answers.countP (Proves expected)) [] := by
  induction answers generalizing k with
  | nil => rfl
  | cons a answers ih =>
    rw [any_cons, countP_cons, challengeScoreScheme.eq_2]
    unfold Contradicts Proves at ih ⊢
    cases expected.lookup a.1 with
    | none => exact ih
    | some proof =>
      by_cases hproof : proof = a.2
      · simp [hproof, ih, Nat.add_assoc, Nat.add_comm 1]
      · simp [hproof]

theorem score_of_full (hlen : expected.keys.length ≠ 0) (hk : expected.keys.length ≤ k) :
    challengeScoreScheme expected k [] = some highestScore := by
  rw [challengeScoreScheme, if_neg hlen, min_eq_left]
  exact (Nat.le_div_iff_mul_le (Nat.pos_of_ne_zero hlen)).mpr (Nat.mul_le_mul_left _ hk)

theorem mem_proven {addr : A} :
    addr ∈ proven expected answers ↔ ∃ a ∈ answers, Proves expected a ∧ a.1 = addr := by
  simp [proven, and_assoc]

theorem card_proven_le : (proven expected answers).card ≤ answers.countP (Proves expected) := by
  rw [countP_eq_length_filter, ← length_map (f := Prod.fst)]
  exact toFinset_card_le _

theorem card_proven_le_expected : (proven expected answers).card ≤ expected.keys.length := by
  rw [← toFinset_card_of_nodup expected.keys_nodup]
  refine Finset.card_le_card fun addr haddr => ?_
  obtain ⟨a, -, hproves, rfl⟩ := mem_proven.mp haddr
  exact mem_toFinset.mpr (AList.lookup_isSome.mp (by simp [of_decide_eq_true hproves]))

/-- **A peer gets the score it is meant to get, however often it repeats correct answers,** exactly
if one of the answers is false, or of what is expected, which is something, either nothing is
proven or everything. -/
theorem markPeer_right_iff (expected : Table A P) (answers : List (A × P)) :
    (∀ repeated, (∀ a ∈ repeated, a ∈ answers ∧ Proves expected a) →
      challengeScoreScheme expected 0 (answers ++ repeated) =
        some (challengeScore expected answers) ∧
      ∀ millis, markPeer millis (answers ++ repeated) expected =
        some (durationScoreScheme millis * challengeScore expected answers)) ↔
      answers.any (Contradicts expected) ∨ expected.keys.length ≠ 0 ∧
        (proven expected answers = ∅ ∨ (proven expected answers).card = expected.keys.length) := by
  by_cases hfalse : answers.any (Contradicts expected)
  · refine iff_of_true (fun repeated _ => ?_) (.inl hfalse)
    have hscore : challengeScoreScheme expected 0 (answers ++ repeated) = some 0 := by
      rw [challengeScoreScheme_eq, any_append, hfalse]
      rfl
    simp [markPeer, hscore, challengeScore, hfalse]
  have honest : ∀ repeated, (∀ a ∈ repeated, a ∈ answers ∧ Proves expected a) →
      challengeScoreScheme expected 0 (answers ++ repeated) = challengeScoreScheme expected
        (answers.countP (Proves expected) + repeated.countP (Proves expected)) [] := by
    intro repeated hrepeated
    have hnone : (answers ++ repeated).any (Contradicts expected) = false := by
      simp only [Bool.not_eq_true, any_eq_false, mem_append] at hfalse ⊢
      exact fun a ha => hfalse a (ha.elim id fun ha => (hrepeated a ha).1)
    rw [challengeScoreScheme_eq, hnone, countP_append, Nat.zero_add]
    rfl
  rw [or_iff_right hfalse]
  constructor
  · intro h
    have hlen : expected.keys.length ≠ 0 := by
      intro hlen
      have hscore := (h [] (by simp)).1
      rw [honest [] (by simp), challengeScoreScheme, if_pos hlen] at hscore
      cases hscore
    refine ⟨hlen, or_iff_not_imp_left.mpr fun hproven => ?_⟩
    obtain ⟨addr, haddr⟩ := Finset.nonempty_iff_ne_empty.mpr hproven
    obtain ⟨a, ha, hproves, -⟩ := mem_proven.mp haddr
    -- One correct answer, repeated for every address that is expected.
    have hrepeated : ∀ b ∈ replicate expected.keys.length a, b ∈ answers ∧ Proves expected b := by
      intro b hb
      rw [eq_of_mem_replicate hb]
      exact ⟨ha, hproves⟩
    have hscore := (h _ hrepeated).1
    rw [honest _ hrepeated, score_of_full hlen (by simp [countP_replicate, hproves])] at hscore
    have hfull := (Option.some.inj hscore).le
    rw [challengeScore, if_neg (by simp [hfalse, hlen]),
      Nat.le_div_iff_mul_le (Nat.pos_of_ne_zero hlen)] at hfull
    exact le_antisymm card_proven_le_expected (Nat.le_of_mul_le_mul_left hfull (by decide))
  · rintro ⟨hlen, hproven⟩ repeated hrepeated
    have hscore : challengeScoreScheme expected 0 (answers ++ repeated) =
        some (challengeScore expected answers) := by
      rw [honest _ hrepeated, challengeScore, if_neg (by simp [hfalse, hlen])]
      rcases hproven with hnone | hall
      · have hwrong : ∀ a ∈ answers, ¬ Proves expected a := by
          intro a ha hproves
          simpa [hnone] using mem_proven.mpr ⟨a, ha, hproves, rfl⟩
        rw [countP_eq_zero.mpr hwrong, countP_eq_zero.mpr fun a ha => hwrong a (hrepeated a ha).1]
        simp [challengeScoreScheme, hnone, hlen]
      · rw [score_of_full hlen (Nat.le_add_right_of_le (hall ▸ card_proven_le)), hall,
          Nat.mul_div_cancel _ (Nat.pos_of_ne_zero hlen)]
    exact ⟨hscore, fun millis => by rw [markPeer, hscore]; rfl⟩

/-- Nothing is expected; and one of two records is proven, once and then twice. -/
theorem markPeer_not_always_right :
    markPeer (A := Nat) (P := Nat) 0 [] ∅ = none ∧
    markPeer 0 [(1, 1)] (((∅ : Table Nat Nat).insert 1 1).insert 2 2) = some 5000 ∧
    markPeer 0 [(1, 1), (1, 1)] (((∅ : Table Nat Nat).insert 1 1).insert 2 2) = some 10000 :=
  ⟨rfl, by decide, by decide⟩

end

/-! ### Quotes of an honest peer -/

/-- What an honest peer may quote: its live time counts from a fixed start, its payments do not
become fewer, and no two quotes are of the same time. -/
structure Honest (start : Nat) (quotes : Set PeerQuote) : Prop where
  liveTime : ∀ q ∈ quotes, start ≤ q.timestamp ∧ q.liveTime = asSecs (q.timestamp - start)
  count : ∀ q ∈ quotes, ∀ q' ∈ quotes, q.timestamp < q'.timestamp →
    q.receivedPaymentCount ≤ q'.receivedPaymentCount
  distinct : ∀ q ∈ quotes, ∀ q' ∈ quotes, q.timestamp = q'.timestamp → q = q'

variable {start now : Nat} {quotes : Set PeerQuote}

theorem Honest.follows {q q' : PeerQuote} (h : Honest start quotes) (hq : q ∈ quotes)
    (hq' : q' ∈ quotes) (hle : q.timestamp ≤ q'.timestamp) : q.follows now q' := by
  have hcount : q.receivedPaymentCount ≤ q'.receivedPaymentCount := by
    rcases hle.lt_or_eq with hlt | heq
    · exact h.count q hq q' hq' hlt
    · rw [h.distinct q hq q' hq' heq]
  obtain ⟨hstart, hlive⟩ := h.liveTime q hq
  obtain ⟨-, hlive'⟩ := h.liveTime q' hq'
  -- Rounding both live times and both elapsed times is off by one second at most.
  unfold PeerQuote.follows PeerQuote.elapsed asSecs liveTimeMargin
  unfold asSecs at hlive hlive'
  rw [if_neg (by omega), if_neg (by omega)]
  by_cases hnow : q'.timestamp ≤ now
  · simp only [if_pos hnow, if_pos (hle.trans hnow), decide_eq_true_eq]
    omega
  · by_cases hnow' : q.timestamp ≤ now
    · simp [hnow, hnow']
    · simp [hnow, hnow']

theorem Honest.historicalVerify {q q' : PeerQuote} (h : Honest start quotes) (hq : q ∈ quotes)
    (hq' : q' ∈ quotes) : q.historicalVerify now q' := by
  unfold PeerQuote.historicalVerify
  by_cases hnewer : q.isNewerThan q'
  · rw [if_pos hnewer]
    exact h.follows hq' hq (of_decide_eq_true hnewer).le
  · rw [if_neg hnewer]
    exact h.follows hq hq' (not_lt.mp fun hlt => hnewer (decide_eq_true hlt))

/-- No quote of the peer was bad, and the newest one of those seen is kept. -/
structure Upheld (peer : PeerId) (seen : List PeerQuote) (s : QuotesHistory) : Prop where
  good : peer ∉ s.badQuoting
  newest : (s.quotesHistory.lookup peer = none ∧ seen = []) ∨ ∃ q ∈ seen,
    s.quotesHistory.lookup peer = some q ∧ ∀ q' ∈ seen, q'.timestamp ≤ q.timestamp

variable {peer : PeerId} {seen : List PeerQuote} {s : QuotesHistory} {quote : PeerQuote}

theorem Upheld.other {peer' : PeerId} (hs : Upheld peer seen s) (hne : peer ≠ peer') :
    Upheld peer seen (s.verifyPeerQuote now peer' quote) := by
  have hinsert : Upheld peer seen
      { s with quotesHistory := s.quotesHistory.insert peer' quote } := by
    refine ⟨hs.good, ?_⟩
    rw [AList.lookup_insert_ne hne]
    exact hs.newest
  unfold QuotesHistory.verifyPeerQuote
  split
  · split
    · split
      · exact hs
      · exact hinsert
    · exact ⟨by simp [hs.good, hne], hs.newest⟩
  · exact hinsert

theorem Upheld.same (h : Honest start quotes) (hs : Upheld peer seen s)
    (hseen : ∀ q ∈ seen, q ∈ quotes) (hquote : quote ∈ quotes) :
    Upheld peer (seen ++ [quote]) (s.verifyPeerQuote now peer quote) := by
  have hinsert (hmax : ∀ q ∈ seen, q.timestamp ≤ quote.timestamp) :
      Upheld peer (seen ++ [quote])
        { s with quotesHistory := s.quotesHistory.insert peer quote } := by
    refine ⟨hs.good, .inr ⟨quote, by simp, AList.lookup_insert _, fun q hq => ?_⟩⟩
    rcases mem_append.mp hq with hq | hq
    · exact hmax q hq
    · rw [mem_singleton.mp hq]
  unfold QuotesHistory.verifyPeerQuote
  rcases hs.newest with ⟨hnone, rfl⟩ | ⟨q, hq, hlookup, hmax⟩
  · rw [hnone]
    exact hinsert (by simp)
  · rw [hlookup]
    simp only [h.historicalVerify (hseen q hq) hquote, if_true]
    split
    · rename_i hnewer
      refine ⟨hs.good, .inr ⟨q, mem_append_left _ hq, hlookup, fun q' hq' => ?_⟩⟩
      rcases mem_append.mp hq' with hq' | hq'
      · exact hmax q' hq'
      · rw [mem_singleton.mp hq']
        exact (of_decide_eq_true hnewer).le
    · rename_i hnewer
      exact hinsert fun q' hq' => (hmax q' hq').trans
        (not_lt.mp fun hlt => hnewer (decide_eq_true hlt))

/-- Quotes in the order they arrive, with the reading of the clock and the peer. -/
def quotesOf (peer : PeerId) (arrived : List (Nat × PeerId × PeerQuote)) : List PeerQuote :=
  (arrived.filter fun a => a.2.1 = peer).map fun a => a.2.2

/-- **An honest peer is never found to quote badly**, and its newest quote is kept, whatever the
clock says, in which order its quotes arrive and what others quote. -/
theorem honest_peer_upheld (h : Honest start quotes)
    (arrived : List (Nat × PeerId × PeerQuote))
    (hquotes : ∀ q ∈ quotesOf peer arrived, q ∈ quotes) :
    Upheld peer (quotesOf peer arrived)
      (arrived.foldl (fun s a => s.verifyPeerQuote a.1 a.2.1 a.2.2) ⟨∅, []⟩) := by
  induction arrived using List.reverseRecOn with
  | nil => exact ⟨nofun, .inl ⟨rfl, rfl⟩⟩
  | append_singleton arrived a ih =>
    have hof : quotesOf peer (arrived ++ [a]) = quotesOf peer arrived ++ quotesOf peer [a] := by
      simp [quotesOf]
    rw [hof] at hquotes ⊢
    have hbefore := ih fun q hq => hquotes q (mem_append_left _ hq)
    rw [foldl_append, foldl_cons, foldl_nil]
    by_cases hpeer : a.2.1 = peer
    · have ha : quotesOf peer [a] = [a.2.2] := by simp [quotesOf, hpeer]
      rw [ha] at hquotes ⊢
      rw [hpeer]
      exact hbefore.same h (fun q hq => hquotes q (mem_append_left _ hq)) (hquotes _ (by simp))
    · have ha : quotesOf peer [a] = [] := by simp [quotesOf, hpeer]
      rw [ha, append_nil]
      exact hbefore.other (Ne.symm hpeer)

/-- The later of two quotes arrives first, and the clock is behind them. -/
theorem honest_peer_upheld_sample :
    ∃ s, Upheld [1] [⟨5000000000, 5, 1⟩, ⟨1500000000, 1, 0⟩] s :=
  ⟨_, honest_peer_upheld
    (⟨by simp [asSecs], by simp, by simp⟩ : Honest 0 {⟨5000000000, 5, 1⟩, ⟨1500000000, 1, 0⟩})
    [(2000000000, [1], ⟨5000000000, 5, 1⟩), (0, [1], ⟨1500000000, 1, 0⟩)] (by simp [quotesOf])⟩

/-! ### Reports of being shunned -/

namespace ShunnedReport

/-- A report with nothing done wrong: it moves on to the next frame, and is never forgotten. -/
def advance (now : Nat) (r : ShunnedReport) : ShunnedReport :=
  if r.isPast now then ⟨r.time, r.leastBucketItFitsIn.nextTimeFrame⟩ else r

def tracked (r : ShunnedReport) : Bool := r.leastBucketItFitsIn ≠ .indefinite

def leavesLastWeek (now : Nat) (r : ShunnedReport) : Bool :=
  r.leastBucketItFitsIn = .lastWeek && r.isPast now

/-- Not yet moved past the frame. -/
def within (frame : TimeFrameType) (r : ShunnedReport) : Bool :=
  r.leastBucketItFitsIn.ctorIdx ≤ frame.ctorIdx

end ShunnedReport

open ShunnedReport

def ShunLabel.apply (reports : List ShunnedReport) : ShunLabel → List ShunnedReport
  | .report now => reports ++ [⟨now, .lastTenMinutes⟩]
  | .update now => reports.map (advance now)

/-- All reports, each in its frame. -/
def reportsAfter (labels : List ShunLabel) : List ShunnedReport := labels.foldl ShunLabel.apply []

variable {now k : Nat} {tracker reports : List ShunnedReport} {metric : TimeFrameType → Int}

theorem updateFrom_metric (frame : TimeFrameType) :
    (ShunnedCount.updateFrom now k tracker metric).2.1 frame =
      metric frame - tracker.countP fun r => r.isPast now && (r.leastBucketItFitsIn = frame) := by
  induction tracker generalizing k metric with
  | nil => simp [ShunnedCount.updateFrom]
  | cons r tracker ih =>
    rw [ShunnedCount.updateFrom, countP_cons]
    by_cases hpast : r.isPast now
    · by_cases hframe : r.leastBucketItFitsIn = frame
      · subst hframe
        by_cases hnext : r.leastBucketItFitsIn.nextTimeFrame = .indefinite
        · simp [hpast, hnext, ih]; omega
        · simp [hpast, hnext, ih]; omega
      · have hne : frame ≠ r.leastBucketItFitsIn := Ne.symm hframe
        by_cases hnext : r.leastBucketItFitsIn.nextTimeFrame = .indefinite
        · simp [hpast, hnext, ih, hframe, hne]
        · simp [hpast, hnext, ih, hframe, hne]
    · simp [hpast, ih]

theorem next_eq_indefinite {r : ShunnedReport} (ht : r.tracked) (hpast : r.isPast now) :
    r.leastBucketItFitsIn.nextTimeFrame = .indefinite ↔ r.leavesLastWeek now := by
  unfold tracked at ht
  unfold leavesLastWeek
  cases hframe : r.leastBucketItFitsIn <;> simp_all [TimeFrameType.nextTimeFrame]

theorem updateFrom_of_none (ht : ∀ r ∈ tracker, r.tracked)
    (hnone : ∀ r ∈ tracker, ¬ r.leavesLastWeek now) :
    (ShunnedCount.updateFrom now k tracker metric).1 = tracker.map (advance now) ∧
      (ShunnedCount.updateFrom now k tracker metric).2.2 = [] := by
  induction tracker generalizing k metric with
  | nil => exact ⟨rfl, rfl⟩
  | cons r tracker ih =>
    obtain ⟨hr, hrest⟩ := forall_mem_cons.mp hnone
    obtain ⟨htr, htrest⟩ := forall_mem_cons.mp ht
    rw [ShunnedCount.updateFrom, map_cons, advance]
    by_cases hpast : r.isPast now
    · simp [hpast, (next_eq_indefinite htr hpast).not.mpr hr, ih htrest hrest]
    · simp [hpast, ih htrest hrest]

/-- One index is removed at most, so that none has shifted. -/
theorem removeAt_updateFrom (ht : ∀ r ∈ tracker, r.tracked)
    (hone : tracker.countP (leavesLastWeek now) ≤ 1) (before : List ShunnedReport) :
    (ShunnedCount.updateFrom now before.length tracker metric).2.2.foldlM ShunnedCount.removeAt
        (before ++ (ShunnedCount.updateFrom now before.length tracker metric).1) =
      some (before ++ (tracker.filter fun r => !r.leavesLastWeek now).map (advance now)) := by
  induction tracker generalizing before metric with
  | nil => rfl
  | cons r tracker ih =>
    obtain ⟨htr, htrest⟩ := forall_mem_cons.mp ht
    rw [countP_cons] at hone
    rw [ShunnedCount.updateFrom, filter_cons]
    by_cases hleaves : r.leavesLastWeek now
    · have hpast : r.isPast now := (Bool.and_eq_true_iff.mp hleaves).2
      have hnone : ∀ r ∈ tracker, ¬ r.leavesLastWeek now := by
        rw [if_pos hleaves] at hone
        exact countP_eq_zero.mp (by omega)
      have hkept : tracker.filter (fun r => !r.leavesLastWeek now) = tracker :=
        filter_eq_self.mpr fun r hr => by simpa using hnone r hr
      simp [hpast, (next_eq_indefinite htr hpast).mpr hleaves, hleaves, hkept,
        updateFrom_of_none htrest hnone, ShunnedCount.removeAt, eraseIdx_append_of_length_le]
    · have hnext : r.isPast now → r.leastBucketItFitsIn.nextTimeFrame ≠ .indefinite :=
        fun hpast => (next_eq_indefinite htr hpast).not.mpr hleaves
      have hrest := fun metric =>
        @ih metric htrest (by simpa [hleaves] using hone) (before ++ [advance now r])
      by_cases hpast : r.isPast now
      · simpa [hpast, hnext hpast, hleaves, advance] using hrest _
      · simpa [hpast, hleaves, advance] using hrest _

/-- Advancing moves a tracked report past its frame if it is past it, and past no other. -/
theorem countP_within_advance (frame : TimeFrameType) :
    ((reports.map (advance now)).countP (within frame) : Int) = reports.countP (within frame) -
      (reports.filter tracked).countP fun r => r.isPast now && (r.leastBucketItFitsIn = frame) := by
  induction reports with
  | nil => rfl
  | cons r reports ih =>
    rw [map_cons, countP_cons, countP_cons, filter_cons, advance]
    push_cast
    rw [ih]
    by_cases hpast : r.isPast now
    · cases hr : r.leastBucketItFitsIn <;> cases frame <;>
        simp [within, tracked, hpast, hr, TimeFrameType.nextTimeFrame, TimeFrameType.ctorIdx] <;>
          omega
    · by_cases ht : r.tracked
      · simp [hpast, ht]; omega
      · simp [hpast, ht]; omega

theorem tracked_advance (r : ShunnedReport) :
    (advance now r).tracked = (r.tracked && !r.leavesLastWeek now) := by
  by_cases hpast : r.isPast now
  · cases hr : r.leastBucketItFitsIn <;>
      simp [advance, tracked, leavesLastWeek, hpast, hr, TimeFrameType.nextTimeFrame]
  · simp [advance, leavesLastWeek, hpast]

/-- The code's books agree with all reports. -/
structure Counts (reports : List ShunnedReport) (s : ShunnedCount) : Prop where
  tracker : s.shunnedReportTracker = reports.filter tracked
  metric : ∀ frame, s.metric frame = reports.countP (within frame)

theorem Counts.step {s : ShunnedCount} (h : Counts reports s) (label : ShunLabel)
    (hone : ∀ now, label = .update now → reports.countP (leavesLastWeek now) ≤ 1) :
    ∃ s', s.step label = some s' ∧ Counts (label.apply reports) s' := by
  cases label with
  | report now =>
    refine ⟨_, rfl, ?_, fun frame => ?_⟩
    · simp [ShunnedCount.recordShunnedMetric, ShunLabel.apply, h.tracker, tracked]
    · simp [ShunnedCount.recordShunnedMetric, ShunLabel.apply, h.metric, within,
        TimeFrameType.ctorIdx]
  | update now =>
    have hremoved := @removeAt_updateFrom now _ s.metric (fun r hr => (mem_filter.mp hr).2)
      (filter_sublist.countP_le.trans (hone now rfl)) []
    have hstep : s.step (.update now) = _ :=
      congrArg (Option.map (ShunnedCount.mk _)) (h.tracker ▸ hremoved)
    refine ⟨_, hstep, ?_, fun frame => ?_⟩
    · simp [ShunLabel.apply, h.tracker, filter_map, Function.comp_def, tracked_advance,
        Bool.and_comm]
    · rw [ShunLabel.apply, countP_within_advance, ← h.metric, ← h.tracker]
      exact updateFrom_metric frame

/-- **The reports are counted right**, and no update panics, in every run in which at most one
report leaves the last week in an update. -/
theorem shunned_counts (labels : List ShunLabel)
    (hone : ∀ before now after, labels = before ++ .update now :: after →
      (reportsAfter before).countP (leavesLastWeek now) ≤ 1) :
    ∃ s, runSteps ShunnedCount.step ⟨0, []⟩ labels = some s ∧ Counts (reportsAfter labels) s := by
  induction labels using List.reverseRecOn with
  | nil => exact ⟨_, rfl, rfl, fun _ => rfl⟩
  | append_singleton labels label ih =>
    obtain ⟨s, hrun, hs⟩ := ih fun before now after h =>
      hone before now (after ++ [label]) (by simp [h])
    obtain ⟨s', hstep, hs'⟩ := hs.step label fun now h => hone labels now [] (by rw [h])
    refine ⟨s', ?_, by rwa [reportsAfter, foldl_append]⟩
    rw [runSteps_append, hrun, Option.bind_some, runSteps, hstep]
    rfl

theorem shunned_counts_sample :
    ∃ s, runSteps ShunnedCount.step ⟨0, []⟩ [.report 0, .update (fromSecs 700)] = some s ∧
      Counts [⟨0, .lastHour⟩] s :=
  shunned_counts [.report 0, .update (fromSecs 700)] fun before now after h =>
    countP_le_length.trans (by
      match before with
      | [] => exact Nat.zero_le 1
      | [_] => cases h; decide
      | _ :: _ :: _ => simp at h)

/-- Two reports leave the last week at once: the second index is beyond the end. -/
theorem shunned_update_panics :
    runSteps ShunnedCount.step ⟨0, []⟩ ([.report 0, .report 0] ++
      [700, 4000, 22000, 90000, 700000].map fun secs => .update (fromSecs secs)) = none := by
  decide

/-! ### Candidates for network discovery -/

namespace DiscoveryCandidates

variable {A : Type} {ilog2 : A → Option Nat} {s : DiscoveryCandidates A}
  {new : Nat → List A} {self : A} {labels : List (DiscoveryLabel A)}

structure GoodBucket (ilog2 : A → Option Nat) (bucket : Nat) (candidates : List A) : Prop where
  nonempty : candidates ≠ []
  nodup : candidates.Nodup
  bounded : candidates.length ≤ maxPeersPerBucket
  inBucket : ∀ a ∈ candidates, ilog2 a = some bucket

def Good (ilog2 : A → Option Nat) (s : DiscoveryCandidates A) : Prop :=
  ∀ bucket candidates, s bucket = some candidates → GoodBucket ilog2 bucket candidates

/-- No bucket gets an address twice, and one that has none yet does not get too many. -/
def Fits (s : DiscoveryCandidates A) (new : Nat → List A) : Prop :=
  ∀ bucket, (new bucket).Nodup ∧ (s bucket = none → (new bucket).length ≤ maxPeersPerBucket)

theorem new_inBucket (label : DiscoveryLabel A) (bucket : Nat) :
    ∀ a ∈ label.new ilog2 bucket, ilog2 a = some bucket := by
  intro a ha
  cases label with
  | closest closestPeers => exact of_decide_eq_true (mem_filter.mp ha).2
  | candidates drawn _ _ _ => exact of_decide_eq_true (mem_filter.mp (mem_of_mem_take ha)).2

theorem exists_pick {candidates : List A} (h : candidates ≠ []) (i : Nat) :
    ∃ a, pick i candidates = some a := by
  have hpos := length_pos_iff.mpr h
  exact ⟨_, (if_neg hpos.ne').trans (getElem?_eq_getElem (Nat.mod_lt i hpos))⟩

theorem exists_getTargets (h : s.Good ilog2) (self : A) (nonFull full : List Nat) (i : Nat) :
    ∃ targets, s.getTargets self nonFull full i = some targets := by
  have hfill : ∀ buckets targets,
      ∃ r, s.fillTargets (nonFull ++ full) i buckets targets = some r := by
    intro buckets
    induction buckets with
    | nil => exact fun targets => ⟨_, rfl⟩
    | cons bucket buckets ih =>
      intro targets
      rw [fillTargets]
      split
      · exact ⟨_, rfl⟩
      · split
        · rename_i candidates hs
          obtain ⟨a, ha⟩ := exists_pick (h _ _ hs).nonempty i
          rw [ha]
          split
          · exact ih _
          · exact ih _
        · exact ih _
  have hmap : ∀ l : List (List A), (∀ c ∈ l, c ≠ []) → ∃ picked, l.mapM (pick i) = some picked := by
    intro l hl
    induction l with
    | nil => exact ⟨[], rfl⟩
    | cons c l ih =>
      obtain ⟨a, ha⟩ := exists_pick (hl c mem_cons_self) i
      obtain ⟨picked, hpicked⟩ := ih fun c hc => hl c (mem_cons_of_mem _ hc)
      exact ⟨a :: picked, by simp [ha, hpicked]⟩
  obtain ⟨picked, hpicked⟩ := hmap (nonFull.filterMap s) fun c hc => by
    obtain ⟨bucket, -, hs⟩ := mem_filterMap.mp hc
    exact (h bucket c hs).nonempty
  rw [getTargets, hpicked]
  exact hfill _ _

variable [DecidableEq A]

theorem good_insertAll (h : s.Good ilog2) (hfits : s.Fits new)
    (hnew : ∀ bucket, ∀ a ∈ new bucket, ilog2 a = some bucket) : (s.insertAll new).Good ilog2 := by
  intro bucket candidates hcandidates
  unfold insertAll at hcandidates
  split at hcandidates
  · exact h bucket candidates hcandidates
  · rename_i hsome
    cases hcandidates
    cases hs : s bucket with
    | none => exact ⟨hsome, (hfits bucket).1, (hfits bucket).2 hs, hnew bucket⟩
    | some existing =>
      have hex := h bucket existing hs
      have hpos := length_pos_iff.mpr hex.nonempty
      refine ⟨?_, ?_, ?_, fun a ha => ?_⟩
      · rw [← length_pos_iff, insertCandidates, length_drop, length_append, maxPeersPerBucket]
        omega
      · refine (drop_sublist _ _).nodup (hex.nodup.append ((hfits bucket).1.filter _) ?_)
        intro a ha ha'
        simpa [ha] using (mem_filter.mp ha').2
      · rw [insertCandidates, length_drop]
        omega
      · rcases mem_append.mp (mem_of_mem_drop ha) with ha | ha
        · exact hex.inBucket a ha
        · exact hnew bucket a (mem_filter.mp ha).1

end DiscoveryCandidates

end Autonomi
