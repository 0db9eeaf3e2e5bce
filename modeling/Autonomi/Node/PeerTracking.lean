/-
What a node keeps track of about its peers.

The answers to a storage challenge are scored, the quotes of a peer are compared with the
newest one before, reports of peers that shun the node are counted by their age, and
candidates to discover the network with are kept by bucket.  Times are in nanoseconds.
-/
import Autonomi.Node.NetworkWideReplication

namespace Autonomi

open Lib

/-! ### Storage challenges -/

section

variable {A P : Type} [DecidableEq A] [DecidableEq P]

def highestScore : Nat := 100

def timeStep : Nat := 50

def durationScoreScheme (millis : Nat) : Nat :=
  let inMs := if millis < 2 ^ 64 then millis else highestScore * timeStep
  highestScore - min highestScore (inMs / timeStep)

/-- `none` is the panic of a division by zero. -/
def challengeScoreScheme (expectedProofs : Table A P) (correctAnswers : Nat) :
    List (A × P) → Option Nat
  | [] =>
    if expectedProofs.keys.length = 0 then none
    else some (min highestScore (highestScore * correctAnswers / expectedProofs.keys.length))
  | (addr, chunkProof) :: answers =>
    match expectedProofs.lookup addr with
    | some expectedProof =>
      if expectedProof = chunkProof then
        challengeScoreScheme expectedProofs (correctAnswers + 1) answers
      else some 0
    | none => challengeScoreScheme expectedProofs correctAnswers answers

def markPeer (millis : Nat) (answers : List (A × P)) (expectedProofs : Table A P) : Option Nat :=
  (challengeScoreScheme expectedProofs 0 answers).map (durationScoreScheme millis * ·)

end

/-! ### Quotes of peers -/

def liveTimeMargin : Nat := 10

/-- A quote, as far as quotes of one peer are compared. -/
structure PeerQuote where
  timestamp : Nat
  liveTime : Nat
  receivedPaymentCount : Nat

namespace PeerQuote

def isNewerThan (quote other : PeerQuote) : Bool := other.timestamp < quote.timestamp

/-- `SystemTime::elapsed` -/
def elapsed (now timestamp : Nat) : Option Nat :=
  if timestamp ≤ now then some (now - timestamp) else none

/-- The checks of `historical_verify`; with a time ahead of the clock the last is left out. -/
def follows (now : Nat) (oldQuote newQuote : PeerQuote) : Bool :=
  if newQuote.liveTime < oldQuote.liveTime then false
  else if newQuote.receivedPaymentCount < oldQuote.receivedPaymentCount then false
  else match elapsed now oldQuote.timestamp, elapsed now newQuote.timestamp with
    | some oldElapsed, some newElapsed =>
      let timeDiff := asSecs oldElapsed - asSecs newElapsed
      newQuote.liveTime - oldQuote.liveTime ≤ timeDiff + liveTimeMargin
    | _, _ => true

def historicalVerify (now : Nat) (quote other : PeerQuote) : Bool :=
  if quote.isNewerThan other then follows now other quote else follows now quote other

end PeerQuote

/-- The newest quote of each peer, and who was found to quote badly. -/
structure QuotesHistory where
  quotesHistory : Table PeerId PeerQuote
  badQuoting : List PeerId

def QuotesHistory.verifyPeerQuote (s : QuotesHistory) (now : Nat) (peerId : PeerId)
    (quote : PeerQuote) : QuotesHistory :=
  match s.quotesHistory.lookup peerId with
  | some historyQuote =>
    if historyQuote.historicalVerify now quote then
      if historyQuote.isNewerThan quote then s
      else { s with quotesHistory := s.quotesHistory.insert peerId quote }
    else { s with badQuoting := s.badQuoting ++ [peerId] }
  | none => { s with quotesHistory := s.quotesHistory.insert peerId quote }

/-! ### Reports of being shunned -/

inductive TimeFrameType
  | lastTenMinutes | lastHour | lastSixHours | lastDay | lastWeek | indefinite
deriving DecidableEq

namespace TimeFrameType

def getDurationSec : TimeFrameType → Nat
  | lastTenMinutes => 10 * 60
  | lastHour => 60 * 60
  | lastSixHours => 6 * 60 * 60
  | lastDay => 24 * 60 * 60
  | lastWeek => 7 * 24 * 60 * 60
  | indefinite => 2 ^ 64 - 1

def nextTimeFrame : TimeFrameType → TimeFrameType
  | lastTenMinutes => lastHour
  | lastHour => lastSixHours
  | lastSixHours => lastDay
  | lastDay => lastWeek
  | lastWeek | indefinite => indefinite

end TimeFrameType

structure ShunnedReport where
  time : Nat
  leastBucketItFitsIn : TimeFrameType
deriving DecidableEq

/-- The report is older than its frame. -/
def ShunnedReport.isPast (now : Nat) (r : ShunnedReport) : Bool :=
  r.leastBucketItFitsIn.getDurationSec < asSecs (now - r.time)

/-- `ShunnedCountAcrossTimeFrames` -/
structure ShunnedCount where
  metric : TimeFrameType → Int
  shunnedReportTracker : List ShunnedReport

namespace ShunnedCount

def recordShunnedMetric (s : ShunnedCount) (now : Nat) : ShunnedCount where
  metric frame := s.metric frame + 1
  shunnedReportTracker := s.shunnedReportTracker ++ [⟨now, .lastTenMinutes⟩]

/-- The loop over the reports from an index on, and the indices to remove. -/
def updateFrom (now : Nat) : Nat → List ShunnedReport → (TimeFrameType → Int) →
    List ShunnedReport × (TimeFrameType → Int) × List Nat
  | _, [], metric => ([], metric, [])
  | idx, r :: tracker, metric =>
    let frame := r.leastBucketItFitsIn
    if r.isPast now then
      let (tracker, metric, idxToRemove) :=
        updateFrom now (idx + 1) tracker (Function.update metric frame (metric frame - 1))
      if frame.nextTimeFrame = .indefinite then (r :: tracker, metric, idx :: idxToRemove)
      else (⟨r.time, frame.nextTimeFrame⟩ :: tracker, metric, idxToRemove)
    else
      let (tracker, metric, idxToRemove) := updateFrom now (idx + 1) tracker metric
      (r :: tracker, metric, idxToRemove)

/-- `Vec::remove`, which panics beyond the end. -/
def removeAt (tracker : List ShunnedReport) (idx : Nat) : Option (List ShunnedReport) :=
  if idx < tracker.length then some (tracker.eraseIdx idx) else none

def tryUpdateState (s : ShunnedCount) (now : Nat) : Option ShunnedCount :=
  let (tracker, metric, idxToRemove) := updateFrom now 0 s.shunnedReportTracker s.metric
  (idxToRemove.foldlM removeAt tracker).map fun tracker => ⟨metric, tracker⟩

end ShunnedCount

inductive ShunLabel
  | report (now : Nat)
  | update (now : Nat)

def ShunnedCount.step (s : ShunnedCount) : ShunLabel → Option ShunnedCount
  | .report now => some (s.recordShunnedMetric now)
  | .update now => s.tryUpdateState now

/-! ### Candidates for network discovery -/

def maxPeersPerBucket : Nat := 5

/-- The candidates of each bucket; `ilog2` tells the bucket of an address. -/
abbrev DiscoveryCandidates (A : Type) := Nat → Option (List A)

namespace DiscoveryCandidates

variable {A : Type} [DecidableEq A] (ilog2 : A → Option Nat)

def insertCandidates (newCandidates : List A) : Option (List A) → List A
  | some existing =>
    let candidates := existing ++ newCandidates.filter (· ∉ existing)
    candidates.drop (candidates.length - maxPeersPerBucket)
  | none => newCandidates

/-- Insert the new candidates of every bucket that has some. -/
def insertAll (s : DiscoveryCandidates A) (new : Nat → List A) : DiscoveryCandidates A :=
  fun bucket => if new bucket = [] then s bucket else insertCandidates (new bucket) (s bucket)

def closestIn (closestPeers : List A) (bucket : Nat) : List A :=
  closestPeers.filter (ilog2 · = some bucket)

/-- The parts are joined by bucket, until there are enough in it. -/
def generateCandidates (drawn : List A) (bucket : Nat) : List A :=
  (closestIn ilog2 drawn bucket).take maxPeersPerBucket

/-- `none` is the panic of a remainder by zero. -/
def pick (roundRobinIndex : Nat) (candidates : List A) : Option A :=
  if candidates.length = 0 then none else candidates[roundRobinIndex % candidates.length]?

/-- Fill up with candidates of the buckets that are empty in the routing table. -/
def fillTargets (s : DiscoveryCandidates A) (skip : List Nat) (roundRobinIndex : Nat) :
    List Nat → List A → Option (List A)
  | [], targets => some targets
  | bucket :: buckets, targets =>
    if 10 ≤ targets.length then some targets
    else match s bucket with
      | some candidates =>
        if bucket ∈ skip then fillTargets s skip roundRobinIndex buckets targets
        else (pick roundRobinIndex candidates).bind fun target =>
          fillTargets s skip roundRobinIndex buckets (targets ++ [target])
      | none => fillTargets s skip roundRobinIndex buckets targets

/-- `get_candidates` after the refresh. -/
def getTargets (s : DiscoveryCandidates A) (self : A) (nonFullNonEmpty full : List Nat)
    (roundRobinIndex : Nat) : Option (List A) :=
  ((nonFullNonEmpty.filterMap s).mapM (pick roundRobinIndex)).bind fun picked =>
    fillTargets s (nonFullNonEmpty ++ full) roundRobinIndex (List.range 256) (self :: picked)

end DiscoveryCandidates

inductive DiscoveryLabel (A : Type)
  /-- `handle_get_closest_query` -/
  | closest (closestPeers : List A)
  /-- `get_candidates`, with the peers it draws to refresh the candidates. -/
  | candidates (drawn : List A) (nonFullNonEmpty full : List Nat) (roundRobinIndex : Nat)

def DiscoveryLabel.new {A : Type} (ilog2 : A → Option Nat) : DiscoveryLabel A → Nat → List A
  | closest closestPeers => DiscoveryCandidates.closestIn ilog2 closestPeers
  | candidates drawn _ _ _ => DiscoveryCandidates.generateCandidates ilog2 drawn

def DiscoveryCandidates.step {A : Type} [DecidableEq A] (ilog2 : A → Option Nat) (self : A)
    (s : DiscoveryCandidates A) (label : DiscoveryLabel A) : Option (DiscoveryCandidates A) :=
  let s := s.insertAll (label.new ilog2)
  match label with
  | .closest _ => some s
  | .candidates _ nonFullNonEmpty full roundRobinIndex =>
    (s.getTargets self nonFullNonEmpty full roundRobinIndex).map fun _ => s

end Autonomi
