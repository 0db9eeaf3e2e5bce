/-
Who stands behind what is fetched.

A record goes into the queue because a trustworthy holder reported it, or because enough
peers did.  The table of reports is the fetcher's memory of the latter: what is in it
was reported, by a peer not known to be untrustworthy then, and was neither accepted nor
pruned since (`ReportedSince`).  Scores of peers are kept as long as no call brings too
many new ones: one peer is dropped a call.
-/
import Autonomi.Proofs.Fetcher

namespace Autonomi

open Lib ReplicationFetcher List

variable {c : Crypto} {now : Time} {f : ReplicationFetcher}

namespace FetcherCall

/-! ### What a call does with reports -/

/-- The call is a report of the record by the holder, and not a fresh one. -/
def Reports (holder : PeerId) (report : Report) : FetcherCall → Prop
  | addKeys _ holder' incomingKeys _ false _ => holder' = holder ∧ report ∈ incomingKeys
  | _ => False

def candidates (c : Crypto) (now : Time) (f : ReplicationFetcher) : FetcherCall → List Candidate
  | addKeys _ holder incomingKeys locallyStoredKeys false closestKPeers =>
    (f.validCandidates c now holder incomingKeys locallyStoredKeys closestKPeers).2
  | _ => []

def byMajority (c : Crypto) (now : Time) (f : ReplicationFetcher) : FetcherCall → List Candidate
  | addKeys _ holder incomingKeys locallyStoredKeys false closestKPeers =>
    if f.isPeerTrustworthy holder = some false then []
    else (f.initialMajorityReplicates now holder
      (f.inRangeNewKeys c holder incomingKeys locallyStoredKeys closestKPeers)).2
  | _ => []

def accumulated (c : Crypto) (now : Time) (f : ReplicationFetcher) :
    FetcherCall → Table Report (PeerSet × Time)
  | addKeys _ holder incomingKeys locallyStoredKeys false closestKPeers =>
    (f.validCandidates c now holder incomingKeys locallyStoredKeys closestKPeers).1.initialReplicates
  | _ => f.initialReplicates

/-- The call puts an entry into the queue that was not there. -/
def Inserts (c : Crypto) (now : Time) (f : ReplicationFetcher) (k : PendingKey) :
    FetcherCall → Prop
  | addKeys _ holder incomingKeys locallyStoredKeys false closestKPeers =>
    k ∉ (f.removeOutdated now locallyStoredKeys).toBeFetched ∧
      k ∈ (f.queued c now holder incomingKeys locallyStoredKeys closestKPeers).toBeFetched
  | _ => False

/-- The call lets reports of the record lapse. -/
def Prunes (c : Crypto) (now : Time) (f : ReplicationFetcher) (report : Report)
    (call : FetcherCall) : Prop :=
  report ∈ call.accumulated c now f ∧ report ∉ (call.run c now f).initialReplicates

variable {call : FetcherCall} {report : Report} {holder peer : PeerId} {peers : PeerSet} {t : Time}
  {k : PendingKey}

theorem accumulated_of_run
    (h : (call.run c now f).initialReplicates.lookup report = some (peers, t)) :
    (call.accumulated c now f).lookup report = some (peers, t) := by
  have hnext : ∀ (g : ReplicationFetcher) (rank : PendingKey → Nat),
      (g.nextKeysToFetch c rank now).1.initialReplicates.lookup report = some (peers, t) →
        g.initialReplicates.lookup report = some (peers, t) := by
    intro g rank hg
    rw [nextKeysToFetch_initialReplicates] at hg
    exact (Option.filter_eq_some_iff.mp (Table.lookup_retain.symm.trans hg)).1
  cases call with
  | addKeys rank holder incomingKeys locallyStoredKeys isFreshReplicate closestKPeers =>
    cases isFreshReplicate with
    | true => exact hnext (f.freshened c now holder incomingKeys locallyStoredKeys) rank h
    | false =>
      exact hnext (f.queued c now holder incomingKeys locallyStoredKeys closestKPeers) rank h
  | addPeerScores rank scores =>
    rw [FetcherCall.run, addPeerScores_frame] at h
    exact h
  | setReplicationDistanceRange distanceRange => exact h
  | setFarthestOnFull farthestIn =>
    rw [FetcherCall.run, setFarthestOnFull_frame] at h
    exact h
  | notifyAboutNewPut rank newPut recordType | notifyFetchEarlyCompleted rank keyIn recordType =>
    have hkept := hnext _ rank h
    exact hkept
  | nextKeysToFetch rank => exact hnext f rank h

theorem mem_byMajority :
    (peer, report) ∈ call.byMajority c now f ↔
      ∃ rank holder incomingKeys locallyStoredKeys closestKPeers,
        call = .addKeys rank holder incomingKeys locallyStoredKeys false closestKPeers ∧
        f.isPeerTrustworthy holder ≠ some false ∧
        report ∈ f.inRangeNewKeys c holder incomingKeys locallyStoredKeys closestKPeers ∧
        closeGroupSize / 2 ≤ (f.reportersWith holder report).1.length ∧
        peer ∈ (f.reportersWith holder report).1 := by
  constructor
  · intro h
    unfold byMajority at h
    split at h
    · rename_i rank holder incomingKeys locallyStoredKeys closestKPeers
      split at h
      · cases h
      · rename_i htrust
        exact ⟨rank, holder, incomingKeys, locallyStoredKeys, closestKPeers, rfl, htrust,
          mem_initialMajorityReplicates.mp h⟩
    · cases h
  · rintro ⟨rank, holder, incomingKeys, locallyStoredKeys, closestKPeers, rfl, htrust, hrest⟩
    rw [byMajority, if_neg htrust]
    exact mem_initialMajorityReplicates.mpr hrest

theorem reportersWith_eq_singleton
    (h : ¬ closeGroupSize / 2 ≤ (f.reportersWith holder report).1.length) :
    (f.reportersWith holder report).1 = [holder] := by
  have hmem : holder ∈ (f.reportersWith holder report).1 := mem_insert_peerSet.mpr (.inl rfl)
  match hpeers : (f.reportersWith holder report).1 with
  | [] =>
    rw [hpeers] at hmem
    cases hmem
  | [one] =>
    rw [hpeers] at hmem
    rw [mem_singleton.mp hmem]
  | _ :: _ :: rest =>
    rw [hpeers] at h
    exact absurd (Nat.le_add_left 2 rest.length) h

/-- **What becomes of the reports of a record**: they are as they were, and the call has not
accepted the record; or the call is the only report there is, and has brought no majority. -/
theorem accumulated_cases (h : (call.accumulated c now f).lookup report = some (peers, t)) :
    (f.initialReplicates.lookup report = some (peers, t) ∧
      (∀ peer, (peer, report) ∉ call.candidates c now f) ∧
      ∀ peer, (peer, report) ∉ call.byMajority c now f) ∨
    ∃ holder, call.Reports holder report ∧ f.isPeerTrustworthy holder ≠ some false ∧
      peers.1 = [holder] ∧ ∀ peer, (peer, report) ∉ call.byMajority c now f := by
  -- the calls that report nothing keep the table and accept nothing
  unfold accumulated at h
  split at h
  case h_2 hcall =>
    left
    refine ⟨h, fun peer hpeer => ?_, fun peer hpeer => ?_⟩
    · unfold candidates at hpeer
      split at hpeer
      · exact hcall _ _ _ _ _ rfl
      · cases hpeer
    · obtain ⟨_, _, _, _, _, rfl, -⟩ := mem_byMajority.mp hpeer
      exact hcall _ _ _ _ _ rfl
  rename_i rank holder incomingKeys locallyStoredKeys closestKPeers
  have hmajority : ∀ peer, (peer, report) ∈ byMajority c now f
      (.addKeys rank holder incomingKeys locallyStoredKeys false closestKPeers) →
        report ∈ f.inRangeNewKeys c holder incomingKeys locallyStoredKeys closestKPeers ∧
        closeGroupSize / 2 ≤ (f.reportersWith holder report).1.length := by
    intro peer hpeer
    obtain ⟨_, _, _, _, _, hcall, -, hnew, hlength, -⟩ := mem_byMajority.mp hpeer
    cases hcall
    exact ⟨hnew, hlength⟩
  by_cases htrust : f.isPeerTrustworthy holder = some false
  · left
    rw [validCandidates_of_untrustworthy htrust] at h
    refine ⟨h, fun peer hpeer => ?_, fun peer hpeer => ?_⟩
    · rw [candidates, validCandidates_of_untrustworthy htrust] at hpeer
      cases hpeer
    · rw [byMajority, if_pos htrust] at hpeer
      cases hpeer
  · rw [validCandidates_reports htrust, lookup_initialMajorityReplicates] at h
    by_cases hnew : report ∈ f.inRangeNewKeys c holder incomingKeys locallyStoredKeys closestKPeers
    · right
      rw [if_pos hnew] at h
      by_cases hlength : closeGroupSize / 2 ≤ (f.reportersWith holder report).1.length
      · rw [if_pos hlength] at h
        cases h
      · rw [if_neg hlength] at h
        cases h
        exact ⟨holder, ⟨rfl, (mem_inRangeNewKeys.mp hnew).1⟩, htrust,
          reportersWith_eq_singleton hlength, fun peer hpeer => hlength (hmajority peer hpeer).2⟩
    · left
      rw [if_neg hnew] at h
      exact ⟨h, fun peer hpeer => hnew (mem_newKeys_of_mem_validCandidates hpeer),
        fun peer hpeer => hnew (hmajority peer hpeer).1⟩

/-- An entry is queued for a record that has just been reported: by the peer to fetch it from,
which is trustworthy, or by the last of enough peers. -/
theorem inserts_cases (h : call.Inserts c now f k) :
    ∃ address holder, address.toRecordKey c = k.1 ∧ call.Reports holder (address, k.2.1) ∧
      ((k.2.2 = holder ∧ f.isPeerTrustworthy holder = some true) ∨
        (k.2.2, address, k.2.1) ∈ call.byMajority c now f) := by
  unfold Inserts at h
  split at h
  case h_2 => cases h
  rename_i rank holder incomingKeys locallyStoredKeys closestKPeers
  obtain ⟨hnot, hmem⟩ := h
  rw [queued_eq] at hmem
  obtain ⟨candidate, hcandidate, rfl⟩ := (mem_queue.mp hmem).resolve_left hnot
  have hnew := mem_newKeys_of_mem_validCandidates hcandidate
  refine ⟨candidate.2.1, holder, rfl, ⟨rfl, (mem_inRangeNewKeys.mp hnew).1⟩, ?_⟩
  cases htrust : f.isPeerTrustworthy holder with
  | none =>
    right
    rw [validCandidates_of_unknown htrust] at hcandidate
    have hdistrust : f.isPeerTrustworthy holder ≠ some false := by simp [htrust]
    exact mem_byMajority.mpr ⟨rank, holder, incomingKeys, locallyStoredKeys, closestKPeers, rfl,
      hdistrust, mem_initialMajorityReplicates.mp hcandidate⟩
  | some trusted =>
    cases trusted with
    | false =>
      rw [validCandidates_of_untrustworthy htrust] at hcandidate
      cases hcandidate
    | true =>
      left
      rw [validCandidates_of_trustworthy htrust] at hcandidate
      obtain ⟨report, -, rfl⟩ := mem_map.mp hcandidate
      exact ⟨rfl, rfl⟩

end FetcherCall

/-! ### Reports over a run -/

/-- The holder has reported the record, and was not untrustworthy then.  The record has not been
accepted since, and reports of it have not been cleared, by a majority or by age. -/
def ReportedSince (c : Crypto) (past : List FetcherEvent) (holder : PeerId) (report : Report) :
    Prop :=
  ∃ later e earlier, past = later ++ e :: earlier ∧
    e.call.Reports holder report ∧ e.before.isPeerTrustworthy holder ≠ some false ∧
    (∀ e' ∈ later, ∀ peer, (peer, report) ∉ e'.call.candidates c e'.now e'.before) ∧
    ∀ e' ∈ later ++ [e], (∀ peer, (peer, report) ∉ e'.call.byMajority c e'.now e'.before) ∧
      ¬ e'.call.Prunes c e'.now e'.before report

/-- Everything in the table of reports has been reported. -/
def Backed (c : Crypto) (s : FetcherState) : Prop :=
  ∀ report peers t, s.fetcher.initialReplicates.lookup report = some (peers, t) →
    ∀ holder ∈ peers.1, ReportedSince c s.past holder report

variable {selfPeerId : PeerId} {labels : List FetcherLabel} {s s' : FetcherState}
  {call : FetcherCall} {report : Report} {k : PendingKey}
  {guard : FetcherState → FetcherLabel → Prop}

theorem Backed.after_call (h : Backed c s) :
    Backed c { s with
      fetcher := call.run c s.clock s.fetcher, past := s.event call :: s.past } := by
  intro report peers t hlookup holder hholder
  have hpruned : ¬ call.Prunes c s.clock s.fetcher report := by
    rintro ⟨-, hgone⟩
    exact hgone (Table.mem_iff_lookup.mpr ⟨_, hlookup⟩)
  rcases FetcherCall.accumulated_cases (FetcherCall.accumulated_of_run hlookup) with
    ⟨hbefore, hcandidates, hmajority⟩ | ⟨reporter, hreports, htrust, hsingle, hmajority⟩
  · obtain ⟨later, e, earlier, hpast, hreports, htrust, hlater, hsince⟩ :=
      h report peers t hbefore holder hholder
    refine ⟨s.event call :: later, e, earlier, ?_, hreports, htrust, ?_, ?_⟩
    · rw [hpast]
      rfl
    · exact forall_mem_cons.mpr ⟨hcandidates, hlater⟩
    · exact forall_mem_cons.mpr ⟨⟨hmajority, hpruned⟩, hsince⟩
  · rw [hsingle] at hholder
    obtain rfl := mem_singleton.mp hholder
    refine ⟨[], s.event call, s.past, rfl, hreports, htrust, by simp, ?_⟩
    intro e' he'
    obtain rfl := mem_singleton.mp he'
    exact ⟨hmajority, hpruned⟩

/-- The table of reports tells the truth, whatever is called and however long it takes. -/
theorem backed_of_run
    (hrun : GuardedRun (FetcherState.step c) guard (.init selfPeerId) labels s) : Backed c s := by
  refine hrun.invariant ?_ ?_
  · intro s label s' hs _ hstep
    cases label with
    | tick duration =>
      cases hstep
      exact hs
    | call call =>
      cases hstep
      exact hs.after_call
  · intro report peers t hlookup
    cases hlookup

variable {peer : PeerId}

theorem mem_reporters {replicates : Table Report (PeerSet × Time)} :
    peer ∈ (reporters replicates report).1 ↔
      ∃ peers t, replicates.lookup report = some (peers, t) ∧ peer ∈ peers.1 := by
  unfold reporters
  cases replicates.lookup report with
  | none => simp [PeerSet.empty]
  | some reported =>
    constructor
    · intro h
      exact ⟨reported.1, reported.2, rfl, h⟩
    · rintro ⟨peers, t, hlookup, h⟩
      cases hlookup
      exact h

theorem Backed.reportedSince (h : Backed c s)
    (hpeer : peer ∈ (reporters s.fetcher.initialReplicates report).1) :
    ReportedSince c s.past peer report := by
  obtain ⟨peers, t, hlookup, hmem⟩ := mem_reporters.mp hpeer
  exact h report peers t hlookup peer hmem

theorem exists_majority (h : (peer, report) ∈ call.byMajority c now f) :
    ∃ holders : Finset PeerId, closeGroupSize / 2 ≤ holders.card ∧ peer ∈ holders ∧
      ∀ holder ∈ holders, (call.Reports holder report ∧ f.isPeerTrustworthy holder ≠ some false) ∨
        holder ∈ (reporters f.initialReplicates report).1 := by
  obtain ⟨rank, holder, incomingKeys, locallyStoredKeys, closestKPeers, rfl, htrust, hnew, hlength,
    hpeer⟩ := FetcherCall.mem_byMajority.mp h
  refine ⟨(f.reportersWith holder report).1.toFinset, ?_, mem_toFinset.mpr hpeer, ?_⟩
  · rwa [toFinset_card_of_nodup (f.reportersWith holder report).2]
  · intro other hother
    rcases mem_insert_peerSet.mp (mem_toFinset.mp hother) with rfl | hearlier
    · exact .inl ⟨⟨rfl, (mem_inRangeNewKeys.mp hnew).1⟩, htrust⟩
    · exact .inr hearlier

/-- The entry is fetched from the holder that just reported it, whose last two scores were
healthy; or enough peers have reported it since it was last accepted or pruned, none of them
untrustworthy when it did. -/
def Endorsed (c : Crypto) (s : FetcherState) (call : FetcherCall) (k : PendingKey) : Prop :=
  ∃ address, address.toRecordKey c = k.1 ∧
    ((call.Reports k.2.2 (address, k.2.1) ∧
        ∃ t, s.fetcher.peersScores.lookup k.2.2 = some (⟨[true, true], Nat.le_refl 2⟩, t)) ∨
      ∃ holders : Finset PeerId, closeGroupSize / 2 ≤ holders.card ∧
        ∀ holder ∈ holders,
          (call.Reports holder (address, k.2.1) ∧
            s.fetcher.isPeerTrustworthy holder ≠ some false) ∨
          ReportedSince c s.past holder (address, k.2.1))

def sampleReport (holder : PeerId) : FetcherCall :=
  .addKeys (fun _ => 0) holder [(.recordKey [5], .chunk)] ∅ false [.peerId [10]]

namespace ReplicationFetcher

variable {peer : PeerId}

def recorded (peersScores : PeersScores) (peer : PeerId) : List Bool :=
  ((peersScores.lookup peer).map fun entry => entry.1.1).getD []

def given (scores : List (PeerId × Bool)) (peer : PeerId) : List Bool :=
  (scores.filter fun score => score.1 = peer).map Prod.snd

def lastTwo (scores : List Bool) : List Bool := scores.drop (scores.length - 2)

/-- Two scores, not both of them healthy. -/
def Distrusted (scores : List Bool) : Prop := scores.length = 2 ∧ false ∈ scores

theorem length_recorded (peersScores : PeersScores) (peer : PeerId) :
    (recorded peersScores peer).length ≤ 2 := by
  unfold recorded
  cases peersScores.lookup peer with
  | none => exact Nat.zero_le 2
  | some entry => exact entry.1.2

theorem isPeerTrustworthy_eq_false :
    f.isPeerTrustworthy peer = some false ↔ Distrusted (recorded f.peersScores peer) := by
  unfold isPeerTrustworthy recorded Distrusted
  cases f.peersScores.lookup peer with
  | none => simp
  | some entry =>
    obtain ⟨⟨scores, hlength⟩, t⟩ := entry
    match scores, hlength with
    | [], _ => simp
    | [_], _ => simp
    | [a, b], _ => cases a <;> cases b <;> simp

theorem lastTwo_of_length_le {scores : List Bool} (h : scores.length ≤ 2) :
    lastTwo scores = scores := by
  rw [lastTwo, Nat.sub_eq_zero_of_le h, drop_zero]

theorem lastTwo_lastTwo_append (l m : List Bool) : lastTwo (lastTwo l ++ m) = lastTwo (l ++ m) := by
  unfold lastTwo
  rw [← drop_append_of_le_length (Nat.sub_le l.length 2), drop_drop]
  congr 1
  rw [length_drop, length_append]
  omega

theorem push_eq_lastTwo (scores : Scores) (isHealthy : Bool) :
    (scores.push isHealthy).1 = lastTwo (scores.1 ++ [isHealthy]) := by
  obtain ⟨l, hl⟩ := scores
  match l, hl with
  | [], _ | [_], _ | [_, _], _ => rfl

theorem recorded_addPeerScore (now : Time) (peersScores : PeersScores)
    (score : PeerId × Bool) :
    recorded (addPeerScore now peersScores score) peer =
      lastTwo (recorded peersScores peer ++ given [score] peer) := by
  by_cases h : score.1 = peer
  · subst h
    have hgiven : given [score] score.1 = [score.2] := by simp [given]
    rw [hgiven]
    unfold recorded addPeerScore
    rw [AList.lookup_insert]
    cases peersScores.lookup score.1 with
    | none => rfl
    | some entry => exact push_eq_lastTwo entry.1 score.2
  · have hgiven : given [score] peer = [] := by simp [given, h]
    rw [hgiven, append_nil, lastTwo_of_length_le (length_recorded peersScores peer)]
    unfold recorded addPeerScore
    rw [AList.lookup_insert_ne (Ne.symm h)]

theorem recorded_foldl (now : Time) (peersScores : PeersScores)
    (scores : List (PeerId × Bool)) :
    recorded (scores.foldl (addPeerScore now) peersScores) peer =
      lastTwo (recorded peersScores peer ++ given scores peer) := by
  induction scores generalizing peersScores with
  | nil =>
    rw [foldl_nil, given, filter_nil, map_nil, append_nil,
      lastTwo_of_length_le (length_recorded peersScores peer)]
  | cons score scores ih =>
    have hgiven : given (score :: scores) peer = given [score] peer ++ given scores peer := by
      unfold given
      rw [← map_append, ← filter_append, singleton_append]
    rw [foldl_cons, ih, recorded_addPeerScore, lastTwo_lastTwo_append, hgiven, append_assoc]

theorem distrusted_of_addPeerScores {rank : PeerId → Nat} {scores : List (PeerId × Bool)}
    (h : (f.addPeerScores rank now scores).isPeerTrustworthy peer = some false) :
    Distrusted (lastTwo (recorded f.peersScores peer ++ given scores peer)) := by
  rw [isPeerTrustworthy_eq_false] at h
  rw [← recorded_foldl now]
  unfold addPeerScores at h
  dsimp only at h
  split at h
  · split at h
    · rename_i oldest _
      by_cases hpeer : peer = oldest
      · subst hpeer
        rw [recorded, AList.lookup_erase] at h
        cases h.2
      · rwa [recorded, AList.lookup_erase_ne hpeer] at h
    · exact h
  · exact h

end ReplicationFetcher

/-- No peer with a report in the table becomes untrustworthy by the scores it is given. -/
def ReportersStayTrusted (s : FetcherState) : FetcherLabel → Prop
  | .call (.addPeerScores _ scores) => ∀ report,
      ∀ peer ∈ (reporters s.fetcher.initialReplicates report).1,
        ¬ Distrusted (lastTwo (recorded s.fetcher.peersScores peer ++ given scores peer))
  | _ => True

/-- No peer with a report in the table is untrustworthy. -/
def ReportersTrusted (f : ReplicationFetcher) : Prop :=
  ∀ report, ∀ peer ∈ (reporters f.initialReplicates report).1,
    f.isPeerTrustworthy peer ≠ some false

theorem reporters_run (h : peer ∈ (reporters (call.run c now f).initialReplicates report).1) :
    peer ∈ (reporters f.initialReplicates report).1 ∨
      (call.Reports peer report ∧ f.isPeerTrustworthy peer ≠ some false) := by
  obtain ⟨peers, t, hlookup, hpeer⟩ := mem_reporters.mp h
  rcases FetcherCall.accumulated_cases (FetcherCall.accumulated_of_run hlookup) with
    ⟨hbefore, -⟩ | ⟨holder, hreports, htrust, hsingle, -⟩
  · exact .inl (mem_reporters.mpr ⟨peers, t, hbefore, hpeer⟩)
  · rw [hsingle] at hpeer
    obtain rfl := mem_singleton.mp hpeer
    exact .inr ⟨hreports, htrust⟩

theorem isPeerTrustworthy_congr {g : ReplicationFetcher} (h : g.peersScores = f.peersScores)
    (peer : PeerId) : g.isPeerTrustworthy peer = f.isPeerTrustworthy peer := by
  rw [isPeerTrustworthy, h, isPeerTrustworthy]

theorem ReportersTrusted.run (h : ReportersTrusted s.fetcher)
    (hguard : ReportersStayTrusted s (.call call)) :
    ReportersTrusted (call.run c now s.fetcher) := by
  intro report peer hpeer
  by_cases hscores : ∃ rank scores, call = .addPeerScores rank scores
  · obtain ⟨rank, scores, rfl⟩ := hscores
    intro htrust
    rw [FetcherCall.run, addPeerScores_frame] at hpeer
    exact hguard report peer hpeer (distrusted_of_addPeerScores htrust)
  · have hkept : (call.run c now s.fetcher).peersScores = s.fetcher.peersScores :=
      run_peersScores fun rank scores heq => hscores ⟨rank, scores, heq⟩
    rw [isPeerTrustworthy_congr hkept]
    rcases reporters_run hpeer with hbefore | ⟨-, htrust⟩
    · exact h report peer hbefore
    · exact htrust

/-- Enough peers have reported the record, and none of them is untrustworthy now. -/
def TrustedMajority (s : FetcherState) (call : FetcherCall) (report : Report) : Prop :=
  ∃ holders : Finset PeerId, closeGroupSize / 2 ≤ holders.card ∧
    ∀ holder ∈ holders, s.fetcher.isPeerTrustworthy holder ≠ some false ∧
      (call.Reports holder report ∨ ∃ e ∈ s.past, e.call.Reports holder report)

/-- **Majorities are of peers still trusted, and nothing is queued to be fetched from an
untrustworthy one**, in a run in which scores turn no peer untrustworthy whose report is in the
table. -/
theorem majority_trusted
    (hrun : GuardedRun (FetcherState.step c) ReportersStayTrusted (.init selfPeerId) labels s) :
    (∀ peer, (peer, report) ∈ call.byMajority c s.clock s.fetcher → TrustedMajority s call report) ∧
      (call.Inserts c s.clock s.fetcher k → s.fetcher.isPeerTrustworthy k.2.2 ≠ some false) := by
  have hbacked := backed_of_run hrun
  have htrusted : ReportersTrusted s.fetcher := by
    refine hrun.invariant (I := fun s => ReportersTrusted s.fetcher) ?_ ?_
    · intro s label s' hs hguard hstep
      cases label with
      | tick duration =>
        cases hstep
        exact hs
      | call call =>
        cases hstep
        exact hs.run hguard
    · intro report peer hpeer
      cases hpeer
  -- whoever is in a majority is trusted now
  have hmajority : ∀ {report peer}, (peer, report) ∈ call.byMajority c s.clock s.fetcher →
      ∃ holders : Finset PeerId, closeGroupSize / 2 ≤ holders.card ∧ peer ∈ holders ∧
        ∀ holder ∈ holders, s.fetcher.isPeerTrustworthy holder ≠ some false ∧
          (call.Reports holder report ∨ ∃ e ∈ s.past, e.call.Reports holder report) := by
    intro report peer hpeer
    obtain ⟨holders, hcard, hmem, hholders⟩ := exists_majority hpeer
    refine ⟨holders, hcard, hmem, fun holder hholder => ?_⟩
    rcases hholders holder hholder with ⟨hreports, htrust⟩ | hwaiting
    · exact ⟨htrust, .inl hreports⟩
    · obtain ⟨later, e, earlier, hpast, hreports, -⟩ := hbacked.reportedSince hwaiting
      refine ⟨htrusted report holder hwaiting, .inr ⟨e, ?_, hreports⟩⟩
      rw [hpast]
      exact mem_append_right later mem_cons_self
  constructor
  · intro peer hpeer
    obtain ⟨holders, hcard, -, hholders⟩ := hmajority hpeer
    exact ⟨holders, hcard, hholders⟩
  · intro hinsert
    obtain ⟨address, holder, -, -, ⟨hholder, htrust⟩ | hpeer⟩ := FetcherCall.inserts_cases hinsert
    · rw [hholder, htrust]
      simp
    · obtain ⟨holders, -, hmem, hholders⟩ := hmajority hpeer
      exact (hholders k.2.2 hmem).1

theorem majority_trusted_sample :
    ∃ s, GuardedRun (FetcherState.step .simple) ReportersStayTrusted (.init [])
        [.call (sampleReport [10]), .call (.addPeerScores (fun _ => 0) [([10], true)])] s ∧
      ([10], .recordKey [5], .chunk) ∈ (sampleReport [11]).byMajority .simple s.clock s.fetcher ∧
      TrustedMajority s (sampleReport [11]) (.recordKey [5], .chunk) := by
  have hreached : ∃ s, GuardedRun (FetcherState.step .simple) ReportersStayTrusted (.init [])
        [.call (sampleReport [10]), .call (.addPeerScores (fun _ => 0) [([10], true)])] s ∧
      ([10], .recordKey [5], .chunk) ∈
        (sampleReport [11]).byMajority .simple s.clock s.fetcher := by
    refine ⟨_, .cons trivial rfl (.cons ?_ rfl (.nil _)), by decide⟩
    -- one score is not enough to distrust anybody
    intro report peer _ hdistrust
    have hrecorded : recorded ((sampleReport [10]).run .simple 0 (.new [])).peersScores peer = [] := by
      rfl
    have hgiven : (given [(([10] : PeerId), true)] peer).length ≤ 1 := by
      rw [given, length_map]
      exact length_filter_le _ _
    have hlength : (lastTwo (recorded ((sampleReport [10]).run .simple 0 (.new [])).peersScores peer
        ++ given [([10], true)] peer)).length = 2 := hdistrust.1
    rw [hrecorded, nil_append, lastTwo_of_length_le (by omega)] at hlength
    omega
  obtain ⟨s, hrun, hpeer⟩ := hreached
  exact ⟨s, hrun, hpeer, (majority_trusted (k := ([5], .chunk, [10])) hrun).1 [10] hpeer⟩

/-- A peer that has turned out untrustworthy still makes up a majority, and is to be fetched
from. -/
theorem untrustworthy_reporter_counted :
    ∃ s, runSteps (FetcherState.step .simple) (.init [])
        [.call (sampleReport [10]),
          .call (.addPeerScores (fun _ => 0) [([10], false), ([10], false)])] = some s ∧
      s.fetcher.isPeerTrustworthy [10] = some false ∧
      ([10], .recordKey [5], .chunk) ∈ (sampleReport [11]).byMajority .simple s.clock s.fetcher ∧
      ¬ TrustedMajority s (sampleReport [11]) (.recordKey [5], .chunk) ∧
      (sampleReport [11]).Inserts .simple s.clock s.fetcher ([5], .chunk, [10]) := by
  have huntrusted : ((FetcherCall.addPeerScores (fun _ => 0) [([10], false), ([10], false)]).run
      .simple 0 ((sampleReport [10]).run .simple 0 (.new []))).isPeerTrustworthy [10]
        = some false := by decide
  refine ⟨_, rfl, huntrusted, by decide, ?_, by decide, by decide⟩
  rintro ⟨holders, hcard, hholders⟩
  have hsingle : ∀ holder ∈ holders, holder = [11] := by
    intro holder hholder
    obtain ⟨htrust, ⟨rfl, -⟩ | ⟨e, he, hreports⟩⟩ := hholders holder hholder
    · rfl
    · rcases mem_cons.mp he with rfl | he
      · cases hreports
      · obtain rfl := mem_singleton.mp he
        obtain ⟨rfl, -⟩ := hreports
        exact absurd huntrusted htrust
  have hone : holders.card ≤ 1 :=
    Finset.card_le_one.mpr fun a ha b hb => (hsingle a ha).trans (hsingle b hb).symm
  exact absurd (hcard.trans hone) (by decide)

/-! ### Who sends the reports -/

/-- The list names the peer that sends it as the holder. -/
def NamesItself (c : Crypto) : SwarmState → SwarmLabel → Prop
  | _, .replicate _ _ request => request.holder.asPeerId c = some request.peer
  | _, _ => True

/-- A connected peer has sent a request with the record. -/
def SentBy (received : List ReplicateRequest) (peer : PeerId) (report : Report) : Prop :=
  ∃ request ∈ received, request.peer = peer ∧ report ∈ request.keys

theorem SentBy.cons {received : List ReplicateRequest} (h : SentBy received peer report)
    (request : ReplicateRequest) : SentBy (request :: received) peer report := by
  obtain ⟨earlier, hmem, hsent⟩ := h
  exact ⟨earlier, mem_cons_of_mem request hmem, hsent⟩

/-- The call a list leads to is about the holder it names, and nobody else. -/
theorem addKeysToReplicationFetcher_reports {rank : PendingKey → Nat} {view : SwarmView}
    {sender : NetworkAddress} {incomingKeys : List Report} {isFreshReplicate : Bool}
    (hcall : addKeysToReplicationFetcher c rank selfPeerId view sender incomingKeys isFreshReplicate
      = some call) (hreports : call.Reports peer report) :
    isFreshReplicate = false ∧ sender.asPeerId c = some peer ∧ report ∈ incomingKeys := by
  unfold addKeysToReplicationFetcher at hcall
  cases hsender : sender.asPeerId c with
  | none =>
    rw [hsender] at hcall
    cases hcall
  | some holder =>
    rw [hsender] at hcall
    have haddKeys : call = .addKeys rank holder incomingKeys view.recordAddresses
        isFreshReplicate ((getClosestLocalPeersToSelf selfPeerId view
          replicationSenderCloseGroupThreshold).map .peerId) := by
      dsimp only at hcall
      split at hcall
      · split at hcall
        · cases hcall
        · split at hcall
          · cases hcall
          · exact (Option.some.inj hcall).symm
      · exact (Option.some.inj hcall).symm
    subst haddKeys
    cases isFreshReplicate with
    | true => cases hreports
    | false =>
      obtain ⟨rfl, hmem⟩ := hreports
      exact ⟨rfl, rfl, hmem⟩

/-- Every reporter in the table has sent a request itself. -/
def ReportersSent (s : SwarmState) : Prop :=
  ∀ report, ∀ peer ∈ (reporters s.fetcher.initialReplicates report).1,
    SentBy s.received peer report

theorem ReportersSent.step {s s' : SwarmState} {label : SwarmLabel} (h : ReportersSent s)
    (hguard : NamesItself c s label) (hstep : s.step c label = some s') : ReportersSent s' := by
  cases label with
  | tick duration =>
    cases hstep
    exact h
  | replicate rank view request =>
    cases hstep
    intro report peer hpeer
    unfold SwarmState.afterCall at hpeer
    split at hpeer
    · rename_i call hcall
      rcases reporters_run hpeer with hbefore | ⟨hreports, -⟩
      · exact (h report peer hbefore).cons request
      · obtain ⟨-, hholder, hmem⟩ := addKeysToReplicationFetcher_reports hcall hreports
        have hsender : some request.peer = some peer := hguard.symm.trans hholder
        exact ⟨request, mem_cons_self, Option.some.inj hsender, hmem⟩
    · exact (h report peer hpeer).cons request
  | addFreshReplicateRecords rank view holder keys =>
    cases hstep
    intro report peer hpeer
    unfold SwarmState.afterCall at hpeer
    split at hpeer
    · rename_i call hcall
      rcases reporters_run hpeer with hbefore | ⟨hreports, -⟩
      · exact h report peer hbefore
      · obtain ⟨hfresh, -⟩ := addKeysToReplicationFetcher_reports hcall hreports
        cases hfresh
    · exact h report peer hpeer
  | command call =>
    intro report peer hpeer
    rw [SwarmState.step] at hstep
    split at hstep
    · cases hstep
    · rename_i hother
      cases hstep
      rcases reporters_run hpeer with hbefore | ⟨hreports, -⟩
      · exact h report peer hbefore
      · cases call with
        | addKeys => exact absurd rfl hother
        | _ => cases hreports

/-- **A majority takes reports from distinct connected peers**, in a run in which every list names
its sender. -/
theorem majority_from_distinct_peers {labels : List SwarmLabel} {s : SwarmState}
    (hrun : GuardedRun (SwarmState.step c) (NamesItself c) (.init selfPeerId) labels s)
    {rank : PendingKey → Nat} {view : SwarmView} {request : ReplicateRequest}
    (hself : NamesItself c s (.replicate rank view request))
    (hcall : addKeysToReplicationFetcher c rank s.fetcher.selfPeerId view request.holder
      request.keys false = some call)
    {peer : PeerId} (hmajority : (peer, report) ∈ call.byMajority c s.clock s.fetcher) :
    ∃ peers : Finset PeerId, closeGroupSize / 2 ≤ peers.card ∧
      ∀ peer ∈ peers, SentBy (request :: s.received) peer report := by
  have hsent : ReportersSent s := by
    refine hrun.invariant (fun s label s' => ReportersSent.step) ?_
    intro report peer hpeer
    cases hpeer
  obtain ⟨holders, hcard, -, hholders⟩ := exists_majority hmajority
  refine ⟨holders, hcard, fun other hother => ?_⟩
  rcases hholders other hother with ⟨hreports, -⟩ | hearlier
  · obtain ⟨-, hholder, hmem⟩ := addKeysToReplicationFetcher_reports hcall hreports
    have hsender : some request.peer = some other := hself.symm.trans hholder
    exact ⟨request, mem_cons_self, Option.some.inj hsender, hmem⟩
  · exact (hsent report other hearlier).cons request

def sampleView : SwarmView := ⟨[[10], [11]], false, ∅⟩

def sampleRequest (peer holder : PeerId) : ReplicateRequest :=
  ⟨peer, .peerId holder, [(.recordKey [5], .chunk)]⟩

theorem majority_from_distinct_peers_sample :
    ∃ s call, GuardedRun (SwarmState.step .simple) (NamesItself .simple) (.init [])
        [.replicate (fun _ => 0) sampleView (sampleRequest [10] [10])] s ∧
      addKeysToReplicationFetcher .simple (fun _ => 0) s.fetcher.selfPeerId sampleView (.peerId [11])
        [(.recordKey [5], .chunk)] false = some call ∧
      ∃ peers : Finset PeerId, 2 ≤ peers.card ∧
        ∀ peer ∈ peers, SentBy (sampleRequest [11] [11] :: s.received) peer
          (.recordKey [5], .chunk) := by
  have hrun : GuardedRun (SwarmState.step .simple) (NamesItself .simple) (.init [])
      [.replicate (fun _ => 0) sampleView (sampleRequest [10] [10])] _ := .cons rfl rfl (.nil _)
  have hself : ∀ s, NamesItself .simple s
    (.replicate (fun _ => 0) sampleView (sampleRequest [11] [11])) := fun _ => rfl
  exact ⟨_, _, hrun, rfl, majority_from_distinct_peers hrun (hself _) rfl
    (show (([10] : PeerId), _) ∈ FetcherCall.byMajority _ _ _ _ by decide)⟩

/-- One peer makes a majority alone, by naming two others as holders. -/
theorem one_peer_makes_majority :
    ∃ s call, runSteps (SwarmState.step .simple) (.init [])
        [.replicate (fun _ => 0) sampleView (sampleRequest [9] [10])] = some s ∧
      addKeysToReplicationFetcher .simple (fun _ => 0) s.fetcher.selfPeerId sampleView
        (sampleRequest [9] [11]).holder (sampleRequest [9] [11]).keys false = some call ∧
      ([10], .recordKey [5], .chunk) ∈ call.byMajority .simple s.clock s.fetcher ∧
      call.Inserts .simple s.clock s.fetcher ([5], .chunk, [10]) ∧
      ∀ request ∈ sampleRequest [9] [11] :: s.received, request.peer = [9] :=
  ⟨_, _, rfl, rfl, by decide, ⟨by decide, by decide⟩, by decide⟩

/-! ### Which peers are tracked -/

namespace ReplicationFetcher

def history (given : List (Time × PeerId × Bool)) (peer : PeerId) : List (Time × Bool) :=
  (given.filter (·.2.1 = peer)).map fun score => (score.1, score.2.2)

/-- Each peer that is tracked has its latest scores.  The others were last scored before all of
these, and these are as many as can be tracked. -/
structure Tracks (given : List (Time × PeerId × Bool)) (t : PeersScores) : Prop where
  latest : ∀ peer entry, t.lookup peer = some entry →
    ((history given peer).map Prod.fst).getLast? = some entry.2 ∧
      entry.1.1 <:+ (history given peer).map Prod.snd
  recent : ∀ peer seen, ((history given peer).map Prod.fst).getLast? = some seen → peer ∉ t →
    maxScoredPeers ≤ t.entries.length ∧
      ∀ other entry, t.lookup other = some entry → seen ≤ entry.2

/-- There is at most one peer too many, and then one was last scored before the pruning. -/
def ScoresCall.Fits (call : ScoresCall) (t : PeersScores) : Prop :=
  t.entries.length ≤ maxScoredPeers + 1 ∧
    (maxScoredPeers < t.entries.length → ∃ e ∈ t.entries, e.2.2 < call.now)

variable {given : List (Time × PeerId × Bool)} {t : PeersScores} {call : ScoresCall}

theorem Tracks.add (h : Tracks given t) {scored : PeerId} {isHealthy : Bool}
    (hclock : ∀ score ∈ given, score.1 ≤ now) :
    Tracks (given ++ [(now, scored, isHealthy)]) (addPeerScore now t (scored, isHealthy)) := by
  have hother : ∀ peer ≠ scored,
      history (given ++ [(now, scored, isHealthy)]) peer = history given peer := by
    intro peer hne
    simp [history, hne.symm]
  constructor
  · intro peer entry hlookup
    by_cases hpeer : peer = scored
    · subst hpeer
      rw [addPeerScore, AList.lookup_insert] at hlookup
      cases hlookup
      have hpush : history (given ++ [(now, peer, isHealthy)]) peer =
          history given peer ++ [(now, isHealthy)] := by simp [history]
      rw [hpush, map_append, map_append, push_eq_lastTwo]
      refine ⟨getLast?_concat, (drop_suffix _ _).trans ?_⟩
      cases hl : t.lookup peer with
      | none => exact suffix_append _ _
      | some entry =>
        obtain ⟨before, hbefore⟩ := (h.latest peer entry hl).2
        exact ⟨before, by rw [← hbefore, append_assoc]; rfl⟩
    · rw [addPeerScore, AList.lookup_insert_ne hpeer] at hlookup
      rw [hother peer hpeer]
      exact h.latest peer entry hlookup
  · intro peer seen hseen hmem
    obtain ⟨hpeer, hmem⟩ := not_or.mp (mt (AList.mem_insert _).mpr hmem)
    rw [hother peer hpeer] at hseen
    obtain ⟨hfull, hleast⟩ := h.recent peer seen hseen hmem
    constructor
    · change _ ≤ (t.erase scored).entries.length + 1
      rw [Table.length_erase]
      split <;> omega
    · intro other entry hlookup
      by_cases hsame : other = scored
      · subst hsame
        rw [addPeerScore, AList.lookup_insert] at hlookup
        cases hlookup
        have hgiven := mem_of_getLast? hseen
        simp only [history, map_map, mem_map, mem_filter] at hgiven
        obtain ⟨score, ⟨hscore, -⟩, rfl⟩ := hgiven
        exact hclock score hscore
      · rw [addPeerScore, AList.lookup_insert_ne hsame] at hlookup
        exact hleast other entry hlookup

theorem Tracks.scored (h : Tracks given t)
    (hclock : (given ++ call.scores).Pairwise (·.1 ≤ ·.1)) :
    Tracks (given ++ call.scores) (call.scored t) := by
  unfold ScoresCall.scored
  generalize call.scores = scores at hclock ⊢
  induction scores generalizing given t with
  | nil => rwa [append_nil]
  | cons score scores ih =>
    rw [append_cons] at hclock ⊢
    refine ih (h.add fun earlier hmem => ?_) hclock
    exact (pairwise_append.mp (pairwise_append.mp hclock).1).2.2 earlier hmem score mem_cons_self

theorem Tracks.prune (h : Tracks given t) (hfits : call.Fits t) :
    Tracks given (call.prune t) ∧ (call.prune t).entries.length ≤ maxScoredPeers := by
  unfold ScoresCall.prune addPeerScores
  dsimp only [foldl_nil]
  split
  · rename_i hmany
    obtain ⟨hleast, hfound⟩ := foldl_least Prod.fst Prod.snd call.now
      ((t.entries.map fun e => (e.1, e.2.2)).insertionSort
        fun a b => call.rank a.1 ≤ call.rank b.1) rfl
    simp only [mem_insertionSort, mem_map, forall_exists_index, and_imp,
      forall_apply_eq_imp_iff₂] at hleast hfound
    rcases hfound with ⟨hnone, hbound⟩ | ⟨_, ⟨e, he, rfl⟩, hsome, htime⟩
    · rw [hbound] at hleast
      obtain ⟨e, he, hlt⟩ := hfits.2 hmany
      exact absurd (hleast e he) (not_le.mpr hlt)
    · rw [oldestPeer, hsome]
      have hlookup : t.lookup e.1 = some e.2 := AList.mem_lookup_iff.mpr he
      have hfull : (t.erase e.1).entries.length = maxScoredPeers := by
        have hone := hfits.1
        rw [Table.length_erase, if_pos (Table.mem_iff_lookup.mpr ⟨_, hlookup⟩)]
        omega
      have hkept : ∀ {other entry}, (t.erase e.1).lookup other = some entry →
          t.lookup other = some entry := by
        intro other entry hl
        rwa [AList.lookup_erase_ne] at hl
        rintro rfl
        rw [AList.lookup_erase] at hl
        cases hl
      refine ⟨⟨fun q entry hl => h.latest q entry (hkept hl), fun q seen hseen hq => ?_⟩, hfull.le⟩
      refine ⟨hfull.ge, fun other entry hl => ?_⟩
      by_cases hqe : q = e.1
      · subst hqe
        cases (h.latest _ _ hlookup).1.symm.trans hseen
        exact htime.trans_le (hleast _ (AList.mem_lookup_iff.mp (hkept hl)))
      · exact (h.recent q seen hseen fun hmem => hq (AList.mem_erase.mpr ⟨hqe, hmem⟩)).2
          other entry (hkept hl)
  · rename_i hfew
    exact ⟨h, not_lt.mp hfew⟩

/-- **The peers scored last are tracked**, twenty at most and each with its latest scores, if no
call leaves more than one too many. -/
theorem scores_tracked (calls : List ScoresCall)
    (hclock : (calls.flatMap ScoresCall.scores).Pairwise (·.1 ≤ ·.1))
    (hfits : ∀ before call after, calls = before ++ call :: after →
      call.Fits (call.scored (scoresAfter before))) :
    Tracks (calls.flatMap ScoresCall.scores) (scoresAfter calls) ∧
      (scoresAfter calls).entries.length ≤ maxScoredPeers := by
  induction calls using List.reverseRecOn with
  | nil => exact ⟨⟨nofun, nofun⟩, Nat.zero_le _⟩
  | append_singleton calls call ih =>
    rw [flatMap_append, flatMap_singleton] at hclock ⊢
    rw [scoresAfter, foldl_append, foldl_cons, foldl_nil]
    have hbefore := ih (pairwise_append.mp hclock).1 fun before c after h =>
      hfits before c (after ++ [call]) (by simp [h])
    exact (hbefore.1.scored hclock).prune (hfits calls call [] rfl)

theorem scores_tracked_sample :
    Tracks [(1, [10], true)] (scoresAfter [⟨[(1, [10], true)], fun _ => 0, 2⟩]) :=
  (scores_tracked [⟨[(1, [10], true)], fun _ => 0, 2⟩] (by simp) fun before call after h => by
    match before with
    | [] =>
      cases h
      exact ⟨by decide, by decide⟩
    | _ :: _ => simp at h).1

/-- One call with two new peers too many. -/
theorem scores_not_bounded :
    (scoresAfter [⟨(range 22).map fun i => (i, [i.toUInt8], true), fun _ => 0, 22⟩]).entries.length
      = 21 := by
  decide +kernel

end ReplicationFetcher

end Autonomi
