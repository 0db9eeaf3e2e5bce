/-
No address is lost on the way to the caller, and no source is left out.

All addresses stand in a line: those the calls have returned, those `new` has collected,
the queue and the channel.  The line is always what the sources have delivered.  Of the
fetches a node is configured for, those that were started come first and those that
remain follow, and a fetch is under way, or its event in the channel, exactly while
`fetch_in_progress` says so.
-/
import Autonomi.Bootstrap.Bootstrap

namespace Autonomi

open Lib List

variable {A : Type}

/-! ### What a round does -/

section Rounds

variable {peerIdOf : A → Option PeerId} {b : Bootstrap A}

theorem extendWithAddrs_eq (b : Bootstrap A) (addrs : List A) :
    b.extendWithAddrs peerIdOf addrs =
      { b with
        addrs := b.addrs ++ addrs
        bootstrapPeerIds := (b.extendWithAddrs peerIdOf addrs).bootstrapPeerIds } := by
  induction addrs generalizing b with
  | nil =>
    rw [append_nil]
    rfl
  | cons addr addrs ih =>
    show (b.pushAddr peerIdOf addr).extendWithAddrs peerIdOf addrs = _
    rw [ih, append_cons]
    rfl

variable {addrs : List A}

theorem extendWithAddrs_addrs : (b.extendWithAddrs peerIdOf addrs).addrs = b.addrs ++ addrs := by
  rw [extendWithAddrs_eq]

theorem extendWithAddrs_fetchInProgress :
    (b.extendWithAddrs peerIdOf addrs).fetchInProgress = b.fetchInProgress := by
  rw [extendWithAddrs_eq]

theorem extendWithAddrs_pendingTargets :
    (b.extendWithAddrs peerIdOf addrs).pendingTargets = b.pendingTargets := by
  rw [extendWithAddrs_eq]
  rfl

/-- An event adds its addresses and ends the fetch; endpoints are given up only when none is
left. -/
theorem processEvent_eq (peerIdOf : A → Option PeerId) (b : Bootstrap A) (event : FetchEvent A) :
    ∃ contactsProgress peerIds, b.processEvent peerIdOf event =
        ⟨b.addrs ++ event.addrs, b.cachePending, contactsProgress, none, peerIds⟩ ∧
      (contactsProgress = b.contactsProgress ∨
        contactsProgress = none ∧ b.contactsProgress.getD [] = []) := by
  unfold Bootstrap.processEvent
  cases event with
  | cache addrs =>
    cases addrs with
    | nil => exact ⟨_, _, by rw [FetchEvent.addrs, append_nil]; rfl, .inl rfl⟩
    | cons addr addrs =>
      exact ⟨_, _, congrArg (fun b' : Bootstrap A => { b' with fetchInProgress := none })
        (extendWithAddrs_eq b (addr :: addrs)), .inl rfl⟩
  | contacts addrs =>
    dsimp only
    rw [extendWithAddrs_eq]
    split_ifs with hempty
    · refine ⟨none, _, rfl, .inr ⟨rfl, ?_⟩⟩
      cases hcontacts : b.contactsProgress with
      | none => rfl
      | some endpoints =>
        rw [hcontacts] at hempty
        exact isEmpty_iff.mp hempty
    · exact ⟨_, _, rfl, .inl rfl⟩

variable {event : FetchEvent A}

theorem processEvent_addrs : (b.processEvent peerIdOf event).addrs = b.addrs ++ event.addrs := by
  obtain ⟨contactsProgress, peerIds, heq, -⟩ := processEvent_eq peerIdOf b event
  rw [heq]

theorem processEvent_pendingTargets :
    (b.processEvent peerIdOf event).pendingTargets = b.pendingTargets := by
  obtain ⟨contactsProgress, peerIds, heq, hcontacts⟩ := processEvent_eq peerIdOf b event
  rw [heq]
  unfold Bootstrap.pendingTargets
  rcases hcontacts with rfl | ⟨rfl, hnone⟩
  · rfl
  · rw [hnone]
    rfl

/-- What a round does that finds the channel empty. -/
inductive TurnOf (b : Bootstrap A) : Bootstrap A → Option FetchTarget → Turn A → Prop
  | pop (addr : A) (rest : List A) (haddrs : b.addrs = addr :: rest) :
      TurnOf b { b with addrs := rest } none (.done (.ok (some addr)))
  | wait (haddrs : b.addrs = []) (hfetch : b.fetchInProgress.isSome = true) :
      TurnOf b b none (.done (.ok none))
  | cache (haddrs : b.addrs = []) (hfetch : b.fetchInProgress = none)
      (hcache : b.cachePending = true) :
      TurnOf b { b with cachePending := false, fetchInProgress := some .cache } (some .cache)
        .again
  | contacts (endpoint : Url) (rest : List Url) (haddrs : b.addrs = [])
      (hfetch : b.fetchInProgress = none) (hcache : b.cachePending = false)
      (hcontacts : b.contactsProgress = some (endpoint :: rest)) :
      TurnOf b { b with contactsProgress := some rest, fetchInProgress := some .contacts }
        (some (.contacts endpoint)) (.done (.ok none))
  | noContacts (haddrs : b.addrs = []) (hfetch : b.fetchInProgress = none)
      (hcache : b.cachePending = false) (hcontacts : b.contactsProgress = some []) :
      TurnOf b { b with contactsProgress := none } none .again
  | exhausted (haddrs : b.addrs = []) (hfetch : b.fetchInProgress = none)
      (hcache : b.cachePending = false) (hcontacts : b.contactsProgress = none) :
      TurnOf b b none (.done (.error .noBootstrapPeersFound))

theorem turnOf_nextAddrTurn (b : Bootstrap A) :
    TurnOf b b.nextAddrTurn.1 b.nextAddrTurn.2.1 b.nextAddrTurn.2.2 := by
  obtain ⟨addrs, cachePending, contactsProgress, fetchInProgress, peerIds⟩ := b
  cases addrs with
  | cons addr rest => exact .pop addr rest rfl
  | nil =>
    cases fetchInProgress with
    | some kind => exact .wait rfl rfl
    | none =>
      cases cachePending with
      | true => exact .cache rfl rfl rfl
      | false =>
        rcases contactsProgress with _ | _ | ⟨endpoint, rest⟩
        · exact .exhausted rfl rfl rfl rfl
        · exact .noContacts rfl rfl rfl rfl
        · exact .contacts endpoint rest rfl rfl rfl rfl

end Rounds

/-! ### What a step does -/

/-- Every step the node, its tasks or `new` can take. -/
inductive BootstrapStep (peerIdOf : A → Option PeerId) (s : BootstrapRun A) :
    BootstrapLabel A → BootstrapRun A → Prop
  | call (hphase : s.phase = .idle) :
      BootstrapStep peerIdOf s .call { s with phase := .calling .user .draining }
  | receive (caller : Caller A) (event : FetchEvent A) (rest : List (FetchEvent A))
      (hphase : s.phase = .calling caller .draining) (hchannel : s.channel = event :: rest) :
      BootstrapStep peerIdOf s .advance
        { s with channel := rest, bootstrap := s.bootstrap.processEvent peerIdOf event }
  | drained (caller : Caller A) (hphase : s.phase = .calling caller .draining)
      (hchannel : s.channel = []) :
      BootstrapStep peerIdOf s .advance { s with phase := .calling caller .deciding }
  | decided (caller : Caller A) (hphase : s.phase = .calling caller .deciding) :
      BootstrapStep peerIdOf s .advance (s.decideTurn caller)
  | finish (i : Nat) (addrs : List A) (target : FetchTarget)
      (htarget : s.inFlight[i]? = some target) :
      BootstrapStep peerIdOf s (.finish i addrs)
        { s with
          inFlight := s.inFlight.eraseIdx i
          channel := s.channel ++ [target.event addrs]
          delivered := s.delivered ++ addrs }
  | finalized (collected : List A) (refused : Option BootstrapError)
      (hphase : s.phase = .finalizing collected refused)
      (henough : minAddress refused ≤ collected.length) :
      BootstrapStep peerIdOf s .finalize
        { s with bootstrap := s.bootstrap.extendWithAddrs peerIdOf collected, phase := .idle }
  | resumed (collected : List A) (hphase : s.phase = .finalizing collected none)
      (hfew : collected.length < minInitialAddrs) :
      BootstrapStep peerIdOf s .finalize { s with phase := .calling (.new collected) .draining }
  | failed (collected : List A) (e : BootstrapError)
      (hphase : s.phase = .finalizing collected (some e)) (hfew : collected.length < 1) :
      BootstrapStep peerIdOf s .finalize { s with phase := .failed e }
  | timedOut (collected : List A) (hphase : s.phase = .waiting collected) :
      BootstrapStep peerIdOf s (.wake true)
        { s with phase := .finalizing collected (some .noBootstrapPeersFound) }
  | waited (collected : List A) (hphase : s.phase = .waiting collected) :
      BootstrapStep peerIdOf s (.wake false)
        { s with phase := .calling (.new collected) .draining }

variable {label : BootstrapLabel A}

theorem step_cases {peerIdOf : A → Option PeerId} {s s' : BootstrapRun A}
    (h : bootstrapStep peerIdOf s label = some s') :
    BootstrapStep peerIdOf s label s' := by
  obtain ⟨bootstrap, inFlight, channel, phase, delivered, tried, results⟩ := s
  cases label with
  | call =>
    cases phase with
    | idle =>
      cases h
      exact .call rfl
    | _ => cases h
  | advance =>
    cases phase with
    | calling caller point =>
      cases point with
      | draining =>
        cases channel with
        | nil =>
          cases h
          exact .drained caller rfl rfl
        | cons event rest =>
          cases h
          exact .receive caller event rest rfl rfl
      | deciding =>
        cases h
        exact .decided caller rfl
    | _ => cases h
  | finish i addrs =>
    obtain ⟨target, htarget, rfl⟩ := Option.map_eq_some_iff.mp h
    exact .finish i addrs target htarget
  | finalize =>
    cases phase with
    | finalizing collected refused =>
      unfold bootstrapStep Bootstrap.tryFinalizeInitialAddrs at h
      by_cases hfew : collected.length < minAddress refused
      · simp only [if_pos hfew] at h
        cases refused with
        | none =>
          cases h
          exact .resumed collected rfl hfew
        | some e =>
          cases h
          exact .failed collected e rfl hfew
      · simp only [if_neg hfew] at h
        cases h
        exact .finalized collected refused rfl (not_lt.mp hfew)
    | _ => cases h
  | wake timedOut =>
    cases phase with
    | waiting collected =>
      cases timedOut with
      | true =>
        cases h
        exact .timedOut collected rfl
      | false =>
        cases h
        exact .waited collected rfl
    | _ => cases h

/-! ### What is where -/

def Caller.collected : Caller A → List A
  | .new collected => collected
  | .user => []

def BootstrapPhase.collected : BootstrapPhase A → List A
  | .calling caller _ => caller.collected
  | .finalizing collected _ => collected
  | .waiting collected => collected
  | .failed _ => []
  | .idle => []

def handedOut : Except BootstrapError (Option A) → List A
  | .ok addr => addr.toList
  | .error _ => []

/-- All addresses there are, in the order in which they come up. -/
def BootstrapRun.line (s : BootstrapRun A) : List A :=
  s.returned ++ s.phase.collected ++ (s.bootstrap.addrs ++ s.channel.flatMap FetchEvent.addrs)

def BootstrapRun.ahead (s : BootstrapRun A) : List FetchTarget :=
  s.inFlight ++ s.bootstrap.pendingTargets

def Turn.handedOut : Turn A → List A
  | .again => []
  | .done result => Autonomi.handedOut result

namespace TurnOf

variable {b b' : Bootstrap A} {spawned : Option FetchTarget} {turn : Turn A}
  (h : TurnOf b b' spawned turn)

include h

theorem addrs : b.addrs = turn.handedOut ++ b'.addrs := by
  cases h with
  | pop addr rest haddrs => exact haddrs
  | wait | cache | contacts | noContacts | exhausted => rfl

theorem fetching :
    b'.fetchInProgress.toList.length =
      b.fetchInProgress.toList.length + spawned.toList.length := by
  cases h with
  | pop | wait | noContacts | exhausted => rfl
  | cache _ hfetch _ | contacts _ _ _ hfetch _ _ => rw [hfetch]; rfl

theorem pendingTargets : b.pendingTargets = spawned.toList ++ b'.pendingTargets := by
  unfold Bootstrap.pendingTargets
  cases h with
  | pop | wait | exhausted => rfl
  | cache _ _ hcache => rw [hcache]; rfl
  | contacts _ _ _ _ hcache hcontacts
  | noContacts _ _ hcache hcontacts => rw [hcache, hcontacts]; rfl

end TurnOf

section Line

variable {peerIdOf : A → Option PeerId} {s : BootstrapRun A}

theorem FetchTarget.addrs_event {target : FetchTarget} : (target.event addrs).addrs = addrs := by
  cases target <;> rfl

/-- A result goes to what was returned, or joins what `new` has collected. -/
theorem returned_answer (s : BootstrapRun A) (result : Except BootstrapError (Option A))
    (caller : Caller A) :
    (s.answer result caller).returned ++ (s.answer result caller).phase.collected =
      s.returned ++ caller.collected ++ handedOut result := by
  cases caller with
  | user =>
    show (s.results ++ [result]).filterMap _ ++ [] = s.returned ++ [] ++ handedOut result
    rw [filterMap_append, append_nil, append_nil]
    rcases result with e | _ | addr <;> rfl
  | new collected =>
    rcases result with e | _ | addr
    · exact (append_nil _).symm
    · exact (append_nil _).symm
    · exact (append_assoc _ _ _).symm

/-- A round that found the channel empty, as the whole node sees it. -/
structure Decided (s : BootstrapRun A) (caller : Caller A) (spawned : Option FetchTarget)
    (turn : Turn A) (s' : BootstrapRun A) : Prop where
  turnOf : TurnOf s.bootstrap s'.bootstrap spawned turn
  inFlight : s'.inFlight = s.inFlight ++ spawned.toList
  tried : s'.tried = s.tried ++ spawned.toList
  channel : s'.channel = s.channel
  delivered : s'.delivered = s.delivered
  handed : s'.returned ++ s'.phase.collected =
    s.returned ++ caller.collected ++ turn.handedOut

theorem decided_decideTurn (s : BootstrapRun A) (caller : Caller A) :
    Decided s caller s.bootstrap.nextAddrTurn.2.1 s.bootstrap.nextAddrTurn.2.2
      (s.decideTurn caller) := by
  unfold BootstrapRun.decideTurn
  have hturn := turnOf_nextAddrTurn s.bootstrap
  generalize s.bootstrap.nextAddrTurn = outcome at hturn
  obtain ⟨bootstrap, spawned, turn⟩ := outcome
  cases turn with
  | again => exact ⟨hturn, rfl, rfl, rfl, rfl, (append_nil _).symm⟩
  | done result =>
    have handed := returned_answer
      { s with
        bootstrap
        inFlight := s.inFlight ++ spawned.toList
        tried := s.tried ++ spawned.toList } result caller
    cases caller with
    | user => exact ⟨hturn, rfl, rfl, rfl, rfl, handed⟩
    | new collected =>
      rcases result with e | _ | addr
      · exact ⟨hturn, rfl, rfl, rfl, rfl, handed⟩
      · exact ⟨hturn, rfl, rfl, rfl, rfl, handed⟩
      · exact ⟨hturn, rfl, rfl, rfl, rfl, handed⟩

/-- What a step does to the line and to the fetches ahead. -/
inductive LineStep (s s' : BootstrapRun A) : BootstrapLabel A → Prop
  | same (label : BootstrapLabel A) (hline : s'.line = s.line) (hahead : s'.ahead = s.ahead)
      (hdelivered : s'.delivered = s.delivered) : LineStep s s' label
  | delivery (i : Nat) (addrs : List A) (target : FetchTarget)
      (htarget : s.inFlight[i]? = some target) (hline : s'.line = s.line ++ addrs)
      (hahead : s'.ahead = s.inFlight.eraseIdx i ++ s.bootstrap.pendingTargets)
      (hdelivered : s'.delivered = s.delivered ++ addrs) : LineStep s s' (.finish i addrs)
  | putBack (collected : List A) (refused : Option BootstrapError)
      (hphase : s.phase = .finalizing collected refused)
      (henough : minAddress refused ≤ collected.length)
      (hline : s'.line = s.returned ++
        (s.bootstrap.addrs ++ collected ++ s.channel.flatMap FetchEvent.addrs))
      (hahead : s'.ahead = s.ahead) (hdelivered : s'.delivered = s.delivered) :
      LineStep s s' .finalize

theorem lineStep_decide {caller : Caller A} (hphase : s.phase = .calling caller .deciding) :
    LineStep s (s.decideTurn caller) .advance := by
  have h := decided_decideTurn s caller
  refine .same _ ?_ ?_ h.delivered
  · unfold BootstrapRun.line
    rw [h.handed, h.channel, hphase, h.turnOf.addrs]
    simp only [append_assoc]
    rfl
  · unfold BootstrapRun.ahead
    rw [h.inFlight, h.turnOf.pendingTargets, append_assoc]

/-- A step that only changes the phase, and not what `new` has collected. -/
theorem lineStep_phase {phase : BootstrapPhase A}
    (hcollected : phase.collected = s.phase.collected) : LineStep s { s with phase } label := by
  refine .same _ ?_ rfl rfl
  show s.returned ++ phase.collected ++ _ = _
  rw [hcollected]
  rfl

theorem lineStep_receive {event : FetchEvent A} {rest : List (FetchEvent A)}
    (hchannel : s.channel = event :: rest) :
    LineStep s { s with channel := rest, bootstrap := s.bootstrap.processEvent peerIdOf event }
      .advance := by
  refine .same _ ?_ ?_ rfl
  · show s.returned ++ s.phase.collected ++ (_ ++ _) = _
    rw [processEvent_addrs, BootstrapRun.line, hchannel, flatMap_cons,
      append_assoc s.bootstrap.addrs]
  · show s.inFlight ++ _ = _
    rw [processEvent_pendingTargets]
    rfl

theorem lineStep_finish {i : Nat} {target : FetchTarget} (htarget : s.inFlight[i]? = some target) :
    LineStep s
      { s with
        inFlight := s.inFlight.eraseIdx i
        channel := s.channel ++ [target.event addrs]
        delivered := s.delivered ++ addrs } (.finish i addrs) := by
  refine .delivery i addrs target htarget ?_ rfl rfl
  unfold BootstrapRun.line
  rw [flatMap_append, flatMap_singleton, FetchTarget.addrs_event]
  simp only [append_assoc]
  rfl

theorem lineStep_putBack {collected : List A} {refused : Option BootstrapError}
    (hphase : s.phase = .finalizing collected refused)
    (henough : minAddress refused ≤ collected.length) :
    LineStep s
      { s with bootstrap := s.bootstrap.extendWithAddrs peerIdOf collected, phase := .idle }
      .finalize := by
  refine .putBack collected refused hphase henough ?_ ?_ rfl
  · show s.returned ++ [] ++ (_ ++ _) = _
    rw [extendWithAddrs_addrs, append_nil]
  · show s.inFlight ++ _ = _
    rw [extendWithAddrs_pendingTargets]
    rfl

theorem lineStep_of_step {s' : BootstrapRun A}
    (hstep : BootstrapStep peerIdOf s label s') : LineStep s s' label := by
  cases hstep with
  | call hphase => exact lineStep_phase (by rw [hphase]; rfl)
  | receive caller event rest hphase hchannel => exact lineStep_receive hchannel
  | drained caller hphase hchannel => exact lineStep_phase (by rw [hphase]; rfl)
  | decided caller hphase => exact lineStep_decide hphase
  | finish i addrs target htarget => exact lineStep_finish htarget
  | finalized collected refused hphase henough => exact lineStep_putBack hphase henough
  | resumed collected hphase hfew => exact lineStep_phase (by rw [hphase]; rfl)
  | failed collected e hphase hfew =>
    refine lineStep_phase ?_
    rw [hphase]
    exact (length_eq_zero_iff.mp (Nat.lt_one_iff.mp hfew)).symm
  | timedOut collected hphase
  | waited collected hphase => exact lineStep_phase (by rw [hphase]; rfl)

end Line

/-! ### The books -/

structure Accounted (targets : List FetchTarget) (s : BootstrapRun A) : Prop where
  addresses : s.delivered.Perm s.line
  fetching : s.inFlight.length + s.channel.length = s.bootstrap.fetchInProgress.toList.length
  targets : s.tried ++ s.bootstrap.pendingTargets = targets

section Steps

variable {peerIdOf : A → Option PeerId} {targets : List FetchTarget} {s s' : BootstrapRun A}
  {label : BootstrapLabel A}

theorem perm_of_lineStep (h : s.delivered.Perm s.line) (hstep : LineStep s s' label) :
    s'.delivered.Perm s'.line := by
  cases hstep with
  | same _ hline _ hdelivered =>
    rw [hline, hdelivered]
    exact h
  | delivery i addrs target _ hline _ hdelivered =>
    rw [hline, hdelivered]
    exact h.append_right addrs
  | putBack collected refused hphase _ hline _ hdelivered =>
    rw [hline, hdelivered]
    refine h.trans ?_
    unfold BootstrapRun.line
    rw [hphase, append_assoc, ← append_assoc _ s.bootstrap.addrs]
    exact (perm_append_comm.append_right _).append_left _

/-- A fetch is started when none is under way, and over when its event is received. -/
theorem fetching_step (h : s.inFlight.length + s.channel.length =
      s.bootstrap.fetchInProgress.toList.length) (hstep : BootstrapStep peerIdOf s label s') :
    s'.inFlight.length + s'.channel.length = s'.bootstrap.fetchInProgress.toList.length := by
  cases hstep with
  | receive caller event rest hphase hchannel =>
    -- The event was that of the one fetch under way.
    have hone : s.bootstrap.fetchInProgress.toList.length ≤ 1 := by
      cases s.bootstrap.fetchInProgress <;> simp
    rw [hchannel, length_cons] at h
    show s.inFlight.length + rest.length = 0
    omega
  | decided caller hphase =>
    have hdecided := decided_decideTurn s caller
    rw [hdecided.inFlight, hdecided.channel, hdecided.turnOf.fetching, length_append]
    omega
  | finish i addrs target htarget =>
    have hlt : i < s.inFlight.length := (List.getElem?_eq_some_iff.mp htarget).1
    rw [length_eraseIdx_of_lt hlt, length_append, length_singleton, ← h]
    omega
  | finalized collected refused hphase henough =>
    rw [extendWithAddrs_fetchInProgress]
    exact h
  | _ => exact h

theorem targets_step (hstep : BootstrapStep peerIdOf s label s') :
    s'.tried ++ s'.bootstrap.pendingTargets = s.tried ++ s.bootstrap.pendingTargets := by
  cases hstep with
  | receive caller event rest hphase hchannel => rw [processEvent_pendingTargets]
  | decided caller hphase =>
    have hdecided := decided_decideTurn s caller
    rw [hdecided.tried, append_assoc, ← hdecided.turnOf.pendingTargets]
  | finalized collected refused hphase henough => rw [extendWithAddrs_pendingTargets]
  | _ => rfl

theorem accounted_step (h : Accounted targets s) (hstep : BootstrapStep peerIdOf s label s') :
    Accounted targets s' :=
  ⟨perm_of_lineStep h.addresses (lineStep_of_step hstep), fetching_step h.fetching hstep,
    (targets_step hstep).trans h.targets⟩

end Steps

/-! ### The start of a run -/

section Start

variable {env : BootstrapEnv A} {config : BootstrapConfig A} {start : BootstrapRun A}

structure AtStart (env : BootstrapEnv A) (config : BootstrapConfig A) (s : BootstrapRun A) :
    Prop where
  addrs : s.bootstrap.addrs = givenAddrs env config
  noFetch : s.bootstrap.fetchInProgress = none
  inFlight : s.inFlight = []
  channel : s.channel = []
  collected : s.phase.collected = []
  delivered : s.delivered = givenAddrs env config
  tried : s.tried = []
  results : s.results = []
  targets : config.first = false → s.bootstrap.pendingTargets = fetchTargets env config

theorem started_of_new (hnew : bootstrapNew env config = .ok start) :
    ∃ contactsProgress, buildContactsProgress env config = .ok contactsProgress ∧
      start = bootstrapStarted env config contactsProgress := by
  unfold bootstrapNew at hnew
  cases hcontacts : buildContactsProgress env config with
  | error e => rw [hcontacts] at hnew; cases hnew
  | ok contactsProgress =>
    refine ⟨contactsProgress, rfl, ?_⟩
    rw [hcontacts] at hnew
    cases hstore : env.cacheStore with
    | error e => rw [hstore] at hnew; cases hnew
    | ok _ =>
      rw [hstore] at hnew
      split_ifs at hnew with hfirst
      · cases hclear : env.clearCache with
        | error e => rw [hclear] at hnew; cases hnew
        | ok _ =>
          rw [hclear] at hnew
          exact (Except.ok.inj hnew).symm
      · exact (Except.ok.inj hnew).symm

theorem atStart_of_new (hnew : bootstrapNew env config = .ok start) : AtStart env config start := by
  obtain ⟨contactsProgress, hcontacts, rfl⟩ := started_of_new hnew
  refine ⟨extendWithAddrs_addrs, extendWithAddrs_fetchInProgress, rfl, rfl, ?_, rfl, rfl, rfl, ?_⟩
  · unfold bootstrapStarted
    dsimp only
    split_ifs <;> rfl
  · intro hfirst
    show (Bootstrap.extendWithAddrs _ _ _).pendingTargets = _
    rw [extendWithAddrs_pendingTargets, fetchTargets, hcontacts, hfirst]
    cases config.disableCacheReading <;> rfl

theorem AtStart.line_eq {s : BootstrapRun A} (h : AtStart env config s) :
    s.line = givenAddrs env config := by
  have hreturned : s.returned = [] := by
    unfold BootstrapRun.returned
    rw [h.results]
    rfl
  rw [BootstrapRun.line, hreturned, h.collected, h.addrs, h.channel, flatMap_nil,
    append_nil, nil_append, append_nil]

theorem accounted_start (hnew : bootstrapNew env config = .ok start) :
    Accounted start.bootstrap.pendingTargets start := by
  have h := atStart_of_new hnew
  refine ⟨?_, ?_, ?_⟩
  · rw [h.delivered, h.line_eq]
  · rw [h.inFlight, h.channel, h.noFetch]
    rfl
  · rw [h.tried]
    rfl

theorem accounted_run {labels : List (BootstrapLabel A)} {s : BootstrapRun A}
    (hfirst : config.first = false) (hnew : bootstrapNew env config = .ok start)
    (hrun : runSteps (bootstrapStep env.multiaddrGetPeerId) start labels = some s) :
    Accounted (fetchTargets env config) s := by
  have hstart := accounted_start hnew
  rw [(atStart_of_new hnew).targets hfirst] at hstart
  exact (guardedRun_of_runSteps hrun).invariant
    (fun _ _ _ h _ hstep => accounted_step h (step_cases hstep)) hstart

end Start

/-! ### What the books say -/

/-- Every delivered address was returned, every fetch was made, and none is under way. -/
def Exhausted (targets : List FetchTarget) (s : BootstrapRun A) : Prop :=
  s.returned.Perm s.delivered ∧ s.tried = targets ∧ s.inFlight = []

section Books

variable {peerIdOf : A → Option PeerId} {targets : List FetchTarget} {s s' : BootstrapRun A}

theorem Accounted.inFlight_le (h : Accounted targets s) :
    s.inFlight.length + s.channel.length ≤ 1 := by
  rw [h.fetching]
  cases s.bootstrap.fetchInProgress <;> simp

theorem Accounted.returned_subperm (h : Accounted targets s) :
    s.returned.Subperm s.delivered := by
  rw [h.addresses.subperm_left, BootstrapRun.line, append_assoc]
  exact (sublist_append_left _ _).subperm

/-- A deciding call of a user goes on, or returns what the round came to. -/
theorem decideTurn_user (s : BootstrapRun A) :
    (s.bootstrap.nextAddrTurn.2.2 = .again ∧ (s.decideTurn .user).results = s.results ∧
      (s.decideTurn .user).phase = .calling .user .draining) ∨
    ∃ result, s.bootstrap.nextAddrTurn.2.2 = .done result ∧
      (s.decideTurn .user).results = s.results ++ [result] := by
  unfold BootstrapRun.decideTurn
  generalize s.bootstrap.nextAddrTurn = outcome
  obtain ⟨bootstrap, spawned, turn⟩ := outcome
  cases turn with
  | again => exact .inl ⟨rfl, rfl, rfl⟩
  | done result => exact .inr ⟨result, rfl, rfl⟩

theorem decideTurn_new_results (s : BootstrapRun A) (collected : List A) :
    (s.decideTurn (.new collected)).results = s.results := by
  unfold BootstrapRun.decideTurn
  generalize s.bootstrap.nextAddrTurn = outcome
  obtain ⟨bootstrap, spawned, turn⟩ := outcome
  cases turn with
  | again => rfl
  | done result => rcases result with e | _ | addr <;> rfl

variable {label : BootstrapLabel A}

theorem step_results (hstep : BootstrapStep peerIdOf s label s') :
    s'.results = s.results ∨
      s.phase = .calling .user .deciding ∧ s' = s.decideTurn .user := by
  cases hstep with
  | decided caller hphase =>
    cases caller with
    | user => exact .inr ⟨hphase, rfl⟩
    | new collected => exact .inl (decideTurn_new_results s collected)
  | _ => exact .inl rfl

/-- A call that returns an error has found no address and nothing to fetch. -/
theorem decideTurn_error {e : BootstrapError}
    (herror : (s.decideTurn .user).results = s.results ++ [.error e]) :
    (s.decideTurn .user).phase = .idle ∧ (s.decideTurn .user).bootstrap.addrs = [] ∧
      (s.decideTurn .user).bootstrap.fetchInProgress = none ∧
      (s.decideTurn .user).bootstrap.pendingTargets = [] := by
  unfold BootstrapRun.decideTurn at herror ⊢
  have hturn := turnOf_nextAddrTurn s.bootstrap
  generalize s.bootstrap.nextAddrTurn = outcome at hturn herror
  obtain ⟨bootstrap, spawned, turn⟩ := outcome
  cases turn with
  | again => exact absurd herror (by simp)
  | done result =>
    obtain rfl : result = .error e := singleton_inj.mp (append_cancel_left herror)
    cases hturn with
    | exhausted haddrs hfetch hcache hcontacts =>
      refine ⟨rfl, haddrs, hfetch, ?_⟩
      show (if s.bootstrap.cachePending = true then _ else _)
        ++ (s.bootstrap.contactsProgress.getD []).map _ = []
      rw [hcache, hcontacts]
      rfl

theorem exhausted_of_error {e : BootstrapError} (h : Accounted targets s)
    (hstep : BootstrapStep peerIdOf s label s') (herror : s'.results = s.results ++ [.error e]) :
    Exhausted targets s' := by
  obtain ⟨haddresses, hfetching, htargets⟩ := accounted_step h hstep
  rcases step_results hstep with hsame | ⟨-, rfl⟩
  · rw [hsame] at herror
    simp at herror
  · obtain ⟨hphase, haddrs, hfetch, hpending⟩ := decideTurn_error herror
    rw [hfetch] at hfetching
    obtain ⟨hinFlight, hchannel⟩ := Nat.add_eq_zero_iff.mp hfetching
    rw [length_eq_zero_iff] at hinFlight hchannel
    rw [hpending, append_nil] at htargets
    refine ⟨?_, htargets, hinFlight⟩
    have hline : (s.decideTurn .user).line = (s.decideTurn .user).returned := by
      unfold BootstrapRun.line
      rw [hphase, haddrs, hchannel, BootstrapPhase.collected, flatMap_nil, append_nil,
        append_nil, append_nil]
    rw [hline] at haddresses
    exact haddresses.symm

/-! ### Every call ends -/

def BootstrapLabel.isAdvance : BootstrapLabel A → Bool
  | .advance => true
  | _ => false

def BootstrapPhase.due : BootstrapPhase A → Nat
  | .calling _ .draining => 1
  | _ => 0

/-- A bound on what can still be started: the cache, and the endpoints as a whole. -/
def Bootstrap.untried (b : Bootstrap A) : Nat :=
  b.cachePending.toNat + b.contactsProgress.toList.length

def BootstrapRun.remaining (s : BootstrapRun A) : Nat :=
  3 * s.bootstrap.untried + s.inFlight.length + s.channel.length + s.phase.due

theorem processEvent_untried_le (peerIdOf : A → Option PeerId) (b : Bootstrap A)
    (event : FetchEvent A) : (b.processEvent peerIdOf event).untried ≤ b.untried := by
  obtain ⟨contactsProgress, peerIds, heq, hcontacts⟩ := processEvent_eq peerIdOf b event
  rw [heq]
  rcases hcontacts with rfl | ⟨rfl, -⟩
  · exact le_rfl
  · exact Nat.add_le_add_left (Nat.zero_le _) _

/-- A round that goes on has started the cache or given up the endpoints. -/
theorem TurnOf.untried_of_again {b b' : Bootstrap A} {spawned : Option FetchTarget}
    (h : TurnOf b b' spawned .again) :
    b'.untried + 1 = b.untried ∧ spawned.toList.length ≤ 1 := by
  unfold Bootstrap.untried
  cases h with
  | cache _ _ hcache =>
    rw [hcache]
    exact ⟨by simp [Nat.add_comm], le_rfl⟩
  | noContacts _ _ _ hcontacts =>
    rw [hcontacts]
    exact ⟨rfl, Nat.zero_le _⟩

theorem remaining_decideTurn (hphase : s.phase = .calling .user .deciding)
    (hagain : (s.decideTurn .user).results = s.results) :
    (s.decideTurn .user).remaining + 1 ≤ s.remaining := by
  unfold BootstrapRun.remaining
  rw [hphase]
  unfold BootstrapRun.decideTurn at hagain ⊢
  have hturn := turnOf_nextAddrTurn s.bootstrap
  generalize s.bootstrap.nextAddrTurn = outcome at hturn hagain
  obtain ⟨bootstrap, spawned, turn⟩ := outcome
  cases turn with
  | done result => exact absurd hagain (by simp [BootstrapRun.answer])
  | again =>
    obtain ⟨huntried, hspawned⟩ := hturn.untried_of_again
    dsimp only at huntried hspawned
    simp only [length_append, BootstrapPhase.due]
    omega

/-- While a call of a user has not returned it stays a call, and every step of its own is one
less to take. -/
theorem call_step {point : CallPoint} (hphase : s.phase = .calling .user point)
    (hstep : BootstrapStep peerIdOf s label s') (hresults : s'.results = s.results) :
    (∃ point', s'.phase = .calling .user point') ∧
      s'.remaining + label.isAdvance.toNat ≤ s.remaining := by
  cases hstep with
  | call hidle => cases hidle.symm.trans hphase
  | receive caller event rest _ hchannel =>
    refine ⟨⟨point, hphase⟩, ?_⟩
    have huntried := processEvent_untried_le peerIdOf s.bootstrap event
    unfold BootstrapRun.remaining
    rw [hchannel, length_cons]
    simp only [BootstrapLabel.isAdvance, Bool.toNat_true]
    omega
  | drained caller hcalling hchannel =>
    cases hcalling.symm.trans hphase
    refine ⟨⟨.deciding, rfl⟩, ?_⟩
    unfold BootstrapRun.remaining
    rw [hcalling]
    exact le_rfl
  | decided caller hcalling =>
    obtain ⟨rfl, -⟩ := BootstrapPhase.calling.inj (hcalling.symm.trans hphase)
    refine ⟨?_, remaining_decideTurn hcalling hresults⟩
    rcases decideTurn_user s with ⟨-, -, hagain⟩ | ⟨result, -, hdone⟩
    · exact ⟨.draining, hagain⟩
    · rw [hresults] at hdone
      simp at hdone
  | finish i addrs target htarget =>
    refine ⟨⟨point, hphase⟩, ?_⟩
    have hlt : i < s.inFlight.length := (List.getElem?_eq_some_iff.mp htarget).1
    unfold BootstrapRun.remaining
    simp only [length_eraseIdx_of_lt hlt, length_append, length_singleton,
      BootstrapLabel.isAdvance, Bool.toNat_false]
    omega
  | finalized collected refused hfinalizing _ | resumed collected hfinalizing _
  | failed collected e hfinalizing _ => cases hfinalizing.symm.trans hphase
  | timedOut collected hwaiting | waited collected hwaiting => cases hwaiting.symm.trans hphase

theorem results_prefix_step (hstep : BootstrapStep peerIdOf s label s') :
    s.results <+: s'.results := by
  rcases step_results hstep with hsame | ⟨-, rfl⟩
  · rw [hsame]
  · rcases decideTurn_user s with ⟨-, hsame, -⟩ | ⟨result, -, hdone⟩
    · rw [hsame]
    · rw [hdone]
      exact prefix_append _ _

variable {labels : List (BootstrapLabel A)}

theorem results_prefix_run (hrun : runSteps (bootstrapStep peerIdOf) s labels = some s') :
    s.results <+: s'.results :=
  ((guardedRun_of_runSteps hrun).induct (I := fun _ => True)
    (R := fun s s' => s.results <+: s'.results) (fun _ => prefix_rfl) (fun _ _ _ => .trans)
    (fun _ _ _ _ _ hstep => ⟨trivial, results_prefix_step (step_cases hstep)⟩) trivial).2

/-- As long as a call has not returned, it has taken no more steps than there were to take. -/
theorem call_run : ∀ {s t : BootstrapRun A} {point : CallPoint},
    s.phase = .calling .user point → runSteps (bootstrapStep peerIdOf) s labels = some t →
    t.results = s.results → labels.countP BootstrapLabel.isAdvance ≤ s.remaining := by
  induction labels with
  | nil => exact fun _ _ _ => Nat.zero_le _
  | cons label labels ih =>
    intro s t point hphase hrun hresults
    obtain ⟨s', hstep, hrest⟩ := Option.bind_eq_some_iff.mp hrun
    have hstep := step_cases hstep
    -- Results are only added, so none was added by the first step.
    have hfirst : s'.results = s.results := by
      have hle := (results_prefix_run hrest).length_le
      rw [hresults] at hle
      exact ((results_prefix_step hstep).eq_of_length_le hle).symm
    obtain ⟨⟨point', hphase'⟩, hless⟩ := call_step hphase hstep hfirst
    have hmore := ih hphase' hrest (hresults.trans hfirst.symm)
    rw [countP_cons]
    cases hadvance : label.isAdvance with
    | true =>
      rw [hadvance] at hless
      exact (Nat.add_le_add_right hmore 1).trans hless
    | false =>
      rw [hadvance] at hless
      exact hmore.trans hless

theorem Accounted.remaining_le (h : Accounted targets s) : s.remaining ≤ 8 := by
  have hone := h.inFlight_le
  have huntried : s.bootstrap.untried ≤ 2 := by
    unfold Bootstrap.untried
    cases s.bootstrap.cachePending <;> cases s.bootstrap.contactsProgress <;> simp
  have hdue : s.phase.due ≤ 1 := by
    unfold BootstrapPhase.due
    split
    · exact Nat.le_refl 1
    · exact Nat.zero_le 1
  unfold BootstrapRun.remaining
  omega

theorem advance_isSome {caller : Caller A} {point : CallPoint}
    (hphase : s.phase = .calling caller point) :
    (bootstrapStep peerIdOf s .advance).isSome = true := by
  unfold bootstrapStep
  rw [hphase]
  cases point with
  | draining => cases s.channel <;> rfl
  | deciding => rfl

end Books

/--
**`next_addr` hands out every address once and tries every source once.**  After any run of a
node that is not the first: at most one fetch is in flight; what was returned is, occurrence by
occurrence, among what the sources have delivered; a call returns an error only when everything
delivered was returned, the cache (if it is read) and every contacts endpoint were tried exactly
once, in that order, and no fetch is in flight; and a call of `next_addr` can always go on and
returns after eight steps of its own at most, whatever else happens in between.
-/
theorem nextAddr_sound (env : BootstrapEnv A) (config : BootstrapConfig A)
    (start s : BootstrapRun A) (labels : List (BootstrapLabel A)) (hfirst : config.first = false)
    (hnew : bootstrapNew env config = .ok start)
    (hrun : runSteps (bootstrapStep env.multiaddrGetPeerId) start labels = some s) :
    s.inFlight.length ≤ 1 ∧
    s.returned.Subperm s.delivered ∧
    (∀ label s' e, bootstrapStep env.multiaddrGetPeerId s label = some s' →
      s'.results = s.results ++ [.error e] → Exhausted (fetchTargets env config) s') ∧
    ∀ point, s.phase = .calling .user point →
      (bootstrapStep env.multiaddrGetPeerId s .advance).isSome = true ∧
      ∀ more t, runSteps (bootstrapStep env.multiaddrGetPeerId) s more = some t →
        t.results = s.results → more.countP BootstrapLabel.isAdvance ≤ 8 := by
  have h := accounted_run hfirst hnew hrun
  refine ⟨(Nat.le_add_right _ _).trans h.inFlight_le, h.returned_subperm, ?_, ?_⟩
  · intro label s' e hstep herror
    exact exhausted_of_error h (step_cases hstep) herror
  · intro point hphase
    refine ⟨advance_isSome hphase, ?_⟩
    intro more t hmore hresults
    exact (call_run hphase hmore hresults).trans h.remaining_le

namespace Sample

def bootstrapAddr (id : UInt8) : Multiaddr := [.ip4 0, .udp 12000, .quicV1, .p2p [id]]

def bootstrapEnv : BootstrapEnv Multiaddr :=
  .ofMultiaddr (fun _ => none) some none 7 (.ok ()) (.ok ())

def bootstrapConfig : BootstrapConfig Multiaddr where
  backwardsCompatibleWrites := false
  disableCacheWriting := false
  disableCacheReading := false
  disableEnvPeers := false
  first := false
  initialPeers := [bootstrapAddr 1]
  localNetwork := false
  maxCachedPeers := 1500
  maxAddrsPerCachedPeer := 3
  networkContactsUrl := ["http://contacts"]

def bootstrapStart : BootstrapRun Multiaddr where
  bootstrap :=
    { addrs := [bootstrapAddr 1]
      cachePending := true
      contactsProgress := some ["http://contacts"]
      fetchInProgress := none
      bootstrapPeerIds := [[1]] }
  inFlight := []
  channel := []
  phase := .calling (.new []) .draining
  delivered := [bootstrapAddr 1]
  tried := []
  results := []

theorem bootstrapNew_start : bootstrapNew bootstrapEnv bootstrapConfig = .ok bootstrapStart := rfl

def emptyCall : List (BootstrapLabel Multiaddr) := [.advance, .advance]

/-- The cache has one address and the endpoint another; then `new` has tried everything. -/
def collectAll : List (BootstrapLabel Multiaddr) :=
  emptyCall ++ [.finalize] ++ emptyCall ++ emptyCall ++ [.finish 0 [bootstrapAddr 2], .wake false]
    ++ [.advance] ++ emptyCall ++ [.finalize] ++ emptyCall
    ++ [.finish 0 [bootstrapAddr 3], .wake false]
    ++ [.advance] ++ emptyCall ++ [.finalize] ++ emptyCall ++ [.finalize]

/-- Three calls for three addresses, and the call for a fourth has found the channel empty. -/
def callFour : List (BootstrapLabel Multiaddr) :=
  [.call] ++ emptyCall ++ [.call] ++ emptyCall ++ [.call] ++ emptyCall ++ [.call, .advance]

end Sample

open Sample

/-- The call after the last address fails with every source tried. -/
theorem nextAddr_sound_sample :
    ∃ s s' : BootstrapRun Multiaddr,
      runSteps (bootstrapStep Sample.bootstrapEnv.multiaddrGetPeerId) Sample.bootstrapStart
        (Sample.collectAll ++ Sample.callFour) = some s ∧
      bootstrapStep Sample.bootstrapEnv.multiaddrGetPeerId s .advance = some s' ∧
      s'.returned = [Sample.bootstrapAddr 1, Sample.bootstrapAddr 2, Sample.bootstrapAddr 3] ∧
      Exhausted [.cache, .contacts "http://contacts"] s' := by
  have hviews : ((runSteps (bootstrapStep bootstrapEnv.multiaddrGetPeerId)
      bootstrapStart (collectAll ++ callFour)).bind fun s =>
      (bootstrapStep bootstrapEnv.multiaddrGetPeerId s .advance).map fun s' =>
        (s.results, s'.results)) =
      some ([1, 2, 3].map fun id => .ok (some (bootstrapAddr id)),
        ([1, 2, 3].map fun id => .ok (some (bootstrapAddr id))) ++
          [.error .noBootstrapPeersFound]) := by
    decide
  obtain ⟨s, hrun, hviews⟩ := Option.bind_eq_some_iff.mp hviews
  obtain ⟨s', hstep, hviews⟩ := Option.map_eq_some_iff.mp hviews
  obtain ⟨hresults, hresults'⟩ := Prod.mk.inj hviews
  refine ⟨s, s', hrun, hstep, ?_, ?_⟩
  · unfold BootstrapRun.returned
    rw [hresults']
    rfl
  · have hsound := nextAddr_sound bootstrapEnv bootstrapConfig bootstrapStart s
      _ rfl bootstrapNew_start hrun
    refine hsound.2.2.1 .advance s' .noBootstrapPeersFound hstep ?_
    rw [hresults, hresults']

end Autonomi
