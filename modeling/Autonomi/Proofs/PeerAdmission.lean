/-
Which peers a node keeps in its routing table.

Nodes below the minimum version should not be in it.  There are two gaps.  A peer whose
agent string shows no type at all is not turned away: nodes from before versions were
announced are among them.  And a peer that is turned away, or that comes back as a
client, keeps the place it has; only one that changes its protocol is thrown out.
-/
import Autonomi.Lib.Transition
import Autonomi.Node.Identify

namespace Autonomi

open Lib

/-! ### What a peer does to the table -/

/-- The peer has a place in the table, or waits for one. -/
def RoutingTable.Knows (t : RoutingTable) (peer : PeerId) : Prop :=
  peer ∈ t.present ∨ peer ∈ t.pending

def RoutingTable.OnlyFor (peer : PeerId) (t t' : RoutingTable) : Prop :=
  ∀ other, other ≠ peer → t'.Knows other → t.Knows other

namespace RoutingTable

variable {t t' t'' : RoutingTable} {peer : PeerId} {update : RoutingUpdate} {addr : Multiaddr}

theorem OnlyFor.refl : OnlyFor peer t t := fun _ _ h => h

theorem OnlyFor.trans (h : OnlyFor peer t t') (h' : OnlyFor peer t' t'') : OnlyFor peer t t'' :=
  fun other hother hknows => h other hother (h' other hother hknows)

theorem OnlyFor.foldl {f : RoutingTable → Multiaddr → RoutingTable}
    (hf : ∀ t addr, OnlyFor peer t (f t addr)) (addrs : List Multiaddr) :
    ∀ {t : RoutingTable}, OnlyFor peer t (addrs.foldl f t) := by
  induction addrs with
  | nil => exact .refl
  | cons addr addrs ih => exact (hf _ addr).trans ih

theorem onlyFor_addAddress (t : RoutingTable) (addr : Multiaddr) :
    OnlyFor peer t (t.addAddress update peer addr) := by
  intro other hother hknows
  unfold addAddress at hknows
  cases hpresent : t.present.lookup peer with
  | some addrs =>
    rw [hpresent] at hknows
    simpa [Knows, hother] using hknows
  | none =>
    rw [hpresent] at hknows
    cases hpending : t.pending.lookup peer with
    | some addrs =>
      rw [hpending] at hknows
      simpa [Knows, hother] using hknows
    | none =>
      rw [hpending] at hknows
      cases update with
      | success | pending => simpa [Knows, hother] using hknows
      | failed => exact hknows

theorem onlyFor_removeAddress (t : RoutingTable) (addr : Multiaddr) :
    OnlyFor peer t (t.removeAddress peer addr) := by
  intro other hother hknows
  unfold removeAddress at hknows
  cases hpresent : t.present.lookup peer with
  | none =>
    rw [hpresent] at hknows
    exact hknows
  | some addrs =>
    rw [hpresent] at hknows
    dsimp only at hknows
    by_cases hlast : addrs = [addr]
    · rw [if_pos hlast] at hknows
      simpa [Knows, hother, AList.mem_erase] using hknows
    · rw [if_neg hlast] at hknows
      simpa [Knows, hother] using hknows

theorem onlyFor_removePeer : OnlyFor peer t (t.removePeer peer) := by
  intro other hother hknows
  simpa [Knows, removePeer, hother, AList.mem_erase] using hknows

theorem not_knows_removePeer : ¬ (t.removePeer peer).Knows peer := by
  simp [Knows, removePeer, AList.mem_erase]

end RoutingTable

open RoutingTable

section Handle

variable {cfg : PeeringConfig} {s : Peering} {peer : PeerId} {info : IdentifyInfo}
  {addrs : List Multiaddr} {connection : ConnectionId} {now : Nat} {update : RoutingUpdate}

theorem onlyFor_updatePreExistingPeer {t : RoutingTable} {isRelayedPeer : Bool} :
    OnlyFor peer t (updatePreExistingPeer update t peer addrs isRelayedPeer) := by
  unfold updatePreExistingPeer
  cases t.present.lookup peer with
  | none => exact .refl
  | some existing =>
    cases isRelayedPeer with
    | false => exact .foldl onlyFor_addAddress _
    | true =>
      exact OnlyFor.trans (.foldl onlyFor_removeAddress _) (.foldl onlyFor_addAddress _)

theorem routingTable_queueDial {kbucketFull : Bool} :
    (queueDial s peer info addrs kbucketFull now).1.routingTable = s.routingTable := by
  unfold queueDial
  cases s.dialQueue.lookup peer with
  | none => cases kbucketFull <;> rfl
  | some entry => rfl

/-- What is done with a peer of the right protocol and version changes nothing for others, and
nothing for the peer if it is new, unless it is neither a client nor one that checks whether it
can be reached, and the node has dialed it or is local. -/
theorem admitPeer_spec (cfg : PeeringConfig) (s : Peering) (peer : PeerId) (info : IdentifyInfo)
    (addrs : List Multiaddr) (now : Nat) (update : RoutingUpdate) :
    OnlyFor peer s.routingTable (admitPeer cfg s peer info addrs now update).1.routingTable ∧
      ((admitPeer cfg s peer info addrs now update).1.routingTable.Knows peer →
        s.routingTable.Knows peer ∨
          info.agentVersion.includes "reachability-check-peer" = false ∧
            info.agentVersion.includes "client" = false ∧
            (cfg.isLocal = true ∨ peer ∈ s.dialedPeers)) := by
  unfold admitPeer
  by_cases hreach : info.agentVersion.includes "reachability-check-peer" = true
  · rw [if_pos hreach]
    exact ⟨.refl, .inl⟩
  rw [if_neg hreach]
  by_cases hclient : info.agentVersion.includes "client" = true
  · rw [if_pos hclient]
    exact ⟨.refl, .inl⟩
  rw [if_neg hclient]
  cases kbucket cfg s.routingTable peer with
  | none => exact ⟨.refl, .inl⟩
  | some numPeers =>
    dsimp only
    by_cases hpresent : peer ∈ s.routingTable.present
    · rw [if_pos hpresent]
      exact ⟨onlyFor_updatePreExistingPeer, fun _ => .inl (.inl hpresent)⟩
    rw [if_neg hpresent]
    by_cases hdial : (!cfg.isLocal && !s.dialedPeers.contains peer) = true
    · rw [if_pos hdial]
      rw [routingTable_queueDial]
      exact ⟨.refl, .inl⟩
    · rw [if_neg hdial]
      refine ⟨.foldl onlyFor_addAddress _, fun _ => .inr ⟨?_, ?_, ?_⟩⟩
      · exact Bool.eq_false_of_not_eq_true hreach
      · exact Bool.eq_false_of_not_eq_true hclient
      · by_cases hlocal : cfg.isLocal = true
        · exact .inl hlocal
        · refine .inr ?_
          simpa [hlocal] using hdial

def acceptable (minimum : PeerVersion) (agent : Text) : Bool :=
  PeerType.fromAgentString agent = .node &&
    (PeerVersion.parseFromAgentString agent).any fun version => version.meetsMinimum minimum

theorem acceptable_of_not_shouldReject {agent : Text} {minimum : PeerVersion}
    (hnode : PeerType.fromAgentString agent = .node)
    (h : shouldReject .node (checkPeerVersion agent (some minimum)) = false) :
    acceptable minimum agent = true := by
  unfold acceptable
  rw [hnode]
  unfold checkPeerVersion at h
  cases hversion : PeerVersion.parseFromAgentString agent with
  | none =>
    rw [hversion] at h
    dsimp only at h
    split at h <;> cases h
  | some version =>
    rw [hversion] at h
    dsimp only at h
    by_cases hmeets : version.meetsMinimum minimum = true
    · simpa using hmeets
    · rw [if_neg hmeets] at h
      cases h

/-- The types of the two kinds of clients are read off the same words as in the search for
clients later on. -/
theorem fromAgentString_cases {agent : Text}
    (hreach : agent.includes "reachability-check-peer" = false)
    (hclient : agent.includes "client" = false) :
    PeerType.fromAgentString agent = .node ∨ PeerType.fromAgentString agent = .unknown := by
  have hslashes : agent.includes "/client/" = false := by
    refine Bool.eq_false_of_not_eq_true fun hmem => ?_
    have hword : "client".toList <:+: "/client/".toList := by decide
    have hinfix : "client".toList <:+: agent := hword.trans (of_decide_eq_true hmem)
    exact absurd (decide_eq_true hinfix) (Bool.eq_false_iff.mp hclient)
  unfold PeerType.fromAgentString
  rw [hreach, hclient, hslashes]
  by_cases hnode : agent.includes "/node/" = true
  · rw [if_pos hnode]
    exact .inl rfl
  · rw [if_neg hnode]
    exact .inr rfl

/-- The peer is not blocked, is connected, and has another protocol. -/
def ThrownOut (cfg : PeeringConfig) (s : Peering) (peer : PeerId) (info : IdentifyInfo)
    (connection : ConnectionId) : Prop :=
  peer ∉ s.blockedPeers ∧ connection ∈ s.liveConnectedPeers ∧
    info.protocolVersion ≠ cfg.identifyProtocol

/-- What a peer's message does: nothing for others; and if the peer has a place afterwards, it is
not thrown out, and it had one before, is acceptable, or is of no known type and was dialed. -/
theorem handleIdentifyReceived_spec (cfg : PeeringConfig) (s : Peering) (peer : PeerId)
    (info : IdentifyInfo) (connection : ConnectionId) (now : Nat) (update : RoutingUpdate) :
    let after := (handleIdentifyReceived cfg s peer info connection now update).1.routingTable
    OnlyFor peer s.routingTable after ∧
      (after.Knows peer → ¬ ThrownOut cfg s peer info connection ∧
        (s.routingTable.Knows peer ∨ acceptable cfg.minNodeVersion info.agentVersion = true ∨
          PeerType.fromAgentString info.agentVersion = .unknown ∧
            (cfg.isLocal = true ∨ peer ∈ s.dialedPeers))) := by
  unfold handleIdentifyReceived ThrownOut
  by_cases hblocked : peer ∈ s.blockedPeers
  · rw [if_pos hblocked]
    exact ⟨.refl, fun hknows => ⟨fun hout => hout.1 hblocked, .inl hknows⟩⟩
  rw [if_neg hblocked]
  cases hlive : s.liveConnectedPeers.lookup connection with
  | none =>
    refine ⟨.refl, fun hknows => ⟨fun hout => ?_, .inl hknows⟩⟩
    exact AList.lookup_eq_none.mp hlive hout.2.1
  | some from_ =>
    obtain ⟨_, addrFromConnection⟩ := from_
    dsimp only
    by_cases hprotocol : info.protocolVersion ≠ cfg.identifyProtocol
    · rw [if_pos hprotocol]
      exact ⟨onlyFor_removePeer, fun hknows => absurd hknows not_knows_removePeer⟩
    rw [if_neg hprotocol]
    by_cases hreject : shouldReject (PeerType.fromAgentString info.agentVersion)
        (checkPeerVersion info.agentVersion
          (minVersionForCheck cfg (PeerType.fromAgentString info.agentVersion))) = true
    · rw [if_pos hreject]
      exact ⟨.refl, fun hknows => ⟨fun hout => hprotocol hout.2.2, .inl hknows⟩⟩
    · rw [if_neg hreject]
      cases reachedAt info addrFromConnection with
      | none => exact ⟨.refl, fun hknows => ⟨fun hout => hprotocol hout.2.2, .inl hknows⟩⟩
      | some addrs =>
        obtain ⟨honly, hadmitted⟩ := admitPeer_spec cfg s peer info addrs now update
        refine ⟨honly, fun hknows => ⟨fun hout => hprotocol hout.2.2, ?_⟩⟩
        rcases hadmitted hknows with hbefore | ⟨hreach, hclient, hdialed⟩
        · exact .inl hbefore
        refine .inr ?_
        rcases fromAgentString_cases hreach hclient with hnode | hunknown
        · refine .inl (acceptable_of_not_shouldReject hnode ?_)
          rw [hnode] at hreject
          exact Bool.eq_false_of_not_eq_true hreject
        · exact .inr ⟨hunknown, hdialed⟩

end Handle

/-! ### Runs -/

/-- A node's peers, and what each of them last said it runs. -/
structure Watched where
  peering : Peering
  latest : Table PeerId Text

inductive PeeringLabel
  | identifyReceived (peer : PeerId) (info : IdentifyInfo) (connection : ConnectionId) (now : Nat)
      (update : RoutingUpdate)
  /-- Kademlia has found a place for a peer that waited. -/
  | placeFound (peer : PeerId)
  /-- Connections, dials and blocked peers change, and peers leave the table. -/
  | elsewhere (blockedPeers : List PeerId)
      (liveConnectedPeers : Table ConnectionId (PeerId × Multiaddr)) (dialedPeers : List PeerId)
      (dialQueue : Table PeerId DialEntry) (leaving : List PeerId)

namespace RoutingTable

def findPlace (t : RoutingTable) (peer : PeerId) : RoutingTable :=
  match t.pending.lookup peer with
  | some addrs => ⟨t.present.insert peer addrs, t.pending.erase peer⟩
  | none => t

theorem knows_findPlace {t : RoutingTable} {peer other : PeerId}
    (h : (t.findPlace peer).Knows other) : t.Knows other := by
  unfold findPlace at h
  cases hpending : t.pending.lookup peer with
  | none =>
    rw [hpending] at h
    exact h
  | some addrs =>
    rw [hpending] at h
    have hwaits : peer ∈ t.pending := Table.mem_iff_lookup.mpr ⟨_, hpending⟩
    rcases h with hpresent | hwaiting
    · rcases (AList.mem_insert _).mp hpresent with rfl | hbefore
      · exact .inr hwaits
      · exact .inl hbefore
    · exact .inr (AList.mem_erase.mp hwaiting).2

theorem knows_removePeers {leaving : List PeerId} {other : PeerId} : ∀ {t : RoutingTable},
    (leaving.foldl removePeer t).Knows other → t.Knows other := by
  induction leaving with
  | nil => exact id
  | cons peer leaving ih =>
    intro t h
    rcases ih h with hpresent | hpending
    · exact .inl (AList.mem_erase.mp hpresent).2
    · exact .inr (AList.mem_erase.mp hpending).2

end RoutingTable

namespace Watched

def start (s : Peering) : Watched := ⟨{ s with routingTable := ⟨∅, ∅⟩ }, ∅⟩

def step (cfg : PeeringConfig) (w : Watched) : PeeringLabel → Option Watched
  | .identifyReceived peer info connection now update =>
    some ⟨(handleIdentifyReceived cfg w.peering peer info connection now update).1,
      w.latest.insert peer info.agentVersion⟩
  | .placeFound peer =>
    some { w with peering :=
      { w.peering with routingTable := w.peering.routingTable.findPlace peer } }
  | .elsewhere blockedPeers liveConnectedPeers dialedPeers dialQueue leaving =>
    some { w with peering :=
      ⟨blockedPeers, liveConnectedPeers, dialedPeers, dialQueue,
        leaving.foldl RoutingTable.removePeer w.peering.routingTable⟩ }

/-- Peers in the table last said they are nodes of a good version. -/
def OnlyNodes (minimum : PeerVersion) (w : Watched) : Prop :=
  ∀ peer ∈ w.peering.routingTable.present,
    ∃ agent, w.latest.lookup peer = some agent ∧ acceptable minimum agent = true

/-- A peer that is not acceptable is thrown out, or is not in the table nor waits for it and is
not one of no known type that the node has dialed. -/
def Proper (cfg : PeeringConfig) (w : Watched) : PeeringLabel → Prop
  | .identifyReceived peer info connection _ _ =>
    acceptable cfg.minNodeVersion info.agentVersion = true ∨
      ThrownOut cfg w.peering peer info connection ∨
      ¬ w.peering.routingTable.Knows peer ∧
        (PeerType.fromAgentString info.agentVersion = .unknown →
          cfg.isLocal = false ∧ peer ∉ w.peering.dialedPeers)
  | _ => True

/-- Peers that wait for a place are as good as those that have one. -/
def Sound (minimum : PeerVersion) (w : Watched) : Prop :=
  ∀ peer, w.peering.routingTable.Knows peer →
    ∃ agent, w.latest.lookup peer = some agent ∧ acceptable minimum agent = true

variable {cfg : PeeringConfig} {w w' : Watched} {label : PeeringLabel}

theorem Sound.step (h : w.Sound cfg.minNodeVersion) (hproper : w.Proper cfg label)
    (hstep : w.step cfg label = some w') : w'.Sound cfg.minNodeVersion := by
  cases label with
  | identifyReceived peer info connection now update =>
    cases hstep
    obtain ⟨honly, hpeer⟩ := handleIdentifyReceived_spec cfg w.peering peer info connection
      now update
    intro other hknows
    by_cases hother : other = peer
    · subst hother
      refine ⟨info.agentVersion, AList.lookup_insert _, ?_⟩
      obtain ⟨hnotout, hreason⟩ := hpeer hknows
      rcases hproper with hgood | hout | ⟨hnew, hunknown⟩
      · exact hgood
      · exact absurd hout hnotout
      · rcases hreason with hbefore | hgood | ⟨htype, hdialed⟩
        · exact absurd hbefore hnew
        · exact hgood
        · obtain ⟨hlocal, hnotdialed⟩ := hunknown htype
          rw [hlocal] at hdialed
          exact absurd hdialed (by simp [hnotdialed])
    · obtain ⟨agent, hlatest, hgood⟩ := h other (honly other hother hknows)
      exact ⟨agent, (AList.lookup_insert_ne hother).trans hlatest, hgood⟩
  | placeFound peer =>
    cases hstep
    exact fun other hknows => h other (RoutingTable.knows_findPlace hknows)
  | elsewhere blockedPeers liveConnectedPeers dialedPeers dialQueue leaving =>
    cases hstep
    exact fun other hknows => h other (RoutingTable.knows_removePeers hknows)

/-- **In a run of proper steps, the routing table holds nodes of a good version only.** -/
theorem onlyNodes_of_run {s : Peering} {labels : List PeeringLabel}
    (hrun : GuardedRun (step cfg) (Proper cfg) (start s) labels w) :
    w.OnlyNodes cfg.minNodeVersion := by
  have hstart : (start s).Sound cfg.minNodeVersion := by
    rintro peer (hpresent | hpending)
    · exact absurd hpresent (AList.notMem_empty _)
    · exact absurd hpending (AList.notMem_empty _)
  have hsound : w.Sound cfg.minNodeVersion :=
    hrun.invariant (fun _ _ _ h hproper hstep => h.step hproper hstep) hstart
  exact fun peer hpresent => hsound peer (.inl hpresent)

end Watched

namespace Sample

def peering : PeeringConfig where
  crypto := Crypto.simple
  selfPeerId := [1]
  isLocal := false
  identifyProtocol := "ant/1.0/1".toList
  minNodeVersion := minNodeVersion
  isBootstrapPeer _ := false
  hasRelayManager := false

def dialed : Peering where
  blockedPeers := []
  liveConnectedPeers := AList.singleton 0 ([7], [.ip4 0, .udp 0])
  dialedPeers := [[7]]
  dialQueue := ∅
  routingTable := ⟨∅, ∅⟩

/-- The peer identifies itself with an agent string; there is a place for it. -/
def identifiesAs (agent : String) : PeeringLabel :=
  .identifyReceived [7] ⟨"ant/1.0/1".toList, agent.toList, [], []⟩ 0 0 .success

end Sample

namespace Watched

/-- A node of the minimum version comes into the table. -/
theorem onlyNodes_of_run_sample :
    ∃ w, GuardedRun (step Sample.peering) (Proper Sample.peering) (start Sample.dialed)
        [Sample.identifiesAs "ant/node/1.0/0.4.15/1"] w ∧
      [7] ∈ w.peering.routingTable.present ∧ w.OnlyNodes minNodeVersion := by
  obtain ⟨w, hstep, hpresent⟩ : ∃ w, step Sample.peering (start Sample.dialed)
      (Sample.identifiesAs "ant/node/1.0/0.4.15/1") = some w ∧
        [7] ∈ w.peering.routingTable.present := ⟨_, rfl, by decide⟩
  have hrun : GuardedRun (step Sample.peering) (Proper Sample.peering) (start Sample.dialed)
      [Sample.identifiesAs "ant/node/1.0/0.4.15/1"] w :=
    .cons (.inl (by decide)) hstep (.nil w)
  exact ⟨w, hrun, hpresent, onlyNodes_of_run hrun⟩

/-- A node from before versions were announced comes into the table, and a node that has a place
keeps it when it comes back with an old version. -/
theorem not_always_onlyNodes :
    (∃ w, runSteps (step Sample.peering) (start Sample.dialed)
        [Sample.identifiesAs "ant/1.0/1"] = some w ∧ ¬ w.OnlyNodes minNodeVersion) ∧
    ∃ w, runSteps (step Sample.peering) (start Sample.dialed)
        [Sample.identifiesAs "ant/node/1.0/0.4.15/1", Sample.identifiesAs "ant/node/1.0/0.4.9/1"]
          = some w ∧ ¬ w.OnlyNodes minNodeVersion := by
  refine ⟨⟨_, rfl, fun honly => ?_⟩, _, rfl, fun honly => ?_⟩
  · obtain ⟨agent, hlatest, hgood⟩ := honly [7] (by decide)
    cases hlatest.symm.trans (AList.lookup_insert _)
    exact absurd hgood (by decide)
  · obtain ⟨agent, hlatest, hgood⟩ := honly [7] (by decide)
    obtain rfl := Option.some.inj (hlatest.symm.trans (AList.lookup_insert _))
    exact absurd hgood (by decide)

end Watched

end Autonomi
