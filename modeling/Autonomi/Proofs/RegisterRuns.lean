/-
Histories of registers.

If nothing fails, the history of a register is the list of the values that were written,
and if something does, two more calls are enough for one to succeed.

Both need payments that fit.
-/
import Autonomi.Proofs.RegisterChain
import Autonomi.Proofs.WalletPayments

namespace Autonomi

open Lib List

namespace Client

open Fallible (attempt fromExcept mapError)

/-! ### Updates one after the other -/

def registerUpdates (client : Client) (owner : SecretKey) :
    List (RegisterValue × PaymentOption) → ClientM RegisterError Unit
  | [] => pure ()
  | (value, paymentOption) :: updates => do
    let _ ← client.registerUpdate owner value paymentOption
    registerUpdates client owner updates

namespace Network

variable {client : Client} {net : Network client} {owner : SecretKey}
  {base : RecordKey → Option RecordValue} {paymentOption : PaymentOption}

theorem fits_of_covers (hkeys : client.crypto.KeysAgree) {w : World}
    {links : List Link} {names : List XorName}
    (h : Represents client owner base w ⟨links, false⟩ names)
    (hcovers : paymentOption.Covers [client.entryName owner links]) :
    paymentOption.Fits client (client.crypto.blsPublicKey owner) w := by
  cases paymentOption with
  | wallet wallet => trivial
  | receipt own =>
    intro address haddress
    obtain ⟨before, link, after, hlinks, hlength, hhead⟩ := h.head
    obtain rfl : after = [] := eq_nil_of_length_eq_zero hlength
    have hnext := nextAddress_eq hkeys hhead (h.entry before link [] hlinks)
    rw [← show links = before ++ [link] from hlinks, haddress] at hnext
    rw [Option.some.inj hnext, h.ends]
    exact iff_of_true (hcovers _ (mem_singleton_self _)) rfl

theorem run_registerUpdates (hkeys : client.crypto.KeysAgree) :
    ∀ (updates : List (RegisterValue × PaymentOption)) (links : List Link) (drawn : Nat)
      (w : World), w.drawn.length = drawn + 1 →
      client.entryName owner links = net.drawnName owner drawn →
      Represents client owner base w ⟨links, false⟩
        (net.upcoming owner (drawn + 1) updates.length) →
      updates.Forall₂ (fun update name => update.2.Covers [name])
        (net.upcoming owner drawn updates.length) →
      (∀ update ∈ updates, net.Reliable update.2 w.clock) →
      ∃ w' links', net.run (client.registerUpdates owner updates) w = (.ok (), w') ∧
        Represents client owner base w' ⟨links', false⟩ [] ∧
        links'.map Link.value = links.map Link.value ++ updates.map Prod.fst := by
  intro updates
  induction updates with
  | nil =>
    intro links drawn w _ _ hrepresents _ _
    exact ⟨w, links, rfl, hrepresents, (append_nil _).symm⟩
  | cons update updates ih =>
    intro links drawn w hdrawn hname hrepresents hcovers hreliable
    obtain ⟨value, paymentOption⟩ := update
    obtain ⟨hcover, hcovers⟩ := forall₂_cons.mp hcovers
    rw [← hname] at hcover
    rw [← hdrawn] at hrepresents
    obtain ⟨r, w₁, s', hrun, hupdate, hrepresents₁, hdrawn₁, hclock⟩ :=
      registerUpdate_updates hkeys hrepresents (fits_of_covers hkeys hrepresents hcover) value
    obtain ⟨hok, rfl⟩ := hupdate.completes (hreliable _ mem_cons_self)
    obtain ⟨cost, rfl⟩ := Checks.isOk_iff.mp hok
    rw [hdrawn] at hdrawn₁ hrepresents₁
    obtain ⟨w', links', hrest, hrepresents', hvalues⟩ := ih _ (drawn + 1) w₁ hdrawn₁
      (net.entryName_drawn hkeys owner links value (drawn + 1)) hrepresents₁ hcovers
      fun update hmem => (hreliable update (mem_cons_of_mem _ hmem)).mono hclock
    refine ⟨w', links', (Fallible.runIn_bind_of_ok hrun).trans hrest, hrepresents', ?_⟩
    rw [hvalues, map_append, append_assoc]
    rfl

variable (net owner) in
/-- **The history of a register is what was written to it.**  If nothing fails, creating a register
and updating it succeeds, its history yields the values in order, and its value is the last. -/
theorem register_history_eq (hkeys : client.crypto.KeysAgree) (w : World)
    (first : RegisterValue × PaymentOption) (updates : List (RegisterValue × PaymentOption))
    (hunused : w.Unused (client.rootName owner :: client.headName owner ::
      net.upcoming owner w.drawn.length (updates.length + 1)))
    (hreliable : ∀ call ∈ first :: updates, net.Reliable call.2 w.clock)
    (hfirst : first.2.Covers [client.rootName owner, client.headName owner])
    (hupdates : updates.Forall₂ (fun update name => update.2.Covers [name])
      (net.upcoming owner w.drawn.length updates.length)) :
    ∃ w', net.run (do
        let _ ← client.registerCreate owner first.1 first.2
        client.registerUpdates owner updates) w = (.ok (), w') ∧
      (∀ steps, updates.length + 1 < steps → ∃ w'',
        net.run (RegisterHistory.collect client steps
          (registerHistory (client.crypto.blsPublicKey owner))) w'
            = (.ok (some (first.1 :: updates.map Prod.fst)), w'')) ∧
      ∃ w'', net.run (client.registerGet (client.crypto.blsPublicKey owner)) w'
        = (.ok ((first.1 :: updates.map Prod.fst).getLast (by simp)), w'') := by
  have hname := net.entryName_drawn hkeys owner [] first.1 w.drawn.length
  rw [upcoming, ← hname] at hunused
  obtain ⟨r, w₁, hcreate, hdrawn, hclock, hrepresents, hok⟩ :=
    net.run_registerCreate hunused first.2
  have hcreated := hok (hreliable first mem_cons_self) hfirst
  obtain ⟨result, rfl⟩ := Checks.isOk_iff.mp hcreated
  obtain ⟨w', links, hrun, hrepresents', hvalues⟩ := run_registerUpdates hkeys updates _ _ w₁ hdrawn
    hname (hrepresents hcreated) hupdates fun update hmem =>
      (hreliable update (mem_cons_of_mem _ hmem)).mono hclock
  refine ⟨w', (Fallible.runIn_bind_of_ok hcreate).trans hrun, ?_, ?_⟩
  · intro steps hsteps
    have hlength : links.length < steps := by
      have hcount := congrArg List.length hvalues
      simp at hcount
      omega
    obtain ⟨w'', -, hcollect⟩ :=
      net.run_collectFrom hkeys links [] steps w' hrepresents'.isChain rfl hlength
    rw [hvalues] at hcollect
    exact ⟨w'', hcollect⟩
  · obtain ⟨before, link, after, hlinks, hlength, hhead⟩ := hrepresents'.head
    obtain rfl : after = [] := eq_nil_of_length_eq_zero hlength
    obtain ⟨w'', -, hget⟩ :=
      net.run_registerGet hkeys hhead (hrepresents'.entry before link [] hlinks)
    have hlast : first.1 :: updates.map Prod.fst = before.map Link.value ++ [link.value] := by
      rw [show links = before ++ [link] from hlinks, map_append] at hvalues
      exact hvalues.symm
    simp only [hlast, getLast_append_singleton]
    exact ⟨w'', hget⟩

abbrev sampleWallet : PaymentOption := .wallet ⟨.arbitrumOne⟩

theorem workingNetwork_reliable (time : Nat) : workingNetwork.Reliable sampleWallet time := by
  exact ⟨hashingNetwork_puts polyHash (by decide) time,
    hashingNetwork_puts polyHash (by decide) time, (hashingNetwork_funds polyHash time).pays⟩

theorem sampleClient_keysAgree : sampleClient.crypto.KeysAgree := Crypto.simple_keysAgree

/-- Nothing is stored yet, and the names of some entries to come are different. -/
theorem emptyWorld_unused (draws : Nat) (h : draws ≤ 5) :
    emptyWorld.Unused (sampleClient.rootName (bytes32 7) :: sampleClient.headName (bytes32 7) ::
      workingNetwork.upcoming (bytes32 7) emptyWorld.drawn.length draws) := by
  have hall : emptyWorld.Unused (sampleClient.rootName (bytes32 7) ::
      sampleClient.headName (bytes32 7) :: workingNetwork.upcoming (bytes32 7) 0 5) :=
    ⟨by decide +kernel, fun _ _ => rfl⟩
  obtain ⟨more, hmore⟩ := Nat.exists_eq_add_of_le h
  rw [hmore, upcoming_add] at hall
  exact hall.sublist (((sublist_append_left _ _).cons_cons _).cons_cons _)

/-- A register that is created and updated twice. -/
theorem register_history_eq_sample :
    ∃ w', workingNetwork.run (do
        let _ ← sampleClient.registerCreate (bytes32 7) (bytes32 1) sampleWallet
        sampleClient.registerUpdates (bytes32 7)
          [(bytes32 2, sampleWallet), (bytes32 3, sampleWallet)]) emptyWorld = (.ok (), w') ∧
      (∀ steps, 3 < steps → ∃ w'', workingNetwork.run (RegisterHistory.collect sampleClient steps
        (registerHistory (sampleClient.crypto.blsPublicKey (bytes32 7)))) w'
          = (.ok (some [bytes32 1, bytes32 2, bytes32 3]), w'')) ∧
      ∃ w'', workingNetwork.run
        (sampleClient.registerGet (sampleClient.crypto.blsPublicKey (bytes32 7))) w'
          = (.ok (bytes32 3), w'') := by
  exact workingNetwork.register_history_eq (bytes32 7) sampleClient_keysAgree emptyWorld
    (bytes32 1, sampleWallet) [(bytes32 2, sampleWallet), (bytes32 3, sampleWallet)]
    (emptyWorld_unused _ (by decide)) (by simp [workingNetwork_reliable]) trivial
    (.cons trivial (.cons trivial .nil))

/-! ### Updates that may fail -/

variable (net owner) in
def updateStep (w : World) (call : RegisterValue × PaymentOption) : Option World :=
  some (net.run (client.registerUpdate owner call.1 call.2) w).2

variable (client owner) in
def callFits (w : World) (call : RegisterValue × PaymentOption) : Prop :=
  call.2.Fits client (client.crypto.blsPublicKey owner) w

/-- A register stays represented through any number of calls whose payments fit. -/
theorem represents_of_guardedRun (hkeys : client.crypto.KeysAgree) {w w' : World}
    {calls : List (RegisterValue × PaymentOption)} {draws : Nat}
    (hrun : GuardedRun (net.updateStep owner) (callFits client owner) w calls w')
    {s : RegisterState} (h : Represents client owner base w s
      (net.upcoming owner w.drawn.length (calls.length + draws))) :
    ∃ s', Represents client owner base w' s' (net.upcoming owner w'.drawn.length draws) := by
  induction hrun generalizing s with
  | nil w => exact ⟨s, by simpa using h⟩
  | @cons w w₁ w' call calls hfits hstep _ ih =>
    rw [length_cons, Nat.add_right_comm] at h
    obtain ⟨r, w₂, s₁, hcall, -, hrepresents, hdrawn, -⟩ :=
      registerUpdate_updates hkeys h hfits call.1
    obtain rfl : w₂ = w₁ := by
      rw [updateStep, hcall] at hstep
      exact Option.some.inj hstep
    rw [← hdrawn] at hrepresents
    exact ih hrepresents

theorem succeeds_within_two (hkeys : client.crypto.KeysAgree) {w : World} {s : RegisterState}
    (h : Represents client owner base w s (net.upcoming owner w.drawn.length 2))
    {call₁ call₂ : RegisterValue × PaymentOption} (hreliable₁ : net.Reliable call₁.2 w.clock)
    (hreliable₂ : net.Reliable call₂.2 w.clock) (hfits₁ : callFits client owner w call₁)
    (hfits₂ : callFits client owner (net.run (client.registerUpdate owner call₁.1 call₁.2) w).2
      call₂) :
    (net.run (client.registerUpdate owner call₁.1 call₁.2) w).1.isOk = true ∨
      (net.run (client.registerUpdate owner call₂.1 call₂.2)
        (net.run (client.registerUpdate owner call₁.1 call₁.2) w).2).1.isOk = true := by
  obtain ⟨r₁, w₁, s₁, hcall₁, hupdate₁, hrepresents₁, hdrawn₁, hclock₁⟩ :=
    registerUpdate_updates hkeys h hfits₁ call₁.1
  rw [hcall₁] at hfits₂ ⊢
  obtain ⟨links, behind⟩ := s
  cases behind with
  | false => exact .inl (hupdate₁.completes hreliable₁).1
  | true =>
    obtain rfl := hupdate₁.catchesUp hreliable₁
    rw [← hdrawn₁] at hrepresents₁
    obtain ⟨r₂, w₂, s₂, hcall₂, hupdate₂, -, -, -⟩ :=
      registerUpdate_updates hkeys hrepresents₁ hfits₂ call₂.1
    refine .inr ?_
    rw [hcall₂]
    exact (hupdate₂.completes (hreliable₂.mono hclock₁)).1

variable (net owner) in
/-- **In every run of updates whose payments fit, a register stays a chain without forks**, with
its head pointer at the last entry or the one before, and once nothing fails any more one of two
calls succeeds. -/
theorem register_chain_of_fitting_payments (hkeys : client.crypto.KeysAgree) {w₀ w₁ w : World}
    (first : RegisterValue × PaymentOption) {created : Amount × PublicKey}
    {calls : List (RegisterValue × PaymentOption)}
    (hunused : w₀.Unused (client.rootName owner :: client.headName owner ::
      net.upcoming owner w₀.drawn.length (calls.length + 3)))
    (hcreated : net.run (client.registerCreate owner first.1 first.2) w₀ = (.ok created, w₁))
    (hrun : GuardedRun (net.updateStep owner) (callFits client owner) w₁ calls w) :
    (∃ links, client.IsChain owner w links ∧
      (∃ before link after, links = before ++ link :: after ∧ after.length ≤ 1 ∧
        client.HeadAt owner w before) ∧
      ∀ key, w.store key ≠ w₀.store key → key = (client.headName owner).toList ∨
        ∃ before link after, links = before ++ link :: after ∧
          key = (client.entryName owner before).toList) ∧
    ∀ call₁ call₂ : RegisterValue × PaymentOption,
      net.Reliable call₁.2 w.clock → net.Reliable call₂.2 w.clock →
      callFits client owner w call₁ →
      callFits client owner (net.run (client.registerUpdate owner call₁.1 call₁.2) w).2 call₂ →
      (net.run (client.registerUpdate owner call₁.1 call₁.2) w).1.isOk = true ∨
        (net.run (client.registerUpdate owner call₂.1 call₂.2)
          (net.run (client.registerUpdate owner call₁.1 call₁.2) w).2).1.isOk = true := by
  have hname := net.entryName_drawn hkeys owner [] first.1 w₀.drawn.length
  rw [upcoming, ← hname] at hunused
  obtain ⟨r, w₁', hcreate, hdrawn, -, hrepresents, -⟩ := net.run_registerCreate hunused first.2
  rw [hcreated] at hcreate
  cases hcreate
  have hfirst := hrepresents rfl
  rw [← hdrawn] at hfirst
  obtain ⟨s, hs⟩ := represents_of_guardedRun hkeys hrun hfirst
  refine ⟨⟨s.links, hs.isChain, ?_, hs.elsewhere⟩, fun call₁ call₂ hreliable₁ hreliable₂ =>
    succeeds_within_two hkeys hs hreliable₁ hreliable₂⟩
  obtain ⟨before, link, after, hlinks, hlength, hhead⟩ := hs.head
  refine ⟨before, link, after, hlinks, ?_, hhead⟩
  rw [hlength]
  exact Bool.toNat_le s.behind

theorem exists_sample_created : ∃ created w, workingNetwork.run
      (sampleClient.registerCreate (bytes32 7) (bytes32 1) sampleWallet) emptyWorld
        = (.ok created, w) ∧
      Represents sampleClient (bytes32 7) emptyWorld.store w
        ⟨[⟨bytes32 1, workingNetwork.random 0⟩], false⟩
        (workingNetwork.upcoming (bytes32 7) 1 4) := by
  have hunused := emptyWorld_unused 5 (Nat.le_refl 5)
  obtain ⟨r, w, hrun, -, -, hrepresents, hok⟩ :=
    workingNetwork.run_registerCreate hunused sampleWallet
  have hcreated := hok (workingNetwork_reliable 0) trivial
  obtain ⟨created, rfl⟩ := Checks.isOk_iff.mp hcreated
  exact ⟨created, w, hrun, hrepresents hcreated⟩

/-- One update of a register, paid from a wallet. -/
theorem register_chain_of_fitting_payments_sample : ∃ created w₁ w,
    workingNetwork.run (sampleClient.registerCreate (bytes32 7) (bytes32 1) sampleWallet) emptyWorld
      = (.ok created, w₁) ∧
    GuardedRun (workingNetwork.updateStep (bytes32 7)) (callFits sampleClient (bytes32 7)) w₁
      [(bytes32 2, sampleWallet)] w ∧
    ∃ links, sampleClient.IsChain (bytes32 7) w links ∧
      ∃ before link after, links = before ++ link :: after ∧ after.length ≤ 1 ∧
        sampleClient.HeadAt (bytes32 7) w before := by
  obtain ⟨created, w₁, hcreated, -⟩ := exists_sample_created
  have hrun : GuardedRun (workingNetwork.updateStep (bytes32 7)) (callFits sampleClient (bytes32 7))
      w₁ [(bytes32 2, sampleWallet)] _ := .cons trivial rfl (.nil _)
  obtain ⟨⟨links, hchain, hhead, -⟩, -⟩ := workingNetwork.register_chain_of_fitting_payments
    (bytes32 7) sampleClient_keysAgree (bytes32 1, sampleWallet)
    (emptyWorld_unused _ (by decide)) hcreated hrun
  exact ⟨created, w₁, _, hcreated, hrun, links, hchain, hhead⟩

/-! ### Payments that do not fit -/

/-- Without a proof of payment for the next entry, the pointer is moved to where nothing is. -/
theorem registerUpdate_of_not_proves (hkeys : client.crypto.KeysAgree) {w : World}
    {links : List Link} {names : List XorName}
    (h : Represents client owner base w ⟨links, false⟩ names)
    (hreliable : net.Reliable paymentOption w.clock)
    (hproves : ¬ paymentOption.Proves w (client.entryName owner links)) (value : RegisterValue) :
    ∃ e w', net.run (client.registerUpdate owner value paymentOption) w = (.error e, w') ∧
      client.HeadAt owner w' links ∧
      w'.under client.crypto (client.entryAddress owner links) = none := by
  obtain ⟨before, link, after, hlinks, hlength, hhead⟩ := h.head
  obtain rfl : after = [] := eq_nil_of_length_eq_zero hlength
  obtain rfl : links = before ++ [link] := hlinks
  obtain ⟨_, w₁, rfl, hstore, -, hclock, hrun⟩ := net.run_registerUpdate hkeys hhead
    (linksAt_one (h.entry before link [] rfl)) value paymentOption
  let new := client.linkEntry owner (before ++ [link]) ⟨value, net.random w.drawn.length⟩
  rw [← PaymentOption.proves_congr hstore] at hproves
  rcases net.run_graphEntryPut w₁ paymentOption new with
    ⟨_, _, -, -, hthere, -⟩ | ⟨e, w₂, hput, hstill, ⟨rfl, -⟩ | ⟨-, hfail⟩⟩
  · exact absurd hthere hproves
  · have h₂ := (h.still hstore).still hstill.store
    obtain ⟨_, _, _, -, -, hhead₂⟩ := h₂.head
    obtain ⟨counter, hputs⟩ := net.puts_head hkeys hhead₂ (.graphEntryAddress new.owner)
    rcases hputs with ⟨_, w₃, hmove, hmoved⟩ | ⟨e, w₃, -, -, hfail⟩
    · refine ⟨.corrupt (.pointerNotAtLatest new.owner), w₃, ?_, ⟨counter, hmoved.same⟩, ?_⟩
      · exact hrun.trans ((Fallible.runIn_attempt_bind hput).trans
          (Fallible.runIn_bind_of_ok (Fallible.runIn_mapError_of_ok hmove)))
      · obtain ⟨_, hold⟩ := hhead₂
        refine (hmoved.of_store_ne fun heq => ?_).trans h₂.ends
        exact Option.some_ne_none _ ((heq.trans hold).symm.trans h₂.ends)
    · exact absurd (hfail.mono (hclock.trans hstill.clock)) hreliable.pointers
  · exact absurd ((hfail (hreliable.pays.mono hclock)).mono hclock) hreliable.entries

/-- An update that is paid with an empty receipt leaves the register without a head. -/
theorem register_head_can_be_lost :
    ¬ ∀ (client : Client) (net : Network client) (owner : SecretKey)
      (first : RegisterValue × PaymentOption) (calls : List (RegisterValue × PaymentOption))
      (w₀ w₁ w : World) (created : Amount × PublicKey), client.crypto.KeysAgree →
      w₀.Unused (client.rootName owner :: client.headName owner ::
        net.upcoming owner w₀.drawn.length (calls.length + 3)) →
      net.run (client.registerCreate owner first.1 first.2) w₀ = (.ok created, w₁) →
      GuardedRun (net.updateStep owner) (fun _ _ => True) w₁ calls w →
      ∃ links, client.IsChain owner w links ∧
        ∃ before link after, links = before ++ link :: after ∧ after.length ≤ 1 ∧
          client.HeadAt owner w before := by
  intro hall
  obtain ⟨created, w₁, hcreated, hrepresents⟩ := exists_sample_created
  have hreliable : workingNetwork.Reliable (.receipt ∅) w₁.clock :=
    ⟨(workingNetwork_reliable _).entries, (workingNetwork_reliable _).pointers,
      pays_receipt nofun⟩
  obtain ⟨e, w, hrun, hhead, hnone⟩ := registerUpdate_of_not_proves sampleClient_keysAgree
    hrepresents hreliable (AList.notMem_empty _) (bytes32 2)
  obtain ⟨links, hchain, before, link, after, hlinks, -, hhead'⟩ := hall sampleClient workingNetwork
    (bytes32 7) (bytes32 1, sampleWallet) [(bytes32 2, .receipt ∅)] emptyWorld w₁ w created
    sampleClient_keysAgree (emptyWorld_unused _ (by decide)) hcreated
    (.cons trivial (by rw [updateStep, hrun]) (.nil _))
  have hentry := hchain.entry before link after hlinks
  rw [hhead'.unique hhead, hnone] at hentry
  cases hentry

end Network

end Client

end Autonomi
