/-
Creations that were cut off.

`register_create` puts the first entry of a register and then its head pointer.  Cut off
in between, it leaves the entry stored and the pointer not: `register_update` asks for a
register to be created first, and `register_create` takes the entry to exist already and
does not come to the pointer.  A receipt with proofs of payment for both puts is the
only way out; it makes a fork of the first entry, and an update leads out of the fork.
-/
import Autonomi.Proofs.RegisterRuns

namespace Autonomi.Client

open Lib Lib.Fallible List

/-! ### Calls, one after the other -/

inductive RegisterCall
  | create (value : RegisterValue) (paymentOption : PaymentOption)
  | update (value : RegisterValue) (paymentOption : PaymentOption)

def RegisterCall.paymentOption : RegisterCall → PaymentOption
  | create _ paymentOption => paymentOption
  | update _ paymentOption => paymentOption

namespace Network

variable {client : Client} (net : Network client) (owner : SecretKey)

def afterCall (w : World) : RegisterCall → World
  | .create value paymentOption => (net.run (client.registerCreate owner value paymentOption) w).2
  | .update value paymentOption => (net.run (client.registerUpdate owner value paymentOption) w).2

/-- With calls that are paid for in one of the given ways, a register gets a value. -/
def Recoverable (options : Set PaymentOption) (w : World) : Prop :=
  ∃ calls : List RegisterCall, (∀ call ∈ calls, call.paymentOption ∈ options) ∧
    (net.run (client.registerGet (client.crypto.blsPublicKey owner))
      (calls.foldl (net.afterCall owner) w)).1.isOk = true

end Network

/-! ### Half of a register -/

/-- The first entry is stored and the head pointer is not. -/
structure HalfCreated (client : Client) (owner : SecretKey) (w : World) : Prop where
  root : w.store (client.rootName owner).toList ≠ none
  head : w.store (client.headName owner).toList = none

theorem HalfCreated.still {client : Client} {owner : SecretKey} {w w' : World}
    (h : client.HalfCreated owner w) (hstore : w'.store = w.store) :
    client.HalfCreated owner w' :=
  ⟨by rw [hstore]; exact h.root, by rw [hstore]; exact h.head⟩

namespace Network

variable {client : Client} {net net₀ : Network client} {owner : SecretKey} {w w' : World}
  {paymentOption : PaymentOption} {options : Set PaymentOption}

variable (hkeys : client.crypto.KeysAgree)

include hkeys

theorem headNone
    (h : w.store (client.headName owner).toList = none) :
    w.under client.crypto (client.registerHeadPointerPk (client.crypto.blsPublicKey owner))
      = none := by
  rw [headPointerPk_eq hkeys]
  exact h

variable (hne : client.rootName owner ≠ client.headName owner)

include hne

/-- No call completes half of a register, unless it brings both proofs of payment. -/
theorem halfCreated_afterCall (h : client.HalfCreated owner w) {call : RegisterCall}
    (hunpaid : ∀ own, call.paymentOption = .receipt own →
      client.rootName owner ∈ own → client.headName owner ∉ own) :
    client.HalfCreated owner (net.afterCall owner w call) := by
  cases call with
  | update value paymentOption =>
    obtain ⟨w', hstill, hget⟩ := net.run_pointerGet_none (headNone hkeys h.head)
    have hrun : net.run (client.registerUpdate owner value paymentOption) w
        = (.error .cannotUpdateNewRegister, w') := (runIn_attempt_bind hget).trans rfl
    rw [afterCall, hrun]
    exact h.still hstill.store
  | create value paymentOption =>
    let w₁ := (w.draw (net.random w.drawn.length)).tick
    have h₁ : client.HalfCreated owner w₁ := h.still rfl
    have hentry : (client.linkEntry owner [] ⟨value, net.random w.drawn.length⟩).owner
        = client.crypto.blsPublicKey owner := rfl
    obtain ⟨r, w', hrun, hcreation⟩ := net.run_registerPutFirst hentry hne h₁.head paymentOption
    rw [afterCall, run_registerCreate_eq, hrun]
    cases hcreation with
    | nothing hstill => exact h₁.still hstill.store
    | entryOnly hentry =>
      refine ⟨by rw [hentry.same]; exact Option.some_ne_none _, ?_⟩
      exact (hentry.of_name_ne hne.symm).trans h₁.head
    | both _ _ hroot hhead =>
      cases paymentOption with
      | wallet wallet => exact absurd hroot h₁.root
      | receipt own => exact absurd hhead (hunpaid own rfl hroot)

/-- **Half of a register stays half of one**, however often the owner tries. -/
theorem not_recoverable (h : client.HalfCreated owner w)
    (hunpaid : ∀ own, .receipt own ∈ options →
      client.rootName owner ∈ own → client.headName owner ∉ own) :
    ¬ net.Recoverable owner options w := by
  rintro ⟨calls, hcalls, hok⟩
  have hlast : client.HalfCreated owner (calls.foldl (net.afterCall owner) w) := by
    clear hok
    induction calls generalizing w with
    | nil => exact h
    | cons call calls ih =>
      refine ih ?_ fun c hc => hcalls c (mem_cons_of_mem _ hc)
      exact halfCreated_afterCall hkeys hne h fun own hown =>
        hunpaid own (hown ▸ hcalls call mem_cons_self)
  obtain ⟨w', -, hget⟩ := net.run_pointerGet_none (headNone hkeys hlast.head)
  have hrun : net.run (client.registerGet (client.crypto.blsPublicKey owner)) _
      = (.error (.pointerError (.read (.getError .recordNotFound))), w') :=
    runIn_bind_of_error (runIn_mapError_of_error hget)
  rw [hrun] at hok
  cases hok

omit hne

/-! ### Ways out -/

theorem registerPutHead_of_proves
    (hreliable : net.Reliable paymentOption w.clock) {before links : List Link} (new : Link)
    (hhead : client.HeadAt owner w before)
    (hnone : w.under client.crypto (client.entryAddress owner links) = none)
    (hproves : paymentOption.Proves w (client.entryName owner links)) :
    ∃ cost w', net.run (client.registerPutHead owner (client.linkEntry owner links new)
        paymentOption) w = (.ok cost, w') ∧ client.HeadAt owner w' links ∧
      w'.under client.crypto (client.entryAddress owner links)
        = some (.ofGraphEntries [client.linkEntry owner links new]) := by
  rcases net.run_graphEntryPut w paymentOption (client.linkEntry owner links new) with
    ⟨price, w₁, hput, hstored, -⟩ | ⟨e, w₁, -, -, ⟨-, hnot⟩ | ⟨-, hfail⟩⟩
  · rw [owner_linkEntry, hnone] at hstored
    obtain ⟨counter, hpointer⟩ := hhead
    have hpointer₁ := (hstored.of_store_ne fun heq =>
      Option.some_ne_none _ ((hpointer.symm.trans heq).trans hnone)).trans hpointer
    have hhead₁ : client.HeadAt owner w₁ before := ⟨counter, hpointer₁⟩
    obtain ⟨counter', hputs⟩ := net.puts_head hkeys hhead₁
      (.graphEntryAddress (client.entryAddress owner links))
    rcases hputs with ⟨_, w₂, hmove, hmoved⟩ | ⟨e, w₂, -, -, hfail⟩
    · refine ⟨price, w₂, ?_, ⟨counter', hmoved.same⟩, ?_⟩
      · exact (runIn_attempt_bind hput).trans (runIn_bind_of_ok (runIn_mapError_of_ok hmove))
      · refine (hmoved.of_store_ne fun heq => ?_).trans hstored.same
        have hsame := (heq.symm.trans hstored.same).symm.trans hpointer₁
        cases hsame
    · exact absurd (hfail.mono hstored.clock) hreliable.pointers
  · exact absurd hproves hnot
  · exact absurd (hfail hreliable.pays) hreliable.entries

variable {P : Link → Prop}

/-- With a head pointer at first entries, an update makes a register readable. -/
theorem recoverable_of_linksAt {wallet : Wallet}
    (hwallet : .wallet wallet ∈ options) (hreliable : net.Reliable (.wallet wallet) w.clock)
    (hhead : client.HeadAt owner w []) (hlinks : client.LinksAt owner w [] P)
    (hnone : ∀ link, P link → w.store (client.entryName owner [link]).toList = none) :
    net.Recoverable owner options w := by
  obtain ⟨link, w₁, hP, hstore, -, hclock, hrun⟩ :=
    net.run_registerUpdate hkeys hhead hlinks (Vector.replicate 32 0) (.wallet wallet)
  have hhead₁ : client.HeadAt owner w₁ [] := by
    rw [HeadAt, World.under, hstore]
    exact hhead
  have hnone₁ : w₁.store (client.entryName owner [link]).toList = none := by
    rw [hstore]
    exact hnone link hP
  obtain ⟨cost, w₂, hput, hhead₂, hentry⟩ := registerPutHead_of_proves hkeys
    (hreliable.mono hclock) ⟨Vector.replicate 32 0, net.random w.drawn.length⟩ hhead₁ hnone₁ hnone₁
  obtain ⟨w₃, -, hget⟩ := net.run_registerGet hkeys hhead₂ hentry
  refine ⟨[.update (Vector.replicate 32 0) (.wallet wallet)],
    fun call hcall => by rwa [mem_singleton.mp hcall], ?_⟩
  show (net.run _ (net.run (client.registerUpdate owner _ _) w).2).1.isOk = true
  rw [hrun.trans hput, hget]
  rfl

omit hkeys

theorem linksAt_of_stored {new : Link}
    (hbefore : w.store (client.rootName owner).toList = none ∨ client.LinksAt owner w [] P)
    (hstored : w.Stored (client.rootName owner).toList (Item.takenIn
      (w.store (client.rootName owner).toList) (.graphEntry (client.linkEntry owner [] new))) w') :
    client.LinksAt owner w' [] fun link => P link ∨ link = new := by
  refine ⟨_, hstored.same, ne_nil_of_mem ((BTreeSet.mem_extend _).mpr
    (.inl (mem_singleton_self _))), fun entry hentry => ?_⟩
  rcases (BTreeSet.mem_extend _).mp hentry with hentry | hentry
  · exact ⟨new, .inr rfl, mem_singleton.mp hentry⟩
  · rcases hbefore with hnone | ⟨entries, hunder, -, hlinks⟩
    · rw [hnone] at hentry
      cases hentry
    · rw [show w.store (client.rootName owner).toList = _ from hunder] at hentry
      obtain ⟨link, hP, hlink⟩ := hlinks entry hentry
      exact ⟨link, .inl hP, hlink⟩

/-- A creation that has both proofs of payment, and an update after it, make a register readable. -/
theorem recoverable_of_proves (hkeys : client.crypto.KeysAgree)
    (hne : client.rootName owner ≠ client.headName owner) {wallet : Wallet}
    (hwallet : .wallet wallet ∈ options) (hoption : paymentOption ∈ options)
    (hreliable : ∀ option ∈ options, net.Reliable option w.clock)
    (hroot : paymentOption.Proves w (client.rootName owner))
    (hhead : paymentOption.Proves w (client.headName owner))
    (hnone : w.store (client.headName owner).toList = none)
    (hbefore : w.store (client.rootName owner).toList = none ∨ client.LinksAt owner w [] P)
    (hunused : ∀ link, P link ∨ link.index = net.random w.drawn.length →
      [client.rootName owner, client.headName owner, client.entryName owner [link]].Nodup ∧
        w.store (client.entryName owner [link]).toList = none) :
    net.Recoverable owner options w := by
  let new : Link := ⟨Vector.replicate 32 0, net.random w.drawn.length⟩
  let w₁ := (w.draw new.index).tick
  have hclock : w.clock ≤ w₁.clock := Nat.le_succ _
  have hstore : w₁.store = w.store := rfl
  have hentry : (client.linkEntry owner [] new).owner = client.crypto.blsPublicKey owner := rfl
  obtain ⟨r, w₂, hrun, hcreation⟩ :=
    net.run_registerPutFirst (w := w₁) hentry hne hnone paymentOption
  have hreliable₁ := (hreliable _ hoption).mono hclock
  have hafter : net.afterCall owner w (.create new.value paymentOption) = w₂ :=
    congrArg Prod.snd hrun
  have hclock₂ := hclock.trans hcreation.frame.2
  cases hcreation with
  | nothing hstill hcause =>
    exact absurd ((PaymentOption.proves_congr hstore).mpr hroot) (hcause hreliable₁)
  | entryOnly hentry _ hcause =>
    exact absurd ((PaymentOption.proves_congr hstore).mpr hhead) (hcause hreliable₁)
  | @both _ w₃ _ hentry hpointer =>
    have hlinks : client.LinksAt owner w₂ [] fun link => P link ∨ link = new := by
      obtain ⟨entries, hunder, hlinks⟩ := linksAt_of_stored (w := w₁) hbefore hentry
      exact ⟨entries, (hpointer.of_name_ne hne).trans hunder, hlinks⟩
    have hreadable : net.Recoverable owner options w₂ := by
      refine recoverable_of_linksAt hkeys hwallet ((hreliable _ hwallet).mono hclock₂)
        ⟨0, hpointer.same⟩ hlinks fun link hlink => ?_
      obtain ⟨hnodup, hunder⟩ := hunused link (hlink.imp_right (congrArg Link.index))
      simp only [nodup_cons, mem_cons, not_mem_nil, or_false, not_or] at hnodup
      obtain ⟨⟨-, hnotRoot⟩, hnotHead, -⟩ := hnodup
      rw [hpointer.of_name_ne (Ne.symm hnotHead), hentry.of_name_ne (Ne.symm hnotRoot)]
      exact hunder
    obtain ⟨calls, hcalls, hok⟩ := hreadable
    refine ⟨.create new.value paymentOption :: calls, ?_, ?_⟩
    · intro call hcall
      rcases mem_cons.mp hcall with rfl | hcall
      · exact hoption
      · exact hcalls call hcall
    · rwa [foldl_cons, hafter]

/-! ### Where a creation can be cut off -/

theorem stopped_of_asks_none {ε α : Type} {p : ClientM ε α} (h : Asks (fun _ => False) p)
    (requests : Nat) (w : World) : net.stopped requests p w = w :=
  stopped_invariant (I := (· = w)) h (fun _ _ _ hnone => absurd hnone id) requests rfl

/-- What a creation that was cut off has put. -/
inductive CutOff (client : Client) (owner : SecretKey) (link : Link) (w : World) : World → Prop
  | nothing {w' : World} (hstill : w.Still w') : CutOff client owner link w w'
  | entryOnly {w' : World}
      (hentry : w.Stored (client.rootName owner).toList
        (.ofGraphEntries [client.linkEntry owner [] link]) w') : CutOff client owner link w w'
  | both {w₁ w' : World}
      (hentry : w.Stored (client.rootName owner).toList
        (.ofGraphEntries [client.linkEntry owner [] link]) w₁)
      (hpointer : w₁.Stored (client.headName owner).toList (.ofPointer (.new client.crypto
        client.rmpTarget (client.registerHeadPointerSk owner) 0
        (.graphEntryAddress (client.crypto.blsPublicKey owner)))) w') : CutOff client owner link w w'

variable (net owner) in
theorem cutOff_registerPutFirst (link : Link) (paymentOption : PaymentOption)
    (hunused : w.Unused [client.rootName owner, client.headName owner]) (requests : Nat) :
    CutOff client owner link w (net.stopped requests
      (client.registerPutFirst owner (client.linkEntry owner [] link) paymentOption) w) := by
  have hroot : w.store (client.rootName owner).toList = none := hunused.2 _ (by simp)
  have hne : client.headName owner ≠ client.rootName owner := fun heq =>
    (nodup_cons.mp hunused.1).1 (by simp [heq])
  have hasks := asks_graphEntryPut client (client.linkEntry owner [] link) paymentOption
  have hvalue : Item.takenIn (w.store (client.rootName owner).toList)
      (.graphEntry (client.linkEntry owner [] link))
        = .ofGraphEntries [client.linkEntry owner [] link] := by
    rw [hroot]
    rfl
  refine stopped_bind (fun n => ?_) (fun result w₁ hput m => ?_) requests
  · have hagain : Item.takenIn (some (.ofGraphEntries [client.linkEntry owner [] link]))
        (.graphEntry (client.linkEntry owner [] link))
          = .ofGraphEntries [client.linkEntry owner [] link] :=
      congrArg RecordValue.ofGraphEntries (if_pos (mem_singleton_self _))
    rcases net.stopped_of_mayPut (asks_mapError hasks) n w
      (by rw [owner_linkEntry]; exact hvalue.symm ▸ hagain) with hstill | hstored
    · exact .nothing hstill
    · exact .entryOnly (hvalue ▸ hstored)
  · obtain ⟨price, address⟩ := result
    obtain ⟨haddress, htaken⟩ := stored_of_graphEntryPut (runIn_of_mapError_ok hput)
    obtain rfl : address = client.crypto.blsPublicKey owner := haddress
    have hstored : w.Stored (client.rootName owner).toList
        (.ofGraphEntries [client.linkEntry owner [] link]) w₁ := hvalue ▸ htaken
    have hhead : w₁.store (client.headName owner).toList = none :=
      (hstored.of_name_ne hne).trans (hunused.2 _ (by simp))
    have hpointers := asks_pointerCreate client (client.registerHeadPointerSk owner)
      (.graphEntryAddress (client.crypto.blsPublicKey owner)) paymentOption
    refine stopped_bind (fun n => ?_) (fun result w₂ hpointer m => ?_) m
    · rcases net.stopped_of_mayPut (asks_mapError hpointers) n w₁ rfl with hstill | hpointer
      · exact .entryOnly (hstored.still hstill)
      · exact .both hstored hpointer
    · have hpointer := (net.putsPaid_pointerCreate _ paymentOption hhead).stored
        (runIn_of_mapError_ok hpointer)
      -- adding up the costs asks for nothing
      have hend : net.stopped m (do
          let totalCost ← fromExcept (Checks.okOr (checkedAdd price result.1)
            RegisterError.invalidCost)
          return (totalCost, client.crypto.blsPublicKey owner)) w₂ = w₂ :=
        stopped_of_asks_none (asks_bind asks_fromExcept
          fun _ => asks_pure) m w₂
      exact Eq.subst hend.symm (.both hstored hpointer)

variable (net owner) in
theorem cutOff_registerCreate (value : RegisterValue) (paymentOption : PaymentOption)
    (hunused : w.Unused [client.rootName owner, client.headName owner]) (requests : Nat) :
    ∃ w₁, w₁.store = w.store ∧ CutOff client owner ⟨value, net.random w.drawn.length⟩ w₁
      (net.stopped requests (client.registerCreate owner value paymentOption) w) := by
  refine stopped_bind (I := fun w' => ∃ w₁, w₁.store = w.store ∧
    CutOff client owner ⟨value, net.random w.drawn.length⟩ w₁ w') (fun n => ?_)
    (fun index w₁ hdraw m => ?_) requests
  · refine ⟨_, ?_, .nothing (.refl _)⟩
    match n with
    | 0 | 1 | _ + 2 => rfl
  · cases hdraw
    let w₁ := (w.draw (net.random w.drawn.length)).tick
    have hunused₁ : w₁.Unused [client.rootName owner, client.headName owner] := hunused
    exact ⟨w₁, rfl, net.cutOff_registerPutFirst owner ⟨value, net.random w.drawn.length⟩
      paymentOption hunused₁ m⟩

/-! ### Which creations can be made up for -/

variable (net₀ net owner) in
/-- **A creation that was cut off can be made up for, unless only the first entry was put and there
is no receipt for both.** -/
theorem registerCreate_recoverable_iff (hkeys : client.crypto.KeysAgree) {w₀ : World}
    (value : RegisterValue) (paymentOption : PaymentOption) (requests : Nat)
    (hw : net₀.stopped requests (client.registerCreate owner value paymentOption) w₀ = w)
    (hunused₀ : w₀.Unused [client.rootName owner, client.headName owner,
      net₀.drawnName owner w₀.drawn.length])
    (hunused : w₀.Unused [client.rootName owner, client.headName owner,
      net.drawnName owner w.drawn.length])
    {wallet : Wallet} (hwallet : .wallet wallet ∈ options)
    (hreliable : ∀ option ∈ options, net.Reliable option w.clock) :
    net.Recoverable owner options w ↔
      w.store (client.rootName owner).toList = none ∨
      w.store (client.headName owner).toList ≠ none ∨
      ∃ own, .receipt own ∈ options ∧ client.rootName owner ∈ own ∧ client.headName owner ∈ own := by
  obtain ⟨w₁, hstore, hcut⟩ := net₀.cutOff_registerCreate owner value paymentOption
    (hunused₀.sublist (by simp)) requests
  rw [hw] at hcut
  let link : Link := ⟨value, net₀.random w₀.drawn.length⟩
  have hne : client.rootName owner ≠ client.headName owner := fun heq =>
    (nodup_cons.mp hunused.1).1 (by simp [heq])
  have hroot₁ : w₁.store (client.rootName owner).toList = none := by
    rw [hstore]
    exact hunused.2 _ (by simp)
  have hhead₁ : w₁.store (client.headName owner).toList = none := by
    rw [hstore]
    exact hunused.2 _ (by simp)
  -- the names of the next entries, of the one that may be there and of a new one
  have hfresh : (∀ key, key ≠ (client.rootName owner).toList → w.store key = w₁.store key) →
      ∀ l, link = l ∨ l.index = net.random w.drawn.length →
        [client.rootName owner, client.headName owner, client.entryName owner [l]].Nodup ∧
          w.store (client.entryName owner [l]).toList = none := by
    intro hsame l hl
    have hunusedName : w₀.Unused [client.rootName owner, client.headName owner,
        client.entryName owner [l]] := by
      rw [entryName, show client.entryAddress owner [l] = _ from
        entryAddress_append hkeys owner [] l]
      rcases hl with rfl | hl
      · exact hunused₀
      · rw [hl]
        exact hunused
    obtain ⟨hnodup, hnone⟩ := hunusedName
    refine ⟨hnodup, ?_⟩
    rw [hsame _ fun heq => (nodup_cons.mp hnodup).1 (by simp [Vector.toList_inj.mp heq]), hstore]
    exact hnone _ (by simp)
  cases hcut with
  | nothing hstill =>
    have hroot : w.store (client.rootName owner).toList = none := by rw [hstill.store, hroot₁]
    have hhead : w.store (client.headName owner).toList = none := by rw [hstill.store, hhead₁]
    refine iff_of_true ?_ (.inl hroot)
    exact recoverable_of_proves hkeys hne hwallet hwallet hreliable hroot hhead hhead
      (.inl hroot) (hfresh fun key _ => by rw [hstill.store])
  | entryOnly hentry =>
    have hhead : w.store (client.headName owner).toList = none :=
      (hentry.of_name_ne hne.symm).trans hhead₁
    have hhalf : client.HalfCreated owner w :=
      ⟨by rw [hentry.same]; exact Option.some_ne_none _, hhead⟩
    constructor
    · intro hrecoverable
      by_contra hnot
      refine not_recoverable hkeys hne hhalf (fun own hown hroot hmem => ?_) hrecoverable
      exact hnot (.inr (.inr ⟨own, hown, hroot, hmem⟩))
    · rintro (hnone | hsome | ⟨own, hown, hroot, hmem⟩)
      · exact absurd hnone hhalf.root
      · exact absurd hhead hsome
      · exact recoverable_of_proves hkeys hne hwallet hown hreliable hroot hmem hhead
          (.inr (linksAt_one hentry.same)) (hfresh fun key hkey => hentry.of_ne hkey)
  | both hentry hpointer =>
    have hentry₂ : w.under client.crypto (client.entryAddress owner [])
        = some (.ofGraphEntries [client.linkEntry owner [] link]) :=
      (hpointer.of_name_ne hne).trans hentry.same
    have hat : client.HeadAt owner w [] := ⟨0, hpointer.same⟩
    refine iff_of_true ⟨[], forall_mem_nil _, ?_⟩ (.inr (.inl ?_))
    · obtain ⟨w', -, hget⟩ := net.run_registerGet hkeys hat hentry₂
      rw [foldl_nil, hget]
      rfl
    · rw [hpointer.same]
      exact Option.some_ne_none _

theorem emptyWorld_unusedName : ∀ drawn < 2, emptyWorld.Unused [sampleClient.rootName (bytes32 7),
    sampleClient.headName (bytes32 7), workingNetwork.drawnName (bytes32 7) drawn]
  | 0, _ => emptyWorld_unused 1 (by decide)
  | 1, _ => (emptyWorld_unused 2 (by decide)).sublist
      (.cons_cons _ (.cons_cons _ (.cons _ (.refl _))))

def sampleReceipt : Receipt :=
  ((∅ : Receipt).insert (sampleClient.rootName (bytes32 7)) (⟨[]⟩, 0)).insert
    (sampleClient.headName (bytes32 7)) (⟨[]⟩, 0)

theorem sampleReceipt_reliable (time : Nat) :
    ∀ option ∈ ({sampleWallet, .receipt sampleReceipt} : Set PaymentOption),
      workingNetwork.Reliable option time := by
  rintro option (rfl | rfl)
  · exact workingNetwork_reliable time
  · have hfree : ∀ paid ∈ sampleReceipt.entries, paid.2.2.toNat < 2 ^ 255 := by decide +kernel
    exact ⟨(workingNetwork_reliable time).entries, (workingNetwork_reliable time).pointers,
      pays_receipt fun _ _ _ hlookup => hfree _ (AList.mem_lookup_iff.mp hlookup)⟩

theorem sample_rootName_ne : sampleClient.rootName (bytes32 7) ≠ sampleClient.headName (bytes32 7) := by
  decide +kernel

theorem exists_sample_half : ∃ requests w, workingNetwork.stopped requests
      (sampleClient.registerCreate (bytes32 7) (bytes32 1) sampleWallet) emptyWorld = w ∧
    sampleClient.HalfCreated (bytes32 7) w ∧
    emptyWorld.Unused [sampleClient.rootName (bytes32 7), sampleClient.headName (bytes32 7),
      workingNetwork.drawnName (bytes32 7) w.drawn.length] := by
  let w₁ := (emptyWorld.draw (workingNetwork.random 0)).tick
  let entry (index : Bytes32) := sampleClient.linkEntry (bytes32 7) [] ⟨bytes32 1, index⟩
  rcases workingNetwork.run_graphEntryPut w₁ sampleWallet (entry (workingNetwork.random 0)) with
    ⟨price, w₂, hput, hstored, -⟩ | ⟨e, w₂, -, -, ⟨-, hnot⟩ | ⟨-, hfail⟩⟩
  · have hdraw : workingNetwork.run (Client.random : ClientM RegisterError Bytes32) emptyWorld
        = (.ok (workingNetwork.random 0), w₁) := rfl
    obtain ⟨m, hm⟩ : ∃ m, workingNetwork.stopped m (sampleClient.registerPutFirst (bytes32 7)
        (entry (workingNetwork.random 0)) sampleWallet) w₁ = w₂ :=
      exists_stopped_bind_of_ok (runIn_mapError_of_ok hput) 0
    obtain ⟨requests, hrequests⟩ := exists_stopped_bind_of_ok
      (f := fun index => sampleClient.registerPutFirst (bytes32 7) (entry index) sampleWallet)
      hdraw m
    refine ⟨requests, w₂, hrequests.trans hm, ⟨?_, ?_⟩, ?_⟩
    · exact fun hnone => Option.some_ne_none _ (hstored.same.symm.trans hnone)
    · exact hstored.of_name_ne sample_rootName_ne.symm
    · rw [hstored.drawn]
      exact emptyWorld_unusedName 1 (by decide)
  · exact absurd rfl hnot
  · exact absurd (hfail (workingNetwork_reliable _).pays) (workingNetwork_reliable _).entries

/-- With a receipt for both puts, a creation that was cut off between them is made up for. -/
theorem registerCreate_recoverable_iff_sample : ∃ requests w,
    workingNetwork.stopped requests
      (sampleClient.registerCreate (bytes32 7) (bytes32 1) sampleWallet) emptyWorld = w ∧
    sampleClient.HalfCreated (bytes32 7) w ∧
    workingNetwork.Recoverable (bytes32 7) {sampleWallet, .receipt sampleReceipt} w := by
  obtain ⟨requests, w, hw, hhalf, hunused⟩ := exists_sample_half
  refine ⟨requests, w, hw, hhalf, ?_⟩
  refine (workingNetwork.registerCreate_recoverable_iff workingNetwork (bytes32 7)
    sampleClient_keysAgree (bytes32 1) sampleWallet requests hw (emptyWorld_unusedName 0 (by decide))
    hunused (Set.mem_insert _ _) (sampleReceipt_reliable _)).mpr ?_
  refine .inr (.inr ⟨sampleReceipt, .inr rfl, ?_, ?_⟩)
  · exact (AList.mem_insert _).mpr (.inr ((AList.mem_insert _).mpr (.inl rfl)))
  · exact (AList.mem_insert _).mpr (.inl rfl)

/-- With a wallet alone it is not. -/
theorem registerCreate_can_be_stuck :
    ¬ ∀ (client : Client) (net₀ net : Network client) (owner : SecretKey) (value : RegisterValue)
      (paymentOption : PaymentOption) (requests : Nat) (w₀ w : World)
      (options : Set PaymentOption) (wallet : Wallet), client.crypto.KeysAgree →
      net₀.stopped requests (client.registerCreate owner value paymentOption) w₀ = w →
      w₀.Unused [client.rootName owner, client.headName owner,
        net₀.drawnName owner w₀.drawn.length] →
      w₀.Unused [client.rootName owner, client.headName owner,
        net.drawnName owner w.drawn.length] →
      .wallet wallet ∈ options → (∀ option ∈ options, net.Reliable option w.clock) →
      net.Recoverable owner options w := by
  intro hall
  obtain ⟨requests, w, hw, hhalf, hunused⟩ := exists_sample_half
  have hrecoverable := hall sampleClient workingNetwork workingNetwork (bytes32 7) (bytes32 1)
    sampleWallet requests emptyWorld w {sampleWallet} ⟨.arbitrumOne⟩ sampleClient_keysAgree hw
    (emptyWorld_unusedName 0 (by decide)) hunused (Set.mem_singleton _)
    (fun option hoption => Set.mem_singleton_iff.mp hoption ▸ workingNetwork_reliable _)
  refine not_recoverable sampleClient_keysAgree sample_rootName_ne hhalf ?_ hrecoverable
  intro own hown
  cases Set.mem_singleton_iff.mp hown

end Network

end Autonomi.Client
