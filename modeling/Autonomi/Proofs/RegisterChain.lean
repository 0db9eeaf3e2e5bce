/-
Registers as chains of entries.

To its owner a register is a list of values and a mark that says whether the head
pointer is at the last of them or at the one before.  `RegisterState` and its `Update`
say that much and no more.

`Represents` says how such a list is stored: each entry under the key that the one
before it names, alone under its key, and nothing under the key that the last one names.

The names of new entries come from random numbers.  That they are all different, and
that nothing is stored under them, is assumed for the numbers a run draws.
-/
import Autonomi.Client.Register
import Autonomi.Lib.Transition
import Autonomi.Proofs.World

namespace Autonomi

open Lib List

theorem Pointer.verifySignature_new {c : Crypto} (hkeys : c.KeysAgree)
    (rmpTarget : PointerTarget → Bytes) (owner : SecretKey) (counter : UInt64)
    (target : PointerTarget) :
    (Pointer.new c rmpTarget owner counter target).verifySignature c rmpTarget = true :=
  hkeys.verify owner _

namespace Client

open Lib.Fallible

/-! ### A register as its owner sees it -/

/-- One entry of a register: its value, and the index from which the next key is derived. -/
structure Link where
  value : RegisterValue
  index : DerivationIndex

/-- The entries of a register, oldest first, and whether its head pointer is one behind. -/
structure RegisterState where
  links : List Link
  behind : Bool

/-- What an update can do to a register, and whether it succeeds. -/
inductive RegisterState.Update (reliable : Prop) (new : Link) :
    RegisterState → Bool → RegisterState → Prop
  | failed (s : RegisterState) (h : ¬ reliable) : Update reliable new s false s
  | appended (links : List Link) (h : ¬ reliable) :
      Update reliable new ⟨links, false⟩ false ⟨links ++ [new], true⟩
  | completed (links : List Link) : Update reliable new ⟨links, false⟩ true ⟨links ++ [new], false⟩
  | caughtUp (links : List Link) : Update reliable new ⟨links, true⟩ false ⟨links, false⟩

variable {s' : RegisterState} {succeeded : Bool} {new : Link}

theorem RegisterState.Update.mono {reliable reliable' : Prop} (h : reliable' → reliable)
    {s : RegisterState} (hupdate : s.Update reliable new succeeded s') :
    s.Update reliable' new succeeded s' := by
  cases hupdate with
  | failed _ hnot => exact .failed _ fun h' => hnot (h h')
  | appended links hnot => exact .appended links fun h' => hnot (h h')
  | completed links => exact .completed links
  | caughtUp links => exact .caughtUp links

variable {links : List Link}

theorem RegisterState.Update.completes {reliable : Prop} (hreliable : reliable)
    (h : RegisterState.Update reliable new ⟨links, false⟩ succeeded s') :
    succeeded = true ∧ s' = ⟨links ++ [new], false⟩ := by
  cases h with
  | failed s hnot | appended links hnot => exact absurd hreliable hnot
  | completed links => exact ⟨rfl, rfl⟩

theorem RegisterState.Update.catchesUp {reliable : Prop} (hreliable : reliable)
    (h : RegisterState.Update reliable new ⟨links, true⟩ succeeded s') :
    s' = ⟨links, false⟩ := by
  cases h with
  | failed s hnot => exact absurd hreliable hnot
  | caughtUp links => rfl

variable {w : World} {link : Link}

/-! ### How it is stored -/

section Stored

variable (client : Client) (owner : SecretKey)

variable (before : List Link)

/-- The key of the entry that follows the given ones. -/
def entryKey : SecretKey :=
  match before.getLast? with
  | none => owner
  | some link => client.crypto.blsDeriveSecret owner link.index

def entryAddress : PublicKey :=
  client.crypto.blsPublicKey (client.entryKey owner before)

/-- The names of the first entry, of the head pointer and of the entry that follows the given
ones. -/
abbrev rootName : XorName := ownerName client.crypto (client.crypto.blsPublicKey owner)

abbrev headName : XorName :=
  ownerName client.crypto (client.crypto.blsPublicKey (client.registerHeadPointerSk owner))

abbrev entryName : XorName :=
  ownerName client.crypto (client.entryAddress owner before)

def linkEntry (link : Link) : GraphEntry :=
  .new client.crypto (client.entryKey owner before)
    (if before = [] then [] else [client.entryAddress owner before.dropLast]) link.value
    [(client.crypto.blsDerivePublic (client.crypto.blsPublicKey owner) link.index, link.index)]

@[simp] theorem entryKey_append (link : Link) :
    client.entryKey owner (before ++ [link])
      = client.crypto.blsDeriveSecret owner link.index := by
  simp [entryKey]

theorem owner_linkEntry (link : Link) :
    (client.linkEntry owner before link).owner = client.entryAddress owner before := rfl

theorem linkEntry_append (link new : Link) :
    client.linkEntry owner (before ++ [link]) new
      = .new client.crypto (client.crypto.blsDeriveSecret owner link.index)
          [(client.linkEntry owner before link).owner] new.value
          [(client.crypto.blsDerivePublic (client.crypto.blsPublicKey owner) new.index,
            new.index)] := by
  rw [linkEntry, entryKey_append, if_neg (append_ne_nil_of_right_ne_nil _ (by simp)),
    dropLast_concat]
  rfl

/-- The entries of a chain, each alone under its key, and nothing after the last. -/
structure IsChain (w : World) (links : List Link) : Prop where
  entry : ∀ before link after, links = before ++ link :: after →
    w.under client.crypto (client.entryAddress owner before)
      = some (.ofGraphEntries [client.linkEntry owner before link])
  ends : w.under client.crypto (client.entryAddress owner links) = none

variable {client owner} in
theorem IsChain.still {w' : World} (h : client.IsChain owner w links)
    (hstill : w.Still w') : client.IsChain owner w' links := by
  obtain ⟨hentry, hends⟩ := h
  constructor
  · simpa only [World.under, hstill.store] using hentry
  · simpa only [World.under, hstill.store] using hends

def HeadAt (w : World) (before : List Link) : Prop :=
  ∃ counter, w.under client.crypto (client.crypto.blsPublicKey (client.registerHeadPointerSk owner))
    = some (.ofPointer (.new client.crypto client.rmpTarget (client.registerHeadPointerSk owner)
        counter (.graphEntryAddress (client.entryAddress owner before))))

variable {client owner} in
theorem HeadAt.unique {before before' : List Link} (h : client.HeadAt owner w before)
    (h' : client.HeadAt owner w before') :
    client.entryAddress owner before = client.entryAddress owner before' := by
  obtain ⟨counter, hpointer⟩ := h
  obtain ⟨counter', hpointer'⟩ := h'
  have hsame := Option.some.inj (hpointer.symm.trans hpointer')
  injection hsame with _ hbody
  injection hbody with hnew
  injection congrArg Pointer.target hnew

/-- Under a key of a register there are entries of it, for links of some kind. -/
def LinksAt (w : World) (before : List Link) (P : Link → Prop) : Prop :=
  ∃ entries, w.under client.crypto (client.entryAddress owner before)
      = some (.ofGraphEntries entries) ∧ entries ≠ [] ∧
    ∀ entry ∈ entries, ∃ link, P link ∧ entry = client.linkEntry owner before link

variable {client owner} in
theorem linksAt_one {before : List Link}
    (h : w.under client.crypto (client.entryAddress owner before)
      = some (.ofGraphEntries [client.linkEntry owner before link])) :
    client.LinksAt owner w before (link = ·) :=
  ⟨_, h, cons_ne_nil _ _, fun _ hentry => ⟨link, rfl, mem_singleton.mp hentry⟩⟩

end Stored

abbrev Network.drawnName {client : Client} (net : Network client) (owner : SecretKey)
    (drawn : Nat) : XorName :=
  ownerName client.crypto
    (client.crypto.blsDerivePublic (client.crypto.blsPublicKey owner) (net.random drawn))

/-- The names that the next numbers are drawn for. -/
def Network.upcoming {client : Client} (net : Network client) (owner : SecretKey) :
    Nat → Nat → List XorName
  | _, 0 => []
  | drawn, draws + 1 => net.drawnName owner drawn :: upcoming net owner (drawn + 1) draws

variable {client : Client}

theorem Network.upcoming_add (net : Network client) (owner : SecretKey) (drawn draws more : Nat) :
    net.upcoming owner drawn (draws + more)
      = net.upcoming owner drawn draws ++ net.upcoming owner (drawn + draws) more := by
  induction draws generalizing drawn with
  | zero => simp [upcoming]
  | succ draws ih => rw [Nat.add_right_comm, upcoming, ih, Nat.add_right_comm]; rfl

section Represents

variable (client : Client) (owner : SecretKey) (base : RecordKey → Option RecordValue)

/-- A register is stored, the names are there for entries to come, and nothing else has changed
since the store was `base`. -/
structure Represents (w : World) (s : RegisterState) (names : List XorName) : Prop where
  entry : ∀ before link after, s.links = before ++ link :: after →
    w.under client.crypto (client.entryAddress owner before)
      = some (.ofGraphEntries [client.linkEntry owner before link])
  head : ∃ before link after, s.links = before ++ link :: after ∧
    after.length = s.behind.toNat ∧ client.HeadAt owner w before
  unused : w.Unused (client.entryName owner s.links :: names)
  elsewhere : ∀ key, w.store key ≠ base key →
    key = (client.headName owner).toList ∨
    ∃ before link after, s.links = before ++ link :: after ∧
      key = (client.entryName owner before).toList

variable {client owner base} {w w' : World} {s : RegisterState} {names : List XorName}
  (h : Represents client owner base w s names)

include h

theorem Represents.still
    (hstore : w'.store = w.store) : Represents client owner base w' s names := by
  obtain ⟨hentry, hhead, hunused, helsewhere⟩ := h
  refine ⟨?_, ?_, ?_, ?_⟩
  · simpa only [World.under, hstore] using hentry
  · simpa only [HeadAt, World.under, hstore] using hhead
  · simpa only [World.Unused, hstore] using hunused
  · simpa only [hstore] using helsewhere

theorem Represents.ends : w.under client.crypto (client.entryAddress owner s.links) = none :=
  h.unused.2 _ mem_cons_self

theorem Represents.isChain : client.IsChain owner w s.links := ⟨h.entry, h.ends⟩

omit h

theorem Represents.dropName {name : XorName}
    (h : Represents client owner base w s (name :: names)) :
    Represents client owner base w s names :=
  ⟨h.entry, h.head, h.unused.sublist ((sublist_cons_self _ _).cons_cons _), h.elsewhere⟩

theorem append_split {before after : List Link}
    (h : links ++ [new] = before ++ link :: after) :
    (before = links ∧ link = new ∧ after = []) ∨
      ∃ after', after = after' ++ [new] ∧ links = before ++ link :: after' := by
  rcases eq_nil_or_concat' after with rfl | ⟨after', last, rfl⟩
  · obtain ⟨hlinks, hnew⟩ := append_inj' h rfl
    exact .inl ⟨hlinks.symm, (List.cons.inj hnew).1.symm, rfl⟩
  · rw [← cons_append, ← append_assoc] at h
    obtain ⟨hlinks, hnew⟩ := append_inj' h rfl
    exact .inr ⟨after', by rw [(List.cons.inj hnew).1], hlinks⟩

theorem Represents.append
    (h : Represents client owner base w ⟨links, false⟩
      (client.entryName owner (links ++ [new]) :: names))
    (hstored : w.Stored (client.entryName owner links).toList
      (.ofGraphEntries [client.linkEntry owner links new]) w') :
    Represents client owner base w' ⟨links ++ [new], true⟩ names := by
  have hends := h.ends
  obtain ⟨hnodup, hnone⟩ := h.unused
  -- whatever is stored already is under another key
  have hother : ∀ key, w.store key ≠ none → w'.store key = w.store key :=
    fun key hkey => hstored.of_store_ne fun heq => hkey (heq.trans hends)
  refine ⟨?_, ?_, ⟨hnodup.of_cons, ?_⟩, ?_⟩
  · intro before link after hlinks
    rcases append_split hlinks with ⟨rfl, rfl, rfl⟩ | ⟨after', rfl, hlinks'⟩
    · exact hstored.same
    · have hentry := h.entry before link after' hlinks'
      exact (hother _ (by rw [← World.under, hentry]; exact nofun)).trans hentry
  · obtain ⟨before, link, after, hlinks, hlength, counter, hpointer⟩ := h.head
    refine ⟨before, link, after ++ [new], ?_, ?_, counter, ?_⟩
    · simp [show links = before ++ link :: after from hlinks]
    · simpa using hlength
    · exact (hother _ (by rw [← World.under, hpointer]; exact nofun)).trans hpointer
  · intro name hname
    rw [hstored.of_ne, hnone name (mem_cons_of_mem _ hname)]
    intro heq
    rw [Vector.toList_inj.mp heq] at hname
    exact (nodup_cons.mp hnodup).1 hname
  · intro key hkey
    by_cases hnew : key = (client.entryName owner links).toList
    · exact .inr ⟨links, new, [], rfl, hnew⟩
    · rw [hstored.of_ne hnew] at hkey
      refine (h.elsewhere key hkey).imp_right ?_
      rintro ⟨before, link, after, hlinks, hkey⟩
      exact ⟨before, link, after ++ [new], by simp [show links = _ from hlinks], hkey⟩

theorem Represents.moveHead {before : List Link} {last : Link} {behind : Bool} {counter : UInt64}
    (h : Represents client owner base w ⟨before ++ [last], behind⟩ names)
    (hstored : w.Stored (client.headName owner).toList
      (.ofPointer (.new client.crypto client.rmpTarget (client.registerHeadPointerSk owner) counter
        (.graphEntryAddress (client.entryAddress owner before)))) w') :
    Represents client owner base w' ⟨before ++ [last], false⟩ names := by
  obtain ⟨_, _, _, _, _, old, hpointer⟩ := h.head
  -- the key holds a pointer already, so nothing else is under it
  have hother : ∀ key, (∀ p, w.store key ≠ some (.ofPointer p)) → w'.store key = w.store key :=
    fun key hkey => hstored.of_store_ne fun heq => hkey _ (heq.trans hpointer)
  refine ⟨?_, ⟨before, last, [], rfl, rfl, counter, hstored.same⟩, ⟨h.unused.1, ?_⟩, ?_⟩
  · intro before' link after hlinks
    have hentry := h.entry before' link after hlinks
    refine (hother _ fun p => ?_).trans hentry
    rw [← World.under, hentry]
    exact nofun
  · intro name hname
    have hnone := h.unused.2 name hname
    exact (hother _ fun p => by rw [hnone]; exact nofun).trans hnone
  · intro key hkey
    by_cases hhead : key = (client.headName owner).toList
    · exact .inl hhead
    · rw [hstored.of_ne hhead] at hkey
      exact h.elsewhere key hkey

end Represents

/-! ### Which payments fit -/

/-- The address of the entry that an update would put, by what is stored. -/
def nextAddress (client : Client) (owner : PublicKey) (w : World) : Option PublicKey := do
  let pointer ← (← w.under client.crypto (client.registerHeadPointerPk owner)).asPointer
  let address ← (headEntry pointer).toOption
  let entries ← (← w.under client.crypto address).asGraphEntries
  let derivation ← (getDerivationFromGraphEntry (← entries.head?)).toOption
  return client.crypto.blsDerivePublic owner derivation

/-- A wallet always fits; a receipt does if it has a proof of payment for the next entry exactly
if that entry is not stored yet. -/
def PaymentOption.Fits (client : Client) (owner : PublicKey) (w : World) : PaymentOption → Prop
  | .wallet _ => True
  | .receipt own => ∀ address, client.nextAddress owner w = some address →
      (ownerName client.crypto address ∈ own ↔ w.under client.crypto address = none)

theorem headPointerPk_eq (hkeys : client.crypto.KeysAgree) (owner : SecretKey) :
    client.registerHeadPointerPk (client.crypto.blsPublicKey owner)
      = client.crypto.blsPublicKey (client.registerHeadPointerSk owner) :=
  (hkeys.derive owner registerHeadDerivationIndex).symm

theorem entryAddress_append (hkeys : client.crypto.KeysAgree) (owner : SecretKey)
    (before : List Link) (link : Link) :
    client.entryAddress owner (before ++ [link])
      = client.crypto.blsDerivePublic (client.crypto.blsPublicKey owner) link.index := by
  rw [entryAddress, entryKey_append, hkeys.derive]

theorem nextAddress_eq {owner : SecretKey} {before : List Link}
    (hkeys : client.crypto.KeysAgree) (hhead : client.HeadAt owner w before)
    (hentry : w.under client.crypto (client.entryAddress owner before)
      = some (.ofGraphEntries [client.linkEntry owner before link])) :
    client.nextAddress (client.crypto.blsPublicKey owner) w
      = some (client.entryAddress owner (before ++ [link])) := by
  obtain ⟨counter, hpointer⟩ := hhead
  rw [← headPointerPk_eq hkeys] at hpointer
  rw [entryAddress_append hkeys]
  refine Option.bind_eq_some_iff.mpr ⟨_, hpointer, Option.bind_eq_some_iff.mpr ⟨_, rfl, ?_⟩⟩
  refine Option.bind_eq_some_iff.mpr ⟨client.entryAddress owner before, rfl, ?_⟩
  exact Option.bind_eq_some_iff.mpr ⟨_, hentry, rfl⟩

/-- A wallet covers anything, a receipt what is in it. -/
def PaymentOption.Covers (names : List XorName) : PaymentOption → Prop
  | .wallet _ => True
  | .receipt own => ∀ name ∈ names, name ∈ own

variable {paymentOption : PaymentOption}

theorem PaymentOption.Covers.proves {names : List XorName} {name : XorName}
    (h : paymentOption.Covers names) (hmem : name ∈ names)
    (hnone : w.store name.toList = none) : paymentOption.Proves w name := by
  cases paymentOption with
  | wallet wallet => exact hnone
  | receipt own => exact h name hmem

theorem PaymentOption.Fits.proves_iff {owner : PublicKey} {address : PublicKey}
    (h : paymentOption.Fits client owner w) (haddress : client.nextAddress owner w = some address) :
    paymentOption.Proves w (ownerName client.crypto address) ↔
      w.under client.crypto address = none := by
  cases paymentOption with
  | wallet wallet => rfl
  | receipt own => exact h address haddress

/-! ### One update -/

namespace Network

variable {client : Client} {net : Network client} {owner : SecretKey}
  {base : RecordKey → Option RecordValue} {w : World} {s : RegisterState} {names : List XorName}
  {paymentOption : PaymentOption} {value : RegisterValue}

/-- From a time on nothing fails that an update needs. -/
structure Reliable (net : Network client) (paymentOption : PaymentOption) (time : Nat) : Prop where
  entries : ¬ net.PutsCanFail client.graphEntry time
  pointers : ¬ net.PutsCanFail client.pointer time
  pays : net.Pays paymentOption time

theorem Reliable.mono {time time' : Nat} (h : time ≤ time')
    (hreliable : net.Reliable paymentOption time) : net.Reliable paymentOption time' :=
  ⟨fun hfail => hreliable.entries (hfail.mono h), fun hfail => hreliable.pointers (hfail.mono h),
    hreliable.pays.mono h⟩

variable (net owner base w s names paymentOption) in
/-- A program does to a register what an update may do, and leaves it represented. -/
def Updates (p : ClientM RegisterError Amount) (new : Link) (drawn : Nat) : Prop :=
  ∃ r w' s', net.run p w = (r, w') ∧
    s.Update (net.Reliable paymentOption w.clock) new r.isOk s' ∧
    Represents client owner base w' s' names ∧ w'.drawn.length = drawn ∧ w.clock ≤ w'.clock

variable {before : List Link}

variable (hkeys : client.crypto.KeysAgree)

include hkeys

variable (net) in
theorem puts_head (h : client.HeadAt owner w before)
    (target : PointerTarget) :
    ∃ counter, net.Puts (client.pointerUpdate (client.registerHeadPointerSk owner) target) w
      client.pointer (client.headName owner).toList
      (.ofPointer (.new client.crypto client.rmpTarget (client.registerHeadPointerSk owner)
        counter target)) := by
  obtain ⟨counter, hpointer⟩ := h
  exact ⟨_, puts_pointerUpdate hpointer (Pointer.verifySignature_new hkeys _ _ _ _)⟩

theorem registerPutHead_appends
    (h : Represents client owner base w ⟨links, false⟩
      (client.entryName owner (links ++ [new]) :: names))
    (hproves : paymentOption.Proves w (client.entryName owner links)) :
    net.Updates owner base w ⟨links, false⟩ names paymentOption
      (client.registerPutHead owner (client.linkEntry owner links new) paymentOption) new
      w.drawn.length := by
  rcases net.run_graphEntryPut w paymentOption (client.linkEntry owner links new) with
    ⟨price, w₁, hput, hstored, -⟩ | ⟨e, w₁, hput, hstill, ⟨-, hnot⟩ | ⟨hother, hfail⟩⟩
  · rw [owner_linkEntry, h.ends] at hstored
    have h₁ := h.append hstored
    obtain ⟨before, link, after, -, -, hhead⟩ := h₁.head
    obtain ⟨counter, hputs⟩ := net.puts_head hkeys hhead
      (.graphEntryAddress (client.entryAddress owner links))
    rcases hputs with ⟨_, w₂, hmove, hmoved⟩ | ⟨e, w₂, hmove, hstill, hfail⟩
    · refine ⟨.ok price, w₂, ⟨links ++ [new], false⟩, ?_, .completed links,
        h₁.moveHead hmoved, ?_, hstored.clock.trans hmoved.clock⟩
      · exact (runIn_attempt_bind hput).trans (runIn_bind_of_ok (runIn_mapError_of_ok hmove))
      · rw [hmoved.drawn, hstored.drawn]
    · refine ⟨.error (.pointerError e), w₂, ⟨links ++ [new], true⟩, ?_,
        .appended links fun hreliable =>
          hreliable.pointers (hfail.mono hstored.clock),
        h₁.still hstill.store, ?_, hstored.clock.trans hstill.clock⟩
      · exact (runIn_attempt_bind hput).trans (runIn_bind_of_error (runIn_mapError_of_error hmove))
      · rw [hstill.drawn, hstored.drawn]
  · exact absurd hproves hnot
  · refine ⟨.error (.graphError e), w₁, ⟨links, false⟩, ?_,
      .failed _ fun hreliable => hreliable.entries (hfail hreliable.pays),
      h.dropName.still hstill.store, by rw [hstill.drawn], hstill.clock⟩
    refine (runIn_attempt_bind hput).trans ?_
    cases e with
    | alreadyExists address => exact absurd rfl (hother address)
    | read error | putError failure | pay error => rfl

variable (net) in
theorem registerPutHead_catchesUp {last : Link}
    (entry : GraphEntry) (new : Link)
    (h : Represents client owner base w ⟨before ++ [last], true⟩ names)
    (hentry : entry.owner = client.entryAddress owner before)
    (hproves : ¬ paymentOption.Proves w (ownerName client.crypto entry.owner)) :
    net.Updates owner base w ⟨before ++ [last], true⟩ names paymentOption
      (client.registerPutHead owner entry paymentOption) new w.drawn.length := by
  rcases net.run_graphEntryPut w paymentOption entry with
    ⟨_, _, -, -, hthere, -⟩ | ⟨e, w₁, hput, hstill, ⟨rfl, -⟩ | ⟨hother, hfail⟩⟩
  · exact absurd hthere hproves
  · have h₁ := h.still hstill.store
    obtain ⟨_, _, _, -, -, hhead⟩ := h₁.head
    obtain ⟨counter, hputs⟩ := net.puts_head hkeys hhead (.graphEntryAddress entry.owner)
    rcases hputs with ⟨_, w₂, hmove, hmoved⟩ | ⟨e, w₂, hmove, hstill', hfail⟩
    · rw [hentry] at hmoved
      refine ⟨.error (.corrupt (.pointerNotAtLatest entry.owner)), w₂, ⟨before ++ [last], false⟩,
        ?_, .caughtUp _, h₁.moveHead hmoved, ?_, hstill.clock.trans hmoved.clock⟩
      · exact (runIn_attempt_bind hput).trans (runIn_bind_of_ok (runIn_mapError_of_ok hmove))
      · rw [hmoved.drawn, hstill.drawn]
    · refine ⟨.error (.pointerError e), w₂, ⟨before ++ [last], true⟩, ?_,
        .failed _ fun hreliable => hreliable.pointers (hfail.mono hstill.clock),
        h₁.still hstill'.store, ?_, hstill.clock.trans hstill'.clock⟩
      · exact (runIn_attempt_bind hput).trans (runIn_bind_of_error (runIn_mapError_of_error hmove))
      · rw [hstill'.drawn, hstill.drawn]
  · refine ⟨.error (.graphError e), w₁, ⟨before ++ [last], true⟩, ?_,
      .failed _ fun hreliable => hreliable.entries (hfail hreliable.pays), h.still hstill.store,
      by rw [hstill.drawn], hstill.clock⟩
    refine (runIn_attempt_bind hput).trans ?_
    cases e with
    | alreadyExists address => exact absurd rfl (hother address)
    | read error | putError failure | pay error => rfl

variable (net) in
/-- The name a number is drawn for is that of the entry after a link with this number. -/
theorem entryName_drawn (owner : SecretKey) (links : List Link)
    (value : RegisterValue) (drawn : Nat) :
    client.entryName owner (links ++ [⟨value, net.random drawn⟩]) = net.drawnName owner drawn := by
  rw [entryName, entryAddress_append hkeys]

/-! ### The reads of an update -/

variable (net) in
theorem run_getHead (h : client.HeadAt owner w before) :
    ∃ pointer w', w.Still w' ∧
      net.run (client.pointerGet
        (client.registerHeadPointerPk (client.crypto.blsPublicKey owner))) w = (.ok pointer, w') ∧
      headEntry pointer = .ok (client.entryAddress owner before) := by
  obtain ⟨counter, hpointer⟩ := h
  rw [headPointerPk_eq hkeys owner]
  obtain ⟨w', hstill, hget⟩ :=
    net.run_pointerGet hpointer (Pointer.verifySignature_new hkeys _ _ _ _)
  exact ⟨_, w', hstill, hget, rfl⟩

omit hkeys

theorem smallestDerivation_of_forall :
    ∀ {entries : List GraphEntry}, entries ≠ [] →
      (∀ entry ∈ entries, ∃ index, getDerivationFromGraphEntry entry = .ok index) →
      ∃ entry ∈ entries, ∃ index, smallestDerivation entries = some (entry, index) := by
  intro entries
  induction entries with
  | nil => intro hne; exact absurd rfl hne
  | cons entry entries ih =>
    intro _ hall
    obtain ⟨index, hindex⟩ := hall entry mem_cons_self
    rcases entries with _ | ⟨second, rest⟩
    · exact ⟨entry, mem_cons_self, index, by simp [smallestDerivation, hindex]⟩
    · obtain ⟨other, hother, smallest, hsmallest⟩ := ih (cons_ne_nil _ _)
        fun e he => hall e (mem_cons_of_mem _ he)
      rw [smallestDerivation, hindex, hsmallest]
      by_cases hgreater : GraphEntry.compareBytes index smallest = .gt
      · exact ⟨other, mem_cons_of_mem _ hother, smallest, if_pos hgreater⟩
      · exact ⟨entry, mem_cons_self, index, if_neg hgreater⟩

variable (net) in
theorem run_getLink {P : Link → Prop} (h : client.LinksAt owner w before P) :
    ∃ link w', P link ∧ w.Still w' ∧ net.run (client.registerGetGraphEntryAndNextDerivationIndex
      (client.entryAddress owner before)) w
        = (.ok (client.linkEntry owner before link, link.index), w') := by
  obtain ⟨entries, hunder, hne, hlinks⟩ := h
  obtain ⟨n, w', hstill, hget⟩ := net.run_graphEntryGet_eq hunder
  have hcopies : ∀ entry ∈ (List.replicate (n + 1) entries).flatten, entry ∈ entries := by
    intro entry hentry
    obtain ⟨copy, hcopy, hentry⟩ := mem_flatten.mp hentry
    rwa [eq_of_mem_replicate hcopy] at hentry
  have hsome : (List.replicate (n + 1) entries).flatten ≠ [] := by
    exact append_ne_nil_of_left_ne_nil hne _
  rcases resolveEntries_cases hsome with ⟨entry, hentry, hone⟩ | ⟨fork, hfork, hsub, hmany⟩
  · obtain ⟨link, hP, rfl⟩ := hlinks entry (hcopies entry hentry)
    rw [hone] at hget
    exact ⟨link, w', hP, hstill, (runIn_attempt_bind hget).trans rfl⟩
  · have hindices : ∀ entry ∈ fork, ∃ index, getDerivationFromGraphEntry entry = .ok index := by
      intro entry hentry
      obtain ⟨link, -, rfl⟩ := hlinks entry (hcopies entry (hsub hentry))
      exact ⟨link.index, rfl⟩
    obtain ⟨entry, hentry, index, hsmallest⟩ := smallestDerivation_of_forall hfork hindices
    obtain ⟨link, hP, rfl⟩ := hlinks entry (hcopies entry (hsub hentry))
    rw [hmany] at hget
    refine ⟨link, w', hP, hstill, (runIn_attempt_bind hget).trans ?_⟩
    simp only [hsmallest]
    rfl

variable (net) in
theorem run_registerUpdate (hkeys : client.crypto.KeysAgree) {P : Link → Prop}
    (hhead : client.HeadAt owner w before) (hlinks : client.LinksAt owner w before P)
    (value : RegisterValue) (paymentOption : PaymentOption) :
    ∃ link w', P link ∧ w'.store = w.store ∧ w'.drawn.length = w.drawn.length + 1 ∧
      w.clock ≤ w'.clock ∧
      net.run (client.registerUpdate owner value paymentOption) w
        = net.run (client.registerPutHead owner (client.linkEntry owner (before ++ [link])
            ⟨value, net.random w.drawn.length⟩) paymentOption) w' := by
  obtain ⟨pointer, w₁, hstill, hpointer, htarget⟩ := net.run_getHead hkeys hhead
  have hlinks₁ : client.LinksAt owner w₁ before P := by
    rw [LinksAt, World.under, hstill.store]
    exact hlinks
  obtain ⟨link, w₂, hP, hstill₂, hlink⟩ := net.run_getLink hlinks₁
  have hdrawn : w₂.drawn = w.drawn := hstill₂.drawn.trans hstill.drawn
  refine ⟨link, (w₂.draw (net.random w.drawn.length)).tick, hP, hstill₂.store.trans hstill.store,
    ?_, Nat.le_succ_of_le (hstill.clock.trans hstill₂.clock), ?_⟩
  · simp [World.draw, World.tick, hdrawn]
  · refine (runIn_attempt_bind hpointer).trans ?_
    refine (runIn_bind_of_ok (a := client.entryAddress owner before)
      (by rw [htarget]; rfl)).trans ?_
    refine (runIn_bind_of_ok hlink).trans ?_
    rw [linkEntry_append, ← hdrawn]
    rfl

/-- **An update does to a register what `Update` allows**, and the register stays represented. -/
theorem registerUpdate_updates (hkeys : client.crypto.KeysAgree)
    (h : Represents client owner base w s (net.drawnName owner w.drawn.length :: names))
    (hfits : paymentOption.Fits client (client.crypto.blsPublicKey owner) w)
    (value : RegisterValue) :
    net.Updates owner base w s names paymentOption
      (client.registerUpdate owner value paymentOption) ⟨value, net.random w.drawn.length⟩
      (w.drawn.length + 1) := by
  obtain ⟨before, link, after, hlinks, hlength, hhead⟩ := h.head
  have hentry := h.entry before link after hlinks
  have hproves := hfits.proves_iff (nextAddress_eq hkeys hhead hentry)
  obtain ⟨_, w₁, rfl, hstore, hdrawn, hclock, hrun⟩ :=
    net.run_registerUpdate hkeys hhead (linksAt_one hentry) value paymentOption
  rw [← PaymentOption.proves_congr hstore] at hproves
  obtain ⟨links, behind⟩ := s
  obtain rfl : links = before ++ link :: after := hlinks
  rw [← net.entryName_drawn hkeys owner (before ++ link :: after) value] at h
  have h₁ : Represents client owner base w₁ _ _ := h.still hstore
  cases behind with
  | false =>
    obtain rfl : after = [] := eq_nil_of_length_eq_zero hlength
    obtain ⟨r, w', s', hrest, hupdate, hrepresents, hdrawn', hclock'⟩ :=
      registerPutHead_appends hkeys h₁ (hproves.mpr h.ends)
    exact ⟨r, w', s', hrun.trans hrest, hupdate.mono (.mono hclock), hrepresents,
      hdrawn'.trans hdrawn, hclock.trans hclock'⟩
  | true =>
    obtain ⟨last, rfl⟩ : ∃ last, after = [last] := length_eq_one_iff.mp hlength
    have hthere := h.entry (before ++ [link]) last [] (by simp)
    rw [hthere] at hproves
    have hsplit : before ++ [link, last] = (before ++ [link]) ++ [last] := by simp
    rw [hsplit] at h₁ ⊢
    obtain ⟨r, w', s', hrest, hupdate, hrepresents, hdrawn', hclock'⟩ :=
      net.registerPutHead_catchesUp hkeys (client.linkEntry owner (before ++ [link])
        ⟨value, net.random w.drawn.length⟩) ⟨value, net.random w.drawn.length⟩ h₁.dropName
        (client.owner_linkEntry owner _ _) (by rw [owner_linkEntry, hproves]; exact nofun)
    exact ⟨r, w', s', hrun.trans hrest, hupdate.mono (.mono hclock), hrepresents,
      hdrawn'.trans hdrawn, hclock.trans hclock'⟩

/-! ### Creation -/

theorem represents_new {w₁ w₂ w₃ : World} {counter : UInt64}
    (hunused : w.Unused (client.rootName owner :: client.headName owner ::
      client.entryName owner [link] :: names))
    (hdrew : w₁.store = w.store)
    (hentry : w₁.Stored (client.rootName owner).toList
      (.ofGraphEntries [client.linkEntry owner [] link]) w₂)
    (hpointer : w₂.Stored (client.headName owner).toList
      (.ofPointer (.new client.crypto client.rmpTarget (client.registerHeadPointerSk owner) counter
        (.graphEntryAddress (client.crypto.blsPublicKey owner)))) w₃) :
    Represents client owner w.store w₃ ⟨[link], false⟩ names := by
  obtain ⟨hnodup, hnone⟩ := hunused
  obtain ⟨hroot, hnodup'⟩ := nodup_cons.mp hnodup
  obtain ⟨hhead, hrest⟩ := nodup_cons.mp hnodup'
  have hsplit : ∀ before (l : Link) after, [link] = before ++ l :: after →
      before = [] ∧ l = link ∧ after = [] := by
    intro before l after h
    have h₀ : [] ++ [link] = before ++ l :: after := h
    rcases append_split h₀ with ⟨rfl, rfl, rfl⟩ | ⟨after', -, h'⟩
    · exact ⟨rfl, rfl, rfl⟩
    · simp at h'
  refine ⟨?_, ⟨[], link, [], rfl, rfl, counter, hpointer.same⟩, ⟨hrest, ?_⟩, ?_⟩
  · intro before l after h
    obtain ⟨rfl, rfl, rfl⟩ := hsplit before l after h
    refine (hpointer.of_ne ?_).trans hentry.same
    intro heq
    exact hroot (mem_cons.mpr (.inl (Vector.toList_inj.mp heq)))
  · intro name hname
    have hname' : name ∈ _ := mem_cons_of_mem (client.headName owner) hname
    rw [hpointer.of_ne, hentry.of_ne, hdrew, hnone name (mem_cons_of_mem _ hname')]
    · intro heq
      exact hroot (Vector.toList_inj.mp heq ▸ hname')
    · intro heq
      exact hhead (Vector.toList_inj.mp heq ▸ hname)
  · intro key hkey
    by_cases hkey' : key = (client.headName owner).toList
    · exact .inl hkey'
    · rw [hpointer.of_ne hkey'] at hkey
      refine .inr ⟨[], link, [], rfl, ?_⟩
      by_contra hne
      exact hkey (by rw [hentry.of_ne hne, hdrew])

theorem checkedAdd_eq_some {a b : Amount} (ha : a.toNat < 2 ^ 255) (hb : b.toNat < 2 ^ 255) :
    checkedAdd a b = some (a + b) := if_pos (by omega)

/-- What creating a register can come to: nothing is put, or the entry, or the entry and the
pointer; and why no more than that. -/
inductive Creation (net : Network client) (owner : SecretKey) (entry : GraphEntry)
    (paymentOption : PaymentOption) (w : World) :
    Except RegisterError (Amount × PublicKey) → World → Prop
  | nothing {e : RegisterError} {w' : World} (hstill : w.Still w')
      (hcause : net.Reliable paymentOption w.clock →
        ¬ paymentOption.Proves w (client.rootName owner)) :
      Creation net owner entry paymentOption w (.error e) w'
  | entryOnly {e : RegisterError} {w' : World}
      (hentry : w.Stored (client.rootName owner).toList
        (Item.takenIn (w.store (client.rootName owner).toList) (.graphEntry entry)) w')
      (hroot : paymentOption.Proves w (client.rootName owner))
      (hcause : net.Reliable paymentOption w.clock →
        ¬ paymentOption.Proves w (client.headName owner)) :
      Creation net owner entry paymentOption w (.error e) w'
  | both {r : Except RegisterError (Amount × PublicKey)} {w₁ w' : World}
      (hentry : w.Stored (client.rootName owner).toList
        (Item.takenIn (w.store (client.rootName owner).toList) (.graphEntry entry)) w₁)
      (hpointer : w₁.Stored (client.headName owner).toList (.ofPointer (.new client.crypto
        client.rmpTarget (client.registerHeadPointerSk owner) 0
        (.graphEntryAddress (client.crypto.blsPublicKey owner)))) w')
      (hroot : paymentOption.Proves w (client.rootName owner))
      (hhead : paymentOption.Proves w (client.headName owner))
      (hok : net.Reliable paymentOption w.clock → r.isOk = true) :
      Creation net owner entry paymentOption w r w'

theorem Creation.frame {entry : GraphEntry} {r : Except RegisterError (Amount × PublicKey)}
    {w' : World} (h : net.Creation owner entry paymentOption w r w') :
    w'.drawn = w.drawn ∧ w.clock ≤ w'.clock := by
  cases h with
  | nothing hstill => exact ⟨hstill.drawn, hstill.clock⟩
  | entryOnly hentry => exact ⟨hentry.drawn, hentry.clock⟩
  | both hentry hpointer =>
    exact ⟨hpointer.drawn.trans hentry.drawn, hentry.clock.trans hpointer.clock⟩

variable (net) in
theorem run_registerPutFirst {entry : GraphEntry}
    (hentry : entry.owner = client.crypto.blsPublicKey owner)
    (hne : client.rootName owner ≠ client.headName owner)
    (hnone : w.store (client.headName owner).toList = none) (paymentOption : PaymentOption) :
    ∃ r w', net.run (client.registerPutFirst owner entry paymentOption) w = (r, w') ∧
      net.Creation owner entry paymentOption w r w' := by
  have hname : ownerName client.crypto entry.owner = client.rootName owner := by rw [hentry]
  rcases net.run_graphEntryPut w paymentOption entry with
    ⟨price, w₁, hput, hstored, hroot, hprice⟩ | ⟨e, w₁, hput, hstill, hwhy⟩
  · rw [World.under, hname] at hstored
    rw [hname] at hroot
    have hnone₁ : w₁.store (client.headName owner).toList = none :=
      (hstored.of_name_ne hne.symm).trans hnone
    -- the entry has not changed what there is to be paid for the pointer
    have hhead : paymentOption.Proves w₁ (client.headName owner) ↔
        paymentOption.Proves w (client.headName owner) := by
      cases paymentOption with
      | wallet wallet => exact iff_of_true hnone₁ hnone
      | receipt own => exact Iff.rfl
    have hfirst := runIn_mapError_of_ok (f := RegisterError.graphError) hput
    rcases net.putsPaid_pointerCreate (.graphEntryAddress entry.owner) paymentOption hnone₁ with
      ⟨price', w₂, hpointer, hstored', hproves, hprice'⟩ | ⟨e, w₂, hpointer, hstill, hfail⟩
    · have hsecond := runIn_mapError_of_ok (f := RegisterError.pointerError) hpointer
      have hsum : ∀ sum : Option Amount, net.run (do
          let totalCost ← fromExcept (Checks.okOr sum RegisterError.invalidCost)
          return (totalCost, client.crypto.blsPublicKey owner)) w₂
            = ((Checks.okOr sum .invalidCost).map (·, client.crypto.blsPublicKey owner), w₂) := by
        rintro (_ | total)
        · rfl
        · rfl
      have hcosts : net.run (client.registerPutFirst owner entry paymentOption) w = _ :=
        (runIn_bind_of_ok hfirst).trans
          ((runIn_bind_of_ok hsecond).trans (hsum (checkedAdd price price')))
      rw [hentry] at hstored'
      refine ⟨_, w₂, hcosts, .both hstored hstored' hroot (hhead.mp hproves) fun hreliable => ?_⟩
      rw [checkedAdd_eq_some (hprice hreliable.pays)
        (hprice' (hreliable.pays.mono hstored.clock))]
      rfl
    · refine ⟨.error (.pointerError e), w₂, ?_, .entryOnly ?_ hroot fun hreliable hproves => ?_⟩
      · exact (runIn_bind_of_ok hfirst).trans
          (runIn_bind_of_error (runIn_mapError_of_error hpointer))
      · exact hstored.still hstill
      · exact hreliable.pointers ((hfail (hhead.mpr hproves)
          (hreliable.pays.mono hstored.clock)).mono hstored.clock)
  · refine ⟨.error (.graphError e), w₁, ?_, .nothing hstill fun hreliable => ?_⟩
    · exact runIn_bind_of_error (runIn_mapError_of_error hput)
    · rcases hwhy with ⟨-, hnot⟩ | ⟨-, hfail⟩
      · rwa [← hname]
      · exact absurd (hfail hreliable.pays) hreliable.entries

variable (net) in
theorem run_registerCreate_eq (value : RegisterValue) (paymentOption : PaymentOption) :
    net.run (client.registerCreate owner value paymentOption) w
      = net.run (client.registerPutFirst owner (client.linkEntry owner []
          ⟨value, net.random w.drawn.length⟩) paymentOption)
          (w.draw (net.random w.drawn.length)).tick := rfl

variable (net) in
/-- **A register that was created is stored**, and creation succeeds if nothing fails. -/
theorem run_registerCreate
    (hunused : w.Unused (client.rootName owner :: client.headName owner ::
      client.entryName owner [⟨value, net.random w.drawn.length⟩] :: names))
    (paymentOption : PaymentOption) :
    ∃ r w', net.run (client.registerCreate owner value paymentOption) w = (r, w') ∧
      w'.drawn.length = w.drawn.length + 1 ∧ w.clock ≤ w'.clock ∧
      (r.isOk = true → Represents client owner w.store w'
        ⟨[⟨value, net.random w.drawn.length⟩], false⟩ names) ∧
      (net.Reliable paymentOption w.clock →
        paymentOption.Covers [client.rootName owner, client.headName owner] → r.isOk = true) := by
  let link : Link := ⟨value, net.random w.drawn.length⟩
  let w₁ := (w.draw link.index).tick
  have hdrawn : w₁.drawn.length = w.drawn.length + 1 := by simp [w₁, World.draw, World.tick]
  have hstore : w₁.store = w.store := rfl
  have hclock : w.clock ≤ w₁.clock := Nat.le_succ _
  have hroot : w₁.store (client.rootName owner).toList = none := hunused.2 _ (by simp)
  have hhead : w₁.store (client.headName owner).toList = none := hunused.2 _ (by simp)
  have hne : client.rootName owner ≠ client.headName owner := fun heq =>
    (nodup_cons.mp hunused.1).1 (by simp [heq])
  have hentry : (client.linkEntry owner [] link).owner = client.crypto.blsPublicKey owner := rfl
  obtain ⟨r, w', hrun, hcreation⟩ := net.run_registerPutFirst hentry hne hhead paymentOption
  refine ⟨r, w', hrun, by rw [hcreation.frame.1, hdrawn], hclock.trans hcreation.frame.2, ?_⟩
  cases hcreation with
  | nothing hstill hcause =>
    exact ⟨fun hok => absurd hok Bool.false_ne_true, fun hreliable hcovers =>
      absurd (hcovers.proves (by simp) hroot) (hcause (hreliable.mono hclock))⟩
  | entryOnly hentry hproves hcause =>
    exact ⟨fun hok => absurd hok Bool.false_ne_true, fun hreliable hcovers =>
      absurd (hcovers.proves (by simp) hhead) (hcause (hreliable.mono hclock))⟩
  | both hentry hpointer _ _ hok =>
    rw [hroot] at hentry
    exact ⟨fun _ => represents_new hunused hstore hentry hpointer,
      fun hreliable _ => hok (hreliable.mono hclock)⟩

/-! ### Reading a register -/

variable (net) in
theorem run_registerGet (hkeys : client.crypto.KeysAgree)
    (hhead : client.HeadAt owner w before)
    (hentry : w.under client.crypto (client.entryAddress owner before)
      = some (.ofGraphEntries [client.linkEntry owner before link])) :
    net.Reads (client.registerGet (client.crypto.blsPublicKey owner)) w (.ok link.value) := by
  obtain ⟨pointer, w₁, hstill, hpointer, htarget⟩ := net.run_getHead hkeys hhead
  have hentry₁ : w₁.under client.crypto (client.entryAddress owner before)
      = some (.ofGraphEntries [client.linkEntry owner before link]) := by
    rw [World.under, hstill.store, ← World.under, hentry]
  obtain ⟨w₂, hstill₂, hget⟩ := net.run_graphEntryGet hentry₁
  refine ⟨w₂, hstill.trans hstill₂, ?_⟩
  refine (runIn_bind_of_ok (runIn_mapError_of_ok hpointer)).trans ?_
  refine (runIn_bind_of_ok (by rw [htarget]; rfl)).trans ?_
  exact (runIn_attempt_bind hget).trans rfl

variable (net) in
theorem run_collectFrom (hkeys : client.crypto.KeysAgree) :
    ∀ (after before : List Link) (steps : Nat) (w : World), client.IsChain owner w links →
      links = before ++ after → after.length < steps →
      net.Reads (RegisterHistory.collectFrom client steps
        ⟨client.crypto.blsPublicKey owner, client.entryAddress owner before⟩) w
          (.ok (some (after.map Link.value))) := by
  intro after
  induction after with
  | nil =>
    intro before steps w hchain hlinks hsteps
    obtain ⟨rest, rfl⟩ := Nat.exists_eq_succ_of_ne_zero (Nat.ne_of_gt hsteps)
    rw [append_nil] at hlinks
    subst hlinks
    obtain ⟨w', hstill, hget⟩ := net.run_graphEntryGet_none hchain.ends
    have hnone : net.run (client.registerGetGraphEntryAndNextDerivationIndex
        (client.entryAddress owner links)) w
          = (.error (.graphError (.read (.getError .recordNotFound))), w') :=
      (runIn_attempt_bind hget).trans rfl
    have hnext : net.run (RegisterHistory.next client
        ⟨client.crypto.blsPublicKey owner, client.entryAddress owner links⟩) w
          = (.ok (none, ⟨_, _⟩), w') := (runIn_attempt_bind hnone).trans rfl
    exact ⟨w', hstill, (runIn_bind_of_ok hnext).trans rfl⟩
  | cons link after ih =>
    intro before steps w hchain hlinks hsteps
    obtain ⟨rest, rfl⟩ := Nat.exists_eq_succ_of_ne_zero (Nat.ne_of_gt (Nat.zero_lt_of_lt hsteps))
    obtain ⟨_, w₁, rfl, hstill, hlink⟩ :=
      net.run_getLink (linksAt_one (hchain.entry before link after hlinks))
    have hnext : net.run (RegisterHistory.next client
        ⟨client.crypto.blsPublicKey owner, client.entryAddress owner before⟩) w
          = (.ok (some link.value, ⟨client.crypto.blsPublicKey owner,
              client.entryAddress owner (before ++ [link])⟩), w₁) := by
      rw [entryAddress_append hkeys]
      exact (runIn_attempt_bind hlink).trans rfl
    obtain ⟨w₂, hstill₂, hrest⟩ := ih (before ++ [link]) rest w₁ (hchain.still hstill)
      (by rw [hlinks, append_assoc]; rfl) (Nat.lt_of_succ_lt_succ hsteps)
    refine ⟨w₂, hstill.trans hstill₂, (runIn_bind_of_ok hnext).trans ?_⟩
    exact (runIn_bind_of_ok hrest).trans rfl

end Network

end Client

end Autonomi
