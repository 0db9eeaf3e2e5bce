/-
How a vault is stored.

To its owner a vault is a list of scratchpads, in the order in which they were claimed,
each empty or with a piece of content.

`StoresVault` says how such a list is stored: the scratchpads are those of a chain of
graph entries, each entry alone under the key that the one before it names, and under
the key that the last one names there is nothing.

The indices of a new entry are random numbers.  That the keys derived with them are all
different, and that nothing is stored under them, is assumed for the numbers up to a
limit, and everything here is about runs that do not draw more.
-/
import Autonomi.Client.Vault
import Autonomi.Proofs.World

namespace Autonomi

open Lib List

/-- What encryption for a BLS key is relied on for: it adds a fixed number of bytes, and what was
encrypted for a key is decrypted with it. -/
structure Crypto.Encrypts (c : Crypto) (overhead : Nat) : Prop where
  length : ∀ key number message,
    (c.blsEncrypt key number message).length = message.length + overhead
  reads : ∀ key number message, c.blsIsCiphertext (c.blsEncrypt key number message) = true
  decrypts : ∀ key number message,
    c.blsDecrypt key (c.blsEncrypt (c.blsPublicKey key) number message) = some message

theorem Scratchpad.decryptData_new {c : Crypto} {overhead : Nat} (h : c.Encrypts overhead)
    (number : Bytes32) (owner : SecretKey) (dataEncoding : UInt64) (data : Bytes)
    (counter : UInt64) :
    (Scratchpad.new c number owner dataEncoding data counter).decryptData c owner = .ok data := by
  show (if c.blsIsCiphertext (c.blsEncrypt (c.blsPublicKey owner) number data) then
    Checks.okOr (c.blsDecrypt owner (c.blsEncrypt (c.blsPublicKey owner) number data)) _
      else _) = _
  rw [if_pos (h.reads _ _ _), h.decrypts]
  rfl

namespace Client

open Lib.Fallible

/-! ### A vault as its owner sees it -/

structure Piece where
  content : Bytes
  contentType : VaultContentType

abbrev Pad := DerivationIndex × Option Piece

/-- The indices in one graph entry: of the next entry, and of the scratchpads. -/
structure Block where
  next : DerivationIndex
  pads : List DerivationIndex
  size : pads.length = numOfScratchpadsPerGraphEntry

def Block.newPads (block : Block) : List Pad := block.pads.map (·, none)

theorem Block.map_fst_newPads (block : Block) : block.newPads.map Prod.fst = block.pads := by
  rw [newPads, map_map]
  exact map_id _

/-- Write pieces to the first pads, and leave the others as they are. -/
def fillPads : List Pad → List Piece → List Pad
  | (index, _) :: pads, piece :: pieces => (index, some piece) :: fillPads pads pieces
  | pads, _ => pads

/-- What is read: up to the first piece that is shorter than the maximum once it is encrypted. -/
def readPads (overhead : Nat) : List Pad → Option (Bytes × VaultContentType)
  | (_, some piece) :: pads =>
    if piece.content.length + overhead < maxContentPerScratchpad then
      some (piece.content, piece.contentType)
    else (readPads overhead pads).map fun rest => (piece.content ++ rest.1, rest.2)
  | _ => none

@[simp] theorem fillPads_nil (pads : List Pad) : fillPads pads [] = pads := by
  cases pads <;> rfl

/-! ### How it is stored -/

section Stored

variable (client : Client) (owner : SecretKey)

variable (index : DerivationIndex)

/-- The secret key, the address and the name that belong to an index. -/
abbrev indexKey : SecretKey := client.crypto.blsDeriveSecret owner index

abbrev indexAddress : PublicKey :=
  client.crypto.blsPublicKey (client.indexKey owner index)

abbrev indexName : XorName :=
  ownerName client.crypto (client.indexAddress owner index)

def blockEntry (block : Block) : GraphEntry :=
  .new client.crypto (client.indexKey owner index) [] (Vector.replicate 32 0)
    (client.derivedKey owner block.next :: block.pads.map (client.derivedKey owner))

/-- The entries of a chain from an index on, each alone under its key. -/
def BlocksAt (w : World) : DerivationIndex → List Block → Prop
  | _, [] => True
  | index, block :: blocks =>
    w.under client.crypto (client.indexAddress owner index)
      = some (.ofGraphEntries [client.blockEntry owner index block]) ∧
    BlocksAt w block.next blocks

def freeIndex : DerivationIndex → List Block → DerivationIndex
  | index, [] => index
  | _, block :: blocks => freeIndex block.next blocks

/-- Under the key of a scratchpad there is nothing, or a piece that passed the client's checks. -/
def PadAt (w : World) (index : DerivationIndex) : Option Piece → Prop
  | none => w.under client.crypto (client.indexAddress owner index) = none
  | some piece => piece.content ≠ [] ∧ ∃ number counter,
      client.scratchpadVerify (.new client.crypto number (client.indexKey owner index)
        piece.contentType piece.content counter) = .ok () ∧
      w.under client.crypto (client.indexAddress owner index)
        = some (.ofScratchpad (.new client.crypto number (client.indexKey owner index)
            piece.contentType piece.content counter))

variable {client owner} {w w' : World}

theorem freeIndex_append (block : Block) :
    ∀ (blocks : List Block) (index : DerivationIndex),
      freeIndex index (blocks ++ [block]) = block.next := by
  intro blocks
  induction blocks with
  | nil => intro index; rfl
  | cons first blocks ih => intro index; exact ih first.next

theorem blocksAt_append {block : Block} :
    ∀ (blocks : List Block) (index : DerivationIndex),
      client.BlocksAt owner w index (blocks ++ [block]) ↔
        client.BlocksAt owner w index blocks ∧
        w.under client.crypto (client.indexAddress owner (freeIndex index blocks))
          = some (.ofGraphEntries [client.blockEntry owner (freeIndex index blocks) block]) := by
  intro blocks
  induction blocks with
  | nil => intro index; exact and_comm
  | cons first blocks ih =>
    intro index
    exact (and_congr_right fun _ => ih first.next).trans and_assoc.symm

theorem BlocksAt.frame
    (hframe : ∀ key entries, w.store key = some (.ofGraphEntries entries) →
      w'.store key = w.store key) :
    ∀ (blocks : List Block) (index : DerivationIndex),
      client.BlocksAt owner w index blocks → client.BlocksAt owner w' index blocks := by
  intro blocks
  induction blocks with
  | nil => intro index _; trivial
  | cons first blocks ih =>
    intro index h
    exact ⟨(hframe _ _ h.1).trans h.1, ih first.next h.2⟩

theorem PadAt.frame {index : DerivationIndex} {content : Option Piece}
    (h : client.PadAt owner w index content)
    (hsame : w'.store (client.indexName owner index).toList
      = w.store (client.indexName owner index).toList) :
    client.PadAt owner w' index content := by
  cases content with
  | none => exact hsame.trans h
  | some piece =>
    obtain ⟨hnonempty, number, counter, hverify, hunder⟩ := h
    exact ⟨hnonempty, number, counter, hverify, hsame.trans hunder⟩

theorem PadAt.store_ne {index : DerivationIndex} {content : Option Piece}
    (h : client.PadAt owner w index content) (entries : List GraphEntry) :
    some (.ofGraphEntries entries) ≠ w.store (client.indexName owner index).toList := by
  cases content with
  | none => rw [show w.store (client.indexName owner index).toList = none from h]; exact nofun
  | some piece =>
    obtain ⟨-, number, counter, -, hunder⟩ := h
    rw [show w.store (client.indexName owner index).toList = _ from hunder]
    exact nofun

end Stored

namespace Network

variable {client : Client} (net : Network client) (owner : SecretKey) (limit : Nat)

/-- The numbers that are still to be drawn, up to a limit. -/
def toDraw (drawn limit : Nat) : List Bytes32 :=
  (List.range' drawn (limit - drawn)).map net.random

theorem toDraw_add {drawn draws limit : Nat} (h : drawn + draws ≤ limit) :
    net.toDraw drawn limit
      = (List.range' drawn draws).map net.random ++ net.toDraw (drawn + draws) limit := by
  obtain ⟨more, rfl⟩ := Nat.exists_eq_add_of_le h
  rw [toDraw, toDraw, ← map_append, Nat.add_assoc, Nat.add_sub_cancel_left,
    ← Nat.add_assoc, Nat.add_sub_cancel_left, List.range'_append_1]

theorem toDraw_succ {drawn limit : Nat} (h : drawn < limit) :
    net.toDraw drawn limit = net.random drawn :: net.toDraw (drawn + 1) limit :=
  net.toDraw_add (show drawn + 1 ≤ limit from h)

/-- A vault is stored: its scratchpads, the chain they belong to, and what is needed of the numbers
still to be drawn. -/
structure StoresVault (w : World) (blocks : List Block) (pads : List Pad) : Prop where
  chain : client.BlocksAt owner w vaultHeadDerivationIndex blocks
  indices : pads.map Prod.fst = blocks.flatMap Block.pads
  pad : ∀ pad ∈ pads, client.PadAt owner w pad.1 pad.2
  apart : ((freeIndex vaultHeadDerivationIndex blocks :: pads.map Prod.fst ++
    net.toDraw w.drawn.length limit).map (client.indexName owner)).Nodup
  unused : ∀ index ∈ freeIndex vaultHeadDerivationIndex blocks ::
    net.toDraw w.drawn.length limit, w.store (client.indexName owner index).toList = none

variable {net owner limit} {w w₁ w' : World} {blocks : List Block} {pads : List Pad}

theorem storesVault_nil (h : w.Unused ((vaultHeadDerivationIndex ::
    net.toDraw w.drawn.length limit).map (client.indexName owner))) :
    net.StoresVault owner limit w [] [] where
  chain := trivial
  indices := rfl
  pad := forall_mem_nil _
  apart := h.1
  unused _ hindex := h.2 _ (mem_map_of_mem hindex)

theorem StoresVault.still (h : net.StoresVault owner limit w blocks pads) (hstill : w.Still w') :
    net.StoresVault owner limit w' blocks pads where
  chain := BlocksAt.frame (fun _ _ _ => by rw [hstill.store]) _ _ h.chain
  indices := h.indices
  pad pad hpad := (h.pad pad hpad).frame (by rw [hstill.store])
  apart := by rw [hstill.drawn]; exact h.apart
  unused := by rw [hstill.drawn, hstill.store]; exact h.unused

variable {before after : List Pad} {index : DerivationIndex} {old : Option Piece}
  (h : net.StoresVault owner limit w blocks (before ++ (index, old) :: after))

include h

/-- The name of a scratchpad is not that of another, nor that of anything to come. -/
theorem StoresVault.store_eq {other : DerivationIndex} {value : RecordValue}
    (hstored : (net.drawnNext w).Stored (client.indexName owner index).toList value w')
    (hother : other ∈ freeIndex vaultHeadDerivationIndex blocks ::
      (before ++ after).map Prod.fst ++ net.toDraw w.drawn.length limit) :
    w'.store (client.indexName owner other).toList
      = w.store (client.indexName owner other).toList := by
  have hperm : (freeIndex vaultHeadDerivationIndex blocks ::
      (before ++ (index, old) :: after).map Prod.fst ++ net.toDraw w.drawn.length limit).Perm
        (index :: (freeIndex vaultHeadDerivationIndex blocks ::
          (before ++ after).map Prod.fst ++ net.toDraw w.drawn.length limit)) := by
    rw [map_append, map_append]
    refine (List.Perm.append_right _ (perm_middle.cons _)).trans ?_
    exact List.Perm.append_right _ (List.Perm.swap _ _ _)
  have hnodup := ((hperm.map (client.indexName owner)).nodup_iff).mp h.apart
  refine hstored.of_name_ne fun heq => ?_
  exact (nodup_cons.mp hnodup).1 (heq ▸ mem_map_of_mem hother)

theorem StoresVault.write {piece : Piece} (hlimit : w'.drawn.length ≤ limit)
    (hnonempty : piece.content ≠ []) {number : Bytes32} {counter : UInt64}
    (hverify : client.scratchpadVerify (.new client.crypto number (client.indexKey owner index)
      piece.contentType piece.content counter) = .ok ())
    (hstored : (net.drawnNext w).Stored (client.indexName owner index).toList
      (.ofScratchpad (.new client.crypto number (client.indexKey owner index)
        piece.contentType piece.content counter)) w') :
    net.StoresVault owner limit w' blocks (before ++ (index, some piece) :: after) := by
  have hdrawn : w'.drawn.length = w.drawn.length + 1 := by
    rw [hstored.drawn]
    exact length_append
  have hwas := h.pad (index, old) (by simp)
  have hrest : net.toDraw w.drawn.length limit
      = net.random w.drawn.length :: net.toDraw w'.drawn.length limit := by
    rw [hdrawn, net.toDraw_succ (by omega)]
  have hsub : (net.toDraw w'.drawn.length limit).Sublist (net.toDraw w.drawn.length limit) :=
    hrest ▸ sublist_cons_self _ _
  refine ⟨?_, ?_, ?_, ?_, ?_⟩
  · refine BlocksAt.frame (fun key entries hkey => ?_) _ _ h.chain
    exact hstored.of_store_ne (hkey.trans_ne (hwas.store_ne entries))
  · rw [← h.indices, map_append, map_append]
    rfl
  · intro pad hpad
    by_cases hmem : pad ∈ before ++ after
    · refine (h.pad pad ?_).frame (h.store_eq hstored ?_)
      · grind
      · exact mem_append_left _ (mem_cons_of_mem _ (mem_map_of_mem hmem))
    · obtain rfl : pad = (index, some piece) := by grind
      exact ⟨hnonempty, number, counter, hverify, hstored.same⟩
  · have hfst : (before ++ (index, some piece) :: after).map Prod.fst
        = (before ++ (index, old) :: after).map Prod.fst := by
      rw [map_append, map_append]
      rfl
    rw [hfst]
    exact h.apart.sublist ((hsub.append_left _).map _)
  · intro other hother
    have hbefore : other ∈ freeIndex vaultHeadDerivationIndex blocks ::
        net.toDraw w.drawn.length limit := (hsub.cons_cons _).subset hother
    refine (h.store_eq hstored ?_).trans (h.unused other hbefore)
    rcases mem_cons.mp hbefore with rfl | hdraw
    · exact mem_append_left _ mem_cons_self
    · exact mem_append_right _ hdraw

omit h

theorem StoresVault.expand (h : net.StoresVault owner limit w blocks pads) {block : Block}
    (hnumbers : block.next :: block.pads = (List.range' w.drawn.length
      (numOfScratchpadsPerGraphEntry + 1)).map net.random)
    (hstore : w₁.store = w.store)
    (hdrawn : w₁.drawn.length = w.drawn.length + (numOfScratchpadsPerGraphEntry + 1))
    (hlimit : w₁.drawn.length ≤ limit)
    (hstored : w₁.Stored (client.indexName owner (freeIndex vaultHeadDerivationIndex blocks)).toList
      (Item.takenIn (w₁.under client.crypto (client.indexAddress owner
          (freeIndex vaultHeadDerivationIndex blocks)))
        (.graphEntry (client.blockEntry owner (freeIndex vaultHeadDerivationIndex blocks) block)))
      w') :
    net.StoresVault owner limit w' (blocks ++ [block]) (pads ++ block.newPads) := by
  let free := freeIndex vaultHeadDerivationIndex blocks
  have hrest : net.toDraw w.drawn.length limit
      = block.next :: block.pads ++ net.toDraw w'.drawn.length limit := by
    rw [hnumbers, hstored.drawn, hdrawn, net.toDraw_add (hdrawn ▸ hlimit)]
  have hnew : ∀ index ∈ block.next :: block.pads ++ net.toDraw w'.drawn.length limit,
      w.store (client.indexName owner index).toList = none := fun index hindex =>
    h.unused index (mem_cons_of_mem _ (hrest ▸ hindex))
  have hfree : w₁.store (client.indexName owner free).toList = none := by
    rw [hstore]
    exact h.unused free mem_cons_self
  rw [World.under, hfree] at hstored
  -- the free index is used up, and the first of the new ones takes its place
  have hperm : (free :: pads.map Prod.fst ++ net.toDraw w.drawn.length limit).Perm
      (free :: (block.next :: (pads ++ block.newPads).map Prod.fst ++
        net.toDraw w'.drawn.length limit)) := by
    rw [hrest, map_append, block.map_fst_newPads, cons_append, cons_append,
      cons_append, append_assoc]
    exact perm_middle.cons _
  have hnodup := nodup_cons.mp
    (((hperm.map (client.indexName owner)).nodup_iff).mp h.apart)
  have hsame : ∀ other ∈ block.next :: (pads ++ block.newPads).map Prod.fst ++
      net.toDraw w'.drawn.length limit, w'.store (client.indexName owner other).toList
        = w.store (client.indexName owner other).toList := by
    intro other hother
    rw [hstored.of_ne, hstore]
    intro heq
    exact hnodup.1 (Vector.toList_inj.mp heq ▸ mem_map_of_mem hother)
  refine ⟨?_, ?_, ?_, ?_, ?_⟩
  · refine (blocksAt_append _ _).mpr ⟨?_, hstored.same⟩
    refine BlocksAt.frame (fun key entries hkey => ?_) _ _ h.chain
    rw [hstored.of_store_ne, hstore]
    rw [hfree, hstore, hkey]
    exact Option.some_ne_none _
  · rw [map_append, h.indices, block.map_fst_newPads, flatMap_append, flatMap_singleton]
  · intro pad hpad
    have hindex : pad.1 ∈ block.next :: (pads ++ block.newPads).map Prod.fst ++
        net.toDraw w'.drawn.length limit :=
      mem_append_left _ (mem_cons_of_mem _ (mem_map_of_mem hpad))
    rcases mem_append.mp hpad with hold | hadded
    · exact (h.pad pad hold).frame (hsame _ hindex)
    · obtain ⟨index, hmem, rfl⟩ := mem_map.mp hadded
      exact (hsame _ hindex).trans (hnew index (mem_append_left _ (mem_cons_of_mem _ hmem)))
  · rw [freeIndex_append]
    exact hnodup.2
  · rw [freeIndex_append]
    intro index hindex
    have hmem : index ∈ block.next :: block.pads ++ net.toDraw w'.drawn.length limit := by
      rcases mem_cons.mp hindex with rfl | hdraw
      · exact mem_cons_self
      · exact mem_append_right _ hdraw
    refine (hsame index ?_).trans (hnew index hmem)
    rcases mem_cons.mp hindex with rfl | hdraw
    · exact mem_cons_self
    · exact mem_append_right _ hdraw

/-! ### Claiming scratchpads -/

variable (net) in
theorem run_vaultClaimedCapacity :
    ∀ (blocks : List Block) (steps : Nat) (index : DerivationIndex)
      (claimed : List (PublicKey × Bytes32)) (w : World),
      client.BlocksAt owner w index blocks →
      w.under client.crypto (client.indexAddress owner (freeIndex index blocks)) = none →
      net.Reads (client.vaultClaimedCapacity owner steps index claimed) w
        (.ok (if blocks.length < steps then some (freeIndex index blocks,
          claimed ++ (blocks.flatMap Block.pads).map (client.derivedKey owner)) else none)) := by
  intro blocks steps
  induction steps generalizing blocks with
  | zero => intro index claimed w _ _; exact ⟨w, .refl w, rfl⟩
  | succ steps ih =>
    intro index claimed w hchain hfree
    cases blocks with
    | nil =>
      obtain ⟨w', hstill, hget⟩ := net.run_graphEntryGet_none hfree
      refine ⟨w', hstill, (runIn_attempt_bind hget).trans ?_⟩
      rw [flatMap_nil, map_nil, append_nil]
      rfl
    | cons block blocks =>
      obtain ⟨w₁, hstill, hget⟩ := net.run_graphEntryGet hchain.1
      obtain ⟨w', hstill', hrest⟩ := ih blocks block.next
        (claimed ++ block.pads.map (client.derivedKey owner)) w₁
        (BlocksAt.frame (fun _ _ _ => by rw [hstill.store]) _ _ hchain.2)
        (by rw [World.under, hstill.store]; exact hfree)
      refine ⟨w', hstill.trans hstill', (runIn_attempt_bind hget).trans ?_⟩
      have hlength : ¬ (client.blockEntry owner index block).descendants.length
          ≤ numOfScratchpadsPerGraphEntry := by
        simp [blockEntry, GraphEntry.new, block.size]
      have hnext : net.run (if (client.blockEntry owner index block).descendants.length
            ≤ numOfScratchpadsPerGraphEntry then
          throw (.vaultNotEnoughGraphDescendants (client.indexAddress owner index)
            (client.blockEntry owner index block).descendants.length)
        else client.vaultClaimedCapacity owner steps block.next
          (claimed ++ block.pads.map (client.derivedKey owner))) w₁ = _ :=
        (congrArg (net.run · w₁) (if_neg hlength)).trans hrest
      refine Eq.trans rfl (hnext.trans ?_)
      simp only [length_cons, Nat.add_lt_add_iff_right, flatMap_cons, map_append,
        append_assoc]
      rfl

variable (net) in
theorem run_eachRandom {ε β : Type} (l : List β) :
    ∀ w, ∃ w', net.run (each (fun _ => Client.random) l : ClientM ε (List Bytes32)) w
        = (.ok ((List.range' w.drawn.length l.length).map net.random), w') ∧
      w'.store = w.store ∧ w'.drawn.length = w.drawn.length + l.length := by
  induction l with
  | nil => intro w; exact ⟨w, rfl, rfl, rfl⟩
  | cons b l ih =>
    intro w
    have hlength : (net.drawnNext w).tick.drawn.length = w.drawn.length + 1 := length_append
    obtain ⟨w', hrest, hstore, hdrawn⟩ := ih (net.drawnNext w).tick
    rw [hlength] at hrest hdrawn
    refine ⟨w', ?_, hstore, ?_⟩
    · exact (runIn_bind_of_ok rfl).trans (runIn_bind_of_ok hrest)
    · rw [length_cons]
      omega

variable (net owner) in
theorem run_vaultExpandCapacity (index : DerivationIndex) (paymentOption : PaymentOption)
    (w : World) : ∃ (block : Block) (w₁ : World),
      block.next :: block.pads = (List.range' w.drawn.length
        (numOfScratchpadsPerGraphEntry + 1)).map net.random ∧
      w₁.store = w.store ∧
      w₁.drawn.length = w.drawn.length + (numOfScratchpadsPerGraphEntry + 1) ∧
      net.run (client.vaultExpandCapacity owner index paymentOption) w
        = net.run (do
            let (graphCost, _) ← mapError VaultError.graphEntry
              (client.graphEntryPut (client.blockEntry owner index block) paymentOption)
            return (block.next, block.pads.map (client.derivedKey owner), graphCost)) w₁ := by
  have hlength : (net.drawnNext w).tick.drawn.length = w.drawn.length + 1 := length_append
  obtain ⟨w₁, hdraws, hstore, hdrawn⟩ := net.run_eachRandom
    (List.range numOfScratchpadsPerGraphEntry) (net.drawnNext w).tick
  rw [hlength, length_range] at hdraws hdrawn
  refine ⟨⟨net.random w.drawn.length, (List.range' (w.drawn.length + 1)
    numOfScratchpadsPerGraphEntry).map net.random, by simp⟩, w₁, rfl, hstore, by omega, ?_⟩
  refine (runIn_bind_of_ok rfl).trans ?_
  exact runIn_bind_of_ok hdraws

theorem storesVault_of_vaultExpandCapacity {paymentOption : PaymentOption}
    (h : net.StoresVault owner limit w blocks pads)
    {result : DerivationIndex × List (PublicKey × Bytes32) × Amount}
    (hrun : net.run (client.vaultExpandCapacity owner
      (freeIndex vaultHeadDerivationIndex blocks) paymentOption) w = (.ok result, w'))
    (hlimit : w'.drawn.length ≤ limit) :
    ∃ block : Block, result.1 = block.next ∧
      result.2.1 = block.pads.map (client.derivedKey owner) ∧
      net.StoresVault owner limit w' (blocks ++ [block]) (pads ++ block.newPads) := by
  obtain ⟨block, w₁, hnumbers, hstore, hdrawn, hput⟩ := net.run_vaultExpandCapacity
    owner (freeIndex vaultHeadDerivationIndex blocks) paymentOption w
  obtain ⟨put, w₂, hentry, hlast⟩ := runIn_bind_eq_ok.mp (hput.symm.trans hrun)
  obtain ⟨-, hstored⟩ := stored_of_graphEntryPut (runIn_of_mapError_ok hentry)
  cases hlast
  rw [hstored.drawn] at hlimit
  exact ⟨block, rfl, rfl, h.expand hnumbers hstore hdrawn hlimit hstored⟩

theorem storesVault_of_vaultExpandUntil {paymentOption : PaymentOption} {required : Nat} :
    ∀ (rounds : Nat) (blocks : List Block) (pads : List Pad) (totalCost : Amount) (w : World)
      (result : List (PublicKey × Bytes32) × Amount),
      net.StoresVault owner limit w blocks pads →
      required ≤ pads.length + rounds →
      net.run (client.vaultExpandUntil owner paymentOption required rounds
        (freeIndex vaultHeadDerivationIndex blocks)
        (pads.map fun pad => client.derivedKey owner pad.1) totalCost) w = (.ok result, w') →
      w'.drawn.length ≤ limit →
      ∃ blocks' pads', net.StoresVault owner limit w' blocks' pads' ∧
        result.1 = pads'.map (fun pad => client.derivedKey owner pad.1) ∧
        required ≤ pads'.length := by
  intro rounds
  induction rounds with
  | zero =>
    intro blocks pads totalCost w result h henough hrun hlimit
    cases hrun
    exact ⟨blocks, pads, h, rfl, henough⟩
  | succ rounds ih =>
    intro blocks pads totalCost w result h henough hrun hlimit
    rw [vaultExpandUntil] at hrun
    by_cases hshort : pads.length < required
    · rw [if_pos (by rw [length_map]; exact hshort)] at hrun
      obtain ⟨⟨next, newPads, cost⟩, w₁, hexpand, hrest⟩ := runIn_bind_eq_ok.mp hrun
      have hlimit₁ : w₁.drawn.length ≤ limit := (net.drawn_le hrest).trans hlimit
      obtain ⟨block, rfl, rfl, h₁⟩ := storesVault_of_vaultExpandCapacity h hexpand hlimit₁
      have hlength : block.newPads.length = numOfScratchpadsPerGraphEntry :=
        (length_map _).trans block.size
      have hkeys : block.newPads.map (fun pad => client.derivedKey owner pad.1)
          = block.pads.map (client.derivedKey owner) := map_map
      refine ih (blocks ++ [block]) (pads ++ block.newPads) (totalCost + cost) w₁ result h₁ ?_ ?_
        hlimit
      · rw [length_append, hlength]
        exact henough.trans (by simp only [numOfScratchpadsPerGraphEntry]; omega)
      · rw [freeIndex_append, map_append, hkeys]
        exact hrest
    · rw [if_neg (by rw [length_map]; exact hshort)] at hrun
      cases hrun
      exact ⟨blocks, pads, h, rfl, not_lt.mp hshort⟩

/-! ### Writing -/

variable {contentType : VaultContentType} {paymentOption : PaymentOption}

theorem storesVault_of_vaultWriteScratchpad {content : Bytes} {price : Option Amount}
    (h : net.StoresVault owner limit w blocks (before ++ (index, old) :: after))
    (hnonempty : content ≠ [])
    (hrun : net.run (client.vaultWriteScratchpad owner contentType paymentOption
      (client.derivedKey owner index, content)) w = (.ok price, w'))
    (hlimit : w'.drawn.length ≤ limit) :
    net.StoresVault owner limit w' blocks
      (before ++ (index, some ⟨content, contentType⟩) :: after) := by
  have hcheck : net.run (mapError VaultError.scratchpad
      (client.scratchpadCheckExistence (client.indexAddress owner index))) w = _ :=
    runIn_mapError_of_ok (run_scratchpadCheckExistence _)
  have hchecked : net.StoresVault owner limit w.tick blocks
      (before ++ (index, old) :: after) := h.still w.still_tick
  have hpad := hchecked.pad (index, old) (by simp)
  cases old with
  | none =>
    rw [show w.under client.crypto (client.indexAddress owner index) = none from hpad] at hcheck
    have hcreate := (runIn_bind_of_ok hcheck).symm.trans hrun
    obtain ⟨created, w₁, hcreated, hlast⟩ := runIn_bind_eq_ok.mp hcreate
    obtain rfl : w₁ = w' := congrArg Prod.snd hlast
    obtain ⟨_, rfl, hverify, hstored⟩ :=
      stored_of_scratchpadCreate hpad (runIn_of_mapError_ok hcreated)
    exact hchecked.write hlimit hnonempty hverify hstored
  | some piece =>
    obtain ⟨-, number, counter, hverified, hunder⟩ := hpad
    rw [show w.under client.crypto (client.indexAddress owner index) = some _ from hunder] at hcheck
    have hupdate := (runIn_bind_of_ok hcheck).symm.trans hrun
    obtain ⟨_, w₁, hupdated, hlast⟩ := runIn_bind_eq_ok.mp hupdate
    obtain rfl : w₁ = w' := congrArg Prod.snd hlast
    obtain ⟨_, rfl, hverify, hstored⟩ :=
      stored_of_scratchpadUpdate hunder hverified (runIn_of_mapError_ok hupdated)
    exact hchecked.write hlimit hnonempty hverify hstored

theorem storesVault_of_writes (contents : List Bytes) :
    ∀ (done rest : List Pad) (w : World) (results : List (Except VaultError (Option Amount))),
      net.StoresVault owner limit w blocks (done ++ rest) →
      (∀ content ∈ contents, content ≠ []) →
      net.run (each (fun task => attempt (client.vaultWriteScratchpad owner contentType
        paymentOption task)) ((rest.map fun pad => client.derivedKey owner pad.1).zip contents) :
          ClientM VaultError _) w = (.ok results, w') →
      w'.drawn.length ≤ limit → (∀ result ∈ results, result.isOk = true) →
      net.StoresVault owner limit w' blocks
        (done ++ fillPads rest (contents.map (⟨·, contentType⟩))) := by
  induction contents with
  | nil =>
    intro done rest w results h _ hrun _ _
    rw [zip_nil_right] at hrun
    obtain rfl : w = w' := congrArg Prod.snd hrun
    rwa [map_nil, fillPads_nil]
  | cons content contents ih =>
    intro done rest w results h hnonempty hrun hlimit hok
    cases rest with
    | nil =>
      obtain rfl : w = w' := congrArg Prod.snd hrun
      exact h
    | cons pad rest =>
      obtain ⟨index, old⟩ := pad
      obtain ⟨result, w₁, hfirst, hothers⟩ := runIn_bind_eq_ok.mp hrun
      obtain ⟨others, w₂, hrest, hlast⟩ := runIn_bind_eq_ok.mp hothers
      cases hlast
      obtain ⟨hresult, hoks⟩ := forall_mem_cons.mp hok
      obtain ⟨price, rfl⟩ := Checks.isOk_iff.mp hresult
      obtain ⟨hcontent, hnonempty⟩ := forall_mem_cons.mp hnonempty
      have hwritten := storesVault_of_vaultWriteScratchpad h hcontent
        (runIn_of_attempt_ok hfirst) ((net.drawn_le hrest).trans hlimit)
      rw [append_cons] at hwritten
      have hall := ih (done ++ [(index, some ⟨content, contentType⟩)]) rest w₁ others hwritten
        hnonempty hrest hlimit hoks
      rwa [← append_cons] at hall

theorem isOk_of_addPrices {results : List (Except VaultError (Option Amount))}
    {totalCost total : Amount} (h : addPrices results totalCost = .ok total) :
    ∀ result ∈ results, result.isOk = true := by
  fun_induction addPrices results totalCost with
  | case1 => exact forall_mem_nil _
  | case2 price results totalCost ih
  | case3 results totalCost ih => exact forall_mem_cons.mpr ⟨rfl, ih h⟩
  | case4 e results totalCost => cases h

/-- **A put that succeeds fills the first scratchpads with the pieces of its data**, after adding
to the chain what was missing. -/
theorem storesVault_of_vaultPut {steps : Nat} {data : Bytes} {cost : Amount}
    (h : net.StoresVault owner limit w blocks pads)
    (hrun : net.run (client.vaultPut steps data paymentOption owner contentType) w
      = (.ok (some cost), w')) (hlimit : w'.drawn.length ≤ limit) :
    data ≠ [] ∧ ∃ blocks' pads', (vaultSplitBytes data).length ≤ pads'.length ∧
      net.StoresVault owner limit w' blocks'
        (fillPads pads' ((vaultSplitBytes data).map (⟨·, contentType⟩))) := by
  obtain ⟨_, w₀, hreject, hrest⟩ := runIn_bind_eq_ok.mp hrun
  by_cases hempty : data = []
  · rw [reject, if_pos hempty] at hreject
    cases congrArg Prod.fst hreject
  obtain rfl : w = w₀ := congrArg Prod.snd hreject
  obtain ⟨w₁, hstill, hclaimed⟩ := net.run_vaultClaimedCapacity blocks steps
    vaultHeadDerivationIndex [] w h.chain (h.unused _ mem_cons_self)
  have hput := (runIn_bind_of_ok hclaimed).symm.trans hrest
  by_cases hsteps : blocks.length < steps
  · simp only [if_pos hsteps] at hput
    obtain ⟨⟨keys, graphCost⟩, w₂, hexpand, hput⟩ := runIn_bind_eq_ok.mp hput
    obtain ⟨results, w₃, hwrites, hput⟩ := runIn_bind_eq_ok.mp hput
    obtain ⟨arranged, w₄, horder, hput⟩ := runIn_bind_eq_ok.mp hput
    obtain ⟨total, w₅, hprices, hlast⟩ := runIn_bind_eq_ok.mp hput
    obtain rfl : w₅ = w' := congrArg Prod.snd hlast
    obtain ⟨hadded, rfl⟩ := Prod.mk.inj hprices
    obtain ⟨order, harranged⟩ := net.run_inAnyOrder results w₃
    obtain ⟨harranged, rfl⟩ := Prod.mk.inj (harranged.symm.trans horder)
    have hok : ∀ result ∈ results, result.isOk = true := by
      intro result hresult
      refine isOk_of_addPrices hadded result ?_
      rw [← Except.ok.inj harranged]
      exact (arrange_perm results order).mem_iff.mpr hresult
    have hkeys : [] ++ (blocks.flatMap Block.pads).map (client.derivedKey owner)
        = pads.map fun pad => client.derivedKey owner pad.1 := by
      rw [← h.indices, map_map]
      rfl
    rw [hkeys] at hexpand
    obtain ⟨blocks', pads', h', rfl, henough⟩ := storesVault_of_vaultExpandUntil _ blocks pads 0
      w₁ _ (h.still hstill) (Nat.le_add_left _ _) hexpand ((net.drawn_le hwrites).trans hlimit)
    have hwritten := storesVault_of_writes (vaultSplitBytes data) [] pads' w₂ results h'
      (fun _ => ne_nil_of_mem_batches) hwrites hlimit hok
    exact ⟨hempty, blocks', pads', henough, hwritten.still w₃.still_tick⟩
  · simp only [if_neg hsteps] at hput
    cases congrArg Prod.fst hput

/-! ### Getting -/

section Reading

variable {overhead : Nat} (net) (hencrypts : client.crypto.Encrypts overhead)
include hencrypts

/-- The scratchpads of one entry are read to the end of the content, to the last of them, or to one
that is empty. -/
theorem run_fetchScratchpads (more : List Pad) :
    ∀ (pads : List Pad) (text : Bytes) (contentType : VaultContentType) (w : World),
      (∀ pad ∈ pads, client.PadAt owner w pad.1 pad.2) →
      ∃ r, net.Reads (client.fetchScratchpadsOfOneGraphEntryAndDecrypt owner
          (pads.map fun pad => client.derivedKey owner pad.1) text contentType) w r ∧
        ((∃ read, readPads overhead (pads ++ more) = some read ∧
          r = .ok (text ++ read.1, read.2, true)) ∨
        (∃ found lastType, readPads overhead (pads ++ more)
            = (readPads overhead more).map (fun rest => (found ++ rest.1, rest.2)) ∧
          r = .ok (text ++ found, lastType, false)) ∨
        (readPads overhead (pads ++ more) = none ∧ ∃ e, r = .error e)) := by
  intro pads
  induction pads with
  | nil =>
    intro text contentType w _
    exact ⟨_, ⟨w, .refl w, rfl⟩, .inr (.inl ⟨[], contentType, by simp, by rw [append_nil]⟩)⟩
  | cons pad pads ih =>
    intro text contentType w hpads
    obtain ⟨index, content⟩ := pad
    obtain ⟨hpad, hrest⟩ := forall_mem_cons.mp hpads
    cases content with
    | none =>
      obtain ⟨w', hstill, hget⟩ := net.run_scratchpadGet_none hpad
      exact ⟨_, ⟨w', hstill, runIn_bind_of_error (runIn_mapError_of_error hget)⟩,
        .inr (.inr ⟨rfl, _, rfl⟩)⟩
    | some piece =>
      obtain ⟨-, number, counter, hverify, hunder⟩ := hpad
      let scratchpad := Scratchpad.new client.crypto number (client.indexKey owner index)
        piece.contentType piece.content counter
      obtain ⟨w₁, hstill, hget⟩ := net.run_scratchpadGet hunder hverify
      have hlength : scratchpad.encryptedData.length = piece.content.length + overhead :=
        hencrypts.length _ _ _
      have hdecrypted : net.run (client.fetchScratchpadsOfOneGraphEntryAndDecrypt owner
          (((index, some piece) :: pads).map fun pad => client.derivedKey owner pad.1)
            text contentType) w
            = net.run (if scratchpad.encryptedData.length < maxContentPerScratchpad then
                return (text ++ piece.content, piece.contentType, true)
              else client.fetchScratchpadsOfOneGraphEntryAndDecrypt owner
                (pads.map fun pad => client.derivedKey owner pad.1)
                (text ++ piece.content) piece.contentType) w₁ := by
        refine (runIn_bind_of_ok (runIn_mapError_of_ok hget)).trans ?_
        have hdecrypt := Scratchpad.decryptData_new hencrypts number
          (client.indexKey owner index) piece.contentType piece.content counter
        refine (runIn_bind_of_ok ?_).trans rfl
        rw [hdecrypt]
        rfl
      rw [hlength] at hdecrypted
      by_cases hshort : piece.content.length + overhead < maxContentPerScratchpad
      · rw [if_pos hshort] at hdecrypted
        refine ⟨_, ⟨w₁, hstill, hdecrypted⟩, .inl ⟨(piece.content, piece.contentType), ?_, rfl⟩⟩
        rw [cons_append, readPads, if_pos hshort]
      · have hframe : ∀ pad ∈ pads, client.PadAt owner w₁ pad.1 pad.2 := fun pad hpad =>
          (hrest pad hpad).frame (by rw [hstill.store])
        obtain ⟨r, ⟨w', hstill', hrun⟩, hread⟩ :=
          ih (text ++ piece.content) piece.contentType w₁ hframe
        rw [if_neg hshort] at hdecrypted
        refine ⟨r, ⟨w', hstill.trans hstill', hdecrypted.trans hrun⟩, ?_⟩
        simp only [cons_append, readPads, if_neg hshort]
        rcases hread with ⟨read, hread, rfl⟩ | ⟨found, lastType, hread, rfl⟩ | ⟨hread, e, rfl⟩
        · refine .inl ⟨(piece.content ++ read.1, read.2), ?_, by rw [append_assoc]⟩
          rw [hread]
          rfl
        · refine .inr (.inl ⟨piece.content ++ found, lastType, ?_, by rw [append_assoc]⟩)
          rw [hread, Option.map_map]
          simp only [Function.comp_def, append_assoc]
        · exact .inr (.inr ⟨by rw [hread]; rfl, e, rfl⟩)

omit hencrypts in
theorem run_vaultGetFrom_succ {index : DerivationIndex} {block : Block}
    (hget : net.run (client.graphEntryGet (client.indexAddress owner index)) w
      = (.ok (client.blockEntry owner index block), w₁)) (steps : Nat) (text : Bytes) :
    net.run (client.vaultGetFrom owner (steps + 1) (client.indexAddress owner index) text) w
      = net.run (do
          let (decryptData, contentType, hasEndReached) ←
            client.fetchScratchpadsOfOneGraphEntryAndDecrypt owner
              (block.pads.map (client.derivedKey owner)) [] 0
          if hasEndReached then pure (some (text ++ decryptData, contentType))
          else (client.vaultGetFrom owner steps (client.indexAddress owner block.next)
            (text ++ decryptData))) w₁ :=
  (runIn_bind_of_ok (runIn_mapError_of_ok hget)).trans rfl

theorem run_vaultGetFrom :
    ∀ (blocks : List Block) (steps : Nat) (index : DerivationIndex) (pads : List Pad)
      (text : Bytes) (w : World),
      client.BlocksAt owner w index blocks →
      w.under client.crypto (client.indexAddress owner (freeIndex index blocks)) = none →
      pads.map Prod.fst = blocks.flatMap Block.pads →
      (∀ pad ∈ pads, client.PadAt owner w pad.1 pad.2) →
      blocks.length < steps →
      ∃ r, net.Reads (client.vaultGetFrom owner steps (client.indexAddress owner index) text) w r ∧
        ((∃ read, readPads overhead pads = some read ∧
          r = .ok (some (text ++ read.1, read.2))) ∨
        (readPads overhead pads = none ∧ ∃ e, r = .error e)) := by
  intro blocks
  induction blocks with
  | nil =>
    intro steps index pads text w _ hfree hindices _ hsteps
    obtain ⟨steps, rfl⟩ := Nat.exists_eq_succ_of_ne_zero (Nat.ne_of_gt hsteps)
    obtain rfl : pads = [] := map_eq_nil_iff.mp hindices
    obtain ⟨w', hstill, hget⟩ := net.run_graphEntryGet_none hfree
    exact ⟨_, ⟨w', hstill, runIn_bind_of_error (runIn_mapError_of_error hget)⟩, .inr ⟨rfl, _, rfl⟩⟩
  | cons block blocks ih =>
    intro steps index pads text w hchain hfree hindices hpads hsteps
    obtain ⟨steps, rfl⟩ := Nat.exists_eq_succ_of_ne_zero (Nat.ne_of_gt (Nat.zero_lt_of_lt hsteps))
    -- the pads of this entry, and those of the entries after it
    obtain ⟨here, more, rfl, hhere, hmore⟩ := map_eq_append_iff.mp hindices
    obtain ⟨hpadsHere, hpadsMore⟩ := forall_mem_append.mp hpads
    obtain ⟨w₁, hstill, hget⟩ := net.run_graphEntryGet hchain.1
    obtain ⟨r, ⟨w₂, hstill₂, hrun⟩, hread⟩ := net.run_fetchScratchpads hencrypts more here [] 0 w₁
      fun pad hpad => (hpadsHere pad hpad).frame (by rw [hstill.store])
    have hkeys : here.map (fun pad => client.derivedKey owner pad.1)
        = block.pads.map (client.derivedKey owner) := by
      rw [← hhere, map_map]
      rfl
    rw [hkeys] at hrun
    unfold Reads
    rw [net.run_vaultGetFrom_succ hget]
    rcases hread with ⟨read, hread, rfl⟩ | ⟨found, lastType, hread, rfl⟩ | ⟨hread, e, rfl⟩
    · exact ⟨_, ⟨w₂, hstill.trans hstill₂, (runIn_bind_of_ok hrun).trans rfl⟩,
        .inl ⟨read, hread, rfl⟩⟩
    · have hstore : w₂.store = w.store := (hstill.trans hstill₂).store
      obtain ⟨r, ⟨w', hstill', hrest⟩, hends⟩ := ih steps block.next more (text ++ found) w₂
        (BlocksAt.frame (fun _ _ _ => by rw [hstore]) _ _ hchain.2)
        (by rw [World.under, hstore]; exact hfree) hmore
        (fun pad hpad => (hpadsMore pad hpad).frame (by rw [hstore]))
        (Nat.lt_of_succ_lt_succ hsteps)
      refine ⟨r, ⟨w', (hstill.trans hstill₂).trans hstill',
        (runIn_bind_of_ok hrun).trans hrest⟩, ?_⟩
      rcases hends with ⟨read, hmoreRead, rfl⟩ | ⟨hmoreRead, e, rfl⟩
      · exact .inl ⟨(found ++ read.1, read.2), by rw [hread, hmoreRead]; rfl, by rw [append_assoc]⟩
      · exact .inr ⟨by rw [hread, hmoreRead]; rfl, e, rfl⟩
    · exact ⟨_, ⟨w₂, hstill.trans hstill₂, runIn_bind_of_error hrun⟩, .inr ⟨hread, e, rfl⟩⟩

/-- **What a get returns is what is in the scratchpads**, up to the first that looks like the
last. -/
theorem run_vaultGet (h : net.StoresVault owner limit w blocks pads) {steps : Nat}
    (hsteps : blocks.length < steps) : ∃ r, net.Reads (client.vaultGet steps owner) w r ∧
      ((∃ read, readPads overhead pads = some read ∧ r = .ok (some read)) ∨
      (readPads overhead pads = none ∧ ∃ e, r = .error e)) :=
  net.run_vaultGetFrom hencrypts blocks steps vaultHeadDerivationIndex pads [] w h.chain
    (h.unused _ mem_cons_self) h.indices h.pad hsteps

end Reading

end Network

end Client

end Autonomi
